import LinearDialogue.Authored.Document
import Mathlib.Data.List.Nodup

/-!
# Graphs as the operations make them

However a graph is put together, its nodes have different ids, and an edge to an id of text leads to
a member that is no entry.  A removed node takes its edges with it, so a later node of its id starts
without any.
-/

namespace LinearDialogue

/-- A label that is a plain text, as ids are as a rule. -/
def Label.IsText (label : Label) : Prop := ∃ s, label = .plain (.text s)

/-- The bodies that documents have: none of a choice, and callbacks in a list. -/
inductive NodeBody.IsPlain : NodeBody → Prop
  | entry : IsPlain .entry
  | exit (callbacks : List Value) : IsPlain (.exit (.list callbacks))
  | line (actor audio text : Binding) (callbacks : List Value) :
      IsPlain (.line ⟨actor, audio, text, .list callbacks⟩)

namespace Label.IsText

variable {label other : Label}

theorem agrees_iff (h : label.IsText) : other.agrees label = true ↔ other = label := by
  obtain ⟨s, rfl⟩ := h
  rcases other with v | v | v
  · cases v <;> simp [agrees, Value.agrees, Value.rank?]
  · simp [agrees]
  · simp [agrees]

theorem agrees_iff' (h : label.IsText) : label.agrees other = true ↔ label = other := by
  obtain ⟨s, rfl⟩ := h
  rcases other with v | v | v
  · cases v <;> simp [agrees, Value.agrees, Value.rank?]
  · simp [agrees]
  · simp [agrees]

theorem matchesKey_iff (h : label.IsText) : other.matchesKey label = true ↔ other = label := by
  simp [matchesKey, h.agrees_iff]

theorem matchesKey_iff' (h : label.IsText) : label.matchesKey other = true ↔ label = other := by
  simp [matchesKey, h.agrees_iff']

end Label.IsText

namespace Graph

variable {g g' : Graph} {node source target : Node} {id : Label}

/-! ## What the operations do -/

theorem isKey_of_checkKey_eq_ok {label : Label} (h : label.checkKey = .ok ()) :
    label.isKey = true := by
  by_contra hnone
  simp [Label.checkKey, hnone] at h

theorem eq_of_add_eq_ok (h : g.add node = .ok g') :
    node.id.isKey = true ∧ (∀ member ∈ g.nodes, member.key.matchesKey node.id = false) ∧
      g' = { g with nodes := g.nodes ++ [node] } := by
  obtain ⟨found, hfound, h⟩ := bind_eq_ok_iff.mp h
  obtain ⟨_, hkey, hfind⟩ := bind_eq_ok_iff.mp hfound
  cases hfind
  cases hnone : g.find? node.id with
  | some old => simp [hnone] at h
  | none =>
      rw [hnone] at h
      cases h
      refine ⟨isKey_of_checkKey_eq_ok hkey, fun member hmember ↦ ?_, rfl⟩
      exact Bool.eq_false_iff.mpr (List.find?_eq_none.mp hnone member hmember)

theorem eq_of_remove_eq_ok (h : g.remove id = .ok g') :
    g' = { g with
      nodes := g.nodes.filter fun node ↦ !node.key.matchesKey id
      edges := g.edges.filter fun e ↦ !e.source.agrees id && !e.target.agrees id } := by
  unfold remove at h
  split at h
  · obtain ⟨_, _, h⟩ := bind_eq_ok_iff.mp h
    cases h
    rfl
  · cases h
    rfl

theorem hasPoint_of_checkPoint_eq_ok {point : Point} (h : checkPoint node point = .ok ()) :
    node.hasPoint point = true := by
  by_contra hnone
  simp [checkPoint, hnone] at h

theorem eq_of_connect_eq_ok (h : g.connect source target = .ok g') :
    source.hasPoint .output = true ∧ target.hasPoint .input = true ∧
      g' = { g with edges := g.edges ++ [⟨source.id, target.id⟩] } := by
  obtain ⟨_, hsource, h⟩ := bind_eq_ok_iff.mp h
  obtain ⟨_, htarget, h⟩ := bind_eq_ok_iff.mp h
  obtain ⟨_, _, h⟩ := bind_eq_ok_iff.mp h
  obtain ⟨_, _, h⟩ := bind_eq_ok_iff.mp h
  cases h
  exact ⟨hasPoint_of_checkPoint_eq_ok hsource, hasPoint_of_checkPoint_eq_ok htarget, rfl⟩

theorem eq_of_setVariable_eq_ok {name default : Value} (h : g.setVariable name default = .ok g') :
    name.isKey = true ∧
      g' = { g with defaults := enter Value.matchesKey name default g.defaults } := by
  obtain ⟨_, hkey, h⟩ := bind_eq_ok_iff.mp h
  cases h
  refine ⟨?_, rfl⟩
  by_contra hnone
  simp [checkKey, hnone] at hkey

theorem mem_of_lookup_eq_ok (h : g.lookup id = .ok (some node)) : node ∈ g.nodes := by
  obtain ⟨_, _, h⟩ := bind_eq_ok_iff.mp h
  exact List.mem_of_find?_eq_some (Except.ok.inj h)

/-- An edge of a document connects members. -/
theorem exists_connect_of_addEdge_eq_ok {v : Value} (h : g.addEdge v = .ok g') :
    ∃ source ∈ g.nodes, ∃ target ∈ g.nodes, g.connect source target = .ok g' := by
  obtain ⟨_, _, h⟩ := bind_eq_ok_iff.mp h
  obtain ⟨_, _, h⟩ := bind_eq_ok_iff.mp h
  obtain ⟨_, _, h⟩ := bind_eq_ok_iff.mp h
  obtain ⟨source?, hsource, h⟩ := bind_eq_ok_iff.mp h
  obtain ⟨target?, htarget, h⟩ := bind_eq_ok_iff.mp h
  cases source? with
  | none => simp at h
  | some source =>
      cases target? with
      | none => simp at h
      | some target =>
          exact ⟨source, mem_of_lookup_eq_ok hsource, target, mem_of_lookup_eq_ok htarget, h⟩

/-! ## What they keep -/

/-- What the operations keep of a graph: its nodes are as they were made, with ids of their own, and
an edge to an id of text leads to a member other than an entry. -/
structure WellMade (g : Graph) : Prop where
  asMade : ∀ node ∈ g.nodes, node.overrides = {}
  nodup : (g.nodes.map Node.id).Nodup
  targets : ∀ edge ∈ g.edges, edge.target.IsText →
    ∃ node ∈ g.nodes, node.id = edge.target ∧ node.kind ≠ .entry

theorem WellMade.key_eq (hg : g.WellMade) (hnode : node ∈ g.nodes) : node.key = node.id := by
  simp [Node.key, hg.asMade node hnode]

theorem wellMade_blank (name : Value) : WellMade { name } :=
  ⟨by simp, by simp, by simp⟩

theorem WellMade.add (hg : g.WellMade) (hnode : node.overrides = {}) (h : g.add node = .ok g') :
    g'.WellMade := by
  obtain ⟨-, hnew, rfl⟩ := eq_of_add_eq_ok h
  refine ⟨?_, ?_, ?_⟩
  · simpa [or_imp, forall_and, hnode] using hg.asMade
  · rw [List.map_append, List.nodup_append]
    refine ⟨hg.nodup, List.nodup_singleton _, ?_⟩
    rintro _ hold _ hid rfl
    obtain ⟨member, hmember, hsame⟩ := List.mem_map.mp hold
    have hother := hnew member hmember
    rw [hg.key_eq hmember, hsame, List.mem_singleton.mp hid] at hother
    simp [Label.matchesKey] at hother
  · intro edge hedge htext
    obtain ⟨member, hmember, htarget⟩ := hg.targets edge hedge htext
    exact ⟨member, List.mem_append_left _ hmember, htarget⟩

theorem WellMade.remove (hg : g.WellMade) (h : g.remove id = .ok g') : g'.WellMade := by
  obtain rfl := eq_of_remove_eq_ok h
  refine ⟨?_, ?_, ?_⟩
  · intro node hnode
    exact hg.asMade node (List.mem_of_mem_filter hnode)
  · exact hg.nodup.sublist (List.filter_sublist.map Node.id)
  · intro edge hedge htext
    obtain ⟨hedge, hkept⟩ := List.mem_filter.mp hedge
    obtain ⟨member, hmember, htarget, hkind⟩ := hg.targets edge hedge htext
    refine ⟨member, List.mem_filter.mpr ⟨hmember, ?_⟩, htarget, hkind⟩
    -- the member goes only if its id is the removed one, and then the edge goes too
    have hother : edge.target ≠ id := by
      rintro rfl
      have hself : edge.target.agrees edge.target = true := htext.agrees_iff.mpr rfl
      simp [hself] at hkept
    have hmatch : ¬ edge.target.matchesKey id = true := fun h ↦
      hother (htext.matchesKey_iff'.mp h)
    rw [hg.key_eq hmember, htarget]
    simpa using hmatch

theorem WellMade.connect (hg : g.WellMade) (htarget : target ∈ g.nodes)
    (h : g.connect source target = .ok g') : g'.WellMade := by
  obtain ⟨-, hpoint, rfl⟩ := eq_of_connect_eq_ok h
  refine ⟨hg.asMade, hg.nodup, ?_⟩
  intro edge hedge htext
  rcases List.mem_append.mp hedge with hedge | hedge
  · exact hg.targets edge hedge htext
  · rw [List.mem_singleton.mp hedge]
    refine ⟨target, htarget, rfl, ?_⟩
    intro hentry
    simp [Node.hasPoint, hg.asMade target htarget, hentry, NodeKind.hasPoint] at hpoint

theorem WellMade.disconnect (hg : g.WellMade) (source target : Label) :
    (g.disconnect source target).WellMade :=
  ⟨hg.asMade, hg.nodup, fun edge hedge ↦ hg.targets edge (List.mem_of_mem_filter hedge)⟩

theorem WellMade.setVariable {name default : Value} (hg : g.WellMade)
    (h : g.setVariable name default = .ok g') : g'.WellMade := by
  obtain ⟨-, rfl⟩ := eq_of_setVariable_eq_ok h
  exact ⟨hg.asMade, hg.nodup, hg.targets⟩

/-- What every step keeps, a fold keeps. -/
theorem foldlM_keeps {α β : Type} {keeps : β → Prop} {f : β → α → Except Failure β}
    (hstep : ∀ {b a b'}, keeps b → f b a = .ok b' → keeps b') {xs : List α} {b b' : β}
    (hb : keeps b) (h : xs.foldlM f b = .ok b') : keeps b' := by
  induction xs generalizing b with
  | nil =>
      cases h
      exact hb
  | cons a xs ih =>
      rw [List.foldlM_cons] at h
      obtain ⟨c, hc, h⟩ := bind_eq_ok_iff.mp h
      exact ih (hstep hb hc) h

theorem exists_of_callbacksOf_eq_ok {fields : List (String × Value)} {field : CallbackField}
    (h : callbacksOf fields = .ok field) : ∃ callbacks, field = .list callbacks := by
  rw [callbacksOf] at h
  cases hitems : ((Value.lookup "callbacks" fields).getD (.list [])).items? with
  | error failure => simp [hitems, Except.map] at h
  | ok items =>
      rw [hitems] at h
      cases h
      exact ⟨items, rfl⟩

/-- A document makes a node without overrides, with its callbacks in a list. -/
theorem of_nodeOfDocument_eq_ok {v : Value} (h : Node.ofDocument v = .ok node) :
    node.overrides = {} ∧ node.body.IsPlain := by
  obtain ⟨fields, _, h⟩ := bind_eq_ok_iff.mp h
  obtain ⟨kind, _, h⟩ := bind_eq_ok_iff.mp h
  cases kind with
  | line =>
      obtain ⟨_, _, h⟩ := bind_eq_ok_iff.mp h
      obtain ⟨_, _, h⟩ := bind_eq_ok_iff.mp h
      obtain ⟨_, _, h⟩ := bind_eq_ok_iff.mp h
      obtain ⟨_, _, h⟩ := bind_eq_ok_iff.mp h
      obtain ⟨field, hfield, h⟩ := bind_eq_ok_iff.mp h
      cases h
      obtain ⟨callbacks, rfl⟩ := exists_of_callbacksOf_eq_ok hfield
      exact ⟨rfl, .line _ _ _ callbacks⟩
  | exit =>
      obtain ⟨_, _, h⟩ := bind_eq_ok_iff.mp h
      obtain ⟨field, hfield, h⟩ := bind_eq_ok_iff.mp h
      cases h
      obtain ⟨callbacks, rfl⟩ := exists_of_callbacksOf_eq_ok hfield
      exact ⟨rfl, .exit callbacks⟩
  | entry =>
      obtain ⟨_, _, h⟩ := bind_eq_ok_iff.mp h
      cases h
      exact ⟨rfl, .entry⟩
  | choice =>
      obtain ⟨_, _, h⟩ := bind_eq_ok_iff.mp h
      cases h
      exact ⟨rfl, .entry⟩

/-- What holds of a blank graph and is kept by each operation that reading uses, holds of every
graph that is read. -/
theorem ofDocument_keeps (keeps : Graph → Prop) {v : Value} (hblank : ∀ name, keeps { name })
    (hvariable : ∀ {g g' : Graph} {name default : Value}, keeps g →
      g.setVariable name default = .ok g' → keeps g')
    (hnode : ∀ {g g' : Graph} {node : Node}, keeps g → node.overrides = {} → node.body.IsPlain →
      g.add node = .ok g' → keeps g')
    (hedge : ∀ {g g' : Graph} {source target : Node}, keeps g → source ∈ g.nodes →
      target ∈ g.nodes → g.connect source target = .ok g' → keeps g')
    (h : ofDocument v = .ok g) : keeps g := by
  obtain ⟨fields, _, h⟩ := bind_eq_ok_iff.mp h
  obtain ⟨_, _, h⟩ := bind_eq_ok_iff.mp h
  obtain ⟨declared, hdeclared, h⟩ := bind_eq_ok_iff.mp h
  obtain ⟨_, _, h⟩ := bind_eq_ok_iff.mp h
  obtain ⟨filled, hfilled, h⟩ := bind_eq_ok_iff.mp h
  obtain ⟨_, _, h⟩ := bind_eq_ok_iff.mp h
  have hdeclares : keeps declared := by
    refine foldlM_keeps hvariable ?_ hdeclared
    split
    · exact hblank _
    · exact hblank _
  have hfills : keeps filled := by
    refine foldlM_keeps (fun hb hadd ↦ ?_) hdeclares hfilled
    obtain ⟨node, hmade, hadd⟩ := bind_eq_ok_iff.mp hadd
    obtain ⟨hoverrides, hbody⟩ := of_nodeOfDocument_eq_ok hmade
    exact hnode hb hoverrides hbody hadd
  refine foldlM_keeps (fun hb hadd ↦ ?_) hfills h
  obtain ⟨source, hsource, target, htarget, hconnect⟩ := exists_connect_of_addEdge_eq_ok hadd
  exact hedge hb hsource htarget hconnect

theorem wellMade_of_ofDocument_eq_ok {v : Value} (h : ofDocument v = .ok g) : g.WellMade :=
  ofDocument_keeps WellMade wellMade_blank (fun hb ↦ hb.setVariable)
    (fun hb hoverrides _ hadd ↦ hb.add hoverrides hadd)
    (fun hb _ htarget hconnect ↦ hb.connect htarget hconnect) h

/-- A graph as the operations on graphs make it: blank, read from a document, or got from another
one by one operation more.  The nodes that are connected are members. -/
inductive Authored : Graph → Prop
  | blank (name : Value) : Authored { name }
  | document {g : Graph} {v : Value} (h : ofDocument v = .ok g) : Authored g
  | add {g g' : Graph} {node : Node} (hg : Authored g) (hnode : node.overrides = {})
      (h : g.add node = .ok g') : Authored g'
  | remove {g g' : Graph} {id : Label} (hg : Authored g) (h : g.remove id = .ok g') : Authored g'
  | connect {g g' : Graph} {source target : Node} (hg : Authored g) (hsource : source ∈ g.nodes)
      (htarget : target ∈ g.nodes) (h : g.connect source target = .ok g') : Authored g'
  | disconnect {g : Graph} (hg : Authored g) (source target : Label) :
      Authored (g.disconnect source target)
  | setVariable {g g' : Graph} {name default : Value} (hg : Authored g)
      (h : g.setVariable name default = .ok g') : Authored g'

theorem Authored.wellMade (h : g.Authored) : g.WellMade := by
  induction h with
  | blank name => exact wellMade_blank name
  | document h => exact wellMade_of_ofDocument_eq_ok h
  | add _ hnode h ih => exact ih.add hnode h
  | remove _ h ih => exact ih.remove h
  | connect _ _ htarget h ih => exact ih.connect htarget h
  | disconnect _ source target ih => exact ih.disconnect source target
  | setVariable _ h ih => exact ih.setVariable h

end Graph

end LinearDialogue
