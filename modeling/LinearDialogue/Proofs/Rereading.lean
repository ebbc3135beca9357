import LinearDialogue.Proofs.NodeDocuments
import LinearDialogue.Proofs.Scripts
import Mathlib.Data.List.Pairwise

/-!
# Documents that are read again

A graph that was read from a document, or that has been put together from entries, exits and lines,
comes back from its document as it was: the checks that its nodes and edges run through once more
have been passed before.
-/

namespace LinearDialogue

/-! ## Graphs that pass the checks once more -/

namespace Graph

variable {g g' : Graph} {node source target : Node} {id : Label}

/-- A fold that enters one item after another, each of them being accepted after those before. -/
theorem foldlM_eq_ok {α β γ : Type} {f : β → γ → Except Failure β} {r : α → γ → Prop}
    (state : List α → β) {all : List α} {items : List γ} (hitems : List.Forall₂ r all items)
    (hstep : ∀ before a after c, all = before ++ a :: after → r a c →
      f (state before) c = .ok (state (before ++ [a]))) :
    items.foldlM f (state []) = .ok (state all) := by
  have hrest : ∀ before after items, all = before ++ after → List.Forall₂ r after items →
      items.foldlM f (state before) = .ok (state all) := by
    intro before after items hall hitems
    induction hitems generalizing before with
    | nil =>
        rw [hall, List.append_nil]
        rfl
    | @cons a c after items hac _ ih =>
        rw [List.foldlM_cons]
        refine bind_eq_ok_iff.mpr ⟨_, hstep before a after c hall hac, ?_⟩
        exact ih (before ++ [a]) (by simpa using hall)
  exact hrest [] all items rfl hitems

theorem exists_forall₂ {α β : Type} {r : α → β → Prop} {xs : List α} (h : ∀ a ∈ xs, ∃ b, r a b) :
    ∃ ys, List.Forall₂ r xs ys := by
  induction xs with
  | nil => exact ⟨[], .nil⟩
  | cons a xs ih =>
      obtain ⟨b, hb⟩ := h a List.mem_cons_self
      obtain ⟨ys, hys⟩ := ih fun c hc ↦ h c (List.mem_cons_of_mem a hc)
      exact ⟨b :: ys, .cons hb hys⟩

theorem forall₂_eq {α : Type} (xs : List α) : List.Forall₂ Eq xs xs :=
  List.forall₂_same.mpr fun _ _ ↦ rfl

/-- What the operations keep of a graph that is drawn of plain nodes: no two of them are named by
one key, every edge leads from an output of a member to an input of one, and no two variables are
named by one key. -/
structure Intact (g : Graph) : Prop where
  plain : ∀ node ∈ g.nodes, node.IsPlain
  apart : g.nodes.Pairwise fun a b ↦ a.id.matchesKey b.id = false
  edges : ∀ edge ∈ g.edges, ∃ source ∈ g.nodes, ∃ target ∈ g.nodes,
    edge = ⟨source.id, target.id⟩ ∧ source.hasPoint .output = true ∧ target.hasPoint .input = true
  keys : ∀ v ∈ g.defaults, v.1.isKey = true
  names : g.defaults.Pairwise fun v w ↦ v.1.matchesKey w.1 = false

namespace Intact

/-- A member is found under its id. -/
theorem find?_eq_some (hg : g.Intact) (hnode : node ∈ g.nodes) : g.find? node.id = some node := by
  have hself : node.key.matchesKey node.id = true := by
    simp [(hg.plain node hnode).key_eq, Label.matchesKey]
  have hapart : g.nodes.Pairwise fun a b ↦ a.key.matchesKey b.id = false :=
    hg.apart.imp_of_mem fun ha _ hab ↦ (hg.plain _ ha).key_eq ▸ hab
  exact find?_eq_some_of_pairwise (r := fun a b ↦ a.key.matchesKey b.id) hself hapart hnode

theorem lookup_eq_ok (hg : g.Intact) (hnode : node ∈ g.nodes) :
    g.lookup node.id = .ok (some node) := by
  simp [lookup, Label.checkKey, (hg.plain node hnode).isKey, hg.find?_eq_some hnode, bind,
    Except.bind, pure, Except.pure]

/-! ### What the operations keep -/

theorem blank (name : Value) : Intact { name } :=
  ⟨by simp, List.Pairwise.nil, by simp, by simp, List.Pairwise.nil⟩

theorem add (hg : g.Intact) (hasMade : node.overrides = {}) (hbody : node.body.IsPlain)
    (hid : node.id.agrees node.id = true) (h : g.add node = .ok g') : g'.Intact := by
  obtain ⟨hkey, hnew, rfl⟩ := eq_of_add_eq_ok h
  constructor
  · intro member hmember
    rcases List.mem_append.mp hmember with hmember | hmember
    · exact hg.plain member hmember
    · rw [List.mem_singleton.mp hmember]
      exact ⟨hasMade, hbody, hkey, hid⟩
  · refine List.pairwise_append.mpr ⟨hg.apart, List.pairwise_singleton _ _, ?_⟩
    intro member hmember other hother
    rw [List.mem_singleton.mp hother, ← (hg.plain member hmember).key_eq]
    exact hnew member hmember
  · intro edge hedge
    obtain ⟨source, hsource, target, htarget, hends⟩ := hg.edges edge hedge
    exact ⟨source, List.mem_append_left _ hsource, target, List.mem_append_left _ htarget, hends⟩
  · exact hg.keys
  · exact hg.names

/-- A node that is removed takes its edges with it. -/
theorem remove (hg : g.Intact) (h : g.remove id = .ok g') : g'.Intact := by
  obtain rfl := eq_of_remove_eq_ok h
  have hkept {member : Node} (hmember : member ∈ g.nodes) (hother : member.id.agrees id = false) :
      member ∈ g.nodes.filter fun node ↦ !node.key.matchesKey id := by
    refine List.mem_filter.mpr ⟨hmember, ?_⟩
    rw [(hg.plain member hmember).key_eq, Bool.not_eq_true']
    by_contra hmatch
    have hagrees :=
      (hg.plain member hmember).agrees_of_matchesKey (Bool.not_eq_false _ |>.mp hmatch)
    simp [hother] at hagrees
  constructor
  · exact fun member hmember ↦ hg.plain member (List.mem_of_mem_filter hmember)
  · exact hg.apart.filter _
  · intro edge hedge
    obtain ⟨hedge, hfree⟩ := List.mem_filter.mp hedge
    obtain ⟨source, hsource, target, htarget, rfl, hpoints⟩ := hg.edges edge hedge
    simp only [Bool.and_eq_true, Bool.not_eq_true'] at hfree
    exact ⟨source, hkept hsource hfree.1, target, hkept htarget hfree.2, rfl, hpoints⟩
  · exact hg.keys
  · exact hg.names

theorem connect (hg : g.Intact) (hsource : source ∈ g.nodes) (htarget : target ∈ g.nodes)
    (h : g.connect source target = .ok g') : g'.Intact := by
  obtain ⟨houtput, hinput, rfl⟩ := eq_of_connect_eq_ok h
  refine ⟨hg.plain, hg.apart, fun edge hedge ↦ ?_, hg.keys, hg.names⟩
  rcases List.mem_append.mp hedge with hedge | hedge
  · exact hg.edges edge hedge
  · exact ⟨source, hsource, target, htarget, List.mem_singleton.mp hedge, houtput, hinput⟩

theorem disconnect (hg : g.Intact) (source target : Label) :
    (g.disconnect source target).Intact :=
  ⟨hg.plain, hg.apart, fun edge hedge ↦ hg.edges edge (List.mem_of_mem_filter hedge), hg.keys,
    hg.names⟩

theorem mem_enter {name default : Value} {defaults : List (Value × Value)} {v : Value × Value}
    (h : v ∈ enter Value.matchesKey name default defaults) :
    v.1 = name ∨ ∃ w ∈ defaults, w.1 = v.1 := by
  induction defaults with
  | nil =>
      rw [List.mem_singleton.mp h]
      exact Or.inl rfl
  | cons first rest ih =>
      rw [enter] at h
      split at h
      · rcases List.mem_cons.mp h with rfl | h
        · exact Or.inr ⟨first, List.mem_cons_self, rfl⟩
        · exact Or.inr ⟨v, List.mem_cons_of_mem first h, rfl⟩
      · rcases List.mem_cons.mp h with rfl | h
        · exact Or.inr ⟨_, List.mem_cons_self, rfl⟩
        · rcases ih h with heq | ⟨w, hw, heq⟩
          · exact Or.inl heq
          · exact Or.inr ⟨w, List.mem_cons_of_mem first hw, heq⟩

theorem pairwise_enter {name default : Value} {defaults : List (Value × Value)}
    (h : defaults.Pairwise fun v w ↦ v.1.matchesKey w.1 = false) :
    (enter Value.matchesKey name default defaults).Pairwise fun v w ↦
      v.1.matchesKey w.1 = false := by
  induction defaults with
  | nil => exact List.pairwise_singleton _ _
  | cons first rest ih =>
      obtain ⟨hfirst, hrest⟩ := List.pairwise_cons.mp h
      rw [enter]
      split
      · exact List.pairwise_cons.mpr ⟨hfirst, hrest⟩
      · next hother =>
        refine List.pairwise_cons.mpr ⟨fun v hv ↦ ?_, ih hrest⟩
        rcases mem_enter hv with heq | ⟨w, hw, heq⟩
        · rw [heq]
          exact Bool.eq_false_iff.mpr hother
        · rw [← heq]
          exact hfirst w hw

theorem setVariable {name default : Value} (hg : g.Intact)
    (h : g.setVariable name default = .ok g') : g'.Intact := by
  obtain ⟨hkey, rfl⟩ := eq_of_setVariable_eq_ok h
  refine ⟨hg.plain, hg.apart, hg.edges, fun v hv ↦ ?_, pairwise_enter hg.names⟩
  rcases mem_enter hv with heq | ⟨w, hw, heq⟩
  · rw [heq]
    exact hkey
  · rw [← heq]
    exact hg.keys w hw

/-- Different members are named by different keys. -/
theorem matchesKey_eq_false (hg : g.Intact) (hnode : node ∈ g.nodes) (hsource : source ∈ g.nodes)
    (hne : source ≠ node) : source.id.matchesKey node.id = false := by
  have hboth : g.nodes.Pairwise fun a b ↦
      a.id.matchesKey b.id = false ∧ b.id.matchesKey a.id = false := by
    refine hg.apart.imp_of_mem fun {a b} ha hb hab ↦ ⟨hab, ?_⟩
    rw [Label.matchesKey_comm (hg.plain b hb).isKey (hg.plain a ha).isKey]
    exact hab
  have hsymm : Std.Symm fun a b : Node ↦
      a.id.matchesKey b.id = false ∧ b.id.matchesKey a.id = false := ⟨fun a b hab ↦ ⟨hab.2, hab.1⟩⟩
  exact (hboth.forall hsource hnode hne).1

theorem replace_eq (hg : g.Intact) (hnode : node ∈ g.nodes) (body : NodeBody) :
    g.replace node.id { node with body } =
      { g with nodes := g.nodes.map fun member ↦
          if member = node then { node with body } else member } := by
  have hmember (member : Node) (hmember : member ∈ g.nodes) :
      (if member.key.matchesKey node.id then ({ node with body } : Node).under member.key
        else member) = if member = node then { node with body } else member := by
    rw [(hg.plain member hmember).key_eq]
    by_cases heq : member = node
    · subst heq
      simp [Label.matchesKey, Node.under, (hg.plain member hmember).asMade]
    · rw [hg.matchesKey_eq_false hnode hmember heq, if_neg Bool.false_ne_true, if_neg heq]
  rw [replace, List.map_congr_left hmember]

/-- A member whose fields are edited stays the node of its kind that is held under its id. -/
theorem edit {body : NodeBody} (hg : g.Intact) (hnode : node ∈ g.nodes)
    (hkind : ({ node with body } : Node).kind = node.kind) (hbody : body.IsPlain) :
    (g.replace node.id { node with body }).Intact := by
  rw [hg.replace_eq hnode body]
  let edited (member : Node) : Node := if member = node then { node with body } else member
  have hid (member : Node) : (edited member).id = member.id := by
    simp only [edited]
    split
    · next heq => rw [heq]
    · rfl
  have hpoint (member : Node) (point : Point) :
      (edited member).hasPoint point = member.hasPoint point := by
    simp only [edited]
    split
    · next heq => cases point <;> simp [Node.hasPoint, hkind, heq]
    · rfl
  constructor
  · intro member hmember
    obtain ⟨old, hold, rfl⟩ := List.mem_map.mp hmember
    have hplain := hg.plain old hold
    split
    · next heq =>
      subst heq
      exact ⟨hplain.asMade, hbody, hplain.isKey, hplain.agrees⟩
    · exact hplain
  · refine List.pairwise_map.mpr (hg.apart.imp fun {a b} hab ↦ ?_)
    rw [← hid a, ← hid b] at hab
    exact hab
  · intro edge hedge
    obtain ⟨source, hsource, target, htarget, rfl, houtput, hinput⟩ := hg.edges edge hedge
    refine ⟨edited source, List.mem_map_of_mem hsource, edited target, List.mem_map_of_mem htarget,
      ?_, ?_, ?_⟩
    · rw [hid, hid]
    · rw [hpoint, houtput]
    · rw [hpoint, hinput]
  · exact hg.keys
  · exact hg.names

/-! ### Entering everything once more -/

/-- The variables of a graph are declared as they stand. -/
theorem setVariable_append (hg : g.Intact) {before after : List (Value × Value)}
    {v : Value × Value} (h : g.defaults = before ++ v :: after) (name : Value) :
    Graph.setVariable { name, defaults := before } v.1 v.2 =
      .ok { name, defaults := before ++ [v] } := by
  have hkey : v.1.isKey = true := hg.keys v (by simp [h])
  have hnames := hg.names
  rw [h, List.pairwise_append] at hnames
  have hnew : ∀ w ∈ before, w.1.matchesKey v.1 = false :=
    fun w hw ↦ hnames.2.2 w hw v List.mem_cons_self
  refine bind_eq_ok_iff.mpr ⟨(), by simp [checkKey, hkey], ?_⟩
  rw [enter_eq_append hnew]
  rfl

/-- The nodes of a graph are added as they stand. -/
theorem add_append (hg : g.Intact) {before after : List Node}
    (h : g.nodes = before ++ node :: after) :
    Graph.add { g with nodes := before, edges := [] } node =
      .ok { g with nodes := before ++ [node], edges := [] } := by
  have hkey : node.id.isKey = true := (hg.plain node (by simp [h])).isKey
  have hapart := hg.apart
  rw [h, List.pairwise_append] at hapart
  have hnew : find? { g with nodes := before, edges := [] } node.id = none := by
    refine List.find?_eq_none.mpr fun member hmember ↦ ?_
    rw [(hg.plain member (by simp [h, List.mem_append_left _ hmember])).key_eq,
      hapart.2.2 member hmember node List.mem_cons_self]
    exact Bool.false_ne_true
  have hlookup : lookup { g with nodes := before, edges := [] } node.id = .ok none := by
    refine bind_eq_ok_iff.mpr ⟨(), by simp [Label.checkKey, hkey], ?_⟩
    rw [hnew]
    rfl
  refine bind_eq_ok_iff.mpr ⟨none, hlookup, rfl⟩

/-- The edges of a graph are joined as they stand. -/
theorem join_append (hg : g.Intact) {before after : List Edge} {edge : Edge}
    (h : g.edges = before ++ edge :: after) :
    join { g with edges := before } edge.source edge.target =
      .ok { g with edges := before ++ [edge] } := by
  obtain ⟨source, hsource, target, htarget, rfl, houtput, hinput⟩ :=
    hg.edges edge (by simp [h])
  have hfound : lookup { g with edges := before } source.id = .ok (some source) :=
    hg.lookup_eq_ok hsource
  have hfound' : lookup { g with edges := before } target.id = .ok (some target) :=
    hg.lookup_eq_ok htarget
  have hchecked : checkMember { g with edges := before } source.id = .ok () :=
    bind_eq_ok_iff.mpr ⟨_, hfound, rfl⟩
  have hchecked' : checkMember { g with edges := before } target.id = .ok () :=
    bind_eq_ok_iff.mpr ⟨_, hfound', rfl⟩
  refine bind_eq_ok_iff.mpr ⟨_, hfound, bind_eq_ok_iff.mpr ⟨_, hfound', ?_⟩⟩
  refine bind_eq_ok_iff.mpr ⟨(), by rw [checkPoint, if_pos houtput], ?_⟩
  refine bind_eq_ok_iff.mpr ⟨(), by rw [checkPoint, if_pos hinput], ?_⟩
  exact bind_eq_ok_iff.mpr ⟨(), hchecked, bind_eq_ok_iff.mpr ⟨(), hchecked', rfl⟩⟩

/-- So they are when they are read from their documents. -/
theorem addEdge_append (hg : g.Intact) (hids : ∀ node ∈ g.nodes, ∃ v, node.id = .plain v)
    {before after : List Edge} {edge : Edge} (h : g.edges = before ++ edge :: after) :
    addEdge { g with edges := before } edge.document =
      .ok { g with edges := before ++ [edge] } := by
  obtain ⟨source, hsource, target, htarget, rfl, -⟩ := hg.edges edge (by simp [h])
  obtain ⟨v, hv⟩ := hids source hsource
  obtain ⟨w, hw⟩ := hids target htarget
  have hkey := (hg.plain source hsource).isKey
  rw [hv] at hkey
  have hjoin := hg.join_append h
  simp only [hv, hw] at hjoin ⊢
  refine bind_eq_ok_iff.mpr ⟨v, rfl, bind_eq_ok_iff.mpr ⟨(), ?_, ?_⟩⟩
  · simpa [checkKey, Label.isKey] using hkey
  · exact bind_eq_ok_iff.mpr ⟨w, rfl, hjoin⟩

/-- The variables can be declared anew under any names that they have. -/
theorem redeclare (hg : g.Intact) (name : Value) :
    g.defaults.foldlM (fun (h : Graph) v ↦ h.setVariable v.1 v.2) { name } =
      .ok { name, defaults := g.defaults } := by
  refine foldlM_eq_ok (fun before ↦ ({ name, defaults := before } : Graph))
    (forall₂_eq g.defaults) ?_
  rintro before v after _ h rfl
  exact hg.setVariable_append h name

theorem reread_eq_ok (hg : g.Intact) : g.reread = .ok g := by
  refine bind_eq_ok_iff.mpr ⟨{ g with edges := [] }, ?_, ?_⟩
  · refine foldlM_eq_ok (fun before ↦ ({ g with nodes := before, edges := [] } : Graph))
      (forall₂_eq g.nodes) ?_
    rintro before node after _ h rfl
    obtain ⟨fields, hfields, hread⟩ := (hg.plain node (by simp [h])).ofFields_fields
    refine bind_eq_ok_iff.mpr ⟨fields, hfields, bind_eq_ok_iff.mpr ⟨node, hread, ?_⟩⟩
    exact hg.add_append h
  · refine foldlM_eq_ok (fun before ↦ ({ g with edges := before } : Graph))
      (forall₂_eq g.edges) ?_
    rintro before edge after _ h rfl
    exact hg.join_append h

/-- A graph has a document, and it holds what reading makes the graph of. -/
theorem exists_document (hg : g.Intact) (hids : ∀ node ∈ g.nodes, ∃ v, node.id = .plain v) :
    ∃ document, g.document = .ok document ∧
      ((∀ v ∈ g.defaults, ∃ name, v.1 = .text name) → ofDocument document = .ok g) := by
  obtain ⟨documents, hdocuments⟩ := exists_forall₂ fun node hnode ↦ by
    obtain ⟨v, hv⟩ := hids node hnode
    exact (hg.plain node hnode).ofDocument_document hv
  refine ⟨_, bind_eq_ok_iff.mpr
    ⟨documents, mapM_eq_ok_of_forall₂ (hdocuments.imp fun _ _ h ↦ h.1), rfl⟩, fun hnames ↦ ?_⟩
  refine bind_eq_ok_iff.mpr ⟨_, rfl, bind_eq_ok_iff.mpr ⟨_, rfl, ?_⟩⟩
  refine bind_eq_ok_iff.mpr ⟨{ name := g.name, defaults := g.defaults }, ?_, ?_⟩
  · have hfields : List.Forall₂ (fun v field ↦ field = (v.1.plain, v.2)) g.defaults
        (g.defaults.map fun v ↦ (v.1.plain, v.2)) := by
      simp [List.forall₂_map_right_iff, List.forall₂_same]
    refine foldlM_eq_ok (fun before ↦ ({ name := g.name, defaults := before } : Graph))
      hfields ?_
    rintro before v after _ h rfl
    obtain ⟨name, hname⟩ := hnames v (by simp [h])
    have hplain : Value.text v.1.plain = v.1 := by
      rw [hname]
      rfl
    rw [hplain]
    exact hg.setVariable_append h g.name
  refine bind_eq_ok_iff.mpr ⟨documents, rfl, ?_⟩
  refine bind_eq_ok_iff.mpr ⟨{ g with edges := [] }, ?_, bind_eq_ok_iff.mpr ⟨_, rfl, ?_⟩⟩
  · refine foldlM_eq_ok (fun before ↦ ({ g with nodes := before, edges := [] } : Graph))
      hdocuments ?_
    rintro before node after document h ⟨-, hread⟩
    exact bind_eq_ok_iff.mpr ⟨node, hread, hg.add_append h⟩
  · have hedges : List.Forall₂ (fun edge document ↦ document = Edge.document edge) g.edges
        (g.edges.map Edge.document) := by
      simp [List.forall₂_map_right_iff, List.forall₂_same]
    refine foldlM_eq_ok (fun before ↦ ({ g with edges := before } : Graph)) hedges ?_
    rintro before edge after _ h rfl
    exact hg.addEdge_append hids h

/-- A graph that has been read is intact if the ids in it agree with themselves. -/
theorem of_ofDocument_eq_ok {v : Value} (h : ofDocument v = .ok g)
    (hids : ∀ node ∈ g.nodes, node.id.agrees node.id = true) : g.Intact := by
  refine ofDocument_keeps
    (fun g ↦ (∀ node ∈ g.nodes, node.id.agrees node.id = true) → g.Intact)
    (fun name _ ↦ blank name) ?_ ?_ ?_ h hids
  · intro g g' name default hg hset hids
    refine (hg ?_).setVariable hset
    obtain ⟨-, rfl⟩ := eq_of_setVariable_eq_ok hset
    exact hids
  · intro g g' node hg hoverrides hbody hadd hids
    obtain ⟨-, -, rfl⟩ := eq_of_add_eq_ok hadd
    refine (hg fun member hmember ↦ ?_).add hoverrides hbody ?_ hadd
    · exact hids member (List.mem_append_left _ hmember)
    · exact hids node (List.mem_append_right _ List.mem_cons_self)
  · intro g g' source target hg hsource htarget hconnect hids
    refine (hg ?_).connect hsource htarget hconnect
    obtain ⟨-, -, rfl⟩ := eq_of_connect_eq_ok hconnect
    exact hids

end Intact

/-! ## Graphs that are drawn -/

/-- A graph that was read from a document, or is drawn of entries, exits and lines by the operations
on graphs and by edits of their fields, where members alone are connected.  The ids in it agree with
themselves, as all texts do. -/
inductive Drawn : Graph → Prop
  | blank (name : Value) : Drawn { name }
  | document {g : Graph} {v : Value} (h : ofDocument v = .ok g)
      (hids : ∀ node ∈ g.nodes, node.id.agrees node.id = true) : Drawn g
  | add {g g' : Graph} {node : Node} (hg : Drawn g) (hasMade : node.overrides = {})
      (hbody : node.body.IsPlain) (hid : node.id.agrees node.id = true)
      (h : g.add node = .ok g') : Drawn g'
  | remove {g g' : Graph} {id : Label} (hg : Drawn g) (h : g.remove id = .ok g') : Drawn g'
  | connect {g g' : Graph} {source target : Node} (hg : Drawn g) (hsource : source ∈ g.nodes)
      (htarget : target ∈ g.nodes) (h : g.connect source target = .ok g') : Drawn g'
  | disconnect {g : Graph} (hg : Drawn g) (source target : Label) :
      Drawn (g.disconnect source target)
  | setVariable {g g' : Graph} {name default : Value} (hg : Drawn g)
      (h : g.setVariable name default = .ok g') : Drawn g'
  | edit {g : Graph} {node : Node} {body : NodeBody} (hg : Drawn g) (hnode : node ∈ g.nodes)
      (hkind : ({ node with body } : Node).kind = node.kind) (hbody : body.IsPlain) :
      Drawn (g.replace node.id { node with body })
  | rename {g : Graph} (hg : Drawn g) (name : Value) : Drawn { g with name }

theorem Drawn.intact (hg : g.Drawn) : g.Intact := by
  induction hg with
  | blank name => exact .blank name
  | document h hids => exact .of_ofDocument_eq_ok h hids
  | add _ hasMade hbody hid h ih => exact ih.add hasMade hbody hid h
  | remove _ h ih => exact ih.remove h
  | connect _ hsource htarget h ih => exact ih.connect hsource htarget h
  | disconnect _ source target ih => exact ih.disconnect source target
  | setVariable _ h ih => exact ih.setVariable h
  | edit _ hnode hkind hbody ih => exact ih.edit hnode hkind hbody
  | rename _ name ih => exact ⟨ih.plain, ih.apart, ih.edges, ih.keys, ih.names⟩

/-- Binding a field of a line is an edit of it. -/
theorem Drawn.bind (hg : g.Drawn) (hnode : node ∈ g.nodes) {field : String}
    (hfield : field ∈ ["actor", "audio", "text"]) (binding : Binding) :
    (g.replace node.id (node.bind field binding)).Drawn := by
  have hother : field ≠ "callbacks" := by grind
  have hbody := (hg.intact.plain node hnode).body.bind hother binding
  simp only [List.mem_cons, List.not_mem_nil, or_false] at hfield
  have hbind : node.bind field binding = { node with body := .bind field binding node.body } := by
    rcases hfield with rfl | rfl | rfl <;> rfl
  rw [hbind]
  refine hg.edit hnode ?_ hbody
  obtain ⟨id, body, overrides⟩ := node
  rcases hfield with rfl | rfl | rfl <;> cases body <;> simp [NodeBody.bind, Node.kind]

/-- So is adding a callback to a node. -/
theorem Drawn.addCallback (hg : g.Drawn) (hnode : node ∈ g.nodes) {callback : Value} {next : Node}
    (h : node.addCallback callback = .ok next) : (g.replace node.id next).Drawn := by
  have hbody := (hg.intact.plain node hnode).body
  rw [Node.addCallback] at h
  cases hold : node.body with
  | line draft =>
      obtain ⟨actor, audio, text, callbacks⟩ := draft
      rw [hold] at h hbody
      cases hbody with
      | line _ _ _ callbacks =>
          cases h
          refine hg.edit hnode ?_ (.line actor audio text (callbacks ++ [callback]))
          simp [Node.kind, hold]
  | exit field =>
      rw [hold] at h hbody
      cases hbody with
      | exit callbacks =>
          cases h
          refine hg.edit hnode ?_ (.exit (callbacks ++ [callback]))
          simp [Node.kind, hold]
  | entry =>
      rw [hold] at h
      cases h
  | choice =>
      rw [hold] at h
      cases h

/-- A drawn graph comes back from its document as it was: with its name, its variables, its nodes
and its edges, in their order.  So it has the document, the issues and the compiled graph that it
had before.  This is for ids and names of variables that a document shows as they are; under names
of other kinds the variables can be declared anew as well, and the nodes and edges come back all the
same. -/
theorem Drawn.comes_back (hg : g.Drawn) (hids : ∀ node ∈ g.nodes, ∃ v, node.id = .plain v) :
    ∃ document, g.document = .ok document ∧
      ((∀ v ∈ g.defaults, ∃ name, v.1 = .text name) → ofDocument document = .ok g ∧
        (ofDocument document >>= Graph.document) = .ok document ∧
        (ofDocument document >>= validate) = g.validate ∧
        (Logged.ofExcept (ofDocument document) >>= compile) = g.compile) ∧
      g.defaults.foldlM (fun (h : Graph) v ↦ h.setVariable v.1 v.2) { name := g.name } =
        .ok { name := g.name, defaults := g.defaults } ∧
      g.reread = .ok g := by
  have hintact := hg.intact
  obtain ⟨document, hdocument, hread⟩ := hintact.exists_document hids
  refine ⟨document, hdocument, fun hnames ↦ ?_, hintact.redeclare g.name, hintact.reread_eq_ok⟩
  have hread := hread hnames
  refine ⟨hread, ?_, ?_, ?_⟩
  · rw [hread]
    exact hdocument
  · rw [hread]
    rfl
  · rw [hread]
    exact Logged.bind_of_ok rfl compile

/-- A line bound to null, to an object that looks like a variable, and to a variable. -/
def tangledLine : Node :=
  { id := .plain (.text "l")
    body := .line ⟨.literal .null, .literal (.object [("variable", .text "x")]),
      .variable (.text "x"), .list [.text "wave"]⟩ }

def tangledEntry : Node := { id := .plain (.text "in"), body := .entry }

/-- Two edges from an entry to that line. -/
def tangled : Graph :=
  { nodes := [tangledEntry, tangledLine]
    edges := [⟨tangledEntry.id, tangledLine.id⟩, ⟨tangledEntry.id, tangledLine.id⟩]
    defaults := [(.text "x", .int 1)] }

theorem comes_back_of_tangled : tangled.Drawn ∧ (∀ node ∈ tangled.nodes, ∃ v, node.id = .plain v) ∧
    ∃ document, tangled.document = .ok document ∧ ofDocument document = .ok tangled := by
  have hset : Graph.setVariable {} (.text "x") (.int 1) =
      .ok { tangled with nodes := [], edges := [] } := rfl
  have hentry : Graph.add { tangled with nodes := [], edges := [] } tangledEntry =
      .ok { tangled with nodes := [tangledEntry], edges := [] } := rfl
  have hline : Graph.add { tangled with nodes := [tangledEntry], edges := [] } tangledLine =
      .ok { tangled with edges := [] } := rfl
  have hnodes : Drawn { tangled with edges := [] } :=
    .add (.add (.setVariable (.blank _) hset) rfl .entry rfl hentry) rfl (.line _ _ _ _) rfl hline
  have hedge : Drawn { tangled with edges := [⟨tangledEntry.id, tangledLine.id⟩] } :=
    .connect hnodes List.mem_cons_self (List.mem_cons_of_mem _ List.mem_cons_self) rfl
  have hdrawn : tangled.Drawn :=
    .connect hedge List.mem_cons_self (List.mem_cons_of_mem _ List.mem_cons_self) rfl
  have hids : ∀ node ∈ tangled.nodes, ∃ v, node.id = .plain v := by
    simp [tangled, tangledEntry, tangledLine]
  obtain ⟨document, hdocument, hread, -⟩ := Drawn.comes_back hdrawn hids
  exact ⟨hdrawn, hids, document, hdocument, (hread (by simp [tangled])).1⟩

end Graph

end LinearDialogue
