import LinearDialogue.Proofs.Rereading

/-!
# Edges between connection points

To connect two nodes is checked in two places: the points are those of the given nodes, the ids are
those of members.  A node that is given is no member for having the id of one, so an edge can come
to stand at a member without the point.  This is the only way: as long as every connection that is
made finds the points at the members of the ids, every edge of the graph goes from an output to an
input, through all additions and removals, and the graph can be read from its document.
-/

namespace LinearDialogue

/-! ## Keys that agree are interchangeable -/

theorem Value.agrees_trans {a b c : Value} (hab : a.agrees b = true) (hbc : b.agrees c = true) :
    a.agrees c = true := by
  rw [agrees_iff] at hab hbc ⊢
  rcases hab with ⟨rfl, rfl⟩ | ⟨s, rfl, rfl⟩ | ⟨r, ha, hb⟩
  · exact hbc
  · exact hbc
  · rcases hbc with ⟨rfl, -⟩ | ⟨s, rfl, -⟩ | ⟨r', hb', hc⟩
    · cases hb
    · cases hb
    · rw [Option.some.inj (hb.symm.trans hb')] at ha
      exact Or.inr (Or.inr ⟨r', ha, hc⟩)

theorem Value.matchesKey_trans {a b c : Value} (hab : a.matchesKey b = true)
    (hbc : b.matchesKey c = true) : a.matchesKey c = true := by
  simp only [matchesKey, Bool.or_eq_true, decide_eq_true_eq] at hab hbc ⊢
  rcases hab with hab | rfl
  · rcases hbc with hbc | rfl
    · exact Or.inl (agrees_trans hab hbc)
    · exact Or.inl hab
  · exact hbc

namespace Label

theorem agrees_trans {a b c : Label} (ha : a.isKey = true) (hb : b.isKey = true)
    (hab : a.agrees b = true) (hbc : b.agrees c = true) : a.agrees c = true := by
  cases a <;> cases b <;> simp_all [agrees, isKey] <;> cases c <;>
    simp_all [Value.alike_of_isKey]
  · exact Value.agrees_trans hab hbc
  · exact Value.matchesKey_trans hab hbc
  · exact Value.matchesKey_trans hab hbc

theorem agrees_comm {a b : Label} (ha : a.isKey = true) (hb : b.isKey = true) :
    a.agrees b = b.agrees a := by
  cases a <;> cases b <;>
    simp_all [agrees, isKey, Value.alike_of_isKey, Value.matchesKey_comm, Value.agrees_comm]

/-- A label that a table can have as a key, and that agrees with itself. -/
structure IsFirm (label : Label) : Prop where
  isKey : label.isKey = true
  agrees : label.agrees label = true

/-- What a firm label names, it agrees with. -/
theorem IsFirm.agrees_iff {a b : Label} (ha : a.IsFirm) :
    a.agrees b = true ↔ a.matchesKey b = true := by
  simp only [matchesKey, Bool.or_eq_true, decide_eq_true_eq, iff_self_or]
  rintro rfl
  exact ha.agrees

/-- Two firm labels of which one names the other agree with the same labels. -/
theorem IsFirm.matchesKey_of_matchesKey {a b c : Label} (ha : a.IsFirm) (hb : b.IsFirm)
    (hab : a.matchesKey b = true) (hac : a.matchesKey c = true) : b.agrees c = true := by
  have hba : b.agrees a = true := by
    rw [agrees_comm hb.isKey ha.isKey]
    exact ha.agrees_iff.mpr hab
  exact agrees_trans hb.isKey ha.isKey hba (ha.agrees_iff.mpr hac)

end Label

namespace Graph

variable {g g' : Graph} {node source target : Node} {id : Label}

/-! ## Strokes -/

/-- A change of a graph by a node or two, which may be members or not. -/
inductive Stroke
  | add (node : Node)
  | remove (node : Node)
  | connect (source target : Node)
  | disconnect (source target : Node)

/-- The nodes that a stroke is given. -/
def Stroke.nodes : Stroke → List Node
  | .add node | .remove node => [node]
  | .connect source target | .disconnect source target => [source, target]

def stroke (g : Graph) : Stroke → Except Failure Graph
  | .add node => g.add node
  | .remove node => g.remove node.id
  | .connect source target => g.connect source target
  | .disconnect source target => .ok (g.disconnect source.id target.id)

/-- The graph after several strokes.  Those that are refused leave it as it is. -/
def drawn (name : Value) (strokes : List Stroke) : Graph :=
  strokes.foldl (fun g stroke ↦ (g.stroke stroke).toOption.getD g) { name }

theorem drawn_append (name : Value) (before : List Stroke) (stroke : Stroke) :
    drawn name (before ++ [stroke]) =
      ((drawn name before).stroke stroke).toOption.getD (drawn name before) := by
  rw [drawn, List.foldl_append]
  rfl

theorem drawn_append_of_ok {name : Value} {before : List Stroke} {stroke : Stroke}
    (h : (drawn name before).stroke stroke = .ok g) : drawn name (before ++ [stroke]) = g := by
  rw [drawn_append, h]
  rfl

/-- What holds of a blank graph and is kept by each stroke that is made holds of the graph after
all of them. -/
theorem drawn_keeps (keeps : Graph → Prop) {name : Value} {strokes : List Stroke}
    (hblank : keeps { name })
    (hstroke : ∀ before stroke g', before ++ [stroke] <+: strokes → keeps (drawn name before) →
      (drawn name before).stroke stroke = .ok g' → keeps g') : keeps (drawn name strokes) := by
  induction strokes using List.reverseRecOn with
  | nil => exact hblank
  | append_singleton before stroke ih =>
      have hbefore := ih fun earlier first g' hearly ↦
        hstroke earlier first g' (hearly.trans (List.prefix_append before [stroke]))
      rw [drawn_append]
      cases hmade : (drawn name before).stroke stroke with
      | ok g' => exact hstroke before stroke g' List.prefix_rfl hbefore hmade
      | error _ => exact hbefore

/-! ## Points -/

/-- The member under an id has a point. -/
def OffersPoint (g : Graph) (id : Label) (point : Point) : Prop :=
  ∃ member, g.find? id = some member ∧ member.hasPoint point = true

/-- Every edge goes from an output point of a member to an input point of a member. -/
def KeepsPoints (g : Graph) : Prop :=
  ∀ edge ∈ g.edges, g.OffersPoint edge.source .output ∧ g.OffersPoint edge.target .input

instance (g : Graph) (id : Label) (point : Point) : Decidable (g.OffersPoint id point) :=
  decidable_of_iff ((g.find? id).any (·.hasPoint point) = true)
    (by simp [OffersPoint, Option.any_eq_true])

instance (g : Graph) : Decidable g.KeepsPoints :=
  inferInstanceAs (Decidable (∀ edge ∈ g.edges,
    g.OffersPoint edge.source .output ∧ g.OffersPoint edge.target .input))

/-- A stroke does not connect ids whose members lack the points, whatever nodes it is given. -/
def IsFair (g : Graph) (stroke : Stroke) : Prop :=
  ∀ source target g', stroke = .connect source target → g.connect source target = .ok g' →
    g.OffersPoint source.id .output ∧ g.OffersPoint target.id .input

/-- To connect the members themselves is fair. -/
theorem isFair_connect (hsource : g.find? source.id = some source)
    (htarget : g.find? target.id = some target) : g.IsFair (.connect source target) := by
  rintro _ _ g' ⟨⟩ h
  obtain ⟨houtput, hinput, -⟩ := eq_of_connect_eq_ok h
  exact ⟨⟨source, hsource, houtput⟩, target, htarget, hinput⟩

/-- Nodes are held under their own ids, and the ids at nodes and edges are firm. -/
structure IsFirm (g : Graph) : Prop where
  nodes : ∀ node ∈ g.nodes, node.overrides.key = none ∧ node.id.IsFirm
  edges : ∀ edge ∈ g.edges, edge.source.IsFirm ∧ edge.target.IsFirm

/-- The nodes of a stroke are under their own ids, which agree with themselves, as all but one
number do. -/
def Stroke.IsNamed (stroke : Stroke) : Prop :=
  ∀ node ∈ stroke.nodes, node.overrides.key = none ∧ node.id.agrees node.id = true

instance : DecidablePred Stroke.IsNamed := fun stroke ↦
  inferInstanceAs (Decidable (∀ node ∈ stroke.nodes,
    node.overrides.key = none ∧ node.id.agrees node.id = true))

theorem isKey_of_checkMember_eq_ok (h : g.checkMember id = .ok ()) : id.isKey = true := by
  obtain ⟨_, hlookup, -⟩ := bind_eq_ok_iff.mp h
  obtain ⟨_, hkey, -⟩ := bind_eq_ok_iff.mp hlookup
  exact isKey_of_checkKey_eq_ok hkey

theorem isKey_of_connect_eq_ok (h : g.connect source target = .ok g') :
    source.id.isKey = true ∧ target.id.isKey = true := by
  obtain ⟨_, _, h⟩ := bind_eq_ok_iff.mp h
  obtain ⟨_, _, h⟩ := bind_eq_ok_iff.mp h
  obtain ⟨_, hsource, h⟩ := bind_eq_ok_iff.mp h
  obtain ⟨_, htarget, _⟩ := bind_eq_ok_iff.mp h
  exact ⟨isKey_of_checkMember_eq_ok hsource, isKey_of_checkMember_eq_ok htarget⟩

theorem IsFirm.stroke {stroke : Stroke} (hg : g.IsFirm) (hnamed : stroke.IsNamed)
    (h : g.stroke stroke = .ok g') : g'.IsFirm := by
  cases stroke with
  | add node =>
      obtain ⟨hkey, -, rfl⟩ := eq_of_add_eq_ok h
      obtain ⟨hplace, hself⟩ := hnamed node List.mem_cons_self
      refine ⟨fun member hmember ↦ ?_, hg.edges⟩
      rcases List.mem_append.mp hmember with hmember | hmember
      · exact hg.nodes member hmember
      · rw [List.mem_singleton.mp hmember]
        exact ⟨hplace, hkey, hself⟩
  | remove node =>
      obtain rfl := eq_of_remove_eq_ok h
      exact ⟨fun member hmember ↦ hg.nodes member (List.mem_of_mem_filter hmember),
        fun edge hedge ↦ hg.edges edge (List.mem_of_mem_filter hedge)⟩
  | connect source target =>
      obtain ⟨hsource, htarget⟩ := isKey_of_connect_eq_ok h
      obtain ⟨-, -, rfl⟩ := eq_of_connect_eq_ok h
      refine ⟨hg.nodes, fun edge hedge ↦ ?_⟩
      rcases List.mem_append.mp hedge with hedge | hedge
      · exact hg.edges edge hedge
      · rw [List.mem_singleton.mp hedge]
        exact ⟨⟨hsource, (hnamed source (by simp [Stroke.nodes])).2⟩,
          htarget, (hnamed target (by simp [Stroke.nodes])).2⟩
  | disconnect source target =>
      cases h
      exact ⟨hg.nodes, fun edge hedge ↦ hg.edges edge (List.mem_of_mem_filter hedge)⟩

/-- A point stays when another node is removed. -/
theorem OffersPoint.remove {endpoint : Label} {point : Point} (h : g.OffersPoint endpoint point)
    (hg : g.IsFirm) (hend : endpoint.IsFirm) (hother : endpoint.agrees id = false)
    (hremove : g.remove id = .ok g') : g'.OffersPoint endpoint point := by
  obtain ⟨member, hfind, hpoint⟩ := h
  obtain rfl := eq_of_remove_eq_ok hremove
  refine ⟨member, ?_, hpoint⟩
  have hmatch := List.find?_some hfind
  obtain ⟨hplace, hfirm⟩ := hg.nodes member (List.mem_of_find?_eq_some hfind)
  have hkey : member.key = member.id := by simp [Node.key, hplace]
  have hkept : (!member.key.matchesKey id) = true := by
    rw [Bool.not_eq_true', ← Bool.not_eq_true]
    intro hremoved
    rw [hkey] at hmatch hremoved
    have hagrees := hfirm.matchesKey_of_matchesKey hend hmatch hremoved
    simp [hother] at hagrees
  obtain ⟨_, before, after, hnodes, hbefore⟩ := List.find?_eq_some_iff_append.mp hfind
  refine List.find?_eq_some_iff_append.mpr ⟨hmatch,
    before.filter fun node ↦ !node.key.matchesKey id,
    after.filter fun node ↦ !node.key.matchesKey id, ?_, ?_⟩
  · dsimp only
    rw [hnodes, List.filter_append, List.filter_cons, if_pos hkept]
  · exact fun a ha ↦ hbefore a (List.mem_of_mem_filter ha)

theorem KeepsPoints.stroke {stroke : Stroke} (hpoints : g.KeepsPoints) (hg : g.IsFirm)
    (hfair : g.IsFair stroke) (h : g.stroke stroke = .ok g') : g'.KeepsPoints := by
  cases stroke with
  | add node =>
      obtain ⟨-, -, rfl⟩ := eq_of_add_eq_ok h
      have hkept {endpoint : Label} {point : Point} (h : g.OffersPoint endpoint point) :
          OffersPoint { g with nodes := g.nodes ++ [node] } endpoint point := by
        obtain ⟨member, hfind, hpoint⟩ := h
        rw [find?] at hfind
        exact ⟨member, by simp [find?, List.find?_append, hfind], hpoint⟩
      exact fun edge hedge ↦ ⟨hkept (hpoints edge hedge).1, hkept (hpoints edge hedge).2⟩
  | remove node =>
      intro edge hedge
      have hremoved := eq_of_remove_eq_ok h
      rw [hremoved] at hedge
      obtain ⟨hedge, hfree⟩ := List.mem_filter.mp hedge
      simp only [Bool.and_eq_true, Bool.not_eq_true'] at hfree
      obtain ⟨hsource, htarget⟩ := hpoints edge hedge
      obtain ⟨hfirm, hfirm'⟩ := hg.edges edge hedge
      exact ⟨hsource.remove hg hfirm hfree.1 h, htarget.remove hg hfirm' hfree.2 h⟩
  | connect source target =>
      have hoffers := hfair source target g' rfl h
      obtain ⟨-, -, rfl⟩ := eq_of_connect_eq_ok h
      intro edge hedge
      rcases List.mem_append.mp hedge with hedge | hedge
      · exact hpoints edge hedge
      · rw [List.mem_singleton.mp hedge]
        exact hoffers
  | disconnect source target =>
      cases h
      exact fun edge hedge ↦ hpoints edge (List.mem_of_mem_filter hedge)

/-- An edge that a stroke has put between points came of a fair stroke. -/
theorem isFair_of_keepsPoints {stroke : Stroke}
    (h : ∀ g', g.stroke stroke = .ok g' → g'.KeepsPoints) : g.IsFair stroke := by
  rintro source target g' rfl hconnect
  have hpoints := h g' hconnect
  obtain ⟨-, -, rfl⟩ := eq_of_connect_eq_ok hconnect
  exact hpoints ⟨source.id, target.id⟩ (List.mem_append_right _ List.mem_cons_self)

/-- All strokes are fair, each to the graph that it meets. -/
def AllFair (name : Value) (strokes : List Stroke) : Prop :=
  ∀ before stroke, before ++ [stroke] <+: strokes → (drawn name before).IsFair stroke

theorem isFirm_drawn {name : Value} {strokes : List Stroke}
    (hnamed : ∀ stroke ∈ strokes, stroke.IsNamed) : (drawn name strokes).IsFirm := by
  refine drawn_keeps IsFirm ⟨by simp, by simp⟩ fun before stroke g' hearly hbefore hstroke ↦ ?_
  exact hbefore.stroke (hnamed stroke (hearly.subset (by simp))) hstroke

theorem keepsPoints_drawn {name : Value} {strokes : List Stroke}
    (hnamed : ∀ stroke ∈ strokes, stroke.IsNamed) (hfair : AllFair name strokes) :
    (drawn name strokes).KeepsPoints := by
  refine drawn_keeps KeepsPoints (by simp [KeepsPoints])
    fun before stroke g' hearly hbefore hstroke ↦ ?_
  have hfirm : (drawn name before).IsFirm := isFirm_drawn fun earlier hearlier ↦
    hnamed earlier (hearly.subset (List.mem_append_left _ hearlier))
  exact hbefore.stroke hfirm (hfair before stroke hearly) hstroke

/-! ## Documents -/

/-- The nodes of a stroke are entries, exits and lines as they were made, with plain ids. -/
def Stroke.IsPlain (stroke : Stroke) : Prop :=
  ∀ node ∈ stroke.nodes, node.overrides = {} ∧ node.body.IsPlain ∧ ∃ v, node.id = .plain v

/-- The nodes of a graph are such nodes, and can be read from their documents. -/
structure IsReadable (g : Graph) : Prop where
  intact : Intact { g with edges := [] }
  plain : ∀ node ∈ g.nodes, ∃ v, node.id = .plain v

theorem IsReadable.stroke {stroke : Stroke} (hg : g.IsReadable) (hnamed : stroke.IsNamed)
    (hplain : stroke.IsPlain) (h : g.stroke stroke = .ok g') : g'.IsReadable := by
  cases stroke with
  | add node =>
      obtain ⟨hasMade, hbody, hid⟩ := hplain node List.mem_cons_self
      have hadd : Graph.add { g with edges := [] } node = .ok { g' with edges := [] } := by
        obtain ⟨found, hfound, hnew⟩ := bind_eq_ok_iff.mp h
        refine bind_eq_ok_iff.mpr ⟨found, hfound, ?_⟩
        cases found with
        | some _ => cases hnew
        | none =>
            cases hnew
            rfl
      refine ⟨hg.intact.add hasMade hbody (hnamed node List.mem_cons_self).2 hadd, ?_⟩
      obtain ⟨-, -, rfl⟩ := eq_of_add_eq_ok h
      simpa [or_imp, forall_and] using ⟨hg.plain, hid⟩
  | remove node =>
      have hremove : Graph.remove { g with edges := [] } node.id = .ok { g' with edges := [] } := by
        simp only [Graph.stroke, Graph.remove] at h ⊢
        split at h
        · next hsome =>
          obtain ⟨_, hkey, h⟩ := bind_eq_ok_iff.mp h
          cases h
          rw [if_pos hsome]
          exact bind_eq_ok_iff.mpr ⟨_, hkey, rfl⟩
        · next hnone =>
          cases h
          rw [if_neg hnone]
          rfl
      refine ⟨hg.intact.remove hremove, ?_⟩
      obtain rfl := eq_of_remove_eq_ok h
      exact fun member hmember ↦ hg.plain member (List.mem_of_mem_filter hmember)
  | connect source target =>
      obtain ⟨-, -, rfl⟩ := eq_of_connect_eq_ok h
      exact ⟨hg.intact, hg.plain⟩
  | disconnect source target =>
      cases h
      exact ⟨hg.intact, hg.plain⟩

theorem isReadable_drawn {name : Value} {strokes : List Stroke}
    (hnamed : ∀ stroke ∈ strokes, stroke.IsNamed) (hplain : ∀ stroke ∈ strokes, stroke.IsPlain) :
    (drawn name strokes).IsReadable := by
  refine drawn_keeps IsReadable ⟨.blank name, by simp⟩
    fun before stroke g' hearly hbefore hstroke ↦ ?_
  have hmem : stroke ∈ strokes := hearly.subset (by simp)
  exact hbefore.stroke (hnamed stroke hmem) (hplain stroke hmem) hstroke

theorem Label.exists_plain_of_matchesKey {v : Value} {label : Label}
    (h : (Label.plain v).matchesKey label = true) : ∃ w, label = .plain w := by
  cases label <;> simp_all [Label.matchesKey, Label.agrees]

theorem checkMember_eq_ok (hnode : node ∈ g.nodes) (hplain : node.IsPlain) :
    g.checkMember node.id = .ok () := by
  have hfound : (g.find? node.id).isSome = true := by
    refine List.find?_isSome.mpr ⟨node, hnode, ?_⟩
    simp [hplain.key_eq, Label.matchesKey]
  obtain ⟨member, hmember⟩ := Option.isSome_iff_exists.mp hfound
  refine bind_eq_ok_iff.mpr ⟨some member, bind_eq_ok_iff.mpr ⟨(), ?_, by rw [hmember]; rfl⟩, rfl⟩
  simp [Label.checkKey, hplain.isKey]

/-- An edge between points is read, and connects the members that its ends name. -/
theorem exists_addEdge_eq_ok (hplain : ∀ node ∈ g.nodes, node.IsPlain)
    (hids : ∀ node ∈ g.nodes, ∃ v, node.id = .plain v) {edge : Edge}
    (hfirm : edge.source.IsFirm ∧ edge.target.IsFirm)
    (hoffers : g.OffersPoint edge.source .output ∧ g.OffersPoint edge.target .input) :
    ∃ edge' : Edge, g.addEdge edge.document = .ok { g with edges := g.edges ++ [edge'] } ∧
      edge'.source.agrees edge.source = true ∧ edge'.target.agrees edge.target = true := by
  obtain ⟨⟨source, hsource, houtput⟩, target, htarget, hinput⟩ := hoffers
  have hmember {member : Node} {id : Label} (h : g.find? id = some member) :
      member ∈ g.nodes ∧ member.id.matchesKey id = true := by
    have hmem := List.mem_of_find?_eq_some h
    have hmatch := List.find?_some h
    rw [(hplain member hmem).key_eq] at hmatch
    exact ⟨hmem, hmatch⟩
  obtain ⟨hsource', hmatch⟩ := hmember hsource
  obtain ⟨htarget', hmatch'⟩ := hmember htarget
  have hends : edge.source = .plain edge.source.value ∧ edge.target = .plain edge.target.value := by
    obtain ⟨v, hv⟩ := hids source hsource'
    obtain ⟨w, hw⟩ := hids target htarget'
    obtain ⟨v', hv'⟩ := Label.exists_plain_of_matchesKey (hv ▸ hmatch)
    obtain ⟨w', hw'⟩ := Label.exists_plain_of_matchesKey (hw ▸ hmatch')
    rw [hv', hw']
    exact ⟨rfl, rfl⟩
  have hkeys := And.intro hfirm.1.isKey hfirm.2.isKey
  have hlookups : g.lookup edge.source = .ok (some source) ∧
      g.lookup edge.target = .ok (some target) := by
    simp [lookup, Label.checkKey, hkeys, hsource, htarget, bind, Except.bind, pure, Except.pure]
  have hconnect : g.connect source target =
      .ok { g with edges := g.edges ++ [⟨source.id, target.id⟩] } := by
    refine bind_eq_ok_iff.mpr ⟨(), by rw [checkPoint, if_pos houtput], ?_⟩
    refine bind_eq_ok_iff.mpr ⟨(), by rw [checkPoint, if_pos hinput], ?_⟩
    refine bind_eq_ok_iff.mpr ⟨(), checkMember_eq_ok hsource' (hplain source hsource'), ?_⟩
    exact bind_eq_ok_iff.mpr ⟨(), checkMember_eq_ok htarget' (hplain target htarget'), rfl⟩
  refine ⟨⟨source.id, target.id⟩, ?_, (hplain source hsource').agrees_of_matchesKey hmatch,
    (hplain target htarget').agrees_of_matchesKey hmatch'⟩
  refine bind_eq_ok_iff.mpr ⟨edge.source.value, rfl, bind_eq_ok_iff.mpr ⟨(), ?_, ?_⟩⟩
  · rw [hends.1] at hkeys
    simpa [checkKey, Label.isKey] using hkeys.1
  · refine bind_eq_ok_iff.mpr ⟨edge.target.value, rfl, ?_⟩
    rw [← hends.1, ← hends.2]
    exact bind_eq_ok_iff.mpr ⟨_, hlookups.1, bind_eq_ok_iff.mpr ⟨_, hlookups.2, hconnect⟩⟩

/-- So are any number of such edges, in their order. -/
theorem exists_foldlM_addEdge_eq_ok (hplain : ∀ node ∈ g.nodes, node.IsPlain)
    (hids : ∀ node ∈ g.nodes, ∃ v, node.id = .plain v) {edges : List Edge}
    (hfirm : ∀ edge ∈ edges, edge.source.IsFirm ∧ edge.target.IsFirm)
    (hoffers : ∀ edge ∈ edges,
      g.OffersPoint edge.source .output ∧ g.OffersPoint edge.target .input) (before : List Edge) :
    ∃ edges', (edges.map Edge.document).foldlM addEdge { g with edges := before } =
        .ok { g with edges := before ++ edges' } ∧
      List.Forall₂ (fun edge edge' ↦ edge'.source.agrees edge.source = true ∧
        edge'.target.agrees edge.target = true) edges edges' := by
  induction edges generalizing before with
  | nil => exact ⟨[], by simp [pure, Except.pure], .nil⟩
  | cons edge edges ih =>
      obtain ⟨edge', hadd, hagrees⟩ := exists_addEdge_eq_ok (g := { g with edges := before }) hplain
        hids (hfirm edge List.mem_cons_self) (hoffers edge List.mem_cons_self)
      obtain ⟨edges', hfold, hrest⟩ := ih (fun e he ↦ hfirm e (List.mem_cons_of_mem edge he))
        (fun e he ↦ hoffers e (List.mem_cons_of_mem edge he)) (before ++ [edge'])
      refine ⟨edge' :: edges', ?_, .cons hagrees hrest⟩
      rw [List.map_cons, List.foldlM_cons]
      refine bind_eq_ok_iff.mpr ⟨_, hadd, ?_⟩
      simpa using hfold

/-- A graph with its edges between points has a document, and is read from it with edges between the
same members. -/
theorem IsReadable.exists_reading (hg : g.IsReadable) (hfirm : g.IsFirm) (hpoints : g.KeepsPoints)
    (hdefaults : g.defaults = []) :
    ∃ document edges, g.document = .ok document ∧ ofDocument document = .ok { g with edges } ∧
      List.Forall₂ (fun edge edge' ↦ edge'.source.agrees edge.source = true ∧
        edge'.target.agrees edge.target = true) g.edges edges := by
  obtain ⟨document, hdocument, hread⟩ := hg.intact.exists_document hg.plain
  have hread := hread (by simp [hdefaults])
  -- the document without the edges differs in the edges alone, and so does its reading
  obtain ⟨nodes, hnodes, hdocument⟩ := bind_eq_ok_iff.mp hdocument
  cases hdocument
  obtain ⟨_, hfields, hread⟩ := bind_eq_ok_iff.mp hread
  cases hfields
  obtain ⟨_, hvariables, hread⟩ := bind_eq_ok_iff.mp hread
  cases hvariables
  obtain ⟨declared, hdeclared, hread⟩ := bind_eq_ok_iff.mp hread
  obtain ⟨_, hitems, hread⟩ := bind_eq_ok_iff.mp hread
  cases hitems
  obtain ⟨filled, hfilled, hread⟩ := bind_eq_ok_iff.mp hread
  obtain ⟨_, hempty, hread⟩ := bind_eq_ok_iff.mp hread
  cases hempty
  cases hread
  obtain ⟨edges, hedges, hagrees⟩ := exists_foldlM_addEdge_eq_ok hg.intact.plain hg.plain
    hfirm.edges hpoints []
  refine ⟨_, edges, bind_eq_ok_iff.mpr ⟨nodes, hnodes, rfl⟩, ?_, hagrees⟩
  refine bind_eq_ok_iff.mpr ⟨_, rfl, bind_eq_ok_iff.mpr ⟨_, rfl, ?_⟩⟩
  refine bind_eq_ok_iff.mpr ⟨declared, hdeclared, bind_eq_ok_iff.mpr ⟨_, rfl, ?_⟩⟩
  exact bind_eq_ok_iff.mpr ⟨_, hfilled, bind_eq_ok_iff.mpr ⟨_, rfl, hedges⟩⟩

theorem defaults_drawn (name : Value) (strokes : List Stroke) :
    (drawn name strokes).defaults = [] := by
  refine drawn_keeps (fun g ↦ g.defaults = []) rfl fun before stroke g' _ hbefore hstroke ↦ ?_
  cases stroke with
  | add node =>
      obtain ⟨-, -, rfl⟩ := eq_of_add_eq_ok hstroke
      exact hbefore
  | remove node =>
      obtain rfl := eq_of_remove_eq_ok hstroke
      exact hbefore
  | connect source target =>
      obtain ⟨-, -, rfl⟩ := eq_of_connect_eq_ok hstroke
      exact hbefore
  | disconnect source target =>
      cases hstroke
      exact hbefore

theorem OffersPoint.exists_kind {point : Point} (h : g.OffersPoint id point)
    (hasMade : ∀ node ∈ g.nodes, node.overrides = {}) :
    ∃ member, g.find? id = some member ∧ member.kind.hasPoint point = true := by
  obtain ⟨member, hfind, hpoint⟩ := h
  refine ⟨member, hfind, ?_⟩
  cases point <;>
    simpa [Node.hasPoint, hasMade member (List.mem_of_find?_eq_some hfind)] using hpoint

/-- Through any strokes every edge goes at all times from an output point to an input point exactly
if each connection that was made found the points at the members of its ids.  If the nodes are
entries, exits and lines then no edge leaves an exit or enters an entry, and the graph has a
document from which it is read, with its edges between the same members. -/
theorem drawn_between_points {name : Value} {strokes : List Stroke}
    (hnamed : ∀ stroke ∈ strokes, stroke.IsNamed) :
    ((∀ before, before <+: strokes → (drawn name before).KeepsPoints) ↔ AllFair name strokes) ∧
      (AllFair name strokes → (∀ stroke ∈ strokes, stroke.IsPlain) →
        (∀ edge ∈ (drawn name strokes).edges,
          (∃ source, (drawn name strokes).find? edge.source = some source ∧ source.kind ≠ .exit) ∧
            ∃ target, (drawn name strokes).find? edge.target = some target ∧ target.kind ≠ .entry) ∧
        ∃ document edges, (drawn name strokes).document = .ok document ∧
          ofDocument document = .ok { drawn name strokes with edges } ∧
          List.Forall₂ (fun edge edge' ↦ edge'.source.agrees edge.source = true ∧
            edge'.target.agrees edge.target = true) (drawn name strokes).edges edges) := by
  refine ⟨⟨fun hpoints before stroke hearly ↦ ?_, fun hfair before hearly ↦ ?_⟩,
    fun hfair hplain ↦ ?_⟩
  · refine isFair_of_keepsPoints fun g' hstroke ↦ ?_
    rw [← drawn_append_of_ok hstroke]
    exact hpoints _ hearly
  · exact keepsPoints_drawn (fun stroke hstroke ↦ hnamed stroke (hearly.subset hstroke))
      fun earlier stroke hearlier ↦ hfair earlier stroke (hearlier.trans hearly)
  · have hpoints := keepsPoints_drawn hnamed hfair
    have hreadable : (drawn name strokes).IsReadable := isReadable_drawn hnamed hplain
    have hasMade : ∀ node ∈ (drawn name strokes).nodes, node.overrides = {} :=
      fun node hnode ↦ (hreadable.intact.plain node hnode).asMade
    refine ⟨fun edge hedge ↦ ?_,
      hreadable.exists_reading (isFirm_drawn hnamed) hpoints (defaults_drawn name strokes)⟩
    obtain ⟨source, hsource, houtput⟩ := (hpoints edge hedge).1.exists_kind hasMade
    obtain ⟨target, htarget, hinput⟩ := (hpoints edge hedge).2.exists_kind hasMade
    refine ⟨⟨source, hsource, ?_⟩, target, htarget, ?_⟩
    · intro hkind
      simp [hkind, NodeKind.hasPoint] at houtput
    · intro hkind
      simp [hkind, NodeKind.hasPoint] at hinput

/-- A node of a kind with an id of text. -/
def plainNode (id : String) (body : NodeBody) : Node := { id := .plain (.text id), body }

/-- An entry is connected to a line by another node of the line's id, is removed, and makes room for
an exit of its id. -/
def redrawn : List Stroke :=
  [.add (plainNode "e" .entry), .add (plainNode "l" (.line {})),
    .connect (plainNode "e" .entry) (plainNode "l" (.exit (.list []))),
    .remove (plainNode "e" .entry), .add (plainNode "e" (.exit (.list []))),
    .connect (plainNode "l" (.line {})) (plainNode "e" (.exit (.list [])))]

theorem isPlain_redrawn : ∀ stroke ∈ redrawn, stroke.IsPlain := by
  have hentry : NodeBody.IsPlain .entry := .entry
  have hline : NodeBody.IsPlain (.line {}) := .line _ _ _ _
  have hexit : NodeBody.IsPlain (.exit (.list [])) := .exit []
  simp [redrawn, Stroke.IsPlain, Stroke.nodes, plainNode, hentry, hline, hexit]

theorem drawn_between_points_of_redrawn :
    (∀ stroke ∈ redrawn, stroke.IsNamed) ∧ AllFair (.text "g") redrawn ∧
      (drawn (.text "g") redrawn).edges = [⟨.plain (.text "l"), .plain (.text "e")⟩] ∧
      ∃ document edges, (drawn (.text "g") redrawn).document = .ok document ∧
        ofDocument document = .ok { drawn (.text "g") redrawn with edges } := by
  have hnamed : ∀ stroke ∈ redrawn, stroke.IsNamed := by decide
  have hkept : ∀ before ∈ redrawn.inits, (drawn (.text "g") before).KeepsPoints := by decide +kernel
  obtain ⟨hiff, hread⟩ := @drawn_between_points (.text "g") redrawn hnamed
  have hfair := hiff.mp fun before hearly ↦ hkept before ((List.mem_inits _ _).mpr hearly)
  obtain ⟨-, document, edges, hdocument, hread, -⟩ := hread hfair isPlain_redrawn
  exact ⟨hnamed, hfair, by decide +kernel, document, edges, hdocument, hread⟩

/-- A line connected to another line that has the id of the entry. -/
def haunted : List Stroke :=
  [.add (plainNode "e" .entry), .add (plainNode "l" (.line {})),
    .connect (plainNode "l" (.line {})) (plainNode "e" (.line {}))]

/-- An edge can come to enter an entry, and then the graph is not read from its document. -/
theorem exists_edge_into_entry :
    ∃ strokes : List Stroke, (∀ stroke ∈ strokes, stroke.IsNamed) ∧
      (∀ stroke ∈ strokes, stroke.IsPlain) ∧ ¬ (drawn (.text "g") strokes).KeepsPoints ∧
      ∃ edge ∈ (drawn (.text "g") strokes).edges,
        (∃ target, (drawn (.text "g") strokes).find? edge.target = some target ∧
          target.kind = .entry) ∧
        ∃ document, (drawn (.text "g") strokes).document = .ok document ∧
          ofDocument document = .error (.badArgument (.pointMissing "EntryNode" .input)) := by
  have hplain : ∀ stroke ∈ haunted, stroke.IsPlain := by
    have hentry : NodeBody.IsPlain .entry := .entry
    have hline : NodeBody.IsPlain (.line {}) := .line _ _ _ _
    simp [haunted, Stroke.IsPlain, Stroke.nodes, plainNode, hentry, hline]
  refine ⟨haunted, by decide, hplain, by decide +kernel, ⟨.plain (.text "l"), .plain (.text "e")⟩,
    by decide +kernel, ⟨plainNode "e" .entry, by decide +kernel, rfl⟩, _, rfl, ?_⟩
  decide +kernel

end Graph

end LinearDialogue
