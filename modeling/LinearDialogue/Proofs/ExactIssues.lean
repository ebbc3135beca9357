import LinearDialogue.Proofs.MemberEdges
import Mathlib.Data.List.Find
import Mathlib.Data.List.ProdSigma

/-!
# Exact validation

Validation counts the peers at the points of every node.  In a graph whose own nodes have been
connected these are the edges there: no edge is at a point that a node does not have, and both ends
of each are members.  So there is one issue for each point with several edges, and none besides but
those of the numbers of entries and exits.  The order of the edges makes no difference.
-/

namespace LinearDialogue

/-- The end of an edge that is at points of a kind. -/
def Edge.at (edge : Edge) : Point → Label
  | .input => edge.target
  | .output => edge.source

namespace Graph

variable {g g' : Graph} {node : Node} {id : Label} {point : Point}

/-! ## What there is to find -/

/-- How many edges a point of a node carries. -/
def edgesAt (g : Graph) (node : Node) (point : Point) : ℕ :=
  g.edges.countP fun edge ↦ (edge.at point).agrees node.id

/-- The points that carry several edges, in the order of the nodes, input before output. -/
def crowdedPoints (g : Graph) : List (Node × Point) :=
  (g.nodes ×ˢ [.input, .output]).filter fun (node, point) ↦ 2 ≤ g.edgesAt node point

def crowdedIssue (g : Graph) (site : Node × Point) : Issue where
  invariant := .singleConnection
  message := crowdedMessage site.2
  node := site.1.name?
  point := some site.2.name
  counts := [("connections", g.edgesAt site.1 site.2)]

def count (g : Graph) (kind : NodeKind) : ℕ := g.nodes.countP fun node ↦ node.kind = kind

/-- The kinds of which there has to be one node and is not. -/
def miscounted (g : Graph) : List NodeKind :=
  [.entry, .exit].filter fun kind ↦ g.count kind ≠ 1

def miscountedIssue (g : Graph) (kind : NodeKind) : Issue where
  invariant := .entryExitCardinality
  message := "Graph must contain exactly one " ++ kind.tag ++ " node, found " ++
    toString (g.count kind) ++ "."
  node := none
  point := none
  counts := [(kind.tag, g.count kind)]

/-! ## Edges between own nodes -/

/-- A stroke connects nodes of the graph itself if any. -/
def Stroke.IsOwn (g : Graph) : Stroke → Prop
  | .connect source target => source ∈ g.nodes ∧ target ∈ g.nodes
  | .add _ | .remove _ | .disconnect _ _ => True

instance (g : Graph) : DecidablePred (Stroke.IsOwn g)
  | .connect source target =>
      inferInstanceAs (Decidable (source ∈ g.nodes ∧ target ∈ g.nodes))
  | .add _ | .remove _ | .disconnect _ _ => isTrue trivial

/-- Only nodes that are in the graph at the time are connected. -/
def ConnectsOwn (name : Value) (strokes : List Stroke) : Prop :=
  ∀ before stroke, before ++ [stroke] <+: strokes → stroke.IsOwn (drawn name before)

theorem connectsOwn_iff {name : Value} {strokes : List Stroke} :
    ConnectsOwn name strokes ↔
      ∀ i : Fin strokes.length, strokes[i].IsOwn (drawn name (strokes.take i)) := by
  constructor
  · refine fun h i ↦ h _ _ ?_
    rw [Fin.getElem_fin, List.take_append_getElem]
    exact List.take_prefix _ _
  · rintro h before stroke ⟨after, rfl⟩
    simpa using h ⟨before.length, by simp⟩

instance (name : Value) (strokes : List Stroke) : Decidable (ConnectsOwn name strokes) :=
  decidable_of_iff _ connectsOwn_iff.symm

/-- No two nodes are held under one id. -/
def KeepsApart (g : Graph) : Prop := g.nodes.Pairwise fun a b ↦ a.id.matchesKey b.id = false

theorem IsFirm.key_eq (hg : g.IsFirm) (hnode : node ∈ g.nodes) : node.key = node.id := by
  simp [Node.key, (hg.nodes node hnode).1]

theorem KeepsApart.stroke {stroke : Stroke} (hapart : g.KeepsApart) (hg : g.IsFirm)
    (h : g.stroke stroke = .ok g') : g'.KeepsApart := by
  cases stroke with
  | add node =>
      obtain ⟨-, hnew, rfl⟩ := eq_of_add_eq_ok h
      refine List.pairwise_append.mpr ⟨hapart, List.pairwise_singleton _ _, fun a ha b hb ↦ ?_⟩
      rw [List.mem_singleton.mp hb, ← hg.key_eq ha]
      exact hnew a ha
  | remove node =>
      obtain rfl := eq_of_remove_eq_ok h
      exact hapart.filter _
  | connect source target =>
      obtain ⟨-, -, rfl⟩ := eq_of_connect_eq_ok h
      exact hapart
  | disconnect source target =>
      cases h
      exact hapart

theorem keepsApart_drawn {name : Value} {strokes : List Stroke}
    (hnamed : ∀ stroke ∈ strokes, stroke.IsNamed) : (drawn name strokes).KeepsApart := by
  refine drawn_keeps KeepsApart .nil fun before stroke g' hearly hbefore hstroke ↦ ?_
  have hfirm : (drawn name before).IsFirm := isFirm_drawn fun earlier hearlier ↦
    hnamed earlier (hearly.subset (List.mem_append_left _ hearlier))
  exact hbefore.stroke hfirm hstroke

/-- A member is found under every id that agrees with its own. -/
theorem IsFirm.find?_eq_some (hg : g.IsFirm) (hapart : g.KeepsApart) (hnode : node ∈ g.nodes)
    (hid : id.IsFirm) (h : id.agrees node.id = true) : g.find? id = some node := by
  -- firm labels agree transitively, so that `id` and the id of the node have the same matches
  have hsame : ∀ member ∈ g.nodes, member.key.matchesKey id = member.key.matchesKey node.id := by
    intro member hmember
    have hfirm := (hg.nodes member hmember).2
    have hfirm' := (hg.nodes node hnode).2
    rw [hg.key_eq hmember, Bool.eq_iff_iff, ← hfirm.agrees_iff, ← hfirm.agrees_iff]
    have hback : node.id.agrees id = true := by
      rwa [Label.agrees_comm hfirm'.isKey hid.isKey]
    exact ⟨fun hmatch ↦ Label.agrees_trans hfirm.isKey hid.isKey hmatch h,
      fun hmatch ↦ Label.agrees_trans hfirm.isKey hfirm'.isKey hmatch hback⟩
  have hself : node.key.matchesKey node.id = true := by
    simp [hg.key_eq hnode, Label.matchesKey]
  have hkeys : g.nodes.Pairwise fun a b ↦ a.key.matchesKey b.id = false :=
    hapart.imp_of_mem fun ha _ hab ↦ hg.key_eq ha ▸ hab
  rw [find?, List.find?_congr hsame]
  exact find?_eq_some_of_pairwise (r := fun a b : Node ↦ a.key.matchesKey b.id) hself hkeys hnode

/-- Connections of own nodes are fair. -/
theorem ConnectsOwn.allFair {name : Value} {strokes : List Stroke}
    (hown : ConnectsOwn name strokes) (hnamed : ∀ stroke ∈ strokes, stroke.IsNamed) :
    AllFair name strokes := by
  rintro before _ hearly source target g' rfl h
  have hbefore : ∀ stroke ∈ before, stroke.IsNamed := fun stroke hstroke ↦
    hnamed stroke (hearly.subset (List.mem_append_left _ hstroke))
  have hfirm : (drawn name before).IsFirm := isFirm_drawn hbefore
  have hfound {node : Node} (hnode : node ∈ (drawn name before).nodes) :
      (drawn name before).find? node.id = some node := by
    have hid := (hfirm.nodes node hnode).2
    exact hfirm.find?_eq_some (keepsApart_drawn hbefore) hnode hid hid.agrees
  obtain ⟨hsource, htarget⟩ := hown before _ hearly
  exact isFair_connect (hfound hsource) (hfound htarget) source target g' rfl h

/-- What validation relies on: members have firm ids, no two of them alike, and every edge goes from
an output point of a member to an input point of a member. -/
structure IsJoined (g : Graph) : Prop where
  firm : g.IsFirm
  apart : g.KeepsApart
  points : g.KeepsPoints

theorem isJoined_drawn {name : Value} {strokes : List Stroke}
    (hnamed : ∀ stroke ∈ strokes, stroke.IsNamed) (hown : ConnectsOwn name strokes) :
    (drawn name strokes).IsJoined :=
  ⟨isFirm_drawn hnamed, keepsApart_drawn hnamed, keepsPoints_drawn hnamed (hown.allFair hnamed)⟩

namespace IsJoined

theorem nodup (hg : g.IsJoined) : g.nodes.Nodup :=
  hg.apart.imp fun hab heq ↦ by simp [heq, Label.matchesKey] at hab

/-- The same edges in another order are between the same points. -/
theorem perm (hg : g.IsJoined) {edges : List Edge} (h : edges.Perm g.edges) :
    IsJoined { g with edges } :=
  ⟨⟨hg.firm.nodes, fun edge hedge ↦ hg.firm.edges edge (h.subset hedge)⟩, hg.apart,
    fun edge hedge ↦ hg.points edge (h.subset hedge)⟩

theorem offersPoint (hg : g.IsJoined) {edge : Edge} (hedge : edge ∈ g.edges) (point : Point) :
    g.OffersPoint (edge.at point) point := by
  cases point
  · exact (hg.points edge hedge).2
  · exact (hg.points edge hedge).1

/-- A point that a node does not have carries no edge. -/
theorem edgesAt_eq_zero (hg : g.IsJoined) (hnode : node ∈ g.nodes)
    (hpoint : node.hasPoint point = false) : g.edgesAt node point = 0 := by
  refine List.countP_eq_zero.mpr fun edge hedge hagrees ↦ ?_
  obtain ⟨member, hmember, hhas⟩ := hg.offersPoint hedge point
  have hid : (edge.at point).IsFirm := by
    cases point
    · exact (hg.firm.edges edge hedge).2
    · exact (hg.firm.edges edge hedge).1
  have hfound := hg.firm.find?_eq_some hg.apart hnode hid hagrees
  obtain rfl := Option.some.inj (hfound.symm.trans hmember)
  rw [hpoint] at hhas
  cases hhas

/-- There is a peer for each edge that has an id at one end. -/
theorem exists_peers (hg : g.IsJoined) (near far : Point) (id : Label) :
    ∃ peers, ((g.edges.filter fun edge ↦ (edge.at near).agrees id).mapM
        fun edge ↦ g.member (edge.at far)) = .ok peers ∧
      peers.length = g.edges.countP fun edge ↦ (edge.at near).agrees id := by
  have hmembers : ∀ edge ∈ g.edges.filter fun edge ↦ (edge.at near).agrees id,
      ∃ member, g.member (edge.at far) = .ok member := by
    intro edge hedge
    obtain ⟨member, hmember, -⟩ := hg.offersPoint (List.mem_of_mem_filter hedge) far
    exact ⟨member, by rw [Graph.member, hmember]⟩
  obtain ⟨peers, hpeers⟩ := exists_mapM_eq_ok hmembers
  refine ⟨peers, hpeers, ?_⟩
  rw [← (forall₂_of_mapM_eq_ok hpeers).length_eq, List.countP_eq_length_filter]

theorem exists_inputs (hg : g.IsJoined) (hnode : node ∈ g.nodes) :
    ∃ peers, g.inputs node = .ok peers ∧ peers.length = g.edgesAt node .input := by
  by_cases hpoint : node.hasPoint .input = true
  · rw [inputs, if_pos hpoint]
    exact hg.exists_peers .input .output node.id
  · rw [inputs, if_neg hpoint, hg.edgesAt_eq_zero hnode (Bool.eq_false_iff.mpr hpoint)]
    exact ⟨[], rfl, rfl⟩

theorem exists_outputs (hg : g.IsJoined) (hnode : node ∈ g.nodes) :
    ∃ peers, g.outputs node = .ok peers ∧ peers.length = g.edgesAt node .output := by
  by_cases hpoint : node.hasPoint .output = true
  · rw [outputs, if_pos hpoint]
    exact hg.exists_peers .output .input node.id
  · rw [outputs, if_neg hpoint, hg.edgesAt_eq_zero hnode (Bool.eq_false_iff.mpr hpoint)]
    exact ⟨[], rfl, rfl⟩

/-! ## What is found -/

theorem checkConnections_eq (hg : g.IsJoined) (hnode : node ∈ g.nodes) :
    g.checkConnections node = .ok (checkPointCount node .input (g.edgesAt node .input) ++
      checkPointCount node .output (g.edgesAt node .output)) := by
  obtain ⟨incoming, hincoming, hcount⟩ := hg.exists_inputs hnode
  obtain ⟨outgoing, houtgoing, hcount'⟩ := hg.exists_outputs hnode
  refine bind_eq_ok_iff.mpr ⟨incoming, hincoming, bind_eq_ok_iff.mpr ⟨outgoing, houtgoing, ?_⟩⟩
  rw [hcount, hcount']
  rfl

end IsJoined

theorem checkCardinality_eq (g : Graph) (kind : NodeKind) :
    g.checkCardinality kind = if g.count kind ≠ 1 then [g.miscountedIssue kind] else [] := by
  have hcount : (g.nodesOfKind kind).length = g.count kind := by
    rw [count, List.countP_eq_length_filter, nodesOfKind]
    rfl
  rw [checkCardinality, hcount, ite_not]
  rfl

theorem map_crowdedIssue (g : Graph) :
    g.crowdedPoints.map g.crowdedIssue = g.nodes.flatMap fun node ↦
      checkPointCount node .input (g.edgesAt node .input) ++
        checkPointCount node .output (g.edgesAt node .output) := by
  have hsite (node : Node) (point : Point) :
      checkPointCount node point (g.edgesAt node point) =
        ([(node, point)].filter fun (node, point) ↦
          2 ≤ g.edgesAt node point).map g.crowdedIssue := by
    by_cases hcrowded : 2 ≤ g.edgesAt node point
    · have hmany : 1 < g.edgesAt node point := hcrowded
      simp [checkPointCount, crowdedIssue, hcrowded, hmany]
    · have hfew : ¬1 < g.edgesAt node point := hcrowded
      simp [checkPointCount, hcrowded, hfew]
  rw [crowdedPoints]
  induction g.nodes with
  | nil => rfl
  | cons node nodes ih =>
      rw [List.product_cons, List.filter_append, List.map_append, List.flatMap_cons,
        ih, hsite, hsite, ← List.map_append, ← List.filter_append]
      rfl

theorem IsJoined.validate_eq (hg : g.IsJoined) :
    g.validate =
      .ok (g.crowdedPoints.map g.crowdedIssue ++ g.miscounted.map g.miscountedIssue) := by
  have hpoints : g.nodes.mapM g.checkConnections = .ok (g.nodes.map fun node ↦
      checkPointCount node .input (g.edgesAt node .input) ++
        checkPointCount node .output (g.edgesAt node .output)) := by
    refine mapM_eq_ok_of_forall₂ (List.forall₂_map_right_iff.mpr (List.forall₂_same.mpr ?_))
    exact fun node hnode ↦ hg.checkConnections_eq hnode
  refine bind_eq_ok_iff.mpr ⟨_, hpoints, congrArg Except.ok ?_⟩
  rw [map_crowdedIssue, ← List.flatMap_def, List.append_assoc, checkCardinality_eq,
    checkCardinality_eq]
  congr 1
  by_cases hentry : g.count .entry = 1 <;> by_cases hexit : g.count .exit = 1 <;>
    simp [miscounted, hentry, hexit]

theorem mem_crowdedPoints_iff :
    (node, point) ∈ g.crowdedPoints ↔ node ∈ g.nodes ∧ 2 ≤ g.edgesAt node point := by
  have hpoint : point ∈ [Point.input, .output] := by cases point <;> simp
  simp [crowdedPoints, hpoint]

/-- Where nodes are added, removed, connected as nodes of the graph and disconnected, in any order,
validation answers with the following issues: one for each point that carries several edges, with
its node, its name and the number of the edges, in the order of the nodes and input before output;
then one for entries and one for exits if their number is not one, with that number.  A point that a
node does not have carries no edge.  So there is no issue just if no point carries several edges and
there are one entry and one exit, and the order of the edges does not matter. -/
theorem validate_exact {name : Value} {strokes : List Stroke}
    (hnamed : ∀ stroke ∈ strokes, stroke.IsNamed) (hown : ConnectsOwn name strokes) :
    let g := drawn name strokes
    g.validate = .ok (g.crowdedPoints.map g.crowdedIssue ++ g.miscounted.map g.miscountedIssue) ∧
      g.crowdedPoints.Nodup ∧
      (∀ node point, (node, point) ∈ g.crowdedPoints ↔ node ∈ g.nodes ∧ 2 ≤ g.edgesAt node point) ∧
      (∀ node ∈ g.nodes, ∀ point, node.hasPoint point = false → g.edgesAt node point = 0) ∧
      (g.validate = .ok [] ↔ (∀ node ∈ g.nodes, ∀ point, g.edgesAt node point ≤ 1) ∧
        g.count .entry = 1 ∧ g.count .exit = 1) ∧
      ∀ edges, edges.Perm g.edges → validate { g with edges } = g.validate := by
  intro g
  have hg : g.IsJoined := isJoined_drawn hnamed hown
  refine ⟨hg.validate_eq, ?_, fun _ _ ↦ mem_crowdedPoints_iff,
    fun node hnode point ↦ hg.edgesAt_eq_zero hnode, ?_, fun edges hperm ↦ ?_⟩
  · exact (hg.nodup.product (by decide)).filter _
  · rw [hg.validate_eq, Except.ok.injEq, List.append_eq_nil_iff, List.map_eq_nil_iff,
      List.map_eq_nil_iff]
    refine and_congr ?_ (by simp [miscounted])
    rw [List.eq_nil_iff_forall_not_mem]
    simp only [Prod.forall, mem_crowdedPoints_iff, not_and, Nat.not_le, Nat.lt_succ_iff]
    exact ⟨fun h node hnode point ↦ h node point hnode, fun h node point hnode ↦ h node hnode point⟩
  · have hcount : edgesAt { g with edges } = g.edgesAt :=
      funext fun node ↦ funext fun point ↦ hperm.countP_eq _
    have hissue : crowdedIssue { g with edges } = g.crowdedIssue :=
      funext fun site ↦ by simp only [crowdedIssue, hcount]
    have hcrowded : crowdedPoints { g with edges } = g.crowdedPoints := by
      simp only [crowdedPoints, hcount]
    rw [hg.validate_eq, (hg.perm hperm).validate_eq, hissue, hcrowded]
    rfl

/-- A line that follows itself, is entered by an entry twice and leads to the second of two exits.
A connection to the first exit is undone, one from it is refused, and another entry is removed with
its edge. -/
def knotted : List Stroke :=
  let entry := plainNode "e" .entry
  let removed := plainNode "d" .entry
  let line := plainNode "l" (.line {})
  let first := plainNode "x" (.exit (.list []))
  let second := plainNode "y" (.exit (.list []))
  [.add removed, .add line, .add entry, .add first, .add second, .connect removed line,
    .connect entry line, .connect line first, .connect line line, .disconnect line first,
    .connect first line, .connect entry line, .connect line second, .remove removed]

theorem validate_exact_of_knotted :
    (∀ stroke ∈ knotted, stroke.IsNamed) ∧ ConnectsOwn (.text "g") knotted ∧
      (drawn (.text "g") knotted).validate = .ok [
        { invariant := .singleConnection, message := crowdedMessage .input,
          node := some (.text "l"), point := some "Input", counts := [("connections", 3)] },
        { invariant := .singleConnection, message := crowdedMessage .output,
          node := some (.text "l"), point := some "Output", counts := [("connections", 2)] },
        { invariant := .singleConnection, message := crowdedMessage .output,
          node := some (.text "e"), point := some "Output", counts := [("connections", 2)] },
        { invariant := .entryExitCardinality,
          message := "Graph must contain exactly one exit node, found 2.",
          node := none, point := none, counts := [("exit", 2)] }] := by
  have hnamed : ∀ stroke ∈ knotted, stroke.IsNamed := by decide
  have hown : ConnectsOwn (.text "g") knotted := by decide +kernel
  obtain ⟨hissues, -⟩ := validate_exact hnamed hown
  refine ⟨hnamed, hown, hissues.trans ?_⟩
  decide +kernel

end Graph

end LinearDialogue
