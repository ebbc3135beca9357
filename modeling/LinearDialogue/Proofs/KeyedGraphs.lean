import LinearDialogue.Proofs.MemberEdges

/-!
# Graphs of any keys

A document may name its nodes by anything that can be a key: by numbers, by null, also by what
agrees with nothing, not even with itself.  No two nodes of a graph that has been read are named by
one key, and every edge leads from an output of a member to an input of one.  So peers are found,
validation comes to an answer, and the number of a node is its place, whatever the ids are.
-/

namespace LinearDialogue.Graph

variable {g g' : Graph} {node next source target : Node} {out : Option Node} {number : Int}

/-- What the reading of a document keeps of a graph: its nodes are as they were made, of the kinds
that documents have, with keys for ids and no two with one key, and edges lead from outputs of
members to inputs of members. -/
structure IsKeyed (g : Graph) : Prop where
  asMade : ∀ node ∈ g.nodes, node.overrides = {}
  bodies : ∀ node ∈ g.nodes, node.body.IsPlain
  keys : ∀ node ∈ g.nodes, node.id.isKey = true
  apart : g.nodes.Pairwise fun a b ↦ a.id.matchesKey b.id = false
  edges : ∀ edge ∈ g.edges, ∃ source ∈ g.nodes, ∃ target ∈ g.nodes,
    edge = ⟨source.id, target.id⟩ ∧ source.hasPoint .output = true ∧ target.hasPoint .input = true


namespace IsKeyed

theorem key_eq (hg : g.IsKeyed) (hnode : node ∈ g.nodes) : node.key = node.id := by
  simp [Node.key, hg.asMade node hnode]

theorem add (hg : g.IsKeyed) (hmade : node.overrides = {}) (hbody : node.body.IsPlain)
    (h : g.add node = .ok g') : g'.IsKeyed := by
  obtain ⟨hkey, hnew, rfl⟩ := eq_of_add_eq_ok h
  refine ⟨?_, ?_, ?_, ?_, fun edge hedge ↦ ?_⟩
  · exact List.forall_mem_append.mpr ⟨hg.asMade, List.forall_mem_singleton.mpr hmade⟩
  · exact List.forall_mem_append.mpr ⟨hg.bodies, List.forall_mem_singleton.mpr hbody⟩
  · exact List.forall_mem_append.mpr ⟨hg.keys, List.forall_mem_singleton.mpr hkey⟩
  · refine List.pairwise_append.mpr ⟨hg.apart, List.pairwise_singleton _ _, fun a ha b hb ↦ ?_⟩
    rw [List.mem_singleton.mp hb, ← hg.key_eq ha]
    exact hnew a ha
  · obtain ⟨source, hsource, target, htarget, hends⟩ := hg.edges edge hedge
    exact ⟨source, List.mem_append_left _ hsource, target, List.mem_append_left _ htarget, hends⟩

theorem connect (hg : g.IsKeyed) (hsource : source ∈ g.nodes) (htarget : target ∈ g.nodes)
    (h : g.connect source target = .ok g') : g'.IsKeyed := by
  obtain ⟨houtput, hinput, rfl⟩ := eq_of_connect_eq_ok h
  refine ⟨hg.asMade, hg.bodies, hg.keys, hg.apart, ?_⟩
  exact List.forall_mem_append.mpr ⟨hg.edges, List.forall_mem_singleton.mpr
    ⟨source, hsource, target, htarget, rfl, houtput, hinput⟩⟩

end IsKeyed

theorem isKeyed_of_ofDocument_eq_ok {document : Value} (h : ofDocument document = .ok g) :
    g.IsKeyed := by
  refine ofDocument_keeps IsKeyed (fun name ↦ ?_) (fun hg h ↦ ?_)
    (fun hg hmade hbody h ↦ hg.add hmade hbody h)
    (fun hg hsource htarget h ↦ hg.connect hsource htarget h) h
  · exact ⟨by simp, by simp, by simp, .nil, by simp⟩
  · obtain ⟨-, rfl⟩ := eq_of_setVariable_eq_ok h
    exact ⟨hg.asMade, hg.bodies, hg.keys, hg.apart, hg.edges⟩

namespace IsKeyed

/-! ## Members and their numbers -/

theorem nodup (hg : g.IsKeyed) : g.nodes.Nodup :=
  hg.apart.imp fun hab heq ↦ by simp [heq, Label.matchesKey] at hab

theorem member_eq_ok (hg : g.IsKeyed) (hnode : node ∈ g.nodes) : g.member node.id = .ok node := by
  have hself : node.key.matchesKey node.id = true := by
    simp [hg.key_eq hnode, Label.matchesKey]
  have hapart : g.nodes.Pairwise fun a b ↦ a.key.matchesKey b.id = false :=
    hg.apart.imp_of_mem fun ha _ hab ↦ hg.key_eq ha ▸ hab
  have hfind : g.find? node.id = some node :=
    find?_eq_some_of_pairwise (r := fun a b : Node ↦ a.key.matchesKey b.id) hself hapart hnode
  rw [member, hfind]

/-- The number of a member is its place. -/
theorem numberOf_eq_ok (hg : g.IsKeyed) {n : ℕ} (hnode : g.nodes[n]? = some node) :
    g.numberOf node.id = .ok n := by
  let entries := g.nodes.mapIdx fun i node ↦ (node.id, (i : Int))
  have hapart : entries.Pairwise fun entry other ↦ entry.1.matchesKey other.1 = false := by
    have hnodes := List.pairwise_iff_getElem.mp hg.apart
    refine List.pairwise_iff_getElem.mpr fun i j hi hj hij ↦ ?_
    simp only [entries, List.getElem_mapIdx]
    exact hnodes i j (by simpa [entries] using hi) (by simpa [entries] using hj) hij
  have hentry : (node.id, (n : Int)) ∈ entries :=
    List.mem_of_getElem? (i := n) (by simp [entries, hnode])
  have hfind := find?_eq_some_of_pairwise (r := fun entry other ↦ entry.1.matchesKey other.1)
    (by simp [Label.matchesKey]) hapart hentry
  rw [numberOf, numbers, foldl_enter_eq_self_of_pairwise hapart, hfind]

theorem exists_numberOf (hg : g.IsKeyed) (hnode : node ∈ g.nodes) :
    ∃ n : ℕ, g.nodes[n]? = some node ∧ g.numberOf node.id = .ok n := by
  obtain ⟨n, hn⟩ := List.mem_iff_getElem?.mp hnode
  exact ⟨n, hn, hg.numberOf_eq_ok hn⟩

/-- Different members have different numbers. -/
theorem eq_of_numberOf (hg : g.IsKeyed) (hnode : node ∈ g.nodes) (hnext : next ∈ g.nodes)
    (h : g.numberOf node.id = .ok number) (h' : g.numberOf next.id = .ok number) : node = next := by
  obtain ⟨m, hm, hnumber⟩ := hg.exists_numberOf hnode
  obtain ⟨n, hn, hnumber'⟩ := hg.exists_numberOf hnext
  obtain rfl := Except.ok.inj (h.symm.trans hnumber)
  have hmn : (n : Int) = m := Except.ok.inj (hnumber'.symm.trans h')
  obtain rfl : n = m := by exact_mod_cast hmn
  exact Option.some.inj (hm.symm.trans hn)

theorem numbering_eq_ok (hg : g.IsKeyed) : g.numbering = .ok g.numbers := by
  have hkeys := hg.keys
  refine bind_eq_ok_iff.mpr ⟨(), ?_, rfl⟩
  generalize g.nodes = nodes at hkeys ⊢
  induction nodes with
  | nil => rfl
  | cons node nodes ih =>
      obtain ⟨hfirst, hrest⟩ := List.forall_mem_cons.mp hkeys
      exact bind_eq_ok_iff.mpr ⟨(), if_pos hfirst, ih hrest⟩

/-! ## Peers -/

theorem exists_inputs (hg : g.IsKeyed) (node : Node) :
    ∃ incoming, g.inputs node = .ok incoming := by
  rw [inputs]
  split
  · refine exists_mapM_eq_ok fun edge hedge ↦ ?_
    obtain ⟨source, hsource, _, _, rfl, -⟩ := hg.edges edge (List.mem_of_mem_filter hedge)
    exact ⟨source, hg.member_eq_ok hsource⟩
  · exact ⟨[], rfl⟩

theorem exists_outputs (hg : g.IsKeyed) (node : Node) :
    ∃ outgoing, g.outputs node = .ok outgoing := by
  rw [outputs]
  split
  · refine exists_mapM_eq_ok fun edge hedge ↦ ?_
    obtain ⟨_, _, target, htarget, rfl, -⟩ := hg.edges edge (List.mem_of_mem_filter hedge)
    exact ⟨target, hg.member_eq_ok htarget⟩
  · exact ⟨[], rfl⟩

/-- An edge leads to a member that is no entry. -/
theorem of_leads (hg : g.IsKeyed) (h : g.Leads node next) :
    next ∈ g.nodes ∧ next.kind ≠ .entry := by
  obtain ⟨outgoing, houtgoing, hnext⟩ := h
  rw [outputs] at houtgoing
  split at houtgoing
  · obtain ⟨edge, hedge, hmember⟩ :=
      exists_mem_of_forall₂ (forall₂_of_mapM_eq_ok houtgoing).flip hnext
    obtain ⟨_, _, target, htarget, rfl, -, hinput⟩ := hg.edges edge (List.mem_of_mem_filter hedge)
    obtain rfl := Except.ok.inj ((hg.member_eq_ok htarget).symm.trans hmember)
    refine ⟨htarget, fun hentry ↦ ?_⟩
    simp [Node.hasPoint, hg.asMade target htarget, hentry, NodeKind.hasPoint] at hinput
  · cases houtgoing
    cases hnext

theorem exists_issues (hg : g.IsKeyed) : ∃ issues, g.validate = .ok issues := by
  have hpoints : ∀ node ∈ g.nodes, ∃ issues, g.checkConnections node = .ok issues := by
    intro node _
    obtain ⟨incoming, hincoming⟩ := hg.exists_inputs node
    obtain ⟨outgoing, houtgoing⟩ := hg.exists_outputs node
    exact ⟨_, bind_eq_ok_iff.mpr ⟨incoming, hincoming,
      bind_eq_ok_iff.mpr ⟨outgoing, houtgoing, rfl⟩⟩⟩
  obtain ⟨atPoints, hatPoints⟩ := exists_mapM_eq_ok hpoints
  exact ⟨_, bind_eq_ok_iff.mpr ⟨atPoints, hatPoints, rfl⟩⟩

theorem exists_firstOutput (hg : g.IsKeyed) (node : Node) :
    ∃ out, g.firstOutput node = .ok out := by
  obtain ⟨outgoing, houtgoing⟩ := hg.exists_outputs node
  exact ⟨outgoing.head?, bind_eq_ok_iff.mpr ⟨outgoing, houtgoing, rfl⟩⟩

theorem isOutput (hg : g.IsKeyed) (h : g.firstOutput node = .ok out) : g.IsOutput out := by
  rintro next rfl
  exact hg.of_leads (leads_of_firstOutput h)

/-! ## Lines -/

theorem exists_line (hg : g.IsKeyed) (hnode : node ∈ g.contentNodes) :
    ∃ draft callbacks, node.body = .line draft ∧ draft.callbacks = .list callbacks := by
  obtain ⟨hmember, hentry, hexit⟩ := mem_contentNodes_iff.mp hnode
  have hbody := hg.bodies node hmember
  cases hline : node.body with
  | line draft =>
      rw [hline] at hbody
      cases hbody with
      | line actor audio text callbacks => exact ⟨_, callbacks, rfl, rfl⟩
  | entry => simp [Node.kind, hline] at hentry
  | exit callbacks => simp [Node.kind, hline] at hexit
  | choice =>
      rw [hline] at hbody
      cases hbody

/-- What is at an output has a number, unless it is an exit or nothing. -/
theorem exists_targetNumber (hg : g.IsKeyed) (hout : g.IsOutput out) :
    g.targetNumber out = .ok noId ∨ ∃ next ∈ g.contentNodes, out = some next ∧
      ∃ n : ℕ, g.nodes[n]? = some next ∧ g.targetNumber out = .ok n := by
  cases out with
  | none => exact .inl rfl
  | some next =>
      rw [targetNumber]
      split
      · exact .inl rfl
      · next hexit =>
        obtain ⟨hnext, hentry⟩ := hout next rfl
        exact .inr ⟨next, mem_contentNodes_iff.mpr ⟨hnext, hentry, hexit⟩, rfl,
          hg.exists_numberOf hnext⟩

end IsKeyed

end LinearDialogue.Graph
