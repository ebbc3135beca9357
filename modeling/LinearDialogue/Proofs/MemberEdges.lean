import LinearDialogue.Importer
import LinearDialogue.Proofs.Acts
import LinearDialogue.Proofs.Compilability
import LinearDialogue.Proofs.ConnectionPoints

/-!
# Edges between members

The peers of a node are looked up without asking whether they are there.  This is safe because both
ends of every edge are members at all times: whatever nodes the operations are given, and whether
they are refused or not.  So nothing that goes along edges ever looks for a node that is missing.
-/

namespace LinearDialogue.Graph

variable {g g' : Graph} {node source target : Node} {id : Label}

/-! ## Graphs that are revised -/

/-- A change of a graph: a stroke, or that the graph of a document takes its place. -/
inductive Revision
  | stroke (stroke : Stroke)
  | read (document : Value)

def revise (g : Graph) : Revision → Except Failure Graph
  | .stroke stroke => g.stroke stroke
  | .read document => ofDocument document

/-- The graph after several revisions.  Those that are refused leave it as it is. -/
def revised (name : Value) (revisions : List Revision) : Graph :=
  revisions.foldl (fun g revision ↦ (g.revise revision).toOption.getD g) { name }

/-- The ids that come in are texts, and nodes come in under their own ids. -/
def Revision.HasTextIds : Revision → Prop
  | .stroke change => ∀ node ∈ change.nodes, node.key = node.id ∧ node.id.IsText
  | .read document => ∀ g, ofDocument document = .ok g → g.HasTextIds

theorem revised_append (name : Value) (before : List Revision) (revision : Revision) :
    revised name (before ++ [revision]) =
      ((revised name before).revise revision).toOption.getD (revised name before) := by
  rw [revised, List.foldl_append]
  rfl

/-- What holds of a blank graph and is kept by each revision holds of the graph after all of
them. -/
theorem revised_keeps (keeps : Graph → Prop) {name : Value} {revisions : List Revision}
    (hblank : keeps { name })
    (hrevise : ∀ revision ∈ revisions, ∀ {g g' : Graph}, keeps g → g.revise revision = .ok g' →
      keeps g') : keeps (revised name revisions) := by
  induction revisions using List.reverseRecOn with
  | nil => exact hblank
  | append_singleton before revision ih =>
      have hbefore := ih fun earlier hearlier ↦ hrevise earlier (List.mem_append_left _ hearlier)
      rw [revised_append]
      cases hmade : (revised name before).revise revision with
      | ok g' => exact hrevise revision (by simp) hbefore hmade
      | error _ => exact hbefore

/-! ## Both ends are members -/

/-- Nodes are held under their own ids, different texts, and both ends of each edge are such ids. -/
structure IsTethered (g : Graph) : Prop where
  keys : ∀ node ∈ g.nodes, node.key = node.id
  texts : g.HasTextIds
  nodup : (g.nodes.map Node.id).Nodup
  ends : ∀ edge ∈ g.edges, edge.source ∈ g.nodes.map Node.id ∧ edge.target ∈ g.nodes.map Node.id

theorem IsTethered.find?_eq_some_iff (hg : g.IsTethered) :
    g.find? id = some node ↔ node ∈ g.nodes ∧ node.id = id := by
  have hmatch : ∀ member ∈ g.nodes, (member.key.matchesKey id = true ↔ member.id = id) := by
    intro member hmember
    rw [hg.keys member hmember, (hg.texts member hmember).matchesKey_iff']
  constructor
  · intro hfind
    have hmember := List.mem_of_find?_eq_some hfind
    have hkey := List.find?_some hfind
    exact ⟨hmember, (hmatch node hmember).mp hkey⟩
  · rintro ⟨hmember, rfl⟩
    exact find?_eq_some_of_nodup hg.nodup hmember hmatch

theorem IsTethered.isSome_find?_iff (hg : g.IsTethered) :
    (g.find? id).isSome = true ↔ id ∈ g.nodes.map Node.id := by
  simp [Option.isSome_iff_exists, hg.find?_eq_some_iff]

theorem isTethered_blank (name : Value) : IsTethered { name } :=
  ⟨by simp, by simp [HasTextIds], by simp, by simp⟩

theorem IsTethered.add (hg : g.IsTethered) (hkey : node.key = node.id) (htext : node.id.IsText)
    (h : g.add node = .ok g') : g'.IsTethered := by
  obtain ⟨-, hnew, rfl⟩ := eq_of_add_eq_ok h
  refine ⟨?_, ?_, ?_, ?_⟩
  · simpa [or_imp, forall_and, hkey] using hg.keys
  · simpa [HasTextIds, or_imp, forall_and, htext] using hg.texts
  · rw [List.map_append, List.nodup_append]
    refine ⟨hg.nodup, List.nodup_singleton _, ?_⟩
    rintro _ hold _ hid rfl
    obtain ⟨member, hmember, hsame⟩ := List.mem_map.mp hold
    have hother := hnew member hmember
    rw [hg.keys member hmember, hsame, List.mem_singleton.mp hid] at hother
    simp [Label.matchesKey] at hother
  · intro edge hedge
    obtain ⟨hsource, htarget⟩ := hg.ends edge hedge
    rw [List.map_append]
    exact ⟨List.mem_append_left _ hsource, List.mem_append_left _ htarget⟩

theorem IsTethered.remove (hg : g.IsTethered) (htext : id.IsText) (h : g.remove id = .ok g') :
    g'.IsTethered := by
  obtain rfl := eq_of_remove_eq_ok h
  refine ⟨?_, ?_, ?_, ?_⟩
  · exact fun node hnode ↦ hg.keys node (List.mem_of_mem_filter hnode)
  · exact fun node hnode ↦ hg.texts node (List.mem_of_mem_filter hnode)
  · exact hg.nodup.sublist (List.filter_sublist.map Node.id)
  · intro edge hedge
    obtain ⟨hedge, hfree⟩ := List.mem_filter.mp hedge
    simp only [Bool.and_eq_true, Bool.not_eq_true'] at hfree
    -- an edge that stays has other ends than the removed node, and those stay
    have hstays {endpoint : Label} (hend : endpoint ∈ g.nodes.map Node.id)
        (hother : endpoint.agrees id = false) :
        endpoint ∈ (g.nodes.filter fun node ↦ !node.key.matchesKey id).map Node.id := by
      obtain ⟨member, hmember, rfl⟩ := List.mem_map.mp hend
      refine List.mem_map.mpr ⟨member, List.mem_filter.mpr ⟨hmember, ?_⟩, rfl⟩
      rw [hg.keys member hmember, Bool.not_eq_true', Bool.eq_false_iff, ne_eq, htext.matchesKey_iff]
      rintro rfl
      rw [htext.agrees_iff.mpr rfl] at hother
      cases hother
    obtain ⟨hsource, htarget⟩ := hg.ends edge hedge
    exact ⟨hstays hsource hfree.1, hstays htarget hfree.2⟩

theorem isSome_find?_of_checkMember_eq_ok (h : g.checkMember id = .ok ()) :
    (g.find? id).isSome = true := by
  obtain ⟨found, hlookup, h⟩ := bind_eq_ok_iff.mp h
  obtain ⟨_, _, hfind⟩ := bind_eq_ok_iff.mp hlookup
  rw [Except.ok.inj hfind]
  cases found with
  | some _ => rfl
  | none => cases h

/-- To be connected, two nodes must have ids of members. -/
theorem isSome_find?_of_connect_eq_ok (h : g.connect source target = .ok g') :
    (g.find? source.id).isSome = true ∧ (g.find? target.id).isSome = true := by
  obtain ⟨_, _, h⟩ := bind_eq_ok_iff.mp h
  obtain ⟨_, _, h⟩ := bind_eq_ok_iff.mp h
  obtain ⟨_, hsource, h⟩ := bind_eq_ok_iff.mp h
  obtain ⟨_, htarget, _⟩ := bind_eq_ok_iff.mp h
  exact ⟨isSome_find?_of_checkMember_eq_ok hsource, isSome_find?_of_checkMember_eq_ok htarget⟩

theorem IsTethered.connect (hg : g.IsTethered) (h : g.connect source target = .ok g') :
    g'.IsTethered := by
  obtain ⟨hsource, htarget⟩ := isSome_find?_of_connect_eq_ok h
  obtain ⟨-, -, rfl⟩ := eq_of_connect_eq_ok h
  refine ⟨hg.keys, hg.texts, hg.nodup, fun edge hedge ↦ ?_⟩
  rcases List.mem_append.mp hedge with hedge | hedge
  · exact hg.ends edge hedge
  · rw [List.mem_singleton.mp hedge]
    exact ⟨hg.isSome_find?_iff.mp hsource, hg.isSome_find?_iff.mp htarget⟩

theorem IsTethered.disconnect (hg : g.IsTethered) (source target : Label) :
    (g.disconnect source target).IsTethered :=
  ⟨hg.keys, hg.texts, hg.nodup, fun edge hedge ↦ hg.ends edge (List.mem_of_mem_filter hedge)⟩

theorem IsTethered.stroke {stroke : Stroke} (hg : g.IsTethered)
    (htext : (Revision.stroke stroke).HasTextIds) (h : g.stroke stroke = .ok g') :
    g'.IsTethered := by
  cases stroke with
  | add node =>
      obtain ⟨hkey, hid⟩ := htext node List.mem_cons_self
      exact hg.add hkey hid h
  | remove node => exact hg.remove (htext node List.mem_cons_self).2 h
  | connect source target => exact hg.connect h
  | disconnect source target =>
      cases h
      exact hg.disconnect source.id target.id

/-- Reading connects members only. -/
theorem mem_ids_of_ofDocument_eq_ok {document : Value} (h : ofDocument document = .ok g) :
    ∀ edge ∈ g.edges, edge.source ∈ g.nodes.map Node.id ∧ edge.target ∈ g.nodes.map Node.id := by
  refine ofDocument_keeps (fun g ↦ ∀ edge ∈ g.edges, edge.source ∈ g.nodes.map Node.id ∧
    edge.target ∈ g.nodes.map Node.id) (by simp) ?_ ?_ ?_ h
  · intro g g' name default hends h
    obtain ⟨-, rfl⟩ := eq_of_setVariable_eq_ok h
    exact hends
  · intro g g' node hends _ _ h edge hedge
    obtain ⟨-, -, rfl⟩ := eq_of_add_eq_ok h
    obtain ⟨hsource, htarget⟩ := hends edge hedge
    rw [List.map_append]
    exact ⟨List.mem_append_left _ hsource, List.mem_append_left _ htarget⟩
  · intro g g' source target hends hsource htarget h edge hedge
    obtain ⟨-, -, rfl⟩ := eq_of_connect_eq_ok h
    rcases List.mem_append.mp hedge with hedge | hedge
    · exact hends edge hedge
    · rw [List.mem_singleton.mp hedge]
      exact ⟨List.mem_map_of_mem hsource, List.mem_map_of_mem htarget⟩

theorem isTethered_of_ofDocument_eq_ok {document : Value} (h : ofDocument document = .ok g)
    (htexts : g.HasTextIds) : g.IsTethered := by
  have hmade := wellMade_of_ofDocument_eq_ok h
  exact ⟨fun node hnode ↦ hmade.key_eq hnode, htexts, hmade.nodup, mem_ids_of_ofDocument_eq_ok h⟩

theorem isTethered_revised {name : Value} {revisions : List Revision}
    (htext : ∀ revision ∈ revisions, revision.HasTextIds) :
    (revised name revisions).IsTethered := by
  refine revised_keeps IsTethered (isTethered_blank name) fun revision hrevision g g' hg h ↦ ?_
  cases revision with
  | stroke stroke => exact hg.stroke (htext _ hrevision) h
  | read document => exact isTethered_of_ofDocument_eq_ok h (htext _ hrevision g' h)

/-! ## What is refused and what is made -/

theorem Label.IsText.checkKey_eq_ok (h : id.IsText) : id.checkKey = .ok () := by
  obtain ⟨s, rfl⟩ := h
  rfl

/-- A node is added unless there is one of its id, and a refusal leaves the graph as it is. -/
theorem revise_add (htext : node.id.IsText) :
    (g.revise (.stroke (.add node))).toOption.getD g =
      if (g.find? node.id).isSome then g else { g with nodes := g.nodes ++ [node] } := by
  have hadd : g.revise (.stroke (.add node)) = g.add node := rfl
  rw [hadd, Graph.add, lookup, Label.IsText.checkKey_eq_ok htext]
  cases hfind : g.find? node.id <;> rfl

/-- Two nodes are connected if they have the points and ids of members, and a refusal leaves the
graph as it is. -/
theorem revise_connect (hsource : source.id.IsText) (htarget : target.id.IsText) :
    (g.revise (.stroke (.connect source target))).toOption.getD g =
      if source.hasPoint .output ∧ target.hasPoint .input ∧ (g.find? source.id).isSome ∧
          (g.find? target.id).isSome then
        { g with edges := g.edges ++ [⟨source.id, target.id⟩] }
      else g := by
  have hconnect : g.revise (.stroke (.connect source target)) = g.connect source target := rfl
  rw [hconnect]
  cases hmade : g.connect source target with
  | ok g' =>
      obtain ⟨houtput, hinput, rfl⟩ := eq_of_connect_eq_ok hmade
      obtain ⟨hfound, hfound'⟩ := isSome_find?_of_connect_eq_ok hmade
      rw [if_pos ⟨houtput, hinput, hfound, hfound'⟩]
      rfl
  | error failure =>
      rw [if_neg]
      · rfl
      rintro ⟨houtput, hinput, hfound, hfound'⟩
      have hmember {id : Label} (hid : id.IsText) (h : (g.find? id).isSome = true) :
          g.checkMember id = .ok () := by
        obtain ⟨member, hmember⟩ := Option.isSome_iff_exists.mp h
        rw [checkMember, lookup, Label.IsText.checkKey_eq_ok hid, hmember]
        rfl
      rw [Graph.connect, checkPoint, if_pos houtput, checkPoint, if_pos hinput,
        hmember hsource hfound, hmember htarget hfound'] at hmade
      cases hmade

theorem exists_remove_eq_ok (htext : id.IsText) : ∃ g', g.remove id = .ok g' := by
  rw [Graph.remove, Label.IsText.checkKey_eq_ok htext]
  split <;> exact ⟨_, rfl⟩

/-- A removed node is not found again, unless another of its id is added. -/
theorem IsTethered.find?_remove (hg : g.IsTethered) (htext : id.IsText)
    (h : g.remove id = .ok g') : g'.find? id = none := by
  have hg' := hg.remove htext h
  rw [Option.eq_none_iff_forall_ne_some]
  intro member hmember
  obtain ⟨hmember, hid⟩ := hg'.find?_eq_some_iff.mp hmember
  obtain rfl := eq_of_remove_eq_ok h
  obtain ⟨hmember, hkept⟩ := List.mem_filter.mp hmember
  rw [hg.keys member hmember, htext.matchesKey_iff.mpr hid] at hkept
  cases hkept

/-! ## Peers -/

theorem IsTethered.exists_peers (hg : g.IsTethered) (ids : List Label)
    (hids : ∀ id ∈ ids, id ∈ g.nodes.map Node.id) :
    ∃ peers, ids.mapM g.member = .ok peers ∧ peers ⊆ g.nodes ∧ peers.map Node.id = ids := by
  induction ids with
  | nil => exact ⟨[], rfl, List.nil_subset _, rfl⟩
  | cons id ids ih =>
      obtain ⟨peers, hpeers, hsubset, hmap⟩ := ih fun other hother ↦
        hids other (List.mem_cons_of_mem id hother)
      obtain ⟨peer, hpeer, rfl⟩ := List.mem_map.mp (hids id List.mem_cons_self)
      have hmember : g.member peer.id = .ok peer := by
        rw [member, hg.find?_eq_some_iff.mpr ⟨hpeer, rfl⟩]
      refine ⟨peer :: peers, ?_, List.cons_subset.mpr ⟨hpeer, hsubset⟩, by simp [hmap]⟩
      rw [List.mapM_cons, hmember, hpeers]
      rfl

/-- The ids at the other ends of the edges to a node that has the input point. -/
def sourcesOf (g : Graph) (node : Node) : List Label :=
  if node.hasPoint .input then (g.edges.filter fun e ↦ e.target = node.id).map Edge.source else []

/-- The ids at the other ends of the edges from a node that has the output point. -/
def targetsOf (g : Graph) (node : Node) : List Label :=
  if node.hasPoint .output then (g.edges.filter fun e ↦ e.source = node.id).map Edge.target else []

theorem IsTethered.isText (hg : g.IsTethered) (h : id ∈ g.nodes.map Node.id) : id.IsText := by
  obtain ⟨member, hmember, rfl⟩ := List.mem_map.mp h
  exact hg.texts member hmember

/-- The peers at one end of the edges that have an id at the other. -/
theorem IsTethered.exists_peers_of_edges (hg : g.IsTethered) {near far : Edge → Label}
    (hnear : ∀ edge ∈ g.edges, near edge ∈ g.nodes.map Node.id)
    (hfar : ∀ edge ∈ g.edges, far edge ∈ g.nodes.map Node.id) (id : Label) :
    ∃ peers, ((g.edges.filter fun e ↦ (near e).agrees id).mapM fun e ↦ g.member (far e)) =
        .ok peers ∧ peers ⊆ g.nodes ∧
      peers.map Node.id = (g.edges.filter fun e ↦ near e = id).map far := by
  have hfilter : (g.edges.filter fun e ↦ (near e).agrees id) =
      g.edges.filter fun e ↦ near e = id := by
    refine List.filter_congr fun edge hedge ↦ Bool.eq_iff_iff.mpr ?_
    rw [(hg.isText (hnear edge hedge)).agrees_iff', decide_eq_true_iff]
  obtain ⟨peers, hpeers, hsubset, hmap⟩ :=
    hg.exists_peers ((g.edges.filter fun e ↦ near e = id).map far) (by
      intro other hother
      obtain ⟨edge, hedge, rfl⟩ := List.mem_map.mp hother
      exact hfar edge (List.mem_of_mem_filter hedge))
  rw [List.mapM_map] at hpeers
  exact ⟨peers, hfilter ▸ hpeers, hsubset, hmap⟩

theorem IsTethered.exists_inputs (hg : g.IsTethered) (node : Node) :
    ∃ peers, g.inputs node = .ok peers ∧ peers ⊆ g.nodes ∧
      peers.map Node.id = g.sourcesOf node := by
  by_cases hpoint : node.hasPoint .input = true
  · rw [inputs, if_pos hpoint, sourcesOf, if_pos hpoint]
    exact hg.exists_peers_of_edges (fun edge hedge ↦ (hg.ends edge hedge).2)
      (fun edge hedge ↦ (hg.ends edge hedge).1) node.id
  · rw [inputs, if_neg hpoint, sourcesOf, if_neg hpoint]
    exact ⟨[], rfl, List.nil_subset _, rfl⟩

theorem IsTethered.exists_outputs (hg : g.IsTethered) (node : Node) :
    ∃ peers, g.outputs node = .ok peers ∧ peers ⊆ g.nodes ∧
      peers.map Node.id = g.targetsOf node := by
  by_cases hpoint : node.hasPoint .output = true
  · rw [outputs, if_pos hpoint, targetsOf, if_pos hpoint]
    exact hg.exists_peers_of_edges (fun edge hedge ↦ (hg.ends edge hedge).1)
      (fun edge hedge ↦ (hg.ends edge hedge).2) node.id
  · rw [outputs, if_neg hpoint, targetsOf, if_neg hpoint]
    exact ⟨[], rfl, List.nil_subset _, rfl⟩

/-! ## Nothing is missing -/

theorem exists_mapM_eq_ok {α β : Type} {f : α → Except Failure β} {xs : List α}
    (h : ∀ a ∈ xs, ∃ b, f a = .ok b) : ∃ ys, xs.mapM f = .ok ys := by
  cases hmade : xs.mapM f with
  | ok ys => exact ⟨ys, rfl⟩
  | error failure =>
      obtain ⟨a, ha, hfails⟩ := exists_of_mapM_eq_error hmade
      obtain ⟨b, hb⟩ := h a ha
      rw [hb] at hfails
      cases hfails

theorem IsTethered.exists_issues (hg : g.IsTethered) : ∃ issues, g.validate = .ok issues := by
  have hpoints : ∀ node ∈ g.nodes, ∃ issues, g.checkConnections node = .ok issues := by
    intro node _
    obtain ⟨incoming, hincoming, -⟩ := hg.exists_inputs node
    obtain ⟨outgoing, houtgoing, -⟩ := hg.exists_outputs node
    exact ⟨_, bind_eq_ok_iff.mpr ⟨incoming, hincoming,
      bind_eq_ok_iff.mpr ⟨outgoing, houtgoing, rfl⟩⟩⟩
  obtain ⟨atPoints, hatPoints⟩ := exists_mapM_eq_ok hpoints
  exact ⟨_, bind_eq_ok_iff.mpr ⟨atPoints, hatPoints, rfl⟩⟩

theorem IsTethered.exists_number (hg : g.IsTethered) (hnode : node ∈ g.nodes) :
    ∃ number, g.numberOf node.id = .ok number := by
  obtain ⟨n, hn⟩ := List.mem_iff_getElem?.mp hnode
  exact ⟨n, numberOf_eq_ok hg.nodup hg.texts hn⟩

/-- What any node is wired to has a number. -/
theorem IsTethered.exists_target (hg : g.IsTethered) (node : Node) :
    ∃ out number, g.firstOutput node = .ok out ∧ g.targetNumber out = .ok number := by
  obtain ⟨peers, hpeers, hsubset, -⟩ := hg.exists_outputs node
  refine ⟨peers.head?, ?_⟩
  have hfirst : g.firstOutput node = .ok peers.head? := bind_eq_ok_iff.mpr ⟨peers, hpeers, rfl⟩
  cases peers with
  | nil => exact ⟨noId, hfirst, rfl⟩
  | cons peer rest =>
      obtain ⟨number, hnumber⟩ := hg.exists_number (hsubset List.mem_cons_self)
      by_cases hexit : peer.kind = .exit
      · exact ⟨noId, hfirst, if_pos hexit⟩
      · exact ⟨number, hfirst, (if_neg hexit).trans hnumber⟩

theorem IsTethered.exists_entryNumber (hg : g.IsTethered) :
    ∃ number, g.entryNumber = .ok number := by
  cases hentries : g.nodesOfKind .entry with
  | nil => exact ⟨noId, bind_eq_ok_iff.mpr ⟨_, numbering_eq_ok hg.texts, by rw [hentries]; rfl⟩⟩
  | cons entry others =>
      obtain ⟨out, number, hout, hnumber⟩ := hg.exists_target entry
      refine ⟨number, bind_eq_ok_iff.mpr ⟨_, numbering_eq_ok hg.texts, ?_⟩⟩
      rw [hentries]
      exact bind_eq_ok_iff.mpr ⟨out, hout, hnumber⟩

theorem IsTethered.lower_ne_missingKey (hg : g.IsTethered) (hnode : node ∈ g.nodes) (key : Value) :
    (g.lower node).result ≠ .error (.missingKey key) := by
  obtain ⟨out, successor, hout, hsuccessor⟩ := hg.exists_target node
  obtain ⟨id, hid⟩ := hg.exists_number hnode
  intro h
  rcases Logged.result_bind_eq_error_iff.mp h with h | ⟨_, hmade, h⟩
  · cases hout.symm.trans h
  obtain rfl := Except.ok.inj (hout.symm.trans hmade)
  rcases Logged.result_bind_eq_error_iff.mp h with h | ⟨_, _, h⟩
  · cases hsuccessor.symm.trans h
  rcases Logged.result_bind_eq_error_iff.mp h with h | ⟨_, _, h⟩
  · cases hid.symm.trans h
  split at h
  · rcases of_lowerLine_eq_error h with h | ⟨_, _, h, -⟩ <;> cases h
  · cases h

theorem IsTethered.compile_ne_missingKey (hg : g.IsTethered) (key : Value) :
    g.compile.result ≠ .error (.missingKey key) := by
  intro h
  rcases compile_eq_error_cases h with hfails | ⟨node, hnode, hfails⟩ | ⟨_, _, hfails, _⟩ |
    ⟨_, _, _, hfails⟩
  · obtain ⟨entry, hentry⟩ := hg.exists_entryNumber
    cases hentry.symm.trans hfails
  · exact hg.lower_ne_missingKey (mem_contentNodes_iff.mp hnode).1 key hfails
  · cases hfails
  · cases hfails

/-- After a change the issues are found, and only the announcement of them can fail. -/
theorem graphChanged_outcome {σ : Type} [Part Journal σ] {issues : List Issue}
    (h : g.validate = .ok issues) (publish : Publisher σ) (given : Value) (s : σ) :
    ∃ event t, (Importer.graphChanged publish g given s).1 =
      (publish event t).1.map fun _ ↦ issues := by
  let name := Importer.reportName given g.name
  refine ⟨Importer.issuesEvent .graphValidated name issues,
    (Part.update Journal (fun j ↦ { j with log := j.log ++ issues.map (Importer.issueEntry name) })
      s).2, ?_⟩
  rw [Importer.graphChanged, h]
  exact congrArg Prod.fst (Act.bind_pure_apply (publish _) (fun _ ↦ issues) _)

/-- Everything that goes along the edges of a graph finds a node at their ends. -/
structure FindsPeers (g : Graph) : Prop where
  inputs : ∀ node, ∃ peers, g.inputs node = .ok peers ∧ peers ⊆ g.nodes ∧
    peers.map Node.id = g.sourcesOf node
  outputs : ∀ node, ∃ peers, g.outputs node = .ok peers ∧ peers ⊆ g.nodes ∧
    peers.map Node.id = g.targetsOf node
  issues : ∃ issues, g.validate = .ok issues ∧
    ∀ {σ : Type} [Part Journal σ] (publish : Publisher σ) (given : Value) (s : σ), ∃ event t,
      (Importer.graphChanged publish g given s).1 = (publish event t).1.map fun _ ↦ issues
  entry : ∃ number, g.entryNumber = .ok number
  target : ∀ node, ∃ out number, g.firstOutput node = .ok out ∧ g.targetNumber out = .ok number
  compile : ∀ key, g.compile.result ≠ .error (.missingKey key)

theorem IsTethered.findsPeers (hg : g.IsTethered) : g.FindsPeers := by
  obtain ⟨issues, hissues⟩ := hg.exists_issues
  exact ⟨hg.exists_inputs, hg.exists_outputs, ⟨issues, hissues, graphChanged_outcome hissues⟩,
    hg.exists_entryNumber, hg.exists_target, hg.compile_ne_missingKey⟩

/-- An id that belongs to no member stands at no edge. -/
theorem IsTethered.ne_of_find?_eq_none (hg : g.IsTethered) (h : g.find? id = none) :
    ∀ edge ∈ g.edges, edge.source ≠ id ∧ edge.target ≠ id := by
  have hnone : id ∉ g.nodes.map Node.id := by
    rw [← hg.isSome_find?_iff, h]
    exact Bool.false_ne_true
  rintro edge hedge
  obtain ⟨hsource, htarget⟩ := hg.ends edge hedge
  exact ⟨fun h ↦ hnone (h ▸ hsource), fun h ↦ hnone (h ▸ htarget)⟩

/-- A node that is added starts without any edge. -/
structure StartsFree (g : Graph) (node : Node) : Prop where
  isMember : g.find? node.id = some node
  edges : ∀ edge ∈ g.edges, edge.source ≠ node.id ∧ edge.target ≠ node.id
  inputs : g.inputs node = .ok []
  outputs : g.outputs node = .ok []

theorem IsTethered.startsFree (hg : g.IsTethered) (hkey : node.key = node.id)
    (htext : node.id.IsText) (h : g.add node = .ok g') : g'.StartsFree node := by
  have hg' := hg.add hkey htext h
  obtain ⟨-, hnew, rfl⟩ := eq_of_add_eq_ok h
  have hnone : g.find? node.id = none := by
    refine List.find?_eq_none.mpr fun member hmember ↦ ?_
    rw [hnew member hmember]
    exact Bool.false_ne_true
  have hfree := hg.ne_of_find?_eq_none hnone
  have hpeers {peers : List Node} {ids : List Label} (hids : ids = [])
      (hmap : peers.map Node.id = ids) : peers = [] := by
    rw [hids] at hmap
    exact List.map_eq_nil_iff.mp hmap
  obtain ⟨incoming, hincoming, -, hsources⟩ := hg'.exists_inputs node
  obtain ⟨outgoing, houtgoing, -, htargets⟩ := hg'.exists_outputs node
  refine ⟨hg'.find?_eq_some_iff.mpr ⟨by simp, rfl⟩, hfree, ?_, ?_⟩
  · rw [hincoming, hpeers ?_ hsources]
    simp only [sourcesOf, ite_eq_right_iff, List.map_eq_nil_iff, List.filter_eq_nil_iff,
      decide_eq_true_eq]
    exact fun _ edge hedge ↦ (hfree edge hedge).2
  · rw [houtgoing, hpeers ?_ htargets]
    simp only [targetsOf, ite_eq_right_iff, List.map_eq_nil_iff, List.filter_eq_nil_iff,
      decide_eq_true_eq]
    exact fun _ edge hedge ↦ (hfree edge hedge).1

/-- Whatever nodes with ids of text a graph is revised by, both ends of every edge are members, each
held under its own id, and all that goes along edges finds them.  A node that is refused changes
nothing, nor do two nodes that are refused as the ends of an edge; a node whose id was free, be it
that of a node removed before, starts without any edge. -/
theorem edges_never_dangle {name : Value} {revisions : List Revision}
    (htext : ∀ revision ∈ revisions, revision.HasTextIds) :
    let g := revised name revisions
    g.IsTethered ∧ g.FindsPeers ∧
      (∀ id node, g.find? id = some node ↔ node ∈ g.nodes ∧ node.id = id) ∧
      (∀ node, (Revision.stroke (.add node)).HasTextIds →
        revised name (revisions ++ [.stroke (.add node)]) =
          if (g.find? node.id).isSome then g else { g with nodes := g.nodes ++ [node] }) ∧
      (∀ source target, (Revision.stroke (.connect source target)).HasTextIds →
        revised name (revisions ++ [.stroke (.connect source target)]) =
          if source.hasPoint .output ∧ target.hasPoint .input ∧ (g.find? source.id).isSome ∧
              (g.find? target.id).isSome then
            { g with edges := g.edges ++ [⟨source.id, target.id⟩] }
          else g) ∧
      (∀ node, (Revision.stroke (.remove node)).HasTextIds →
        (revised name (revisions ++ [.stroke (.remove node)])).find? node.id = none) ∧
      ∀ node g', (Revision.stroke (.add node)).HasTextIds → g.add node = .ok g' →
        g'.StartsFree node := by
  intro g
  have hg : g.IsTethered := isTethered_revised htext
  refine ⟨hg, hg.findsPeers, fun _ _ ↦ hg.find?_eq_some_iff, ?_, ?_, ?_, ?_⟩
  · intro node hnode
    rw [revised_append]
    exact revise_add (hnode node List.mem_cons_self).2
  · intro source target hnodes
    rw [revised_append]
    exact revise_connect (hnodes source (by simp [Stroke.nodes])).2
      (hnodes target (by simp [Stroke.nodes])).2
  · intro node hnode
    have hid := (hnode node List.mem_cons_self).2
    obtain ⟨g', hremove⟩ := exists_remove_eq_ok (g := g) hid
    have hrevise : g.revise (.stroke (.remove node)) = .ok g' := hremove
    rw [revised_append, hrevise]
    exact hg.find?_remove hid hremove
  · intro node g' hnode h
    obtain ⟨hkey, hid⟩ := hnode node List.mem_cons_self
    exact hg.startsFree hkey hid h

/-- After a graph with an entry and an exit is read, the entry is connected to a line by another
node of the line's id, is removed with the edges at it, and makes room for an exit of its id.  A
second line of the same id is refused, and so is an edge to a node of no member's id. -/
def restrung : List Revision :=
  [.read (.object [("nodes", .list [.object [("id", .text "e"), ("kind", .text "entry")],
      .object [("id", .text "x"), ("kind", .text "exit")]]),
      ("edges", .list [.object [("source", .text "e"), ("target", .text "x")]])]),
    .stroke (.add (plainNode "l" (.line {}))), .stroke (.add (plainNode "l" .entry)),
    .stroke (.connect (plainNode "e" .entry) (plainNode "l" (.exit (.list [])))),
    .stroke (.connect (plainNode "l" (.line {})) (plainNode "ghost" (.line {}))),
    .stroke (.remove (plainNode "e" .entry)), .stroke (.add (plainNode "e" (.exit (.list [])))),
    .stroke (.connect (plainNode "l" (.line {})) (plainNode "e" (.exit (.list []))))]

theorem edges_never_dangle_of_restrung :
    (∀ revision ∈ restrung, revision.HasTextIds) ∧
      (revised (.text "g") restrung).nodes.map Node.id =
        [.plain (.text "x"), .plain (.text "l"), .plain (.text "e")] ∧
      (revised (.text "g") restrung).edges = [⟨.plain (.text "l"), .plain (.text "e")⟩] ∧
      (revised (.text "g") restrung).IsTethered ∧ (revised (.text "g") restrung).FindsPeers := by
  have htext : ∀ revision ∈ restrung, revision.HasTextIds := by
    have hplain (id : String) (body : NodeBody) :
        (plainNode id body).key = (plainNode id body).id ∧ (plainNode id body).id.IsText :=
      ⟨rfl, id, rfl⟩
    simp only [restrung, List.forall_mem_cons, Revision.HasTextIds, Stroke.nodes, hplain, and_true]
    refine ⟨fun g hread ↦ ?_, by simp⟩
    cases hread
    simp [HasTextIds, Label.IsText, Value.lookup]
  obtain ⟨htethered, hpeers, -⟩ := @edges_never_dangle (.text "g") restrung htext
  exact ⟨htext, by decide +kernel, by decide +kernel, htethered, hpeers⟩

end LinearDialogue.Graph
