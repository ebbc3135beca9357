import LinearDialogue.Proofs.Compilability
import LinearDialogue.Proofs.Rereading
import Mathlib.Data.List.Perm.Basic

/-!
# The order of editing

The nodes, edges and variables of a graph stand in the order in which a writer has made them.  The
numbers of the nodes depend on it, and with them the ids and the order of the records.  For a graph
that validation finds no issue in, nothing else does.  In another order it is as valid, a loop is
reported or not as before, and playback speaks the same lines and comes to the same end.
-/

namespace LinearDialogue

/-- From a state on, the steps speak some lines in turn, under whatever ids, and every further step
is refused and terminates playback. -/
structure Recital.Speaks (t : Recital) (lines : List SpokenLine) : Prop where
  steps : ∀ (i : ℕ) (hi : i < lines.length),
    (operate .advance (t.after i)).1 = .returned (.bool true) ∧
      ∃ id, (t.after (i + 1)).calls = (t.after i).calls ++ t.lineCalled id lines[i]
  ending : ∀ i, lines.length ≤ i →
    (operate .advance (t.after i)).1 = .returned (.bool false) ∧
      (t.after (i + 1)).calls = (t.after i).calls ++ t.endCalled ∧
      (t.after (i + 1)).playback.isTerminated = true

namespace Graph

/-- The second graph has the nodes, edges and variables of the first one in any order. -/
structure Reorders (g g' : Graph) : Prop where
  nodes : g'.nodes.Perm g.nodes
  edges : g'.edges.Perm g.edges
  defaults : g'.defaults.Perm g.defaults

variable {g g' : Graph} {node entry : Node} {nodes incoming outgoing : List Node}
  {out : Option Node} {draft : LineDraft} {line : SpokenLine} {lines : List SpokenLine}
  {compiled : CompiledGraph} {s : Recital}

/-! ## Lists in another order -/

/-- What is found by a key of its own is found in any order. -/
theorem find?_eq_of_perm {α β : Type} {f : α → β} {p : α → Bool} {xs ys : List α} {b : β}
    (hnodup : (xs.map f).Nodup) (hperm : ys.Perm xs) (hp : ∀ a ∈ xs, p a = true ↔ f a = b) :
    ys.find? p = xs.find? p := by
  by_cases hfound : ∃ a ∈ xs, f a = b
  · obtain ⟨a, ha, rfl⟩ := hfound
    rw [find?_eq_some_of_nodup hnodup ha hp,
      find?_eq_some_of_nodup ((hperm.map f).nodup_iff.mpr hnodup) (hperm.mem_iff.mpr ha)
        fun b hb ↦ hp b (hperm.mem_iff.mp hb)]
  · have hnone : ∀ a ∈ xs, ¬ p a = true := fun a ha h ↦ hfound ⟨a, ha, (hp a ha).mp h⟩
    rw [List.find?_eq_none.mpr hnone,
      List.find?_eq_none.mpr fun a ha ↦ hnone a (hperm.mem_iff.mp ha)]

/-- Where there is one result at most, the order makes no difference to it. -/
theorem mapM_eq_ok_of_perm {α β : Type} {f : α → Except Failure β} {xs ys : List α} {bs : List β}
    (hperm : ys.Perm xs) (h : xs.mapM f = .ok bs) (hlength : bs.length ≤ 1) :
    ys.mapM f = .ok bs := by
  obtain ⟨others, hothers, hsame⟩ := List.perm_comp_forall₂ hperm (forall₂_of_mapM_eq_ok h)
  have heq : others = bs := by
    match bs, hlength with
    | [], _ => exact hsame.eq_nil
    | [b], _ => exact hsame.eq_singleton
  exact heq ▸ mapM_eq_ok_of_forall₂ hothers

/-! ## Graphs in another order -/

namespace Reorders

theorem symm (h : g.Reorders g') : g'.Reorders g := ⟨h.nodes.symm, h.edges.symm, h.defaults.symm⟩

theorem wellMade (h : g.Reorders g') (hg : g.WellMade) : g'.WellMade where
  asMade node hnode := hg.asMade node (h.nodes.mem_iff.mp hnode)
  nodup := (h.nodes.map Node.id).nodup_iff.mpr hg.nodup
  targets edge hedge htext := by
    obtain ⟨node, hnode, htarget⟩ := hg.targets edge (h.edges.mem_iff.mp hedge) htext
    exact ⟨node, h.nodes.mem_iff.mpr hnode, htarget⟩

theorem hasTextIds (h : g.Reorders g') (hids : g.HasTextIds) : g'.HasTextIds :=
  fun node hnode ↦ hids node (h.nodes.mem_iff.mp hnode)

theorem isTextual (h : g.Reorders g') (htextual : g.IsTextual) : g'.IsTextual :=
  fun node hnode ↦ htextual node (h.nodes.mem_iff.mp hnode)

theorem fits (h : g.Reorders g') (hfits : g.Fits) : g'.Fits := by
  rwa [Fits, h.nodes.length_eq]

theorem member_eq (h : g.Reorders g') (hg : g.WellMade) (hids : g.HasTextIds) (id : Label) :
    g'.member id = g.member id := by
  have hfind : g'.find? id = g.find? id :=
    find?_eq_of_perm hg.nodup h.nodes fun node hnode ↦ by
      rw [hg.key_eq hnode, (hids node hnode).matchesKey_iff']
  rw [member, member, hfind]

/-- The members at the edges of a point, where there is one at most. -/
theorem mapM_member_eq (h : g.Reorders g') (hg : g.WellMade) (hids : g.HasTextIds)
    {isAt : Edge → Bool} {other : Edge → Label}
    (hnodes : ((g.edges.filter isAt).mapM fun e ↦ g.member (other e)) = .ok nodes)
    (hlength : nodes.length ≤ 1) :
    ((g'.edges.filter isAt).mapM fun e ↦ g'.member (other e)) = .ok nodes := by
  simp only [h.member_eq hg hids]
  exact mapM_eq_ok_of_perm (h.edges.filter isAt) hnodes hlength

theorem inputs_eq (h : g.Reorders g') (hg : g.WellMade) (hids : g.HasTextIds)
    (hincoming : g.inputs node = .ok incoming) (hlength : incoming.length ≤ 1) :
    g'.inputs node = .ok incoming := by
  by_cases hpoint : node.hasPoint .input = true
  · rw [inputs, if_pos hpoint] at hincoming ⊢
    exact h.mapM_member_eq hg hids hincoming hlength
  · rwa [inputs, if_neg hpoint] at hincoming ⊢

theorem outputs_eq (h : g.Reorders g') (hg : g.WellMade) (hids : g.HasTextIds)
    (houtgoing : g.outputs node = .ok outgoing) (hlength : outgoing.length ≤ 1) :
    g'.outputs node = .ok outgoing := by
  by_cases hpoint : node.hasPoint .output = true
  · rw [outputs, if_pos hpoint] at houtgoing ⊢
    exact h.mapM_member_eq hg hids houtgoing hlength
  · rwa [outputs, if_neg hpoint] at houtgoing ⊢

theorem keepsRules (h : g.Reorders g') (hg : g.WellMade) (hids : g.HasTextIds)
    (hrules : g.KeepsRules) : g'.KeepsRules where
  single node hnode := by
    obtain ⟨incoming, outgoing, hincoming, houtgoing, hin, hout⟩ :=
      hrules.single node (h.nodes.mem_iff.mp hnode)
    exact ⟨incoming, outgoing, h.inputs_eq hg hids hincoming hin,
      h.outputs_eq hg hids houtgoing hout, hin, hout⟩
  entry := (h.nodes.filter _).length_eq.trans hrules.entry
  exit := (h.nodes.filter _).length_eq.trans hrules.exit

theorem firstOutput_eq (h : g.Reorders g') (hg : g.WellMade) (hids : g.HasTextIds)
    (hrules : g.KeepsRules) (hnode : node ∈ g.nodes) :
    g'.firstOutput node = g.firstOutput node := by
  obtain ⟨_, outgoing, _, houtgoing, _, hlength⟩ := hrules.single node hnode
  rw [firstOutput, firstOutput, houtgoing, h.outputs_eq hg hids houtgoing hlength]

/-- A chain is one in any order. -/
theorem chain (h : g.Reorders g') (hg : g.WellMade) (hids : g.HasTextIds) (hrules : g.KeepsRules)
    (hchain : g.Chain out nodes) (hout : g.IsOutput out) : g'.Chain out nodes := by
  induction hchain with
  | unconnected => exact .unconnected
  | exit hkind => exact .exit hkind
  | step hkind hnext _ ih =>
      have hfirst := h.firstOutput_eq hg hids hrules (hout _ rfl).1
      exact .step hkind (hfirst.trans hnext) (ih (hg.isOutput hids hnext))

theorem exists_chain (h : g.Reorders g') (hg : g.WellMade) (hids : g.HasTextIds)
    (hrules : g.KeepsRules) (hchains : ∀ node ∈ g.contentNodes, ∃ nodes, g.Chain (some node) nodes)
    (hnode : node ∈ g'.contentNodes) : ∃ nodes, g'.Chain (some node) nodes := by
  have hmember : node ∈ g.contentNodes := (h.nodes.filter _).mem_iff.mp hnode
  obtain ⟨nodes, hchain⟩ := hchains node hmember
  exact ⟨nodes, h.chain hg hids hrules hchain (of_mem_contentNodes hmember).1⟩

theorem chains_iff (h : g.Reorders g') (hg : g.WellMade) (hids : g.HasTextIds)
    (hrules : g.KeepsRules) :
    (∀ node ∈ g'.contentNodes, ∃ nodes, g'.Chain (some node) nodes) ↔
      ∀ node ∈ g.contentNodes, ∃ nodes, g.Chain (some node) nodes := by
  have hrules' := h.keepsRules hg hids hrules
  exact ⟨fun hchains _ ↦ h.symm.exists_chain (h.wellMade hg) (h.hasTextIds hids) hrules' hchains,
    fun hchains _ ↦ h.exists_chain hg hids hrules hchains⟩

end Reorders

/-! ## Validation -/

theorem mapM_eq_ok_of_forall {α β : Type} {f : α → Except Failure β} {b : β} {xs : List α}
    (h : ∀ a ∈ xs, f a = .ok b) : xs.mapM f = .ok (xs.map fun _ ↦ b) := by
  refine mapM_eq_ok_of_forall₂ (List.forall₂_map_right_iff.mpr ?_)
  exact List.forall₂_same.mpr h

/-- Where the rules are kept, validation finds no issue. -/
theorem KeepsRules.validate_eq_ok_nil (hrules : g.KeepsRules) : g.validate = .ok [] := by
  have hpoints : ∀ node ∈ g.nodes, g.checkConnections node = .ok [] := by
    intro node hnode
    obtain ⟨incoming, outgoing, hincoming, houtgoing, hin, hout⟩ := hrules.single node hnode
    refine bind_eq_ok_iff.mpr ⟨incoming, hincoming, bind_eq_ok_iff.mpr ⟨outgoing, houtgoing, ?_⟩⟩
    rw [checkPointCount_eq_nil_iff.mpr hin, checkPointCount_eq_nil_iff.mpr hout]
    rfl
  refine bind_eq_ok_iff.mpr ⟨_, mapM_eq_ok_of_forall hpoints, ?_⟩
  rw [checkCardinality_eq_nil_iff.mpr hrules.entry, checkCardinality_eq_nil_iff.mpr hrules.exit,
    List.append_nil, List.append_nil, List.flatten_eq_nil_iff.mpr (by simp)]
  rfl

/-! ## Lines -/

/-- No variable has two default values. -/
theorem Authored.names (h : g.Authored) :
    g.defaults.Pairwise fun v w ↦ v.1.matchesKey w.1 = false := by
  have hset {g g' : Graph} {name default : Value}
      (hg : g.defaults.Pairwise fun v w ↦ v.1.matchesKey w.1 = false)
      (h : g.setVariable name default = .ok g') :
      g'.defaults.Pairwise fun v w ↦ v.1.matchesKey w.1 = false := by
    obtain ⟨-, rfl⟩ := eq_of_setVariable_eq_ok h
    exact Intact.pairwise_enter hg
  induction h with
  | blank name => exact .nil
  | document h =>
      refine ofDocument_keeps (fun g ↦ g.defaults.Pairwise fun v w ↦ v.1.matchesKey w.1 = false)
        (fun _ ↦ .nil) hset (fun hg _ _ hadd ↦ ?_) (fun hg _ _ hconnect ↦ ?_) h
      · obtain ⟨-, -, rfl⟩ := eq_of_add_eq_ok hadd
        exact hg
      · obtain ⟨-, -, rfl⟩ := eq_of_connect_eq_ok hconnect
        exact hg
  | add _ _ h ih =>
      obtain ⟨-, -, rfl⟩ := eq_of_add_eq_ok h
      exact ih
  | remove _ h ih =>
      obtain rfl := eq_of_remove_eq_ok h
      exact ih
  | connect _ _ _ h ih =>
      obtain ⟨-, -, rfl⟩ := eq_of_connect_eq_ok h
      exact ih
  | disconnect _ source target ih => exact ih
  | setVariable _ h ih => exact hset ih h

theorem Authored.nodup_names (h : g.Authored) : (g.defaults.map Prod.fst).Nodup := by
  refine List.pairwise_map.mpr (h.names.imp fun hother heq ↦ ?_)
  simp [heq, Value.matchesKey] at hother

theorem matchesKey_text_iff {v : Value} {name : String} :
    v.matchesKey (.text name) = true ↔ v = .text name := by
  cases v <;> simp [Value.matchesKey, Value.agrees, Value.rank?]

theorem Reorders.boundText?_eq (h : g.Reorders g') (hnames : (g.defaults.map Prod.fst).Nodup)
    {binding : Binding} (hbinding : binding.IsTextual) :
    g'.boundText? binding = g.boundText? binding := by
  cases binding with
  | unbound => rfl
  | literal value => rfl
  | «variable» name =>
      obtain ⟨s, rfl⟩ := hbinding
      rw [boundText?, boundText?, variableDefault?, variableDefault?,
        find?_eq_of_perm hnames h.defaults fun v _ ↦ matchesKey_text_iff]

theorem Reorders.renders (h : g.Reorders g') (hnames : (g.defaults.map Prod.fst).Nodup)
    (hdraft : draft.IsTextual) (hrenders : g.Renders draft line) : g'.Renders draft line where
  actor := by rw [h.boundText?_eq hnames hdraft.actor, hrenders.actor]
  audio := by rw [h.boundText?_eq hnames hdraft.audio, hrenders.audio]
  text := by rw [h.boundText?_eq hnames hdraft.text, hrenders.text]
  callbacks := hrenders.callbacks

theorem Renders.unique {other : SpokenLine} (h : g.Renders draft line)
    (h' : g.Renders draft other) : line = other := by
  have hnames : line.callbacks.map Value.text = other.callbacks.map .text := by
    have hlists := h.callbacks.symm.trans h'.callbacks
    simpa using hlists
  have hcallbacks := List.map_injective_iff.mpr (fun _ _ ↦ Value.text.inj) hnames
  have hactor := h.actor.trans h'.actor.symm
  have haudio := h.audio.trans h'.audio.symm
  have htext := h.text.trans h'.text.symm
  cases line
  cases other
  rw [SpokenLine.mk.injEq]
  exact ⟨hactor, haudio, htext, hcallbacks⟩

/-! ## Playback -/

/-- Some nodes are members, and make some lines. -/
def Tells (g : Graph) (nodes : List Node) (lines : List SpokenLine) : Prop :=
  List.Forall₂ (fun node line ↦ node ∈ g.nodes ∧
    ∃ draft, node.body = .line draft ∧ g.Renders draft line) nodes lines

theorem Reorders.tells (h : g.Reorders g') (hnames : (g.defaults.map Prod.fst).Nodup)
    (htextual : g.IsTextual) (htells : g.Tells nodes lines) : g'.Tells nodes lines := by
  refine htells.imp fun node line hmakes ↦ ?_
  obtain ⟨hnode, draft, hbody, hrenders⟩ := hmakes
  have hdraft := htextual node hnode
  rw [hbody] at hdraft
  exact ⟨h.nodes.mem_iff.mpr hnode, draft, hbody, h.renders hnames hdraft hrenders⟩

/-- Playback of nodes speaks the lines that they make. -/
theorem Tells.speaks {t : Recital} (htells : g.Tells nodes lines) (hplays : t.Plays g nodes) :
    t.Speaks lines := by
  have hlength := htells.length_eq
  refine ⟨fun i hi ↦ ?_, fun i hi ↦ hplays.ending i (hlength ▸ hi)⟩
  have hi' : i < nodes.length := hlength ▸ hi
  obtain ⟨n, draft, line, -, hbody, hrenders, hanswer, hcalls⟩ := hplays.lines i hi'
  obtain ⟨-, other, hother, hmakes⟩ := htells.get hi' hi
  obtain rfl : draft = other := by
    have hsame := hbody.symm.trans hother
    simpa using hsame
  obtain rfl := hrenders.unique hmakes
  exact ⟨hanswer, n, hcalls⟩

/-- What a graph of one entry compiles to plays the nodes that the entry leads to. -/
theorem exists_plays (hg : g.WellMade) (hids : g.HasTextIds)
    (hentries : g.nodesOfKind .entry = [entry]) (hcompile : g.compile.result = .ok compiled)
    (hquiet : s.IsQuiet) :
    ∃ out nodes, g.firstOutput entry = .ok out ∧ g.Chain out nodes ∧
      (s.started compiled).Plays g nodes := by
  obtain ⟨hentry, -, -, hrecords, hcycle⟩ := of_compile_eq_ok hcompile
  have hlowers := forall₂_lowers hg hids hrecords
  have htable : Playback.tableOf compiled.records = compiled.records :=
    Playback.tableOf_eq_self (nodup_ids_of_forall₂ ((hg.nodup.of_map _).filter _) hlowers)
  have hbecame := Recital.started_became compiled s
  rw [htable] at hbecame
  obtain ⟨_, _, hentry⟩ := bind_eq_ok_iff.mp hentry
  rw [hentries] at hentry
  obtain ⟨out, hout, htarget⟩ := bind_eq_ok_iff.mp hentry
  have houtput := hg.isOutput hids hout
  obtain ⟨n, hend⟩ := SuccessorTable.ends_of_findCycle_eq_nil hcycle compiled.entry
  rw [SuccessorTable.ofRecords_eq, htable] at hend
  obtain ⟨nodes, hchain⟩ := exists_chain_of_after_eq_none hg hids hlowers houtput htarget hend
  refine ⟨out, nodes, hout, hchain, hchain.plays hg hids hlowers
    (hbecame.isQuiet hquiet hquiet.idle) (Recital.playable_started (fun record hrecord ↦ ?_) s)
    ?_ houtput ?_⟩
  · obtain ⟨_, _, hlower⟩ := exists_mem_of_forall₂ hlowers.flip hrecord
    obtain ⟨_, line, _, hline, _⟩ := hlower.line
    simp [Record.playableLine?, hlower.recordClass, RecordClass.dialogue, hline]
  · rw [hbecame.playback]
  · rw [hbecame.playback]
    exact htarget

/-- The order in which a graph has been put together makes no difference to what is played.  In any
other order a valid graph is valid; where compilation of both ends in a graph or in the report of a
loop, as it does unless there are more nodes than ids for records, a loop is reported in both or in
neither; and what they compile to speaks the same lines, under ids of its own. -/
theorem compile_ignores_order (hmade : g.Authored) (hids : g.HasTextIds) (htextual : g.IsTextual)
    (hvalid : g.validate = .ok []) (h : g.Reorders g') :
    g'.validate = .ok [] ∧
      (g.Fits → (g.Compiles ∨ g.ReportsLoop) ∧ (g'.Compiles ∨ g'.ReportsLoop)) ∧
      (g.Compiles ∨ g.ReportsLoop → g'.Compiles ∨ g'.ReportsLoop →
        (g'.ReportsLoop ↔ g.ReportsLoop)) ∧
      ∀ compiled compiled' : CompiledGraph, g.compile.result = .ok compiled →
        g'.compile.result = .ok compiled' → ∀ s : Recital, s.IsQuiet →
          ∃ lines, (s.started compiled).Speaks lines ∧ (s.started compiled').Speaks lines := by
  have hg := hmade.wellMade
  have hrules := keepsRules_of_validate_eq_ok_nil hvalid
  have hg' := h.wellMade hg
  have hids' := h.hasTextIds hids
  have hrules' := h.keepsRules hg hids hrules
  refine ⟨hrules'.validate_eq_ok_nil, fun hfits ↦ ⟨?_, ?_⟩, fun hends hends' ↦ ?_, ?_⟩
  · exact hrules.compiles_or_reportsLoop hg hids htextual hfits
  · exact hrules'.compiles_or_reportsLoop hg' hids' (h.isTextual htextual) (h.fits hfits)
  · rw [reportsLoop_iff hg hids hends, reportsLoop_iff hg' hids' hends',
      h.chains_iff hg hids hrules]
  · intro compiled compiled' hcompile hcompile' s hquiet
    obtain ⟨entry, hentries⟩ := hrules.exists_entry
    have hentries' : g'.nodesOfKind .entry = [entry] := by
      have hperm : (g'.nodesOfKind .entry).Perm (g.nodesOfKind .entry) := h.nodes.filter _
      rw [hentries] at hperm
      exact hperm.eq_singleton
    obtain ⟨out, nodes, hout, hchain, hplays⟩ := exists_plays hg hids hentries hcompile hquiet
    obtain ⟨out', nodes', hout', hchain', hplays'⟩ :=
      exists_plays hg' hids' hentries' hcompile' hquiet
    rw [h.firstOutput_eq hg hids hrules (mem_of_nodesOfKind_eq_cons hentries).1] at hout'
    obtain rfl := Except.ok.inj (hout.symm.trans hout')
    obtain rfl := hchain'.unique (h.chain hg hids hrules hchain (hg.isOutput hids hout))
    obtain ⟨lines, htells⟩ : ∃ lines, g.Tells nodes' lines := by
      refine exists_forall₂ fun node hnode ↦ ?_
      obtain ⟨i, hi, rfl⟩ := List.mem_iff_getElem.mp hnode
      obtain ⟨n, draft, line, hmember, hbody, hrenders, -⟩ := hplays.lines i hi
      exact ⟨line, List.mem_of_getElem? hmember, draft, hbody, hrenders⟩
    exact ⟨lines, htells.speaks hplays,
      (h.tells hmade.nodup_names htextual htells).speaks hplays'⟩

/-- The document of a guard and a guest, named by variables, who speak in turn. -/
def watchDocument : Value :=
  .object [("name", .text "Watch"),
    ("variables", .object [("guard", .text "Guard"), ("guest", .text "Guest")]),
    ("nodes", .list [
      .object [("id", .text "in"), ("kind", .text "entry")],
      .object [("id", .text "ask"), ("kind", .text "line"),
        ("actor", .object [("variable", .text "guard")]),
        ("text", .object [("value", .text "Who goes there?")])],
      .object [("id", .text "answer"), ("kind", .text "line"),
        ("actor", .object [("variable", .text "guest")]),
        ("text", .object [("value", .text "A friend.")]),
        ("callbacks", .list [.text "gate_opened"])],
      .object [("id", .text "out"), ("kind", .text "exit")]]),
    ("edges", .list [
      .object [("source", .text "in"), ("target", .text "ask")],
      .object [("source", .text "ask"), ("target", .text "answer")],
      .object [("source", .text "answer"), ("target", .text "out")]])]

/-- The graph of that document. -/
def watch : Graph where
  name := .text "Watch"
  nodes := [
    { id := .plain (.text "in"), body := .entry },
    { id := .plain (.text "ask")
      body := .line
        { actor := .variable (.text "guard"), text := .literal (.text "Who goes there?") } },
    { id := .plain (.text "answer")
      body := .line
        { actor := .variable (.text "guest")
          text := .literal (.text "A friend.")
          callbacks := .list [.text "gate_opened"] } },
    { id := .plain (.text "out"), body := .exit (.list []) }]
  edges := [⟨.plain (.text "in"), .plain (.text "ask")⟩,
    ⟨.plain (.text "ask"), .plain (.text "answer")⟩,
    ⟨.plain (.text "answer"), .plain (.text "out")⟩]
  defaults := [(.text "guard", .text "Guard"), (.text "guest", .text "Guest")]

/-- What it says. -/
def question : SpokenLine := ⟨"Guard", none, "Who goes there?", []⟩

def reply : SpokenLine := ⟨"Guest", none, "A friend.", ["gate_opened"]⟩

/-- The graph with everything in the opposite order. -/
def watchBackwards : Graph :=
  { watch with
    nodes := watch.nodes.reverse
    edges := watch.edges.reverse
    defaults := watch.defaults.reverse }

def compiledWatch : CompiledGraph :=
  ⟨1, [⟨.dialogue, 1, 2, "dialogue", some question⟩, ⟨.dialogue, 2, noId, "dialogue", some reply⟩]⟩

def compiledBackwards : CompiledGraph :=
  ⟨2, [⟨.dialogue, 1, noId, "dialogue", some reply⟩, ⟨.dialogue, 2, 1, "dialogue", some question⟩]⟩

theorem isTextual_watch : watch.IsTextual := by
  have hline (actor text : Binding) (names : List String) (hactor : actor.IsTextual)
      (htext : text.IsTextual) :
      NodeBody.IsTextual (.line ⟨actor, .unbound, text, .list (names.map .text)⟩) :=
    ⟨hactor, trivial, htext, names, rfl⟩
  intro node hnode
  simp only [watch, List.mem_cons, List.not_mem_nil, or_false] at hnode
  rcases hnode with rfl | rfl | rfl | rfl
  · trivial
  · exact hline _ _ [] ⟨_, rfl⟩ trivial
  · exact hline _ _ ["gate_opened"] ⟨_, rfl⟩ trivial
  · trivial

theorem compile_ignores_order_of_watch :
    ofDocument watchDocument = .ok watch ∧ watch.Reorders watchBackwards ∧
      watch.validate = .ok [] ∧ watchBackwards.validate = .ok [] ∧
      watch.compile.result = .ok compiledWatch ∧
      watchBackwards.compile.result = .ok compiledBackwards ∧
      let s : Recital := { onLine := some fun _ _ ↦ .done }
      (∃ lines, (s.started compiledWatch).Speaks lines ∧
        (s.started compiledBackwards).Speaks lines) ∧
      ((s.started compiledWatch).after 2).calls = [.line 1 question, .line 2 reply] ∧
      ((s.started compiledBackwards).after 2).calls = [.line 2 question, .line 1 reply] := by
  have hdocument : ofDocument watchDocument = .ok watch := rfl
  have hids : watch.HasTextIds := by simp [watch, HasTextIds, Label.IsText]
  have hvalid : watch.validate = .ok [] := rfl
  have hreorders : watch.Reorders watchBackwards :=
    ⟨List.reverse_perm _, List.reverse_perm _, List.reverse_perm _⟩
  have hcompile : watch.compile.result = .ok compiledWatch := rfl
  have hcompile' : watchBackwards.compile.result = .ok compiledBackwards := rfl
  have hquiet : ({ onLine := some fun _ _ ↦ .done } : Recital).IsQuiet :=
    ⟨rfl, by simp [Program.IsPassive.done], by simp⟩
  obtain ⟨hvalid', -, -, hspeaks⟩ :=
    compile_ignores_order (.document hdocument) hids isTextual_watch hvalid hreorders
  exact ⟨hdocument, hreorders, hvalid, hvalid', hcompile, hcompile',
    hspeaks _ _ hcompile hcompile' _ hquiet, by decide +kernel, by decide +kernel⟩

end Graph

end LinearDialogue
