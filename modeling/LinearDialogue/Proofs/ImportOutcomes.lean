import LinearDialogue.Booth
import LinearDialogue.Proofs.LineLoops

/-!
# How imports end

An import refuses a graph that has issues, and then one whose lines go round in a loop.  Apart from
that it compiles every graph that has been read from a document, if a record can be made of each of
its lines.  Where a variable is named by what cannot be looked up, or a callback is no text, it
fails with whatever has failed, which is no failure of dialogues.
-/

namespace LinearDialogue

namespace Graph

variable {g : Graph} {node : Node} {out : Option Node} {records : List Record} {failure : Failure}

/-- A record can be made of every line, and there is an id for it in the place of the line. -/
def IsSpeakable (g : Graph) : Prop :=
  ∀ (n : ℕ) (node : Node) (draft : LineDraft), g.nodes[n]? = some node → node.body = .line draft →
    draft.IsSpeakable ∧ (n : Int) ≤ maxId

namespace IsKeyed

/-! ## Records of lines -/

theorem exists_targetNumber_le (hg : g.IsKeyed) (hspeakable : g.IsSpeakable)
    (hout : g.IsOutput out) : ∃ id, g.targetNumber out = .ok id ∧ noId ≤ id ∧ id ≤ maxId := by
  rcases hg.exists_targetNumber hout with hnone | ⟨next, hnext, rfl, n, hplace, hnumber⟩
  · exact ⟨noId, hnone, by decide, by decide⟩
  · obtain ⟨draft, _, hbody, -⟩ := hg.exists_line hnext
    have hlow : noId ≤ 0 := by decide
    exact ⟨n, hnumber, by omega, (hspeakable n next draft hplace hbody).2⟩

theorem exists_lower (hg : g.IsKeyed) (hspeakable : g.IsSpeakable) (hnode : node ∈ g.contentNodes) :
    ∃ record, (g.lower node).result = .ok record := by
  obtain ⟨draft, _, hbody, -⟩ := hg.exists_line hnode
  obtain ⟨n, hplace, hnumber⟩ := hg.exists_numberOf (mem_contentNodes_iff.mp hnode).1
  obtain ⟨hdraft, hhigh⟩ := hspeakable n node draft hplace hbody
  obtain ⟨out, hout⟩ := hg.exists_firstOutput node
  obtain ⟨successor, hsuccessor, hbounds⟩ := hg.exists_targetNumber_le hspeakable (hg.isOutput hout)
  obtain ⟨record, hrecord⟩ := exists_lowerLine (g := g) hdraft ⟨Int.natCast_nonneg n, hhigh⟩ hbounds
  refine ⟨record, Logged.result_bind_eq_ok_iff.mpr ⟨out, hout, ?_⟩⟩
  refine Logged.result_bind_eq_ok_iff.mpr ⟨successor, hsuccessor, ?_⟩
  refine Logged.result_bind_eq_ok_iff.mpr ⟨n, hnumber, ?_⟩
  rw [hbody]
  exact hrecord

/-- A line is refused for what its fields are, which is no failure of dialogues. -/
theorem isDialogueFailure_of_lower_eq_error (hg : g.IsKeyed) (hnode : node ∈ g.contentNodes)
    (h : (g.lower node).result = .error failure) : failure.isDialogueFailure = false := by
  obtain ⟨draft, _, hbody, -⟩ := hg.exists_line hnode
  obtain ⟨n, _, hnumber⟩ := hg.exists_numberOf (mem_contentNodes_iff.mp hnode).1
  obtain ⟨out, hout⟩ := hg.exists_firstOutput node
  rcases Logged.result_bind_eq_error_iff.mp h with h | ⟨out', hout', h⟩
  · cases hout.symm.trans h
  obtain rfl := Except.ok.inj (hout.symm.trans hout')
  rcases Logged.result_bind_eq_error_iff.mp h with h | ⟨_, _, h⟩
  · rcases hg.exists_targetNumber (hg.isOutput hout) with hnone | ⟨_, _, _, m, _, hm⟩
    · cases hnone.symm.trans h
    · cases hm.symm.trans h
  rcases Logged.result_bind_eq_error_iff.mp h with h | ⟨_, _, h⟩
  · cases hnumber.symm.trans h
  rw [hbody] at h
  rcases of_lowerLine_eq_error h with rfl | ⟨_, _, rfl, -⟩ <;> rfl

theorem isSpeakable_of_lowerAll_eq_ok (hg : g.IsKeyed)
    (h : (g.lowerAll g.contentNodes).result = .ok records) : g.IsSpeakable := by
  intro n node draft hplace hbody
  have hkind : node.kind = .line := by simp [Node.kind, hbody]
  have hnode := mem_contentNodes_of_kind (List.mem_of_getElem? hplace) hkind
  obtain ⟨record, -, hlower⟩ := exists_mem_of_forall₂ (forall₂_of_lowerAll_eq_ok h) hnode
  obtain ⟨hsound, _, hid, _⟩ := of_lower_eq_ok hlower
  have hrecord : record.id = n := Except.ok.inj (hid.symm.trans (hg.numberOf_eq_ok hplace))
  obtain ⟨_, _, hlower⟩ := Logged.result_bind_eq_ok_iff.mp hlower
  obtain ⟨_, _, hlower⟩ := Logged.result_bind_eq_ok_iff.mp hlower
  obtain ⟨_, _, hlower⟩ := Logged.result_bind_eq_ok_iff.mp hlower
  rw [hbody] at hlower
  exact ⟨isSpeakable_of_lowerLine_eq_ok hlower, hrecord ▸ hsound.id.2⟩

/-! ## Compilation -/

theorem exists_entryNumber (hg : g.IsKeyed) :
    ∃ id, g.entryNumber = .ok id ∧ (g.IsSpeakable → noId ≤ id ∧ id ≤ maxId) := by
  cases hentries : g.nodesOfKind .entry with
  | nil =>
      refine ⟨noId, bind_eq_ok_iff.mpr ⟨_, hg.numbering_eq_ok, ?_⟩, fun _ ↦ by decide⟩
      rw [hentries]
      rfl
  | cons entry others =>
      obtain ⟨out, hout⟩ := hg.exists_firstOutput entry
      have hid : ∃ id, g.targetNumber out = .ok id := by
        rcases hg.exists_targetNumber (hg.isOutput hout) with hnone | ⟨_, _, _, n, _, hn⟩
        · exact ⟨noId, hnone⟩
        · exact ⟨n, hn⟩
      obtain ⟨id, hid⟩ := hid
      refine ⟨id, bind_eq_ok_iff.mpr ⟨_, hg.numbering_eq_ok, ?_⟩, fun hspeakable ↦ ?_⟩
      · rw [hentries]
        exact bind_eq_ok_iff.mpr ⟨out, hout, hid⟩
      · obtain ⟨id', hid', hbounds⟩ := hg.exists_targetNumber_le hspeakable (hg.isOutput hout)
        obtain rfl := Except.ok.inj (hid.symm.trans hid')
        exact hbounds

theorem compile_of_isSpeakable (hg : g.IsKeyed) (hrules : g.KeepsRules)
    (hspeakable : g.IsSpeakable) :
    (g.HasLineLoop → ∃ ids, g.compile.result = .error (.cycle g.name ids)) ∧
      (¬g.HasLineLoop → g.Compiles) := by
  obtain ⟨id, hentry, hbounds⟩ := hg.exists_entryNumber
  obtain ⟨records, hrecords⟩ := exists_lowerAll fun node hnode ↦ hg.exists_lower hspeakable hnode
  have hloop := hg.findCycle_ne_nil_iff hrules (hg.forall₂_lowers hrecords)
  refine ⟨fun hround ↦ ⟨_, compile_of_findCycle_ne_nil hentry hrecords (hloop.mpr hround)⟩, ?_⟩
  intro hround
  exact compiles_of_findCycle_eq_nil hentry (hbounds hspeakable) hrecords
    (not_not.mp (mt hloop.mp hround))

theorem compile_of_not_isSpeakable (hg : g.IsKeyed) (hspeakable : ¬g.IsSpeakable) :
    ∃ failure, g.compile.result = .error failure ∧ failure.isDialogueFailure = false := by
  obtain ⟨id, hentry, -⟩ := hg.exists_entryNumber
  cases hrecords : (g.lowerAll g.contentNodes).result with
  | ok records => exact absurd (hg.isSpeakable_of_lowerAll_eq_ok hrecords) hspeakable
  | error failure =>
      refine ⟨failure, ?_, ?_⟩
      · refine Logged.result_bind_eq_error_iff.mpr (.inr ⟨id, hentry, ?_⟩)
        exact Logged.result_bind_eq_error_iff.mpr (.inl hrecords)
      · obtain ⟨node, hnode, hlower⟩ := exists_of_lowerAll_eq_error hrecords
        exact hg.isDialogueFailure_of_lower_eq_error hnode hlower

end IsKeyed

end Graph

/-! ## Imports -/

/-- What never fails returns. -/
theorem Act.Ends.exists_returned {σ α : Type} {m : Act σ α} (h : m.Ends fun _ ↦ False) (s : σ) :
    ∃ a t, m s = (.returned a, t) := by
  rcases h s with ⟨a, ha⟩ | ⟨_, _, hfalse⟩
  · exact ⟨a, (m s).2, Prod.ext ha rfl⟩
  · exact hfalse.elim

namespace Importer

variable {σ : Type} [Part Journal σ] {publish : Publisher σ} {graph : Graph} {issues : List Issue}

/-- Whatever is published is taken without failing. -/
def Takes (publish : Publisher σ) : Prop := ∀ event, (publish event).Ends fun _ ↦ False

theorem exists_graphChanged (hpublish : Takes publish) (hvalid : graph.validate = .ok issues)
    (given : Value) (s : σ) : ∃ t, graphChanged publish graph given s = (.returned issues, t) := by
  obtain ⟨_, t, htaken⟩ :=
    (hpublish (issuesEvent .graphValidated (reportName given graph.name) issues)).exists_returned _
  refine ⟨t, ?_⟩
  rw [graphChanged, hvalid]
  exact Act.bind_of_returned htaken _

theorem importGraph_of_issues (hpublish : Takes publish) (hvalid : graph.validate = .ok issues)
    (hissues : issues ≠ []) (given : Value) (s : σ) :
    (importGraph publish graph given s).1 =
      .failed (.validation (reportName given graph.name) issues) := by
  obtain ⟨t, hchanged⟩ := exists_graphChanged hpublish hvalid (reportName given graph.name) s
  obtain ⟨_, u, htaken⟩ :=
    (hpublish (issuesEvent .importFailed (reportName given graph.name) issues)).exists_returned t
  rw [importGraph, Act.bind_of_returned hchanged, if_neg (by simpa using hissues),
    Act.bind_of_returned htaken]
  rfl

theorem exists_logged {α : Type} (m : Logged α) (s : σ) :
    ∃ t, (Journal.logged m : Act σ α) s = Act.ofExcept m.result t := ⟨_, rfl⟩

theorem importGraph_of_compile_eq_error (hpublish : Takes publish)
    (hvalid : graph.validate = .ok []) {failure : Failure}
    (hcompile : graph.compile.result = .error failure) (given : Value) (s : σ) :
    (importGraph publish graph given s).1 = .failed failure := by
  obtain ⟨t, hchanged⟩ := exists_graphChanged hpublish hvalid (reportName given graph.name) s
  obtain ⟨u, hlogged⟩ := exists_logged graph.compile t
  rw [hcompile] at hlogged
  rw [importGraph, Act.bind_of_returned hchanged, if_pos List.isEmpty_nil,
    Act.bind_of_failed hlogged]

theorem importGraph_of_compile_eq_ok (hpublish : Takes publish) (hvalid : graph.validate = .ok [])
    {compiled : CompiledGraph} (hcompile : graph.compile.result = .ok compiled) (given : Value)
    (s : σ) : (importGraph publish graph given s).1 = .returned compiled := by
  obtain ⟨t, hchanged⟩ := exists_graphChanged hpublish hvalid (reportName given graph.name) s
  obtain ⟨u, hlogged⟩ := exists_logged graph.compile t
  rw [hcompile] at hlogged
  obtain ⟨_, v, htaken⟩ := (hpublish { type := .graphImported, data :=
    [("name", .value (reportName given graph.name)),
      ("graph", .graph compiled)] }).exists_returned u
  rw [importGraph, Act.bind_of_returned hchanged, if_pos List.isEmpty_nil,
    Act.bind_of_returned hlogged, Act.bind_of_returned htaken]
  rfl

/-- The import of a graph that has been read from a document ends in one of four ways.  It reports
the issues of the graph if it has any.  Otherwise, if a record can be made of every line, it reports
a loop of lines if there is one, and returns the compiled graph if there is none.  And if no record
can be made of some line, it fails with a failure that is none of dialogues. -/
theorem importGraph_outcomes {document : Value} (hpublish : Takes publish)
    (hread : Graph.ofDocument document = .ok graph) (given : Value) (s : σ) :
    ∃ issues, graph.validate = .ok issues ∧
      (issues ≠ [] → (importGraph publish graph given s).1 =
        .failed (.validation (reportName given graph.name) issues)) ∧
      (issues = [] → graph.IsSpeakable → graph.HasLineLoop →
        ∃ ids, (importGraph publish graph given s).1 = .failed (.cycle graph.name ids)) ∧
      (issues = [] → graph.IsSpeakable → ¬graph.HasLineLoop →
        ∃ compiled, (importGraph publish graph given s).1 = .returned compiled) ∧
      (issues = [] → ¬graph.IsSpeakable →
        ∃ failure, (importGraph publish graph given s).1 = .failed failure ∧
          failure.isDialogueFailure = false) := by
  have hg := Graph.isKeyed_of_ofDocument_eq_ok hread
  obtain ⟨issues, hvalid⟩ := hg.exists_issues
  refine ⟨issues, hvalid, fun hissues ↦ importGraph_of_issues hpublish hvalid hissues given s,
    ?_, ?_, ?_⟩
  · rintro rfl hspeakable hloop
    have hrules := Graph.keepsRules_of_validate_eq_ok_nil hvalid
    obtain ⟨ids, hcompile⟩ := (hg.compile_of_isSpeakable hrules hspeakable).1 hloop
    exact ⟨ids, importGraph_of_compile_eq_error hpublish hvalid hcompile given s⟩
  · rintro rfl hspeakable hloop
    have hrules := Graph.keepsRules_of_validate_eq_ok_nil hvalid
    obtain ⟨compiled, hcompile⟩ := (hg.compile_of_isSpeakable hrules hspeakable).2 hloop
    exact ⟨compiled, importGraph_of_compile_eq_ok hpublish hvalid hcompile given s⟩
  · rintro rfl hspeakable
    obtain ⟨failure, hcompile, hforeign⟩ := hg.compile_of_not_isSpeakable hspeakable
    exact ⟨failure, importGraph_of_compile_eq_error hpublish hvalid hcompile given s, hforeign⟩

theorem takes_observed : Takes (Publisher.observed : Publisher σ) := fun _ _ ↦ .inl ⟨_, rfl⟩

theorem isSpeakable_round : Graph.round.IsSpeakable := by
  intro n node draft hplace hbody
  obtain ⟨hn, rfl⟩ := List.getElem?_eq_some_iff.mp hplace
  have hfew : n < 5 := hn
  have hdraft : draft = {} := by
    rcases n with _ | _ | _ | _ | _ | n
    · cases hbody
    · cases hbody; rfl
    · cases hbody; rfl
    · cases hbody; rfl
    · cases hbody
    · omega
  rw [hdraft]
  exact ⟨⟨trivial, trivial, trivial, [], rfl⟩, by rw [maxId]; omega⟩

theorem hasLineLoop_round : Graph.round.HasLineLoop := by
  let ask : Node := { id := .plain (.text "ask"), body := .line {} }
  let answer : Node := { id := .plain (.text "answer"), body := .line {} }
  have hask : Graph.round.LineLeads ask answer :=
    ⟨rfl, rfl, [answer], rfl, List.mem_singleton_self _⟩
  have hanswer : Graph.round.LineLeads answer ask :=
    ⟨rfl, rfl, [ask], rfl, List.mem_singleton_self _⟩
  exact ⟨ask, by simp [Graph.round, ask], .tail (.single hask) hanswer⟩

/-- The import of the gate beside which two guards answer each other reports their loop. -/
theorem importGraph_outcomes_of_round :
    Takes (Publisher.observed : Publisher Booth) ∧
      Graph.ofDocument Graph.roundDocument = .ok Graph.round ∧
      Graph.round.IsSpeakable ∧ Graph.round.HasLineLoop ∧
      ∃ ids, (importGraph Publisher.observed Graph.round .null ({} : Booth)).1 =
        .failed (.cycle (.text "Round") ids) := by
  have hread : Graph.ofDocument Graph.roundDocument = .ok Graph.round := rfl
  obtain ⟨issues, hvalid, -, hcycle, -, -⟩ :=
    importGraph_outcomes takes_observed hread .null ({} : Booth)
  have hclean : issues = [] := (Except.ok.inj (hvalid.symm.trans rfl))
  exact ⟨takes_observed, hread, isSpeakable_round, hasLineLoop_round,
    hcycle hclean isSpeakable_round hasLineLoop_round⟩

/-- The document of a line between an entry and an exit, with some fields. -/
def lineDocument (fields : List (String × Value)) : Value :=
  .object [("name", .text "Line"),
    ("nodes", .list [
      .object [("id", .text "in"), ("kind", .text "entry")],
      .object ([("id", .text "say"), ("kind", .text "line")] ++ fields),
      .object [("id", .text "out"), ("kind", .text "exit")]]),
    ("edges", .list [
      .object [("source", .text "in"), ("target", .text "say")],
      .object [("source", .text "say"), ("target", .text "out")]])]

/-- The document of a line whose speaker is a variable with a list for its name, and that of a line
with a number for a callback, are read and have no issues, and their import fails with failures that
are none of dialogues. -/
theorem exists_import_fails_otherwise :
    (∃ graph, Graph.ofDocument
        (lineDocument [("actor", .object [("variable", .list [.text "a"])])]) = .ok graph ∧
      graph.validate = .ok [] ∧
      (importGraph Publisher.observed graph .null ({} : Booth)).1 = .failed .wrongType ∧
      Failure.isDialogueFailure .wrongType = false) ∧
    ∃ graph className problems, Graph.ofDocument (lineDocument [("callbacks", .list [.int 1])]) =
        .ok graph ∧ graph.validate = .ok [] ∧
      (importGraph Publisher.observed graph .null ({} : Booth)).1 =
        .failed (.badFields className problems) ∧
      Failure.isDialogueFailure (.badFields className problems) = false :=
  ⟨⟨_, rfl, rfl, rfl, rfl⟩, _, _, _, rfl, rfl, rfl, rfl⟩

end Importer

end LinearDialogue
