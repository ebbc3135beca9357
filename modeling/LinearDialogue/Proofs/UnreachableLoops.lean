import LinearDialogue.Proofs.CompiledPlayback
import LinearDialogue.Proofs.Refusals
import LinearDialogue.Proofs.ValidGraphs

/-!
# Loops out of reach

A graph can be valid and still hold a loop of lines.  The compilation refuses it and names the ids
of the loop, but none of them is that of a node that the entry leads to.
-/

namespace LinearDialogue

namespace Graph

variable {g : Graph} {node next entry : Node} {records : List Record}

/-! ## The report of a loop -/

/-- The ids that a compilation reports as a loop are those that the search for loops finds. -/
theorem exists_records_of_compile_eq_cycle {name : Value} {ids : List Value}
    (h : g.compile.result = .error (.cycle name ids)) :
    ∃ records, (g.lowerAll g.contentNodes).result = .ok records ∧ findCycle records ≠ [] ∧
      ids = (findCycle records).map .int := by
  rcases of_compile_eq_error h with hrefusal | ⟨records, hrecords, hcycle, hfailure⟩
  · exact hrefusal.elim
  · cases hfailure
    exact ⟨records, hrecords, hcycle, rfl⟩

/-! ## The loop and the entry -/

/-- An id with a successor is the number of a line, and the successor that of its first output. -/
theorem exists_lowers_of_leads (hg : g.WellMade) (hids : g.HasTextIds)
    (hlowers : List.Forall₂ g.Lowers g.contentNodes records) {id successor : Int}
    (h : SuccessorTable.Leads (records.map Record.link) id successor) :
    ∃ node ∈ g.contentNodes, g.numberOf node.id = .ok id ∧
      ∃ out, g.firstOutput node = .ok out ∧ g.targetNumber out = .ok successor := by
  rw [SuccessorTable.Leads, SuccessorTable.next?_map_link] at h
  obtain ⟨record, hfind, rfl⟩ := Option.map_eq_some_iff.mp h
  obtain rfl : record.id = id := by simpa using List.find?_some hfind
  obtain ⟨node, hnode, hlower⟩ :=
    exists_mem_of_forall₂ hlowers.flip (List.mem_of_find?_eq_some hfind)
  obtain ⟨n, hn, hplace⟩ := hlower.place
  exact ⟨node, hnode, hplace ▸ hg.numberOf_eq_ok hids hn, hlower.follows⟩

/-- Where the rules are kept, a loop of the records holds no number of a node that the entry leads
to: a way into the loop would need a second edge at one of its nodes. -/
theorem KeepsRules.notMem_of_isLoop (hrules : g.KeepsRules) (hg : g.WellMade)
    (hids : g.HasTextIds) (hentry : entry ∈ g.nodes) (hkind : entry.kind = .entry)
    (hlowers : List.Forall₂ g.Lowers g.contentNodes records) {loop : List Int}
    (hloop : SuccessorTable.IsLoop (records.map Record.link) loop)
    (h : Relation.ReflTransGen g.Leads entry node) {number : Int}
    (hnumber : g.numberOf node.id = .ok number) : number ∉ loop := by
  intro hmem
  induction h generalizing number with
  | refl =>
      -- an id of the loop is the number of a line
      obtain ⟨i, hi, rfl⟩ := List.mem_iff_getElem.mp hmem
      obtain ⟨line, hline, hsame, _⟩ :=
        exists_lowers_of_leads hg hids hlowers (hloop.leads i hi)
      obtain ⟨hmember, hother, _⟩ := mem_contentNodes_iff.mp hline
      obtain rfl := hg.eq_of_numberOf hids hentry hmember hnumber hsame
      exact hother hkind
  | @tail before node hreach hstep ih =>
      obtain ⟨id, hid, hleads⟩ := hloop.exists_leads hmem
      obtain ⟨line, hline, hlineNumber, out, hout, htarget⟩ :=
        exists_lowers_of_leads hg hids hlowers hleads
      have hmember := (mem_contentNodes_iff.mp hline).1
      have hnode := (hstep.isTarget hg hids).1
      obtain ⟨n, _, _, hplace⟩ := hg.exists_numberOf hids hnode
      rcases eq_noId_or_of_targetNumber htarget with rfl | ⟨next, rfl, _, hnext⟩
      · have hbad : (n : Int) = noId := Except.ok.inj (hplace.symm.trans hnumber)
        simp only [noId] at hbad
        omega
      · have hleads := leads_of_firstOutput hout
        obtain rfl := hg.eq_of_numberOf hids hnode (hleads.isTarget hg hids).1 hnumber hnext
        obtain rfl := hrules.eq_of_leads hg hids hmember
          (mem_of_reflTransGen hg hids hentry hreach) hleads hstep
        exact ih hlineNumber hid

/-- Loops that can be reached do not pass validation.  A valid graph has one entry; the way along
the first edges from it meets no failure, passes no node twice and comes to an end, and no node that
the edges from the entry lead to can be reached from itself.  If such a graph compiles to a loop,
the loop holds no number of such a node. -/
theorem validate_excludes_loops (hmade : g.Authored) (hids : g.HasTextIds)
    (hvalid : g.validate = .ok []) :
    ∃ entry, g.nodesOfKind .entry = [entry] ∧
      (∀ n, ∃ out, g.nodeAfter n entry = .ok out) ∧
      (∀ m n node, g.nodeAfter m entry = .ok (some node) →
        g.nodeAfter n entry = .ok (some node) → m = n) ∧
      g.nodeAfter g.nodes.length entry = .ok none ∧
      (∀ node, Relation.ReflTransGen g.Leads entry node →
        ¬ Relation.TransGen g.Leads node node) ∧
      ∀ name ids, g.compile.result = .error (.cycle name ids) →
        ∀ node, Relation.ReflTransGen g.Leads entry node →
          ∃ number : Int, g.numberOf node.id = .ok number ∧ Value.int number ∉ ids := by
  have hg := hmade.wellMade
  have hrules := keepsRules_of_validate_eq_ok_nil hvalid
  obtain ⟨entry, hentries⟩ := hrules.exists_entry
  obtain ⟨hentry, hkind⟩ := mem_of_nodesOfKind_eq_cons hentries
  refine ⟨entry, hentries, hrules.exists_nodeAfter hg hids hentry, ?_,
    hrules.nodeAfter_length hg hids hentry hkind, ?_, ?_⟩
  · intro m n node hm hn
    exact hrules.nodeAfter_injective hg hids hentry hkind hm hn
  · intro node hreach
    exact hrules.not_transGen_self hg hids hentry hkind hreach
  · intro name ids hcycle node hreach
    obtain ⟨records, hrecords, hne, rfl⟩ := exists_records_of_compile_eq_cycle hcycle
    have hlowers := forall₂_lowers hg hids hrecords
    have hloop := SuccessorTable.isLoop_findCycle hne
    rw [ofRecords_eq_map_link hg hlowers] at hloop
    have hnode := mem_of_reflTransGen hg hids hentry hreach
    obtain ⟨n, _, _, hnumber⟩ := hg.exists_numberOf hids hnode
    have hnot := hrules.notMem_of_isLoop hg hids hentry hkind hlowers hloop hreach hnumber
    rw [findCycle, ofRecords_eq_map_link hg hlowers]
    exact ⟨n, hnumber, by simpa using hnot⟩

/-- The document of a gate beside which two guards answer each other for ever. -/
def roundDocument : Value :=
  .object [("name", .text "Round"),
    ("nodes", .list [
      .object [("id", .text "in"), ("kind", .text "entry")],
      .object [("id", .text "ask"), ("kind", .text "line")],
      .object [("id", .text "halt"), ("kind", .text "line")],
      .object [("id", .text "answer"), ("kind", .text "line")],
      .object [("id", .text "out"), ("kind", .text "exit")]]),
    ("edges", .list [
      .object [("source", .text "in"), ("target", .text "halt")],
      .object [("source", .text "halt"), ("target", .text "out")],
      .object [("source", .text "ask"), ("target", .text "answer")],
      .object [("source", .text "answer"), ("target", .text "ask")]])]

/-- The graph of that document. -/
def round : Graph where
  name := .text "Round"
  nodes := [
    { id := .plain (.text "in"), body := .entry },
    { id := .plain (.text "ask"), body := .line {} },
    { id := .plain (.text "halt"), body := .line {} },
    { id := .plain (.text "answer"), body := .line {} },
    { id := .plain (.text "out"), body := .exit (.list []) }]
  edges := [⟨.plain (.text "in"), .plain (.text "halt")⟩,
    ⟨.plain (.text "halt"), .plain (.text "out")⟩,
    ⟨.plain (.text "ask"), .plain (.text "answer")⟩,
    ⟨.plain (.text "answer"), .plain (.text "ask")⟩]

/-- The gate is valid, its loop is refused, and only the loop has the ids that are named. -/
theorem validate_excludes_loops_of_round :
    ofDocument roundDocument = .ok round ∧ round.validate = .ok [] ∧
      round.compile.result = .error (.cycle (.text "Round") [.int 1, .int 3]) ∧
      ∃ entry, round.nodesOfKind .entry = [entry] ∧
        round.nodeAfter round.nodes.length entry = .ok none ∧
        ∀ node, Relation.ReflTransGen round.Leads entry node →
          ∃ number : Int, round.numberOf node.id = .ok number ∧
            Value.int number ∉ [Value.int 1, .int 3] := by
  have hdocument : ofDocument roundDocument = .ok round := rfl
  have hids : round.HasTextIds := by simp [round, HasTextIds, Label.IsText]
  have hvalid : round.validate = .ok [] := rfl
  have hcompile : round.compile.result = .error (.cycle (.text "Round") [.int 1, .int 3]) := rfl
  obtain ⟨entry, hentry, _, _, hover, _, hloop⟩ :=
    validate_excludes_loops (.document hdocument) hids hvalid
  exact ⟨hdocument, hvalid, hcompile, entry, hentry, hover, hloop _ _ hcompile⟩

end Graph

end LinearDialogue
