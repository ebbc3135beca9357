import LinearDialogue.Proofs.Loops
import LinearDialogue.Proofs.Lowering
import LinearDialogue.Proofs.Recitals

/-!
# Playing a compiled graph

Playback of a compiled graph says what the authored graph has to say: it executes the lines of the
script one after another and then comes to its end.  The cursor is always on the record of the next
node of the script.  That a script comes to its end follows from the search for loops.
-/

namespace LinearDialogue

/-- From a state on, the steps execute the records of some nodes of a graph in turn, each with one
call for the line that the node makes, and every further step is refused and terminates playback. -/
structure Recital.Plays (t : Recital) (g : Graph) (nodes : List Node) : Prop where
  lines : ∀ (i : ℕ) (hi : i < nodes.length), ∃ (n : ℕ) (draft : LineDraft) (line : SpokenLine),
    g.nodes[n]? = some nodes[i] ∧ nodes[i].body = .line draft ∧ g.Renders draft line ∧
      (operate .advance (t.after i)).1 = .returned (.bool true) ∧
      (t.after (i + 1)).calls = (t.after i).calls ++ t.lineCalled n line
  ending : ∀ i, nodes.length ≤ i →
    (operate .advance (t.after i)).1 = .returned (.bool false) ∧
      (t.after (i + 1)).calls = (t.after i).calls ++ t.endCalled ∧
      (t.after (i + 1)).playback.isTerminated = true

namespace Recital

variable {g : Graph} {t : Recital} {node : Node} {nodes : List Node}

/-- A recital with nothing to execute refuses every step. -/
theorem plays_nil (hquiet : t.IsQuiet) (hplayable : t.Playable)
    (hcurrent : t.playback.current? = none) : t.Plays g [] := by
  refine ⟨fun i hi ↦ absurd hi (Nat.not_lt_zero i), ?_⟩
  intro i _
  have hi := resumes_after hquiet hplayable i
  have hnone : (t.after i).playback.current? = none :=
    current?_after_eq_none hquiet hplayable (Nat.zero_le i) hcurrent
  rcases advance_cases hi.quiet (hi.playable hplayable) with
    ⟨_, _, hsome, _⟩ | ⟨_, hanswer, hbecame⟩
  · simp [hnone] at hsome
  · rw [after_add_one]
    refine ⟨hanswer, ?_, ?_⟩
    · rw [hbecame.calls, endCalled, endCalled, hi.onEnd]
    · rw [hbecame.playback]
      rfl

/-- A recital that executes a line and plays some nodes from then on. -/
theorem Plays.cons {n : ℕ} {draft : LineDraft} {line : SpokenLine} (hquiet : t.IsQuiet)
    (hplayable : t.Playable) (hnode : g.nodes[n]? = some node) (hbody : node.body = .line draft)
    (hrenders : g.Renders draft line)
    (hanswer : (operate .advance t).1 = .returned (.bool true))
    (hcalls : (t.after 1).calls = t.calls ++ t.lineCalled n line)
    (hrest : (t.after 1).Plays g nodes) : t.Plays g (node :: nodes) := by
  have hone := resumes_after hquiet hplayable 1
  have hshift : ∀ i, t.after (i + 1) = (t.after 1).after i := fun i ↦
    Function.iterate_add_apply _ i 1 t
  refine ⟨?_, ?_⟩
  · intro i hi
    cases i with
    | zero => exact ⟨n, draft, line, hnode, hbody, hrenders, hanswer, hcalls⟩
    | succ i =>
        have hline := hrest.lines i (Nat.lt_of_succ_lt_succ hi)
        simp only [lineCalled, hone.onLine] at hline
        rw [hshift i, hshift (i + 1)]
        exact hline
  · intro i hi
    cases i with
    | zero => simp at hi
    | succ i =>
        have hend := hrest.ending i (Nat.le_of_succ_le_succ hi)
        simp only [endCalled, hone.onEnd] at hend
        rw [hshift i, hshift (i + 1)]
        exact hend

end Recital

namespace Graph

open Recital

variable {g : Graph} {node : Node} {out : Option Node} {nodes : List Node} {records : List Record}
  {id : Int} {t : Recital}

/-- What an output can be connected to: a member that is no entry. -/
def IsOutput (g : Graph) (out : Option Node) : Prop :=
  ∀ node ∈ out, node ∈ g.nodes ∧ node.kind ≠ .entry

theorem WellMade.isOutput (hg : g.WellMade) (hids : g.HasTextIds)
    (hout : g.firstOutput node = .ok out) : g.IsOutput out := by
  rintro next rfl
  exact hg.of_firstOutput hids hout

/-- The record of a node is found under its number. -/
theorem exists_lowers_of_numberOf (hg : g.WellMade) (hids : g.HasTextIds)
    (hlowers : List.Forall₂ g.Lowers g.contentNodes records) (hnode : node ∈ g.contentNodes)
    (hnumber : g.numberOf node.id = .ok id) :
    ∃ record, records.find? (fun r ↦ r.id == id) = some record ∧ g.Lowers node record := by
  obtain ⟨record, hrecord, hlower⟩ := exists_mem_of_forall₂ hlowers hnode
  obtain ⟨n, hn, hplace⟩ := hlower.place
  have hid : record.id = id := by
    rw [hplace]
    exact Except.ok.inj ((hg.numberOf_eq_ok hids hn).symm.trans hnumber)
  have hnodup : (records.map Record.id).Nodup :=
    nodup_ids_of_forall₂ ((hg.nodup.of_map _).filter _) hlowers
  refine ⟨record, find?_eq_some_of_nodup hnodup hrecord fun r _ ↦ ?_, hlower⟩
  rw [hid, beq_iff_eq]

/-- No record is found where a chain is over. -/
theorem find?_noId_eq_none (hlowers : List.Forall₂ g.Lowers g.contentNodes records) :
    records.find? (fun r ↦ r.id == noId) = none := by
  refine List.find?_eq_none.mpr fun record hrecord ↦ ?_
  obtain ⟨node, _, hlower⟩ := exists_mem_of_forall₂ hlowers.flip hrecord
  have hid := hlower.sound.id.1
  simp only [beq_iff_eq, noId]
  omega

/-- The records of a compilation are a table of successors as they stand. -/
theorem ofRecords_eq_map_link (hg : g.WellMade)
    (hlowers : List.Forall₂ g.Lowers g.contentNodes records) :
    SuccessorTable.ofRecords records = records.map Record.link := by
  rw [SuccessorTable.ofRecords_eq, Playback.tableOf_eq_self
    (nodup_ids_of_forall₂ ((hg.nodup.of_map _).filter _) hlowers)]

/-- What a record refers to: nothing, or the member at the output of its node. -/
theorem eq_noId_or_of_targetNumber (h : g.targetNumber out = .ok id) :
    id = noId ∨ ∃ node, out = some node ∧ node.kind ≠ .exit ∧ g.numberOf node.id = .ok id := by
  cases out with
  | none =>
      cases h
      exact Or.inl rfl
  | some node =>
      rw [targetNumber] at h
      split at h
      · cases h
        exact Or.inl rfl
      · rename_i hexit
        exact Or.inr ⟨node, rfl, hexit, h⟩

/-- The record under the cursor belongs to the node that is next; where none is, there is none. -/
theorem record_cases (hg : g.WellMade) (hids : g.HasTextIds)
    (hlowers : List.Forall₂ g.Lowers g.contentNodes records) (hout : g.IsOutput out)
    (htarget : g.targetNumber out = .ok id) :
    (records.find? (fun r ↦ r.id == id) = none ∧ g.Chain out []) ∨
    ∃ node record, out = some node ∧ node.kind ≠ .exit ∧
      records.find? (fun r ↦ r.id == id) = some record ∧ g.Lowers node record := by
  cases out with
  | none =>
      cases htarget
      exact Or.inl ⟨find?_noId_eq_none hlowers, .unconnected⟩
  | some node =>
      rw [targetNumber] at htarget
      split at htarget
      · rename_i hexit
        cases htarget
        exact Or.inl ⟨find?_noId_eq_none hlowers, .exit hexit⟩
      · rename_i hexit
        obtain ⟨hnode, hentry⟩ := hout node rfl
        obtain ⟨record, hfind, hlower⟩ := exists_lowers_of_numberOf hg hids hlowers
          (mem_contentNodes_iff.mpr ⟨hnode, hentry, hexit⟩) htarget
        exact Or.inr ⟨node, record, rfl, hexit, hfind, hlower⟩

/-- If the chain of records comes to an end, so does the chain of nodes. -/
theorem exists_chain_of_after_eq_none (hg : g.WellMade) (hids : g.HasTextIds)
    (hlowers : List.Forall₂ g.Lowers g.contentNodes records) {n : ℕ} (hout : g.IsOutput out)
    (htarget : g.targetNumber out = .ok id)
    (hend : SuccessorTable.after (records.map Record.link) n id = none) :
    ∃ nodes, g.Chain out nodes := by
  -- the steps that the chain of records has left bound the chain of nodes
  induction n generalizing out id with
  | zero => simp at hend
  | succ n ih =>
      rcases record_cases hg hids hlowers hout htarget with
        ⟨_, hchain⟩ | ⟨node, record, rfl, hkind, hfind, hlower⟩
      · exact ⟨[], hchain⟩
      · obtain ⟨next, hnext, hsuccessor⟩ := hlower.follows
        rw [SuccessorTable.after_succ, SuccessorTable.next?_map_link, hfind] at hend
        obtain ⟨nodes, hrest⟩ := ih (hg.isOutput hids hnext) hsuccessor hend
        exact ⟨node :: nodes, .step hkind hnext hrest⟩

/-- With the cursor on the record of the next node, the rest of the chain is played. -/
theorem Chain.plays (hg : g.WellMade) (hids : g.HasTextIds)
    (hlowers : List.Forall₂ g.Lowers g.contentNodes records) (hchain : g.Chain out nodes)
    (hquiet : t.IsQuiet) (hplayable : t.Playable) (htable : t.playback.table = records)
    (hout : g.IsOutput out) (htarget : g.targetNumber out = .ok t.playback.cursor) :
    t.Plays g nodes := by
  induction nodes generalizing out t with
  | nil =>
      rcases record_cases hg hids hlowers hout htarget with
        ⟨hnone, _⟩ | ⟨node, record, rfl, hkind, _⟩
      · exact plays_nil hquiet hplayable (by rwa [← htable] at hnone)
      · cases hchain with
        | exit hexit => exact absurd hexit hkind
  | cons node nodes ih =>
      rcases record_cases hg hids hlowers hout htarget with
        ⟨_, hnil⟩ | ⟨node, record, rfl, hkind, hfind, hlower⟩
      · cases hnil.unique hchain
      cases hchain with
      | step _ hnext hrest =>
          have hcurrent : t.playback.current? = some record := by rwa [← htable] at hfind
          obtain ⟨n, hn, hplace⟩ := hlower.place
          obtain ⟨draft, line, hbody, hline, hrenders⟩ := hlower.line
          obtain ⟨follower, hfollower, hsuccessor⟩ := hlower.follows
          obtain rfl := Except.ok.inj (hnext.symm.trans hfollower)
          have hspoken : record.playableLine? = some line := by
            simp [Record.playableLine?, hlower.recordClass, RecordClass.dialogue, hline]
          -- the step executes this very record, and leaves the cursor on the next node's
          have hone := resumes_after hquiet hplayable 1
          rcases advance_cases hquiet hplayable with
            ⟨executed, said, hcurrent', _, hsaid, hanswer, hbecame⟩ | ⟨hnone, _⟩
          · obtain rfl := Option.some.inj (hcurrent.symm.trans hcurrent')
            obtain rfl := Option.some.inj (hspoken.symm.trans hsaid)
            refine Plays.cons hquiet hplayable hn hbody hrenders hanswer
              (hplace ▸ hbecame.calls) ?_
            refine ih hrest hone.quiet (hone.playable hplayable) (hone.table.trans htable)
              (hg.isOutput hids hnext) ?_
            rw [hbecame.playback]
            exact hsuccessor
          · simp [hcurrent] at hnone

/-- Playback of a compiled graph says what the graph has to say.  The graph has exactly one script,
in which no node recurs.  The first steps after loading execute the records of its nodes, all of
them lines, with one call each; all further steps are refused and terminate playback. -/
theorem compile_plays_script {compiled : CompiledGraph} {s : Recital} (hmade : g.Authored)
    (hids : g.HasTextIds) (hcompile : g.compile.result = .ok compiled) (hquiet : s.IsQuiet) :
    ∃ script : List Node, (∀ nodes, g.Script nodes ↔ nodes = script) ∧ script.Nodup ∧
      (∀ node ∈ script, node.kind = .line) ∧ (s.started compiled).Plays g script := by
  have hg := hmade.wellMade
  obtain ⟨hentry, -, -, hrecords, hcycle⟩ := of_compile_eq_ok hcompile
  have hlowers := forall₂_lowers hg hids hrecords
  have htable : Playback.tableOf compiled.records = compiled.records :=
    Playback.tableOf_eq_self (nodup_ids_of_forall₂ ((hg.nodup.of_map _).filter _) hlowers)
  have hbecame := started_became compiled s
  rw [htable] at hbecame
  have hstart := hbecame.isQuiet hquiet hquiet.idle
  have hplayable : (s.started compiled).Playable := by
    refine playable_started (fun record hrecord ↦ ?_) s
    obtain ⟨node, _, hlower⟩ := exists_mem_of_forall₂ hlowers.flip hrecord
    obtain ⟨_, line, _, hline, _⟩ := hlower.line
    simp [Record.playableLine?, hlower.recordClass, RecordClass.dialogue, hline]
  -- a script, and playback of it
  obtain ⟨script, hscript, hplays⟩ :
      ∃ script, g.Script script ∧ (s.started compiled).Plays g script := by
    obtain ⟨_, _, hentry⟩ := bind_eq_ok_iff.mp hentry
    cases hentries : g.nodesOfKind .entry with
    | nil =>
        rw [hentries] at hentry
        have hnone := find?_noId_eq_none hlowers
        rw [Except.ok.inj hentry] at hnone
        refine ⟨[], .noEntry hentries, plays_nil hstart hplayable ?_⟩
        rw [hbecame.playback]
        exact hnone
    | cons entry others =>
        rw [hentries] at hentry
        obtain ⟨out, hout, htarget⟩ := bind_eq_ok_iff.mp hentry
        have houtput := hg.isOutput hids hout
        obtain ⟨n, hend⟩ := SuccessorTable.ends_of_findCycle_eq_nil hcycle compiled.entry
        rw [SuccessorTable.ofRecords_eq, htable] at hend
        obtain ⟨nodes, hchain⟩ :=
          exists_chain_of_after_eq_none hg hids hlowers houtput htarget hend
        refine ⟨nodes, .entry hentries hout hchain,
          hchain.plays hg hids hlowers hstart hplayable ?_ houtput ?_⟩
        · rw [hbecame.playback]
        · rw [hbecame.playback]
          exact htarget
  refine ⟨script, fun nodes ↦ ⟨fun h ↦ h.unique hscript, fun h ↦ h ▸ hscript⟩, hscript.nodup, ?_,
    hplays⟩
  intro node hnode
  obtain ⟨i, hi, rfl⟩ := List.mem_iff_getElem.mp hnode
  obtain ⟨_, _, _, _, hbody, _⟩ := hplays.lines i hi
  simp [Node.kind, hbody]

/-- The document of a guard's line between an entry and an exit. -/
def gateDocument : Value :=
  .object [("name", .text "Gate"),
    ("variables", .object [("guard", .text "Guard")]),
    ("nodes", .list [
      .object [("id", .text "halt"), ("kind", .text "line"),
        ("actor", .object [("variable", .text "guard")]),
        ("text", .object [("value", .text "Halt!")]),
        ("callbacks", .list [.text "gate_closed"])],
      .object [("id", .text "in"), ("kind", .text "entry")],
      .object [("id", .text "out"), ("kind", .text "exit")]]),
    ("edges", .list [
      .object [("source", .text "in"), ("target", .text "halt")],
      .object [("source", .text "halt"), ("target", .text "out")]])]

/-- The graph of that document. -/
def gate : Graph where
  name := .text "Gate"
  nodes := [
    { id := .plain (.text "halt")
      body := .line
        { actor := .variable (.text "guard")
          text := .literal (.text "Halt!")
          callbacks := .list [.text "gate_closed"] } },
    { id := .plain (.text "in"), body := .entry },
    { id := .plain (.text "out"), body := .exit (.list []) }]
  edges := [⟨.plain (.text "in"), .plain (.text "halt")⟩,
    ⟨.plain (.text "halt"), .plain (.text "out")⟩]
  defaults := [(.text "guard", .text "Guard")]

/-- What that graph compiles to. -/
def compiledGate : CompiledGraph :=
  ⟨0, [⟨.dialogue, 0, noId, "dialogue", some ⟨"Guard", none, "Halt!", ["gate_closed"]⟩⟩]⟩

theorem compile_plays_script_of_gate :
    ofDocument gateDocument = .ok gate ∧ gate.compile.result = .ok compiledGate ∧
      ∃ script : List Node, (∀ nodes, gate.Script nodes ↔ nodes = script) ∧ script.Nodup ∧
        (∀ node ∈ script, node.kind = .line) ∧ (started compiledGate {}).Plays gate script := by
  have hdocument : ofDocument gateDocument = .ok gate := rfl
  have hids : gate.HasTextIds := by simp [gate, HasTextIds, Label.IsText]
  have hcompile : gate.compile.result = .ok compiledGate := rfl
  have hquiet : ({} : Recital).IsQuiet := ⟨rfl, by simp, by simp⟩
  exact ⟨hdocument, hcompile, compile_plays_script (.document hdocument) hids hcompile hquiet⟩

end Graph

end LinearDialogue
