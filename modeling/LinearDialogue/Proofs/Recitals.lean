import LinearDialogue.Recital
import LinearDialogue.Proofs.RecordTables

/-!
# Recitals with quiet callbacks

Callbacks that neither fail nor use the playback leave it alone, so a step of playback does what its
records say: it executes the record under the cursor and moves on to the successor, or terminates
where there is no such record.  The calls of the callbacks are told by the notes of the journal.
-/

namespace LinearDialogue

/-- A program that performs no operation and does not fail.  All that it does is to take notes of
its own. -/
inductive Program.IsPassive {ω : Type} : Program ω → Prop
  | done : IsPassive .done
  | note {answer : Except Failure Value} {next : Program ω} (h : next.IsPassive) :
      IsPassive (.note (.attempt answer) next)

namespace Recital

/-- A call of a callback. -/
inductive Call
  | line (id : Int) (line : SpokenLine)
  | ended
  deriving DecidableEq

/-- The call that a note is about. -/
def Call.ofNote? : Note → Option Call
  | .line id spoken => some (.line id spoken)
  | .ended => some .ended
  | _ => none

/-- The calls of the callbacks so far. -/
def calls (s : Recital) : List Call := s.journal.notes.filterMap Call.ofNote?

/-- No step is going on, and the callbacks neither fail nor use the playback. -/
structure IsQuiet (s : Recital) : Prop where
  idle : s.playback.advancing = false
  onLine : ∀ behaviour ∈ s.onLine, ∀ call event, (behaviour call event).IsPassive
  onEnd : ∀ behaviour ∈ s.onEnd, ∀ call event, (behaviour call event).IsPassive

/-- A recital came from one state to another: with the callbacks that it had, to a given playback,
and having made some calls. -/
structure Became (s t : Recital) (playback : Playback) (made : List Call) : Prop where
  onLine : t.onLine = s.onLine
  onEnd : t.onEnd = s.onEnd
  playback : t.playback = playback
  calls : t.calls = s.calls ++ made

theorem Became.isQuiet {s t : Recital} {p : Playback} {made : List Call} (hst : Became s t p made)
    (hs : s.IsQuiet) (hp : p.advancing = false) : t.IsQuiet where
  idle := by rw [hst.playback, hp]
  onLine := by rw [hst.onLine]; exact hs.onLine
  onEnd := by rw [hst.onEnd]; exact hs.onEnd

/-- The call that a recital makes for a line: none without a line callback. -/
def lineCalled (s : Recital) (id : Int) (line : SpokenLine) : List Call :=
  if s.onLine.isSome then [.line id line] else []

/-- The call that a recital makes at the end. -/
def endCalled (s : Recital) : List Call := if s.onEnd.isSome then [.ended] else []

theorem runProgram_of_isPassive {program : Program RecitalOp} (h : program.IsPassive)
    (s : Recital) :
    ∃ t, runProgram program s = (.returned (), t) ∧ Became s t s.playback [] := by
  induction h generalizing s with
  | done => exact ⟨s, rfl, rfl, rfl, rfl, by simp⟩
  | @note answer next _ ih =>
      obtain ⟨t, hrun, hbecame⟩ :=
        ih { s with journal.notes := s.journal.notes ++ [.attempt answer] }
      refine ⟨t, hrun, hbecame.onLine, hbecame.onEnd, hbecame.playback, ?_⟩
      rw [hbecame.calls]
      simp [calls, Call.ofNote?]

theorem callLine_of_passive {s : Recital}
    (h : ∀ behaviour ∈ s.onLine, ∀ call event, (behaviour call event).IsPassive) (id : Int)
    (line : SpokenLine) :
    ∃ t, callLine id line s = (.returned (), t) ∧
      Became s t s.playback (s.lineCalled id line) := by
  cases hcallback : s.onLine with
  | none => exact ⟨s, by simp [callLine, hcallback], rfl, rfl, rfl, by simp [lineCalled, hcallback]⟩
  | some behaviour =>
      obtain ⟨t, hrun, hbecame⟩ :=
        runProgram_of_isPassive (h behaviour hcallback s.lineCalls noEvent)
          { s with
            lineCalls := s.lineCalls + 1
            journal.notes := s.journal.notes ++ [.line id line] }
      refine ⟨t, ?_, hbecame.onLine, hbecame.onEnd, hbecame.playback, ?_⟩
      · simpa [callLine, hcallback, Act.bind_apply, Journal.note] using hrun
      · rw [hbecame.calls]
        simp [calls, Call.ofNote?, lineCalled, hcallback]

theorem callEnd_of_passive {s : Recital}
    (h : ∀ behaviour ∈ s.onEnd, ∀ call event, (behaviour call event).IsPassive) :
    ∃ t, callEnd s = (.returned (), t) ∧ Became s t s.playback s.endCalled := by
  cases hcallback : s.onEnd with
  | none => exact ⟨s, by simp [callEnd, hcallback], rfl, rfl, rfl, by simp [endCalled, hcallback]⟩
  | some behaviour =>
      obtain ⟨t, hrun, hbecame⟩ :=
        runProgram_of_isPassive (h behaviour hcallback s.endCalls noEvent)
          { s with
            endCalls := s.endCalls + 1
            journal.notes := s.journal.notes ++ [.ended] }
      refine ⟨t, ?_, hbecame.onLine, hbecame.onEnd, hbecame.playback, ?_⟩
      · simpa [callEnd, hcallback, Act.bind_apply, Journal.note] using hrun
      · rw [hbecame.calls]
        simp [calls, Call.ofNote?, endCalled, hcallback]

/-! ## Single operations -/

/-- A step of a recital in which none is going on. -/
theorem operate_advance_of_step {s t : Recital} (hidle : s.playback.advancing = false)
    {executed : Bool}
    (hstep : Playback.step s.callbacks { s with playback.advancing := true } =
      (.returned executed, t)) :
    operate .advance s = (.returned (.bool executed), { t with playback.advancing := false }) := by
  simp only [operate, perform, Playback.advance, Act.bind_apply, Part.read_apply, get_playback,
    hidle, Bool.false_eq_true, if_false, Part.update_apply, set_playback, Act.ensure_apply, hstep,
    Playback.setAdvancing, Act.pure_apply]

/-- A recital in the middle of a step, when the line has been logged and the callback is due. -/
def atLine (s : Recital) (line : SpokenLine) : Recital :=
  { s with
    playback.advancing := true
    journal.log := s.journal.log ++ if s.logLines then [Playback.spoken line] else [] }

/-- A step with a record under the cursor that playback knows how to execute.  When the callback has
returned, the cursor moves on to the successor, whatever the callback did to it. -/
theorem operate_advance_of_callLine {s t : Recital} {record : Record} {line : SpokenLine}
    (hidle : s.playback.advancing = false) (hcurrent : s.playback.current? = some record)
    (hline : record.playableLine? = some line)
    (hcall : callLine record.id line (s.atLine line) = (.returned (), t)) :
    operate .advance s = (.returned (.bool true),
      { t with playback := { t.playback with
          cursor := record.successor
          state := .active
          advancing := false } }) := by
  have hcurrent' : ({ s.playback with advancing := true } : Playback).current? = some record :=
    hcurrent
  have hstep : Playback.step s.callbacks { s with playback.advancing := true } =
      (.returned true,
        { t with
          playback := { t.playback with cursor := record.successor, state := .active } }) := by
    cases hlog : s.logLines <;>
      simp_all [Playback.step, Playback.execute, Act.bind_apply, Journal.report, callbacks, atLine]
  exact operate_advance_of_step hidle hstep

theorem operate_advance_of_line {s : Recital} (hs : s.IsQuiet) {record : Record}
    {line : SpokenLine} (hcurrent : s.playback.current? = some record)
    (hline : record.playableLine? = some line) :
    ∃ t, operate .advance s = (.returned (.bool true), t) ∧
      Became s t { s.playback with cursor := record.successor, state := .active }
        (s.lineCalled record.id line) := by
  obtain ⟨t, hcall, hbecame⟩ :=
    callLine_of_passive (s := s.atLine line) hs.onLine record.id line
  refine ⟨_, operate_advance_of_callLine hs.idle hcurrent hline hcall, hbecame.onLine,
    hbecame.onEnd, ?_, hbecame.calls⟩
  simp [hbecame.playback, atLine, hs.idle]

/-- A step without a record under the cursor. -/
theorem operate_advance_of_none {s : Recital} (hs : s.IsQuiet)
    (hcurrent : s.playback.current? = none) :
    ∃ t, operate .advance s = (.returned (.bool false), t) ∧
      Became s t { s.playback with state := .terminated } s.endCalled := by
  obtain ⟨t, hcall, hbecame⟩ := callEnd_of_passive (s :=
    { s with
      playback.state := .terminated
      playback.advancing := true
      journal.log := s.journal.log ++ [Playback.ended] }) hs.onEnd
  have hcurrent' : ({ s.playback with advancing := true } : Playback).current? = none := hcurrent
  refine ⟨{ t with playback.advancing := false }, ?_, hbecame.onLine, hbecame.onEnd, ?_, ?_⟩
  · apply operate_advance_of_step hs.idle
    simp [Playback.step, Playback.terminate, Act.bind_apply, hcurrent', Journal.report, callbacks,
      hcall]
  · simp [hbecame.playback, hs.idle]
  · exact hbecame.calls

theorem operate_load (graph : CompiledGraph) (s : Recital) :
    ∃ t, operate (.load graph) s = (.returned .null, t) ∧
      Became s t
        { s.playback with
          table := Playback.tableOf graph.records
          cursor := graph.entry
          state := .loaded } [] :=
  ⟨_, rfl, rfl, rfl, rfl, by simp [calls]⟩

/-! ## Runs -/

/-- A guard's line with given ids. -/
def guardLine (id successor : Int) : Record :=
  ⟨.dialogue, id, successor, "dialogue", some ⟨"Guard", none, "Halt!", []⟩⟩

/-- The recital after a number of steps, however they end. -/
def after (n : ℕ) (s : Recital) : Recital := (fun s ↦ (operate .advance s).2)^[n] s

/-- The recital after loading a graph. -/
def started (graph : CompiledGraph) (s : Recital) : Recital := (operate (.load graph) s).2

@[simp] theorem after_zero (s : Recital) : s.after 0 = s := rfl

theorem after_succ (n : ℕ) (s : Recital) : s.after (n + 1) = (operate .advance (s.after n)).2 :=
  Function.iterate_succ_apply' _ _ _

/-- The successors of the records in the table of a recital. -/
def links (s : Recital) : SuccessorTable := s.playback.table.map Record.link

theorem next?_links (s : Recital) :
    s.links.next? s.playback.cursor = s.playback.current?.map Record.successor :=
  SuccessorTable.next?_map_link _ _

theorem current?_eq_none_iff {s : Recital} :
    s.playback.current? = none ↔ s.links.next? s.playback.cursor = none := by
  rw [next?_links, Option.map_eq_none_iff]

/-- Playback knows how to execute every record in the table of a recital. -/
def Playable (s : Recital) : Prop := ∀ record ∈ s.playback.table, record.playableLine?.isSome

theorem Playable.exists_line {s : Recital} (hs : s.Playable) {record : Record}
    (hcurrent : s.playback.current? = some record) :
    record.id = s.playback.cursor ∧ ∃ line, record.playableLine? = some line := by
  have hid := List.find?_some hcurrent
  refine ⟨by simpa using hid, ?_⟩
  exact Option.isSome_iff_exists.mp (hs record (List.mem_of_find?_eq_some hcurrent))

/-- A recital goes on with the table and the callbacks of another one. -/
structure Resumes (s t : Recital) : Prop where
  quiet : t.IsQuiet
  table : t.playback.table = s.playback.table
  onLine : t.onLine = s.onLine
  onEnd : t.onEnd = s.onEnd

theorem Resumes.playable {s t : Recital} (hst : Resumes s t) (hs : s.Playable) : t.Playable := by
  intro record hrecord
  exact hs record (hst.table ▸ hrecord)

theorem Resumes.links {s t : Recital} (hst : Resumes s t) : t.links = s.links := by
  rw [Recital.links, Recital.links, hst.table]

theorem Resumes.trans {s t u : Recital} (hst : Resumes s t) (htu : Resumes t u) : Resumes s u :=
  ⟨htu.quiet, htu.table.trans hst.table, htu.onLine.trans hst.onLine, htu.onEnd.trans hst.onEnd⟩

/-- What a step does in a recital that is quiet and knows all its records. -/
theorem advance_cases {s : Recital} (hs : s.IsQuiet) (hplayable : s.Playable) :
    (∃ record line, s.playback.current? = some record ∧ record.id = s.playback.cursor ∧
      record.playableLine? = some line ∧
      (operate .advance s).1 = .returned (.bool true) ∧
      Became s (s.after 1) { s.playback with cursor := record.successor, state := .active }
        (s.lineCalled record.id line)) ∨
    (s.playback.current? = none ∧
      (operate .advance s).1 = .returned (.bool false) ∧
      Became s (s.after 1) { s.playback with state := .terminated } s.endCalled) := by
  cases hcurrent : s.playback.current? with
  | none =>
      obtain ⟨t, hstep, hbecame⟩ := operate_advance_of_none hs hcurrent
      rw [after_succ, after_zero, hstep]
      exact Or.inr ⟨rfl, rfl, hbecame⟩
  | some record =>
      obtain ⟨hid, line, hline⟩ := hplayable.exists_line hcurrent
      obtain ⟨t, hstep, hbecame⟩ := operate_advance_of_line hs hcurrent hline
      rw [after_succ, after_zero, hstep]
      exact Or.inl ⟨record, line, rfl, hid, hline, rfl, hbecame⟩

theorem resumes_step {s : Recital} (hs : s.IsQuiet) (hplayable : s.Playable) :
    Resumes s (s.after 1) := by
  rcases advance_cases hs hplayable with ⟨_, _, _, _, _, _, hbecame⟩ | ⟨_, _, hbecame⟩
  · exact ⟨hbecame.isQuiet hs hs.idle, by rw [hbecame.playback], hbecame.onLine, hbecame.onEnd⟩
  · exact ⟨hbecame.isQuiet hs hs.idle, by rw [hbecame.playback], hbecame.onLine, hbecame.onEnd⟩

theorem after_add_one (n : ℕ) (s : Recital) : s.after (n + 1) = (s.after n).after 1 := by
  rw [after_succ, after_succ, after_zero]

theorem resumes_after {s : Recital} (hs : s.IsQuiet) (hplayable : s.Playable) (n : ℕ) :
    Resumes s (s.after n) := by
  induction n with
  | zero => exact ⟨hs, rfl, rfl, rfl⟩
  | succ n ih =>
      rw [after_add_one]
      exact ih.trans (resumes_step ih.quiet (ih.playable hplayable))

/-- As long as the chain from the cursor goes on, the cursor moves along it. -/
theorem cursor_after {s : Recital} (hs : s.IsQuiet) (hplayable : s.Playable) {n : ℕ} {id : Int}
    (hchain : s.links.after n s.playback.cursor = some id) : (s.after n).playback.cursor = id := by
  induction n generalizing id with
  | zero => simpa using hchain
  | succ n ih =>
      have hn := resumes_after hs hplayable n
      rw [SuccessorTable.after_add] at hchain
      obtain ⟨before, hbefore, hnext⟩ := Option.bind_eq_some_iff.mp hchain
      rw [SuccessorTable.after_one, ← hn.links, ← ih hbefore, next?_links] at hnext
      rcases advance_cases hn.quiet (hn.playable hplayable) with
        ⟨record, line, hcurrent, _, _, _, hbecame⟩ | ⟨hcurrent, _, _⟩
      · rw [hcurrent, Option.map_some, Option.some_inj] at hnext
        rw [after_add_one, hbecame.playback, hnext]
      · simp [hcurrent] at hnext

/-- A recital that has no record to execute has none later on either. -/
theorem current?_after_eq_none {s : Recital} (hs : s.IsQuiet) (hplayable : s.Playable) {m n : ℕ}
    (hmn : m ≤ n) (hend : (s.after m).playback.current? = none) :
    (s.after n).playback.current? = none := by
  induction n, hmn using Nat.le_induction with
  | base => exact hend
  | succ n _ ih =>
      have hn := resumes_after hs hplayable n
      rcases advance_cases hn.quiet (hn.playable hplayable) with
        ⟨_, _, hcurrent, _⟩ | ⟨_, _, hbecame⟩
      · simp [ih] at hcurrent
      · rw [after_add_one, hbecame.playback]
        exact ih

theorem started_became (graph : CompiledGraph) (s : Recital) :
    Became s (s.started graph)
      { s.playback with
        table := Playback.tableOf graph.records
        cursor := graph.entry
        state := .loaded } [] := by
  obtain ⟨t, hload, hbecame⟩ := operate_load graph s
  rwa [started, hload]

theorem links_started (graph : CompiledGraph) (s : Recital) :
    (s.started graph).links = SuccessorTable.ofRecords graph.records := by
  rw [links, (started_became graph s).playback, SuccessorTable.ofRecords_eq]

theorem playable_started {graph : CompiledGraph}
    (h : ∀ record ∈ graph.records, record.playableLine?.isSome) (s : Recital) :
    (s.started graph).Playable := by
  intro record hrecord
  rw [(started_became graph s).playback] at hrecord
  exact h record (Playback.mem_of_mem_tableOf hrecord)

end Recital

end LinearDialogue
