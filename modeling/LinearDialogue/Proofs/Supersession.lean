import LinearDialogue.Proofs.Recitals

/-!
# Loading and unloading inside a step

A line callback may load another graph, or unload, in the middle of the step that calls it.  What it
establishes does not last: when the callback has returned, the step moves the cursor on to the
successor of the record that it executed.  The new table stays, so the next step looks up an id of
the abandoned graph in it.
-/

namespace LinearDialogue.Recital

/-- A program runs from a state to its end, performing some operations in turn. -/
inductive Runs : Program RecitalOp → Recital → List RecitalOp → Recital → Prop
  | done {s : Recital} : Runs .done s [] s
  | note {item : Note} {next : Program RecitalOp} {s t : Recital} {ops : List RecitalOp}
      (h : Runs next { s with journal.notes := s.journal.notes ++ [item] } ops t) :
      Runs (.note item next) s ops t
  | perform {op : RecitalOp} {next : Except Failure Value → Program RecitalOp} {s t u : Recital}
      {answer : Except Failure Value} {ops : List RecitalOp}
      (hop : (perform silent op).attempt s = (.returned answer, t))
      (h : Runs (next answer) t ops u) : Runs (.perform op next) s (op :: ops) u

/-- Every program that returns runs to its end, and the other way round. -/
theorem runProgram_eq_returned_iff {program : Program RecitalOp} {s t : Recital} :
    runProgram program s = (.returned (), t) ↔ ∃ ops, Runs program s ops t := by
  constructor
  · intro h
    induction program generalizing s with
    | done =>
        cases h
        exact ⟨[], .done⟩
    | fail failure => cases h
    | abort => cases h
    | consume next => cases h
    | note item next ih =>
        obtain ⟨ops, hruns⟩ := ih (s := { s with journal.notes := s.journal.notes ++ [item] }) h
        exact ⟨ops, .note hruns⟩
    | perform op next ih =>
        have hrun := h
        rw [runProgram, Program.run, Act.bind_apply] at hrun
        cases hop : (perform silent op).attempt s with
        | mk outcome u =>
            rw [hop] at hrun
            cases outcome with
            | returned answer =>
                obtain ⟨ops, hruns⟩ := ih answer hrun
                exact ⟨op :: ops, .perform hop hruns⟩
            | failed e => cases hrun
            | aborted => cases hrun
            | stalled => cases hrun
  · rintro ⟨ops, hruns⟩
    induction hruns with
    | done => rfl
    | note _ ih => exact ih
    | perform hop _ ih =>
        rw [runProgram, Program.run, Act.bind_apply, hop]
        exact ih

/-- The playback that an operation establishes: a graph loaded, or none. -/
def established? : RecitalOp → Option Playback
  | .load graph =>
    some { table := Playback.tableOf graph.records, cursor := graph.entry, state := .loaded }
  | .unload => some {}
  | .advance => none

/-- An operation inside a step establishes its playback, or is a step and is refused. -/
theorem playback_of_attempt_perform {op : RecitalOp} {s t : Recital}
    {answer : Except Failure Value} (hinside : s.playback.advancing = true)
    (hop : (perform silent op).attempt s = (.returned answer, t)) :
    t.playback = { (established? op).getD s.playback with advancing := true } := by
  cases op with
  | load graph =>
      cases hop
      simp [established?, hinside, Playback.tableOf]
  | unload =>
      cases hop
      simp [established?, hinside]
  | advance =>
      have hrefused : (perform silent .advance).attempt s =
          (.returned (.error Failure.alreadyAdvancing), s) := by
        simp [Act.attempt_apply, perform, Playback.advance, Act.bind_apply, hinside]
      rw [hrefused] at hop
      cases hop
      simp [established?, ← hinside]

theorem Runs.playback_of_nil {program : Program RecitalOp} {s t : Recital}
    (hruns : Runs program s [] t) : t.playback = s.playback := by
  generalize hops : ([] : List RecitalOp) = ops at hruns
  induction hruns with
  | done => rfl
  | note _ ih => exact ih hops
  | perform _ _ _ => cases hops

/-- What the last operation of a program inside a step establishes is there when it returns. -/
theorem Runs.playback_eq {program : Program RecitalOp} {s t : Recital} {ops : List RecitalOp}
    {op : RecitalOp} {p : Playback} (hruns : Runs program s ops t)
    (hlast : ops.getLast? = some op) (hinside : s.playback.advancing = true)
    (hop : established? op = some p) : t.playback = { p with advancing := true } := by
  induction hruns with
  | done => simp at hlast
  | note _ ih => exact ih hlast hinside
  | @perform first next s t u answer ops hfirst hrest ih =>
      have hplayback := playback_of_attempt_perform hinside hfirst
      cases ops with
      | nil =>
          have hsame : first = op := by simpa using hlast
          rw [hrest.playback_of_nil, hplayback, hsame, hop, Option.getD_some]
      | cons second ops =>
          rw [List.getLast?_cons_cons] at hlast
          exact ih hlast (by rw [hplayback])

/-- The recital in which the program of its line callback starts. -/
def inLineCallback (s : Recital) (id : Int) (line : SpokenLine) : Recital :=
  { s.atLine line with
    lineCalls := s.lineCalls + 1
    journal.notes := s.journal.notes ++ [.line id line] }

/-- A line callback that loads a graph, or unloads, as its last operation loses the cursor and the
state that this establishes, and never the table.  When the step has returned, the cursor is on the
successor of the record that was executed and the state is active, so the next step executes the
record of that id in the new table, if there is one.  The cursor is the established one exactly if
that successor happens to be it; the state never is. -/
theorem advance_overrides_callback {s t : Recital} {record : Record} {line : SpokenLine}
    {behaviour : Behaviour RecitalOp} {ops : List RecitalOp} {op : RecitalOp} {p : Playback}
    (hidle : s.playback.advancing = false) (hcurrent : s.playback.current? = some record)
    (hline : record.playableLine? = some line) (hcallback : s.onLine = some behaviour)
    (hruns : Runs (behaviour s.lineCalls noEvent) (s.inLineCallback record.id line) ops t)
    (hlast : ops.getLast? = some op) (hop : established? op = some p) :
    (operate .advance s).1 = .returned (.bool true) ∧
      (s.after 1).playback = { p with cursor := record.successor, state := .active } ∧
      (s.after 1).playback.current? = p.record? record.successor ∧
      ((s.after 1).playback.cursor = p.cursor ↔ record.successor = p.cursor) ∧
      (s.after 1).playback.state ≠ p.state := by
  have hcall : callLine record.id line (s.atLine line) = (.returned (), t) := by
    have hprogram := runProgram_eq_returned_iff.mpr ⟨ops, hruns⟩
    simpa [callLine, atLine, inLineCallback, hcallback, Act.bind_apply, Journal.note] using hprogram
  have hplayback : t.playback = { p with advancing := true } := hruns.playback_eq hlast rfl hop
  have hidle' : p.advancing = false ∧ p.state ≠ .active := by
    cases op <;> cases hop <;> simp
  have hafter : (s.after 1).playback = { p with cursor := record.successor, state := .active } := by
    rw [after_succ, after_zero, operate_advance_of_callLine hidle hcurrent hline hcall]
    simp [hplayback, hidle'.1]
  refine ⟨?_, hafter, ?_, ?_, ?_⟩
  · rw [operate_advance_of_callLine hidle hcurrent hline hcall]
  · rw [hafter]
    rfl
  · rw [hafter]
  · rw [hafter]
    exact hidle'.2.symm

/-- A recital of two lines whose callback loads another graph. -/
def interrupted (graph : CompiledGraph) : Recital :=
  ({ onLine := some fun _ _ ↦ .perform (.load graph) fun _ ↦ .done } : Recital).started
    ⟨0, [guardLine 0 1, guardLine 1 noId]⟩

theorem advance_overrides_callback_of_two_lines :
    (operate .advance (interrupted ⟨0, [guardLine 0 5, guardLine 1 7]⟩)).1 =
        .returned (.bool true) ∧
      ((interrupted ⟨0, [guardLine 0 5, guardLine 1 7]⟩).after 1).playback =
        { table := [guardLine 0 5, guardLine 1 7], cursor := 1, state := .active } := by
  have hcurrent : (interrupted ⟨0, [guardLine 0 5, guardLine 1 7]⟩).playback.current? =
      some (guardLine 0 1) := rfl
  have hline : (guardLine 0 1).playableLine? = some ⟨"Guard", none, "Halt!", []⟩ := rfl
  have h := advance_overrides_callback rfl hcurrent hline rfl (Runs.perform rfl .done) rfl rfl
  exact ⟨h.1, h.2.1⟩

/-- Loading a graph in the line callback leaves the cursor where the abandoned graph went on. -/
theorem exists_callback_load_overridden :
    ∃ (s : Recital) (graph : CompiledGraph) (record : Record) (line : SpokenLine)
      (behaviour : Behaviour RecitalOp) (t : Recital),
      s.playback.advancing = false ∧ s.playback.current? = some record ∧
      record.playableLine? = some line ∧ s.onLine = some behaviour ∧
      Runs (behaviour s.lineCalls noEvent) (s.inLineCallback record.id line) [.load graph] t ∧
      (s.after 1).playback.cursor ≠ graph.entry ∧ (s.after 1).playback.state ≠ .loaded :=
  ⟨interrupted ⟨0, [guardLine 0 5, guardLine 1 7]⟩, ⟨0, [guardLine 0 5, guardLine 1 7]⟩,
    guardLine 0 1, ⟨"Guard", none, "Halt!", []⟩, _, _, rfl, rfl, rfl, rfl, .perform rfl .done,
    by decide, by decide⟩

end LinearDialogue.Recital
