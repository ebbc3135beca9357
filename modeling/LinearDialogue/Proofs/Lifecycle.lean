import LinearDialogue.Proofs.Supersession

/-!
# The lifecycle of a playback

Callbacks that neither load nor unload may step, fail and abort as they like.  A step from inside
such a callback is refused and changes nothing, so the table and the cursor are in the callback what
they were before, and a step that a callback cuts off leaves them there: a cut line callback leaves
the state too, a cut end callback leaves it terminated.  However a step ends, it is over, and the
next one is not refused.  This carries four facts about the fields of a playback through every run
of operations.
-/

namespace LinearDialogue

/-- A program that neither loads nor unloads.  It may step, fail and abort. -/
inductive Program.KeepsGraph : Program RecitalOp → Prop
  | done : KeepsGraph .done
  | fail {failure : Failure} : KeepsGraph (.fail failure)
  | abort : KeepsGraph .abort
  | consume {next : Program RecitalOp} (h : next.KeepsGraph) : KeepsGraph (.consume next)
  | note {item : Note} {next : Program RecitalOp} (h : next.KeepsGraph) :
      KeepsGraph (.note item next)
  | advance {next : Except Failure Value → Program RecitalOp}
      (h : ∀ answer, (next answer).KeepsGraph) : KeepsGraph (.perform .advance next)

namespace Recital

/-- The states that a program goes through when it starts in a state, the last one included. -/
inductive Passes : Program RecitalOp → Recital → Recital → Prop
  | here {program : Program RecitalOp} {s : Recital} : Passes program s s
  | note {item : Note} {next : Program RecitalOp} {s u : Recital}
      (h : Passes next { s with journal.notes := s.journal.notes ++ [item] } u) :
      Passes (.note item next) s u
  | perform {op : RecitalOp} {next : Except Failure Value → Program RecitalOp} {s t u : Recital}
      {answer : Except Failure Value}
      (hop : (perform silent op).attempt s = (.returned answer, t))
      (h : Passes (next answer) t u) : Passes (.perform op next) s u

/-- The recital in the middle of its last step, when the end callback is due. -/
def atEnd (s : Recital) : Recital :=
  { s with
    playback.advancing := true
    playback.state := .terminated
    journal.log := s.journal.log ++ [Playback.ended] }

/-- The recital in which the program of its end callback starts. -/
def inEndCallback (s : Recital) : Recital :=
  { s.atEnd with
    endCalls := s.endCalls + 1
    journal.notes := s.journal.notes ++ [.ended] }

/-- The states inside the step that a recital makes next: those of the callback that it calls. -/
inductive Inside (s : Recital) : Recital → Prop
  | line {record : Record} {line : SpokenLine} {behaviour : Behaviour RecitalOp} {u : Recital}
      (hcurrent : s.playback.current? = some record) (hline : record.playableLine? = some line)
      (hcallback : s.onLine = some behaviour)
      (h : Passes (behaviour s.lineCalls noEvent) (s.inLineCallback record.id line) u) : Inside s u
  | ending {behaviour : Behaviour RecitalOp} {u : Recital} (hcurrent : s.playback.current? = none)
      (hcallback : s.onEnd = some behaviour)
      (h : Passes (behaviour s.endCalls noEvent) s.inEndCallback u) : Inside s u

/-- How a step ends, and which playback it leaves. -/
inductive Steps (s : Recital) : Outcome Value → Recital → Prop
  | executed {record : Record} {line : SpokenLine} {t : Recital}
      (hcurrent : s.playback.current? = some record) (hline : record.playableLine? = some line)
      (hcall : (callLine record.id line (s.atLine line)).1 = .returned ())
      (hleft : t.playback = { s.playback with cursor := record.successor, state := .active }) :
      Steps s (.returned (.bool true)) t
  | unsupported {record : Record} {t : Recital} (hcurrent : s.playback.current? = some record)
      (hline : record.playableLine? = none) (hleft : t.playback = s.playback) :
      Steps s (.failed (.unsupportedKind (.text record.recordClass.name))) t
  | lineFailed {record : Record} {line : SpokenLine} {e : Failure} {t : Recital}
      (hcurrent : s.playback.current? = some record) (hline : record.playableLine? = some line)
      (hcall : (callLine record.id line (s.atLine line)).1 = .failed e)
      (hleft : t.playback = s.playback) : Steps s (.failed e) t
  | lineAborted {record : Record} {line : SpokenLine} {t : Recital}
      (hcurrent : s.playback.current? = some record) (hline : record.playableLine? = some line)
      (hcall : (callLine record.id line (s.atLine line)).1 = .aborted)
      (hleft : t.playback = s.playback) : Steps s .aborted t
  | ended {t : Recital} (hcurrent : s.playback.current? = none)
      (hcall : (callEnd s.atEnd).1 = .returned ())
      (hleft : t.playback = { s.playback with state := .terminated }) :
      Steps s (.returned (.bool false)) t
  | endFailed {e : Failure} {t : Recital} (hcurrent : s.playback.current? = none)
      (hcall : (callEnd s.atEnd).1 = .failed e)
      (hleft : t.playback = { s.playback with state := .terminated }) : Steps s (.failed e) t
  | endAborted {t : Recital} (hcurrent : s.playback.current? = none)
      (hcall : (callEnd s.atEnd).1 = .aborted)
      (hleft : t.playback = { s.playback with state := .terminated }) : Steps s .aborted t

/-! ## Inside a step -/

theorem perform_advance_of_advancing {s : Recital} (h : s.playback.advancing = true)
    (callbacks : Playback.Callbacks Recital) :
    perform callbacks .advance s = (.failed Failure.alreadyAdvancing, s) := by
  simp [perform, Playback.advance, Act.bind_apply, h]

/-- A recital goes on with its playback and its callbacks. -/
structure Keeps (s t : Recital) : Prop where
  playback : t.playback = s.playback
  onLine : t.onLine = s.onLine
  onEnd : t.onEnd = s.onEnd

theorem Passes.keeps {program : Program RecitalOp} {s u : Recital} (h : Passes program s u)
    (hprogram : program.KeepsGraph) (hinside : s.playback.advancing = true) : Keeps s u := by
  induction h with
  | here => exact ⟨rfl, rfl, rfl⟩
  | note _ ih =>
      cases hprogram with
      | note hnext =>
          obtain ⟨hplayback, honLine, honEnd⟩ := ih hnext hinside
          exact ⟨hplayback, honLine, honEnd⟩
  | perform hop _ ih =>
      cases hprogram with
      | advance hnext =>
          rw [Act.attempt_apply, perform_advance_of_advancing hinside] at hop
          cases hop
          exact ih (hnext _) hinside

/-- A program that neither loads nor unloads ends in a state that it passes through. -/
theorem passes_runProgram {program : Program RecitalOp} (hprogram : program.KeepsGraph)
    {s : Recital} (hinside : s.playback.advancing = true) :
    Passes program s (runProgram program s).2 ∧ (runProgram program s).1 ≠ .stalled := by
  induction hprogram generalizing s with
  | done => exact ⟨.here, nofun⟩
  | fail => exact ⟨.here, nofun⟩
  | abort => exact ⟨.here, nofun⟩
  | consume => exact ⟨.here, nofun⟩
  | @note item next _ ih =>
      obtain ⟨hpasses, houtcome⟩ := ih (s :=
        { s with journal.notes := s.journal.notes ++ [item] }) hinside
      exact ⟨.note hpasses, houtcome⟩
  | @advance next _ ih =>
      have hop : (perform silent .advance).attempt s =
          (.returned (.error Failure.alreadyAdvancing), s) := by
        rw [Act.attempt_apply, perform_advance_of_advancing hinside]
      have hrun : runProgram (.perform .advance next) s =
          runProgram (next (.error Failure.alreadyAdvancing)) s := by
        rw [runProgram, Program.run, Act.bind_of_returned hop]
        rfl
      rw [hrun]
      obtain ⟨hpasses, houtcome⟩ := ih (.error Failure.alreadyAdvancing) hinside
      exact ⟨.perform hop hpasses, houtcome⟩

theorem keeps_runProgram {program : Program RecitalOp} (hprogram : program.KeepsGraph)
    {s : Recital} (hinside : s.playback.advancing = true) :
    Keeps s (runProgram program s).2 ∧ (runProgram program s).1 ≠ .stalled := by
  obtain ⟨hpasses, houtcome⟩ := passes_runProgram hprogram hinside
  exact ⟨hpasses.keeps hprogram hinside, houtcome⟩

/-- Neither callback of a recital loads or unloads. -/
structure LeavesGraph (s : Recital) : Prop where
  onLine : ∀ behaviour ∈ s.onLine, ∀ call event, (behaviour call event).KeepsGraph
  onEnd : ∀ behaviour ∈ s.onEnd, ∀ call event, (behaviour call event).KeepsGraph

theorem LeavesGraph.of_eq {s t : Recital} (hs : s.LeavesGraph) (hline : t.onLine = s.onLine)
    (hend : t.onEnd = s.onEnd) : t.LeavesGraph :=
  ⟨hline ▸ hs.onLine, hend ▸ hs.onEnd⟩

theorem callLine_of_callback {s : Recital} {behaviour : Behaviour RecitalOp}
    (h : s.onLine = some behaviour) (id : Int) (line : SpokenLine) :
    callLine id line s = runProgram (behaviour s.lineCalls noEvent)
      { s with
        lineCalls := s.lineCalls + 1
        journal.notes := s.journal.notes ++ [.line id line] } := by
  unfold callLine
  split
  · simp_all
  · rename_i callback hcallback
    cases h.symm.trans hcallback
    rfl

theorem callEnd_of_callback {s : Recital} {behaviour : Behaviour RecitalOp}
    (h : s.onEnd = some behaviour) :
    callEnd s = runProgram (behaviour s.endCalls noEvent)
      { s with
        endCalls := s.endCalls + 1
        journal.notes := s.journal.notes ++ [.ended] } := by
  unfold callEnd
  split
  · simp_all
  · rename_i callback hcallback
    cases h.symm.trans hcallback
    rfl

theorem LeavesGraph.callLine {s : Recital} (hs : s.LeavesGraph)
    (hinside : s.playback.advancing = true) (id : Int) (line : SpokenLine) :
    Keeps s (callLine id line s).2 ∧ (callLine id line s).1 ≠ .stalled := by
  cases hcallback : s.onLine with
  | none => simp [Recital.callLine, hcallback, Keeps.mk]
  | some behaviour =>
      rw [callLine_of_callback hcallback]
      obtain ⟨⟨hplayback, honLine, honEnd⟩, houtcome⟩ :=
        keeps_runProgram (hs.onLine behaviour hcallback s.lineCalls noEvent) (s :=
          { s with
            lineCalls := s.lineCalls + 1
            journal.notes := s.journal.notes ++ [.line id line] }) hinside
      exact ⟨⟨hplayback, honLine, honEnd⟩, houtcome⟩

theorem LeavesGraph.callEnd {s : Recital} (hs : s.LeavesGraph)
    (hinside : s.playback.advancing = true) :
    Keeps s (callEnd s).2 ∧ (callEnd s).1 ≠ .stalled := by
  cases hcallback : s.onEnd with
  | none => simp [Recital.callEnd, hcallback, Keeps.mk]
  | some behaviour =>
      rw [callEnd_of_callback hcallback]
      obtain ⟨⟨hplayback, honLine, honEnd⟩, houtcome⟩ :=
        keeps_runProgram (hs.onEnd behaviour hcallback s.endCalls noEvent) (s :=
          { s with
            endCalls := s.endCalls + 1
            journal.notes := s.journal.notes ++ [.ended] }) hinside
      exact ⟨⟨hplayback, honLine, honEnd⟩, houtcome⟩

theorem Inside.advancing {s u : Recital} (hs : s.LeavesGraph) (h : Inside s u) :
    u.playback.advancing = true := by
  cases h with
  | line hcurrent hline hcallback h =>
      rw [(h.keeps (hs.onLine _ hcallback _ _) rfl).playback]
      rfl
  | ending hcurrent hcallback h =>
      rw [(h.keeps (hs.onEnd _ hcallback _ _) rfl).playback]
      rfl

/-! ## A step -/

/-- A step that is not inside another ends as what it does ends, and is over then. -/
theorem operate_advance_of_idle {s : Recital} (hidle : s.playback.advancing = false) :
    operate .advance s =
      match Playback.step s.callbacks { s with playback.advancing := true } with
      | (.returned executed, t) =>
        (.returned (.bool executed), { t with playback.advancing := false })
      | (.failed e, t) => (.failed e, { t with playback.advancing := false })
      | (.aborted, t) => (.aborted, { t with playback.advancing := false })
      | (.stalled, t) => (.stalled, { t with playback.advancing := false }) := by
  rcases hstep : Playback.step s.callbacks { s with playback.advancing := true } with ⟨outcome, t⟩
  cases outcome <;>
    simp [operate, perform, Playback.advance, Act.bind_apply, hidle, hstep, Playback.setAdvancing]

theorem step_of_line {s : Recital} {record : Record} {line : SpokenLine}
    (hcurrent : s.playback.current? = some record) (hline : record.playableLine? = some line) :
    Playback.step s.callbacks { s with playback.advancing := true } =
      match callLine record.id line (s.atLine line) with
      | (.returned (), t) =>
        (.returned true,
          { t with playback := { t.playback with cursor := record.successor, state := .active } })
      | (.failed e, t) => (.failed e, t)
      | (.aborted, t) => (.aborted, t)
      | (.stalled, t) => (.stalled, t) := by
  have hcurrent' : ({ s.playback with advancing := true } : Playback).current? = some record :=
    hcurrent
  rcases hcall : callLine record.id line (s.atLine line) with ⟨outcome, t⟩
  cases outcome <;> cases hlog : s.logLines <;>
    simp_all [Playback.step, Playback.execute, Act.bind_apply, Journal.report, callbacks, atLine]

theorem step_of_unsupported {s : Recital} {record : Record}
    (hcurrent : s.playback.current? = some record) (hline : record.playableLine? = none) :
    Playback.step s.callbacks { s with playback.advancing := true } =
      (.failed (.unsupportedKind (.text record.recordClass.name)),
        { s with playback.advancing := true }) := by
  have hcurrent' : ({ s.playback with advancing := true } : Playback).current? = some record :=
    hcurrent
  simp [Playback.step, Playback.execute, Act.bind_apply, hcurrent', hline]

theorem step_of_none {s : Recital} (hcurrent : s.playback.current? = none) :
    Playback.step s.callbacks { s with playback.advancing := true } =
      match callEnd s.atEnd with
      | (.returned (), t) => (.returned false, t)
      | (.failed e, t) => (.failed e, t)
      | (.aborted, t) => (.aborted, t)
      | (.stalled, t) => (.stalled, t) := by
  have hcurrent' : ({ s.playback with advancing := true } : Playback).current? = none := hcurrent
  rcases hcall : callEnd s.atEnd with ⟨outcome, t⟩
  have hcall' : callEnd { s with
      playback.state := .terminated
      playback.advancing := true
      journal.log := s.journal.log ++ [Playback.ended] } = (outcome, t) := hcall
  cases outcome <;>
    simp [Playback.step, Playback.terminate, Act.bind_apply, hcurrent', Journal.report, callbacks,
      hcall']

theorem steps_of_none {s : Recital} (hs : s.LeavesGraph) (hidle : s.playback.advancing = false)
    (hcurrent : s.playback.current? = none) :
    Steps s (operate .advance s).1 (operate .advance s).2 ∧ (operate .advance s).2.LeavesGraph := by
  obtain ⟨hkeeps, houtcome⟩ := LeavesGraph.callEnd (s := s.atEnd) ⟨hs.onLine, hs.onEnd⟩ rfl
  rcases hcall : callEnd s.atEnd with ⟨outcome, t⟩
  rw [hcall] at hkeeps houtcome
  obtain ⟨honLine, honEnd⟩ := hs.of_eq hkeeps.onLine hkeeps.onEnd
  have hleft : { t.playback with advancing := false } =
      { s.playback with state := .terminated } := by
    rw [hkeeps.playback, ← hidle]
    rfl
  rw [operate_advance_of_idle hidle, step_of_none hcurrent, hcall]
  cases outcome with
  | returned _ => exact ⟨.ended hcurrent (by rw [hcall]) hleft, honLine, honEnd⟩
  | failed e => exact ⟨.endFailed hcurrent (by rw [hcall]) hleft, honLine, honEnd⟩
  | aborted => exact ⟨.endAborted hcurrent (by rw [hcall]) hleft, honLine, honEnd⟩
  | stalled => exact absurd rfl houtcome

theorem steps_of_line {s : Recital} (hs : s.LeavesGraph) (hidle : s.playback.advancing = false)
    {record : Record} {line : SpokenLine} (hcurrent : s.playback.current? = some record)
    (hline : record.playableLine? = some line) :
    Steps s (operate .advance s).1 (operate .advance s).2 ∧ (operate .advance s).2.LeavesGraph := by
  obtain ⟨hkeeps, houtcome⟩ := LeavesGraph.callLine (s := s.atLine line) ⟨hs.onLine, hs.onEnd⟩ rfl
    record.id line
  rcases hcall : callLine record.id line (s.atLine line) with ⟨outcome, t⟩
  rw [hcall] at hkeeps houtcome
  obtain ⟨honLine, honEnd⟩ := hs.of_eq hkeeps.onLine hkeeps.onEnd
  have hleft : { t.playback with advancing := false } = s.playback := by
    rw [hkeeps.playback, ← hidle]
    rfl
  have hmoved : { t.playback with
      cursor := record.successor, state := .active, advancing := false } =
      { s.playback with cursor := record.successor, state := .active } := by
    rw [← hleft]
  rw [operate_advance_of_idle hidle, step_of_line hcurrent hline, hcall]
  cases outcome with
  | returned _ => exact ⟨.executed hcurrent hline (by rw [hcall]) hmoved, honLine, honEnd⟩
  | failed e => exact ⟨.lineFailed hcurrent hline (by rw [hcall]) hleft, honLine, honEnd⟩
  | aborted => exact ⟨.lineAborted hcurrent hline (by rw [hcall]) hleft, honLine, honEnd⟩
  | stalled => exact absurd rfl houtcome

/-- Nothing but the callbacks and the kind of the record under the cursor decides how a step from
outside ends: it is not refused. -/
theorem steps_advance {s : Recital} (hs : s.LeavesGraph) (hidle : s.playback.advancing = false) :
    Steps s (operate .advance s).1 (operate .advance s).2 ∧ (operate .advance s).2.LeavesGraph := by
  cases hcurrent : s.playback.current? with
  | none => exact steps_of_none hs hidle hcurrent
  | some record =>
      cases hline : record.playableLine? with
      | none =>
          rw [operate_advance_of_idle hidle, step_of_unsupported hcurrent hline]
          have hleft : { s.playback with advancing := false } = s.playback := by rw [← hidle]
          exact ⟨.unsupported hcurrent hline hleft, hs.onLine, hs.onEnd⟩
      | some line => exact steps_of_line hs hidle hcurrent hline

/-! ## Runs -/

/-- The recital after several operations from outside, however each of them ends. -/
def performed (s : Recital) (ops : List RecitalOp) : Recital :=
  ops.foldl (fun s op ↦ (operate op s).2) s

/-- The graph that is loaded after several operations. -/
def graphAfter : List RecitalOp → Option CompiledGraph :=
  List.foldl (fun graph? op ↦
    match op with
    | .load graph => some graph
    | .unload => none
    | .advance => graph?) none

/-- What the fields of a playback say of one another between operations. -/
structure IsSettled (graph? : Option CompiledGraph) (p : Playback) : Prop where
  idle : p.advancing = false
  table : p.table = (graph?.map fun graph ↦ Playback.tableOf graph.records).getD []
  unloaded : p.state = .unloaded → p.table = [] ∧ p.cursor = noId
  loaded : p.state = .loaded → ∃ graph, graph? = some graph ∧ p.cursor = graph.entry
  terminated : p.state = .terminated → ∀ record ∈ p.table, record.id ≠ p.cursor

theorem isSettled_empty : IsSettled none {} where
  idle := rfl
  table := rfl
  unloaded _ := ⟨rfl, rfl⟩
  loaded := nofun
  terminated := nofun

theorem IsSettled.load {graph? : Option CompiledGraph} {p : Playback} (hp : IsSettled graph? p)
    (graph : CompiledGraph) :
    IsSettled (some graph)
      { p with
        table := Playback.tableOf graph.records
        cursor := graph.entry
        state := .loaded } where
  idle := hp.idle
  table := rfl
  unloaded := nofun
  loaded _ := ⟨graph, rfl, rfl⟩
  terminated := nofun

theorem IsSettled.unload {graph? : Option CompiledGraph} {p : Playback} (hp : IsSettled graph? p) :
    IsSettled none { p with table := [], cursor := noId, state := .unloaded } where
  idle := hp.idle
  table := rfl
  unloaded _ := ⟨rfl, rfl⟩
  loaded := nofun
  terminated := nofun

/-- A step keeps the relations between the fields of a playback. -/
theorem IsSettled.of_steps {graph? : Option CompiledGraph} {s t : Recital} {outcome : Outcome Value}
    (hs : IsSettled graph? s.playback) (h : Steps s outcome t) : IsSettled graph? t.playback := by
  have hended (hcurrent : s.playback.current? = none)
      (hleft : t.playback = { s.playback with state := .terminated }) :
      IsSettled graph? t.playback := by
    rw [hleft]
    refine ⟨hs.idle, hs.table, nofun, nofun, fun _ record hrecord ↦ ?_⟩
    simpa using List.find?_eq_none.mp hcurrent record hrecord
  cases h with
  | executed _ _ _ hleft =>
      rw [hleft]
      exact ⟨hs.idle, hs.table, nofun, nofun, nofun⟩
  | unsupported _ _ hleft => exact hleft ▸ hs
  | lineFailed _ _ _ hleft => exact hleft ▸ hs
  | lineAborted _ _ _ hleft => exact hleft ▸ hs
  | ended hcurrent _ hleft => exact hended hcurrent hleft
  | endFailed hcurrent _ hleft => exact hended hcurrent hleft
  | endAborted hcurrent _ hleft => exact hended hcurrent hleft

/-- A playback that has terminated stays so in a step. -/
theorem Steps.terminated {s t : Recital} {outcome : Outcome Value} {graph? : Option CompiledGraph}
    (h : Steps s outcome t) (hs : IsSettled graph? s.playback)
    (hterminated : s.playback.state = .terminated) : t.playback.state = .terminated := by
  cases h with
  | executed hcurrent _ _ _ =>
      have hfound := List.find?_some hcurrent
      exact absurd (by simpa using hfound)
        (hs.terminated hterminated _ (List.mem_of_find?_eq_some hcurrent))
  | unsupported _ _ hleft => rw [hleft, hterminated]
  | lineFailed _ _ _ hleft => rw [hleft, hterminated]
  | lineAborted _ _ _ hleft => rw [hleft, hterminated]
  | ended _ _ hleft => rw [hleft]
  | endFailed _ _ hleft => rw [hleft]
  | endAborted _ _ hleft => rw [hleft]

theorem isSettled_performed {s : Recital} (hfresh : s.playback = {}) (hs : s.LeavesGraph)
    (ops : List RecitalOp) :
    IsSettled (graphAfter ops) (s.performed ops).playback ∧ (s.performed ops).LeavesGraph := by
  induction ops using List.reverseRecOn with
  | nil => exact ⟨hfresh ▸ isSettled_empty, hs⟩
  | append_singleton ops op ih =>
      obtain ⟨hsettled, hleaves⟩ := ih
      rw [performed, graphAfter, List.foldl_append, List.foldl_append]
      cases op with
      | load graph => exact ⟨hsettled.load graph, hleaves.onLine, hleaves.onEnd⟩
      | unload => exact ⟨hsettled.unload, hleaves.onLine, hleaves.onEnd⟩
      | advance =>
          obtain ⟨hsteps, hleaves'⟩ := steps_advance hleaves hsettled.idle
          exact ⟨hsettled.of_steps hsteps, hleaves'⟩

/-- The lifecycle of a playback whose callbacks neither load nor unload, after any operations.  Its
fields are settled.  The next step from outside ends in one of the ways in which steps end, none of
which is a refusal: where a kind without executor or a line callback cuts it off, it leaves the
playback as it was, and where an end callback does, it leaves the playback terminated.  A step keeps
a terminated playback terminated.  And every step from inside the callback of that step is refused
and changes nothing. -/
theorem performed_follows_lifecycle {s : Recital} (hfresh : s.playback = {}) (hs : s.LeavesGraph)
    (ops : List RecitalOp) :
    IsSettled (graphAfter ops) (s.performed ops).playback ∧
      Steps (s.performed ops) (operate .advance (s.performed ops)).1
        (s.performed (ops ++ [.advance])) ∧
      ((s.performed ops).playback.state = .terminated →
        (s.performed (ops ++ [.advance])).playback.state = .terminated) ∧
      ∀ u, Inside (s.performed ops) u → ∀ callbacks,
        perform callbacks .advance u = (.failed Failure.alreadyAdvancing, u) := by
  obtain ⟨hsettled, hleaves⟩ := isSettled_performed hfresh hs ops
  have hnext : s.performed (ops ++ [.advance]) = (operate .advance (s.performed ops)).2 := by
    rw [performed, List.foldl_append]
    rfl
  rw [hnext]
  obtain ⟨hsteps, -⟩ := steps_advance hleaves hsettled.idle
  refine ⟨hsettled, hsteps, hsteps.terminated hsettled, fun u hu callbacks ↦ ?_⟩
  exact perform_advance_of_advancing (hu.advancing hleaves) callbacks

/-- A recital whose line callback fails on its first call and steps on all others, and whose end
callback fails with the refusal of the step that it tries. -/
def restless : Recital where
  onLine := some fun call _ ↦
    if call = 0 then .fail (.alarm "not yet") else .perform .advance fun _ ↦ .done
  onEnd := some fun _ _ ↦ .perform .advance fun
    | .ok _ => .done
    | .error e => .fail e

theorem leavesGraph_restless : restless.LeavesGraph where
  onLine := by
    rintro _ ⟨⟩ call event
    by_cases hfirst : call = 0
    · simpa only [hfirst, if_true] using .fail
    · simpa only [hfirst, if_false] using .advance fun _ ↦ .done
  onEnd := by
    rintro _ ⟨⟩ call event
    refine .advance fun answer ↦ ?_
    cases answer with
    | ok _ => exact .done
    | error _ => exact .fail

theorem performed_follows_lifecycle_of_restless :
    IsSettled (some ⟨0, [guardLine 0 noId]⟩)
        (restless.performed
          [.load ⟨0, [guardLine 0 noId]⟩, .advance, .advance, .advance]).playback ∧
      (restless.performed
        [.load ⟨0, [guardLine 0 noId]⟩, .advance, .advance, .advance]).playback =
        { table := [guardLine 0 noId], cursor := noId, state := .terminated } ∧
      (operate .advance (restless.performed [.load ⟨0, [guardLine 0 noId]⟩])).1 =
        .failed (.alarm "not yet") ∧
      (restless.performed [.load ⟨0, [guardLine 0 noId]⟩, .advance]).playback =
        { table := [guardLine 0 noId], cursor := 0, state := .loaded } :=
  ⟨(performed_follows_lifecycle rfl leavesGraph_restless
    [.load ⟨0, [guardLine 0 noId]⟩, .advance, .advance, .advance]).1, by decide +kernel, rfl,
    by decide +kernel⟩

end Recital

end LinearDialogue
