import LinearDialogue.Act

/-!
# Programs of handlers

What a handler or a callback does when it is called, as data: operations, each followed by what is
done with its answer.  Running a program performs its operations in turn; whatever it does can
depend on the answers before.

Scripts are the programs that are written down as a list of steps.
-/

namespace LinearDialogue

/-- A program whose operations have the type `ω` and answer with a value or fail. -/
inductive Program (ω : Type)
  | done
  | fail (failure : Failure)
  | abort
  /-- Consume the event at hand. -/
  | consume (next : Program ω)
  | note (item : Note) (next : Program ω)
  | perform (op : ω) (next : Except Failure Value → Program ω)

namespace Program

variable {ω σ : Type} [Part Journal σ]

def run (perform : ω → Act σ Value) (consume : Act σ Unit) : Program ω → Act σ Unit
  | .done => pure ()
  | .fail failure => Act.fail failure
  | .abort => Act.abort
  | .consume next => do
    consume
    run perform consume next
  | .note item next => do
    Journal.note item
    run perform consume next
  | .perform op next => do
    let answer ← (perform op).attempt
    run perform consume (next answer)

end Program

inductive ScriptStep (ω : Type)
  | perform (op : ω)
  | consume
  | fail (failure : Failure)
  | abort
  /-- Do a step and note how it went instead of failing with it. -/
  | attempt (step : ScriptStep ω)

namespace ScriptStep

variable {ω : Type}

/-- The program that does a step and goes on with its outcome. -/
def program : ScriptStep ω → (Except Failure Value → Program ω) → Program ω
  | .perform op, next => .perform op next
  | .consume, next => .consume (next (.ok .null))
  | .fail failure, next => next (.error failure)
  | .abort, _ => .abort
  | .attempt step, next => step.program fun answer => .note (.attempt answer) (next (.ok .null))

/-- The program that does several steps in turn and stops at the first that fails. -/
def programOf : List (ScriptStep ω) → Program ω
  | [] => .done
  | step :: rest =>
    step.program fun
      | .ok _ => programOf rest
      | .error failure => .fail failure

end ScriptStep

/-- What a handler does: the program of each of its calls. -/
abbrev Behaviour (ω : Type) : Type := Nat → Event → Program ω

/-- The behaviour of a script that is done on the first calls only, or on every call. -/
def Behaviour.ofScript {ω : Type} (steps : List (ScriptStep ω)) (limit : Option Nat) :
    Behaviour ω := fun call _ =>
  if limit.all fun n => call < n then ScriptStep.programOf steps else .done

end LinearDialogue
