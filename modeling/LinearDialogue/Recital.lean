import LinearDialogue.Playback
import LinearDialogue.Program

/-!
# Recitals

A playback on its own, whose callbacks are programs that may use the playback themselves.
-/

namespace LinearDialogue

/-- The operations on a recital that callbacks can use too. -/
inductive RecitalOp
  | load (graph : CompiledGraph)
  | unload
  | advance

/-- A callback, which notes its calls; a recital may have none for a purpose. -/
abbrev RecitalCallback : Type := Option (Behaviour RecitalOp)

structure Recital where
  playback : Playback := {}
  onLine : RecitalCallback := none
  onEnd : RecitalCallback := none
  logLines : Bool := true
  /-- How often each callback has been called. -/
  lineCalls : Nat := 0
  endCalls : Nat := 0
  journal : Journal := {}

namespace Recital

instance : Part Playback Recital where
  get s := s.playback
  set playback s := { s with playback }
  get_set _ _ := rfl
  set_get _ := rfl
  set_set _ _ _ := rfl

instance : Part Journal Recital where
  get s := s.journal
  set journal s := { s with journal }
  get_set _ _ := rfl
  set_get _ := rfl
  set_set _ _ _ := rfl

@[simp] theorem get_playback (s : Recital) : (Part.get s : Playback) = s.playback := rfl

@[simp] theorem set_playback (p : Playback) (s : Recital) :
    Part.set p s = { s with playback := p } := rfl

@[simp] theorem get_journal (s : Recital) : (Part.get s : Journal) = s.journal := rfl

@[simp] theorem set_journal (j : Journal) (s : Recital) :
    Part.set j s = { s with journal := j } := rfl

/-- The callbacks that do nothing, for steps that are refused anyway. -/
def silent : Playback.Callbacks Recital := ⟨fun _ _ => pure (), pure (), false⟩

/-- Perform an operation; `callbacks` are those of a step. -/
def perform (callbacks : Playback.Callbacks Recital) : RecitalOp → Act Recital Value
  | .load graph => do
    Playback.load graph
    return .null
  | .unload => do
    Playback.unload
    return .null
  | .advance => do
    let executed ← Playback.advance callbacks
    return .bool executed

/-- Run the program of a callback.  Callbacks run inside a step only, where further steps are
refused, so no callback is called from within. -/
def runProgram (program : Program RecitalOp) : Act Recital Unit :=
  program.run (perform silent) (Act.fail .lacksOperation)

def noEvent : Event := { type := .lineShown }

def callLine (id : Int) (line : SpokenLine) : Act Recital Unit := fun s =>
  match s.onLine with
  | none => (.returned (), s)
  | some behaviour =>
    (do
      Journal.note (.line id line)
      runProgram (behaviour s.lineCalls noEvent) : Act Recital Unit)
      { s with lineCalls := s.lineCalls + 1 }

def callEnd : Act Recital Unit := fun s =>
  match s.onEnd with
  | none => (.returned (), s)
  | some behaviour =>
    (do
      Journal.note .ended
      runProgram (behaviour s.endCalls noEvent) : Act Recital Unit)
      { s with endCalls := s.endCalls + 1 }

def callbacks (s : Recital) : Playback.Callbacks Recital := ⟨callLine, callEnd, s.logLines⟩

/-- Perform an operation from outside. -/
def operate (op : RecitalOp) : Act Recital Value := fun s => perform s.callbacks op s

end Recital

end LinearDialogue
