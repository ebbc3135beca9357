import LinearDialogue.Journal

/-!
# Acts

An act works on a state and either returns a result, fails, or is aborted.  What it did to the
state before it failed stays done.  A failure can be caught, an abortion cannot.  A run that its
bound does not suffice for is stalled, which is no outcome that anything can catch either.

Acts of one part of the engine run on every state that has such a part.
-/

namespace LinearDialogue

/-- How an act ends. -/
inductive Outcome (α : Type)
  | returned (result : α)
  | failed (failure : Failure)
  | aborted
  | stalled

/-- An act on states of type `σ` with results of type `α`. -/
def Act (σ α : Type) : Type := σ → Outcome α × σ

namespace Act

variable {σ α β : Type}

def result (a : α) : Act σ α := fun s => (.returned a, s)

def andThen (m : Act σ α) (f : α → Act σ β) : Act σ β := fun s =>
  match m s with
  | (.returned a, s) => f a s
  | (.failed e, s) => (.failed e, s)
  | (.aborted, s) => (.aborted, s)
  | (.stalled, s) => (.stalled, s)

instance : Monad (Act σ) where
  pure := result
  bind := andThen

def fail (failure : Failure) : Act σ α := fun s => (.failed failure, s)

def abort : Act σ α := fun s => (.aborted, s)

def stall : Act σ α := fun s => (.stalled, s)

/-- Return a result, or fail as it says. -/
def ofExcept : Except Failure α → Act σ α
  | .ok a => result a
  | .error e => fail e

def attempt (m : Act σ α) : Act σ (Except Failure α) := fun s =>
  match m s with
  | (.returned a, s) => (.returned (.ok a), s)
  | (.failed e, s) => (.returned (.error e), s)
  | (.aborted, s) => (.aborted, s)
  | (.stalled, s) => (.stalled, s)

/-- Change the state after an act, however the act ends. -/
def ensure (m : Act σ α) (cleanup : σ → σ) : Act σ α := fun s =>
  let (outcome, s) := m s
  (outcome, cleanup s)

@[simp] theorem pure_apply (a : α) (s : σ) : (pure a : Act σ α) s = (.returned a, s) := rfl

@[simp] theorem fail_apply (e : Failure) (s : σ) : (fail e : Act σ α) s = (.failed e, s) := rfl

@[simp] theorem abort_apply (s : σ) : (abort : Act σ α) s = (.aborted, s) := rfl

@[simp] theorem stall_apply (s : σ) : (stall : Act σ α) s = (.stalled, s) := rfl

theorem bind_apply (m : Act σ α) (f : α → Act σ β) (s : σ) :
    (m >>= f) s =
      match m s with
      | (.returned a, s) => f a s
      | (.failed e, s) => (.failed e, s)
      | (.aborted, s) => (.aborted, s)
      | (.stalled, s) => (.stalled, s) := rfl

theorem bind_of_returned {m : Act σ α} {s t : σ} {a : α} (h : m s = (.returned a, t))
    (f : α → Act σ β) : (m >>= f) s = f a t := by
  rw [bind_apply, h]

theorem bind_of_failed {m : Act σ α} {s t : σ} {e : Failure} (h : m s = (.failed e, t))
    (f : α → Act σ β) : (m >>= f) s = (.failed e, t) := by
  rw [bind_apply, h]

theorem attempt_apply (m : Act σ α) (s : σ) :
    m.attempt s =
      match m s with
      | (.returned a, s) => (.returned (.ok a), s)
      | (.failed e, s) => (.returned (.error e), s)
      | (.aborted, s) => (.aborted, s)
      | (.stalled, s) => (.stalled, s) := rfl

@[simp] theorem ensure_apply (m : Act σ α) (cleanup : σ → σ) (s : σ) :
    m.ensure cleanup s = ((m s).1, cleanup (m s).2) := rfl

end Act

/-- A state of type `σ` has a part of type `τ`. -/
class Part (τ σ : Type) where
  get : σ → τ
  set : τ → σ → σ
  get_set : ∀ (t : τ) (s : σ), get (set t s) = t
  set_get : ∀ s : σ, set (get s) s = s
  set_set : ∀ (t u : τ) (s : σ), set u (set t s) = set u s

namespace Part

variable {τ σ : Type} [Part τ σ]

def read (τ : Type) [Part τ σ] : Act σ τ := fun s => (.returned (get s), s)

def update (τ : Type) [Part τ σ] (f : τ → τ) : Act σ Unit := fun s =>
  (.returned (), set (f (get s)) s)

@[simp] theorem read_apply (s : σ) : (read τ : Act σ τ) s = (.returned (get s), s) := rfl

@[simp] theorem update_apply (f : τ → τ) (s : σ) :
    (update τ f : Act σ Unit) s = (.returned (), set (f (get s)) s) := rfl

end Part

namespace Journal

variable {σ : Type} [Part Journal σ]

def report (entry : LogEntry) : Act σ Unit :=
  Part.update Journal fun j => { j with log := j.log ++ [entry] }

def note (note : Note) : Act σ Unit :=
  Part.update Journal fun j => { j with notes := j.notes ++ [note] }

def logged {α : Type} (m : Logged α) : Act σ α := do
  Part.update Journal fun j => { j with log := j.log ++ m.log }
  Act.ofExcept m.result

end Journal

end LinearDialogue
