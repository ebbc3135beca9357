import LinearDialogue.Failure

/-!
# Log entries

What operations report beside their results.  A pure operation that reports answers with a
`Logged` result: the entries in order, and a result or a failure, whose entries are kept too.
-/

namespace LinearDialogue

inductive Level
  | debug
  | info
  | warning
  | error
  deriving DecidableEq

def Level.name : Level → String
  | .debug => "DEBUG"
  | .info => "INFO"
  | .warning => "WARNING"
  | .error => "ERROR"

inductive Reporter
  | compiler
  | playback
  | director
  | bus
  | database
  | importer
  | audio
  deriving DecidableEq

def Reporter.name : Reporter → String
  | .compiler => "dialogue.compiler"
  | .playback => "dialogue.interpreter"
  | .director => "dialogue.system"
  | .bus => "engine.core.events"
  | .database => "engine.resources.database"
  | .importer => "editor.importer"
  | .audio => "root"

/-- A log entry; one about a failure that was caught carries it. -/
structure LogEntry where
  level : Level
  reporter : Reporter
  message : String
  failure : Option Failure := none
  deriving DecidableEq

structure Logged (α : Type) where
  log : List LogEntry
  result : Except Failure α

namespace Logged

variable {α β : Type}

/-- Run a second operation on the result of a first. -/
def bind (m : Logged α) (f : α → Logged β) : Logged β :=
  match m.result with
  | .ok a => ⟨m.log ++ (f a).log, (f a).result⟩
  | .error e => ⟨m.log, .error e⟩

instance : Monad Logged where
  pure a := ⟨[], .ok a⟩
  bind := Logged.bind

def ofExcept (result : Except Failure α) : Logged α := ⟨[], result⟩

instance : MonadLift (Except Failure) Logged := ⟨ofExcept⟩

def fail (failure : Failure) : Logged α := ⟨[], .error failure⟩

def report (entry : LogEntry) : Logged Unit := ⟨[entry], .ok ()⟩

@[simp] theorem pure_log (a : α) : (pure a : Logged α).log = [] := rfl

@[simp] theorem pure_result (a : α) : (pure a : Logged α).result = .ok a := rfl

@[simp] theorem bind_of_ok {m : Logged α} {a : α} (h : m.result = .ok a) (f : α → Logged β) :
    (m >>= f) = ⟨m.log ++ (f a).log, (f a).result⟩ := by
  simp [Bind.bind, Logged.bind, h]

@[simp] theorem bind_of_error {m : Logged α} {e : Failure} (h : m.result = .error e)
    (f : α → Logged β) : (m >>= f) = ⟨m.log, .error e⟩ := by
  simp [Bind.bind, Logged.bind, h]

@[simp] theorem ofExcept_result (result : Except Failure α) :
    (ofExcept result).result = result := rfl

@[simp] theorem fail_result (failure : Failure) :
    (fail failure : Logged α).result = .error failure := rfl

theorem result_bind_eq_ok_iff {m : Logged α} {f : α → Logged β} {b : β} :
    (m >>= f).result = .ok b ↔ ∃ a, m.result = .ok a ∧ (f a).result = .ok b := by
  cases h : m.result with
  | ok a => simp [bind_of_ok h]
  | error e => simp [bind_of_error h]

theorem result_bind_eq_error_iff {m : Logged α} {f : α → Logged β} {e : Failure} :
    (m >>= f).result = .error e ↔
      m.result = .error e ∨ ∃ a, m.result = .ok a ∧ (f a).result = .error e := by
  cases h : m.result with
  | ok a => simp [bind_of_ok h]
  | error e' => simp [bind_of_error h]

theorem result_bind_congr {m m' : Logged α} {f f' : α → Logged β} (h : m.result = m'.result)
    (hf : ∀ a, (f a).result = (f' a).result) : (m >>= f).result = (m' >>= f').result := by
  cases hm : m'.result with
  | ok a => rw [bind_of_ok hm, bind_of_ok (h.trans hm), hf]
  | error e => rw [bind_of_error hm, bind_of_error (h.trans hm)]

theorem result_ofExcept_map_bind {γ : Type} (m : Except Failure α) (g : α → β)
    (f : β → Logged γ) :
    (ofExcept (m.map g) >>= f).result = (ofExcept m >>= fun a => f (g a)).result := by
  cases m <;> rfl

end Logged

end LinearDialogue
