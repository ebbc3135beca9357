import LinearDialogue.Event
import LinearDialogue.Log

/-!
# The journal

What can be observed of a running engine beside the results of its operations: log entries, and
notes about everything that reaches the outside, in the order in which it happens.
-/

namespace LinearDialogue

inductive MixerCall
  | init (frequency size channels buffer : Value)
  | quit
  | setChannelCount (count : Nat)
  | reserve (count : Nat)
  | channel (index : Nat)
  | load (path : String)
  | setVolume (volume : Binary64)
  | play (path : String)
  | stop

inductive VoiceRequest
  | play (handle category : String) (volume : Binary64)
  | stop

inductive Note
  /-- A line callback was called. -/
  | line (id : Int) (line : SpokenLine)
  /-- An end callback was called. -/
  | ended
  /-- An observer received an event. -/
  | event (event : Event)
  /-- A handler was called. -/
  | call (handler : String) (event : Event)
  /-- A handler tried an operation. -/
  | attempt (result : Except Failure Value)
  | mixer (call : MixerCall)
  | voice (request : VoiceRequest)

/-- Log entries and notes, oldest first. -/
structure Journal where
  log : List LogEntry := []
  notes : List Note := []

end LinearDialogue
