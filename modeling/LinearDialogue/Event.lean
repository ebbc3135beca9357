import LinearDialogue.Action
import LinearDialogue.Compiled.Record
import LinearDialogue.Issue

/-!
# Events

The events that the parts of the engine tell each other, with their types and the data they carry.
-/

namespace LinearDialogue

inductive EventType
  | voiceStarted
  | voiceStopped
  | dialogStarted
  | dialogEnded
  | nodeEntered
  | lineShown
  | actionPressed
  | actionReleased
  | gamepadConnected
  | gamepadDisconnected
  | graphValidated
  | graphImported
  | importFailed
  deriving DecidableEq

namespace EventType

/-- All types, group by group. -/
def all : List EventType :=
  [.voiceStarted, .voiceStopped, .dialogStarted, .dialogEnded, .nodeEntered, .lineShown,
    .actionPressed, .actionReleased, .gamepadConnected, .gamepadDisconnected, .graphValidated,
    .graphImported, .importFailed]

/-- The name of a type, after the name of its group. -/
def name : EventType → String
  | .voiceStarted => "AudioEvent.VOICE_STARTED"
  | .voiceStopped => "AudioEvent.VOICE_STOPPED"
  | .dialogStarted => "UIEvent.DIALOG_STARTED"
  | .dialogEnded => "UIEvent.DIALOG_ENDED"
  | .nodeEntered => "DialogueEvent.NODE_ENTERED"
  | .lineShown => "DialogueEvent.LINE_SHOWN"
  | .actionPressed => "InputEvent.ACTION_PRESSED"
  | .actionReleased => "InputEvent.ACTION_RELEASED"
  | .gamepadConnected => "InputEvent.GAMEPAD_CONNECTED"
  | .gamepadDisconnected => "InputEvent.GAMEPAD_DISCONNECTED"
  | .graphValidated => "EditorEvent.GRAPH_VALIDATED"
  | .graphImported => "EditorEvent.GRAPH_IMPORTED"
  | .importFailed => "EditorEvent.IMPORT_FAILED"

def ofName? (name : String) : Option EventType := all.find? fun t => t.name == name

end EventType

inductive Payload
  | value (v : Value)
  | action (action : Action)
  | texts (texts : List String)
  | issues (issues : List Issue)
  | graph (graph : CompiledGraph)
  deriving DecidableEq

/-- An event: its type, its data by name, and whether a handler has consumed it, which is a truth
value as a rule. -/
structure Event where
  type : EventType
  data : List (String × Payload) := []
  consumed : Value := .bool false
  deriving DecidableEq

namespace Event

/-- The names that no data can have when it is published by name. -/
def reservedNames : List String := ["self", "event_type"]

def ofNamed (type : EventType) (data : List (String × Payload)) : Except Failure Event :=
  if data.any fun entry => reservedNames.contains entry.1 then .error .wrongType
  else .ok { type, data }

def find? (event : Event) (name : String) : Option Payload :=
  (event.data.find? fun entry => entry.1 == name).map (·.2)

/-- The data under a name, or null. -/
def get (event : Event) (name : String) : Payload := (event.find? name).getD (.value .null)

/-- The data under a key, which is found only if it is a name. -/
def lookup (event : Event) (key : Value) : Except Failure (Option Payload) :=
  match key with
  | .text name => .ok (event.find? name)
  | _ => if key.isKey then .ok none else .error .wrongType

/-- The data under a key, or a default. -/
def getAt (event : Event) (key : Value) (default : Payload) : Except Failure Payload := do
  return (← event.lookup key).getD default

def require (event : Event) (key : Value) : Except Failure Payload := do
  match ← event.lookup key with
  | some payload => return payload
  | none => .error (.missingKey key)

def consume (event : Event) : Event := { event with consumed := .bool true }

def isConsumed (event : Event) : Bool := event.consumed.isTruthy

end Event

end LinearDialogue
