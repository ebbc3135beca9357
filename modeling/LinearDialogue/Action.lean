import LinearDialogue.Failure
import LinearDialogue.Text.Uppercase

/-!
# Actions

What a player means by an input, whatever the key: actions have names, which are found without
regard to case.
-/

namespace LinearDialogue

inductive Action
  | confirm
  | cancel
  | menuUp
  | menuDown
  | pause
  | skip
  deriving DecidableEq

namespace Action

/-- All actions, in the order in which bindings list them. -/
def all : List Action := [.confirm, .cancel, .menuUp, .menuDown, .pause, .skip]

def name : Action → String
  | .confirm => "CONFIRM"
  | .cancel => "CANCEL"
  | .menuUp => "MENU_UP"
  | .menuDown => "MENU_DOWN"
  | .pause => "PAUSE"
  | .skip => "SKIP"

/-- The action of a name, in any case. -/
def ofName (text : String) : Except Failure Action :=
  match (Text.asciiUpperText? text).bind fun upper => all.find? fun action => action.name == upper
  with
  | some action => .ok action
  | none => .error (.badArgument (.unknownAction text))

def ofValue : Value → Except Failure Action
  | .text s => ofName s
  | _ => .error .lacksOperation

end Action

end LinearDialogue
