import LinearDialogue.Compiled.Problem
import LinearDialogue.Issue
import LinearDialogue.Json.Fault

/-!
# Failures

Every way in which an operation can refuse, by its cause.  The wording is one function of the
cause.
-/

namespace LinearDialogue

inductive BadArgument
  | duplicateNode (id : Value)
  | unknownEndpoint (source target : Value)
  | pointMissing (className : String) (point : Point)
  | foreignNode (id : Value)
  | unknownAction (name : String)
  | unknownInvariant (name : Value)
  | noNumber (text : String)
  | emptyFileName (path : String)
  | nullInPath
  deriving DecidableEq

def BadArgument.message : BadArgument → String
  | .duplicateNode id => "Duplicate node id: " ++ id.plain
  | .unknownEndpoint source target =>
    "Edge references unknown node: " ++ source.plain ++ " -> " ++ target.plain
  | .pointMissing className point => className ++ " has no " ++ point.name ++ " point"
  | .foreignNode id => "Node " ++ id.plain ++ " is not part of this graph"
  | .unknownAction name => "Unknown action: " ++ name
  | .unknownInvariant name => name.shown ++ " is not a valid Invariant"
  | .noNumber text => "could not convert string to float: " ++ Text.quoted text
  | .emptyFileName path => "PosixPath(" ++ Text.quoted path ++ ") has an empty name"
  | .nullInPath => "embedded null byte"

inductive FileFault
  | notFound
  | exists
  | notDirectory
  | isDirectory
  | nameTooLong
  deriving DecidableEq

def FileFault.description : FileFault → String
  | .notFound => "[Errno 2] No such file or directory"
  | .exists => "[Errno 17] File exists"
  | .notDirectory => "[Errno 20] Not a directory"
  | .isDirectory => "[Errno 21] Is a directory"
  | .nameTooLong => "[Errno 36] File name too long"

inductive Failure
  /-- A node or record of a kind that the operation does not know. -/
  | unsupportedKind (kind : Value)
  /-- A step of playback was asked for while another was going on. -/
  | reentrantAdvance (details : List Value)
  /-- A document that is no compiled graph. -/
  | badFormat (details : List Value)
  /-- A document of the right shape with a record whose fields are wrong. -/
  | badRecord (className : String) (problems : List Problem)
  /-- An import of a graph with validation issues. -/
  | validation (name : Value) (issues : List Issue)
  /-- Lines that lead back to themselves. -/
  | cycle (name : Value) (cycle : List Value)
  /-- A dialogue failure with no more exact cause. -/
  | general (details : List Value)
  /-- A record or compiled graph cannot be made of the given fields. -/
  | badFields (className : String) (problems : List Problem)
  /-- A record class without a kind tag cannot be registered. -/
  | untagged (className : String)
  | badJson (fault : Json.Fault)
  | badArgument (argument : BadArgument)
  | missingKey (key : Value)
  /-- A handler or callback raised an alarm of its own. -/
  | alarm (message : String)
  /-- An operation on objects or text was tried on another value. -/
  | lacksOperation
  /-- A value of a type that cannot be used in this place. -/
  | wrongType
  | numberTooLarge
  | undecodableBytes
  | file (fault : FileFault) (path : String)
  deriving DecidableEq

namespace Failure

/-- One detail is shown plainly, several in a row between parentheses. -/
def detailsText : List Value → String
  | [] => ""
  | [detail] => detail.plain
  | details => Value.shownRow details

def alreadyAdvancing : Failure :=
  .reentrantAdvance [.text "advance() called while already advancing"]

def message : Failure → String
  | .unsupportedKind kind => kind.plain ++ " is not supported."
  | .reentrantAdvance details | .badFormat details | .general details => detailsText details
  | .badRecord className problems | .badFields className problems =>
    Problem.headline className problems
  | .validation name issues =>
    "[" ++ name.plain ++ "] graph has " ++ toString issues.length ++ " validation issue(s)"
  | .cycle name ids =>
    "'" ++ name.plain ++ "' compiles to a cycle: " ++
      String.intercalate " -> " ((ids ++ ids.take 1).map Value.plain)
  | .untagged className => className ++ " must declare a default kind tag"
  | .badJson fault => fault.message
  | .badArgument argument => argument.message
  | .missingKey key => key.shown
  | .alarm message => message
  | .file fault path => fault.description ++ ": " ++ Text.quoted path
  | .lacksOperation => "the value lacks the operation"
  | .wrongType => "the value has the wrong type"
  | .numberTooLarge => "the number is too large"
  | .undecodableBytes => "the bytes are no text"

/-- Is the cause one of dialogues, and not of values or files? -/
def isDialogueFailure : Failure → Bool
  | .unsupportedKind _ | .reentrantAdvance _ | .badFormat _ | .badRecord .. | .validation .. |
    .cycle .. | .general _ => true
  | _ => false

end Failure

/-- Two operations in turn succeed when the second does on the result of the first. -/
theorem bind_eq_ok_iff {α β : Type} {m : Except Failure α} {f : α → Except Failure β} {b : β} :
    m >>= f = .ok b ↔ ∃ a, m = .ok a ∧ f a = .ok b := by
  cases m <;> simp [bind, Except.bind]

theorem bind_eq_error_iff {α β : Type} {m : Except Failure α} {f : α → Except Failure β}
    {e : Failure} : m >>= f = .error e ↔ m = .error e ∨ ∃ a, m = .ok a ∧ f a = .error e := by
  cases m <;> simp [bind, Except.bind]

end LinearDialogue
