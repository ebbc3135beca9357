import LinearDialogue.Value.Text

/-!
# Validation issues

What validation finds in an authored graph, and the line in which an issue is reported.
-/

namespace LinearDialogue

inductive Invariant
  | singleConnection
  | entryExitCardinality
  deriving DecidableEq

def Invariant.name : Invariant → String
  | .singleConnection => "single_connection"
  | .entryExitCardinality => "entry_exit_cardinality"

def Invariant.ofName? (name : String) : Option Invariant :=
  [Invariant.singleConnection, .entryExitCardinality].find? fun i => i.name == name

inductive Point
  | input
  | output
  deriving DecidableEq

def Point.name : Point → String
  | .input => "Input"
  | .output => "Output"

/-- A finding: the broken rule, a description, the node and the point where there are such, and
counts for tools. -/
structure Issue where
  invariant : Invariant
  message : String
  node : Option Value
  point : Option String
  counts : List (String × Nat)
  deriving DecidableEq

def Issue.line (issue : Issue) : String :=
  let head := issue.invariant.name ++ ": " ++ issue.message
  let node := (issue.node.map fun id => "node=" ++ id.plain).toList
  let point := (issue.point.map fun name => "port=" ++ name).toList
  String.intercalate " " (head :: node ++ point)

end LinearDialogue
