import LinearDialogue.Authored.Graph

/-!
# Validation

The structural rules of an authored graph: at most one edge at every point, one entry and one exit.
All rules are checked, so that a writer sees every issue at once.
-/

namespace LinearDialogue

def Invariant.ofValue (v : Value) : Except Failure Invariant :=
  let found :=
    match v with
    | .text name => Invariant.ofName? name
    | _ => none
  match found with
  | some invariant => .ok invariant
  | none => .error (.badArgument (.unknownInvariant v))

namespace Graph

/-- The wording of the issue of several edges at a point. -/
def crowdedMessage : Point → String
  | .input => "Node has more than one incoming connection."
  | .output => "Node has more than one outgoing connection."

/-- The issue of a point with a number of edges, if there is one. -/
def checkPointCount (node : Node) (point : Point) (count : Nat) : List Issue :=
  if 1 < count then
    [{ invariant := .singleConnection
       message := crowdedMessage point
       node := node.name?
       point := some point.name
       counts := [("connections", count)] }]
  else []

def checkConnections (g : Graph) (node : Node) : Except Failure (List Issue) := do
  let incoming ← g.inputs node
  let outgoing ← g.outputs node
  return checkPointCount node .input incoming.length ++
    checkPointCount node .output outgoing.length

/-- The issue of a number of nodes of a kind other than one. -/
def checkCardinality (g : Graph) (kind : NodeKind) : List Issue :=
  let count := (g.nodesOfKind kind).length
  if count = 1 then []
  else
    [{ invariant := .entryExitCardinality
       message := "Graph must contain exactly one " ++ kind.tag ++ " node, found " ++
        toString count ++ "."
       node := none
       point := none
       counts := [(kind.tag, count)] }]

/-- All issues of a graph: those at points in the order of the nodes, input before output, then
those of the numbers of entries and exits. -/
def validate (g : Graph) : Except Failure (List Issue) := do
  let atPoints ← g.nodes.mapM g.checkConnections
  return atPoints.flatten ++ g.checkCardinality .entry ++ g.checkCardinality .exit

def isValid (g : Graph) : Except Failure Bool := do
  return (← g.validate).isEmpty

end Graph

end LinearDialogue
