import LinearDialogue.Authored.Label

/-!
# Authored graphs

What a writer builds: nodes in the order in which they were added, directed edges from output to
input points, and variables.  An entry has an output only, an exit an input only; lines and choices
have both.  Nodes are told apart by their ids, which may be any label that can be a key; edges hold
ids.

Any field of a node can be bound, also those that follow from its kind.  What a binding puts in
their place is kept beside the body of the node, so a node as it was made overrides nothing.  A
graph goes on holding a node under the id that it had when it was added.

Adding a node or an edge is refused where it would break the graph; several edges at one point are
not refused here but reported by validation.
-/

namespace LinearDialogue

/-- The callbacks of a node, or a binding in their place. -/
inductive CallbackField
  | list (callbacks : List Value)
  | bound (binding : Binding)
  deriving DecidableEq

namespace CallbackField

/-- The callbacks; a binding has none to go through. -/
def items : CallbackField → Except Failure (List Value)
  | .list callbacks => .ok callbacks
  | .bound _ => .error .wrongType

/-- The field with one callback more; a binding takes none. -/
def push (callback : Value) : CallbackField → Except Failure CallbackField
  | .list callbacks => .ok (.list (callbacks ++ [callback]))
  | .bound _ => .error .lacksOperation

def isEmpty (field : CallbackField) : Bool := field == .list [] || field == .bound .unbound

end CallbackField

structure LineDraft where
  actor : Binding := .unbound
  audio : Binding := .unbound
  text : Binding := .unbound
  callbacks : CallbackField := .list []
  deriving DecidableEq

/-- The kinds of nodes, with what a node of the kind holds. -/
inductive NodeBody
  | entry
  | exit (callbacks : CallbackField)
  | line (draft : LineDraft)
  | choice
  deriving DecidableEq

/-- Bind a field of a body; a body without the field stays as it is. -/
def NodeBody.bind (field : String) (binding : Binding) : NodeBody → NodeBody
  | .line draft =>
    match field with
    | "actor" => .line { draft with actor := binding }
    | "audio" => .line { draft with audio := binding }
    | "text" => .line { draft with text := binding }
    | "callbacks" => .line { draft with callbacks := .bound binding }
    | _ => .line draft
  | .exit callbacks => if field = "callbacks" then .exit (.bound binding) else .exit callbacks
  | body => body

inductive NodeKind
  | entry
  | exit
  | line
  | choice
  deriving DecidableEq

namespace NodeKind

def tag : NodeKind → String
  | .entry => "entry"
  | .exit => "exit"
  | .line => "line"
  | .choice => "choice"

def className : NodeKind → String
  | .entry => "EntryNode"
  | .exit => "ExitNode"
  | .line => "LineNode"
  | .choice => "AuthoredChoice"

def ofTag? (tag : String) : Option NodeKind :=
  [NodeKind.entry, .exit, .line, .choice].find? fun kind => kind.tag == tag

/-- Has a node of the kind the point? -/
def hasPoint : NodeKind → Point → Bool
  | .entry, .input => false
  | .exit, .output => false
  | _, _ => true

end NodeKind

/-- What has been put in the place of fields that follow from the kind of a node or from its id. -/
structure Overrides where
  tag : Option Label := none
  input : Option Bool := none
  output : Option Bool := none
  /-- The id under which a graph holds the node, if that is no longer its own. -/
  key : Option Label := none
  deriving DecidableEq

structure Node where
  id : Label
  body : NodeBody
  overrides : Overrides := {}
  deriving DecidableEq

namespace Node

def kind (node : Node) : NodeKind :=
  match node.body with
  | .entry => .entry
  | .exit _ => .exit
  | .line _ => .line
  | .choice => .choice

def tag (node : Node) : Label := node.overrides.tag.getD (.plain (.text node.kind.tag))

def hasPoint (node : Node) (point : Point) : Bool :=
  match point with
  | .input => node.overrides.input.getD (node.kind.hasPoint .input)
  | .output => node.overrides.output.getD (node.kind.hasPoint .output)

def key (node : Node) : Label := node.overrides.key.getD node.id

def under (node : Node) (key : Label) : Node :=
  { node with overrides.key := if node.id = key then none else some key }

/-- Is the node an entry or an exit, which have no record? -/
def isBoundary (node : Node) : Bool := node.kind == .entry || node.kind == .exit

/-- The id by which an issue names a node; null is no name. -/
def name? (node : Node) : Option Value :=
  if node.id = .plain .null then none else some node.id.value

/-- Bind a field of a node.  A point is there if anything is bound to its field; a field that nodes
of the kind do not have makes no difference. -/
def bind (node : Node) (field : String) (binding : Binding) : Node :=
  match field with
  | "id" => { node with id := binding.label }
  | "kind" => { node with overrides.tag := some binding.label }
  | "has_input" => { node with overrides.input := some (binding != .unbound) }
  | "has_output" => { node with overrides.output := some (binding != .unbound) }
  | _ => { node with body := .bind field binding node.body }

def addCallback (node : Node) (callback : Value) : Except Failure Node :=
  match node.body with
  | .line draft => do
    return { node with body := .line { draft with callbacks := ← draft.callbacks.push callback } }
  | .exit callbacks => do return { node with body := .exit (← callbacks.push callback) }
  | _ => .error .lacksOperation

end Node

/-- An edge, from the output point of its source to the input point of its target. -/
structure Edge where
  source : Label
  target : Label
  deriving DecidableEq

structure Graph where
  name : Value := .text "Dialogue Graph"
  nodes : List Node := []
  edges : List Edge := []
  /-- The default values of the variables by name. -/
  defaults : List (Value × Value) := []
  deriving DecidableEq

namespace Graph

def checkKey (v : Value) : Except Failure Unit :=
  if v.isKey then .ok () else .error .wrongType

def find? (g : Graph) (id : Label) : Option Node := g.nodes.find? fun node => node.key.matchesKey id

/-- The node with an id, or none; the id must be a key. -/
def lookup (g : Graph) (id : Label) : Except Failure (Option Node) := do
  id.checkKey
  return g.find? id

def member (g : Graph) (id : Label) : Except Failure Node :=
  match g.find? id with
  | some node => .ok node
  | none => .error (.missingKey id.value)

def add (g : Graph) (node : Node) : Except Failure Graph := do
  match ← g.lookup node.id with
  | some _ => .error (.badArgument (.duplicateNode node.id.value))
  | none => .ok { g with nodes := g.nodes ++ [node] }

/-- Remove the node with an id, and every edge at it.  Where there is no node, no id is looked
up. -/
def remove (g : Graph) (id : Label) : Except Failure Graph := do
  if !g.nodes.isEmpty then id.checkKey
  return { g with
    nodes := g.nodes.filter fun node => !node.key.matchesKey id
    edges := g.edges.filter fun e => !e.source.agrees id && !e.target.agrees id }

def checkPoint (node : Node) (point : Point) : Except Failure Unit :=
  if node.hasPoint point then .ok ()
  else .error (.badArgument (.pointMissing node.kind.className point))

/-- A node that is connected must have the id of a member. -/
def checkMember (g : Graph) (id : Label) : Except Failure Unit := do
  match ← g.lookup id with
  | some _ => .ok ()
  | none => .error (.badArgument (.foreignNode id.value))

/-- Connect the output point of a node to the input point of another.  The points are those of the
given nodes, the ids must belong to members. -/
def connect (g : Graph) (source target : Node) : Except Failure Graph := do
  checkPoint source .output
  checkPoint target .input
  g.checkMember source.id
  g.checkMember target.id
  return { g with edges := g.edges ++ [⟨source.id, target.id⟩] }

def disconnect (g : Graph) (source target : Label) : Graph :=
  { g with edges := g.edges.filter fun e => !(e.source.agrees source && e.target.agrees target) }

/-- The members with an edge to a node; none if it has no input point. -/
def inputs (g : Graph) (node : Node) : Except Failure (List Node) :=
  if node.hasPoint .input then
    (g.edges.filter fun e => e.target.agrees node.id).mapM fun e => g.member e.source
  else .ok []

/-- The members with an edge from a node; none if it has no output point. -/
def outputs (g : Graph) (node : Node) : Except Failure (List Node) :=
  if node.hasPoint .output then
    (g.edges.filter fun e => e.source.agrees node.id).mapM fun e => g.member e.target
  else .ok []

/-- The first member with an edge from a node. -/
def firstOutput (g : Graph) (node : Node) : Except Failure (Option Node) := do
  return (← g.outputs node).head?

/-- Enter a value under a key of a table; a key that is there keeps its place. -/
def enter {κ α : Type} (isOne : κ → κ → Bool) (key : κ) (a : α) : List (κ × α) → List (κ × α)
  | [] => [(key, a)]
  | (k, b) :: rest => if isOne k key then (k, a) :: rest else (k, b) :: enter isOne key a rest

def setVariable (g : Graph) (name default : Value) : Except Failure Graph := do
  checkKey name
  return { g with defaults := enter Value.matchesKey name default g.defaults }

def variableDefault? (g : Graph) (name : Value) : Option Value :=
  (g.defaults.find? fun v => v.1.matchesKey name).map (·.2)

def nodesOfKind (g : Graph) (kind : NodeKind) : List Node :=
  g.nodes.filter fun node => node.kind == kind

/-- Put a changed node in the place of the one that is held under an id. -/
def replace (g : Graph) (key : Label) (node : Node) : Graph :=
  { g with
    nodes := g.nodes.map fun old => if old.key.matchesKey key then node.under old.key else old }

end Graph

end LinearDialogue
