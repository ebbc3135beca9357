import LinearDialogue.Authored.Document

/-!
# Editing

A writer's desk: a graph, and nodes kept at hand under references.  A node at hand may be in the
graph or not, and several may have one id; changing a node that is in the graph changes the graph.
A node whose id has been changed can be added once more, and is then held under both ids.
-/

namespace LinearDialogue

structure Draft where
  ref : String
  node : Node
  /-- The ids under which the graph holds it. -/
  places : List Label := []
  deriving DecidableEq

structure Desk where
  graph : Graph := {}
  drafts : List Draft := []
  deriving DecidableEq

inductive Edit
  /-- Take a new node to hand. -/
  | make (ref : String) (node : Node)
  /-- Add a node at hand to the graph. -/
  | add (ref : String)
  | remove (ref : String)
  | connect (source target : String)
  | disconnect (source target : String)
  | setVariable (name default : Value)
  | bind (ref field : String) (binding : Binding)
  | addCallback (ref : String) (callback : Value)
  | rename (name : Value)

namespace Desk

def draft (desk : Desk) (ref : String) : Except Failure Draft :=
  match desk.drafts.find? fun d => d.ref == ref with
  | some d => .ok d
  | none => .error (.missingKey (.text ref))

def node (desk : Desk) (ref : String) : Except Failure Node := (desk.draft ref).map (·.node)

/-- Keep a node at hand; another under its reference is forgotten. -/
def keep (desk : Desk) (draft : Draft) : Desk :=
  { desk with drafts := (desk.drafts.filter fun d => d.ref != draft.ref) ++ [draft] }

/-- Change a node at hand, and the graph if it is in there. -/
def revise (desk : Desk) (draft : Draft) (node : Node) : Desk :=
  let desk := desk.keep { draft with node }
  { desk with graph := draft.places.foldl (fun g place => g.replace place node) desk.graph }

def edit (desk : Desk) : Edit → Except Failure Desk
  | .make ref node => .ok (desk.keep { ref, node })
  | .add ref => do
    let draft ← desk.draft ref
    let graph ← desk.graph.add draft.node
    return { desk with graph }.keep { draft with places := draft.places ++ [draft.node.id] }
  | .remove ref => do
    let draft ← desk.draft ref
    let graph ← desk.graph.remove draft.node.id
    let drafts := desk.drafts.map fun d =>
      { d with places := d.places.filter fun place => !place.matchesKey draft.node.id }
    return { desk with graph, drafts }
  | .connect source target => do
    let a ← desk.node source
    let b ← desk.node target
    return { desk with graph := ← desk.graph.connect a b }
  | .disconnect source target => do
    let a ← desk.node source
    let b ← desk.node target
    return { desk with graph := desk.graph.disconnect a.id b.id }
  | .setVariable name default => do
    return { desk with graph := ← desk.graph.setVariable name default }
  | .bind ref field binding => do
    let draft ← desk.draft ref
    return desk.revise draft (draft.node.bind field binding)
  | .addCallback ref callback => do
    let draft ← desk.draft ref
    return desk.revise draft (← draft.node.addCallback callback)
  | .rename name => .ok { desk with graph := { desk.graph with name } }

end Desk

end LinearDialogue
