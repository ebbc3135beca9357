import LinearDialogue.Authored.Graph

/-!
# Documents of authored graphs

Authored graphs as documents and back.  Reading adds variables, nodes and edges one after another
through the operations on graphs, so what those refuse reading refuses, and the first refusal
decides.
-/

namespace LinearDialogue

def Binding.document : Binding → Value
  | .unbound => .null
  | .literal value => .object [("value", value)]
  | .variable name => .object [("variable", name)]

/-- The callbacks of a node in a document; without any the field is left out. -/
def CallbackField.fields (field : CallbackField) : Except Failure (List (String × Value)) := do
  if field.isEmpty then return []
  return [("callbacks", .list (← field.items))]

/-- What a node holds in a document besides its id and kind. -/
def NodeBody.fields : NodeBody → Except Failure (List (String × Value))
  | .line draft => do
    return [("actor", draft.actor.document), ("audio", draft.audio.document),
      ("text", draft.text.document)] ++ (← draft.callbacks.fields)
  | .exit callbacks => callbacks.fields
  | .entry | .choice => .ok []

def Node.document (node : Node) : Except Failure Value := do
  return .object ([("id", node.id.value), ("kind", node.tag.value)] ++ (← node.body.fields))

def Edge.document (edge : Edge) : Value :=
  .object [("source", edge.source.value), ("target", edge.target.value)]

def Graph.document (g : Graph) : Except Failure Value := do
  let nodes ← g.nodes.mapM Node.document
  return .object [("name", g.name),
    ("variables", .object (g.defaults.map fun v => (v.1.plain, v.2))),
    ("nodes", .list nodes),
    ("edges", .list (g.edges.map Edge.document))]

def isPart (part : List Char) : List Char → Bool
  | [] => part.isEmpty
  | c :: cs => part.isPrefixOf (c :: cs) || isPart part cs

namespace Value

/-- The items of a value that can be gone through: those of a list, the characters of a text, the
names of the fields of an object. -/
def items? : Value → Except Failure (List Value)
  | .list items => .ok items
  | .text s => .ok (s.toList.map fun c => .text (String.ofList [c]))
  | .object fields => .ok (fields.map fun field => .text field.1)
  | _ => .error .wrongType

/-- The fields of an object; other values have no fields to ask for. -/
def fields? : Value → Except Failure (List (String × Value))
  | .object fields => .ok fields
  | _ => .error .lacksOperation

def require (v : Value) (name : String) : Except Failure Value :=
  match v with
  | .object fields =>
    match lookup name fields with
    | some item => .ok item
    | none => .error (.missingKey (.text name))
  | _ => .error .wrongType

/-- Does a value hold a name: as a field, as an item, or as a part of a text? -/
def holds (v : Value) (name : String) : Except Failure Bool :=
  match v with
  | .object fields => .ok (lookup name fields).isSome
  | .list items => .ok (items.contains (.text name))
  | .text s => .ok (isPart name.toList s.toList)
  | _ => .error .wrongType

end Value

def Binding.ofDocument : Value → Except Failure Binding
  | .null => .ok .unbound
  | v => do
    if ← v.holds "variable" then return .variable (← v.require "variable")
    let fields ← v.fields?
    return .literal ((Value.lookup "value" fields).getD .null)

def Binding.ofField (fields : List (String × Value)) (name : String) : Except Failure Binding :=
  Binding.ofDocument ((Value.lookup name fields).getD .null)

def callbacksOf (fields : List (String × Value)) : Except Failure CallbackField :=
  (((Value.lookup "callbacks" fields).getD (.list [])).items?).map .list

/-- The kind of a tag in a document; choices have no documents. -/
def NodeKind.ofLabel (tag : Label) : Except Failure NodeKind := do
  tag.checkKey
  match tag with
  | .plain (.text "entry") => return .entry
  | .plain (.text "exit") => return .exit
  | .plain (.text "line") => return .line
  | _ => .error (.unsupportedKind (if tag.isTruthy then tag.value else .text "<missing kind>"))

/-- A node of a tag, with an id and with fields as documents have them. -/
def Node.ofFields (tag : Label) (id : Except Failure Label) (fields : List (String × Value)) :
    Except Failure Node := do
  match ← NodeKind.ofLabel tag with
  | .line =>
    let id ← id
    let actor ← Binding.ofField fields "actor"
    let audio ← Binding.ofField fields "audio"
    let text ← Binding.ofField fields "text"
    let callbacks ← callbacksOf fields
    return { id, body := .line { actor, audio, text, callbacks } }
  | .exit =>
    let id ← id
    return { id, body := .exit (← callbacksOf fields) }
  | _ => return { id := ← id, body := .entry }

def Node.ofDocument (v : Value) : Except Failure Node := do
  let fields ← v.fields?
  Node.ofFields (.plain ((Value.lookup "kind" fields).getD (.text ""))) (.plain <$> v.require "id")
    fields

def Graph.join (g : Graph) (source target : Label) : Except Failure Graph := do
  match ← g.lookup source, ← g.lookup target with
  | some a, some b => g.connect a b
  | _, _ => .error (.badArgument (.unknownEndpoint source.value target.value))

def Graph.addEdge (g : Graph) (v : Value) : Except Failure Graph := do
  let source ← v.require "source"
  Graph.checkKey source
  g.join (.plain source) (.plain (← v.require "target"))

def Graph.ofDocument (v : Value) : Except Failure Graph := do
  let fields ← v.fields?
  let named : Graph :=
    match Value.lookup "name" fields with
    | some name => { name }
    | none => {}
  let declarations ← ((Value.lookup "variables" fields).getD (.object [])).fields?
  let declared ← declarations.foldlM
    (fun (g : Graph) field => g.setVariable (.text field.1) field.2) named
  let nodes ← ((Value.lookup "nodes" fields).getD (.list [])).items?
  let filled ← nodes.foldlM (fun g item => do g.add (← Node.ofDocument item)) declared
  let edges ← ((Value.lookup "edges" fields).getD (.list [])).items?
  edges.foldlM Graph.addEdge filled

/-- The graph that reading makes of what the document of a graph says.  Labels stay as they are, so
a bound one does not turn into the text that is shown for it. -/
def Graph.reread (g : Graph) : Except Failure Graph := do
  let filled ← g.nodes.foldlM
    (fun (h : Graph) node => do
      h.add (← Node.ofFields node.tag (.ok node.id) (← node.body.fields)))
    { name := g.name, defaults := g.defaults }
  g.edges.foldlM (fun h edge => h.join edge.source edge.target) filled

/-- Does a graph come back from its document as it was?  Variables do: they are set again under the
names that they have. -/
def Graph.comesBack (g : Graph) : Except Failure Bool := do
  let document ← { g with defaults := [] }.document
  return (← { ← g.reread with defaults := [] }.document).alike document

end LinearDialogue
