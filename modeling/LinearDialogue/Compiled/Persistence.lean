import LinearDialogue.Compiled.Fields
import LinearDialogue.Compiled.Shape
import LinearDialogue.Failure
import LinearDialogue.Json.Printer
import LinearDialogue.Json.Reader

/-!
# Persisted graphs

Compiled graphs as JSON text and back.  A registry says which class of records a kind tag stands
for.  Reading checks the shape of the document first and then makes the records one after another;
the first that cannot be made decides the failure.
-/

namespace LinearDialogue

/-- The record classes by kind tag; a tag registered twice stands for the later class. -/
structure Registry where
  classes : List (String × RecordClass)
  deriving DecidableEq

namespace Registry

def standard : Registry := ⟨[("dialogue", .dialogue)]⟩

def find? (registry : Registry) (tag : String) : Option RecordClass :=
  (registry.classes.find? fun entry => entry.1 == tag).map (·.2)

def insert (registry : Registry) (tag : String) (cls : RecordClass) : Registry :=
  ⟨(registry.classes.filter fun entry => entry.1 != tag) ++ [(tag, cls)]⟩

def register (registry : Registry) (cls : RecordClass) : Except Failure Registry :=
  match cls.tag with
  | some tag => if tag = "" then .error (.untagged cls.name) else .ok (registry.insert tag cls)
  | none => .error (.untagged cls.name)

def tags (registry : Registry) : List String :=
  (registry.classes.map (·.1)).mergeSort fun a b => decide (a ≤ b)

end Registry

def Record.ofPersisted (registry : Registry) (v : Value) : Except Failure Record :=
  match v.field? "kind", v with
  | some (.text tag), .object fields =>
    match registry.find? tag with
    | none => .error (.unsupportedKind (.text tag))
    | some cls =>
      match Record.ofFields cls fields with
      | .ok record => .ok record
      | .error problems => .error (.badRecord cls.name problems)
  | _, _ => .error .wrongType

namespace CompiledGraph

def ofDocument (registry : Registry) (v : Value) : Except Failure CompiledGraph :=
  match Shape.fault? v with
  | some message => .error (.badFormat [.text message])
  | none =>
    match v.field? "entry_id", v.field? "records" with
    | some entry, some (.list items) => do
      let records ← items.mapM (Record.ofPersisted registry)
      match ofRecords entry records with
      | .ok graph => .ok graph
      | .error problems => .error (.badFields "RuntimeGraph" problems)
    | _, _ => .error .wrongType

def serialize (graph : CompiledGraph) : String := Json.render graph.document

def deserialize (registry : Registry) (text : String) : Except Failure CompiledGraph :=
  match Json.read text with
  | .ok v => ofDocument registry v
  | .error fault =>
    if fault.isSyntactic then .error (.badFormat [.text ("Invalid JSON: " ++ fault.message)])
    else .error (.badJson fault)

end CompiledGraph

end LinearDialogue
