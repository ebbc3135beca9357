import LinearDialogue.Authored.Validation
import LinearDialogue.Compiled.Cycle
import LinearDialogue.Compiled.Fields
import LinearDialogue.Log

/-!
# Compilation

From an authored graph to a compiled one.  Nodes are numbered in their order, entries and exits
too.  Every other node becomes a record whose successor is the number of the first node wired to
its output; an exit there, or nothing, is the end.  Bound fields are resolved to plain values.  A
result whose records form a loop is refused.
-/

namespace LinearDialogue

/-- The types of values that fields can be expected to have. -/
inductive FieldType
  | text
  | integer
  | number
  | truth
  | list
  | object
  deriving DecidableEq

/-- Is a value of a type?  A truth value is an integer, an integer is no number with fraction. -/
def FieldType.holds : FieldType → Value → Bool
  | .text, .text _ => true
  | .integer, .int _ => true
  | .integer, .bool _ => true
  | .number, .float _ => true
  | .truth, .bool _ => true
  | .list, .list _ => true
  | .object, .object _ => true
  | _, _ => false

namespace Graph

/-- A value of the expected type, or else the empty one. -/
def typed (expected : FieldType) (empty value : Value) : Value :=
  if expected.holds value then value else empty

/-- The entry about a reference to a variable that is not there. -/
def unknownVariable (g : Graph) (name : Value) : LogEntry :=
  { level := .warning
    reporter := .compiler
    message := "'" ++ g.name.plain ++ "': unknown variable '" ++ name.plain ++
      "', using empty value" }

/-- The plain value of a binding.  An unbound field, an unknown variable and a value of another
type give the empty value; the unknown variable is reported. -/
def resolve (g : Graph) (expected : FieldType) (empty : Value) : Binding → Logged Value
  | .unbound => pure empty
  | .literal value => pure (typed expected empty value)
  | .variable name => do
    Logged.ofExcept (checkKey name)
    match g.variableDefault? name with
    | some default => return typed expected empty default
    | none =>
      Logged.report (g.unknownVariable name)
      return empty

/-- The numbers of the nodes: their places.  Of several nodes with one id the last one counts. -/
def numbers (g : Graph) : List (Label × Int) :=
  (g.nodes.mapIdx fun i node => (node.id, (i : Int))).foldl
    (fun table entry => enter Label.matchesKey entry.1 entry.2 table) []

/-- The numbers of the nodes, all of whose ids must be keys. -/
def numbering (g : Graph) : Except Failure (List (Label × Int)) := do
  g.nodes.forM fun node => node.id.checkKey
  return g.numbers

def numberOf (g : Graph) (id : Label) : Except Failure Int :=
  match g.numbers.find? fun entry => entry.1.matchesKey id with
  | some entry => .ok entry.2
  | none => .error (.missingKey id.value)

/-- The id of the record for the node at an output point: none for an exit or where nothing is. -/
def targetNumber (g : Graph) : Option Node → Except Failure Int
  | none => .ok noId
  | some node => if node.kind = .exit then .ok noId else g.numberOf node.id

/-- The id of the record at which the graph starts.  The nodes are numbered also where there is no
entry. -/
def entryNumber (g : Graph) : Except Failure Int := do
  let _ ← g.numbering
  match g.nodesOfKind .entry with
  | [] => return noId
  | entry :: _ => g.targetNumber (← g.firstOutput entry)

def lowerLine (g : Graph) (draft : LineDraft) (id successor : Int) : Logged Record := do
  let actor ← g.resolve .text (.text "") draft.actor
  let audio ← g.resolve .text .null draft.audio
  let text ← g.resolve .text (.text "") draft.text
  let callbacks ← Logged.ofExcept draft.callbacks.items
  let fields := [("id", .int id), ("successor_id", .int successor), ("actor", actor),
    ("audio", audio), ("text", text), ("callbacks", .list callbacks)]
  match Record.ofFields .dialogue fields with
  | .ok record => return record
  | .error problems => Logged.fail (.badFields RecordClass.dialogue.name problems)

def lower (g : Graph) (node : Node) : Logged Record := do
  let target ← Logged.ofExcept (g.firstOutput node)
  let successor ← Logged.ofExcept (g.targetNumber target)
  let id ← Logged.ofExcept (g.numberOf node.id)
  match node.body with
  | .line draft => g.lowerLine draft id successor
  | _ => Logged.fail (.unsupportedKind (.text node.kind.className))

def lowerAll (g : Graph) : List Node → Logged (List Record)
  | [] => pure []
  | node :: rest => do
    let record ← g.lower node
    let records ← g.lowerAll rest
    return record :: records

def contentNodes (g : Graph) : List Node := g.nodes.filter fun node => !node.isBoundary

def loopEntry (g : Graph) (id : Int) : LogEntry :=
  { level := .error
    reporter := .compiler
    message := "'" ++ g.name.plain ++ "': successor chain loops through node " ++ toString id }

def compiledEntry (g : Graph) (entry : Int) (records : List Record) : LogEntry :=
  { level := .debug
    reporter := .compiler
    message := "Compiled '" ++ g.name.plain ++ "': " ++ toString records.length ++
      " records, entry " ++ toString entry }

def compile (g : Graph) : Logged CompiledGraph := do
  let entry ← Logged.ofExcept g.entryNumber
  let records ← g.lowerAll g.contentNodes
  match findCycle records with
  | [] =>
    Logged.report (g.compiledEntry entry records)
    match CompiledGraph.ofRecords (.int entry) records with
    | .ok compiled => return compiled
    | .error problems => Logged.fail (.badFields "RuntimeGraph" problems)
  | id :: rest =>
    Logged.report (g.loopEntry id)
    Logged.fail (.cycle g.name ((id :: rest).map .int))

end Graph

end LinearDialogue
