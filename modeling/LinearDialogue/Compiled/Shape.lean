import LinearDialogue.Compiled.Record
import LinearDialogue.Value.Text

/-!
# The shape of persisted graphs

The rules that a document must satisfy before it is read as a compiled graph.  Checking collects
every complaint with its place, and one of them is reported: of the least deep ones the one at the
greatest place, and of several at that place one about a value that is not even of the demanded
type.
-/

namespace LinearDialogue.Shape

/-- A complaint: its place, its wording, and whether the value is of the demanded type. -/
structure Complaint where
  path : List Place
  message : String
  typed : Bool
  deriving DecidableEq

/-- The same complaint, one step further down. -/
def Complaint.within (place : Place) (complaint : Complaint) : Complaint :=
  { complaint with path := place :: complaint.path }

inductive Demand
  | object
  | array
  | integer
  | text
  deriving DecidableEq

def Demand.name : Demand → String
  | .object => "object"
  | .array => "array"
  | .integer => "integer"
  | .text => "string"

/-- Has a value the demanded type?  Numbers without fraction are integers, truth values are not. -/
def Demand.holds : Demand → Value → Bool
  | .object, .object _ => true
  | .array, .list _ => true
  | .integer, .int _ => true
  | .integer, .float x => x.toInt?.isSome
  | .text, .text _ => true
  | _, _ => false

def complain (demand : Demand) (v : Value) (message : String) : Complaint :=
  ⟨[], message, demand.holds v⟩

def checkType (demand : Demand) (v : Value) : List Complaint :=
  if demand.holds v then []
  else [complain demand v (v.shown ++ " is not of type '" ++ demand.name ++ "'")]

/-- Is a number below a bound?  Truth values are no numbers here. -/
def isBelow (bound : Int) : Value → Bool
  | .bool _ => false
  | v => v.rank?.any fun r => r.lt (.at (Binary64.unitsOfInt bound))

def isAbove (bound : Int) : Value → Bool
  | .bool _ => false
  | v => v.rank?.any fun r => Binary64.Rank.lt (.at (Binary64.unitsOfInt bound)) r

/-- An integer within bounds.  The bounds hold for every number. -/
def checkInteger (low high : Int) (v : Value) : List Complaint :=
  checkType .integer v ++
    (if isBelow low v then
      [complain .integer v (v.shown ++ " is less than the minimum of " ++ toString low)]
    else []) ++
    (if isAbove high v then
      [complain .integer v (v.shown ++ " is greater than the maximum of " ++ toString high)]
    else [])

/-- A text that is not empty. -/
def checkTag (v : Value) : List Complaint :=
  checkType .text v ++
    if v = .text "" then [complain .text v (v.shown ++ " should be non-empty")] else []

/-- The complaints about required fields that are not there. -/
def checkRequired (names : List String) (v : Value) : List Complaint :=
  match v with
  | .object fields =>
    (names.filter fun name => (Value.lookup name fields).isNone).map fun name =>
      complain .object v (Text.quoted name ++ " is a required property")
  | _ => []

def checkClosed (names : List String) (v : Value) : List Complaint :=
  match v with
  | .object fields =>
    let extra := (fields.map (·.1)).filter fun name => !names.contains name
    match extra.mergeSort fun a b => decide (a ≤ b) with
    | [] => []
    | [name] =>
      [complain .object v ("Additional properties are not allowed (" ++ Text.quoted name ++
        " was unexpected)")]
    | sorted =>
      [complain .object v ("Additional properties are not allowed (" ++
        String.intercalate ", " (sorted.map Text.quoted) ++ " were unexpected)")]
  | _ => []

def checkField (name : String) (check : Value → List Complaint) (v : Value) : List Complaint :=
  match v.field? name with
  | some item => (check item).map (.within (.field name))
  | none => []

def checkRecord (v : Value) : List Complaint :=
  checkType .object v ++ checkRequired ["id", "successor_id", "kind"] v ++
    checkField "id" (checkInteger 0 maxId) v ++
    checkField "successor_id" (checkInteger noId maxId) v ++ checkField "kind" checkTag v

def checkRecords (v : Value) : List Complaint :=
  checkType .array v ++
    match v with
    | .list items =>
      (items.mapIdx fun i item => (checkRecord item).map (.within (.item i))).flatten
    | _ => []

def checkGraph (v : Value) : List Complaint :=
  checkType .object v ++ checkRequired ["entry_id", "records"] v ++
    checkClosed ["entry_id", "records"] v ++
    checkField "entry_id" (checkInteger noId maxId) v ++ checkField "records" checkRecords v

/-- The order of places: by the first step that differs. -/
def pathLt : List Place → List Place → Bool
  | [], [] => false
  | [], _ :: _ => true
  | _ :: _, [] => false
  | .field a :: as, .field b :: bs => if a = b then pathLt as bs else decide (a < b)
  | .item i :: as, .item j :: bs => if i = j then pathLt as bs else decide (i < j)
  | .field _ :: _, .item _ :: _ => false
  | .item _ :: _, .field _ :: _ => true

/-- Is the second complaint reported rather than the first? -/
def outranks (first second : Complaint) : Bool :=
  if first.path.length ≠ second.path.length then second.path.length < first.path.length
  else if first.path ≠ second.path then pathLt first.path second.path
  else first.typed && !second.typed

/-- The complaint that is reported; of several that rank alike the first. -/
def reported? : List Complaint → Option Complaint
  | [] => none
  | first :: rest =>
    some (rest.foldl (fun best other => if outranks best other then other else best) first)

/-- The wording of what is wrong with the shape of a document. -/
def fault? (v : Value) : Option String := (reported? (checkGraph v)).map (·.message)

end LinearDialogue.Shape
