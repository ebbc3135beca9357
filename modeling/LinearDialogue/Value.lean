import LinearDialogue.Binary64

/-!
# Values

The values that documents, variables and events carry.  Objects keep their fields in the order in
which they were written, and no two fields of an object read from text have one name.

Three relations compare values: equality of the tree; agreement, under which numbers count by their
amount whatever their form, so that `1`, `1.0` and `true` are one key; and likeness, which carries
agreement into lists and objects.  Numbers
are ordered by amount, texts by their characters, and lists item by item.
-/

namespace LinearDialogue

/-- A document value. -/
inductive Value
  | null
  | bool (b : Bool)
  | int (n : Int)
  | float (x : Binary64)
  | text (s : String)
  | list (items : List Value)
  | object (fields : List (String × Value))
  deriving Inhabited

namespace Value

mutual

def same : Value → Value → Bool
  | .null, .null => true
  | .bool a, .bool b => a == b
  | .int a, .int b => a == b
  | .float a, .float b => decide (a = b)
  | .text a, .text b => a == b
  | .list a, .list b => sameList a b
  | .object a, .object b => sameFields a b
  | _, _ => false

def sameList : List Value → List Value → Bool
  | [], [] => true
  | a :: as, b :: bs => same a b && sameList as bs
  | _, _ => false

def sameFields : List (String × Value) → List (String × Value) → Bool
  | [], [] => true
  | (k, a) :: as, (l, b) :: bs => k == l && same a b && sameFields as bs
  | _, _ => false

end

mutual

theorem same_iff : ∀ a b : Value, same a b = true ↔ a = b
  | .null, b => by cases b <;> simp [same]
  | .bool a, b => by cases b <;> simp [same]
  | .int a, b => by cases b <;> simp [same]
  | .float a, b => by cases b <;> simp [same]
  | .text a, b => by cases b <;> simp [same]
  | .list a, b => by cases b <;> simp [same, sameList_iff a]
  | .object a, b => by cases b <;> simp [same, sameFields_iff a]

theorem sameList_iff : ∀ a b : List Value, sameList a b = true ↔ a = b
  | [], b => by cases b <;> simp [sameList]
  | a :: as, b => by cases b <;> simp [sameList, same_iff a, sameList_iff as]

theorem sameFields_iff : ∀ a b : List (String × Value), sameFields a b = true ↔ a = b
  | [], b => by cases b <;> simp [sameFields]
  | (k, a) :: as, b => by
    rcases b with _ | ⟨⟨l, b⟩, bs⟩ <;>
      simp [sameFields, same_iff a, sameFields_iff as]

end

instance : DecidableEq Value := fun a b => decidable_of_iff (same a b = true) (same_iff a b)

def isKey : Value → Bool
  | .list _ | .object _ => false
  | _ => true

/-- The rank of a number on the extended line; a truth value counts as 0 or 1. -/
def rank? : Value → Option Binary64.Rank
  | .bool b => some (.at (Binary64.unitsOfInt (if b then 1 else 0)))
  | .int n => some (.at (Binary64.unitsOfInt n))
  | .float x => x.rank?
  | _ => none

/-- Do two keys agree?  Numbers agree when their amounts do, so the number that is none agrees with
nothing, itself included. -/
def agrees (a b : Value) : Bool :=
  match a, b with
  | .null, .null => true
  | .text s, .text t => s == t
  | _, _ =>
    match a.rank?, b.rank? with
    | some r, some s => decide (r = s)
    | _, _ => false

/-- Do two keys name one entry of a table?  They do when they agree, or are one value. -/
def matchesKey (a b : Value) : Bool := a.agrees b || decide (a = b)

mutual

/-- Are two values alike all the way down?  Leaves are alike as keys are that name one entry, lists
item by item, and objects field by field whatever the order. -/
def alike : Value → Value → Bool
  | .list a, b =>
    match b with
    | .list b => alikeItems a b
    | _ => false
  | .object a, b =>
    match b with
    | .object b => a.length == b.length && alikeFields a b
    | _ => false
  | a, b => a.matchesKey b

def alikeItems : List Value → List Value → Bool
  | [], [] => true
  | a :: as, b :: bs => alike a b && alikeItems as bs
  | _, _ => false

/-- Has every one of some fields a field of its name that is alike? -/
def alikeFields : List (String × Value) → List (String × Value) → Bool
  | [], _ => true
  | (name, a) :: rest, fields =>
    (match (fields.find? fun field => field.1 == name).map (·.2) with
      | some b => alike a b
      | none => false) && alikeFields rest fields

end

/-- Is a value a number?  Truth values are. -/
def isNumber : Value → Bool
  | .bool _ | .int _ | .float _ => true
  | _ => false

mutual

/-- Is a value greater than another?  There is no answer for values that are not of one ordered
kind.  The number that is none is greater than nothing, and nothing than it. -/
def greater? : Value → Value → Option Bool
  | .text s, .text t => some (decide (t < s))
  | .list as, .list bs => greaterItems? as bs
  | a, b =>
    if a.isNumber && b.isNumber then
      match a.rank?, b.rank? with
      | some r, some s => some (s.lt r)
      | _, _ => some false
    else none

/-- Is a list greater than another?  The first items that are not alike decide, and where one list
starts the other, the longer one is greater. -/
def greaterItems? : List Value → List Value → Option Bool
  | [], _ => some false
  | _ :: _, [] => some true
  | a :: as, b :: bs => if a.alike b then greaterItems? as bs else greater? a b

end

/-- Is a value taken for yes?  Zero, null and everything empty are not. -/
def isTruthy : Value → Bool
  | .null => false
  | .bool b => b
  | .int n => n != 0
  | .float x => !x.isZero
  | .text s => s != ""
  | .list items => !items.isEmpty
  | .object fields => !fields.isEmpty

def lookup (name : String) (fields : List (String × Value)) : Option Value :=
  (fields.find? fun field => field.1 == name).map (·.2)

/-- Set a field: a field that is there keeps its place. -/
def assign (name : String) (value : Value) : List (String × Value) → List (String × Value)
  | [] => [(name, value)]
  | (n, v) :: rest => if n == name then (n, value) :: rest else (n, v) :: assign name value rest

def field? (name : String) : Value → Option Value
  | .object fields => lookup name fields
  | _ => none

end Value

end LinearDialogue
