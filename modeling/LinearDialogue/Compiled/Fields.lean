import LinearDialogue.Compiled.Record
import LinearDialogue.Text.WhiteSpace

/-!
# Records from fields

Making records and compiled graphs of named values.  Every field is checked, so all problems are
found at once: first those of the known fields in their order, then the unknown fields in the order
in which they were given.  An integer may be given as a truth value, as a number without fraction,
or as text.
-/

namespace LinearDialogue

/-- A result, or the problems that stand against it. -/
abbrev Checked (α : Type) := Except (List Problem) α

def Checked.problems {α : Type} : Checked α → List Problem
  | .ok _ => []
  | .error problems => problems

/-- All results, or all problems. -/
def Checked.all {α : Type} : List (Checked α) → Checked (List α)
  | [] => .ok []
  | .ok a :: rest =>
    match all rest with
    | .ok others => .ok (a :: others)
    | .error problems => .error problems
  | .error problems :: rest => .error (problems ++ (all rest).problems)

/-- The same check, one step further down. -/
def Checked.within {α : Type} (place : Place) : Checked α → Checked α
  | .ok a => .ok a
  | .error problems => .error (problems.map (Problem.within place))

def Checked.defect {α : Type} (defect : Defect) : Checked α := .error [⟨[], defect⟩]

namespace IntegerText

def isDigit (c : Char) : Bool := '0' ≤ c && c ≤ '9'

def value (digits : List Char) : Nat := digits.foldl (fun n d => n * 10 + (d.toNat - '0'.toNat)) 0

def maxDigits : Nat := 4300

/-- A sign, if it is a minus, and what follows it. -/
def splitMinus : List Char → Bool × List Char
  | '-' :: rest => (true, rest)
  | cs => (false, cs)

/-- The integer that a plain numeral spells: digits after no more than a minus sign, the first of
them a zero only where it is the only one.  Too many digits are refused wherever they end. -/
def plain (cs : List Char) : Except Defect Int :=
  let (negative, rest) := splitMinus cs
  let digits := rest.takeWhile isDigit
  let others := rest.dropWhile isDigit
  match digits with
  | [] => .error .unreadableInteger
  | ['0'] => if others.isEmpty then .ok 0 else .error .unreadableInteger
  | '0' :: _ :: _ => .error .unreadableInteger
  | _ =>
    if maxDigits < digits.length then .error .tooLong
    else if others.isEmpty then .ok (if negative then -(value digits : Int) else value digits)
    else .error .unreadableInteger

/-- What is left of a numeral when leading zeros have been dropped, with the underscores among
them; `last` is the character dropped last.  It stays where nothing but a fraction follows.  A minus
sign may come after the zeros. -/
def afterZeros? (last : Char) : List Char → Option (List Char)
  | [] => some [last]
  | c :: rest =>
    if c = '0' ∨ c = '_' then afterZeros? c rest
    else if c = '.' then some (last :: c :: rest)
    else if isDigit c ∨ c = '-' then some (c :: rest)
    else none

/-- A numeral that starts with a digit, without its leading zeros. -/
def dropZeros? : List Char → Option (List Char)
  | [] => none
  | c :: rest =>
    if c = '0' then afterZeros? c rest
    else if isDigit c then some (c :: rest)
    else none

def dropFraction (cs : List Char) : List Char :=
  match cs.dropWhile (· ≠ '.') with
  | '.' :: c :: zeros => if (c :: zeros).all (· == '0') then cs.takeWhile (· ≠ '.') else cs
  | _ => cs

def hasDoubleUnderscore : List Char → Bool
  | '_' :: '_' :: _ => true
  | _ :: rest => hasDoubleUnderscore rest
  | [] => false

/-- A numeral without underscores, if each stands alone between other characters. -/
def dropUnderscores (cs : List Char) : List Char :=
  if cs.head? = some '_' ∨ cs.getLast? = some '_' ∨ hasDoubleUnderscore cs then cs
  else cs.filter (· ≠ '_')

def bare? (cs : List Char) : Option (List Char) :=
  (dropZeros? cs).map fun cs => dropUnderscores (dropFraction cs)

/-- The plain numeral of one with blanks, a sign, leading zeros, underscores or a fraction of
zeros. -/
def simplify? (cs : List Char) : Option (List Char) :=
  match Text.trimEnds Text.isWhiteSpace cs with
  | '+' :: '-' :: _ => none
  | '+' :: rest => bare? rest
  | '-' :: rest => (bare? rest).map ('-' :: ·)
  | cs => bare? cs

/-- The integer that a text spells, as it stands or else simplified.  Only what is too long as it
stands is refused for its length. -/
def read (s : String) : Except Defect Int :=
  match plain s.toList with
  | .ok n => .ok n
  | .error .tooLong => .error .tooLong
  | .error _ =>
    match (simplify? s.toList).map plain with
    | some (.ok n) => .ok n
    | _ => .error .unreadableInteger

end IntegerText

namespace Fields

/-- Fractional numbers from here on are too long for integers. -/
def fractionLimit : Int := 9223372036854775808

def asInteger : Value → Except Defect Int
  | .bool b => .ok (if b then 1 else 0)
  | .int n => .ok n
  | .float x =>
    match x.units? with
    | none => .error .notFinite
    | some _ =>
      match x.toInt? with
      | none => .error .fractional
      | some n => if -fractionLimit < n ∧ n < fractionLimit then .ok n else .error .tooLong
  | .text s => IntegerText.read s
  | _ => .error .noInteger

def asBounded (low high : Int) (v : Value) : Checked Int :=
  match asInteger v with
  | .error defect => .defect defect
  | .ok n => if n < low then .defect .tooSmall else if high < n then .defect .tooLarge else .ok n

def asText : Value → Checked String
  | .text s => .ok s
  | _ => .defect .noText

def asOptionalText : Value → Checked (Option String)
  | .null => .ok none
  | v => (asText v).map some

def listOf {α : Type} (check : Value → Checked α) : Value → Checked (List α)
  | .list items => .all (items.mapIdx fun i item => (check item).within (.item i))
  | _ => .defect .noList

def defaulted {α : Type} (fields : List (String × Value)) (name : String) (default : α)
    (check : Value → Checked α) : Checked α :=
  match Value.lookup name fields with
  | some v => (check v).within (.field name)
  | none => .ok default

def required {α : Type} (fields : List (String × Value)) (name : String)
    (check : Value → Checked α) : Checked α :=
  match Value.lookup name fields with
  | some v => (check v).within (.field name)
  | none => .error [⟨[.field name], .missing⟩]

def unknown (fields : List (String × Value)) (known : List String) : List Problem :=
  (fields.filter fun field => !known.contains field.1).map fun field =>
    ⟨[.field field.1], .unknownField⟩

/-- What becomes of something made of fields when a value is assigned to a name.  Fields do not
change; a name that starts with an underscore is none, and what is kept under it is no part of the
thing. -/
def assigned {α : Type} (made : α) (name : String) : Checked α :=
  if name.toList.head? = some '_' then .ok made else .error [⟨[.field name], .immutable⟩]

end Fields

open Fields

def RecordClass.checkTag (cls : RecordClass) (fields : List (String × Value)) : Checked String :=
  match cls.tag with
  | none => required fields "kind" asText
  | some tag =>
    defaulted fields "kind" tag fun v => if v = .text tag then .ok tag else .defect .wrongTag

def Record.baseNames : List String := ["id", "successor_id", "kind"]

def SpokenLine.fieldNames : List String := ["actor", "audio", "text", "callbacks"]

def SpokenLine.ofFields (fields : List (String × Value)) : Checked SpokenLine :=
  match defaulted fields "actor" "" asText, defaulted fields "audio" none asOptionalText,
      defaulted fields "text" "" asText, defaulted fields "callbacks" [] (listOf asText) with
  | .ok actor, .ok audio, .ok body, .ok callbacks => .ok ⟨actor, audio, body, callbacks⟩
  | actor, audio, body, callbacks =>
    .error (actor.problems ++ audio.problems ++ body.problems ++ callbacks.problems)

/-- The spoken line of a record, where its class has one. -/
def RecordClass.checkLine (cls : RecordClass) (fields : List (String × Value)) :
    Checked (Option SpokenLine) :=
  if cls.speaks then (SpokenLine.ofFields fields).map some else .ok none

def RecordClass.fieldNames (cls : RecordClass) : List String :=
  Record.baseNames ++ if cls.speaks then SpokenLine.fieldNames else []

def Record.ofFields (cls : RecordClass) (fields : List (String × Value)) : Checked Record :=
  match required fields "id" (asBounded 0 maxId),
      defaulted fields "successor_id" noId (asBounded noId maxId), cls.checkTag fields,
      cls.checkLine fields, unknown fields cls.fieldNames with
  | .ok id, .ok successor, .ok kind, .ok line, [] => .ok ⟨cls, id, successor, kind, line⟩
  | id, successor, kind, line, others =>
    .error (id.problems ++ successor.problems ++ kind.problems ++ line.problems ++ others)

def Record.plainOfValue : Value → Checked Record
  | .object fields => Record.ofFields .plain fields
  | _ => .defect .noRecord

def CompiledGraph.ofFields (fields : List (String × Value)) : Checked CompiledGraph :=
  match defaulted fields "entry_id" noId (asBounded noId maxId),
      defaulted fields "records" [] (listOf Record.plainOfValue),
      unknown fields ["entry_id", "records"] with
  | .ok entry, .ok records, [] => .ok ⟨entry, records⟩
  | entry, records, others => .error (entry.problems ++ records.problems ++ others)

/-- A compiled graph of an entry and of records that have been made. -/
def CompiledGraph.ofRecords (entry : Value) (records : List Record) : Checked CompiledGraph :=
  ((asBounded noId maxId entry).within (.field "entry_id")).map fun entry => ⟨entry, records⟩

end LinearDialogue
