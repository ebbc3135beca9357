import LinearDialogue.Binary64.Notation
import LinearDialogue.Text.Quoted
import LinearDialogue.Value

/-!
# Writing JSON

Values as JSON text in ASCII.  In the indented layout every item of a list and every field of an
object has a line of its own, two spaces further in than its container; in the plain layout all is
on one line.  Empty containers are written without a break in both.
-/

namespace LinearDialogue.Json

/-- Numbers in JSON text: as elsewhere, with the words for those that are not finite. -/
def numberForm : Binary64.WrittenForm :=
  { Binary64.plainForm with notANumber := "NaN", infinity := "Infinity" }

def unitText (n : Nat) : List Char := '\\' :: 'u' :: Text.hexDigits 4 n

def charText (c : Char) : List Char :=
  if c = '"' then ['\\', '"']
  else if c = '\\' then ['\\', '\\']
  else if c = '\n' then ['\\', 'n']
  else if c = '\r' then ['\\', 'r']
  else if c = '\t' then ['\\', 't']
  else if c = '\x0c' then ['\\', 'f']
  else if c = '\x08' then ['\\', 'b']
  else if ' ' ≤ c ∧ c ≤ '~' then [c]
  else if c.toNat < 0x10000 then unitText c.toNat
  else
    let n := c.toNat - 0x10000
    unitText (0xd800 + n / 0x400) ++ unitText (0xdc00 + n % 0x400)

def textChars (s : String) : List Char := '"' :: s.toList.flatMap charText ++ ['"']

def intChars (n : Int) : List Char :=
  if n < 0 then '-' :: Nat.toDigits 10 n.natAbs else Nat.toDigits 10 n.natAbs

/-- A break before an item: in the indented layout a new line, else a space unless the item is the
first. -/
def lineBreak (layout : Option Nat) (first : Bool) : List Char :=
  match layout with
  | some depth => '\n' :: List.replicate (2 * depth) ' '
  | none => if first then [] else [' ']

def inner (layout : Option Nat) : Option Nat := layout.map (· + 1)

mutual

/-- A value in a layout: the depth of indentation, or none for one line. -/
def valueChars (layout : Option Nat) : Value → List Char
  | .null => "null".toList
  | .bool true => "true".toList
  | .bool false => "false".toList
  | .int n => intChars n
  | .float x => (numberForm.text x).toList
  | .text s => textChars s
  | .list [] => ['[', ']']
  | .list (item :: rest) =>
    '[' :: lineBreak (inner layout) true ++ valueChars (inner layout) item ++
      itemsChars layout rest
  | .object [] => ['\x7b', '\x7d']
  | .object ((name, item) :: rest) =>
    '\x7b' :: lineBreak (inner layout) true ++ textChars name ++ ':' :: ' ' ::
      valueChars (inner layout) item ++ fieldsChars layout rest

def itemsChars (layout : Option Nat) : List Value → List Char
  | [] => (if layout.isSome then lineBreak layout true else []) ++ [']']
  | item :: rest =>
    ',' :: lineBreak (inner layout) false ++ valueChars (inner layout) item ++
      itemsChars layout rest

/-- The further fields of an object and its closing brace. -/
def fieldsChars (layout : Option Nat) : List (String × Value) → List Char
  | [] => (if layout.isSome then lineBreak layout true else []) ++ ['\x7d']
  | (name, item) :: rest =>
    ',' :: lineBreak (inner layout) false ++ textChars name ++ ':' :: ' ' ::
      valueChars (inner layout) item ++ fieldsChars layout rest

end

def render (v : Value) : String := String.ofList (valueChars (some 0) v)

def renderLine (v : Value) : String := String.ofList (valueChars none v)

end LinearDialogue.Json
