import LinearDialogue.Json.Fault
import LinearDialogue.Value

/-!
# Reading JSON

A reader for JSON text, with the three words for numbers that JSON itself lacks.  Each step takes
the characters that are left and answers with a value and the characters after it, or with a stop:
the cause and how many characters were left where it applies.

Of two fields with one name the place of the first and the value of the last are kept.
-/

namespace LinearDialogue.Json

/-- Where and why reading stopped; the place is given by the number of characters left. -/
structure Stop where
  cause : Cause
  left : Nat
  deriving DecidableEq

def isSpace (c : Char) : Bool := c == ' ' || c == '\t' || c == '\n' || c == '\r'

def skipSpaces (cs : List Char) : List Char := cs.dropWhile isSpace

def hexValue? (c : Char) : Option Nat :=
  if '0' ≤ c ∧ c ≤ '9' then some (c.toNat - '0'.toNat)
  else if 'a' ≤ c ∧ c ≤ 'f' then some (c.toNat - 'a'.toNat + 10)
  else if 'A' ≤ c ∧ c ≤ 'F' then some (c.toNat - 'A'.toNat + 10)
  else none

/-- Four hexadecimal digits, with at least one character after them. -/
def unit? : List Char → Option (Nat × List Char)
  | a :: b :: c :: d :: e :: rest => do
    let a ← hexValue? a
    let b ← hexValue? b
    let c ← hexValue? c
    let d ← hexValue? d
    some (((a * 16 + b) * 16 + c) * 16 + d, e :: rest)
  | _ => none

def isHighUnit (n : Nat) : Bool := 0xd800 ≤ n && n < 0xdc00

def isLowUnit (n : Nat) : Bool := 0xdc00 ≤ n && n < 0xe000

def joinUnits (high low : Nat) : Char :=
  Char.ofNat (0x10000 + (high - 0xd800) * 0x400 + (low - 0xdc00))

/-- The character of a code unit on its own.  Half of a pair is none, and is read as U+FFFD. -/
def loneUnit (n : Nat) : Char := if isHighUnit n || isLowUnit n then '\ufffd' else Char.ofNat n

/-- The character that an escape of one letter stands for. -/
def shortEscape? : Char → Option Char
  | '"' => some '"'
  | '\\' => some '\\'
  | '/' => some '/'
  | 'b' => some '\x08'
  | 'f' => some '\x0c'
  | 'n' => some '\n'
  | 'r' => some '\r'
  | 't' => some '\t'
  | _ => none

/-- The character that an escape by code units stands for; `cs` are the characters after the
letter `u`. -/
def unitEscape (cs : List Char) : Except Stop (Char × List Char) :=
  match unit? cs with
  | none => .error ⟨.badCodePoint, cs.length + 1⟩
  | some (high, rest) =>
    if isHighUnit high then
      match rest with
      | '\\' :: 'u' :: more =>
        if more.length < 5 then .ok (loneUnit high, rest)
        else match unit? more with
          | none => .error ⟨.badCodePoint, more.length + 1⟩
          | some (low, after) =>
            if isLowUnit low then .ok (joinUnits high low, after) else .ok (loneUnit high, rest)
      | _ => .ok (loneUnit high, rest)
    else .ok (loneUnit high, rest)

/-- The character that an escape stands for; `cs` are the characters after the backslash, and
`opening` counts the characters from the opening quote on. -/
def escape (opening : Nat) : List Char → Except Stop (Char × List Char)
  | [] => .error ⟨.unterminatedText, opening⟩
  | 'u' :: rest => unitEscape rest
  | c :: rest =>
    match shortEscape? c with
    | some e => .ok (e, rest)
    | none => .error ⟨.badEscape, rest.length + 2⟩

def textBody (opening : Nat) : Nat → List Char → Except Stop (List Char × List Char)
  | 0, _ | _, [] => .error ⟨.unterminatedText, opening⟩
  | fuel + 1, c :: rest =>
    if c = '"' then .ok ([], rest)
    else if c = '\\' then do
      let (e, rest) ← escape opening rest
      let (cs, rest) ← textBody opening fuel rest
      .ok (e :: cs, rest)
    else if c < ' ' then .error ⟨.controlCharacter, rest.length + 1⟩
    else do
      let (cs, rest) ← textBody opening fuel rest
      .ok (c :: cs, rest)

/-- A text; `cs` are the characters after its opening quote. -/
def readText (cs : List Char) : Except Stop (String × List Char) := do
  let (body, rest) ← textBody (cs.length + 1) (cs.length + 1) cs
  .ok (String.ofList body, rest)

def isDigit (c : Char) : Bool := '0' ≤ c && c ≤ '9'

def digitsValue (digits : List Char) : Nat :=
  digits.foldl (fun n d => n * 10 + (d.toNat - '0'.toNat)) 0

/-- The digits of a whole part: a zero alone, or digits that start with none. -/
def wholePart? : List Char → Option (List Char × List Char)
  | '0' :: rest => some (['0'], rest)
  | cs =>
    let digits := cs.takeWhile isDigit
    if digits.isEmpty then none else some (digits, cs.dropWhile isDigit)

/-- The digits after a point, and the characters after them; no point without digits. -/
def fractionPart (cs : List Char) : List Char × List Char :=
  match cs with
  | '.' :: rest =>
    let digits := rest.takeWhile isDigit
    if digits.isEmpty then ([], cs) else (digits, rest.dropWhile isDigit)
  | _ => ([], cs)

def exponentDigits? (cs : List Char) : Option (Int × List Char) :=
  let (negative, rest) :=
    match cs with
    | '-' :: rest => (true, rest)
    | '+' :: rest => (false, rest)
    | _ => (false, cs)
  let digits := rest.takeWhile isDigit
  if digits.isEmpty then none
  else
    let n : Int := digitsValue digits
    some (if negative then -n else n, rest.dropWhile isDigit)

/-- The exponent, if one follows, and the characters after it. -/
def exponentPart (cs : List Char) : Option Int × List Char :=
  match cs with
  | c :: rest =>
    if c = 'e' ∨ c = 'E' then
      match exponentDigits? rest with
      | some (e, rest) => (some e, rest)
      | none => (none, cs)
    else (none, cs)
  | [] => (none, cs)

/-- The number without sign that the characters start with. -/
def magnitude (negative : Bool) (cs : List Char) : Except Cause (Value × List Char) :=
  match wholePart? cs with
  | none => .error .valueExpected
  | some (whole, rest) =>
    let (fraction, rest) := fractionPart rest
    let (exponent, rest) := exponentPart rest
    if fraction.isEmpty && exponent.isNone then
      if maxDigits < whole.length then .error (.tooManyDigits whole.length)
      else
        let n : Int := digitsValue whole
        .ok (.int (if negative then -n else n), rest)
    else
      let digits := digitsValue (whole ++ fraction)
      let scale := exponent.getD 0 - fraction.length
      .ok (.float (Binary64.ofDecimal negative digits scale), rest)

/-- The number that the characters start with: the longest one. -/
def number : List Char → Except Cause (Value × List Char)
  | '-' :: rest => magnitude true rest
  | cs => magnitude false cs

def afterWord? : List Char → List Char → Option (List Char)
  | [], cs => some cs
  | _ :: _, [] => none
  | w :: word, c :: cs => if w = c then afterWord? word cs else none

def words : List (List Char × Value) :=
  [("null".toList, .null), ("true".toList, .bool true), ("false".toList, .bool false),
    ("NaN".toList, .float .notANumber), ("Infinity".toList, .float (.infinity false)),
    ("-Infinity".toList, .float (.infinity true))]

def word? (cs : List Char) : Option (Value × List Char) :=
  words.findSome? fun word => (afterWord? word.1 cs).map fun rest => (word.2, rest)

def scalar (cs : List Char) : Except Stop (Value × List Char) :=
  match word? cs with
  | some found => .ok found
  | none =>
    match number cs with
    | .ok found => .ok found
    | .error cause => .error ⟨cause, cs.length⟩

/-- What separates two items: a comma goes on with the characters after it, the closing bracket
ends the list. -/
def separator (closing : Char) (cs : List Char) : Except Stop (Bool × List Char) :=
  match skipSpaces cs with
  | c :: rest =>
    if c = closing then .ok (false, rest)
    else if c = ',' then .ok (true, skipSpaces rest)
    else .error ⟨.commaExpected, rest.length + 1⟩
  | [] => .error ⟨.commaExpected, 0⟩

/-- The name of a field up to and with its colon, and the blanks after it. -/
def fieldName (cs : List Char) : Except Stop (String × List Char) :=
  match cs with
  | '"' :: rest => do
    let (name, rest) ← readText rest
    match skipSpaces rest with
    | ':' :: rest => .ok (name, skipSpaces rest)
    | rest => .error ⟨.colonExpected, rest.length⟩
  | _ => .error ⟨.nameExpected, cs.length⟩

mutual

def value : Nat → List Char → Except Stop (Value × List Char)
  | 0, cs => .error ⟨.valueExpected, cs.length⟩
  | _ + 1, '"' :: rest => do
    let (s, rest) ← readText rest
    .ok (.text s, rest)
  | fuel + 1, '[' :: rest =>
    match skipSpaces rest with
    | ']' :: rest => .ok (.list [], rest)
    | rest => do
      let (items, rest) ← items fuel rest
      .ok (.list items, rest)
  | fuel + 1, '\x7b' :: rest =>
    match skipSpaces rest with
    | '\x7d' :: rest => .ok (.object [], rest)
    | rest => do
      let (fields, rest) ← fields fuel [] rest
      .ok (.object fields, rest)
  | _ + 1, cs => scalar cs

/-- The items of a list that is not empty, up to the closing bracket. -/
def items : Nat → List Char → Except Stop (List Value × List Char)
  | 0, cs => .error ⟨.valueExpected, cs.length⟩
  | fuel + 1, cs => do
    let (item, rest) ← value fuel cs
    let (more, rest) ← separator ']' rest
    if more then
      let (others, rest) ← items fuel rest
      .ok (item :: others, rest)
    else .ok ([item], rest)

/-- The fields of an object that is not empty, up to the closing brace, added to those before. -/
def fields : Nat → List (String × Value) → List Char →
    Except Stop (List (String × Value) × List Char)
  | 0, _, cs => .error ⟨.valueExpected, cs.length⟩
  | fuel + 1, before, cs => do
    let (name, rest) ← fieldName cs
    let (item, rest) ← value fuel rest
    let (more, rest) ← separator '\x7d' rest
    let now := Value.assign name item before
    if more then fields fuel now rest else .ok (now, rest)

end

/-- The value that the characters hold, with nothing but blanks around it. -/
def readChars (cs : List Char) : Except Stop Value :=
  if cs.head? = some '\ufeff' then .error ⟨.byteOrderMark, cs.length⟩
  else do
    let (v, rest) ← value (2 * cs.length + 2) (skipSpaces cs)
    let rest := skipSpaces rest
    if rest.isEmpty then .ok v else .error ⟨.textAfterValue, rest.length⟩

def read (text : String) : Except Fault Value :=
  let cs := text.toList
  match readChars cs with
  | .ok v => .ok v
  | .error stop => .error (Fault.at cs stop.cause (cs.length - stop.left))

end LinearDialogue.Json
