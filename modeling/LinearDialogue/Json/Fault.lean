/-!
# Faults in JSON text

Why a text is no JSON value that is read, and where: faults are placed by their offset in
characters.  They are shown with line and column, except for integers of too many digits, which are
refused although they are JSON.
-/

namespace LinearDialogue.Json

inductive Cause
  | valueExpected
  | nameExpected
  | colonExpected
  | commaExpected
  | unterminatedText
  | controlCharacter
  | badEscape
  | badCodePoint
  | textAfterValue
  | byteOrderMark
  | tooManyDigits (count : Nat)
  deriving DecidableEq

def maxDigits : Nat := 4300

def Cause.message : Cause → String
  | .valueExpected => "Expecting value"
  | .nameExpected => "Expecting property name enclosed in double quotes"
  | .colonExpected => "Expecting ':' delimiter"
  | .commaExpected => "Expecting ',' delimiter"
  | .unterminatedText => "Unterminated string starting at"
  | .controlCharacter => "Invalid control character at"
  | .badEscape => "Invalid \\escape"
  | .badCodePoint => "Invalid \\uXXXX escape"
  | .textAfterValue => "Extra data"
  | .byteOrderMark => "Unexpected UTF-8 BOM (decode using utf-8-sig)"
  | .tooManyDigits count =>
    "Exceeds the limit (" ++ toString maxDigits ++
      " digits) for integer string conversion: value has " ++
      toString count ++ " digits; use sys.set_int_max_str_digits() to increase the limit"

/-- A fault in a text: lines and columns count from one, the offset from zero. -/
structure Fault where
  cause : Cause
  line : Nat
  column : Nat
  offset : Nat
  deriving DecidableEq

def Fault.at (text : List Char) (cause : Cause) (offset : Nat) : Fault :=
  let before := text.take offset
  { cause
    line := before.count '\n' + 1
    column := (before.reverse.takeWhile (· ≠ '\n')).length + 1
    offset }

def Fault.isSyntactic (fault : Fault) : Bool :=
  match fault.cause with
  | .tooManyDigits _ => false
  | _ => true

def Fault.message (fault : Fault) : String :=
  if fault.isSyntactic then
    fault.cause.message ++ ": line " ++ toString fault.line ++ " column " ++
      toString fault.column ++ " (char " ++ toString fault.offset ++ ")"
  else fault.cause.message

end LinearDialogue.Json
