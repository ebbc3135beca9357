import LinearDialogue.Binary64
import LinearDialogue.Text.WhiteSpace
import LinearDialogue.Text.DecimalDigit

/-!
# Reading numbers

Numbers as people write them: white space at the ends, a sign, digits of any script with single
underscores between them, a point anywhere among the digits, an exponent, or one of the words for
the numbers that are not finite.
-/

namespace LinearDialogue.Binary64.Reading

/-- The digits of all scripts as the ten ASCII digits, white space as spaces. -/
def normalize (c : Char) : Char :=
  if Text.isWhiteSpace c then ' '
  else match Text.digitValue? c with
    | some d => Nat.digitChar d
    | none => c

def isDigit (c : Char) : Bool := '0' ≤ c && c ≤ '9'

/-- The characters without underscores, each of which must stand between two digits. -/
def dropUnderscores : Bool → List Char → Option (List Char)
  | _, [] => some []
  | afterDigit, '_' :: c :: rest =>
    if afterDigit && isDigit c then (dropUnderscores true rest).map (c :: ·) else none
  | _, '_' :: [] => none
  | _, c :: rest => (dropUnderscores (isDigit c) rest).map (c :: ·)

def digitsValue (digits : List Char) : Nat :=
  digits.foldl (fun n d => n * 10 + (d.toNat - '0'.toNat)) 0

def splitSign : List Char → Bool × List Char
  | '-' :: rest => (true, rest)
  | '+' :: rest => (false, rest)
  | cs => (false, cs)

/-- An exponent that takes up all characters; none at all is zero. -/
def exponent? : List Char → Option Int
  | [] => some 0
  | c :: rest =>
    if c = 'e' ∨ c = 'E' then
      let (negative, digits) := splitSign rest
      if digits.isEmpty || !digits.all isDigit then none
      else some (if negative then -(digitsValue digits : Int) else digitsValue digits)
    else none

/-- The number that digits, a point and an exponent spell. -/
def decimal? (negative : Bool) (cs : List Char) : Option Binary64 :=
  let whole := cs.takeWhile isDigit
  let rest := cs.dropWhile isDigit
  let (fraction, rest) :=
    match rest with
    | '.' :: rest => (rest.takeWhile isDigit, rest.dropWhile isDigit)
    | _ => ([], rest)
  if whole.isEmpty && fraction.isEmpty then none
  else
    (exponent? rest).map fun e =>
      ofDecimal negative (digitsValue (whole ++ fraction)) (e - fraction.length)

/-- The number that one of the words stands for, in any case. -/
def word? (negative : Bool) (cs : List Char) : Option Binary64 :=
  let word := String.ofList (cs.map Char.toLower)
  if word = "inf" ∨ word = "infinity" then some (infinity negative)
  else if word = "nan" then some notANumber
  else none

def read? (text : String) : Option Binary64 := do
  let cs := Text.trimEnds (· == ' ') (text.toList.map normalize)
  let (negative, magnitude) := splitSign (← dropUnderscores false cs)
  (word? negative magnitude).orElse fun _ => decimal? negative magnitude

end LinearDialogue.Binary64.Reading
