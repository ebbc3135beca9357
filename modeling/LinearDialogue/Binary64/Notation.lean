import LinearDialogue.Binary64.Shortest

/-!
# Written numbers

How a binary number is written: its shortest decimal, positionally while the point stands near the
digits and with an exponent otherwise.  The choices of the written form are the fields of one
record.
-/

namespace LinearDialogue.Binary64

structure WrittenForm where
  /-- Numbers below ten to this power are written with an exponent. -/
  leastPositional : Int
  /-- Numbers from ten to this power on are written with an exponent. -/
  firstExponential : Int
  /-- How many digits an exponent has at least. -/
  exponentDigits : Nat
  notANumber : String
  infinity : String

/-- Numbers are positional from `0.0001` up to below ten to the sixteenth; exponents carry a sign
and two digits. -/
def plainForm : WrittenForm := ⟨-4, 16, 2, "nan", "inf"⟩

/-- Digits of `n` with zeros in front up to the given length. -/
def paddedDigits (length n : Nat) : List Char :=
  let digits := Nat.toDigits 10 n
  List.replicate (length - digits.length) '0' ++ digits

def WrittenForm.exponentText (form : WrittenForm) (e : Int) : List Char :=
  (if e < 0 then '-' else '+') :: paddedDigits form.exponentDigits e.natAbs

/-- A positive decimal in the given form.  `point` is how many digits stand before the point. -/
def WrittenForm.decimalText (form : WrittenForm) (x : Decimal) : List Char :=
  let digits := Nat.toDigits 10 x.digits
  let point : Int := digits.length + x.exponent
  if form.leastPositional < point ∧ point ≤ form.firstExponential then
    if point ≤ 0 then '0' :: '.' :: (List.replicate (-point).toNat '0' ++ digits)
    else
      let whole := digits.take point.toNat
      let fraction := digits.drop point.toNat
      whole ++ List.replicate (point.toNat - whole.length) '0' ++
        '.' :: (if fraction.isEmpty then ['0'] else fraction)
  else
    let mantissa :=
      match digits with
      | [] => []
      | [d] => [d]
      | d :: rest => d :: '.' :: rest
    mantissa ++ 'e' :: form.exponentText (point - 1)

def WrittenForm.text (form : WrittenForm) (x : Binary64) : String :=
  match x.meaning with
  | .notANumber => form.notANumber
  | .infinite negative => (if negative then "-" else "") ++ form.infinity
  | .finite negative m q =>
    (if negative then "-" else "") ++
      if m = 0 then "0.0" else String.ofList (form.decimalText (shortestDecimal m q))

def text (x : Binary64) : String := plainForm.text x

end LinearDialogue.Binary64
