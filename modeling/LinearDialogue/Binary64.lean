/-!
# Binary floating-point numbers

A number is the 64-bit word of the binary64 interchange format.  Every finite word is read as an
exact dyadic rational, significand times a power of two, and the operations go through that
reading in integer arithmetic: comparison, product, and the rounding of a quotient to the nearest
number with ties to the even significand.
-/

namespace LinearDialogue

/-- A binary64 number, given by its word. -/
structure Binary64 where
  word : UInt64
  deriving DecidableEq, Hashable

namespace Binary64

/-- What a word stands for: no number, an infinity, or `± significand · 2 ^ exponent`. -/
inductive Meaning
  | notANumber
  | infinite (negative : Bool)
  | finite (negative : Bool) (significand : Nat) (exponent : Int)
  deriving DecidableEq

/-- The value of the sign bit, bit 63. -/
def signUnit : Nat := 1 <<< 63

/-- The value of the lowest exponent bit, which is also that of the leading bit that significands
leave out. -/
def exponentUnit : Nat := 1 <<< 52

def negative (x : Binary64) : Bool := signUnit ≤ x.word.toNat

def exponentField (x : Binary64) : Nat := x.word.toNat / exponentUnit % 2048

/-- The low 52 bits. -/
def fractionField (x : Binary64) : Nat := x.word.toNat % exponentUnit

def meaning (x : Binary64) : Meaning :=
  if x.exponentField = 2047 then
    if x.fractionField = 0 then .infinite x.negative else .notANumber
  else if x.exponentField = 0 then .finite x.negative x.fractionField (-1074)
  else .finite x.negative (exponentUnit + x.fractionField) (x.exponentField - 1075)

/-- The word with the given sign whose other bits spell `magnitude`. -/
def ofMagnitude (negative : Bool) (magnitude : Nat) : Binary64 :=
  ⟨UInt64.ofNat (magnitude + if negative then signUnit else 0)⟩

def zero (negative : Bool) : Binary64 := ofMagnitude negative 0

def infinity (negative : Bool) : Binary64 := ofMagnitude negative (2047 * exponentUnit)

def notANumber : Binary64 := ofMagnitude false (2047 * exponentUnit + exponentUnit / 2)

def one : Binary64 := ofMagnitude false (1023 * exponentUnit)

/-- `n / d` to the nearest integer; a half goes to the even neighbour. -/
def divideToEven (n d : Nat) : Nat :=
  let q := n / d
  let r := n % d
  if 2 * r < d then q else if d < 2 * r then q + 1 else q + q % 2

/-- The largest `k` with `2 ^ k ≤ n / d`, for positive `n` and `d`. -/
def binaryExponent (n d : Nat) : Int :=
  let k : Int := n.log2 - d.log2
  if n <<< (-k).toNat < d <<< k.toNat then k - 1 else k

/-- The number nearest to `± n / d`; too large a quotient gives an infinity.  The significand is
rounded at the quotient's own exponent, which is bounded below by that of the smallest numbers,
and a carry out of the significand runs into the exponent bits by itself. -/
def ofQuotient (negative : Bool) (n d : Nat) : Binary64 :=
  if n = 0 then zero negative
  else
    let q := max (binaryExponent n d - 52) (-1074)
    let significand := divideToEven (n <<< (-q).toNat) (d <<< q.toNat)
    ofMagnitude negative (min (significand + (q + 1074).toNat * exponentUnit) (2047 * exponentUnit))

/-- The number nearest to an integer, or `none` where that is beyond every finite number. -/
def ofInt? (n : Int) : Option Binary64 :=
  let x := ofQuotient (decide (n < 0)) n.natAbs 1
  if x.exponentField = 2047 then none else some x

def powerOfTen (n : Nat) : Nat := Nat.pow 10 n

/-- The number nearest to `± digits · 10 ^ exponent`.  Beyond the range of the format the power of
ten is not computed: the answer is a zero or an infinity. -/
def ofDecimal (negative : Bool) (digits : Nat) (exponent : Int) : Binary64 :=
  if digits = 0 then zero negative
  else if 400 < exponent then infinity negative
  else if exponent + (digits.log2 / 3 + 1 : Nat) < -400 then zero negative
  else ofQuotient negative (digits * powerOfTen exponent.toNat) (powerOfTen (-exponent).toNat)

/-- A finite number as an integer count of the smallest positive number, `2 ^ (-1074)`. -/
def units? (x : Binary64) : Option Int :=
  match x.meaning with
  | .finite negative m q =>
    let n : Int := (m <<< (q + 1074).toNat : Nat)
    some (if negative then -n else n)
  | _ => none

def unitsOfOne : Nat := 1 <<< 1074

/-- An integer as a count of the smallest positive number. -/
def unitsOfInt (n : Int) : Int := n * unitsOfOne

/-- The integer a number is equal to, if there is one. -/
def toInt? (x : Binary64) : Option Int :=
  x.units?.bind fun u => if u % unitsOfOne = 0 then some (u / unitsOfOne) else none

def isZero (x : Binary64) : Bool := x.units? == some 0

/-- Where a number stands on the extended line: below, on, or above the finite units. -/
inductive Rank
  | below
  | at (units : Int)
  | above
  deriving DecidableEq

/-- The order of ranks. -/
def Rank.lt : Rank → Rank → Bool
  | .below, .below => false
  | .below, _ => true
  | .at _, .below => false
  | .at a, .at b => a < b
  | .at _, .above => true
  | .above, _ => false

/-- The rank of a number; no rank for the word that stands for none. -/
def rank? (x : Binary64) : Option Rank :=
  match x.meaning with
  | .notANumber => none
  | .infinite negative => some (if negative then .below else .above)
  | .finite _ _ _ => x.units?.map .at

/-- The product, rounded to nearest. -/
def mul (x y : Binary64) : Binary64 :=
  match x.meaning, y.meaning with
  | .notANumber, _ | _, .notANumber => notANumber
  | .infinite s, .infinite t => infinity (s != t)
  | .infinite s, .finite t m _ => if m = 0 then notANumber else infinity (s != t)
  | .finite s m _, .infinite t => if m = 0 then notANumber else infinity (s != t)
  | .finite s m p, .finite t n q =>
    ofQuotient (s != t) ((m * n) <<< (p + q).toNat) (1 <<< (-(p + q)).toNat)

end Binary64

end LinearDialogue
