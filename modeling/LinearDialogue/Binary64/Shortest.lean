import LinearDialogue.Binary64

/-!
# Shortest decimals

The fewest decimal digits that read back as a given number, and of those with that many digits the
nearest to it.  Every real between the halfway points to the two neighbours reads back; the halfway
points themselves do exactly when the significand is even.  The search tests, for one digit, two
digits and so on, the two decimals of that length around the exact value, in natural number
arithmetic only.
-/

namespace LinearDialogue.Binary64

/-- The decimal `digits · 10 ^ exponent`. -/
structure Decimal where
  digits : Nat
  exponent : Int
  deriving DecidableEq

/-- The reals that round to a positive number, over one denominator: the exact value is
`value / denominator`, the ends are `low / denominator` and `high / denominator`, and `closed` says
whether the ends belong to it. -/
structure RoundingInterval where
  low : Nat
  value : Nat
  high : Nat
  denominator : Nat
  closed : Bool
  deriving DecidableEq

/-- The rounding interval of `m · 2 ^ q`.  Below a power of two the spacing halves. -/
def roundingInterval (m : Nat) (q : Int) : RoundingInterval :=
  let scale := 1 <<< q.toNat
  let below := if m = exponentUnit ∧ -1074 < q then 1 else 2
  { low := (4 * m - below) * scale
    value := 4 * m * scale
    high := (4 * m + 2) * scale
    denominator := 4 <<< (-q).toNat
    closed := m % 2 = 0 }

/-- Does the interval hold `n / d`? -/
def RoundingInterval.holds (r : RoundingInterval) (n d : Nat) : Bool :=
  let left := r.low * d
  let right := r.high * d
  let point := n * r.denominator
  if r.closed then left ≤ point && point ≤ right else left < point && point < right

/-- The largest `k` with `10 ^ k ≤ n / d`, found by stepping from a start that is too small. -/
def decimalExponent (n d : Nat) : Nat → Int → Int
  | 0, k => k
  | fuel + 1, k =>
    if d * powerOfTen (k + 1).toNat ≤ n * powerOfTen (-(k + 1)).toNat then
      decimalExponent n d fuel (k + 1)
    else k

/-- The decimal with grid `10 ^ exponent` that the interval holds and that is nearest to the exact
value; of two equally near ones the even. -/
def RoundingInterval.nearestOn (r : RoundingInterval) (exponent : Int) : Option Decimal :=
  let up := powerOfTen exponent.toNat
  let down := powerOfTen (-exponent).toNat
  let floor := r.value * down / (r.denominator * up)
  let under := r.value * down - floor * (r.denominator * up)
  let above := r.denominator * up - under
  let lowHit := r.holds (floor * up) down
  let highHit := r.holds ((floor + 1) * up) down
  if lowHit && (!highHit || under < above || (under == above && floor % 2 == 0)) then
    some ⟨floor, exponent⟩
  else if highHit then some ⟨floor + 1, exponent⟩
  else none

/-- The first hit on grids of `length`, `length + 1`, … digits. -/
def RoundingInterval.search (r : RoundingInterval) (top : Int) : Nat → Nat → Decimal
  | 0, length => ⟨r.value * powerOfTen (length - top).toNat / r.denominator, top - length⟩
  | fuel + 1, length =>
    match r.nearestOn (top - length + 1) with
    | some hit => hit
    | none => r.search top fuel (length + 1)

def Decimal.trim : Nat → Decimal → Decimal
  | 0, x => x
  | fuel + 1, x =>
    if x.digits ≠ 0 ∧ x.digits % 10 = 0 then Decimal.trim fuel ⟨x.digits / 10, x.exponent + 1⟩
    else x

/-- The shortest decimal that reads back as `m · 2 ^ q`. -/
def shortestDecimal (m : Nat) (q : Int) : Decimal :=
  let r := roundingInterval m q
  let start : Int := ((binaryExponent r.value r.denominator) * 3) / 10 - 3
  let top := decimalExponent r.value r.denominator 400 (min start (start * 11 / 10))
  (r.search top 17 1).trim 20

end LinearDialogue.Binary64
