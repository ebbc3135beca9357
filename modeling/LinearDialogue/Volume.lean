import LinearDialogue.Binary64.Reading
import LinearDialogue.Failure

/-!
# Volumes

Volumes are numbers between zero and one.  What is given as a volume is brought into that range; the
number that is none counts as the loudest.
-/

namespace LinearDialogue.Volume

def oneRank : Binary64.Rank := .at (Binary64.unitsOfInt 1)

def zeroRank : Binary64.Rank := .at 0

/-- The number nearest to a given one between zero and one. -/
def clamp (x : Binary64) : Binary64 :=
  match x.rank? with
  | none => .one
  | some r =>
    if r.lt oneRank then if zeroRank.lt r then x else .zero false else .one

/-- A value as a number, by form or by meaning. -/
def number : Value → Except Failure Binary64
  | .bool b => .ok (if b then .one else .zero false)
  | .float x => .ok x
  | .int n =>
    match Binary64.ofInt? n with
    | some x => .ok x
    | none => .error .numberTooLarge
  | .text s =>
    match Binary64.Reading.read? s with
    | some x => .ok x
    | none => .error (.badArgument (.noNumber s))
  | _ => .error .wrongType

/-- A number as a volume.  Integers need no rounding: below one they give zero, else one. -/
def ofNumber : Value → Except Failure Binary64
  | .bool b => .ok (if b then .one else .zero false)
  | .int n => .ok (if n < 1 then .zero false else .one)
  | .float x => .ok (clamp x)
  | _ => .error .wrongType

end LinearDialogue.Volume
