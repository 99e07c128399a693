import ScoringMarkup.Double.Basic

/-!
# Scaling by powers of ten

A decimal that is read is scaled in binary64 arithmetic: the significand is rounded first, then
multiplied or divided once by the rounded power of ten. The result may differ from the nearest
number in its last place. Powers beyond the largest finite one are taken in several divisions,
and a result that would be infinite is refused.
-/

namespace ScoringMarkup

namespace Double

/-- The largest power of ten that is finite. -/
def largestPower : Nat := 308

/-- Divides by the largest power of ten a number of times, or until nothing is left. -/
def lower : Nat → Double → Double
  | 0, x => x
  | rounds + 1, x =>
    if x.field = 0 then x else lower rounds (quotient x (powerOfTen largestPower))

/-- The number read from a significand and a power of ten, unless it is too large. -/
def ofScaled? (significand : Nat) (exponent : Int) : Option Double :=
  let x := ofNat significand
  match exponent with
  | .ofNat k =>
    if k ≤ largestPower then
      let y := product x (powerOfTen k)
      if y.isInfinite then none else some y
    else if x.field = 0 then some x
    else none
  | .negSucc k =>
    some (quotient (lower (k / largestPower) x) (powerOfTen (k % largestPower + 1)))

end Double

end ScoringMarkup
