import ScoringMarkup.Double.Basic

/-!
# Shortest decimals

A decimal is a coefficient on a power of ten. The shortest decimal of a number lies on the
coarsest decimal grid that has a point reading back as that number; only the two points around
the number need a test, and of two hits the nearer is taken. The format that prints it says
where an exact tie goes.
-/

namespace ScoringMarkup

/-- The value `coefficient * 10 ^ exponent`. -/
structure Decimal where
  coefficient : Nat
  exponent : Int
  deriving DecidableEq

/-- Which of two equally near grid points is taken. -/
inductive Tie
  /-- The larger magnitude. -/
  | up
  /-- The even coefficient. -/
  | even
  deriving DecidableEq

namespace Decimal

/-- The numerator of the value as a ratio of naturals. -/
def numerator (d : Decimal) : Nat := d.coefficient * Nat.pow 10 d.exponent.toNat

/-- The denominator of the value as a ratio of naturals. -/
def denominator (d : Decimal) : Nat := Nat.pow 10 (-d.exponent).toNat

/-- The field nearest to the value. -/
def nearestField (d : Decimal) : Nat := Double.nearestField d.numerator d.denominator

/-- Every digit of a magnitude: a part has 1074 decimal places. -/
def exact (field : Nat) : Decimal := ⟨Double.partsOfField field * Nat.pow 5 1074, -1074⟩

/-- The point of the grid `10 ^ exponent` that stands for the magnitude of a field, if one of
the two around it reads back. -/
def onGrid? (tie : Tie) (field : Nat) (exponent : Int) : Option Decimal :=
  let num := Double.partsOfField field * Nat.pow 10 (-exponent).toNat
  let den := Double.partsPerOne * Nat.pow 10 exponent.toNat
  let low := num / den
  let lower : Decimal := ⟨low, exponent⟩
  let upper : Decimal := ⟨low + 1, exponent⟩
  let twice := 2 * (num % den)
  if lower.nearestField = field then
    if upper.nearestField = field
        ∧ (den < twice ∨ (den = twice ∧ (tie = .up ∨ low % 2 = 1))) then
      some upper
    else some lower
  else if upper.nearestField = field then some upper
  else none

/-- The least power of ten above a magnitude, found on its first 400 decimal places. -/
def orderOfMagnitude (field : Nat) : Int :=
  let places := Double.partsOfField field * Nat.pow 10 400 / Double.partsPerOne
  (Nat.toDigits 10 places).length - 400

/-- The decimal with the fewest digits that reads back as the magnitude of a finite field, the
nearest one among those; seventeen digits are always enough, and the exact digits stand behind
them. -/
def shortest (tie : Tie) (field : Nat) : Decimal :=
  let order := orderOfMagnitude field
  ((List.range 18).findSome? fun (digits : Nat) =>
    onGrid? tie field (order - digits)).getD (exact field)

theorem nearestField_of_onGrid? {tie : Tie} {field : Nat} {exponent : Int} {d : Decimal}
    (h : onGrid? tie field exponent = some d) : d.nearestField = field := by
  simp only [onGrid?] at h
  split at h
  case isTrue hlower =>
    split at h
    case isTrue hupper =>
      cases h
      exact hupper.1
    case isFalse =>
      cases h
      exact hlower
  case isFalse =>
    split at h
    case isTrue hupper =>
      cases h
      exact hupper
    case isFalse => cases h

end Decimal

end ScoringMarkup
