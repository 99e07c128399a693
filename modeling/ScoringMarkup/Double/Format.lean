import ScoringMarkup.Double.Decimal

/-!
# Texts of binary64 numbers

A format fixes what is left open by the shortest digits: where a tie goes, which magnitudes are
written with all their places, and whether a whole number shows a fraction. Documents use
`Double.documentFormat`; constants in markup and in diagnostics use `Double.plainFormat`, and
write small whole numbers with one decimal.
-/

namespace ScoringMarkup

namespace Decimal

/-- The value with all its places and no exponent; a value on a whole power of ten has no
fraction. -/
def positional (d : Decimal) : List Char :=
  let digits := Nat.toDigits 10 d.coefficient
  match d.exponent with
  | .ofNat zeros => digits ++ List.replicate zeros '0'
  | .negSucc n =>
    let places := n + 1
    if digits.length ≤ places then
      '0' :: '.' :: (List.replicate (places - digits.length) '0' ++ digits)
    else
      let whole := digits.length - places
      digits.take whole ++ '.' :: digits.drop whole

/-- The power of ten of the leading digit. -/
def leadingExponent (d : Decimal) : Int :=
  (Nat.toDigits 10 d.coefficient).length + d.exponent - 1

/-- One digit, the others behind a point, and the signed exponent. -/
def scientific (d : Decimal) : List Char :=
  let digits := Nat.toDigits 10 d.coefficient
  let exponent := d.leadingExponent
  let sign := if exponent < 0 then '-' else '+'
  let fraction := digits.drop 1
  let point := if fraction.isEmpty then [] else ['.']
  digits.take 1 ++ point ++ fraction ++ 'e' :: sign :: Nat.toDigits 10 exponent.natAbs

end Decimal

/-- What a text of a finite number decides beyond its shortest digits. -/
structure NumberFormat where
  /-- Where the last digit goes when two decimals are equally near. -/
  tie : Tie
  /-- Whether a leading digit at this power of ten is written with all its places. -/
  isPositional : Int → Bool
  /-- Whether a whole number written with all its places ends in `.0`. -/
  marksWhole : Bool

namespace Double

/-- Documents write all places from `10 ^ -5` to below `10 ^ 16`, and mark whole numbers. -/
def documentFormat : NumberFormat :=
  ⟨.even, fun exponent => decide (-5 ≤ exponent ∧ exponent ≤ 15), true⟩

/-- Plain text never has an exponent. -/
def plainFormat : NumberFormat := ⟨.up, fun _ => true, false⟩

/-- The digits of the magnitude of a finite field. -/
def magnitudeText (format : NumberFormat) (field : Nat) : List Char :=
  let d : Decimal := if field = 0 then ⟨0, 0⟩ else Decimal.shortest format.tie field
  if format.isPositional d.leadingExponent then
    d.positional ++ if format.marksWhole && decide (0 ≤ d.exponent) then ['.', '0'] else []
  else d.scientific

/-- The sign as it stands in front of a magnitude. -/
def signText (x : Double) : List Char := if x.isNegative then ['-'] else []

/-- The text of a finite number in a document. -/
def documentText (x : Double) : String :=
  String.ofList (x.signText ++ magnitudeText documentFormat x.field)

/-- The whole magnitude of a finite number that has no fraction and is below `10 ^ 15`. -/
def smallWhole? (x : Double) : Option Nat :=
  let whole := x.parts / partsPerOne
  if x.parts % partsPerOne = 0 ∧ whole < Nat.pow 10 15 then some whole else none

/-- The text of a finite number as a constant: small whole numbers have one decimal, all others
their shortest digits without an exponent. -/
def plainText (x : Double) : List Char :=
  x.signText ++
    match x.smallWhole? with
    | some whole => Nat.toDigits 10 whole ++ ['.', '0']
    | none => magnitudeText plainFormat x.field

/-- The text of a number as a constant, the three special values by their markup names. -/
def markupText (x : Double) : String :=
  if x.isNaN then "NaN"
  else if x.isInfinite then (if x.isNegative then "-INF" else "INF")
  else String.ofList x.plainText

end Double

end ScoringMarkup
