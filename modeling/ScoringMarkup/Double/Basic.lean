/-!
# Binary64 numbers and exact rounding

A number is its 64 bits. The low 63 bits are its *field*: fields are ordered as the magnitudes
they stand for, so rounding is done on fields, and every finite magnitude is a whole number of
*parts*, the smallest positive number being one part. A ratio of naturals is rounded to the
nearest field in exact arithmetic, ties going to the even field, and products and quotients of
finite numbers are that rounding of the exact result.
-/

namespace ScoringMarkup

/-- A binary64 number given by its bits, so that the two zeros and all NaNs stay apart. -/
structure Double where
  /-- Sign, exponent and fraction, from the highest bit down. -/
  bits : UInt64
  deriving DecidableEq

namespace Double

/-- The field of the infinities; a larger field is that of a NaN. -/
def infinityField : Nat := 2047 <<< 52

/-- One is this many parts. -/
def partsPerOne : Nat := 1 <<< 1074

/-- Whether the sign bit is set. -/
def isNegative (x : Double) : Bool := decide (1 <<< 63 ≤ x.bits.toNat)

/-- The bits below the sign. -/
def field (x : Double) : Nat := x.bits.toNat % 1 <<< 63

def isNaN (x : Double) : Bool := decide (infinityField < x.field)

def isInfinite (x : Double) : Bool := decide (x.field = infinityField)

def isFinite (x : Double) : Bool := decide (x.field < infinityField)

/-- The number of a sign and a field of 63 bits. -/
def ofField (negative : Bool) (field : Nat) : Double :=
  ⟨UInt64.ofNat ((if negative then 1 <<< 63 else 0) + field)⟩

/-- The magnitude of a field in parts: the significand, shifted once for each binade above the
lowest normal one. -/
def partsOfField (field : Nat) : Nat :=
  let shift := field >>> 52 - 1
  (field - shift <<< 52) <<< shift

/-- The magnitude of a finite number in parts. -/
def parts (x : Double) : Nat := partsOfField x.field

/-- The quotient rounded to the nearest natural, a half going to the even neighbour. -/
def roundHalfEven (num den : Nat) : Nat :=
  let quotient := num / den
  let remainder := num % den
  if den < 2 * remainder ∨ (den = 2 * remainder ∧ quotient % 2 = 1) then quotient + 1
  else quotient

/-- The field nearest to `num / den`. The quotient in parts keeps 53 bits, and adding the rounded
significand to the shift carries into the next binade by itself. -/
def nearestField (num den : Nat) : Nat :=
  let scaled := num * partsPerOne
  let shift := (scaled / den).log2 - 52
  min (shift <<< 52 + roundHalfEven scaled (den <<< shift)) infinityField

/-- The number nearest to the ratio `num / den`, with the given sign. -/
def ofRatio (negative : Bool) (num den : Nat) : Double :=
  ofField negative (nearestField num den)

/-- The number nearest to a natural. -/
def ofNat (n : Nat) : Double := ofRatio false n 1

/-- The number nearest to `10 ^ k`. -/
def powerOfTen (k : Nat) : Double := ofNat (Nat.pow 10 k)

/-- The same magnitude with the other sign. -/
def negate (x : Double) : Double := ofField (!x.isNegative) x.field

/-- The product of two finite numbers, rounded once. -/
def product (x y : Double) : Double :=
  ofRatio (x.isNegative != y.isNegative) (x.parts * y.parts) (partsPerOne * partsPerOne)

/-- The quotient of two finite numbers, rounded once; the divisor is not zero. -/
def quotient (x y : Double) : Double :=
  ofRatio (x.isNegative != y.isNegative) x.parts y.parts

/-- A number is its bits. -/
theorem ext_bits {x y : Double} (h : x.bits.toNat = y.bits.toNat) : x = y := by
  cases x; cases y
  exact congrArg Double.mk (UInt64.toNat_inj.1 h)

/-- A field lies below the sign bit. -/
theorem field_lt (x : Double) : x.field < 1 <<< 63 := Nat.mod_lt _ (by decide)

/-- A number that is made from a field has that field. -/
@[simp] theorem field_ofField (negative : Bool) {field : Nat} (h : field < 1 <<< 63) :
    (ofField negative field).field = field := by
  cases negative <;> simp [ofField, Double.field] <;> omega

/-- A number that is made with a sign has that sign. -/
@[simp] theorem isNegative_ofField (negative : Bool) {field : Nat} (h : field < 1 <<< 63) :
    (ofField negative field).isNegative = negative := by
  cases negative <;> simp [ofField, isNegative] <;> omega

/-- A number is its sign and its field. -/
@[simp] theorem ofField_field (x : Double) : ofField x.isNegative x.field = x := by
  have h := x.bits.toNat_lt
  apply ext_bits
  simp only [ofField, isNegative, field, decide_eq_true_eq, UInt64.toNat_ofNat',
    Nat.reduceShiftLeft]
  split <;> omega

end Double

end ScoringMarkup
