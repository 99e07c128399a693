import Mathlib.Algebra.Order.Group.Unbundled.Abs
import Mathlib.Algebra.Order.Field.Rat
import Mathlib.Tactic.Linarith
import Mathlib.Tactic.Ring
import ScoringMarkup.Value
import ScoringMarkup.Proofs.Double.Shortest
import ScoringMarkup.Proofs.Json.Numbers

/-!
# Constants denote their numbers

A plain decimal numeral is a sign, digits and a fraction, and denotes the number nearest to its
value, ties going to even. The text of every finite number is such a numeral and denotes that number
alone, with its sign, so that no two numbers share a text.
-/

namespace ScoringMarkup

/-- Minus one for negative values. -/
def signFactor (negative : Bool) : ℚ := if negative then -1 else 1

namespace Double

/-- The value of a number. An infinity counts as the number that would follow the largest finite
one. -/
def toRat (x : Double) : ℚ := signFactor x.isNegative * (x.parts / partsPerOne)

/-- Whether a number lies nearest to a value: no other one lies nearer, and if another one lies as
near, it is the even one. -/
structure IsNearest (value : ℚ) (x : Double) : Prop where
  isNaN_eq_false : x.isNaN = false
  le : ∀ y : Double, y.isNaN = false → |value - x.toRat| ≤ |value - y.toRat|
  even : ∀ y : Double, y.isNaN = false → y.toRat ≠ x.toRat →
    |value - x.toRat| = |value - y.toRat| → x.field % 2 = 0

/-- A double is its sign and its field. -/
theorem eq_of_field_eq {x y : Double} (hsign : x.isNegative = y.isNegative)
    (hfield : x.field = y.field) : x = y := by
  rw [← ofField_field x, ← ofField_field y, hsign, hfield]

/-- At one sign, doubles of the same value have the same field. -/
theorem field_eq_of_toRat_eq {x y : Double} (hsign : x.isNegative = y.isNegative)
    (h : x.toRat = y.toRat) : x.field = y.field := by
  have hone : (partsPerOne : ℚ) ≠ 0 := Nat.cast_ne_zero.2 (Nat.ne_of_gt partsPerOne_pos)
  have hfactor : signFactor y.isNegative ≠ 0 := by cases y.isNegative <;> simp [signFactor]
  rw [toRat, toRat, hsign] at h
  have hparts := (div_left_inj' hone).1 (mul_left_cancel₀ hfactor h)
  exact partsOfField_strictMono.injective (by exact_mod_cast hparts)

/-- The distance of a number from a value with a sign, in parts. -/
theorem distance_eq (negative : Bool) (magnitude : ℚ) (y : Double) :
    |signFactor negative * magnitude - y.toRat| * partsPerOne =
      if y.isNegative = negative then |magnitude * partsPerOne - y.parts|
      else |magnitude * partsPerOne + y.parts| := by
  have hone : (0 : ℚ) < partsPerOne := by exact_mod_cast partsPerOne_pos
  rw [toRat, ← abs_of_pos hone, ← abs_mul, abs_of_pos hone]
  cases negative <;> cases y.isNegative
  all_goals
    simp only [signFactor, Bool.false_eq_true, Bool.true_eq_false, if_true, if_false]
    rw [sub_mul, mul_assoc, mul_assoc, div_mul_cancel₀ _ (ne_of_gt hone)]
  · rw [one_mul, one_mul]
  · rw [one_mul, neg_one_mul, sub_neg_eq_add]
  · rw [one_mul, neg_one_mul, ← abs_neg, neg_sub, sub_neg_eq_add, add_comm]
  · rw [neg_one_mul, neg_one_mul, ← abs_neg, neg_sub, sub_neg_eq_add, add_comm, sub_eq_add_neg]

/-- A number whose field a magnitude rounds to lies nearest to that magnitude at its own sign. -/
theorem RoundsTo.isNearest {x : Double} (hx : x.isFinite = true) {magnitude : ℚ}
    (hmagnitude : 0 ≤ magnitude) (h : RoundsTo (magnitude * partsPerOne) x.field) :
    IsNearest (signFactor x.isNegative * magnitude) x := by
  have hone : (0 : ℚ) < partsPerOne := by exact_mod_cast partsPerOne_pos
  have hvalue : 0 ≤ magnitude * partsPerOne := mul_nonneg hmagnitude (le_of_lt hone)
  have hle (y : Double) :
      |magnitude * partsPerOne - x.parts| ≤ |magnitude * partsPerOne - y.parts| :=
    h.nearest_le y.field
  have hopposite (y : Double) :
      |magnitude * partsPerOne - y.parts| ≤ |magnitude * partsPerOne + y.parts| := by
    have hparts : (0 : ℚ) ≤ y.parts := Nat.cast_nonneg _
    rw [abs_of_nonneg (add_nonneg hvalue hparts), abs_le]
    constructor <;> linarith
  refine ⟨?_, fun y _ => ?_, fun y _ hne heq => ?_⟩
  · rw [isNaN, decide_eq_false_iff_not, not_lt]
    exact Nat.le_of_lt (of_decide_eq_true hx)
  · rw [← mul_le_mul_iff_left₀ hone, distance_eq, distance_eq, if_pos rfl]
    split
    · exact hle y
    · exact (hle y).trans (hopposite y)
  · rw [← mul_left_inj' (ne_of_gt hone), distance_eq, distance_eq, if_pos rfl] at heq
    have hdistance : |magnitude * partsPerOne - x.parts| = |magnitude * partsPerOne - y.parts| := by
      split at heq
      · exact heq
      · exact le_antisymm (hle y) ((hopposite y).trans (le_of_eq heq.symm))
    refine (h.even_of_distance_eq (fun hfield => hne ?_) hdistance).1
    have hparts : y.parts = x.parts := congrArg partsOfField hfield
    split_ifs at heq with hsign
    · rw [toRat, toRat, hsign, hparts]
    · -- At the other sign only zero is as near to the value, for zero itself is not nearer.
      have hzero := h.nearest_le 0
      have hpositive : (0 : ℚ) ≤ x.parts := Nat.cast_nonneg _
      rw [← parts, heq, hparts, partsOfField_zero, Nat.cast_zero, sub_zero, abs_of_nonneg hvalue,
        abs_of_nonneg (add_nonneg hvalue hpositive)] at hzero
      have hnone : (x.parts : ℚ) = 0 := by linarith
      rw [toRat, toRat, hparts, hnone, zero_div, mul_zero, mul_zero]

/-- Of one sign, only one number whose field a magnitude rounds to lies nearest to it. -/
theorem RoundsTo.eq_of_isNearest {x y : Double} (hx : x.isFinite = true) {magnitude : ℚ}
    (hmagnitude : 0 ≤ magnitude) (h : RoundsTo (magnitude * partsPerOne) x.field)
    (hsign : y.isNegative = x.isNegative)
    (hy : IsNearest (signFactor x.isNegative * magnitude) y) : y = x := by
  have hone : (0 : ℚ) < partsPerOne := by exact_mod_cast partsPerOne_pos
  have hnearest := h.isNearest hx hmagnitude
  have heq := le_antisymm (hnearest.le y hy.isNaN_eq_false) (hy.le x hnearest.isNaN_eq_false)
  refine eq_of_field_eq hsign ?_
  by_contra hne
  have hdistance : |magnitude * partsPerOne - x.parts| = |magnitude * partsPerOne - y.parts| := by
    rw [← mul_left_inj' (ne_of_gt hone), distance_eq, distance_eq, if_pos rfl, if_pos hsign] at heq
    exact heq
  obtain ⟨-, hodd⟩ := h.even_of_distance_eq hne hdistance
  have heven := hy.even x hnearest.isNaN_eq_false
    (fun hvalue => hne (field_eq_of_toRat_eq hsign hvalue.symm)) heq.symm
  omega

end Double

/-- A plain decimal numeral: a sign, digits, and a fraction, which is left out if it is empty. -/
structure Numeral where
  negative : Bool
  whole : List Char
  fraction : List Char
  whole_ne_nil : whole ≠ []
  isDigit_of_mem : ∀ c ∈ whole ++ fraction, c.isDigit = true

namespace Numeral

/-- The fraction behind its point. -/
def fractionText : List Char → List Char
  | [] => []
  | fraction@(_ :: _) => '.' :: fraction

/-- A minus sign if there is one, the digits, and the fraction. -/
def text (n : Numeral) : String :=
  String.ofList ((if n.negative then ['-'] else []) ++ n.whole ++ fractionText n.fraction)

/-- The digits on the power of ten of the last one. -/
def magnitude (n : Numeral) : ℚ :=
  (Nat.ofDigitChars 10 (n.whole ++ n.fraction) 0 : Nat) / 10 ^ n.fraction.length

/-- The value that a numeral stands for. -/
def value (n : Numeral) : ℚ := signFactor n.negative * n.magnitude

/-- A numeral denotes the number of its sign that lies nearest to its value. -/
structure Denotes (n : Numeral) (x : Double) : Prop where
  isNegative_eq : x.isNegative = n.negative
  isNearest : x.IsNearest n.value

/-- A numeral whose magnitude rounds to the field of a finite number of its sign denotes that number
and no other. -/
theorem denotes_iff {n : Numeral} {x : Double} (hx : x.isFinite = true)
    (hsign : x.isNegative = n.negative)
    (h : Double.RoundsTo (n.magnitude * Double.partsPerOne) x.field) (y : Double) :
    n.Denotes y ↔ y = x := by
  have hmagnitude : 0 ≤ n.magnitude := by
    rw [magnitude]
    positivity
  constructor
  · rintro ⟨hy, hnearest⟩
    rw [value, ← hsign] at hnearest
    exact h.eq_of_isNearest hx hmagnitude (hy.trans hsign.symm) hnearest
  · rintro rfl
    refine ⟨hsign, ?_⟩
    rw [value, ← hsign]
    exact h.isNearest hx hmagnitude

theorem fractionText_of_ne_nil {fraction : List Char} (h : fraction ≠ []) :
    fractionText fraction = '.' :: fraction := by
  cases fraction with
  | nil => exact absurd rfl h
  | cons c cs => rfl

/-- A fraction is read off its text. -/
theorem fractionText_injective : Function.Injective fractionText := by
  rintro (- | ⟨c, cs⟩) (- | ⟨c', cs'⟩) h
  · rfl
  · cases h
  · cases h
  · exact (List.cons.inj h).2

/-- The digits in front of the fraction are all that come before its point. -/
theorem takeWhile_isDigit_append (n : Numeral) :
    (n.whole ++ fractionText n.fraction).takeWhile Char.isDigit = n.whole := by
  have hpoint : (fractionText n.fraction).takeWhile Char.isDigit = [] := by
    cases n.fraction <;> rfl
  rw [List.takeWhile_append_of_pos fun c hc => n.isDigit_of_mem c (List.mem_append_left _ hc),
    hpoint, List.append_nil]

/-- A minus sign is no digit. -/
theorem append_ne_minus (n : Numeral) (rest : List Char) :
    n.whole ++ fractionText n.fraction ≠ '-' :: rest := by
  intro h
  have hwhole := n.takeWhile_isDigit_append
  rw [h] at hwhole
  exact n.whole_ne_nil hwhole.symm

/-- The text of a numeral shows its sign, its digits and its fraction. -/
theorem eq_of_text_eq {n n' : Numeral} (h : n.text = n'.text) : n = n' := by
  have hchars := String.ofList_injective h
  rw [List.append_assoc, List.append_assoc] at hchars
  have hsign : n.negative = n'.negative := by
    cases hn : n.negative <;> cases hn' : n'.negative
    · rfl
    · rw [hn, hn'] at hchars
      exact absurd hchars (n.append_ne_minus _)
    · rw [hn, hn'] at hchars
      exact absurd hchars.symm (n'.append_ne_minus _)
    · rfl
  rw [hsign] at hchars
  have hdigits := List.append_cancel_left hchars
  have hwhole : n.whole = n'.whole := by
    rw [← takeWhile_isDigit_append, hdigits, takeWhile_isDigit_append]
  rw [hwhole] at hdigits
  have hfraction := fractionText_injective (List.append_cancel_left hdigits)
  cases n
  cases n'
  congr

end Numeral

namespace Decimal

/-- The digits of a decimal, with as many zeros in front or behind as its places need. -/
def paddedDigits (d : Decimal) : List Char :=
  let digits := Nat.toDigits 10 d.coefficient
  match d.exponent with
  | .ofNat zeros => digits ++ List.replicate zeros '0'
  | .negSucc n => List.replicate (n + 2 - digits.length) '0' ++ digits

/-- The number of digits behind the point. -/
def places (d : Decimal) : Nat := (-d.exponent).toNat

theorem places_ofNat (coefficient zeros : Nat) : places ⟨coefficient, .ofNat zeros⟩ = 0 :=
  Int.toNat_neg_natCast zeros

theorem places_negSucc (coefficient n : Nat) : places ⟨coefficient, .negSucc n⟩ = n + 1 := rfl

/-- There is at least one digit in front of the point. -/
theorem places_lt_length_paddedDigits (d : Decimal) : d.places < d.paddedDigits.length := by
  have hdigits : 0 < (Nat.toDigits 10 d.coefficient).length := Nat.length_toDigits_pos
  obtain ⟨coefficient, zeros | n⟩ := d
  · rw [places_ofNat, paddedDigits, List.length_append]
    omega
  · rw [places_negSucc, paddedDigits, List.length_append, List.length_replicate]
    omega

/-- Padding adds only digits. -/
theorem isDigit_of_mem_paddedDigits {d : Decimal} : ∀ c ∈ d.paddedDigits, c.isDigit = true := by
  have hdigits := Json.isDigit_of_mem_toDigits d.coefficient
  have hzeros (n : Nat) : ∀ c ∈ List.replicate n '0', c.isDigit = true := fun c hc => by
    rw [List.eq_of_mem_replicate hc]
    rfl
  obtain ⟨coefficient, zeros | n⟩ := d
  · exact fun c hc => (List.mem_append.1 hc).elim (hdigits c) (hzeros _ c)
  · exact fun c hc => (List.mem_append.1 hc).elim (hzeros _ c) (hdigits c)

/-- The padded digits spell the numerator. -/
theorem ofDigitChars_paddedDigits (d : Decimal) :
    Nat.ofDigitChars 10 d.paddedDigits 0 = d.numerator := by
  obtain ⟨coefficient, zeros | n⟩ := d
  · rw [paddedDigits, Nat.ofDigitChars_append, Nat.ofDigitChars_ten_toDigits,
      Nat.ofDigitChars_replicate_zero, Nat.mul_comm]
    rfl
  · rw [paddedDigits, Nat.ofDigitChars_append, Nat.ofDigitChars_replicate_zero, Nat.mul_zero,
      Nat.ofDigitChars_ten_toDigits]
    exact (Nat.mul_one coefficient).symm

/-- The digits in front of the point. -/
def wholeDigits (d : Decimal) : List Char :=
  d.paddedDigits.take (d.paddedDigits.length - d.places)

/-- The digits behind the point. -/
def fractionDigits (d : Decimal) : List Char :=
  d.paddedDigits.drop (d.paddedDigits.length - d.places)

/-- The point stands between padded digits. -/
theorem wholeDigits_append_fractionDigits (d : Decimal) :
    d.wholeDigits ++ d.fractionDigits = d.paddedDigits := List.take_append_drop _ _

/-- Behind the point there are as many digits as the decimal has places. -/
theorem length_fractionDigits (d : Decimal) : d.fractionDigits.length = d.places := by
  have h := d.places_lt_length_paddedDigits
  rw [fractionDigits, List.length_drop]
  omega

/-- In front of the point there is a digit. -/
theorem wholeDigits_ne_nil (d : Decimal) : d.wholeDigits ≠ [] := by
  have h := d.places_lt_length_paddedDigits
  rw [← List.length_pos_iff, wholeDigits, List.length_take]
  omega

/-- Without places, all padded digits stand in front of the point. -/
theorem wholeDigits_ofNat (coefficient zeros : Nat) :
    wholeDigits ⟨coefficient, .ofNat zeros⟩ =
      Nat.toDigits 10 coefficient ++ List.replicate zeros '0' := by
  rw [wholeDigits, places_ofNat, Nat.sub_zero, List.take_length, paddedDigits]

theorem fractionDigits_ofNat (coefficient zeros : Nat) :
    fractionDigits ⟨coefficient, .ofNat zeros⟩ = [] := by
  rw [fractionDigits, places_ofNat, Nat.sub_zero, List.drop_length]

/-- With no more digits than places, all of them stand behind a zero and the point. -/
theorem wholeDigits_of_few {coefficient n : Nat}
    (h : (Nat.toDigits 10 coefficient).length ≤ n + 1) :
    wholeDigits ⟨coefficient, .negSucc n⟩ = ['0'] ∧
      fractionDigits ⟨coefficient, .negSucc n⟩ =
        List.replicate (n + 1 - (Nat.toDigits 10 coefficient).length) '0' ++
          Nat.toDigits 10 coefficient := by
  rw [wholeDigits, fractionDigits, places_negSucc, paddedDigits]
  dsimp only
  generalize Nat.toDigits 10 coefficient = digits at *
  have hzeros : n + 2 - digits.length = (n + 1 - digits.length) + 1 := by omega
  have hlength : ((n + 1 - digits.length) + 1 + digits.length) - (n + 1) = 1 := by omega
  rw [hzeros, List.length_append, List.length_replicate, hlength, List.replicate_succ,
    List.cons_append, List.take_succ_cons, List.take_zero, List.drop_succ_cons, List.drop_zero]
  exact ⟨rfl, rfl⟩

/-- With more digits than places, the point stands among them. -/
theorem wholeDigits_of_many {coefficient n : Nat}
    (h : n + 1 < (Nat.toDigits 10 coefficient).length) :
    wholeDigits ⟨coefficient, .negSucc n⟩ =
        (Nat.toDigits 10 coefficient).take ((Nat.toDigits 10 coefficient).length - (n + 1)) ∧
      fractionDigits ⟨coefficient, .negSucc n⟩ =
        (Nat.toDigits 10 coefficient).drop ((Nat.toDigits 10 coefficient).length - (n + 1)) := by
  rw [wholeDigits, fractionDigits, places_negSucc, paddedDigits]
  dsimp only
  rw [Nat.sub_eq_zero_of_le (by omega : n + 2 ≤ _), List.replicate_zero, List.nil_append]
  exact ⟨rfl, rfl⟩

/-- All places of a decimal are its whole digits and its fraction. -/
theorem positional_eq (d : Decimal) :
    d.positional = d.wholeDigits ++ Numeral.fractionText d.fractionDigits := by
  have hne (h : 0 < d.places) : d.fractionDigits ≠ [] := by
    rwa [← List.length_pos_iff, length_fractionDigits]
  obtain ⟨coefficient, zeros | n⟩ := d
  · rw [wholeDigits_ofNat, fractionDigits_ofNat]
    exact (List.append_nil _).symm
  · rw [Numeral.fractionText_of_ne_nil (hne (Nat.succ_pos n)), positional]
    dsimp only
    split_ifs with hfew
    · obtain ⟨hwhole, hfraction⟩ := wholeDigits_of_few hfew
      rw [hwhole, hfraction]
      rfl
    · obtain ⟨hwhole, hfraction⟩ := wholeDigits_of_many (Nat.not_le.1 hfew)
      rw [hwhole, hfraction]

/-- A decimal with all its places, as a numeral. -/
def numeral (d : Decimal) (negative : Bool) : Numeral where
  negative := negative
  whole := d.wholeDigits
  fraction := d.fractionDigits
  whole_ne_nil := d.wholeDigits_ne_nil
  isDigit_of_mem := d.wholeDigits_append_fractionDigits ▸ isDigit_of_mem_paddedDigits

/-- The numeral of a decimal has its value. -/
theorem magnitude_numeral (d : Decimal) (negative : Bool) :
    (d.numeral negative).magnitude * Double.partsPerOne = d.parts := by
  rw [Numeral.magnitude, numeral, wholeDigits_append_fractionDigits, length_fractionDigits,
    ofDigitChars_paddedDigits, parts, Double.partsOfRatio, div_mul_eq_mul_div, denominator,
    Nat.pow_eq, Nat.cast_pow]
  rfl

/-- A whole number with one decimal. -/
theorem positional_tenths (whole : Nat) :
    positional ⟨10 * whole, -1⟩ = Nat.toDigits 10 whole ++ ['.', '0'] := by
  rcases Nat.eq_zero_or_pos whole with rfl | hpos
  · rfl
  · have hdigits : Nat.toDigits 10 (10 * whole) = Nat.toDigits 10 whole ++ ['0'] := by
      rw [← Nat.toDigits_zero 10, Nat.toDigits_append_toDigits (by decide) hpos (by decide),
        Nat.add_zero]
    have hlength : 0 < (Nat.toDigits 10 whole).length := Nat.length_toDigits_pos
    have hmany : ¬ (Nat.toDigits 10 whole ++ ['0']).length ≤ 0 + 1 := by
      rw [List.length_append, List.length_singleton]
      omega
    have hone : (-1 : Int) = .negSucc 0 := rfl
    rw [positional, hdigits, hone]
    dsimp only
    rw [if_neg hmany, List.length_append, List.length_singleton, Nat.zero_add, Nat.add_sub_cancel,
      List.take_left, List.drop_left]

/-- Ten tenths make a whole. -/
theorem parts_tenths (whole : Nat) :
    parts ⟨10 * whole, -1⟩ = (whole * Double.partsPerOne : Nat) := by
  rw [parts_eq, zpow_neg_one]
  push_cast
  ring

end Decimal

namespace Double

/-- The decimal that a constant shows. -/
def plainDecimal (x : Double) : Decimal :=
  match x.smallWhole? with
  | some whole => ⟨10 * whole, -1⟩
  | none => if x.field = 0 then ⟨0, 0⟩ else Decimal.shortest .up x.field

/-- A plain numeral is a sign and a decimal with all its places. -/
theorem plainText_eq (x : Double) : x.plainText = x.signText ++ x.plainDecimal.positional := by
  rw [plainText, plainDecimal]
  cases x.smallWhole? with
  | none => rw [magnitudeText]; exact congrArg _ (List.append_nil _)
  | some whole => exact congrArg _ (Decimal.positional_tenths whole).symm

/-- The decimal that a constant shows reads back as its number. -/
theorem nearestField_plainDecimal {x : Double} (hx : x.isFinite = true) :
    x.plainDecimal.nearestField = x.field := by
  have hfield : x.field < infinityField := of_decide_eq_true hx
  rw [plainDecimal]
  cases hwhole : x.smallWhole? with
  | none =>
    dsimp only
    split_ifs with hzero
    · rw [hzero, Decimal.nearestField_zero]
    · exact Decimal.nearestField_shortest _ hfield
  | some whole =>
    have hparts : x.parts = whole * partsPerOne := by
      rw [smallWhole?] at hwhole
      split_ifs at hwhole with hrest
      cases hwhole
      exact (Nat.div_mul_cancel (Nat.dvd_of_mod_eq_zero hrest.1)).symm
    rw [Decimal.nearestField_eq_iff _ hfield, Decimal.parts_tenths, ← hparts]
    exact RoundsTo.self x.field

/-- The text of a finite number is a numeral that denotes this number alone. -/
theorem exists_numeral {x : Double} (hx : x.isFinite = true) :
    ∃ n : Numeral, x.markupText = n.text ∧ ∀ y, n.Denotes y ↔ y = x := by
  have hfield : x.field < infinityField := of_decide_eq_true hx
  have hnumber : x.isNaN = false := decide_eq_false (Nat.lt_asymm hfield)
  have hbounded : x.isInfinite = false := decide_eq_false (Nat.ne_of_lt hfield)
  refine ⟨x.plainDecimal.numeral x.isNegative, ?_, Numeral.denotes_iff hx rfl ?_⟩
  · rw [markupText, hnumber, hbounded, if_neg Bool.false_ne_true, if_neg Bool.false_ne_true,
      plainText_eq, signText, Decimal.positional_eq, Numeral.text, List.append_assoc]
    rfl
  · rw [Decimal.magnitude_numeral, ← Decimal.nearestField_eq_iff _ hfield]
    exact nearestField_plainDecimal hx

/-- What is neither finite nor no number is infinite. -/
theorem isInfinite_of_not_isFinite {x : Double} (hx : x.isNaN = false) (h : x.isFinite ≠ true) :
    x.isInfinite = true := by
  have hle : ¬ infinityField < x.field := of_decide_eq_false hx
  have hge : ¬ x.field < infinityField := fun hlt => h (decide_eq_true hlt)
  exact decide_eq_true (by omega)

/-- Infinities are written by their names. -/
theorem markupText_of_isInfinite {x : Double} (h : x.isInfinite = true) :
    x.markupText = if x.isNegative then "-INF" else "INF" := by
  have hfield : x.field = infinityField := of_decide_eq_true h
  have hnumber : x.isNaN = false := by rw [isNaN, hfield]; exact decide_eq_false (Nat.lt_irrefl _)
  rw [markupText, hnumber, h, if_neg Bool.false_ne_true, if_pos rfl]

end Double

/-- No numeral is the text of an infinity. -/
theorem Numeral.text_ne_infinity (n : Numeral) (negative : Bool) :
    n.text ≠ if negative then "-INF" else "INF" := by
  intro h
  have hmem : 'I' ∈ n.text.toList := by
    rw [h]
    cases negative <;> decide
  have hdigit : ('I' : Char).isDigit = false := rfl
  have hfraction : 'I' ∈ fractionText n.fraction → 'I' ∈ n.fraction := by
    cases n.fraction <;> simp [fractionText]
  have hdigits : 'I' ∈ n.whole ++ n.fraction := by
    rw [text, String.toList_ofList, List.append_assoc, List.mem_append] at hmem
    rcases hmem with hsign | hrest
    · cases hn : n.negative <;> simp [hn] at hsign
    · exact List.mem_append.2 ((List.mem_append.1 hrest).imp_right hfraction)
  exact Bool.false_ne_true (hdigit.symm.trans (n.isDigit_of_mem _ hdigits))

/-- The text of every finite number is a plain decimal numeral that denotes this number alone, its
sign included, and numbers other than NaNs have different texts. -/
theorem Value.markupText?_double_faithful :
    (∀ x : Double, x.isFinite = true →
      ∃ n : Numeral, (Value.double x).markupText? = some n.text ∧ ∀ y, n.Denotes y ↔ y = x) ∧
    ∀ x y : Double, x.isNaN = false → y.isNaN = false →
      (Value.double x).markupText? = (Value.double y).markupText? → x = y := by
  refine ⟨fun x hx => ?_, fun x y hx hy h => ?_⟩
  · obtain ⟨n, htext, hdenotes⟩ := Double.exists_numeral hx
    exact ⟨n, congrArg some htext, hdenotes⟩
  · have htext : x.markupText = y.markupText := Option.some.inj h
    by_cases hxfinite : x.isFinite = true <;> by_cases hyfinite : y.isFinite = true
    · obtain ⟨n, hn, hdenotes⟩ := Double.exists_numeral hxfinite
      obtain ⟨n', hn', hdenotes'⟩ := Double.exists_numeral hyfinite
      obtain rfl : n = n' := Numeral.eq_of_text_eq (by rw [← hn, ← hn', htext])
      exact (hdenotes' x).1 ((hdenotes x).2 rfl)
    · obtain ⟨n, hn, -⟩ := Double.exists_numeral hxfinite
      have hinfinite := Double.isInfinite_of_not_isFinite hy hyfinite
      rw [hn, Double.markupText_of_isInfinite hinfinite] at htext
      exact absurd htext (n.text_ne_infinity _)
    · obtain ⟨n, hn, -⟩ := Double.exists_numeral hyfinite
      have hinfinite := Double.isInfinite_of_not_isFinite hx hxfinite
      rw [hn, Double.markupText_of_isInfinite hinfinite] at htext
      exact absurd htext.symm (n.text_ne_infinity _)
    · have hxinfinite := Double.isInfinite_of_not_isFinite hx hxfinite
      have hyinfinite := Double.isInfinite_of_not_isFinite hy hyfinite
      rw [Double.markupText_of_isInfinite hxinfinite,
        Double.markupText_of_isInfinite hyinfinite] at htext
      refine Double.eq_of_field_eq ?_
        ((of_decide_eq_true hxinfinite).trans (of_decide_eq_true hyinfinite).symm)
      cases hxsign : x.isNegative <;> cases hysign : y.isNegative <;> simp_all

/-- The last number below `10 ^ 15`. -/
theorem Value.markupText?_lastFraction :
    (Double.mk 0x430c6bf52633ffff).isFinite = true ∧
    (∃ n : Numeral, some n.text = some "999999999999999.9" ∧
      ∀ y, n.Denotes y ↔ y = ⟨0x430c6bf52633ffff⟩) := by
  have htext : (Value.double ⟨0x430c6bf52633ffff⟩).markupText? = some "999999999999999.9" := by
    decide +kernel
  obtain ⟨n, hn, hdenotes⟩ :=
    Value.markupText?_double_faithful.1 ⟨0x430c6bf52633ffff⟩ (by decide +kernel)
  exact ⟨by decide +kernel, n, hn.symm.trans htext, hdenotes⟩

end ScoringMarkup
