import Mathlib.Algebra.Order.Field.Power
import Mathlib.Algebra.Order.Field.Rat
import Mathlib.Tactic.FieldSimp
import Mathlib.Tactic.Linarith
import Mathlib.Tactic.NormNum
import Mathlib.Tactic.Positivity
import Mathlib.Tactic.Ring
import ScoringMarkup.Double.Scale
import ScoringMarkup.Proofs.Double.Shortest

/-!
# Scaled decimals stay near

Each rounding on the way from a significand and a power of ten to their scaled number moves the
value by at most one part in `2 ^ 53`, and so the field by at most one. A significand of 53 bits and
a power of ten with one are not moved at all, so that the number of moves is that of the roundings
that are left: none, and the result is the nearest number, or at most three.
-/

namespace ScoringMarkup

namespace Double

/-- What is left of a value when one part in `2 ^ 53` is taken away. -/
def lessRoundoff : ℚ := 1 - 1 / 2 ^ 53

/-- Something is left. -/
theorem lessRoundoff_pos : 0 < lessRoundoff := by norm_num [lessRoundoff]

/-- Whether two values differ by a number of roundoffs at most. -/
structure Within (moves : Nat) (value value' : ℚ) : Prop where
  le : lessRoundoff ^ moves * value ≤ value'
  ge : lessRoundoff ^ moves * value' ≤ value

namespace Within

variable {moves moves' : Nat} {a b c d : ℚ}

/-- A value differs by no roundoff from itself. -/
theorem refl (a : ℚ) : Within 0 a a := ⟨by rw [pow_zero, one_mul], by rw [pow_zero, one_mul]⟩

/-- Roundoffs add up on the way from one value to the next. -/
theorem trans (h : Within moves a b) (h' : Within moves' b c) : Within (moves + moves') a c := by
  have hpow (k : Nat) : 0 ≤ lessRoundoff ^ k := le_of_lt (pow_pos lessRoundoff_pos k)
  constructor
  · calc lessRoundoff ^ (moves + moves') * a
        = lessRoundoff ^ moves' * (lessRoundoff ^ moves * a) := by ring
      _ ≤ lessRoundoff ^ moves' * b := mul_le_mul_of_nonneg_left h.le (hpow _)
      _ ≤ c := h'.le
  · calc lessRoundoff ^ (moves + moves') * c
        = lessRoundoff ^ moves * (lessRoundoff ^ moves' * c) := by ring
      _ ≤ lessRoundoff ^ moves * b := mul_le_mul_of_nonneg_left h'.ge (hpow _)
      _ ≤ a := h.ge

/-- Roundoffs add up in a product. -/
theorem mul (ha : 0 ≤ a) (hb : 0 ≤ b) (hc : 0 ≤ c) (hd : 0 ≤ d) (h : Within moves a b)
    (h' : Within moves' c d) : Within (moves + moves') (a * c) (b * d) := by
  have hpow (k : Nat) : 0 ≤ lessRoundoff ^ k := le_of_lt (pow_pos lessRoundoff_pos k)
  constructor
  · calc lessRoundoff ^ (moves + moves') * (a * c)
        = (lessRoundoff ^ moves * a) * (lessRoundoff ^ moves' * c) := by ring
      _ ≤ b * d := mul_le_mul h.le h'.le (mul_nonneg (hpow _) hc) hb
  · calc lessRoundoff ^ (moves + moves') * (b * d)
        = (lessRoundoff ^ moves * b) * (lessRoundoff ^ moves' * d) := by ring
      _ ≤ a * c := mul_le_mul h.ge h'.ge (mul_nonneg (hpow _) hd) ha

/-- Inverses differ by as much as their values. -/
theorem inv (ha : 0 < a) (hb : 0 < b) (h : Within moves a b) : Within moves a⁻¹ b⁻¹ := by
  constructor
  · rw [← div_eq_mul_inv, div_le_iff₀ ha, inv_mul_eq_div, le_div_iff₀ hb]
    exact h.ge
  · rw [← div_eq_mul_inv, div_le_iff₀ hb, inv_mul_eq_div, le_div_iff₀ ha]
    exact h.le

/-- Roundoffs add up in a quotient. -/
theorem div (ha : 0 ≤ a) (hb : 0 ≤ b) (hc : 0 < c) (hd : 0 < d) (h : Within moves a b)
    (h' : Within moves' c d) : Within (moves + moves') (a / c) (b / d) := by
  rw [div_eq_mul_inv, div_eq_mul_inv]
  exact h.mul ha hb (inv_nonneg.2 (le_of_lt hc)) (inv_nonneg.2 (le_of_lt hd)) (h'.inv hc hd)

/-- A product of two multiples of a unit, in that unit. -/
theorem mul_unit {unit : ℚ} (hunit : 0 < unit) (ha : 0 ≤ a) (hb : 0 ≤ b) (hc : 0 ≤ c) (hd : 0 ≤ d)
    (h : Within moves (a * unit) b) (h' : Within moves' (c * unit) d) :
    Within (moves + moves') (a * c * unit) (b * d / unit) := by
  have hle := le_of_lt hunit
  have hmul := h.mul (mul_nonneg ha hle) hb (mul_nonneg hc hle) hd h'
  have hwithin := hmul.div (mul_nonneg (mul_nonneg ha hle) (mul_nonneg hc hle)) (mul_nonneg hb hd)
    hunit hunit (.refl unit)
  have hvalue : a * unit * (c * unit) / unit = a * c * unit := by
    rw [← mul_assoc, mul_div_cancel_right₀ _ (ne_of_gt hunit)]
    ring
  rwa [hvalue] at hwithin

/-- A quotient of two multiples of a unit, in that unit. -/
theorem div_unit {unit : ℚ} (hunit : 0 < unit) (ha : 0 ≤ a) (hb : 0 ≤ b) (hc : 0 < c) (hd : 0 < d)
    (h : Within moves (a * unit) b) (h' : Within moves' (c * unit) d) :
    Within (moves + moves') (a / c * unit) (b * unit / d) := by
  have hle := le_of_lt hunit
  have hdiv := h.div (mul_nonneg ha hle) hb (mul_pos hc hunit) hd h'
  have hwithin := hdiv.mul (div_nonneg (mul_nonneg ha hle) (mul_nonneg (le_of_lt hc) hle))
    (div_nonneg hb (le_of_lt hd)) hle hle (.refl unit)
  rwa [mul_div_mul_right _ _ (ne_of_gt hunit), div_mul_eq_mul_div b] at hwithin

end Within

/-- Twice the middle between a field and the next one. -/
def twiceMiddle (field : Nat) : ℚ := partsOfField field + partsOfField (field + 1)

/-- The middles lie in the order of their fields. -/
theorem twiceMiddle_mono {field field' : Nat} (h : field ≤ field') :
    twiceMiddle field ≤ twiceMiddle field' := by
  have hfirst : (partsOfField field : ℚ) ≤ partsOfField field' := by
    exact_mod_cast partsOfField_strictMono.monotone h
  have hnext : (partsOfField (field + 1) : ℚ) ≤ partsOfField (field' + 1) := by
    exact_mod_cast partsOfField_strictMono.monotone (Nat.succ_le_succ h)
  exact add_le_add hfirst hnext

/-- Two neighbouring gaps are together more than one part in `2 ^ 53` of the fields behind them. -/
theorem partsOfField_add_lt (field : Nat) :
    partsOfField (field + 1) + partsOfField (field + 1 + 1) <
      2 ^ 53 * (gap field + gap (field + 1)) := by
  have hnext := partsOfField_succ_le (field + 1)
  obtain ⟨shift, significand, hs, h, rfl⟩ := exists_shifted field
  have hgap := gap_shifted hs h
  have hparts : partsOfField (shift * 2 ^ 52 + significand + 1) =
      (significand + 1) * 2 ^ shift := by
    rw [Nat.add_assoc]
    exact partsOfField_shifted hs (h.imp_right Nat.le_succ_of_le)
  have hunit : 0 < 2 ^ shift := Nat.two_pow_pos shift
  by_cases hlast : significand + 1 = 2 ^ 53
  · -- Behind the last field of a binade the gap doubles.
    have hnextGap : gap (shift * 2 ^ 52 + significand + 1) = 2 ^ shift * 2 := by
      have hfield : shift * 2 ^ 52 + significand + 1 = (shift + 1) * 2 ^ 52 + 2 ^ 52 := by omega
      rw [hfield, gap_shifted (by omega) (Or.inr (Nat.le_refl _)), pow_succ]
    have hnextParts := partsOfField_succ (shift * 2 ^ 52 + significand + 1)
    rw [hparts, hlast] at hnextParts
    rw [hnextParts, hparts, hgap, hnextGap, hlast]
    omega
  · have hlt : (significand + 1) * 2 ^ shift < 2 ^ 53 * 2 ^ shift :=
      Nat.mul_lt_mul_of_pos_right (by omega) hunit
    rw [hparts, hgap, Nat.mul_add]
    exact Nat.add_lt_add_of_lt_of_le hlt hnext

/-- Between two middles lies more than one roundoff. -/
theorem twiceMiddle_lt (field : Nat) :
    twiceMiddle field < lessRoundoff * twiceMiddle (field + 1) := by
  have hlt : (partsOfField (field + 1) + partsOfField (field + 1 + 1) : ℚ) <
      2 ^ 53 * (gap field + gap (field + 1)) := by
    exact_mod_cast partsOfField_add_lt field
  have hfirst : (partsOfField (field + 1) : ℚ) = partsOfField field + gap field := by
    exact_mod_cast partsOfField_succ field
  have hsecond : (partsOfField (field + 1 + 1) : ℚ) =
      partsOfField (field + 1) + gap (field + 1) := by
    exact_mod_cast partsOfField_succ (field + 1)
  rw [twiceMiddle, twiceMiddle, lessRoundoff]
  linarith

/-- After some roundoffs, the middle of as many fields further up still reaches that of a field. -/
theorem twiceMiddle_le (field moves : Nat) :
    twiceMiddle field ≤ lessRoundoff ^ moves * twiceMiddle (field + moves) := by
  induction moves with
  | zero => rw [pow_zero, one_mul, Nat.add_zero]
  | succ moves ih =>
    calc twiceMiddle field ≤ lessRoundoff ^ moves * twiceMiddle (field + moves) := ih
      _ ≤ lessRoundoff ^ moves * (lessRoundoff * twiceMiddle (field + moves + 1)) :=
        mul_le_mul_of_nonneg_left (le_of_lt (twiceMiddle_lt _))
          (le_of_lt (pow_pos lessRoundoff_pos moves))
      _ = lessRoundoff ^ (moves + 1) * twiceMiddle (field + (moves + 1)) := by
        rw [pow_succ, mul_assoc, Nat.add_assoc]

/-- The gap behind a field with its highest bit is no larger than its last one. -/
theorem gap_le_of_normal {field : Nat} (hfield : 2 ^ 52 ≤ field) :
    2 ^ 52 * gap field ≤ partsOfField field := by
  obtain ⟨shift, significand, hs, h, rfl⟩ := exists_shifted field
  rw [gap_shifted hs h, partsOfField_shifted (Nat.le_of_lt hs) h]
  refine Nat.mul_le_mul_right _ (h.elim (fun hzero => ?_) id)
  rw [hzero, Nat.zero_mul, Nat.zero_add] at hfield
  exact hfield

/-- A rounding to a field with its highest bit moves a value by one roundoff at most. -/
theorem RoundsTo.within {value : ℚ} {field : Nat} (h : RoundsTo value field)
    (hfield : 2 ^ 52 ≤ field) : Within 1 value (partsOfField field) := by
  obtain ⟨lower, rfl⟩ : ∃ lower, field = lower + 1 := ⟨field - 1, by omega⟩
  have hle := h.le_middle
  have hge := h.middle_le lower rfl
  have hnormal : (2 ^ 52 * gap (lower + 1) : ℚ) ≤ partsOfField (lower + 1) := by
    exact_mod_cast gap_le_of_normal hfield
  have hmono : (gap lower : ℚ) ≤ gap (lower + 1) := by
    exact_mod_cast gap_mono (Nat.le_succ lower)
  have hlast : (partsOfField (lower + 1) : ℚ) = partsOfField lower + gap lower := by
    exact_mod_cast partsOfField_succ lower
  have hnext : (partsOfField (lower + 1 + 1) : ℚ) =
      partsOfField (lower + 1) + gap (lower + 1) := by
    exact_mod_cast partsOfField_succ (lower + 1)
  have hparts : (0 : ℚ) ≤ partsOfField (lower + 1) := Nat.cast_nonneg _
  constructor
  · rw [pow_one, lessRoundoff]
    linarith
  · rw [pow_one, lessRoundoff]
    linarith

/-- A value no more than a number of roundoffs above another one rounds to a field no more than that
number behind. -/
theorem RoundsTo.le_add {value value' : ℚ} {field field' moves : Nat} (h : RoundsTo value field)
    (h' : RoundsTo value' field') (hwithin : lessRoundoff ^ moves * value' ≤ value) :
    field' ≤ field + moves := by
  cases moves with
  | zero =>
    rw [pow_zero, one_mul] at hwithin
    exact h'.mono h hwithin
  | succ moves =>
    by_contra hlt
    obtain ⟨lower, rfl⟩ : ∃ lower, field' = lower + 1 := ⟨field' - 1, by omega⟩
    have hlast := h'.middle_le lower rfl
    have hfirst := h.le_middle
    rw [← twiceMiddle] at hlast hfirst
    have hpow (k : Nat) : (0 : ℚ) ≤ lessRoundoff ^ k := le_of_lt (pow_pos lessRoundoff_pos k)
    have hmoves : field + 1 + moves ≤ lower := by omega
    have hmiddle : twiceMiddle field < lessRoundoff ^ (moves + 1) * twiceMiddle lower := by
      calc twiceMiddle field < lessRoundoff * twiceMiddle (field + 1) := twiceMiddle_lt field
        _ ≤ lessRoundoff * (lessRoundoff ^ moves * twiceMiddle (field + 1 + moves)) :=
          mul_le_mul_of_nonneg_left (twiceMiddle_le _ moves) (le_of_lt lessRoundoff_pos)
        _ = lessRoundoff ^ (moves + 1) * twiceMiddle (field + 1 + moves) := by ring
        _ ≤ lessRoundoff ^ (moves + 1) * twiceMiddle lower :=
          mul_le_mul_of_nonneg_left (twiceMiddle_mono hmoves) (hpow _)
    have hlarge := mul_le_mul_of_nonneg_left hlast (hpow (moves + 1))
    linarith

/-- A number of 53 bits at most, scaled up by enough binary places, is the magnitude of a field. -/
theorem exists_partsOfField_eq {n : Nat} (hn : n ≤ 2 ^ 53) (k : Nat) :
    ∃ field, partsOfField field = n * 2 ^ (k + 52) := by
  rcases Nat.eq_zero_or_pos n with rfl | hpos
  · exact ⟨0, by rw [partsOfField_zero, Nat.zero_mul]⟩
  · have hbits := Nat.log2_self_le (Nat.ne_of_gt hpos)
    have hbits' : n < 2 ^ (n.log2 + 1) := Nat.lt_log2_self
    generalize n.log2 = bits at hbits hbits'
    -- Shifted so far that its highest bit is that of a significand.
    have hlow : 2 ^ 52 ≤ n * 2 ^ (52 - bits) :=
      calc 2 ^ 52 ≤ 2 ^ (bits + (52 - bits)) := Nat.pow_le_pow_right Nat.two_pos (by omega)
        _ = 2 ^ bits * 2 ^ (52 - bits) := Nat.pow_add 2 bits _
        _ ≤ n * 2 ^ (52 - bits) := Nat.mul_le_mul_right _ hbits
    have hhigh : n * 2 ^ (52 - bits) ≤ 2 ^ 53 := by
      by_cases hfull : bits ≤ 52
      · calc n * 2 ^ (52 - bits) ≤ 2 ^ (bits + 1) * 2 ^ (52 - bits) :=
              Nat.mul_le_mul_right _ (Nat.le_of_lt hbits')
          _ = 2 ^ (bits + 1 + (52 - bits)) := (Nat.pow_add 2 _ _).symm
          _ = 2 ^ 53 := by congr 1; omega
      · rw [Nat.sub_eq_zero_of_le (by omega), Nat.pow_zero, Nat.mul_one]
        exact hn
    refine ⟨(k + 52 - (52 - bits)) * 2 ^ 52 + n * 2 ^ (52 - bits), ?_⟩
    rw [partsOfField_shifted hhigh (Or.inr hlow), Nat.mul_assoc, ← Nat.pow_add]
    congr 2
    omega

/-- A natural of 53 bits at most is a number. -/
theorem parts_ofNat {n : Nat} (hn : n ≤ 2 ^ 53) : (ofNat n).parts = n * partsPerOne := by
  obtain ⟨k, hone⟩ : ∃ k, partsPerOne = 2 ^ (k + 52) := ⟨1022, by decide +kernel⟩
  obtain ⟨field, hfield⟩ := exists_partsOfField_eq hn k
  rw [← hone] at hfield
  have hfinite : field < infinityField := by
    rw [← partsOfField_strictMono.lt_iff_lt, hfield]
    exact Nat.lt_of_le_of_lt (Nat.mul_le_mul_right _ hn) (by decide +kernel)
  have hnearest : nearestField n 1 = field := by
    rw [nearestField_eq_iff n Nat.one_pos hfinite, partsOfRatio, Nat.cast_one, div_one,
      ← Nat.cast_mul, ← hfield]
    exact RoundsTo.self field
  rw [parts, ofNat, field_ofRatio, hnearest, hfield]

/-- One and every larger natural has its highest bit. -/
theorem le_nearestField {n : Nat} (hn : 0 < n) : 2 ^ 52 ≤ nearestField n 1 := by
  have hone : 2 ^ 52 ≤ nearestField 1 1 := by decide +kernel
  exact Nat.le_trans hone (nearestField_mono Nat.one_pos Nat.one_pos (partsOfRatio_mono hn 1))

/-- Rounding a natural to a double is one roundoff at most. -/
theorem within_ofNat {n : Nat} (hn : 0 < n) (hfinite : nearestField n 1 < infinityField) :
    Within 1 (n * partsPerOne) (ofNat n).parts := by
  have hround := roundsTo_nearestField Nat.one_pos hfinite
  rw [partsOfRatio, Nat.cast_one, div_one] at hround
  rw [parts, ofNat, field_ofRatio]
  exact hround.within (le_nearestField hn)

/-- The roundings on the way from a decimal to its scaled number that may move the value: that of a
significand of more than 53 bits, that of a power of ten with more, and a first division where the
power is beyond the largest finite one. -/
def roundings (significand : Nat) (exponent : Int) : Nat :=
  (if significand ≤ 2 ^ 53 then 0 else 1) + (if exponent.natAbs ≤ 22 then 0 else 1) +
    if exponent < -308 then 1 else 0

/-- There are at most three roundings. -/
theorem roundings_le (significand : Nat) (exponent : Int) : roundings significand exponent ≤ 3 := by
  unfold roundings
  split_ifs <;> omega

/-- Naturals below one that is rounded to a finite double are so themselves. -/
theorem finite_of_le {n most : Nat} (hmost : nearestField most 1 < infinityField) (hn : n ≤ most) :
    nearestField n 1 < infinityField :=
  Nat.lt_of_le_of_lt (nearestField_mono Nat.one_pos Nat.one_pos (partsOfRatio_mono hn 1)) hmost

/-- Powers of ten below one that is rounded to a finite double are so themselves. -/
theorem finite_power_of_le {k most : Nat}
    (hmost : nearestField (Nat.pow 10 most) 1 < infinityField) (hk : k ≤ most) :
    nearestField (Nat.pow 10 k) 1 < infinityField :=
  finite_of_le hmost (Nat.pow_le_pow_right (by decide) hk)

/-- A significand of at most 53 bits is exact, and a longer one is rounded once. -/
theorem within_significand {n : Nat} (hn : n ≤ 10 ^ 17) :
    Within (if n ≤ 2 ^ 53 then 0 else 1) (n * partsPerOne) (ofNat n).parts := by
  split_ifs with hexact
  · rw [parts_ofNat hexact, Nat.cast_mul]
    exact .refl _
  · exact within_ofNat (by omega) (finite_of_le (by decide +kernel) hn)

/-- A power of ten up to the twenty-second is exact, and a higher one is rounded once. -/
theorem within_powerOfTen {k : Nat} (hk : k ≤ 308) :
    Within (if k ≤ 22 then 0 else 1) (10 ^ k * partsPerOne) (powerOfTen k).parts := by
  split_ifs with hexact
  · have hall : ∀ k < 23, (powerOfTen k).parts = 10 ^ k * partsPerOne := by decide +kernel
    rw [hall k (by omega), Nat.cast_mul, Nat.cast_pow, Nat.cast_ofNat]
    exact .refl _
  · have hwithin := within_ofNat (n := Nat.pow 10 k) (Nat.pow_pos (by decide))
      (finite_power_of_le (by decide +kernel) hk)
    rwa [Nat.pow_eq, Nat.cast_pow, Nat.cast_ofNat] at hwithin

/-- No power of ten is rounded to zero. -/
theorem parts_powerOfTen_pos (k : Nat) : 0 < (powerOfTen k).parts := by
  have hbits := le_nearestField (n := Nat.pow 10 k) (Nat.pow_pos (by decide))
  have hpos : 0 < nearestField (Nat.pow 10 k) 1 := by omega
  rw [parts, powerOfTen, ofNat, field_ofRatio]
  exact Nat.lt_of_le_of_lt (Nat.zero_le _) (partsOfField_strictMono hpos)

variable {x y : Double} {a b : ℚ} {m m' : Nat}

/-- A product lies within the moves of both factors, before it is rounded itself. -/
theorem within_product (ha : 0 ≤ a) (hb : 0 ≤ b) (hx : Within m (a * partsPerOne) x.parts)
    (hy : Within m' (b * partsPerOne) y.parts) :
    Within (m + m') (a * b * partsPerOne)
      (partsOfRatio (x.parts * y.parts) (partsPerOne * partsPerOne)) := by
  have hone : (0 : ℚ) < partsPerOne := Nat.cast_pos.2 partsPerOne_pos
  rw [partsOfRatio, Nat.cast_mul, Nat.cast_mul, mul_div_mul_right _ _ (ne_of_gt hone)]
  exact hx.mul_unit hone ha (Nat.cast_nonneg _) hb (Nat.cast_nonneg _) hy

/-- A quotient lies within the moves of both sides, before it is rounded itself. -/
theorem within_quotient (ha : 0 ≤ a) (hb : 0 < b) (hpos : 0 < y.parts)
    (hx : Within m (a * partsPerOne) x.parts) (hy : Within m' (b * partsPerOne) y.parts) :
    Within (m + m') (a / b * partsPerOne) (partsOfRatio x.parts y.parts) := by
  have hone : (0 : ℚ) < partsPerOne := Nat.cast_pos.2 partsPerOne_pos
  exact hx.div_unit hone ha (Nat.cast_nonneg _) hb (Nat.cast_pos.2 hpos) hy

/-- A value within some moves of another one has its nearest field no further from the other's. -/
theorem nearestField_near {value : ℚ} {field num den moves : Nat} (hden : 0 < den)
    (h : RoundsTo value field) (hwithin : Within moves value (partsOfRatio num den))
    (hroom : field + moves < infinityField) :
    nearestField num den ≤ field + moves ∧ field ≤ nearestField num den + moves := by
  obtain ⟨found, hfound, heq⟩ := exists_roundsTo num hden
  have hle := h.le_add hfound hwithin.ge
  have hge := hfound.le_add h hwithin.le
  omega

section Scaled

variable {significand field : Nat} {exponent : Int}

/-- What is known of a scaled number: it is not negative, and its field is moved by the roundings at
most. -/
structure IsNear (moves field : Nat) (y : Double) : Prop where
  isNegative_eq_false : y.isNegative = false
  le : y.field ≤ field + moves
  ge : field ≤ y.field + moves

/-- A ratio that differs from a value by some roundoffs is rounded to a field no more than as many
away from that of the value. -/
theorem isNear_ofRatio {value : ℚ} {num den moves : Nat} (hden : 0 < den)
    (h : RoundsTo value field) (hwithin : Within moves value (partsOfRatio num den))
    (hroom : field + moves < infinityField) : IsNear moves field (ofRatio false num den) := by
  obtain ⟨hle, hge⟩ := nearestField_near hden h hwithin hroom
  exact ⟨isNegative_ofRatio .., by rwa [field_ofRatio], by rwa [field_ofRatio]⟩

/-- A natural is rounded to a double that is not negative. -/
theorem isNegative_ofNat (n : Nat) : (ofNat n).isNegative = false := isNegative_ofRatio ..

/-- A significand times a power of ten. -/
theorem ofScaled?_ofNat {k : Nat} (hsignificand : significand ≤ 10 ^ 17) (hk : k ≤ 308)
    (hfield : RoundsTo (Decimal.parts ⟨significand, .ofNat k⟩) field)
    (hroom : field + 3 < infinityField) :
    ∃ y, ofScaled? significand (.ofNat k) = some y ∧
      IsNear (roundings significand (.ofNat k)) field y := by
  have hmoves : roundings significand (.ofNat k) =
      (if significand ≤ 2 ^ 53 then 0 else 1) + (if k ≤ 22 then 0 else 1) := by
    have hplain : ¬ Int.ofNat k < -308 := by rw [Int.ofNat_eq_natCast]; omega
    rw [roundings, if_neg hplain]
    rfl
  have hlimit := roundings_le significand (.ofNat k)
  have hvalue : Decimal.parts ⟨significand, .ofNat k⟩ = significand * 10 ^ k * partsPerOne := by
    rw [Decimal.parts_eq]
    exact congrArg (significand * · * (partsPerOne : ℚ)) (zpow_natCast 10 k)
  have hwithin := within_product (Nat.cast_nonneg significand) (by positivity)
    (within_significand hsignificand) (within_powerOfTen hk)
  rw [← hvalue, ← hmoves] at hwithin
  have hnear := isNear_ofRatio (Nat.mul_pos partsPerOne_pos partsPerOne_pos) hfield hwithin
    (by omega)
  have hproduct : product (ofNat significand) (powerOfTen k) =
      ofRatio false ((ofNat significand).parts * (powerOfTen k).parts)
        (partsPerOne * partsPerOne) := by
    rw [product, powerOfTen, isNegative_ofNat, isNegative_ofNat, bne_self_eq_false]
  refine ⟨_, ?_, hnear⟩
  have hfinite : (product (ofNat significand) (powerOfTen k)).isInfinite = false := by
    rw [hproduct]
    exact decide_eq_false (by have := hnear.le; omega)
  rw [ofScaled?]
  dsimp only
  rw [if_pos (show k ≤ largestPower from hk), hfinite, if_neg Bool.false_ne_true, hproduct]

/-- The quotient by a power of ten keeps the sign. -/
theorem quotient_powerOfTen {x : Double} (hx : x.isNegative = false) (k : Nat) :
    quotient x (powerOfTen k) = ofRatio false x.parts (powerOfTen k).parts := by
  rw [quotient, hx, powerOfTen, isNegative_ofNat, bne_self_eq_false]

/-- A significand divided by a finite power of ten. -/
theorem ofScaled?_negSucc {k : Nat} (hsignificand : significand ≤ 10 ^ 17) (hk : k < 308)
    (hfield : RoundsTo (Decimal.parts ⟨significand, .negSucc k⟩) field)
    (hroom : field + 3 < infinityField) :
    ∃ y, ofScaled? significand (.negSucc k) = some y ∧
      IsNear (roundings significand (.negSucc k)) field y := by
  have hmoves : roundings significand (.negSucc k) =
      (if significand ≤ 2 ^ 53 then 0 else 1) + (if k + 1 ≤ 22 then 0 else 1) := by
    have hplain : ¬ Int.negSucc k < -308 := by omega
    rw [roundings, if_neg hplain]
    rfl
  have hlimit := roundings_le significand (.negSucc k)
  have hvalue : Decimal.parts ⟨significand, .negSucc k⟩ =
      significand / 10 ^ (k + 1) * partsPerOne := by
    rw [Decimal.parts_eq, zpow_negSucc, div_eq_mul_inv]
  have hwithin := within_quotient (Nat.cast_nonneg significand) (by positivity)
    (parts_powerOfTen_pos (k + 1)) (within_significand hsignificand) (within_powerOfTen hk)
  rw [← hvalue, ← hmoves] at hwithin
  have hnear := isNear_ofRatio (parts_powerOfTen_pos (k + 1)) hfield hwithin (by omega)
  refine ⟨_, ?_, hnear⟩
  have hrounds : k / largestPower = 0 := Nat.div_eq_of_lt hk
  have hrest : k % largestPower = k := Nat.mod_eq_of_lt hk
  rw [ofScaled?, hrounds, hrest, lower, quotient_powerOfTen (isNegative_ofNat _)]

/-- Rounding naturals keeps their order. -/
theorem parts_ofNat_mono {n n' : Nat} (h : n ≤ n') : (ofNat n).parts ≤ (ofNat n').parts := by
  rw [parts, parts, ofNat, ofNat, field_ofRatio, field_ofRatio]
  exact partsOfField_strictMono.monotone
    (nearestField_mono Nat.one_pos Nat.one_pos (partsOfRatio_mono h 1))

/-- A significand above two, divided by the largest finite power of ten, keeps its highest bit. -/
theorem within_lowered {top : Nat} (htop : top ≤ 308)
    (hleast : 2 ^ 52 ≤ nearestField (ofNat 3).parts (powerOfTen top).parts)
    (hmost : nearestField (ofNat (10 ^ 17)).parts (powerOfTen top).parts < infinityField)
    (hthree : 3 ≤ significand) (hsignificand : significand ≤ 10 ^ 17) :
    Within ((if significand ≤ 2 ^ 53 then 0 else 1) + (if top ≤ 22 then 0 else 1) + 1)
      (significand / 10 ^ top * partsPerOne)
      (quotient (ofNat significand) (powerOfTen top)).parts := by
  have hpower := parts_powerOfTen_pos top
  have hmono {n n' : Nat} (h : n ≤ n') : nearestField (ofNat n).parts (powerOfTen top).parts ≤
      nearestField (ofNat n').parts (powerOfTen top).parts :=
    nearestField_mono hpower hpower (partsOfRatio_mono (parts_ofNat_mono h) _)
  have hround := roundsTo_nearestField hpower (Nat.lt_of_le_of_lt (hmono hsignificand) hmost)
  have hwithin := within_quotient (Nat.cast_nonneg significand) (by positivity) hpower
    (within_significand hsignificand) (within_powerOfTen htop)
  have hlowered := hwithin.trans (hround.within (Nat.le_trans hleast (hmono hthree)))
  rwa [quotient_powerOfTen (isNegative_ofNat _), parts, field_ofRatio]

/-- Significands up to two are checked one by one: divided by the largest finite power of ten they
lose their highest bit, but the second division takes what they lose out of sight. -/
theorem isNear_small : ∀ significand < 3, ∀ k < 16,
    let y := quotient (lower 1 (ofNat significand)) (powerOfTen (k + 1))
    let field := Decimal.nearestField ⟨significand, .negSucc (308 + k)⟩
    y.isNegative = false ∧ y.field ≤ field + 2 ∧ field ≤ y.field + 2 := by
  decide +kernel

/-- A decimal of many places is divided by its power of ten in two steps. -/
theorem parts_negSucc_add (coefficient top k : Nat) :
    Decimal.parts ⟨coefficient, .negSucc (top + k)⟩ =
      coefficient / 10 ^ top / 10 ^ (k + 1) * partsPerOne := by
  rw [Decimal.parts_eq, zpow_negSucc, Nat.add_assoc, pow_add, div_div, div_eq_mul_inv]

/-- A significand divided twice, for the power of ten is beyond the largest finite one. -/
theorem ofScaled?_negSucc_beyond {k : Nat} (hsignificand : significand ≤ 10 ^ 17) (hk : k < 16)
    (hfield : RoundsTo (Decimal.parts ⟨significand, .negSucc (308 + k)⟩) field)
    (hroom : field + 3 < infinityField) :
    ∃ y, ofScaled? significand (.negSucc (308 + k)) = some y ∧
      IsNear (roundings significand (.negSucc (308 + k))) field y := by
  have hmoves : roundings significand (.negSucc (308 + k)) =
      (if significand ≤ 2 ^ 53 then 0 else 1) + 1 + 1 := by
    have hbeyond : Int.negSucc (308 + k) < -308 := by omega
    have hlarge : ¬ (Int.negSucc (308 + k)).natAbs ≤ 22 := by omega
    rw [roundings, if_pos hbeyond, if_neg hlarge]
  have hscaled : ofScaled? significand (.negSucc (308 + k)) =
      some (quotient (lower 1 (ofNat significand)) (powerOfTen (k + 1))) := by
    have hrounds : (308 + k) / largestPower = 1 := by rw [largestPower]; omega
    have hrest : (308 + k) % largestPower = k := by rw [largestPower]; omega
    rw [ofScaled?, hrounds, hrest]
  refine ⟨_, hscaled, ?_⟩
  -- The first quotient of a significand below three is too small to be rounded to 53 bits.
  by_cases hthree : 3 ≤ significand
  · have hpositive : 0 < significand := by omega
    have hdigits : (ofNat significand).field ≠ 0 := by
      rw [ofNat, field_ofRatio]
      exact Nat.ne_of_gt (Nat.lt_of_lt_of_le (by decide) (le_nearestField hpositive))
    have hlower : lower 1 (ofNat significand) =
        quotient (ofNat significand) (powerOfTen largestPower) := by
      rw [lower, if_neg hdigits, lower]
    have hsign : (quotient (ofNat significand) (powerOfTen largestPower)).isNegative = false := by
      rw [quotient_powerOfTen (isNegative_ofNat _), isNegative_ofRatio]
    have hlowered := within_lowered (Nat.le_refl 308) (by decide +kernel) (by decide +kernel)
      hthree hsignificand
    have hwithin := within_quotient (by positivity) (by positivity) (parts_powerOfTen_pos (k + 1))
      hlowered (within_powerOfTen (show k + 1 ≤ 308 by omega))
    rw [← parts_negSucc_add, if_neg (by decide : ¬ 308 ≤ 22), if_pos (by omega : k + 1 ≤ 22),
      Nat.add_zero, ← hmoves] at hwithin
    rw [hlower, quotient_powerOfTen hsign]
    have hlimit := roundings_le significand (.negSucc (308 + k))
    exact isNear_ofRatio (parts_powerOfTen_pos (k + 1)) hfield hwithin (by omega)
  · have hnearest := (Decimal.nearestField_eq_iff _ (by omega)).2 hfield
    have hsmall := isNear_small significand (by omega) k hk
    dsimp only at hsmall
    rw [hnearest] at hsmall
    obtain ⟨hsign, hle, hge⟩ := hsmall
    rw [hmoves, if_pos (by omega)]
    exact ⟨hsign, hle, hge⟩

/-- A scaled number lies no further from the nearest one than there are roundings. -/
theorem exists_ofScaled? (hsignificand : significand ≤ 10 ^ 17) (hleast : -324 ≤ exponent)
    (hmost : exponent ≤ 308) (hfield : RoundsTo (Decimal.parts ⟨significand, exponent⟩) field)
    (hroom : field + 3 < infinityField) :
    ∃ y, ofScaled? significand exponent = some y ∧
      IsNear (roundings significand exponent) field y := by
  cases exponent with
  | ofNat k =>
    refine ofScaled?_ofNat hsignificand ?_ hfield hroom
    rw [Int.ofNat_eq_natCast] at hmost
    omega
  | negSucc k =>
    by_cases hfinite : k < 308
    · exact ofScaled?_negSucc hsignificand hfinite hfield hroom
    · obtain ⟨j, rfl⟩ := Nat.exists_eq_add_of_le (Nat.not_lt.1 hfinite)
      exact ofScaled?_negSucc_beyond hsignificand (by omega) hfield hroom

end Scaled

end Double

end ScoringMarkup
