import Mathlib.Algebra.Order.Field.Rat
import Mathlib.Data.Nat.Cast.Order.Field
import Mathlib.Order.Monotone.Basic
import Mathlib.Tactic.FieldSimp
import Mathlib.Tactic.Linarith
import Mathlib.Tactic.Positivity
import Mathlib.Tactic.Ring
import ScoringMarkup.Double.Basic

/-!
# Rounding to the nearest field

The parts of the fields form a row with a gap behind each field, which never shrinks. A value rounds
to a field when it lies between the middles of the gaps on both sides, and in such a middle only to
an even field. Every value rounds to exactly one field, larger values to no smaller fields, and
`nearestField` finds that field.
-/

namespace ScoringMarkup

namespace Double

/-- The parts between a field and the next one. -/
def gap (field : Nat) : Nat := 2 ^ (field / 2 ^ 52 - 1)

/-- Two fields are at least one part apart. -/
theorem gap_pos (field : Nat) : 0 < gap field := Nat.two_pow_pos _

/-- The gaps grow with the fields. -/
theorem gap_mono {field field' : Nat} (h : field ≤ field') : gap field ≤ gap field' :=
  Nat.pow_le_pow_right Nat.two_pos (Nat.sub_le_sub_right (Nat.div_le_div_right h) 1)

/-- The parts of a significand of at most 53 bits, shifted; a shifted one has the highest bit. -/
theorem partsOfField_shifted {shift significand : Nat} (hs : significand ≤ 2 ^ 53)
    (h : shift = 0 ∨ 2 ^ 52 ≤ significand) :
    partsOfField (shift * 2 ^ 52 + significand) = significand * 2 ^ shift := by
  simp only [partsOfField, Nat.shiftLeft_eq, Nat.shiftRight_eq_div_pow]
  rcases Nat.lt_or_eq_of_le hs with hlt | rfl
  · have hshift : (shift * 2 ^ 52 + significand) / 2 ^ 52 - 1 = shift := by omega
    rw [hshift, Nat.add_sub_cancel_left]
  · have hshift : (shift * 2 ^ 52 + 2 ^ 53) / 2 ^ 52 - 1 = shift + 1 := by omega
    have hrest : shift * 2 ^ 52 + 2 ^ 53 - (shift + 1) * 2 ^ 52 = 2 ^ 52 := by omega
    rw [hshift, hrest, pow_succ 2 shift]
    ring

/-- The gap behind a field of a given exponent. -/
theorem gap_shifted {shift significand : Nat} (hs : significand < 2 ^ 53)
    (h : shift = 0 ∨ 2 ^ 52 ≤ significand) :
    gap (shift * 2 ^ 52 + significand) = 2 ^ shift := by
  have hshift : (shift * 2 ^ 52 + significand) / 2 ^ 52 - 1 = shift := by omega
  rw [gap, hshift]

/-- Every field is a shifted significand. -/
theorem exists_shifted (field : Nat) : ∃ shift significand, significand < 2 ^ 53 ∧
    (shift = 0 ∨ 2 ^ 52 ≤ significand) ∧ field = shift * 2 ^ 52 + significand :=
  ⟨field / 2 ^ 52 - 1, field - (field / 2 ^ 52 - 1) * 2 ^ 52, by omega, by omega, by omega⟩

/-- The next field is one gap further on. -/
theorem partsOfField_succ (field : Nat) :
    partsOfField (field + 1) = partsOfField field + gap field := by
  obtain ⟨shift, significand, hs, h, rfl⟩ := exists_shifted field
  have hnext : shift = 0 ∨ 2 ^ 52 ≤ significand + 1 := h.imp_right Nat.le_succ_of_le
  rw [gap_shifted hs h, partsOfField_shifted (Nat.le_of_lt hs) h, Nat.add_assoc,
    partsOfField_shifted hs hnext, Nat.add_one_mul]

/-- Higher fields have larger magnitudes. -/
theorem partsOfField_strictMono : StrictMono partsOfField :=
  strictMono_nat_of_lt_succ fun field => by
    rw [partsOfField_succ]
    exact Nat.lt_add_of_pos_right (gap_pos field)

/-- A gap is at least one part in `2 ^ 53` of what lies in front of the field behind it. -/
theorem partsOfField_succ_le (field : Nat) : partsOfField (field + 1) ≤ 2 ^ 53 * gap field := by
  obtain ⟨shift, significand, hs, h, rfl⟩ := exists_shifted field
  rw [partsOfField_succ, gap_shifted hs h, partsOfField_shifted (Nat.le_of_lt hs) h,
    ← Nat.succ_mul]
  exact Nat.mul_le_mul_right _ hs

theorem partsOfField_zero : partsOfField 0 = 0 := rfl

/-- Whether a value, in parts, lies nearest to a field: no further than the middles of the gaps on
both sides, and in the middle only at an even field. -/
structure RoundsTo (value : ℚ) (field : Nat) : Prop where
  le_middle : 2 * value ≤ partsOfField field + partsOfField (field + 1)
  even_of_eq_middle : 2 * value = partsOfField field + partsOfField (field + 1) → field % 2 = 0
  middle_le : ∀ lower, field = lower + 1 →
    partsOfField lower + partsOfField field ≤ 2 * value
  even_of_middle_eq : ∀ lower, field = lower + 1 →
    partsOfField lower + partsOfField field = 2 * value → field % 2 = 0

namespace RoundsTo

variable {value value' : ℚ} {field field' : Nat}

/-- A value between the middles on both sides of a field rounds to it. -/
theorem of_between (hle : 2 * value < partsOfField field + partsOfField (field + 1))
    (hge : ∀ lower, field = lower + 1 → partsOfField lower + partsOfField field < 2 * value) :
    RoundsTo value field :=
  ⟨le_of_lt hle, fun heq => absurd heq (ne_of_lt hle), fun lower h => le_of_lt (hge lower h),
    fun lower h heq => absurd heq (ne_of_lt (hge lower h))⟩

/-- Larger values round to no smaller fields. -/
theorem mono (h : RoundsTo value field) (h' : RoundsTo value' field') (hle : value ≤ value') :
    field ≤ field' := by
  by_contra hlt
  obtain ⟨lower, rfl⟩ : ∃ lower, field = lower + 1 := ⟨field - 1, by omega⟩
  have hfield : field' ≤ lower := by omega
  -- The middle behind the smaller field lies no further than the middle in front of the larger one.
  have hparts : partsOfField field' ≤ partsOfField lower := partsOfField_strictMono.monotone hfield
  have hnext : partsOfField (field' + 1) ≤ partsOfField (lower + 1) :=
    partsOfField_strictMono.monotone (by omega)
  have hparts' : (partsOfField field' : ℚ) ≤ partsOfField lower := by exact_mod_cast hparts
  have hnext' : (partsOfField (field' + 1) : ℚ) ≤ partsOfField (lower + 1) := by
    exact_mod_cast hnext
  have hlow := h.middle_le lower rfl
  have hhigh := h'.le_middle
  have heven := h.even_of_middle_eq lower rfl (by linarith)
  have heven' := h'.even_of_eq_middle (by linarith)
  have hsame : (partsOfField field' : ℚ) = partsOfField lower := by linarith
  have hlower : field' = lower := partsOfField_strictMono.injective (by exact_mod_cast hsame)
  omega

/-- A value rounds to one field only. -/
theorem unique (h : RoundsTo value field) (h' : RoundsTo value field') : field = field' :=
  Nat.le_antisymm (h.mono h' le_rfl) (h'.mono h le_rfl)

/-- A field behind the nearest one is further away, or it is the next one, the value lies in the
middle, and the nearest one is even. -/
theorem nearest_of_lt (h : RoundsTo value field) {other : Nat} (hlt : field < other) :
    |value - partsOfField field| < |value - partsOfField other| ∨
      |value - partsOfField field| = |value - partsOfField other| ∧
        field % 2 = 0 ∧ other = field + 1 := by
  have hgap : (partsOfField field : ℚ) < partsOfField (field + 1) := by
    exact_mod_cast partsOfField_strictMono (Nat.lt_succ_self field)
  have hother : (partsOfField (field + 1) : ℚ) ≤ partsOfField other := by
    exact_mod_cast partsOfField_strictMono.monotone hlt
  have hmiddle := h.le_middle
  have hdistance : |value - partsOfField other| = partsOfField other - value := by
    rw [abs_sub_comm, abs_of_pos (by linarith)]
  by_cases hfar : 2 * value < partsOfField field + partsOfField other
  · left
    rw [hdistance, abs_lt]
    constructor <;> linarith
  · have heq : 2 * value = partsOfField field + partsOfField (field + 1) := by linarith
    have hnext : (partsOfField other : ℚ) = partsOfField (field + 1) := by linarith
    have hsame : other = field + 1 := partsOfField_strictMono.injective (by exact_mod_cast hnext)
    refine Or.inr ⟨?_, h.even_of_eq_middle heq, hsame⟩
    rw [hdistance, abs_of_pos (by linarith)]
    linarith

/-- A field in front of the nearest one is further away, or it is the one before, the value lies in
the middle, and the nearest one is even. -/
theorem nearest_of_gt (h : RoundsTo value field) {other : Nat} (hgt : other < field) :
    |value - partsOfField field| < |value - partsOfField other| ∨
      |value - partsOfField field| = |value - partsOfField other| ∧
        field % 2 = 0 ∧ field = other + 1 := by
  obtain ⟨lower, rfl⟩ : ∃ lower, field = lower + 1 := ⟨field - 1, by omega⟩
  have hgap : (partsOfField lower : ℚ) < partsOfField (lower + 1) := by
    exact_mod_cast partsOfField_strictMono (Nat.lt_succ_self lower)
  have hother : (partsOfField other : ℚ) ≤ partsOfField lower := by
    exact_mod_cast partsOfField_strictMono.monotone (Nat.le_of_lt_succ hgt)
  have hmiddle := h.middle_le lower rfl
  have hdistance : |value - partsOfField other| = value - partsOfField other :=
    abs_of_pos (by linarith)
  by_cases hfar : partsOfField other + partsOfField (lower + 1) < 2 * value
  · left
    rw [hdistance, abs_lt]
    constructor <;> linarith
  · have heq : (partsOfField lower : ℚ) + partsOfField (lower + 1) = 2 * value := by linarith
    have hlast : (partsOfField other : ℚ) = partsOfField lower := by linarith
    have hsame : other = lower := partsOfField_strictMono.injective (by exact_mod_cast hlast)
    refine Or.inr ⟨?_, h.even_of_middle_eq lower rfl heq, by rw [hsame]⟩
    rw [hdistance, abs_of_neg (by linarith)]
    linarith

/-- Any other field is further away, or just as far and odd while the nearest one is even. -/
theorem nearest (h : RoundsTo value field) {other : Nat} (hne : other ≠ field) :
    |value - partsOfField field| < |value - partsOfField other| ∨
      |value - partsOfField field| = |value - partsOfField other| ∧
        field % 2 = 0 ∧ other % 2 = 1 := by
  rcases Nat.lt_or_gt_of_ne hne with hgt | hlt
  · refine (h.nearest_of_gt hgt).imp_right fun ⟨heq, heven, hnext⟩ => ⟨heq, heven, ?_⟩
    omega
  · refine (h.nearest_of_lt hlt).imp_right fun ⟨heq, heven, hnext⟩ => ⟨heq, heven, ?_⟩
    omega

/-- No other field lies nearer. -/
theorem nearest_le (h : RoundsTo value field) (other : Nat) :
    |value - partsOfField field| ≤ |value - partsOfField other| := by
  by_cases hne : other = field
  · rw [hne]
  · exact (h.nearest hne).elim le_of_lt fun heq => le_of_eq heq.1

/-- If another field lies just as near, the field is even and the other one is not. -/
theorem even_of_distance_eq (h : RoundsTo value field) {other : Nat} (hne : other ≠ field)
    (heq : |value - partsOfField field| = |value - partsOfField other|) :
    field % 2 = 0 ∧ other % 2 = 1 :=
  ((h.nearest hne).resolve_left (ne_of_lt · heq)).2

/-- The parts of a field round to that field. -/
theorem self (field : Nat) : RoundsTo (partsOfField field) field := by
  have hstep (lower : Nat) : (partsOfField lower : ℚ) < partsOfField (lower + 1) := by
    exact_mod_cast partsOfField_strictMono (Nat.lt_succ_self lower)
  refine of_between (by linarith [hstep field]) ?_
  rintro lower rfl
  linarith [hstep lower]

end RoundsTo

/-- Whether a value lies nearest to a natural, and in the middle between two only at an even one. -/
structure RoundsToNat (value : ℚ) (n : Nat) : Prop where
  le_half : 2 * value ≤ 2 * n + 1
  even_of_eq_half : 2 * value = 2 * n + 1 → n % 2 = 0
  half_le : 2 * n ≤ 2 * value + 1
  even_of_half_eq : 2 * n = 2 * value + 1 → n % 2 = 0

/-- Rounding half to even gives the nearest natural. -/
theorem roundsToNat_roundHalfEven (num : Nat) {den : Nat} (hden : 0 < den) :
    RoundsToNat (num / den) (roundHalfEven num den) := by
  have hdenQ : (0 : ℚ) < den := by exact_mod_cast hden
  -- The value is the quotient and a rest below one.
  have hnum : (num : ℚ) = den * (num / den : Nat) + (num % den : Nat) := by
    exact_mod_cast (Nat.div_add_mod num den).symm
  have hvalue : (num / den : ℚ) = (num / den : Nat) + (num % den : Nat) / den := by
    rw [div_eq_iff (ne_of_gt hdenQ), add_mul, div_mul_cancel₀ _ (ne_of_gt hdenQ), hnum, mul_comm]
  have hrest : ((num % den : Nat) / den : ℚ) < 1 := by
    rw [div_lt_one hdenQ]
    exact_mod_cast Nat.mod_lt num hden
  have hrest' : (0 : ℚ) ≤ (num % den : Nat) / den := by positivity
  have hlt : den < 2 * (num % den) ↔ (1 : ℚ) < 2 * ((num % den : Nat) / den) := by
    rw [mul_div_assoc', one_lt_div hdenQ]
    norm_cast
  have heq : den = 2 * (num % den) ↔ (1 : ℚ) = 2 * ((num % den : Nat) / den) := by
    rw [mul_div_assoc', eq_comm (b := (2 * (num % den : Nat) : ℚ) / den), div_eq_one_iff_eq
      (ne_of_gt hdenQ), eq_comm]
    norm_cast
  unfold roundHalfEven
  dsimp only
  simp only [hlt, heq, hvalue]
  generalize num / den = quotient at *
  generalize ((num % den : Nat) / den : ℚ) = rest at *
  split_ifs with hup
  · have hhalf : 1 ≤ 2 * rest := hup.elim le_of_lt fun h => le_of_eq h.1
    have hcast : ((quotient + 1 : Nat) : ℚ) = quotient + 1 := Nat.cast_succ quotient
    refine ⟨by linarith, fun h => by linarith, by linarith, fun h => ?_⟩
    have hodd := (hup.resolve_left (by linarith)).2
    omega
  · rw [not_or, not_lt, not_and] at hup
    refine ⟨by linarith, fun h => ?_, by linarith, fun h => by linarith⟩
    have hodd := hup.2 (by linarith)
    omega

/-- The value of a significand behind a shift rounds to its field if the significand is the natural
nearest to it and has its highest bit, so that no finer shift could be taken. -/
theorem roundsTo_shifted {value : ℚ} {shift n : Nat} (hvalue : RoundsToNat (value / 2 ^ shift) n)
    (hn : n ≤ 2 ^ 53) (hleast : shift = 0 ∨ 2 ^ 52 ≤ value / 2 ^ shift) :
    RoundsTo value (shift * 2 ^ 52 + n) := by
  have hunit : (0 : ℚ) < 2 ^ shift := by positivity
  have hmul : value = value / 2 ^ shift * 2 ^ shift := (div_mul_cancel₀ _ (ne_of_gt hunit)).symm
  obtain ⟨hle, hle_even, hge, hge_even⟩ := hvalue
  generalize value / 2 ^ shift = scaled at *
  subst hmul
  have hleast' : shift = 0 ∨ 2 ^ 52 ≤ n := hleast.imp_right fun hleast => by
    have hlt : (2 ^ 52 : ℚ) < n + 1 := by linarith
    have hlt' : 2 ^ 52 < n + 1 := by exact_mod_cast hlt
    omega
  have hparts : (partsOfField (shift * 2 ^ 52 + n) : ℚ) = n * 2 ^ shift := by
    exact_mod_cast partsOfField_shifted hn hleast'
  have hnext : (partsOfField (shift * 2 ^ 52 + n + 1) : ℚ) =
      n * 2 ^ shift + gap (shift * 2 ^ 52 + n) := by
    rw [partsOfField_succ, Nat.cast_add, hparts]
  have hgap : (2 ^ shift : ℚ) ≤ gap (shift * 2 ^ 52 + n) := by
    have hle : 2 ^ shift ≤ gap (shift * 2 ^ 52 + n) :=
      Nat.pow_le_pow_right Nat.two_pos (by omega)
    exact_mod_cast hle
  have heven (h : n % 2 = 0) : (shift * 2 ^ 52 + n) % 2 = 0 := by omega
  -- In front of the field the gap is that of the shift, or the value does not lie there.
  have hbefore (lower : Nat) (h : shift * 2 ^ 52 + n = lower + 1) :
      (gap lower : ℚ) = 2 ^ shift ∨ n = 2 ^ 52 ∧ (n : ℚ) ≤ scaled := by
    by_cases hfirst : shift = 0 ∨ 2 ^ 52 < n
    · left
      have hlower : lower = shift * 2 ^ 52 + (n - 1) := by omega
      rw [hlower, gap_shifted (by omega) (by omega)]
      push_cast
      rfl
    · rw [not_or] at hfirst
      obtain rfl : n = 2 ^ 52 := by omega
      exact Or.inr ⟨rfl, by exact_mod_cast hleast.resolve_left hfirst.1⟩
  have hlast (lower : Nat) (h : shift * 2 ^ 52 + n = lower + 1) :
      (n * 2 ^ shift : ℚ) = partsOfField lower + gap lower := by
    rw [← hparts, h]
    exact_mod_cast partsOfField_succ lower
  have hle_parts : 2 * (scaled * 2 ^ shift) ≤ 2 * (n * 2 ^ shift) + 2 ^ shift := by
    linarith [mul_le_mul_of_nonneg_right hle (le_of_lt hunit)]
  have hge_parts : 2 * (n * 2 ^ shift : ℚ) ≤ 2 * (scaled * 2 ^ shift) + 2 ^ shift := by
    linarith [mul_le_mul_of_nonneg_right hge (le_of_lt hunit)]
  refine ⟨?_, fun heq => heven (hle_even ?_), fun lower h => ?_, fun lower h heq => heven ?_⟩
  · rw [hparts, hnext]
    linarith
  · rw [hparts, hnext] at heq
    exact mul_right_cancel₀ (ne_of_gt hunit) (by linarith)
  · rw [hparts]
    have hprevious := hlast lower h
    rcases hbefore lower h with hb | ⟨-, hb⟩
    · linarith
    · have hpos : (0 : ℚ) < gap lower := by exact_mod_cast gap_pos lower
      linarith [mul_le_mul_of_nonneg_right hb (le_of_lt hunit)]
  · rw [hparts] at heq
    rcases hbefore lower h with hb | ⟨rfl, -⟩
    · have hprevious := hlast lower h
      exact hge_even (mul_right_cancel₀ (ne_of_gt hunit) (by linarith))
    · rfl

/-- The parts of a ratio of naturals. -/
def partsOfRatio (num den : Nat) : ℚ := num * partsPerOne / den

/-- A larger numerator makes a larger ratio. -/
theorem partsOfRatio_mono {num num' : Nat} (h : num ≤ num') (den : Nat) :
    partsOfRatio num den ≤ partsOfRatio num' den :=
  div_le_div_of_nonneg_right
    (mul_le_mul_of_nonneg_right (Nat.cast_le.2 h) (Nat.cast_nonneg _)) (Nat.cast_nonneg _)

/-- One is at least one part. -/
theorem partsPerOne_pos : 0 < partsPerOne := by decide

/-- Rounding adds at most one to the whole part. -/
theorem roundHalfEven_le (num den : Nat) : roundHalfEven num den ≤ num / den + 1 := by
  unfold roundHalfEven
  dsimp only
  split <;> omega

/-- A ratio rounds to some field; `nearestField` is that field up to the infinities. -/
theorem exists_roundsTo (num : Nat) {den : Nat} (hden : 0 < den) :
    ∃ field, RoundsTo (partsOfRatio num den) field ∧
      nearestField num den = min field infinityField := by
  simp only [nearestField, Nat.shiftLeft_eq]
  generalize hshift : (num * partsPerOne / den).log2 - 52 = shift
  have hround := roundsToNat_roundHalfEven (num * partsPerOne)
    (Nat.mul_pos hden (Nat.two_pow_pos shift))
  have hscaled : ((num * partsPerOne : Nat) / (den * 2 ^ shift : Nat) : ℚ) =
      partsOfRatio num den / 2 ^ shift := by
    rw [partsOfRatio, div_div]
    push_cast
    rfl
  rw [hscaled] at hround
  -- The shift leaves a quotient of 53 bits, or fewer where nothing is shifted.
  refine ⟨_, roundsTo_shifted hround ?_ ?_, rfl⟩
  · have hbits : num * partsPerOne / den < 2 ^ (53 + shift) :=
      Nat.lt_of_lt_of_le Nat.lt_log2_self (Nat.pow_le_pow_right Nat.two_pos (by omega))
    have hquotient : num * partsPerOne / (den * 2 ^ shift) < 2 ^ 53 := by
      rw [← Nat.div_div_eq_div_mul, Nat.div_lt_iff_lt_mul (Nat.two_pow_pos shift), ← Nat.pow_add]
      exact hbits
    exact Nat.le_trans (roundHalfEven_le _ _) hquotient
  · refine or_iff_not_imp_left.2 fun hzero => ?_
    have hbits : 2 ^ (52 + shift) ≤ num * partsPerOne / den := by
      have hne : num * partsPerOne / den ≠ 0 := by
        rintro h
        simp [h] at hshift
        omega
      refine Nat.le_trans (Nat.pow_le_pow_right Nat.two_pos ?_) (Nat.log2_self_le hne)
      omega
    rw [Nat.le_div_iff_mul_le hden] at hbits
    have hdenQ : (0 : ℚ) < den := by exact_mod_cast hden
    rw [partsOfRatio, div_div, le_div_iff₀ (by positivity)]
    calc (2 ^ 52 * (den * 2 ^ shift) : ℚ) = (2 ^ (52 + shift) * den : Nat) := by
          push_cast
          ring
      _ ≤ (num * partsPerOne : Nat) := by exact_mod_cast hbits
      _ = num * partsPerOne := by push_cast; rfl

/-- A ratio has a finite nearest field exactly when it rounds to that field. -/
theorem nearestField_eq_iff (num : Nat) {den field : Nat} (hden : 0 < den)
    (hfield : field < infinityField) :
    nearestField num den = field ↔ RoundsTo (partsOfRatio num den) field := by
  obtain ⟨found, hfound, heq⟩ := exists_roundsTo num hden
  constructor
  · intro h
    obtain rfl : found = field := by omega
    exact hfound
  · intro h
    obtain rfl := hfound.unique h
    omega

/-- A ratio rounds to its nearest field where that is finite. -/
theorem roundsTo_nearestField {num den : Nat} (hden : 0 < den)
    (h : nearestField num den < infinityField) :
    RoundsTo (partsOfRatio num den) (nearestField num den) :=
  (nearestField_eq_iff num hden h).1 rfl

/-- Rounding goes no higher than infinity. -/
theorem nearestField_le (num den : Nat) : nearestField num den ≤ infinityField :=
  Nat.min_le_right _ _

/-- A larger ratio has no smaller nearest field. -/
theorem nearestField_mono {num den num' den' : Nat} (hden : 0 < den) (hden' : 0 < den')
    (h : partsOfRatio num den ≤ partsOfRatio num' den') :
    nearestField num den ≤ nearestField num' den' := by
  obtain ⟨found, hfound, heq⟩ := exists_roundsTo num hden
  obtain ⟨found', hfound', heq'⟩ := exists_roundsTo num' hden'
  rw [heq, heq']
  exact min_le_min_right _ (hfound.mono hfound' h)

/-- A ratio is rounded to its nearest field. -/
@[simp] theorem field_ofRatio (negative : Bool) (num den : Nat) :
    (ofRatio negative num den).field = nearestField num den :=
  field_ofField negative (Nat.lt_of_le_of_lt (nearestField_le num den) (by decide))

/-- A ratio is rounded to a number of the given sign. -/
@[simp] theorem isNegative_ofRatio (negative : Bool) (num den : Nat) :
    (ofRatio negative num den).isNegative = negative :=
  isNegative_ofField negative (Nat.lt_of_le_of_lt (nearestField_le num den) (by decide))

end Double

end ScoringMarkup
