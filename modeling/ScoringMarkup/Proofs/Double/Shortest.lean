import Mathlib.Algebra.Order.Field.Rat
import Mathlib.Algebra.Order.Field.Power
import Mathlib.Tactic.Linarith
import Mathlib.Tactic.NormNum
import Mathlib.Tactic.Positivity
import Mathlib.Tactic.Ring
import ScoringMarkup.Double.Decimal
import ScoringMarkup.Proofs.Double.Rounding

/-!
# Shortest decimals read back

A decimal has the nearest field that its value rounds to. The shortest decimal of a finite field has
that field as its nearest one: it is tested for it on its grid, and behind all grids stand the exact
digits, which lie on the field itself.
-/

namespace ScoringMarkup

namespace Decimal

/-- The value of a decimal in parts. -/
def parts (d : Decimal) : ℚ := Double.partsOfRatio d.numerator d.denominator

/-- The denominator of a decimal is a power of ten. -/
theorem denominator_pos (d : Decimal) : 0 < d.denominator := Nat.pow_pos (by decide)

/-- A decimal has a finite nearest field exactly when its value rounds to that field. -/
theorem nearestField_eq_iff (d : Decimal) {field : Nat} (hfield : field < Double.infinityField) :
    d.nearestField = field ↔ Double.RoundsTo d.parts field :=
  Double.nearestField_eq_iff d.numerator d.denominator_pos hfield

/-- The value of a decimal, as a power of ten. -/
theorem parts_eq (d : Decimal) :
    d.parts = d.coefficient * (10 : ℚ) ^ d.exponent * Double.partsPerOne := by
  obtain ⟨coefficient, exponent⟩ := d
  rw [parts, Double.partsOfRatio, numerator, denominator]
  obtain ⟨k, rfl | rfl⟩ := Int.eq_nat_or_neg exponent
  · rw [Int.toNat_natCast, Int.toNat_neg_natCast, zpow_natCast, Nat.pow_eq, Nat.pow_eq, pow_zero]
    push_cast
    ring
  · rw [neg_neg, Int.toNat_natCast, Int.toNat_neg_natCast, zpow_neg, zpow_natCast, Nat.pow_eq,
      Nat.pow_eq, pow_zero]
    push_cast
    ring

/-- A decimal without digits is zero. -/
theorem parts_zero (exponent : Int) : parts ⟨0, exponent⟩ = 0 := by
  rw [parts_eq, Nat.cast_zero, zero_mul, zero_mul]

/-- Parts are the least positive double, so one has this many. -/
theorem partsPerOne_eq : (Double.partsPerOne : ℚ) = 2 ^ 1074 := by
  simp only [Double.partsPerOne, Nat.one_shiftLeft, Nat.cast_pow, Nat.cast_ofNat]

/-- A part has as many decimal places as one has binary ones. -/
theorem parts_exact (field : Nat) : (exact field).parts = Double.partsOfField field := by
  have hone := partsPerOne_eq
  have hexact : exact field = ⟨Double.partsOfField field * Nat.pow 5 1074, -(1074 : Nat)⟩ := rfl
  rw [parts_eq, hexact]
  generalize 1074 = k at hone
  have hunit : (5 ^ k * (10 : ℚ) ^ (-k : Int) * 2 ^ k) = 1 := by
    rw [zpow_neg, zpow_natCast, mul_right_comm, ← mul_pow]
    norm_num
  rw [hone, Nat.pow_eq]
  push_cast
  rw [mul_assoc, mul_assoc, ← mul_assoc (5 ^ k : ℚ), hunit, mul_one]

/-- Zero is the field nearest to zero. -/
theorem nearestField_zero (exponent : Int) : nearestField ⟨0, exponent⟩ = 0 := by
  rw [nearestField_eq_iff _ (by decide), parts_zero]
  exact_mod_cast Double.RoundsTo.self 0

/-- The shortest decimal of a finite field has it as its nearest field. -/
theorem nearestField_shortest (tie : Tie) {field : Nat} (hfield : field < Double.infinityField) :
    (shortest tie field).nearestField = field := by
  rw [shortest]
  cases hfound : List.findSome? _ _ with
  | none =>
    rw [Option.getD_none, nearestField_eq_iff _ hfield, parts_exact]
    exact Double.RoundsTo.self field
  | some d =>
    obtain ⟨digits, -, hd⟩ := List.exists_of_findSome?_eq_some hfound
    exact nearestField_of_onGrid? hd

/-- The distance of two points of a grid, in parts. -/
def unit (exponent : Int) : ℚ := (10 : ℚ) ^ exponent * Double.partsPerOne

/-- Two points of a grid are apart. -/
theorem unit_pos (exponent : Int) : 0 < unit exponent := by
  have hone : (0 : ℚ) < Double.partsPerOne := by exact_mod_cast Double.partsPerOne_pos
  exact mul_pos (zpow_pos (by norm_num) exponent) hone

/-- A decimal is the point of its grid that its digits count to. -/
theorem parts_mk (coefficient : Nat) (exponent : Int) :
    parts ⟨coefficient, exponent⟩ = coefficient * unit exponent := by
  rw [parts_eq, unit, mul_assoc]

/-- A grid finer by some digits has that power of ten of points for each point. -/
theorem unit_sub (exponent : Int) (digits : Nat) :
    10 ^ digits * unit (exponent - digits) = unit exponent := by
  rw [unit, unit, ← mul_assoc, ← zpow_natCast, ← zpow_add₀ (by norm_num), add_sub_cancel]

/-- The grid point below the magnitude of a field. -/
def gridFloor (field : Nat) (exponent : Int) : Nat :=
  Double.partsOfField field * Nat.pow 10 (-exponent).toNat /
    (Double.partsPerOne * Nat.pow 10 exponent.toNat)

/-- The distance of two points as a ratio of naturals. -/
theorem unit_mul (exponent : Int) :
    unit exponent * (10 : ℚ) ^ (-exponent).toNat =
      Double.partsPerOne * (10 : ℚ) ^ exponent.toNat := by
  rw [unit]
  obtain ⟨k, rfl | rfl⟩ := Int.eq_nat_or_neg exponent
  · rw [Int.toNat_natCast, Int.toNat_neg_natCast, zpow_natCast, pow_zero, mul_one, mul_comm]
  · have hten : (10 : ℚ) ^ k ≠ 0 := pow_ne_zero k (by norm_num)
    rw [neg_neg, Int.toNat_natCast, Int.toNat_neg_natCast, zpow_neg, zpow_natCast, pow_zero,
      mul_one, mul_right_comm, inv_mul_cancel₀ hten, one_mul]

/-- The magnitude of a field lies between a grid point and the next one. -/
theorem gridFloor_spec (field : Nat) (exponent : Int) :
    gridFloor field exponent * unit exponent ≤ Double.partsOfField field ∧
      Double.partsOfField field < (gridFloor field exponent + 1) * unit exponent := by
  have hden : 0 < Double.partsPerOne * Nat.pow 10 exponent.toNat :=
    Nat.mul_pos Double.partsPerOne_pos (Nat.pow_pos (by decide))
  have hscale : (0 : ℚ) < 10 ^ (-exponent).toNat := by positivity
  have hle : gridFloor field exponent * (Double.partsPerOne * Nat.pow 10 exponent.toNat) ≤
      Double.partsOfField field * Nat.pow 10 (-exponent).toNat := Nat.div_mul_le_self _ _
  have hlt : Double.partsOfField field * Nat.pow 10 (-exponent).toNat <
      (gridFloor field exponent + 1) * (Double.partsPerOne * Nat.pow 10 exponent.toNat) :=
    Nat.lt_mul_of_div_lt (Nat.lt_succ_self _) hden
  constructor
  · rw [← mul_le_mul_iff_left₀ hscale, mul_assoc, unit_mul]
    exact_mod_cast hle
  · rw [← mul_lt_mul_iff_left₀ hscale, mul_assoc, unit_mul]
    exact_mod_cast hlt

/-- If the half gaps around a field hold more than one grid distance, a point of the grid reads
back. -/
theorem isSome_onGrid? (tie : Tie) {lower : Nat} (hfield : lower + 1 < Double.infinityField)
    {exponent : Int}
    (hunit : 2 * unit exponent < Double.gap lower + Double.gap (lower + 1)) :
    (onGrid? tie (lower + 1) exponent).isSome = true := by
  obtain ⟨hle, hlt⟩ := gridFloor_spec (lower + 1) exponent
  have hpoints : nearestField ⟨gridFloor (lower + 1) exponent, exponent⟩ = lower + 1 ∨
      nearestField ⟨gridFloor (lower + 1) exponent + 1, exponent⟩ = lower + 1 := by
    rw [nearestField_eq_iff _ hfield, nearestField_eq_iff _ hfield, parts_mk, parts_mk,
      Nat.cast_succ]
    have hlast : (Double.partsOfField (lower + 1) : ℚ) =
        Double.partsOfField lower + Double.gap lower := by
      exact_mod_cast Double.partsOfField_succ lower
    have hnext : (Double.partsOfField (lower + 1 + 1) : ℚ) =
        Double.partsOfField (lower + 1) + Double.gap (lower + 1) := by
      exact_mod_cast Double.partsOfField_succ (lower + 1)
    have hgap : (0 : ℚ) < Double.gap lower := by exact_mod_cast Double.gap_pos lower
    have hgap' : (0 : ℚ) < Double.gap (lower + 1) := by exact_mod_cast Double.gap_pos (lower + 1)
    generalize (gridFloor (lower + 1) exponent : ℚ) = low at *
    -- Of the two points around the number, one lies inside the middles on its sides.
    by_cases hinside : Double.partsOfField lower + Double.partsOfField (lower + 1) <
        2 * (low * unit exponent)
    · left
      refine .of_between (by linarith) fun other h => ?_
      obtain rfl : lower = other := Nat.succ.inj h
      exact hinside
    · right
      refine .of_between (by linarith) fun other h => ?_
      obtain rfl : lower = other := Nat.succ.inj h
      linarith
  rw [onGrid?, ← gridFloor]
  by_cases hlow : nearestField ⟨gridFloor (lower + 1) exponent, exponent⟩ = lower + 1
  · rw [if_pos hlow]
    split <;> rfl
  · rw [if_neg hlow, if_pos (hpoints.resolve_left hlow)]
    rfl

/-- The number of digits of a magnitude's first decimal places is the power of ten above it. -/
theorem order_of_places {scale : Nat} (hscale : Double.partsPerOne ≤ Nat.pow 10 scale)
    {parts : Nat} (hparts : 0 < parts) :
    let digits := Nat.toDigits 10 (parts * Nat.pow 10 scale / Double.partsPerOne)
    unit (digits.length - scale - 1) ≤ parts ∧ parts < unit (digits.length - scale) := by
  have hpos : 0 < parts * Nat.pow 10 scale / Double.partsPerOne :=
    Nat.div_pos (Nat.le_trans hscale (Nat.le_mul_of_pos_left _ hparts)) Double.partsPerOne_pos
  have hle := Nat.div_mul_le_self (parts * Nat.pow 10 scale) Double.partsPerOne
  have hlt := Nat.lt_mul_of_div_lt
    (Nat.lt_succ_self (parts * Nat.pow 10 scale / Double.partsPerOne)) Double.partsPerOne_pos
  generalize parts * Nat.pow 10 scale / Double.partsPerOne = places at *
  dsimp only
  obtain ⟨few, hlength⟩ : ∃ few, (Nat.toDigits 10 places).length = few + 1 :=
    Nat.exists_eq_succ_of_ne_zero (Nat.ne_of_gt Nat.length_toDigits_pos)
  -- The number of digits tells between which powers of ten the places lie.
  have hmany : places < 10 ^ (few + 1) :=
    (Nat.length_toDigits_le_iff (by decide) (by omega)).1 (Nat.le_of_eq hlength)
  have hfew : 10 ^ few ≤ places := by
    by_contra hless
    rw [Nat.not_le] at hless
    rcases Nat.eq_zero_or_pos few with rfl | hmore
    · rw [Nat.pow_zero] at hless
      omega
    · have := (Nat.length_toDigits_le_iff (by decide) hmore).2 hless
      omega
  have hone : (0 : ℚ) < Double.partsPerOne := by exact_mod_cast Double.partsPerOne_pos
  have hten : (0 : ℚ) < 10 ^ scale := by positivity
  have hunit (k : Nat) : unit (k - scale) * 10 ^ scale = 10 ^ k * Double.partsPerOne := by
    rw [mul_comm, unit_sub, unit, zpow_natCast]
  have hexponent : ((few + 1 : Nat) - scale - 1 : Int) = few - scale := by
    push_cast
    ring
  rw [hlength, hexponent]
  constructor
  · rw [← mul_le_mul_iff_left₀ hten, hunit]
    calc (10 ^ few * Double.partsPerOne : ℚ) ≤ places * Double.partsPerOne :=
          mul_le_mul_of_nonneg_right (by exact_mod_cast hfew) (le_of_lt hone)
      _ ≤ parts * 10 ^ scale := by exact_mod_cast hle
  · rw [← mul_lt_mul_iff_left₀ hten, hunit]
    calc (parts * 10 ^ scale : ℚ) < (places + 1) * Double.partsPerOne := by exact_mod_cast hlt
      _ ≤ 10 ^ (few + 1) * Double.partsPerOne :=
          mul_le_mul_of_nonneg_right (by exact_mod_cast hmany) (le_of_lt hone)

/-- A magnitude lies between the power of ten of its order and the one before. -/
theorem orderOfMagnitude_spec {field : Nat} (hpos : 0 < field) :
    unit (orderOfMagnitude field - 1) ≤ Double.partsOfField field ∧
      Double.partsOfField field < unit (orderOfMagnitude field) := by
  have hparts : 0 < Double.partsOfField field :=
    Nat.lt_of_le_of_lt (Nat.zero_le _) (Double.partsOfField_strictMono hpos)
  have hscale : Double.partsPerOne ≤ Nat.pow 10 400 := by decide +kernel
  exact order_of_places hscale hparts

/-- The grid is wider at a higher exponent. -/
theorem unit_mono {exponent exponent' : Int} (h : exponent ≤ exponent') :
    unit exponent ≤ unit exponent' :=
  mul_le_mul_of_nonneg_right (zpow_le_zpow_right₀ (by norm_num) h) (Nat.cast_nonneg _)

/-- Seventeen digits are always enough. -/
theorem two_unit_lt_of_seventeen (lower : Nat) :
    2 * unit (orderOfMagnitude (lower + 1) - 17) < Double.gap lower + Double.gap (lower + 1) := by
  obtain ⟨hle, -⟩ := orderOfMagnitude_spec (Nat.succ_pos lower)
  have hunit := unit_sub (orderOfMagnitude (lower + 1) - 1) 16
  have hexponent : orderOfMagnitude (lower + 1) - 1 - (16 : Nat) =
      orderOfMagnitude (lower + 1) - 17 := by omega
  rw [hexponent] at hunit
  have hgap : (Double.partsOfField (lower + 1) : ℚ) ≤ 2 ^ 53 * Double.gap lower := by
    exact_mod_cast Double.partsOfField_succ_le lower
  have hgap' : (Double.partsOfField (lower + 1 + 1) : ℚ) ≤ 2 ^ 53 * Double.gap (lower + 1) := by
    exact_mod_cast Double.partsOfField_succ_le (lower + 1)
  have hstep : (Double.partsOfField (lower + 1) : ℚ) < Double.partsOfField (lower + 1 + 1) := by
    exact_mod_cast Double.partsOfField_strictMono (Nat.lt_succ_self (lower + 1))
  linarith

/-- A grid with as many places as the first power of ten below one part has a point for every
field. -/
theorem unit_neg_lt_one {k : Nat} (hk : Double.partsPerOne < Nat.pow 10 k) : unit (-k) < 1 := by
  have hten : (0 : ℚ) < 10 ^ k := by positivity
  have hunit := unit_sub 0 k
  rw [zero_sub] at hunit
  rw [← mul_lt_mul_iff_right₀ hten, hunit, unit, zpow_zero, one_mul, mul_one]
  exact_mod_cast hk

/-- The grid of the lowest exponent is finer than a part. -/
theorem unit_least : unit (-324) < 1 := unit_neg_lt_one (k := 324) (by decide +kernel)

/-- Two distances of the finest grid fit into the half gaps around any field. -/
theorem two_unit_lt_of_least (lower : Nat) :
    2 * unit (-324) < Double.gap lower + Double.gap (lower + 1) := by
  have hgap : (1 : ℚ) ≤ Double.gap lower := by exact_mod_cast Double.gap_pos lower
  have hgap' : (1 : ℚ) ≤ Double.gap (lower + 1) := by exact_mod_cast Double.gap_pos (lower + 1)
  linarith [unit_least]

/-- No positive field lies below the lowest power of ten. -/
theorem orderOfMagnitude_gt {field : Nat} (hpos : 0 < field) : -324 < orderOfMagnitude field := by
  obtain ⟨-, hlt⟩ := orderOfMagnitude_spec hpos
  have hparts : (1 : ℚ) ≤ Double.partsOfField field := by
    exact_mod_cast Nat.succ_le_of_lt
      (Nat.lt_of_le_of_lt (Nat.zero_le _) (Double.partsOfField_strictMono hpos))
  by_contra hle
  linarith [unit_least, unit_mono (not_lt.1 hle)]

/-- The first number that a search over a range finds is no larger than another one it could
find. -/
theorem exists_findSome?_range {β : Type} {f : Nat → Option β} {n most : Nat} (hmost : most < n)
    (h : (f most).isSome = true) :
    ∃ i ≤ most, (List.range n).findSome? f = f i ∧ (f i).isSome = true := by
  obtain ⟨b, hb⟩ := Option.isSome_iff_exists.1 (List.findSome?_isSome_iff.2
    ⟨most, List.mem_range.2 hmost, h⟩)
  obtain ⟨before, i, after, hrange, hfound, hnone⟩ := List.findSome?_eq_some_iff.1 hb
  refine ⟨i, ?_, hb.trans hfound.symm, hfound ▸ rfl⟩
  have hsorted : (before ++ i :: after).Pairwise (· < ·) := hrange ▸ List.pairwise_lt_range
  have hmem : most ∈ before ++ i :: after := hrange ▸ List.mem_range.2 hmost
  rcases List.mem_append.1 hmem with hbefore | hmem
  · rw [hnone most hbefore] at h
    cases h
  · rcases List.mem_cons.1 hmem with rfl | hafter
    · exact Nat.le_refl _
    · have hlater := (List.pairwise_append.1 hsorted).2.1
      exact Nat.le_of_lt (List.rel_of_pairwise_cons hlater hafter)

/-- One of the grids with at most seventeen digits and 324 places has a point that reads back. -/
theorem exists_isSome_onGrid? (tie : Tie) {field : Nat} (hpos : 0 < field)
    (hfield : field < Double.infinityField) :
    ∃ most : Nat, most ≤ 17 ∧ -324 ≤ orderOfMagnitude field - most ∧
      (onGrid? tie field (orderOfMagnitude field - most)).isSome = true := by
  obtain ⟨lower, rfl⟩ : ∃ lower, field = lower + 1 := ⟨field - 1, by omega⟩
  have horder := orderOfMagnitude_gt hpos
  have hseventeen := two_unit_lt_of_seventeen lower
  generalize orderOfMagnitude (lower + 1) = order at *
  by_cases hlarge : -324 ≤ order - 17
  · exact ⟨17, Nat.le_refl _, hlarge, isSome_onGrid? tie hfield hseventeen⟩
  · have hleast : order - ((order + 324).toNat : Nat) = -324 := by omega
    refine ⟨(order + 324).toNat, by omega, by omega, ?_⟩
    rw [hleast]
    exact isSome_onGrid? tie hfield (two_unit_lt_of_least lower)

/-- The shortest decimal is found on a grid of at most seventeen digits and 324 places. -/
theorem exists_onGrid?_eq_shortest (tie : Tie) {field : Nat} (hpos : 0 < field)
    (hfield : field < Double.infinityField) :
    ∃ digits : Nat, digits ≤ 17 ∧ -324 ≤ orderOfMagnitude field - digits ∧
      onGrid? tie field (orderOfMagnitude field - digits) = some (shortest tie field) := by
  obtain ⟨most, hmost, hplaces, hsome⟩ := exists_isSome_onGrid? tie hpos hfield
  rw [shortest]
  generalize orderOfMagnitude field = order at *
  obtain ⟨digits, hdigits, heq, hfound⟩ :=
    exists_findSome?_range (f := fun digits : Nat => onGrid? tie field (order - digits))
      (Nat.lt_succ_of_le hmost) hsome
  refine ⟨digits, by omega, by omega, ?_⟩
  rw [heq]
  obtain ⟨d, hd⟩ := Option.isSome_iff_exists.1 hfound
  rw [hd, Option.getD_some]

/-- A point found on a grid is one of the two around the magnitude. -/
theorem of_onGrid?_eq_some {tie : Tie} {field : Nat} {exponent : Int} {d : Decimal}
    (h : onGrid? tie field exponent = some d) :
    d.exponent = exponent ∧ d.coefficient ≤ gridFloor field exponent + 1 := by
  rw [onGrid?, ← gridFloor] at h
  split_ifs at h <;> cases h
  · exact ⟨rfl, Nat.le_refl _⟩
  · exact ⟨rfl, Nat.le_succ _⟩
  · exact ⟨rfl, Nat.le_refl _⟩

/-- On the grid of a number of digits, no point around a magnitude has more digits, but for the
power of ten above it. -/
theorem gridFloor_lt {field : Nat} (hpos : 0 < field) (digits : Nat) :
    gridFloor field (orderOfMagnitude field - digits) < 10 ^ digits := by
  obtain ⟨-, hlt⟩ := orderOfMagnitude_spec hpos
  obtain ⟨hle, -⟩ := gridFloor_spec field (orderOfMagnitude field - digits)
  have hunit := unit_pos (orderOfMagnitude field - digits)
  rw [← unit_sub _ digits] at hlt
  have hpoints := lt_of_mul_lt_mul_right (lt_of_le_of_lt hle hlt) (le_of_lt hunit)
  exact_mod_cast hpoints

/-- A power of ten is the distance on the grid of its exponent. -/
theorem partsOfRatio_pow (k : Nat) : Double.partsOfRatio (Nat.pow 10 k) 1 = unit k := by
  rw [Double.partsOfRatio, unit, zpow_natCast, Nat.cast_one, div_one, Nat.pow_eq, Nat.cast_pow,
    Nat.cast_ofNat]

/-- A decimal that rounds to a finite field keeps below every power of ten that does not. -/
theorem exponent_lt_of_infinite {k : Nat}
    (hk : Double.nearestField (Nat.pow 10 k) 1 = Double.infinityField) {d : Decimal} {field : Nat}
    (hfield : field < Double.infinityField) (hd : Double.RoundsTo d.parts field)
    (hpos : 0 < d.coefficient) : d.exponent < k := by
  obtain ⟨coefficient, exponent⟩ := d
  by_contra hlarge
  have hone : (1 : ℚ) ≤ coefficient := by exact_mod_cast hpos
  have hle : Double.partsOfRatio (Nat.pow 10 k) 1 ≤ parts ⟨coefficient, exponent⟩ := by
    rw [partsOfRatio_pow, parts_mk]
    calc unit k ≤ 1 * unit exponent := by rw [one_mul]; exact unit_mono (not_lt.1 hlarge)
      _ ≤ coefficient * unit exponent := mul_le_mul_of_nonneg_right hone (le_of_lt (unit_pos _))
  obtain ⟨found, hfound, hinfinity⟩ := Double.exists_roundsTo (Nat.pow 10 k) Nat.one_pos
  have hmono := hfound.mono hd hle
  omega

/-- What stands for a positive field has digits. -/
theorem coefficient_pos_of_roundsTo {d : Decimal} {field : Nat} (hpos : 0 < field)
    (hd : Double.RoundsTo d.parts field) : 0 < d.coefficient := by
  obtain ⟨coefficient, exponent⟩ := d
  rw [Nat.pos_iff_ne_zero]
  rintro rfl
  rw [parts_zero] at hd
  have hzero := hd.unique (by exact_mod_cast Double.RoundsTo.self 0)
  omega

/-- The shortest decimal of a positive finite field has at most seventeen digits, or is the power of
ten behind them, and its last place lies between the least one and the largest finite power. -/
structure Bounds (d : Decimal) : Prop where
  coefficient_pos : 0 < d.coefficient
  coefficient_le : d.coefficient ≤ 10 ^ 17
  le_exponent : -324 ≤ d.exponent
  exponent_le : d.exponent ≤ 308

/-- The shortest decimal is found on a grid of few digits, so it keeps the bounds. -/
theorem bounds_shortest (tie : Tie) {field : Nat} (hpos : 0 < field)
    (hfield : field < Double.infinityField) : Bounds (shortest tie field) := by
  obtain ⟨digits, hdigits, hplaces, hfound⟩ := exists_onGrid?_eq_shortest tie hpos hfield
  obtain ⟨hexponent, hcoefficient⟩ := of_onGrid?_eq_some hfound
  have hd := (nearestField_eq_iff _ hfield).1 (nearestField_shortest tie hfield)
  have hone := coefficient_pos_of_roundsTo hpos hd
  have hlarge := exponent_lt_of_infinite (k := 309) (by decide +kernel) hfield hd hone
  have hpower : 10 ^ digits ≤ 10 ^ 17 := Nat.pow_le_pow_right (by decide) hdigits
  have hfloor := gridFloor_lt hpos digits
  exact ⟨hone, by omega, by omega, by omega⟩

end Decimal

end ScoringMarkup
