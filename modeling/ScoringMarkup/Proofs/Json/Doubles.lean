import ScoringMarkup.Proofs.Double.Numerals
import ScoringMarkup.Proofs.Double.Scaling
import ScoringMarkup.Proofs.Json.Compact

/-!
# Written doubles

The text of a finite double is a whole part, a fraction or an exponent or both, and where a value
ends behind it, it is read as the scaled number of its digits and its power of ten.
-/

namespace ScoringMarkup

namespace Json

open Numeral (fractionText)

/-- The bytes of digits are digits. -/
theorem forall_isDigit_map {cs : List Char} (h : ∀ c ∈ cs, c.isDigit = true) :
    ∀ b ∈ cs.map ascii, isDigit b = true := by
  intro b hb
  obtain ⟨c, hc, rfl⟩ := List.mem_map.1 hb
  exact (isDigit_ascii (h c hc)).1

/-- Digits are all that is passed where no other digit follows them. -/
theorem span_digits {cs : List Char} (h : ∀ c ∈ cs, c.isDigit = true) {rest : Bytes}
    (hr : startsWithDigit rest = false) :
    (cs.map ascii ++ rest).takeWhile isDigit = cs.map ascii ∧
      (cs.map ascii ++ rest).dropWhile isDigit = rest := by
  rw [List.takeWhile_append_of_pos (forall_isDigit_map h),
    List.dropWhile_append_of_pos (forall_isDigit_map h)]
  cases rest with
  | nil => exact ⟨List.append_nil _, rfl⟩
  | cons b rest =>
    rw [startsWithDigit] at hr
    have hb : ¬ isDigit b = true := by rw [hr]; exact Bool.false_ne_true
    rw [List.takeWhile_cons_of_neg hb, List.dropWhile_cons_of_neg hb, List.append_nil]
    exact ⟨rfl, rfl⟩

/-- Digits of bytes have the value of their characters. -/
theorem foldl_digitValue {cs : List Char} (h : ∀ c ∈ cs, c.isDigit = true) (value : Nat) :
    (cs.map ascii).foldl (fun value b => value * 10 + digitValue b) value =
      Nat.ofDigitChars 10 cs value := by
  induction cs generalizing value with
  | nil => rfl
  | cons c cs ih =>
    rw [List.map_cons, List.foldl_cons, ih fun d hd => h d (List.mem_cons_of_mem _ hd),
      Nat.ofDigitChars_cons, (isDigit_ascii (h c List.mem_cons_self)).2, Nat.mul_comm]
    rfl

/-- Digits have the value that they spell, where no other digit follows them. -/
theorem digitsValue_digits {cs : List Char} (h : ∀ c ∈ cs, c.isDigit = true) {rest : Bytes}
    (hr : startsWithDigit rest = false) :
    digitsValue (cs.map ascii ++ rest) = Nat.ofDigitChars 10 cs 0 := by
  rw [digitsValue, (span_digits h hr).1, foldl_digitValue h]

/-- A number without an exponent is finished behind its fraction. -/
theorem readAfterFraction_of_endsValue {rest : Bytes} (h : EndsValue rest) (negative : Bool)
    (significand : Nat) (exponent : Int) :
    readAfterFraction negative significand exponent rest =
      finishDouble negative significand exponent rest := by
  cases rest with
  | nil => rfl
  | cons b rest => rcases h with rfl | rfl | rfl <;> rfl

/-- The digits of an exponent, behind its sign. -/
theorem readExponentDigits_decimal {rest : Bytes} (h : EndsValue rest) (negative lowering : Bool)
    (significand : Nat) (exponent : Int) {written : Nat} (hfits : written ≤ largestExponent) :
    readExponentDigits negative significand exponent lowering (decimal written ++ rest) =
      finishDouble negative significand
        (if lowering then exponent - written else exponent + written) rest := by
  have hr := h.endsNumber.startsWithDigit_eq
  have hall := isDigit_of_mem_toDigits written
  have hvalue := digitsValue_digits hall hr
  have hrest := (span_digits hall hr).2
  rw [Nat.ofDigitChars_ten_toDigits, ← decimal] at hvalue
  rw [← decimal] at hrest
  obtain ⟨b, tail, heq, hb⟩ := decimal_eq_cons written
  rw [heq, List.cons_append] at hvalue hrest ⊢
  rw [List.dropWhile_cons_of_pos hb] at hrest
  rw [readExponentDigits, hb, if_pos rfl, hvalue, hrest]
  exact if_pos hfits

/-- An exponent is added with its sign. -/
theorem readAfterFraction_exponent {rest : Bytes} (h : EndsValue rest) (negative : Bool)
    (significand : Nat) (exponent : Int) {written : Int}
    (hfits : written.natAbs ≤ largestExponent) :
    readAfterFraction negative significand exponent
        (ascii 'e' :: ascii (if written < 0 then '-' else '+') ::
          (decimal written.natAbs ++ rest)) =
      finishDouble negative significand (exponent + written) rest := by
  rw [readAfterFraction, if_pos (Or.inl rfl), readExponent]
  by_cases hwritten : written < 0
  · rw [if_pos hwritten, if_neg (by decide), if_pos rfl,
      readExponentDigits_decimal h _ _ _ _ hfits, if_pos rfl]
    congr 1
    omega
  · rw [if_neg hwritten, if_pos rfl, readExponentDigits_decimal h _ _ _ _ hfits,
      if_neg (by decide)]
    congr 1
    omega

/-- A whole part with a fraction is read up to what follows its digits. -/
theorem readNumber_fraction {whole fraction : List Char} (hwhole : IsWhole whole)
    (hfraction : ∀ c ∈ fraction, c.isDigit = true) (hne : fraction ≠ [])
    (hv : Nat.ofDigitChars 10 (whole ++ fraction) 0 ≤ largestSignificand) {rest : Bytes}
    (hr : startsWithDigit rest = false) (negative : Bool) :
    readNumber negative ((whole ++ fractionText fraction).map ascii ++ rest) =
      readAfterFraction negative (Nat.ofDigitChars 10 (whole ++ fraction) 0) (-fraction.length)
        rest := by
  rw [Nat.ofDigitChars_append] at hv ⊢
  have hkept := Nat.le_trans (le_ofDigitChars fraction _) hv
  have htaken := takeDigits_all hfraction hv hr
  have hrest : rest.dropWhile isDigit = rest := (span_digits (List.forall_mem_nil _) hr).2
  obtain ⟨c, cs, rfl⟩ := List.exists_cons_of_ne_nil hne
  have hdigit := (isDigit_ascii (hfraction c List.mem_cons_self)).1
  rw [fractionText, List.map_append, List.append_assoc, List.map_cons, List.cons_append,
    readNumber_whole hwhole hkept rfl, readAfterInteger, if_pos (Or.inl rfl), readAfterWhole,
    if_pos rfl, List.map_cons, List.cons_append, readFraction]
  rw [List.map_cons, List.cons_append] at htaken
  rw [hdigit, if_pos rfl, htaken, hrest, Nat.cast_zero, Int.zero_sub]

/-- A whole part with an exponent at once. -/
theorem readNumber_exponent {whole : List Char} (hwhole : IsWhole whole)
    (hv : Nat.ofDigitChars 10 whole 0 ≤ largestSignificand) (negative : Bool) (more : Bytes) :
    readNumber negative (whole.map ascii ++ ascii 'e' :: more) =
      readAfterFraction negative (Nat.ofDigitChars 10 whole 0) 0 (ascii 'e' :: more) := by
  rw [readNumber_whole hwhole hv rfl, readAfterInteger, if_pos (Or.inr (Or.inl rfl)),
    readAfterWhole, if_neg (by decide), Nat.cast_zero]

/-- The characters of a number have one byte each, which marks no string and no container. -/
theorem IsNumberChar.spec {c : Char} (h : IsNumberChar c) :
    c.toNat < 0x80 ∧
      ascii c ∉ [ascii '"', ascii '[', ascii ']', ascii '\x7b', ascii '\x7d'] := by
  rcases h with hdigit | hother
  · refine ⟨Nat.lt_of_le_of_lt (toNat_of_isDigit hdigit).2 (by decide), fun hmark => ?_⟩
    have hbyte := (isDigit_ascii hdigit).1
    simp only [List.mem_cons, List.not_mem_nil, or_false] at hmark
    rcases hmark with heq | heq | heq | heq | heq <;> rw [heq] at hbyte <;>
      exact absurd hbyte (by decide)
  · simp only [List.mem_cons, List.not_mem_nil, or_false] at hother
    rcases hother with rfl | rfl | rfl | rfl <;> decide

/-- Digits with or without a fraction are read up to the exponent behind them. -/
theorem readNumber_mantissa {whole fraction : List Char} (hwhole : IsWhole whole)
    (hfraction : ∀ c ∈ fraction, c.isDigit = true)
    (hv : Nat.ofDigitChars 10 (whole ++ fraction) 0 ≤ largestSignificand) (negative : Bool)
    (more : Bytes) :
    readNumber negative ((whole ++ fractionText fraction).map ascii ++ ascii 'e' :: more) =
      readAfterFraction negative (Nat.ofDigitChars 10 (whole ++ fraction) 0) (-fraction.length)
        (ascii 'e' :: more) := by
  cases fraction with
  | nil =>
    rw [List.append_nil] at hv ⊢
    rw [fractionText, List.append_nil]
    exact readNumber_exponent hwhole hv negative more
  | cons c cs => exact readNumber_fraction hwhole hfraction (List.cons_ne_nil c cs) hv rfl negative

end Json

namespace Decimal

open Json Numeral

/-- The digits in front of the point of a decimal are a whole part, unless they are zeros behind a
zero. -/
theorem isWhole_wholeDigits {d : Decimal} (h : 0 < d.coefficient ∨ d.exponent = 0) :
    IsWhole d.wholeDigits := by
  refine ⟨fun c hc => isDigit_of_mem_paddedDigits c (List.mem_of_mem_take hc), ?_⟩
  obtain ⟨coefficient, exponent⟩ := d
  rcases Nat.eq_zero_or_pos coefficient with rfl | hpos
  · obtain rfl : exponent = 0 := h.resolve_left (Nat.lt_irrefl 0)
    exact Or.inl rfl
  · obtain ⟨c, cs, hdigits, hne⟩ := toDigits_of_pos hpos
    cases exponent with
    | ofNat zeros =>
      rw [wholeDigits_ofNat, hdigits]
      exact Or.inr ⟨c, _, rfl, hne⟩
    | negSucc n =>
      by_cases hfew : (Nat.toDigits 10 coefficient).length ≤ n + 1
      · exact Or.inl (wholeDigits_of_few hfew).1
      · rw [Nat.not_le] at hfew
        rw [(wholeDigits_of_many hfew).1]
        obtain ⟨k, hk⟩ := Nat.exists_eq_add_of_lt hfew
        rw [hk, Nat.add_assoc, Nat.add_sub_cancel_left, hdigits, List.take_succ_cons]
        exact Or.inr ⟨c, _, rfl, hne⟩

variable {d : Decimal} {rest : Bytes}

/-- A decimal with its point among its places is read as its coefficient on its power of ten. -/
theorem readNumber_positional (hwhole : IsWhole d.wholeDigits) (hexponent : d.exponent < 0)
    (hmost : d.coefficient ≤ largestSignificand) (hrest : EndsValue rest) (negative : Bool) :
    readNumber negative (d.positional.map ascii ++ rest) =
      finishDouble negative d.coefficient d.exponent rest := by
  have hplaces : (-d.fractionDigits.length : Int) = d.exponent := by
    rw [length_fractionDigits, places]
    omega
  have hne : d.fractionDigits ≠ [] := by
    rw [← List.length_pos_iff]
    omega
  have hnumerator : d.numerator = d.coefficient := by
    rw [numerator, Int.toNat_of_nonpos (Int.le_of_lt hexponent)]
    exact Nat.mul_one d.coefficient
  have hvalue : Nat.ofDigitChars 10 (d.wholeDigits ++ d.fractionDigits) 0 = d.coefficient := by
    rw [wholeDigits_append_fractionDigits, ofDigitChars_paddedDigits, hnumerator]
  have hdigits : ∀ c ∈ d.fractionDigits, c.isDigit = true :=
    fun c hc => isDigit_of_mem_paddedDigits c (List.mem_of_mem_drop hc)
  rw [positional_eq, readNumber_fraction hwhole hdigits hne (by rwa [hvalue])
    (hrest.endsNumber.startsWithDigit_eq), hvalue, hplaces, readAfterFraction_of_endsValue hrest]

/-- A whole number is read with the zero behind its point. -/
theorem readNumber_marked (hwhole : IsWhole d.wholeDigits) (hexponent : 0 ≤ d.exponent)
    (hmost : 10 * d.numerator ≤ largestSignificand) (hrest : EndsValue rest) (negative : Bool) :
    readNumber negative ((d.positional ++ ['.', '0']).map ascii ++ rest) =
      finishDouble negative (10 * d.numerator) (-1) rest := by
  have hnone : d.fractionDigits = [] := by
    rw [← List.length_eq_zero_iff, length_fractionDigits, places]
    omega
  have hall : d.wholeDigits = d.paddedDigits := by
    rw [← wholeDigits_append_fractionDigits, hnone, List.append_nil]
  have hvalue : Nat.ofDigitChars 10 (d.wholeDigits ++ ['0']) 0 = 10 * d.numerator := by
    rw [Nat.ofDigitChars_append, hall, ofDigitChars_paddedDigits]
    rfl
  have hzero : ∀ c ∈ ['0'], c.isDigit = true := List.forall_mem_singleton.2 rfl
  have hread := readNumber_fraction hwhole hzero (List.cons_ne_nil _ _) (by rwa [hvalue])
    (hrest.endsNumber.startsWithDigit_eq) negative
  rw [hvalue, readAfterFraction_of_endsValue hrest] at hread
  rw [positional_eq, hnone, fractionText, List.append_nil]
  exact hread

/-- A leading digit with its fraction, and the exponent. -/
theorem scientific_eq {c : Char} {cs : List Char} (h : Nat.toDigits 10 d.coefficient = c :: cs) :
    d.scientific = [c] ++ fractionText cs ++
      'e' :: (if d.leadingExponent < 0 then '-' else '+') ::
        Nat.toDigits 10 d.leadingExponent.natAbs := by
  rw [scientific, h]
  cases cs <;> simp [fractionText]

/-- A decimal with an exponent is read as its coefficient on its power of ten. -/
theorem readNumber_scientific (hpos : 0 < d.coefficient)
    (hmost : d.coefficient ≤ largestSignificand)
    (hfits : d.leadingExponent.natAbs ≤ largestExponent) (hrest : EndsValue rest)
    (negative : Bool) :
    readNumber negative (d.scientific.map ascii ++ rest) =
      finishDouble negative d.coefficient d.exponent rest := by
  have hall := isDigit_of_mem_toDigits d.coefficient
  obtain ⟨c, cs, hdigits, hne⟩ := toDigits_of_pos hpos
  have hvalue : Nat.ofDigitChars 10 ([c] ++ cs) 0 = d.coefficient := by
    rw [List.singleton_append, ← hdigits]
    exact Nat.ofDigitChars_ten_toDigits
  have hexponent : -(cs.length : Int) + d.leadingExponent = d.exponent := by
    rw [leadingExponent, hdigits, List.length_cons]
    omega
  rw [hdigits] at hall
  have hwhole : IsWhole [c] :=
    ⟨fun e he => hall e (List.mem_singleton.1 he ▸ List.mem_cons_self), Or.inr ⟨c, [], rfl, hne⟩⟩
  have hmantissa := readNumber_mantissa hwhole (fun e he => hall e (List.mem_cons_of_mem c he))
    (by rwa [hvalue]) negative
    (ascii (if d.leadingExponent < 0 then '-' else '+') ::
      (decimal d.leadingExponent.natAbs ++ rest))
  rw [hvalue, readAfterFraction_exponent hrest _ _ _ hfits, hexponent] at hmantissa
  rw [scientific_eq hdigits, List.map_append, List.append_assoc]
  exact hmantissa

/-- A whole number whose leading digit stands below a power of ten keeps below it. -/
theorem numerator_lt (hexponent : 0 ≤ d.exponent) {k : Nat} (hlead : d.leadingExponent < k) :
    d.numerator < 10 ^ k := by
  have hlength : 0 < (Nat.toDigits 10 d.coefficient).length := Nat.length_toDigits_pos
  have hcoefficient : d.coefficient < 10 ^ (Nat.toDigits 10 d.coefficient).length :=
    (Nat.length_toDigits_le_iff (by decide) hlength).1 (Nat.le_refl _)
  rw [leadingExponent] at hlead
  calc d.numerator < 10 ^ (Nat.toDigits 10 d.coefficient).length * 10 ^ d.exponent.toNat :=
        Nat.mul_lt_mul_of_pos_right hcoefficient (Nat.pow_pos (by decide))
    _ = 10 ^ ((Nat.toDigits 10 d.coefficient).length + d.exponent.toNat) := (Nat.pow_add ..).symm
    _ ≤ 10 ^ k := Nat.pow_le_pow_right (by decide) (by omega)

/-- The digits of a document: with all places and a zero behind the point of whole numbers, or with
an exponent. -/
def documentChars (d : Decimal) : List Char :=
  if Double.documentFormat.isPositional d.leadingExponent then
    d.positional ++ if 0 ≤ d.exponent then ['.', '0'] else []
  else d.scientific

/-- The decimal that the digits of a document spell: whole numbers have one place behind the
point. -/
def spelled (d : Decimal) : Decimal :=
  if Double.documentFormat.isPositional d.leadingExponent ∧ 0 ≤ d.exponent then
    ⟨10 * d.numerator, -1⟩
  else d

/-- What a decimal spells has the value of the decimal. -/
theorem parts_spelled (d : Decimal) : d.spelled.parts = d.parts := by
  rw [spelled]
  split_ifs with hwhole
  · have hone : d.denominator = 1 := by
      rw [denominator, Int.toNat_of_nonpos (Int.neg_nonpos_of_nonneg hwhole.2)]
    rw [parts_tenths, parts, Double.partsOfRatio, hone, Nat.cast_one, div_one, Nat.cast_mul]
  · rfl

/-- A whole number that is written with all its places has at most sixteen of them. -/
theorem numerator_lt_of_isPositional
    (h : Double.documentFormat.isPositional d.leadingExponent = true ∧ 0 ≤ d.exponent) :
    d.numerator < 10 ^ 16 := by
  have hlead : -5 ≤ d.leadingExponent ∧ d.leadingExponent ≤ 15 := of_decide_eq_true h.1
  exact numerator_lt h.2 (by omega)

/-- The text of a decimal in a document is read as the decimal that it spells. -/
theorem readNumber_spelled (hd : 0 < d.coefficient ∨ d.exponent = 0)
    (hmost : d.coefficient ≤ 10 ^ 17) (hfits : d.leadingExponent.natAbs ≤ largestExponent)
    (hrest : EndsValue rest) (negative : Bool) :
    readNumber negative (d.documentChars.map ascii ++ rest) =
      finishDouble negative d.spelled.coefficient d.spelled.exponent rest := by
  have hkept : d.coefficient ≤ largestSignificand := Nat.le_trans hmost (by decide)
  have hwhole := isWhole_wholeDigits hd
  rw [documentChars, spelled]
  by_cases hpositional : Double.documentFormat.isPositional d.leadingExponent = true
  · by_cases hexponent : 0 ≤ d.exponent
    · have hnumerator := numerator_lt_of_isPositional ⟨hpositional, hexponent⟩
      rw [if_pos hpositional, if_pos hexponent, if_pos ⟨hpositional, hexponent⟩]
      refine readNumber_marked hwhole hexponent ?_ hrest negative
      rw [largestSignificand]
      omega
    · rw [if_pos hpositional, if_neg hexponent, if_neg fun h => hexponent h.2, List.append_nil]
      exact readNumber_positional hwhole (not_le.1 hexponent) hkept hrest negative
  · -- Zero is written with all its places.
    have hpos : 0 < d.coefficient := by
      refine Nat.pos_of_ne_zero fun hzero => hpositional ?_
      rw [leadingExponent, hd.resolve_left (by omega), hzero]
      rfl
    rw [if_neg hpositional, if_neg fun h => hpositional h.1]
    exact readNumber_scientific hpos hkept hfits hrest negative

end Decimal

namespace Double

open Json

/-- The shortest decimal of a magnitude, as documents have it. -/
def documentDigits (field : Nat) : Decimal :=
  if field = 0 then ⟨0, 0⟩ else Decimal.shortest .even field

/-- A magnitude in a document is written from its digits. -/
theorem magnitudeText_eq (field : Nat) :
    magnitudeText documentFormat field = (documentDigits field).documentChars := by
  rw [magnitudeText, documentDigits, Decimal.documentChars]
  simp [documentFormat]

/-- What a decimal has to be to stand for a field in a document. -/
structure Shows (d : Decimal) (field : Nat) : Prop where
  roundsTo : RoundsTo d.parts field
  coefficient_le : d.coefficient ≤ 10 ^ 17
  le_exponent : -324 ≤ d.exponent
  exponent_le : d.exponent ≤ 308

/-- The exponent in front of which a leading digit stands is small. -/
theorem Shows.natAbs_leadingExponent_le {d : Decimal} {field : Nat} (h : Shows d field) :
    d.leadingExponent.natAbs ≤ largestExponent := by
  have hlength : (Nat.toDigits 10 d.coefficient).length ≤ 18 :=
    (Nat.length_toDigits_le_iff (by decide) (by decide)).2
      (Nat.lt_of_le_of_lt h.coefficient_le (by decide))
  have hleast := h.le_exponent
  have hmost := h.exponent_le
  rw [Decimal.leadingExponent, largestExponent]
  omega

/-- What a decimal spells stands for the same field. -/
theorem Shows.spelled {d : Decimal} {field : Nat} (h : Shows d field) : Shows d.spelled field := by
  have hround := h.roundsTo
  rw [← Decimal.parts_spelled] at hround
  by_cases hwhole : documentFormat.isPositional d.leadingExponent = true ∧ 0 ≤ d.exponent
  · have hnumerator := Decimal.numerator_lt_of_isPositional hwhole
    rw [Decimal.spelled, if_pos hwhole] at hround ⊢
    exact ⟨hround, Nat.le_of_lt (by dsimp only; omega), by dsimp only; omega, by dsimp only; omega⟩
  · rwa [Decimal.spelled, if_neg hwhole]

variable {x : Double}

/-- The digits that are written for a double stand for its field. -/
theorem shows_documentDigits (hx : x.isFinite = true) : Shows (documentDigits x.field) x.field := by
  rw [documentDigits]
  split_ifs with hzero
  · rw [hzero]
    refine ⟨?_, by decide, by decide, by decide⟩
    rw [Decimal.parts_zero]
    exact_mod_cast RoundsTo.self 0
  · have hfield : x.field < infinityField := of_decide_eq_true hx
    have hbounds := Decimal.bounds_shortest .even (Nat.pos_of_ne_zero hzero) hfield
    exact ⟨(Decimal.nearestField_eq_iff _ hfield).1 (Decimal.nearestField_shortest _ hfield),
      hbounds.coefficient_le, hbounds.le_exponent, hbounds.exponent_le⟩

/-- The digits of zero stand on the power of ten that is one. -/
theorem coefficient_pos_or (hx : x.isFinite = true) :
    0 < (documentDigits x.field).coefficient ∨ (documentDigits x.field).exponent = 0 := by
  rcases Nat.eq_zero_or_pos x.field with hzero | hpos
  · right
    rw [documentDigits, if_pos hzero]
  · exact Or.inl (Decimal.coefficient_pos_of_roundsTo hpos (shows_documentDigits hx).roundsTo)

/-- The decimal that the text of a number in a document spells. -/
def documentDecimal (x : Double) : Decimal := (documentDigits x.field).spelled

/-- The roundings between the decimal of a number and the number that is read from it. -/
def documentRoundings (x : Double) : Nat :=
  roundings x.documentDecimal.coefficient x.documentDecimal.exponent

/-- The three largest finite numbers are not moved out of the finite ones. -/
theorem any_ofScaled?_largest : ∀ k < 3,
    let field := infinityField - 1 - k
    let d := (documentDigits field).spelled
    let moves := roundings d.coefficient d.exponent
    (ofScaled? d.coefficient d.exponent).any fun y =>
      decide (y.isFinite = true ∧ y.isNegative = false ∧
        y.field ≤ field + moves ∧ field ≤ y.field + moves) := by
  decide +kernel

/-- The decimal of a finite number is scaled to a finite number near it. -/
theorem exists_ofScaled?_documentDecimal (hx : x.isFinite = true) :
    ∃ y, ofScaled? x.documentDecimal.coefficient x.documentDecimal.exponent = some y ∧
      y.isFinite = true ∧ IsNear x.documentRoundings x.field y := by
  have hfield : x.field < infinityField := of_decide_eq_true hx
  have hmoves : x.documentRoundings ≤ 3 := roundings_le _ _
  obtain ⟨hround, hcoefficient, hleast, hmost⟩ := (shows_documentDigits hx).spelled
  by_cases hroom : x.field + 3 < infinityField
  · obtain ⟨y, hy, hnear⟩ := exists_ofScaled? hcoefficient hleast hmost hround hroom
    refine ⟨y, hy, decide_eq_true (Nat.lt_of_le_of_lt hnear.le ?_), hnear⟩
    exact Nat.lt_of_le_of_lt (Nat.add_le_add_left hmoves _) hroom
  · have hlargest := any_ofScaled?_largest (infinityField - 1 - x.field) (by omega)
    have heq : infinityField - 1 - (infinityField - 1 - x.field) = x.field := by omega
    dsimp only at hlargest
    rw [heq, Option.any_eq_true] at hlargest
    obtain ⟨y, hy, hchecked⟩ := hlargest
    obtain ⟨hfinite, hsign, hle, hge⟩ := of_decide_eq_true hchecked
    exact ⟨y, hy, hfinite, hsign, hle, hge⟩

/-- What is read for a number that stands in a document: a finite one of its sign, no further away
than there are roundings. -/
structure ReadsAs (x y : Double) : Prop where
  isFinite : y.isFinite = true
  isNegative_eq : y.isNegative = x.isNegative
  le : y.field ≤ x.field + x.documentRoundings
  ge : x.field ≤ y.field + x.documentRoundings

/-- Without roundings a number is read back. -/
theorem ReadsAs.eq {y : Double} (h : ReadsAs x y) (hnone : x.documentRoundings = 0) : y = x := by
  have hle := h.le
  have hge := h.ge
  exact eq_of_field_eq h.isNegative_eq (by omega)

/-- A magnitude that is near enough is read as the double, once its sign is put back. -/
theorem ReadsAs.of_isNear {y : Double} (hfinite : y.isFinite = true)
    (h : IsNear x.documentRoundings x.field y) :
    ReadsAs x (if x.isNegative then y.negate else y) := by
  cases hsign : x.isNegative with
  | false =>
    rw [if_neg Bool.false_ne_true]
    exact ⟨hfinite, h.isNegative_eq_false.trans hsign.symm, h.le, h.ge⟩
  | true =>
    have hfield : y.negate.field = y.field := field_ofField _ y.field_lt
    have hnegative : y.negate.isNegative = !y.isNegative := isNegative_ofField _ y.field_lt
    rw [if_pos rfl]
    refine ⟨?_, ?_, ?_, ?_⟩
    · rw [Double.isFinite, hfield]
      exact hfinite
    · rw [hnegative, h.isNegative_eq_false, hsign]
      rfl
    · rw [hfield]
      exact h.le
    · rw [hfield]
      exact h.ge

/-- The text of the magnitude of a finite number is read as the scaled number of its decimal. -/
theorem readNumber_magnitudeText (hx : x.isFinite = true) {y : Double}
    (hy : ofScaled? x.documentDecimal.coefficient x.documentDecimal.exponent = some y)
    {rest : Bytes} (hrest : EndsValue rest) (negative : Bool) :
    readNumber negative ((magnitudeText documentFormat x.field).map ascii ++ rest) =
      .ok (.double (if negative then y.negate else y), rest) := by
  rw [magnitudeText_eq, Decimal.readNumber_spelled (coefficient_pos_or hx)
    (shows_documentDigits hx).coefficient_le (shows_documentDigits hx).natAbs_leadingExponent_le
    hrest, ← documentDecimal, finishDouble, hy]

/-- A double is written in ASCII. -/
theorem bytes_eq_map (hx : x.isFinite = true) :
    (Datum.double x).bytes = x.documentText.toList.map ascii := by
  rw [Datum.bytes, Datum.compact, writeDouble, if_pos hx]
  exact utf8_of_forall_lt fun c hc => (isNumberChar_of_mem_documentText x c hc).spec.1

/-- A double is written as its sign and its magnitude. -/
theorem bytes_double (hx : x.isFinite = true) :
    (Datum.double x).bytes =
      x.signText.map ascii ++ (magnitudeText documentFormat x.field).map ascii := by
  rw [bytes_eq_map hx, documentText, String.toList_ofList, List.map_append]

/-- A double leaves the scan outside strings and opens nothing. -/
theorem leadsTo_double (hx : x.isFinite = true) :
    LeadsTo .outside .outside (Datum.double x).bytes := by
  rw [bytes_eq_map hx]
  refine .unmarked fun b hb => ?_
  obtain ⟨c, hc, rfl⟩ := List.mem_map.1 hb
  exact (isNumberChar_of_mem_documentText x c hc).spec.2

/-- A number begins with a digit behind its sign. -/
theorem exists_digit_of_readNumber {negative : Bool} {input : Bytes} {result : Number × Bytes}
    (h : readNumber negative input = .ok result) :
    ∃ b tail, input = b :: tail ∧ isDigit b = true := by
  cases input with
  | nil => cases h
  | cons b tail =>
    refine ⟨b, tail, rfl, ?_⟩
    by_contra hb
    rw [readNumber, if_neg (by rintro rfl; exact hb rfl), if_neg hb] at h
    cases h

/-- A finite number in a document is read as the scaled number of its decimal, with its sign. -/
theorem readDouble_bytes (hx : x.isFinite = true) {y : Double}
    (hy : ofScaled? x.documentDecimal.coefficient x.documentDecimal.exponent = some y)
    {rest : Bytes} (hrest : EndsValue rest) :
    readDouble ((Datum.double x).bytes ++ rest) =
      .ok (.double (if x.isNegative then y.negate else y), rest) := by
  have hnumber := readNumber_magnitudeText hx hy hrest
  obtain ⟨b, tail, heq, hdigit⟩ := exists_digit_of_readNumber (hnumber false)
  rw [bytes_double hx, List.append_assoc, signText, readDouble, readNumberOr]
  cases x.isNegative with
  | false =>
    rw [if_neg Bool.false_ne_true, List.map_nil, List.nil_append, heq,
      skipBlanks_of_not_isBlank (not_isBlank_of_isDigit hdigit).1]
    dsimp only
    rw [if_neg (not_isBlank_of_isDigit hdigit).2, if_pos hdigit, ← heq, hnumber]
    rfl
  | true =>
    rw [if_pos rfl, List.map_singleton, List.singleton_append, skipBlanks_of_not_isBlank rfl]
    dsimp only
    rw [if_pos rfl, hnumber]
    rfl

end Double

end ScoringMarkup
