import Mathlib.Data.List.Basic
import ScoringMarkup.Proofs.SourceType.Nullability

/-!
# Widening of types

The number types stand in one row, from the narrowest to the widest. One type accepts another
exactly when they are the same, or both are numbers and the other one comes first in the row. So
the laws of accepting are those of the order of the row: it is a partial order of types up to
their flags, in which any two number types can be compared and no other two different types can.
-/

namespace ScoringMarkup

namespace SourceType

/-- The number types, from the narrowest to the widest. -/
def numbers : List SourceType := [.byte, .short, .integer, .long, .float, .double]

/-- The place of a number type in the row; any other type comes after all of them. -/
def width (type : SourceType) : Nat := numbers.idxOf type

variable {a b c : SourceType}

/-- The number types are those with a place in the row. -/
theorem width_lt_iff : a.width < numbers.length ↔ a ∈ numbers := List.idxOf_lt_length_iff

/-- What comes before a number type is a number type. -/
theorem mem_numbers_of_width_lt (ha : a ∈ numbers) (h : b.width < a.width) : b ∈ numbers :=
  width_lt_iff.mp (Nat.lt_trans h (width_lt_iff.mpr ha))

/-- Number types of one width are equal. -/
theorem eq_of_width_eq (ha : a ∈ numbers) (h : a.width = b.width) : a = b :=
  (List.idxOf_inj ha).mp h

/-- No number type is wider than the double. -/
theorem eq_double_of_width_le (ha : a ∈ numbers) (h : double.width ≤ a.width) : a = .double := by
  have hlast : numbers.length = double.width + 1 := rfl
  have hlt := width_lt_iff.mpr ha
  exact eq_of_width_eq ha (by omega)

/-- Flags make no type wider. -/
theorem width_withoutFlags (type : SourceType) : type.withoutFlags.width = type.width := by
  cases type <;> rfl

/-- The same type has the same width. -/
theorem width_eq_of_sameType (h : a.sameType b = true) : a.width = b.width := by
  rw [← width_withoutFlags, (sameType_iff a b).mp h, width_withoutFlags]

/-- Sameness of types is an equivalence, that of equality without flags. -/
theorem sameType_equivalence : Equivalence fun a b : SourceType => a.sameType b = true where
  refl a := (sameType_iff a a).mpr rfl
  symm h := (sameType_iff _ _).mpr ((sameType_iff _ _).mp h).symm
  trans h h' := (sameType_iff _ _).mpr (((sameType_iff _ _).mp h).trans ((sameType_iff _ _).mp h'))

/-- Pair by pair, a type accepts what is the same or, in the row of number types, in front of it. -/
private theorem accepts_eq (a b : SourceType) :
    a.accepts b = (a.sameType b || decide (a ∈ numbers ∧ b.width < a.width)) := by
  -- Pair by pair, the listed widenings are those that the row gives.
  cases a <;> cases b <;> rfl

/-- A type accepts the types that are the same and, if it is a number type, all narrower ones. -/
theorem accepts_iff :
    a.accepts b = true ↔ a.sameType b = true ∨ a ∈ numbers ∧ b.width < a.width := by
  rw [accepts_eq, Bool.or_eq_true, decide_eq_true_eq]

/-- Types that are the same accept, and are accepted by, the same types. -/
theorem accepts_congr {a' b' : SourceType} (ha : a.sameType a' = true)
    (hb : b.sameType b' = true) : a.accepts b = a'.accepts b' := by
  rw [← accepts_withoutFlags, (sameType_iff a a').mp ha, (sameType_iff b b').mp hb,
    accepts_withoutFlags]

/-- A type accepts itself. -/
theorem accepts_refl (a : SourceType) : a.accepts a = true :=
  accepts_iff.mpr (Or.inl (sameType_equivalence.refl a))

/-- What is accepted by an accepted type is accepted. -/
theorem accepts_trans (h : a.accepts b = true) (h' : b.accepts c = true) :
    a.accepts c = true := by
  rcases accepts_iff.mp h with hab | ⟨ha, hba⟩
  · rwa [accepts_congr hab (sameType_equivalence.refl c)]
  · rcases accepts_iff.mp h' with hbc | ⟨-, hcb⟩
    · rwa [← accepts_congr (sameType_equivalence.refl a) hbc]
    · exact accepts_iff.mpr (Or.inr ⟨ha, Nat.lt_trans hcb hba⟩)

/-- Two types that accept each other are the same. -/
theorem sameType_of_accepts (h : a.accepts b = true) (h' : b.accepts a = true) :
    a.sameType b = true := by
  rcases accepts_iff.mp h with hab | ⟨-, hba⟩
  · exact hab
  · rcases accepts_iff.mp h' with hba' | ⟨-, hab⟩
    · exact sameType_equivalence.symm hba'
    · exact absurd hba (Nat.lt_asymm hab)

/-- A number type accepts whatever is no wider. -/
theorem accepts_iff_width_le (ha : a ∈ numbers) : a.accepts b = true ↔ b.width ≤ a.width := by
  rw [accepts_iff, and_iff_right ha, Nat.le_iff_lt_or_eq, or_comm]
  refine or_congr_right ⟨fun h => (width_eq_of_sameType h).symm, fun h => ?_⟩
  rw [eq_of_width_eq ha h.symm]
  exact sameType_equivalence.refl b

/-- Of two number types, one accepts the other. -/
theorem accepts_total (ha : a ∈ numbers) (hb : b ∈ numbers) :
    a.accepts b = true ∨ b.accepts a = true := by
  rw [accepts_iff_width_le ha, accepts_iff_width_le hb]
  exact Nat.le_total _ _

/-- Different types that can be compared are number types. -/
theorem mem_numbers_of_accepts (hne : a.sameType b = false) (h : a.accepts b = true) :
    a ∈ numbers ∧ b ∈ numbers := by
  rcases accepts_iff.mp h with hab | ⟨ha, hba⟩
  · rw [hne] at hab
    cases hab
  · exact ⟨ha, mem_numbers_of_width_lt ha hba⟩

/-- Of two different number types, exactly one accepts the other. -/
theorem accepts_eq_not (hne : a.sameType b = false) (ha : a ∈ numbers) (hb : b ∈ numbers) :
    a.accepts b = !b.accepts a := by
  have hwidth : a.width ≠ b.width := by
    intro h
    rw [eq_of_width_eq ha h, sameType_equivalence.refl b] at hne
    cases hne
  rw [Bool.eq_iff_iff, Bool.not_eq_true', ← Bool.not_eq_true, accepts_iff_width_le ha,
    accepts_iff_width_le hb]
  omega

/-- The order of operands makes no difference to their type, up to flags, where one accepts the
other. -/
theorem sameType_ofOperands_swap (h : a.accepts b = true ∨ b.accepts a = true) :
    (ofOperands a b).sameType (ofOperands b a) = true := by
  rw [ofOperands_of_accepts h, ofOperands_of_accepts h.symm]
  by_cases hab : a.accepts b = true
  · by_cases hba : b.accepts a = true
    · rw [if_pos hab, if_pos hba]
      exact sameType_of_accepts hab hba
    · rw [if_pos hab, if_neg hba]
      exact sameType_equivalence.refl a
  · rw [if_neg hab, if_pos (h.resolve_left hab)]
    exact sameType_equivalence.refl b

/-- Of two number types, the wider one is the type of an operation on them. -/
theorem ofOperands_of_numbers (ha : a ∈ numbers) (hb : b ∈ numbers) :
    ofOperands a b = if b.width ≤ a.width then a else b := by
  rw [ofOperands_of_accepts (accepts_total ha hb)]
  simp only [accepts_iff_width_le ha]

/-- Types are the same exactly when they are equal without their flags, and accepting is a partial
order of types up to that: reflexive, transitive, antisymmetric, and blind to flags on either
side. Two types that are not the same are comparable, in exactly one direction, if both are number
types, and otherwise not at all. -/
theorem accepts_isPartialOrder :
    (∀ a b : SourceType, a.sameType b = true ↔ a.withoutFlags = b.withoutFlags) ∧
    (Equivalence fun a b : SourceType => a.sameType b = true) ∧
    (∀ a : SourceType, a.accepts a = true) ∧
    (∀ a b c : SourceType, a.accepts b = true → b.accepts c = true → a.accepts c = true) ∧
    (∀ a b : SourceType, a.accepts b = true → b.accepts a = true → a.sameType b = true) ∧
    (∀ a a' b b' : SourceType, a.sameType a' = true → b.sameType b' = true →
      a.accepts b = a'.accepts b') ∧
    ∀ a b : SourceType, a.sameType b = false →
      (a ∈ numbers ∧ b ∈ numbers → a.accepts b = !b.accepts a) ∧
      (¬ (a ∈ numbers ∧ b ∈ numbers) → a.accepts b = false ∧ b.accepts a = false) := by
  refine ⟨sameType_iff, sameType_equivalence, accepts_refl, fun _ _ _ => accepts_trans,
    fun _ _ => sameType_of_accepts, fun _ _ _ _ => accepts_congr, fun a b hne => ?_⟩
  refine ⟨fun ⟨ha, hb⟩ => accepts_eq_not hne ha hb, fun hnot => ?_⟩
  have hne' : b.sameType a = false := by
    rw [Bool.eq_false_iff] at hne ⊢
    exact fun h => hne (sameType_equivalence.symm h)
  constructor
  · exact Bool.eq_false_iff.mpr fun h => hnot (mem_numbers_of_accepts hne h)
  · exact Bool.eq_false_iff.mpr fun h => hnot (mem_numbers_of_accepts hne' h).symm

/-- A double accepts a long integer through a float. Arrays of longs are the same whatever their
flags are, and no number accepts one. -/
theorem accepts_throughFloat :
    double.accepts .float = true ∧ float.accepts .long = true ∧ double.accepts .long = true ∧
    (array .long true).sameType (.array .long false) = true ∧
    double.accepts (.array .long true) = false := by
  obtain ⟨-, -, -, htrans, -, -, hcompare⟩ := accepts_isPartialOrder
  refine ⟨rfl, rfl, htrans .double .float .long rfl rfl, rfl, ?_⟩
  exact ((hcompare .double (.array .long true) rfl).2 (by decide)).1

end SourceType

end ScoringMarkup
