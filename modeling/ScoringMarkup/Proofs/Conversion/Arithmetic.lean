import ScoringMarkup.Proofs.Conversion.Inspection
import ScoringMarkup.Proofs.SourceType.Widening

/-!
# Conversion of arithmetic

Each node of `+ - * /` widens one operand to the type of the other. Over number types these single
steps amount to a maximum over the leaves, whatever the order and the grouping of these. A float
has no counterpart, and a wider type above it does not hide it, as it is the leaf itself that is
refused.
-/

namespace ScoringMarkup

namespace SourceType

/-- Of the number types, exactly the float is refused. -/
theorem check_of_mem_numbers {type : SourceType} (h : type ∈ numbers) :
    type.check =
      if type = .float then .error (.unsupported (.type "float")) else .ok () := by
  simp only [numbers, List.mem_cons, List.not_mem_nil, or_false] at h
  rcases h with rfl | rfl | rfl | rfl | rfl | rfl <;> rfl

/-- Of the number types, float alone has no markup type. -/
theorem isMapped_iff_ne_float {type : SourceType} (h : type ∈ numbers) :
    type.IsMapped ↔ type ≠ .float := by
  rw [← check_eq_ok_iff, check_of_mem_numbers h]
  split <;> simp_all

/-- The double apart, a number type with a counterpart is an integer. -/
theorem scalar_of_mem_numbers {type : SourceType} (h : type ∈ numbers) (hne : type ≠ .float) :
    type.scalar = if type = .double then .double else .integer := by
  simp only [numbers, List.mem_cons, List.not_mem_nil, or_false] at h
  rcases h with rfl | rfl | rfl | rfl | rfl | rfl
  case inr.inr.inr.inr.inl => exact absurd rfl hne
  all_goals rfl

end SourceType

namespace Expression

/-- Trees of `+ - * /` and aliases over fields and literals of number types. -/
inductive IsArithmetic : Expression → Prop
  | field (name : String) {type : SourceType} (htype : type ∈ SourceType.numbers) :
    IsArithmetic (.field name type)
  | literal (value : Value) {type : SourceType} (htype : type ∈ SourceType.numbers) :
    IsArithmetic (.literal value type)
  | alias {child : Expression} (hchild : IsArithmetic child) (name : String) :
    IsArithmetic (.alias child name)
  | binary {op : BinaryOperator} (hop : op.isWidening = true) {left right : Expression}
    (hleft : IsArithmetic left) (hright : IsArithmetic right) :
    IsArithmetic (.binary op left right)

/-- The types of the fields and literals of a tree, from left to right. -/
def leafTypes : Expression → List SourceType :=
  fold fun e below =>
    match e with
    | .field _ type | .literal _ type => [type]
    | _ => below.flatten

/-- An alias has the leaves of its child. -/
theorem leafTypes_alias (child : Expression) (name : String) :
    (Expression.alias child name).leafTypes = child.leafTypes :=
  List.append_nil _

/-- An operation has the leaves of its operands, one after the other. -/
theorem leafTypes_binary (op : BinaryOperator) (left right : Expression) :
    (binary op left right).leafTypes = left.leafTypes ++ right.leafTypes :=
  congrArg (left.leafTypes ++ ·) (List.append_nil _)

namespace IsArithmetic

variable {e : Expression}

/-- The leaves of an arithmetic tree have number types, and the tree declares the widest of
these: one of them, and none is wider. -/
theorem declaredType_widest (h : e.IsArithmetic) :
    (∀ type ∈ e.leafTypes, type ∈ SourceType.numbers) ∧ e.declaredType ∈ e.leafTypes ∧
      ∀ type ∈ e.leafTypes, type.width ≤ e.declaredType.width := by
  induction h with
  | field name htype | literal value htype =>
    refine ⟨?_, List.mem_singleton.mpr rfl, ?_⟩
    · intro type hmem
      rwa [List.mem_singleton.mp hmem]
    · intro type hmem
      rw [List.mem_singleton.mp hmem]
      rfl
  | «alias» hchild name ih => rwa [leafTypes_alias]
  | @binary op hop left right hleft hright ihl ihr =>
    obtain ⟨hnumbersl, hmeml, hwidestl⟩ := ihl
    obtain ⟨hnumbersr, hmemr, hwidestr⟩ := ihr
    rw [leafTypes_binary, declaredType_widening hop,
      SourceType.ofOperands_of_numbers (hnumbersl _ hmeml) (hnumbersr _ hmemr)]
    simp only [List.forall_mem_append]
    refine ⟨⟨hnumbersl, hnumbersr⟩, ?_⟩
    split_ifs with hle
    · exact ⟨List.mem_append_left _ hmeml, hwidestl,
        fun type hmem => (hwidestr type hmem).trans hle⟩
    · exact ⟨List.mem_append_right _ hmemr,
        fun type hmem => (hwidestl type hmem).trans (Nat.le_of_not_le hle), hwidestr⟩

/-- An arithmetic tree declares a number type. -/
theorem declaredType_mem_numbers (h : e.IsArithmetic) : e.declaredType ∈ SourceType.numbers := by
  obtain ⟨hnumbers, hmem, -⟩ := h.declaredType_widest
  exact hnumbers _ hmem

/-- Every node of an arithmetic tree is an arithmetic tree. -/
theorem of_mem_preorder (h : e.IsArithmetic) : ∀ n ∈ e.preorder, n.IsArithmetic := by
  induction h with
  | field name htype => exact List.forall_mem_singleton.mpr (.field name htype)
  | literal value htype => exact List.forall_mem_singleton.mpr (.literal value htype)
  | «alias» hchild name ih =>
    rw [forall_mem_preorder_iff]
    exact ⟨hchild.alias name, List.forall_mem_singleton.mpr ih⟩
  | binary hop hleft hright ihl ihr =>
    rw [forall_mem_preorder_iff]
    exact ⟨.binary hop hleft hright,
      List.forall_mem_cons.mpr ⟨ihl, List.forall_mem_singleton.mpr ihr⟩⟩

/-- Where a node of an arithmetic tree is refused, a float is refused. -/
theorem ownCheck_eq_error (h : e.IsArithmetic) {error : ConversionError}
    (herror : e.ownCheck = .error error) : error = .unsupported (.type "float") := by
  have hcheck : ∀ type ∈ SourceType.numbers, type.check = .error error →
      error = .unsupported (.type "float") := by
    intro type htype hfails
    rw [SourceType.check_of_mem_numbers htype] at hfails
    split at hfails
    · exact (Except.error.inj hfails).symm
    · cases hfails
  cases h with
  | field name htype | literal value htype => exact hcheck _ htype herror
  | «alias» hchild name => cases herror
  | binary hop hleft hright =>
    have haccepts := SourceType.accepts_total hleft.declaredType_mem_numbers
      hright.declaredType_mem_numbers
    rw [ownCheck_widening hop haccepts, ← declaredType_widening hop] at herror
    exact hcheck _ (IsArithmetic.binary hop hleft hright).declaredType_mem_numbers herror

/-- An arithmetic tree is supported throughout exactly when none of its leaves is a float. -/
theorem supported_iff (h : e.IsArithmetic) :
    (∀ n ∈ e.preorder, n.IsSupported) ↔ .float ∉ e.leafTypes := by
  induction h with
  | field name htype | literal value htype =>
    refine List.forall_mem_singleton.trans ((SourceType.isMapped_iff_ne_float htype).trans ?_)
    rw [ne_comm]
    exact (not_congr List.mem_singleton).symm
  | «alias» hchild name ih =>
    rw [forall_mem_preorder_iff, leafTypes_alias, ← ih]
    exact (and_iff_right trivial).trans List.forall_mem_singleton
  | @binary op hop left right hleft hright ihl ihr =>
    have haccepts := SourceType.accepts_total hleft.declaredType_mem_numbers
      hright.declaredType_mem_numbers
    have hwhole := IsArithmetic.binary hop hleft hright
    rw [forall_mem_preorder_iff, isSupported_widening_iff hop, and_iff_right haccepts,
      ← declaredType_widening hop,
      SourceType.isMapped_iff_ne_float hwhole.declaredType_mem_numbers]
    simp only [children, List.forall_mem_cons, ihl, ihr]
    have hmem := hwhole.declaredType_widest.2.1
    rw [leafTypes_binary] at hmem ⊢
    constructor
    · rintro ⟨-, hl, hr, -⟩
      simp [hl, hr]
    · intro hnone
      simp only [List.mem_append, not_or] at hnone
      refine ⟨fun heq => ?_, hnone.1, hnone.2, by simp⟩
      rw [heq, List.mem_append] at hmem
      exact hmem.elim hnone.1 hnone.2

end IsArithmetic

end Expression

namespace Conversion

/-- A tree with a float among its leaves is refused, and a float is what is refused. -/
theorem convertTree_of_float_mem {e : Expression} (h : e.IsArithmetic)
    (hfloat : .float ∈ e.leafTypes) :
    (convertTree e).outcome = .error (.unsupported (.type "float")) := by
  rcases convertTree_cases e with ⟨hpass, -⟩ | ⟨before, n, after, refusal, hpreorder, -, hn, htree⟩
  · simp only [Expression.ownCheck_eq_ok_iff] at hpass
    exact absurd hfloat (h.supported_iff.mp hpass)
  · have hmem : n ∈ e.preorder := by simp [hpreorder]
    rw [htree]
    exact congrArg Except.error ((h.of_mem_preorder n hmem).ownCheck_eq_error hn)

/-- A tree without a float is converted, to the type of its widest leaf. -/
theorem convertTree_of_float_not_mem {e : Expression} (h : e.IsArithmetic)
    (hfloat : .float ∉ e.leafTypes) :
    (convertTree e).outcome.map Mapping.type =
      .ok (if .double ∈ e.leafTypes then .double else .integer) := by
  obtain ⟨-, hmem, hwidest⟩ := h.declaredType_widest
  have hnumber := h.declaredType_mem_numbers
  have hdouble : e.declaredType = .double ↔ .double ∈ e.leafTypes :=
    ⟨fun heq => heq ▸ hmem, fun hd => SourceType.eq_double_of_width_le hnumber (hwidest _ hd)⟩
  have hpass : ∀ n ∈ e.preorder, n.ownCheck = .ok () := fun n hn =>
    (Expression.ownCheck_eq_ok_iff n).mpr (h.supported_iff.mpr hfloat n hn)
  have htype : e.mapping.type = if .double ∈ e.leafTypes then .double else .integer := by
    show e.declaredType.scalar = _
    rw [SourceType.scalar_of_mem_numbers hnumber fun heq => hfloat (heq ▸ hmem)]
    simp only [hdouble]
  rw [convertTree_of_passing hpass]
  exact congrArg Except.ok htype

/-- An arithmetic tree declares the widest of its leaf types, whatever the order and the grouping
of the leaves. Without a depth limit it is refused exactly when one of its leaves is a float, and
then always for the type of that; otherwise it is converted, to a double if one of its leaves is a
double and to an integer if none is. -/
theorem convert_arithmetic {e : Expression} (h : e.IsArithmetic) :
    (TypeTable.infer e).root ∈ e.leafTypes ∧
    (∀ type ∈ e.leafTypes, type.width ≤ (TypeTable.infer e).root.width) ∧
    (∀ e' : Expression, e'.IsArithmetic → (∀ type, type ∈ e'.leafTypes ↔ type ∈ e.leafTypes) →
      (TypeTable.infer e').root = (TypeTable.infer e).root) ∧
    (convert .unbounded e).outcome.map Mapping.type =
      if .float ∈ e.leafTypes then .error (.unsupported (.type "float"))
      else .ok (if .double ∈ e.leafTypes then .double else .integer) := by
  obtain ⟨hnumbers, hmem, hwidest⟩ := h.declaredType_widest
  simp only [TypeTable.root_infer]
  refine ⟨hmem, hwidest, fun e' h' hleaves => ?_, ?_⟩
  · obtain ⟨-, hmem', hwidest'⟩ := h'.declaredType_widest
    refine SourceType.eq_of_width_eq h'.declaredType_mem_numbers (Nat.le_antisymm ?_ ?_)
    · exact hwidest _ ((hleaves _).mp hmem')
    · exact hwidest' _ ((hleaves _).mpr hmem)
  · show (convertTree e).outcome.map Mapping.type = _
    by_cases hfloat : .float ∈ e.leafTypes
    · rw [if_pos hfloat, convertTree_of_float_mem h hfloat]
      rfl
    · rw [if_neg hfloat]
      exact convertTree_of_float_not_mem h hfloat

/-- A sum with a float below a product with a double. -/
def hiddenFloat : Expression :=
  .binary .multiply (.field "d" .double)
    (.alias (.binary .add (.literal .null .byte) (.field "f" .float)) "s")

/-- The double makes the product a double, and yet the float is refused. -/
theorem convert_hiddenFloat :
    hiddenFloat.IsArithmetic ∧ (TypeTable.infer hiddenFloat).root = .double ∧
    (convert .unbounded hiddenFloat).outcome.map Mapping.type =
      .error (.unsupported (.type "float")) := by
  have h : hiddenFloat.IsArithmetic :=
    .binary rfl (.field "d" (by decide))
      (.alias (.binary rfl (.literal .null (by decide)) (.field "f" (by decide))) "s")
  obtain ⟨-, hwidest, -, hconvert⟩ := convert_arithmetic h
  refine ⟨h, ?_, hconvert⟩
  rw [TypeTable.root_infer] at hwidest ⊢
  exact SourceType.eq_double_of_width_le h.declaredType_mem_numbers (hwidest .double (by decide))

end Conversion

end ScoringMarkup
