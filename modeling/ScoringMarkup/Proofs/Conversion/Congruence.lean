import ScoringMarkup.Proofs.Conversion.Inspection
import ScoringMarkup.Proofs.Expression.Contexts

/-!
# Conversion in a context

A node looks at a child in two ways: its check and its own type read the type that the child
declares, and its markup holds the markup of the child. So two trees that agree in both, and of
which one is supported throughout exactly when the other is, can take each other's place under any
node, and hence in any context.
-/

namespace ScoringMarkup

namespace Expression

/-- Two trees that no node around them can tell apart. -/
structure Interchangeable (e e' : Expression) : Prop where
  type : e.declaredType = e'.declaredType
  target : e.counterpart = e'.counterpart
  supported : (∀ n ∈ e.preorder, n.IsSupported) ↔ ∀ n ∈ e'.preorder, n.IsSupported

variable {e e' : Expression}

/-- The type of a node depends on its children only through their types. -/
theorem declaredType_frame (h : e.declaredType = e'.declaredType) (f : Frame) :
    (f.fill e).declaredType = (f.fill e').declaredType := by
  cases f <;> simp only [Frame.fill, declaredType, h]

/-- The check of a node depends on its children only through their types. -/
theorem isSupported_frame (h : e.declaredType = e'.declaredType) (f : Frame) :
    (f.fill e).IsSupported ↔ (f.fill e').IsSupported := by
  cases f <;> simp only [Frame.fill, IsSupported, h]

/-- The markup of a node depends on its children only through their markup. -/
theorem counterpart_frame (h : e.counterpart = e'.counterpart) (f : Frame) :
    (f.fill e).counterpart = (f.fill e').counterpart := by
  cases f with
  | nullCheck check => cases check <;> simp only [Frame.fill, counterpart, h]
  | item | argument => simp [Frame.fill, counterpart, counterparts_eq_map, h]
  | _ => simp only [Frame.fill, counterpart, h]

/-- A filled frame is supported throughout exactly when its own node, the tree in it and the
children beside that tree are. -/
theorem supported_frame_iff (e : Expression) (f : Frame) :
    (∀ n ∈ (f.fill e).preorder, n.IsSupported) ↔
      (f.fill e).IsSupported ∧ (∀ c ∈ f.before, ∀ n ∈ c.preorder, n.IsSupported) ∧
        (∀ n ∈ e.preorder, n.IsSupported) ∧ ∀ c ∈ f.after, ∀ n ∈ c.preorder, n.IsSupported := by
  rw [forall_mem_preorder_iff, f.children_fill]
  simp only [List.forall_mem_append, List.forall_mem_cons]

theorem Interchangeable.frame (h : Interchangeable e e') (f : Frame) :
    Interchangeable (f.fill e) (f.fill e') where
  type := declaredType_frame h.type f
  target := counterpart_frame h.target f
  supported := by
    rw [supported_frame_iff, supported_frame_iff, isSupported_frame h.type, h.supported]

theorem Interchangeable.context (h : Interchangeable e e') (C : Context) :
    Interchangeable (C.fill e) (C.fill e') := by
  induction C with
  | nil => exact h
  | cons f C ih => exact ih.frame f

end Expression

namespace Conversion

open Expression (Context Interchangeable)

/-- Trees that are converted to the same markup and declare the same type are interchangeable. A
type that has a counterpart has no flags, so declaring the same type is declaring an equal one. -/
theorem interchangeable_of_convertTree {e e' : Expression} {m m' : Mapping}
    (h : (convertTree e).outcome = .ok m) (h' : (convertTree e').outcome = .ok m')
    (htarget : m.target = m'.target) (htype : e.declaredType.sameType e'.declaredType = true) :
    Interchangeable e e' := by
  have hsupported := (exists_convertTree_iff e).mp ⟨m, h⟩
  have hsupported' := (exists_convertTree_iff e').mp ⟨m', h'⟩
  obtain ⟨-, rfl⟩ := outcome_convertTree_iff.mp h
  obtain ⟨-, rfl⟩ := outcome_convertTree_iff.mp h'
  exact {
    type := SourceType.eq_of_sameType (Expression.isMapped_declaredType hsupported) htype
    target := htarget
    supported := ⟨fun _ => hsupported', fun _ => hsupported⟩ }

/-- Conversion is a congruence. Two trees that are converted to the same markup and whose declared
types are the same can be exchanged in any context: either context is converted exactly when the
other one is, and then to the same markup of the same type. -/
theorem convert_context {e e' : Expression} {m m' : Mapping}
    (h : (convert .unbounded e).outcome = .ok m) (h' : (convert .unbounded e').outcome = .ok m')
    (htarget : m.target = m'.target)
    (htype : (TypeTable.infer e).root.sameType (TypeTable.infer e').root = true) (C : Context) :
    ((∃ n, (convert .unbounded (C.fill e)).outcome = .ok n) ↔
      ∃ n', (convert .unbounded (C.fill e')).outcome = .ok n') ∧
    ∀ n n', (convert .unbounded (C.fill e)).outcome = .ok n →
      (convert .unbounded (C.fill e')).outcome = .ok n' →
      n.target = n'.target ∧ n.type = n'.type := by
  rw [TypeTable.root_infer, TypeTable.root_infer] at htype
  have hcontext := (interchangeable_of_convertTree h h' htarget htype).context C
  constructor
  · exact (exists_convertTree_iff _).trans
      (hcontext.supported.trans (exists_convertTree_iff _).symm)
  · intro n n' hn hn'
    obtain ⟨-, rfl⟩ := outcome_convertTree_iff.mp hn
    obtain ⟨-, rfl⟩ := outcome_convertTree_iff.mp hn'
    exact ⟨hcontext.target, congrArg SourceType.scalar hcontext.type⟩

/-- A sum whose second operand has a given width. -/
def amount (width : SourceType) : Expression :=
  .binary .add (.field "a" .double) (.field "b" width)

/-- One branch of a choice, in it the second operand of a product. -/
def shareOfChoice : Context :=
  [.trueBranch (.isNull (.field "p" .boolean)) (.literal .null .double), .alias "share",
    .rightOperand .multiply (.field "c" .long)]

/-- The choice over a sum of another width, under an alias, is converted as the choice over the
first sum is. -/
theorem convert_shareOfChoice :
    (convert .unbounded (amount .integer)).outcome = .ok (amount .integer).mapping ∧
    ∃ n, (convert .unbounded (shareOfChoice.fill (.alias (amount .byte) "total"))).outcome = .ok n ∧
      n.target = .apply "if" [.apply "isMissing" [.fieldRef "p"],
        .apply "*" [.fieldRef "c", .apply "+" [.fieldRef "a", .fieldRef "b"]],
        .constant .null .double] ∧
      n.type = .double := by
  have h : (convert .unbounded (amount .integer)).outcome = .ok (amount .integer).mapping :=
    outcome_convertTree _
  have h' : (convert .unbounded (.alias (amount .byte) "total")).outcome =
    .ok (Expression.alias (amount .byte) "total").mapping := outcome_convertTree _
  have htype : (TypeTable.infer (amount .integer)).root.sameType
      (TypeTable.infer (.alias (amount .byte) "total")).root = true := by
    rw [TypeTable.root_infer, TypeTable.root_infer]
    rfl
  obtain ⟨hiff, hsame⟩ := convert_context h h' rfl htype shareOfChoice
  have hfill : (convert .unbounded (shareOfChoice.fill (amount .integer))).outcome =
    .ok (shareOfChoice.fill (amount .integer)).mapping := outcome_convertTree _
  obtain ⟨n, hn⟩ := hiff.mp ⟨_, hfill⟩
  obtain ⟨htarget, htype⟩ := hsame _ n hfill hn
  exact ⟨h, n, hn, htarget.symm, htype.symm⟩

end Conversion

end ScoringMarkup
