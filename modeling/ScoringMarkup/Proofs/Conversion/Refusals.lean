import ScoringMarkup.Proofs.Conversion.Inspection
import ScoringMarkup.Proofs.SourceType.Names
import ScoringMarkup.Proofs.SourceType.Widening

/-!
# Types named in refusals

A tree that is refused for two types that do not go together is refused with their names. They are
what the first node that fails its own check declares for its operands or branches, and this node
fails because they are not the same. So the two names differ, unless the name of a struct field
holds a separator.
-/

namespace ScoringMarkup

namespace Expression

/-- The refusals that a node can fail its own check with. Two types are named only where they do not
go together. -/
inductive Refuses : Expression → Refusal → Prop
  | type (n : Expression) (type : SourceType) : Refuses n (.type type.name)
  | node (n : Expression) : Refuses n (.node n.nodeName n.summary)
  | operands {op : BinaryOperator} {left right : Expression} (hop : op.isWidening = true)
    (hleft : left.declaredType.accepts right.declaredType = false)
    (hright : right.declaredType.accepts left.declaredType = false) :
    Refuses (.binary op left right)
      (.operands (binary op left right).nodeName (binary op left right).summary
        left.declaredType.name right.declaredType.name)
  | branches {predicate whenTrue whenFalse : Expression}
    (hdiffer : whenTrue.declaredType.sameType whenFalse.declaredType = false) :
    Refuses (.conditional predicate whenTrue whenFalse)
      (.branches "If" (conditional predicate whenTrue whenFalse).summary
        whenTrue.declaredType.name whenFalse.declaredType.name)

/-- The refusal of a type names that type. -/
theorem refuses_of_check {n : Expression} {type : SourceType} {refusal : Refusal}
    (h : type.check = .error (.unsupported refusal)) : n.Refuses refusal := by
  cases SourceType.check_eq_error h
  exact .type n type

/-- Whatever a node is refused for is a ground of refusal: its type, its operands, its branches or
itself. -/
theorem refuses_of_ownCheck {n : Expression} {refusal : Refusal}
    (h : n.ownCheck = .error (.unsupported refusal)) : n.Refuses refusal := by
  cases n with
  | «alias» | membership | negation | nullCheck => cases h
  | «cast» | minus | call =>
    cases h
    exact .node _
  | field name type => exact refuses_of_check h
  | literal value type => exact refuses_of_check h
  | binary op left right =>
    cases op
    case add | subtract | multiply | divide =>
      simp only [ownCheck] at h
      split_ifs at h with hleft hright
      · exact refuses_of_check h
      · exact refuses_of_check h
      · cases h
        exact .operands rfl (Bool.eq_false_iff.mpr hleft) (Bool.eq_false_iff.mpr hright)
    case and | or | equalTo | greaterThan | greaterThanOrEqual | lessThan | lessThanOrEqual =>
      cases h
    all_goals
      cases h
      exact .node _
  | conditional predicate whenTrue whenFalse =>
    simp only [ownCheck] at h
    split_ifs at h with hsame
    · exact refuses_of_check h
    · cases h
      exact .branches (Bool.eq_false_iff.mpr hsame)

/-- Whether a node is the first of a tree, in pre-order, to fail its own check, and with a certain
refusal. -/
def IsRefusedAt (e n : Expression) (refusal : Refusal) : Prop :=
  ∃ before after, e.preorder = before ++ n :: after ∧ (∀ b ∈ before, b.ownCheck = .ok ()) ∧
    n.ownCheck = .error (.unsupported refusal)

namespace IsRefusedAt

variable {e n : Expression} {refusal : Refusal}

/-- The node that a tree is refused at gives the ground. -/
theorem refuses (h : e.IsRefusedAt n refusal) : n.Refuses refusal := by
  obtain ⟨-, -, -, -, hcheck⟩ := h
  exact refuses_of_ownCheck hcheck

/-- The node that a tree is refused at is one of the tree. -/
theorem mem_preorder (h : e.IsRefusedAt n refusal) : n ∈ e.preorder := by
  obtain ⟨before, after, hpreorder, -, -⟩ := h
  rw [hpreorder]
  exact List.mem_append_right _ List.mem_cons_self

end IsRefusedAt

end Expression

namespace Conversion

/-- A tree that is refused is refused at one of its nodes. -/
theorem exists_isRefusedAt {configuration : Configuration} {e : Expression} {refusal : Refusal}
    (h : (convert configuration e).outcome = .error (.unsupported refusal)) :
    ∃ n, e.IsRefusedAt n refusal := by
  rcases convert_cases configuration e with ⟨limit, -, -, hconvert⟩ | ⟨-, hconvert⟩
  · rw [hconvert] at h
    cases h
  rcases convertTree_cases e with
    ⟨-, htree⟩ | ⟨before, n, after, refusal', hpreorder, hbefore, hn, htree⟩
  · rw [hconvert, htree] at h
    cases h
  · rw [hconvert, htree] at h
    cases h
    exact ⟨n, before, after, hpreorder, hbefore, hn⟩

/-- Types that are the same have one name, and types of one name are the same where no field name
holds a separator. So a tree that is refused for branches of different types, or for operands
that do not go together, is refused with the names of the types that the refused node declares for
them, and these names differ where no field name in the types holds a separator. -/
theorem names_identify_types :
    (∀ a b : SourceType, a.sameType b = true → a.name = b.name) ∧
    (∀ a b : SourceType, a.HasPlainLabels → b.HasPlainLabels → a.name = b.name →
      a.sameType b = true) ∧
    ∀ (configuration : Configuration) (e : Expression) (kind summary left right : String),
      ((convert configuration e).outcome =
          .error (.unsupported (.branches kind summary left right)) →
        ∃ predicate whenTrue whenFalse,
          e.IsRefusedAt (.conditional predicate whenTrue whenFalse)
            (.branches kind summary left right) ∧
          left = whenTrue.declaredType.name ∧ right = whenFalse.declaredType.name ∧
          (whenTrue.declaredType.HasPlainLabels → whenFalse.declaredType.HasPlainLabels →
            left ≠ right)) ∧
      ((convert configuration e).outcome =
          .error (.unsupported (.operands kind summary left right)) →
        ∃ op l r, op.isWidening = true ∧
          e.IsRefusedAt (.binary op l r) (.operands kind summary left right) ∧
          left = l.declaredType.name ∧ right = r.declaredType.name ∧
          (l.declaredType.HasPlainLabels → r.declaredType.HasPlainLabels → left ≠ right)) := by
  refine ⟨fun _ _ => SourceType.name_eq_of_sameType, fun _ _ => SourceType.sameType_of_name_eq,
    fun configuration e kind summary left right => ⟨fun h => ?_, fun h => ?_⟩⟩
  · obtain ⟨n, hrefused⟩ := exists_isRefusedAt h
    cases hrefused.refuses with
    | branches hdiffer =>
      refine ⟨_, _, _, hrefused, rfl, rfl, fun htrue hfalse hnames => ?_⟩
      rw [SourceType.sameType_of_name_eq htrue hfalse hnames] at hdiffer
      cases hdiffer
  · obtain ⟨n, hrefused⟩ := exists_isRefusedAt h
    cases hrefused.refuses with
    | operands hop hleft hright =>
      refine ⟨_, _, _, hop, hrefused, rfl, rfl, fun hl hr hnames => ?_⟩
      have hsame := SourceType.sameType_of_name_eq hl hr hnames
      rw [SourceType.accepts_iff.mpr (Or.inl hsame)] at hleft
      cases hleft

/-- A choice between structs of two decimal types, whose digits only the comma sets apart. -/
def decimalChoice : Expression :=
  .conditional (.field "p" .boolean) (.field "x" (.struct [⟨"", .decimal 1 12, true⟩]))
    (.literal .null (.struct [⟨"", .decimal 11 2, true⟩]))

/-- A sum of a struct without fields and a struct whose field has no name. -/
def structSum : Expression :=
  .binary .add (.field "x" (.struct [])) (.literal .null (.struct [⟨"", .void, true⟩]))

/-- The choice and the sum are refused with two names each. Two arrays with other flags have one
name, and are the same for that. -/
theorem names_in_refusals :
    (convert .unbounded decimalChoice).outcome =
        .error (.unsupported (.branches "If" decimalChoice.summary "struct<:decimal(1,12)>"
          "struct<:decimal(11,2)>")) ∧
      "struct<:decimal(1,12)>" ≠ "struct<:decimal(11,2)>" ∧
      (convert .unbounded structSum).outcome =
        .error (.unsupported (.operands "Add" structSum.summary "struct<>" "struct<:void>")) ∧
      "struct<>" ≠ "struct<:void>" ∧
      (SourceType.array .date true).name = (SourceType.array .date false).name ∧
      (SourceType.array .date true).sameType (.array .date false) = true := by
  obtain ⟨hname, hsame, hrefusals⟩ := names_identify_types
  have hchoice : (convert .unbounded decimalChoice).outcome =
      .error (.unsupported (.branches "If" decimalChoice.summary "struct<:decimal(1,12)>"
        "struct<:decimal(11,2)>")) := outcome_convertTree _
  have hsum : (convert .unbounded structSum).outcome =
      .error (.unsupported (.operands "Add" structSum.summary "struct<>" "struct<:void>")) :=
    outcome_convertTree _
  have harrays := hname (.array .date true) (.array .date false) rfl
  refine ⟨hchoice, ?_, hsum, ?_, harrays, hsame _ _ (by decide) (by decide) harrays⟩
  · obtain ⟨predicate, whenTrue, whenFalse, hrefused, -, -, hnames⟩ :=
      (hrefusals _ _ _ _ _ _).1 hchoice
    have hmem := hrefused.mem_preorder
    simp only [Expression.preorder_eq, decimalChoice, Expression.children, List.flatMap_cons,
      List.flatMap_nil, List.append_nil, List.cons_append, List.nil_append, List.mem_cons,
      List.not_mem_nil, Expression.conditional.injEq, reduceCtorEq, or_false] at hmem
    obtain ⟨-, rfl, rfl⟩ := hmem
    exact hnames (by decide) (by decide)
  · obtain ⟨op, l, r, -, hrefused, -, -, hnames⟩ := (hrefusals _ _ _ _ _ _).2 hsum
    have hmem := hrefused.mem_preorder
    simp only [Expression.preorder_eq, structSum, Expression.children, List.flatMap_cons,
      List.flatMap_nil, List.append_nil, List.cons_append, List.nil_append, List.mem_cons,
      List.not_mem_nil, Expression.binary.injEq, reduceCtorEq, or_false] at hmem
    obtain ⟨-, rfl, rfl⟩ := hmem
    exact hnames (by decide) (by decide)

end Conversion

end ScoringMarkup
