import ScoringMarkup.Proofs.Conversion.Inspection
import ScoringMarkup.Proofs.Expression.Relabeling
import ScoringMarkup.Proofs.SourceType.Nullability

/-!
# Conversion without nullability flags

Clearing the nullability flags in all types of a tree changes neither what the tree declares up to
flags, nor how it is shown, nor the check of any node, nor its counterpart. So a run on one tree
and a run on another that differs from it in flags only cannot be told apart, except that a
mapping shows the tree it comes from.
-/

namespace ScoringMarkup

namespace SourceType

/-- Flags make no difference to whether a type is mapped. -/
@[simp] theorem check_withoutFlags (type : SourceType) : type.withoutFlags.check = type.check := by
  rw [check, check, ofSource_withoutFlags]

/-- Flags make no difference to the markup type. -/
@[simp] theorem scalar_withoutFlags (type : SourceType) :
    type.withoutFlags.scalar = type.scalar := by
  rw [scalar, scalar, ofSource_withoutFlags]

end SourceType

namespace Expression

/-- The tree with every nullability flag in its types cleared. -/
def withoutFlags : Expression → Expression := relabel ⟨id, id, SourceType.withoutFlags⟩

/-- The flags of an operation are those of its operands. -/
theorem binary_withoutFlags (op : BinaryOperator) (left right : Expression) :
    (binary op left right).withoutFlags = binary op left.withoutFlags right.withoutFlags := rfl

/-- The flags of a conditional are those of its predicate and its branches. -/
theorem conditional_withoutFlags (predicate whenTrue whenFalse : Expression) :
    (conditional predicate whenTrue whenFalse).withoutFlags =
      conditional predicate.withoutFlags whenTrue.withoutFlags whenFalse.withoutFlags := rfl

/-- A tree without flags declares the type of the tree without flags. -/
theorem declaredType_withoutFlags : ∀ e : Expression,
    e.withoutFlags.declaredType = e.declaredType.withoutFlags
  | .alias child _ => declaredType_withoutFlags child
  | .field .. | .literal .. | .cast .. | .call .. => rfl
  | .membership .. | .negation _ | .nullCheck .. => rfl
  | .conditional _ whenTrue _ => declaredType_withoutFlags whenTrue
  | .minus child => declaredType_withoutFlags child
  | .binary op left right => by
    show op.declaredType left.withoutFlags.declaredType right.withoutFlags.declaredType = _
    rw [declaredType_withoutFlags left, declaredType_withoutFlags right,
      op.declaredType_withoutFlags]
    rfl

/-- A tree is shown without flags: the only types in its text are those of casts. -/
theorem summary_withoutFlags (e : Expression) : e.withoutFlags.summary = e.summary :=
  render_relabel ⟨fun _ => rfl, fun _ => rfl, SourceType.name_withoutFlags⟩ e _

/-- A node is refused under the same name with and without flags. -/
theorem unsupported_withoutFlags (e : Expression) : e.withoutFlags.unsupported = e.unsupported := by
  rw [unsupported, unsupported, summary_withoutFlags, withoutFlags, nodeName_relabel]

/-- A node passes its check, or fails with the same error, whatever the flags are. -/
theorem ownCheck_withoutFlags (e : Expression) : e.withoutFlags.ownCheck = e.ownCheck := by
  cases e with
  | «alias» | membership | negation | nullCheck => rfl
  | field name type => exact type.check_withoutFlags
  | literal value type => exact type.check_withoutFlags
  | «cast» child type =>
    exact congrArg Except.error (unsupported_withoutFlags (.cast child type))
  | minus child => exact congrArg Except.error (unsupported_withoutFlags (.minus child))
  | call name arguments type =>
    exact congrArg Except.error (unsupported_withoutFlags (.call name arguments type))
  | binary op left right =>
    have hsummary := summary_withoutFlags (.binary op left right)
    rw [binary_withoutFlags] at hsummary ⊢
    cases op
    case and | or | equalTo | greaterThan | greaterThanOrEqual | lessThan | lessThanOrEqual => rfl
    case add | subtract | multiply | divide =>
      simp only [ownCheck, declaredType_withoutFlags, SourceType.accepts_withoutFlags,
        SourceType.check_withoutFlags, SourceType.name_withoutFlags, hsummary]
      rfl
    all_goals exact congrArg Except.error (unsupported_withoutFlags (.binary _ left right))
  | conditional predicate whenTrue whenFalse =>
    have hsummary := summary_withoutFlags (.conditional predicate whenTrue whenFalse)
    rw [conditional_withoutFlags] at hsummary ⊢
    simp only [ownCheck, declaredType_withoutFlags, SourceType.sameType_withoutFlags,
      SourceType.check_withoutFlags, SourceType.name_withoutFlags, hsummary]
    rfl

mutual

/-- The counterpart of a tree has no flags. -/
theorem counterpart_withoutFlags : ∀ e : Expression,
    e.withoutFlags.counterpart = e.counterpart
  | .alias child _ => counterpart_withoutFlags child
  | .field .. => rfl
  | .literal value type => congrArg (Element.constant value) type.scalar_withoutFlags
  | .binary op left right => by
    rw [binary_withoutFlags, counterpart, counterpart, counterpart_withoutFlags left,
      counterpart_withoutFlags right]
  | .conditional predicate whenTrue whenFalse => by
    rw [conditional_withoutFlags, counterpart, counterpart, counterpart_withoutFlags predicate,
      counterpart_withoutFlags whenTrue, counterpart_withoutFlags whenFalse]
  | .membership value list => congrArg (Element.apply "isIn")
    (congrArg₂ List.cons (counterpart_withoutFlags value) (counterparts_withoutFlags list))
  | .negation child => congrArg (Element.apply "not" [·]) (counterpart_withoutFlags child)
  | .nullCheck .isNull child =>
    congrArg (Element.apply "isMissing" [·]) (counterpart_withoutFlags child)
  | .nullCheck .isNotNull child =>
    congrArg (Element.apply "isNotMissing" [·]) (counterpart_withoutFlags child)
  | .cast child _ => congrArg (Element.apply "cast" [·]) (counterpart_withoutFlags child)
  | .minus child => congrArg (Element.apply "-" [·]) (counterpart_withoutFlags child)
  | .call name arguments _ => congrArg (Element.apply name) (counterparts_withoutFlags arguments)

/-- The markup of a list of trees does not show flags. -/
theorem counterparts_withoutFlags : ∀ es : List Expression,
    counterparts (relabelList ⟨id, id, SourceType.withoutFlags⟩ es) = counterparts es
  | [] => rfl
  | e :: es => congrArg₂ List.cons (counterpart_withoutFlags e) (counterparts_withoutFlags es)

end

end Expression

namespace Conversion

/-- Without flags, the same names are recorded and the same check fails first. -/
theorem inspect_withoutFlags (e : Expression) :
    inspect e.withoutFlags.preorder = inspect e.preorder := by
  rw [Expression.withoutFlags, Expression.preorder_relabel]
  exact inspect_map (fun n _ => n.nodeName_relabel _) fun n _ => n.ownCheck_withoutFlags

/-- The tree without flags has the same markup and the same type. -/
theorem result_mapping_withoutFlags (e : Expression) :
    e.withoutFlags.mapping.result = e.mapping.result := by
  simp only [Mapping.result, Expression.mapping, Expression.counterpart_withoutFlags,
    Expression.declaredType_withoutFlags, SourceType.scalar_withoutFlags]

/-- A run on a tree without flags goes as the run on the tree. -/
theorem convert_withoutFlags (configuration : Configuration) (e : Expression) :
    (convert configuration e.withoutFlags).records = (convert configuration e).records ∧
    (convert configuration e.withoutFlags).outcome.map Mapping.result =
      (convert configuration e).outcome.map Mapping.result := by
  have htree : (convertTree e.withoutFlags).records = (convertTree e).records ∧
      (convertTree e.withoutFlags).outcome.map Mapping.result =
        (convertTree e).outcome.map Mapping.result := by
    rw [convertTree_eq, convertTree_eq e, inspect_withoutFlags, e.summary_withoutFlags]
    obtain ⟨records, outcome⟩ := (inspect e.preorder).recordFailure (.failed e.summary)
    cases outcome with
    | error error => exact ⟨rfl, rfl⟩
    | ok u => exact ⟨rfl, congrArg Except.ok (result_mapping_withoutFlags e)⟩
  unfold convert
  split
  · exact htree
  · rw [Expression.withoutFlags, e.exceedsDepth_relabel]
    split
    · exact ⟨by rw [← Expression.withoutFlags, e.summary_withoutFlags], rfl⟩
    · exact htree

/-- Nullability flags never matter: for two trees that differ only in them, under every
configuration the same records are made, and either both trees are converted, to the same markup
of the same type, or both fail with the same error. -/
theorem convert_of_withoutFlags_eq {e e' : Expression} (h : e.withoutFlags = e'.withoutFlags)
    (configuration : Configuration) :
    (convert configuration e).records = (convert configuration e').records ∧
    (convert configuration e).outcome.map Mapping.result =
      (convert configuration e').outcome.map Mapping.result := by
  obtain ⟨hrecords, houtcome⟩ := convert_withoutFlags configuration e
  obtain ⟨hrecords', houtcome'⟩ := convert_withoutFlags configuration e'
  rw [h] at hrecords houtcome
  exact ⟨hrecords.symm.trans hrecords', houtcome.symm.trans houtcome'⟩

/-- A choice between arrays of structs; only the flags of the first array can vary. -/
def arrayChoice (containsNull nullable : Bool) : Expression :=
  .conditional (.field "p" .boolean)
    (.field "a" (.array (.struct [⟨"x", .integer, nullable⟩]) containsNull))
    (.alias (.field "b" (.array (.struct [⟨"x", .integer, true⟩]) false)) "c")

/-- Branches whose types agree up to flags are not what is refused, whether or not the flags
agree. -/
theorem convert_arrayChoice :
    (arrayChoice true false).withoutFlags = (arrayChoice false true).withoutFlags ∧
    (convert .standard (arrayChoice true false)).records =
      (convert .standard (arrayChoice false true)).records ∧
    (convert .standard (arrayChoice true false)).outcome.map Mapping.result =
      .error (.unsupported (.type "array<struct<x:int>>")) := by
  have h : (arrayChoice true false).withoutFlags = (arrayChoice false true).withoutFlags := rfl
  obtain ⟨hrecords, houtcome⟩ := convert_of_withoutFlags_eq h .standard
  refine ⟨h, hrecords, houtcome.trans ?_⟩
  have hadmits : Admits .standard (arrayChoice false true) :=
    admits_withMaxDepth (by decide)
  rw [convert_of_admits hadmits, outcome_convertTree]
  rfl

end Conversion

end ScoringMarkup
