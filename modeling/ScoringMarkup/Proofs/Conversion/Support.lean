import ScoringMarkup.Conversion.Mapping
import ScoringMarkup.Proofs.Expression.Walks

/-!
# Supported nodes and their counterparts

What conversion asks of a single node, said without conversion: which nodes are supported, with
what error any other is refused, and which markup stands for a tree of supported nodes. A check
looks at the node and at the declared types of its operands, never at the operands' own checks.
-/

namespace ScoringMarkup

namespace SourceType

/-- Whether a type has a counterpart in the markup language. -/
def IsMapped (type : SourceType) : Prop := ∃ scalar, ScalarType.ofSource type = .ok scalar

/-- The markup type of a source type. One without a counterpart, which no converted tree
declares, counts as a string. -/
def scalar (type : SourceType) : ScalarType := (ScalarType.ofSource type).toOption.getD .string

/-- The error of a type without a counterpart. -/
def check (type : SourceType) : Except ConversionError Unit :=
  (ScalarType.ofSource type).map fun _ => ()

/-- The markup type of a mapped type is the one that it is mapped to. -/
theorem scalar_of_ofSource {type : SourceType} {scalar : ScalarType}
    (h : ScalarType.ofSource type = .ok scalar) : scalar = type.scalar := by
  rw [SourceType.scalar, h]
  rfl

/-- A mapped type is mapped to its markup type. -/
theorem IsMapped.ofSource_eq {type : SourceType} (h : type.IsMapped) :
    ScalarType.ofSource type = .ok type.scalar := by
  obtain ⟨scalar, hs⟩ := h
  rw [hs, scalar_of_ofSource hs]

/-- A type passes its check exactly when it is mapped. -/
theorem check_eq_ok_iff {type : SourceType} : type.check = .ok () ↔ type.IsMapped := by
  unfold check IsMapped
  cases ScalarType.ofSource type with
  | error error => simp [Except.map]
  | ok scalar => simp [Except.map]

/-- A type that fails its check is refused by its name. -/
theorem check_eq_error {type : SourceType} {error : ConversionError}
    (h : type.check = .error error) : error = .unsupported (.type type.name) := by
  unfold check at h
  cases hs : ScalarType.ofSource type with
  | error error' =>
    rw [hs] at h
    cases h
    exact ScalarType.ofSource_eq_error hs
  | ok scalar =>
    rw [hs] at h
    cases h

/-- A type that fails its check is unsupported. -/
theorem isUnsupported_of_check {type : SourceType} {error : ConversionError}
    (h : type.check = .error error) : error.isUnsupported = true := by
  rw [check_eq_error h]
  rfl

/-- Booleans are mapped. -/
theorem isMapped_boolean : IsMapped .boolean := ⟨.boolean, rfl⟩

/-- Arrays and structs apart, two types are the same only if they are equal; of those two kinds
none has a counterpart. -/
theorem eq_of_sameType {a b : SourceType} (ha : a.IsMapped) (h : a.sameType b = true) :
    a = b := by
  obtain ⟨scalar, hs⟩ := ha
  cases a <;> cases hs <;> exact of_decide_eq_true h

end SourceType

namespace BinaryOperator

/-- The function that stands for an operator: the tables of the markup language for connectives,
arithmetic and comparisons. Any other operator, which no converted tree has, keeps its symbol. -/
def functionName : BinaryOperator → String
  | .and => "and"
  | .or => "or"
  | .add => "+"
  | .subtract => "-"
  | .multiply => "*"
  | .divide => "/"
  | .equalTo => "equal"
  | .greaterThan => "greaterThan"
  | .greaterThanOrEqual => "greaterOrEqual"
  | .lessThan => "lessThan"
  | .lessThanOrEqual => "lessOrEqual"
  | op => op.symbol

end BinaryOperator

/-- What a mapping says of the target: the markup and its type. -/
def Mapping.result (m : Mapping) : Element × ScalarType := (m.target, m.type)

namespace Expression

/-- Whether a node passes its own check. Arithmetic needs an operand that accepts the other, the
left one being tried first, and a counterpart of its type; a conditional needs branches of the
same type, and a counterpart of that. -/
def IsSupported : Expression → Prop
  | .alias .. | .membership .. | .negation _ | .nullCheck .. => True
  | .field _ type | .literal _ type => type.IsMapped
  | .binary op left right =>
    let l := left.declaredType
    let r := right.declaredType
    match op with
    | .and | .or => True
    | .equalTo | .greaterThan | .greaterThanOrEqual | .lessThan | .lessThanOrEqual => True
    | .add | .subtract | .multiply | .divide =>
      (l.accepts r = true ∨ r.accepts l = true) ∧ (if l.accepts r then l else r).IsMapped
    | .remainder | .equalNullSafe | .bitwiseAnd | .bitwiseOr | .bitwiseXor => False
  | .conditional _ whenTrue whenFalse =>
    whenTrue.declaredType.sameType whenFalse.declaredType = true ∧ whenTrue.declaredType.IsMapped
  | .cast .. | .minus _ | .call .. => False

/-- The outcome of a node's own check: the error names the node, shows its summary and gives the
types of the operands where these are at fault. -/
def ownCheck : Expression → Except ConversionError Unit
  | .alias .. | .membership .. | .negation _ | .nullCheck .. => .ok ()
  | .field _ type | .literal _ type => type.check
  | .binary op left right =>
    let e : Expression := .binary op left right
    let l := left.declaredType
    let r := right.declaredType
    match op with
    | .and | .or => .ok ()
    | .equalTo | .greaterThan | .greaterThanOrEqual | .lessThan | .lessThanOrEqual => .ok ()
    | .add | .subtract | .multiply | .divide =>
      if l.accepts r then l.check
      else if r.accepts l then r.check
      else .error (.unsupported (.operands e.nodeName e.summary l.name r.name))
    | .remainder | .equalNullSafe | .bitwiseAnd | .bitwiseOr | .bitwiseXor =>
      .error (.unsupported (.node e.nodeName e.summary))
  | .conditional predicate whenTrue whenFalse =>
    let e : Expression := .conditional predicate whenTrue whenFalse
    let t := whenTrue.declaredType
    let f := whenFalse.declaredType
    if t.sameType f then t.check
    else .error (.unsupported (.branches e.nodeName e.summary t.name f.name))
  | .cast child type =>
    .error (.unsupported (.node "Cast" (Expression.cast child type).summary))
  | .minus child => .error (.unsupported (.node "UnaryMinus" (Expression.minus child).summary))
  | .call name arguments type =>
    .error (.unsupported (.node "ScalarFunction" (Expression.call name arguments type).summary))

/-- A node passes its own check exactly when it is supported. -/
theorem ownCheck_eq_ok_iff (e : Expression) : e.ownCheck = .ok () ↔ e.IsSupported := by
  cases e with
  | field name type => exact SourceType.check_eq_ok_iff
  | literal value type => exact SourceType.check_eq_ok_iff
  | binary op left right =>
    cases op
    case add | subtract | multiply | divide =>
      simp only [ownCheck, IsSupported]
      by_cases hleft : left.declaredType.accepts right.declaredType
      · simp [hleft, SourceType.check_eq_ok_iff]
      by_cases hright : right.declaredType.accepts left.declaredType
      · simp [hleft, hright, SourceType.check_eq_ok_iff]
      · simp [hleft, hright]
    all_goals simp [ownCheck, IsSupported]
  | conditional predicate whenTrue whenFalse =>
    simp only [ownCheck, IsSupported]
    by_cases hsame : whenTrue.declaredType.sameType whenFalse.declaredType
    · simp [hsame, SourceType.check_eq_ok_iff]
    · simp [hsame]
  | _ => simp [ownCheck, IsSupported]

section Widening

variable {op : BinaryOperator} {left right : Expression}

/-- A supported operation has an operand that accepts the other, and declares a type that has a
counterpart. -/
theorem isSupported_widening_iff (hop : op.isWidening = true) :
    (binary op left right).IsSupported ↔
      (left.declaredType.accepts right.declaredType = true ∨
        right.declaredType.accepts left.declaredType = true) ∧
      (SourceType.ofOperands left.declaredType right.declaredType).IsMapped := by
  cases op <;> cases hop
  all_goals
    refine and_congr_right fun h => ?_
    rw [SourceType.ofOperands_of_accepts h]

/-- Where one operand accepts the other, the operation is refused only for the type that it
declares. -/
theorem ownCheck_widening (hop : op.isWidening = true)
    (h : left.declaredType.accepts right.declaredType = true ∨
      right.declaredType.accepts left.declaredType = true) :
    (binary op left right).ownCheck =
      (SourceType.ofOperands left.declaredType right.declaredType).check := by
  rw [SourceType.ofOperands_of_accepts h]
  cases op <;> cases hop
  all_goals
    simp only [ownCheck]
    by_cases hleft : left.declaredType.accepts right.declaredType = true
    · rw [if_pos hleft, if_pos hleft]
    · rw [if_neg hleft, if_pos (h.resolve_left hleft), if_neg hleft]

end Widening

/-- A node that fails its own check is refused; no check is a matter of depth. -/
theorem isUnsupported_of_ownCheck {e : Expression} {error : ConversionError}
    (h : e.ownCheck = .error error) : error.isUnsupported = true := by
  cases e with
  | «alias» | membership | negation | nullCheck => cases h
  | «cast» | minus | call => cases h; rfl
  | field name type => exact SourceType.isUnsupported_of_check h
  | literal value type => exact SourceType.isUnsupported_of_check h
  | binary op left right =>
    cases op
    case add | subtract | multiply | divide =>
      simp only [ownCheck] at h
      split at h
      · exact SourceType.isUnsupported_of_check h
      · split at h
        · exact SourceType.isUnsupported_of_check h
        · cases h; rfl
    case and | or | equalTo | greaterThan | greaterThanOrEqual | lessThan | lessThanOrEqual =>
      cases h
    all_goals cases h; rfl
  | conditional predicate whenTrue whenFalse =>
    simp only [ownCheck] at h
    split at h
    · exact SourceType.isUnsupported_of_check h
    · cases h; rfl

mutual

/-- The markup of a tree of supported nodes. Aliases vanish, and each other inner node becomes a
function applied to the markup of its children in order. An unsupported shape, which no converted
tree has, is applied under its own name. -/
def counterpart : Expression → Element
  | .alias child _ => counterpart child
  | .field name _ => .fieldRef name
  | .binary op left right => .apply op.functionName [counterpart left, counterpart right]
  | .conditional predicate whenTrue whenFalse =>
    .apply "if" [counterpart predicate, counterpart whenTrue, counterpart whenFalse]
  | .membership value list => .apply "isIn" (counterpart value :: counterparts list)
  | .literal value type => .constant value type.scalar
  | .negation child => .apply "not" [counterpart child]
  | .nullCheck .isNull child => .apply "isMissing" [counterpart child]
  | .nullCheck .isNotNull child => .apply "isNotMissing" [counterpart child]
  | .cast child _ => .apply "cast" [counterpart child]
  | .minus child => .apply "-" [counterpart child]
  | .call name arguments _ => .apply name (counterparts arguments)

/-- The markup of each tree of a list. -/
def counterparts : List Expression → List Element
  | [] => []
  | e :: es => counterpart e :: counterparts es

end

/-- The trees of a list have their markup one by one. -/
theorem counterparts_eq_map (es : List Expression) : counterparts es = es.map counterpart := by
  induction es with
  | nil => rfl
  | cons e es ih => rw [counterparts, ih, List.map_cons]

/-- A tree without the aliases around it. -/
def unaliased : Expression → Expression
  | .alias child _ => unaliased child
  | e => e

/-- What conversion makes of a tree of supported nodes. -/
def mapping (e : Expression) : Mapping := ⟨e.unaliased, e.counterpart, e.declaredType.scalar⟩

/-- The type that a supported node declares has a counterpart; for an alias this is left to the
node inside. -/
theorem isMapped_of_isSupported {e : Expression} (h : e.IsSupported)
    (hchild : ∀ child name, e = .alias child name → child.declaredType.IsMapped) :
    e.declaredType.IsMapped := by
  cases e with
  | «alias» child name => exact hchild child name rfl
  | field name type => exact h
  | literal value type => exact h
  | binary op left right =>
    cases op
    case add | subtract | multiply | divide => exact ((isSupported_widening_iff rfl).mp h).2
    case remainder | equalNullSafe | bitwiseAnd | bitwiseOr | bitwiseXor => exact h.elim
    all_goals exact SourceType.isMapped_boolean
  | conditional predicate whenTrue whenFalse => exact h.2
  | membership | negation | nullCheck => exact SourceType.isMapped_boolean
  | «cast» | minus | call => exact h.elim

/-- A tree of supported nodes declares a type with a counterpart. -/
theorem isMapped_declaredType {e : Expression} (h : ∀ n ∈ e.preorder, n.IsSupported) :
    e.declaredType.IsMapped := by
  induction e using induct_children with
  | step e ih =>
    refine isMapped_of_isSupported (h e e.self_mem_preorder) ?_
    rintro child name rfl
    have hc : child ∈ (Expression.alias child name).children := List.mem_singleton.mpr rfl
    exact ih child hc fun n hn => h n (mem_preorder_of_mem_children hc hn)

end Expression

end ScoringMarkup
