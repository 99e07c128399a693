import ScoringMarkup.Expression.Basic

/-!
# Declared types

The type a tree declares for its value: the node's own type where it carries one, boolean for
every test, and otherwise a type taken from the operands.
-/

namespace ScoringMarkup

namespace SourceType

/-- The type of an operation on two operands: the right type when only the right one accepts the
other, else the left type. -/
def ofOperands (left right : SourceType) : SourceType :=
  if !left.accepts right && right.accepts left then right else left

/-- Where one operand accepts the other, the left one is asked first. -/
theorem ofOperands_of_accepts {left right : SourceType}
    (h : left.accepts right = true ∨ right.accepts left = true) :
    ofOperands left right = if left.accepts right then left else right := by
  unfold ofOperands
  by_cases hl : left.accepts right = true
  · simp [hl]
  · simp [hl, h.resolve_left hl]

end SourceType

namespace BinaryOperator

/-- The type an operator declares over the types of its operands. -/
def declaredType (op : BinaryOperator) (left right : SourceType) : SourceType :=
  match op.kind with
  | .logical | .comparison => .boolean
  | .arithmetic | .bitwise => SourceType.ofOperands left right

end BinaryOperator

namespace Expression

/-- The type that a tree declares. -/
def declaredType : Expression → SourceType
  | .alias child _ => declaredType child
  | .field _ type => type
  | .binary op left right => op.declaredType (declaredType left) (declaredType right)
  | .conditional _ whenTrue _ => declaredType whenTrue
  | .membership .. => .boolean
  | .literal _ type => type
  | .negation _ => .boolean
  | .nullCheck .. => .boolean
  | .cast _ type => type
  | .minus child => declaredType child
  | .call _ _ type => type

/-- A widening operation declares the type that is chosen from its operands. -/
theorem declaredType_widening {op : BinaryOperator} (h : op.isWidening = true)
    (left right : Expression) :
    (binary op left right).declaredType =
      SourceType.ofOperands left.declaredType right.declaredType := by
  rw [declaredType, BinaryOperator.declaredType, BinaryOperator.kind_of_isWidening h]

end Expression

end ScoringMarkup
