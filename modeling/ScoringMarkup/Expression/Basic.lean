import ScoringMarkup.Operator
import ScoringMarkup.SourceType
import ScoringMarkup.Value

/-!
# Source expressions

The tree that a pipeline hands over: eleven shapes of node, their direct children in the order in
which they are evaluated, and the builders of the common operations.
-/

namespace ScoringMarkup

/-- A source expression. -/
inductive Expression
  /-- A name for a child, transparent to conversion. -/
  | alias (child : Expression) (name : String)
  /-- A reference to an input field. -/
  | field (name : String) (type : SourceType)
  | binary (op : BinaryOperator) (left right : Expression)
  /-- The second child where the first is true, else the third. -/
  | conditional (predicate whenTrue whenFalse : Expression)
  /-- Whether the value is one of a list. -/
  | membership (value : Expression) (list : List Expression)
  | literal (value : Value) (type : SourceType)
  | negation (child : Expression)
  | nullCheck (check : NullCheck) (child : Expression)
  | cast (child : Expression) (type : SourceType)
  /-- Arithmetic negation. -/
  | minus (child : Expression)
  /-- Any other named function. -/
  | call (name : String) (arguments : List Expression) (type : SourceType)

namespace Expression

/-- The null literal of a type. -/
def null (type : SourceType) : Expression := .literal .null type

def isNull (child : Expression) : Expression := .nullCheck .isNull child

def isNotNull (child : Expression) : Expression := .nullCheck .isNotNull child

/-- The name of a node's shape in diagnostics; operators and null checks go by their own. -/
def nodeName : Expression → String
  | .alias .. => "Alias"
  | .field .. => "AttributeReference"
  | .binary op .. => op.nodeName
  | .conditional .. => "If"
  | .membership .. => "In"
  | .literal .. => "Literal"
  | .negation .. => "Not"
  | .nullCheck check _ => check.nodeName
  | .cast .. => "Cast"
  | .minus .. => "UnaryMinus"
  | .call .. => "ScalarFunction"

/-- The direct children, in evaluation order. -/
def children : Expression → List Expression
  | .field .. | .literal .. => []
  | .alias child _ | .negation child | .nullCheck _ child | .cast child _ | .minus child => [child]
  | .binary _ left right => [left, right]
  | .conditional predicate whenTrue whenFalse => [predicate, whenTrue, whenFalse]
  | .membership value list => value :: list
  | .call _ arguments _ => arguments

/-- A child is a smaller tree than its parent. -/
theorem sizeOf_lt_of_mem_children {e c : Expression} (h : c ∈ e.children) :
    sizeOf c < sizeOf e := by
  cases e <;> simp only [children, List.mem_cons, List.not_mem_nil, or_false] at h
  case membership value list =>
    rcases h with rfl | h
    · simp; omega
    · have := List.sizeOf_lt_of_mem h
      simp; omega
  case call name arguments type =>
    have := List.sizeOf_lt_of_mem h
    simp; omega
  case binary => rcases h with rfl | rfl <;> simp +arith
  case conditional => rcases h with rfl | rfl | rfl <;> simp +arith
  case «alias» | nullCheck | cast => subst h; simp +arith
  case negation | minus => subst h; simp

end Expression

end ScoringMarkup
