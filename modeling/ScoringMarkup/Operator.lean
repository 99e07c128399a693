/-!
# Operators of source expressions

The binary operators a pipeline can emit, each with its family, its symbol and the name of its
node, and the two null checks.
-/

namespace ScoringMarkup

/-- The family of a binary operator. -/
inductive OperatorKind
  | logical
  | arithmetic
  | comparison
  | bitwise
  deriving DecidableEq

/-- A binary operator. -/
inductive BinaryOperator
  | and
  | or
  | add
  | subtract
  | multiply
  | divide
  | remainder
  | equalTo
  | equalNullSafe
  | greaterThan
  | greaterThanOrEqual
  | lessThan
  | lessThanOrEqual
  | bitwiseAnd
  | bitwiseOr
  | bitwiseXor
  deriving DecidableEq

namespace BinaryOperator

/-- Every operator, in the order in which documents list their names. -/
def all : List BinaryOperator :=
  [.and, .or, .add, .subtract, .multiply, .divide, .remainder, .equalTo, .equalNullSafe,
    .greaterThan, .greaterThanOrEqual, .lessThan, .lessThanOrEqual, .bitwiseAnd, .bitwiseOr,
    .bitwiseXor]

/-- The group that an operator belongs to. -/
def kind : BinaryOperator → OperatorKind
  | .and | .or => .logical
  | .add | .subtract | .multiply | .divide | .remainder => .arithmetic
  | .equalTo | .equalNullSafe | .greaterThan | .greaterThanOrEqual | .lessThan
  | .lessThanOrEqual => .comparison
  | .bitwiseAnd | .bitwiseOr | .bitwiseXor => .bitwise

/-- Whether the operator widens one operand to the type of the other. -/
def isWidening : BinaryOperator → Bool
  | .add | .subtract | .multiply | .divide => true
  | _ => false

/-- The operator as it stands between its operands. -/
def symbol : BinaryOperator → String
  | .and => "AND"
  | .or => "OR"
  | .add => "+"
  | .subtract => "-"
  | .multiply => "*"
  | .divide => "/"
  | .remainder => "%"
  | .equalTo => "="
  | .equalNullSafe => "<=>"
  | .greaterThan => ">"
  | .greaterThanOrEqual => ">="
  | .lessThan => "<"
  | .lessThanOrEqual => "<="
  | .bitwiseAnd => "&"
  | .bitwiseOr => "|"
  | .bitwiseXor => "^"

/-- The name of the operator's node, in documents and diagnostics. -/
def nodeName : BinaryOperator → String
  | .and => "And"
  | .or => "Or"
  | .add => "Add"
  | .subtract => "Subtract"
  | .multiply => "Multiply"
  | .divide => "Divide"
  | .remainder => "Remainder"
  | .equalTo => "EqualTo"
  | .equalNullSafe => "EqualNullSafe"
  | .greaterThan => "GreaterThan"
  | .greaterThanOrEqual => "GreaterThanOrEqual"
  | .lessThan => "LessThan"
  | .lessThanOrEqual => "LessThanOrEqual"
  | .bitwiseAnd => "BitwiseAnd"
  | .bitwiseOr => "BitwiseOr"
  | .bitwiseXor => "BitwiseXor"

/-- The operator with a given node name. -/
def ofNodeName? (name : String) : Option BinaryOperator := all.find? fun op => op.nodeName = name

@[simp] theorem ofNodeName?_nodeName (op : BinaryOperator) : ofNodeName? op.nodeName = some op := by
  cases op <;> rfl

/-- A widening operator is arithmetic; the only other arithmetic operator is the remainder. -/
theorem kind_of_isWidening {op : BinaryOperator} (h : op.isWidening = true) :
    op.kind = .arithmetic := by
  cases op <;> simp_all [isWidening, kind]

end BinaryOperator

/-- A test for null. -/
inductive NullCheck
  | isNull
  | isNotNull
  deriving DecidableEq

namespace NullCheck

def all : List NullCheck := [.isNull, .isNotNull]

/-- The name of the check's node, in documents and diagnostics. -/
def nodeName : NullCheck → String
  | .isNull => "IsNull"
  | .isNotNull => "IsNotNull"

/-- The check as a function of the pipeline. -/
def functionName : NullCheck → String
  | .isNull => "isnull"
  | .isNotNull => "isnotnull"

/-- The check with a given node name. -/
def ofNodeName? (name : String) : Option NullCheck := all.find? fun check => check.nodeName = name

@[simp] theorem ofNodeName?_nodeName (check : NullCheck) :
    ofNodeName? check.nodeName = some check := by
  cases check <;> rfl

end NullCheck

end ScoringMarkup
