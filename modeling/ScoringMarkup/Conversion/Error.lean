import ScoringMarkup.Markup.Element
import ScoringMarkup.SourceType

/-!
# Conversion errors and type mapping

A conversion fails because some node is refused for want of a counterpart in the markup language,
or because the tree is deeper than the configured limit. Of the source types, strings, integers
of every width, doubles and booleans have a counterpart.
-/

namespace ScoringMarkup

/-- Why a node is refused. The node is given by its name and its summary, a type by its name, so
that two refusals are equal when they read alike. -/
inductive Refusal
  /-- A type without a counterpart. -/
  | type (name : String)
  /-- A shape or an operator without a counterpart. -/
  | node (kind summary : String)
  /-- Operands neither of which accepts the other. -/
  | operands (kind summary left right : String)
  /-- Branches of different types. -/
  | branches (kind summary whenTrue whenFalse : String)
  deriving DecidableEq

namespace Refusal

/-- What is refused: a type, or a node by its name. -/
def kind : Refusal → String
  | .type _ => "DataType"
  | .node kind _ | .operands kind .. | .branches kind .. => kind

/-- The summary of the node, and what is wrong with the types in it. -/
def description : Refusal → String
  | .type name => "Expected string, integral, double or boolean type, got " ++ name ++ " type"
  | .node _ summary => summary
  | .operands _ summary left right =>
    summary ++ " (operand types " ++ left ++ " and " ++ right ++ " are incompatible)"
  | .branches _ summary whenTrue whenFalse =>
    summary ++ " (branch types " ++ whenTrue ++ " and " ++ whenFalse ++ " differ)"

end Refusal

/-- Why a conversion fails. -/
inductive ConversionError
  /-- A node or a type without a counterpart. -/
  | unsupported (refusal : Refusal)
  /-- A tree with more levels than allowed. -/
  | tooDeep (limit : Nat)
  deriving DecidableEq

namespace ConversionError

/-- Whether a conversion failed for something that is not supported. -/
def isUnsupported : ConversionError → Bool
  | .unsupported _ => true
  | .tooDeep _ => false

/-- The text of an error. -/
def message : ConversionError → String
  | .unsupported refusal =>
    "Unsupported expression " ++ refusal.kind ++ ": " ++ refusal.description
  | .tooDeep limit => "Expression nesting exceeds maximum depth of " ++ toString limit

end ConversionError

namespace ScalarType

/-- The markup type of a source type. -/
def ofSource : SourceType → Except ConversionError ScalarType
  | .string => .ok .string
  | .byte | .short | .integer | .long => .ok .integer
  | .double => .ok .double
  | .boolean => .ok .boolean
  | type => .error (.unsupported (.type type.name))

/-- A type without a counterpart is refused by its name. -/
theorem ofSource_eq_error {type : SourceType} {error : ConversionError}
    (h : ofSource type = .error error) : error = .unsupported (.type type.name) := by
  cases type <;> cases h <;> rfl

end ScalarType

end ScoringMarkup
