import ScoringMarkup.Conversion.Configuration
import ScoringMarkup.Conversion.Log
import ScoringMarkup.Expression.Depth
import ScoringMarkup.Expression.Display
import ScoringMarkup.Expression.TypeTable

/-!
# Conversion of source expressions

Aliases vanish, fields and literals become references and constants, and every other supported
node becomes a function applied to its converted children. A node is checked before its
children are entered, children are entered from left to right, and the first failure ends the
conversion. The declared types of operands are looked up in a table that is made once for the whole
tree. The depth limit is tested before anything else.
-/

namespace ScoringMarkup

/-- The result of converting a node. -/
structure Mapping where
  /-- The node that was converted, without the aliases around it. -/
  source : Expression
  target : Element
  type : ScalarType

namespace Expression

/-- The refusal of a node for its shape or operator. -/
def unsupported (e : Expression) : ConversionError := .unsupported (.node e.nodeName e.summary)

end Expression

namespace BinaryOperator

/-- The function that stands for a comparison or a connective. -/
def testFunction? : BinaryOperator → Option String
  | .and => some "and"
  | .or => some "or"
  | .equalTo => some "equal"
  | .greaterThan => some "greaterThan"
  | .greaterThanOrEqual => some "greaterOrEqual"
  | .lessThan => some "lessThan"
  | .lessThanOrEqual => some "lessOrEqual"
  | _ => none

end BinaryOperator

namespace NullCheck

/-- The function that stands for a null check. -/
def markupFunction : NullCheck → String
  | .isNull => "isMissing"
  | .isNotNull => "isNotMissing"

end NullCheck

namespace Conversion

/-- The type of an arithmetic operation, taken from whichever operand accepts the other, the left
one first. -/
def widen (e : Expression) (left right : SourceType) : Except ConversionError SourceType :=
  if left.accepts right then .ok left
  else if right.accepts left then .ok right
  else .error (.unsupported (.operands e.nodeName e.summary left.name right.name))

/-- The function and the type of a binary node over the types of its operands, or its refusal. -/
def binarySignature (op : BinaryOperator) (left right : Expression)
    (leftType rightType : SourceType) : Except ConversionError (String × ScalarType) :=
  let e : Expression := .binary op left right
  if op.isWidening then do
    let type ← widen e leftType rightType
    return (op.symbol, ← ScalarType.ofSource type)
  else
    match op.testFunction? with
    | some function => .ok (function, .boolean)
    | none => .error e.unsupported

/-- The type of a conditional node over the types of its branches, or its refusal: both branches
need the same type. -/
def conditionalType (predicate whenTrue whenFalse : Expression)
    (trueType falseType : SourceType) : Except ConversionError ScalarType :=
  let e : Expression := .conditional predicate whenTrue whenFalse
  if trueType.sameType falseType then ScalarType.ofSource trueType
  else .error (.unsupported (.branches e.nodeName e.summary trueType.name falseType.name))

/-- A computation on a node, behind the record that the node is entered. -/
def entering {α : Type} (e : Expression) (x : Logged α) : Logged α := do
  Logged.record (.entering e.nodeName)
  x

mutual

/-- The conversion of a node that has been entered. The node stands at a place of the tree whose
types the table holds, and each of its children at that place with the number of the child. -/
def convertNode (types : TypeTable) (trail : Expression.Trail) : Expression → Logged Mapping
  | .alias child _ => entering child (convertNode types (0 :: trail) child)
  | .field name type => do
    let scalar ← Logged.ofOutcome (ScalarType.ofSource type)
    return ⟨.field name type, .fieldRef name, scalar⟩
  | .binary op left right => do
    let leftType := types.typeOf (.inside (0 :: trail) left)
    let rightType := types.typeOf (.inside (1 :: trail) right)
    let (function, type) ← Logged.ofOutcome (binarySignature op left right leftType rightType)
    let first ← entering left (convertNode types (0 :: trail) left)
    let second ← entering right (convertNode types (1 :: trail) right)
    return ⟨.binary op left right, .apply function [first.target, second.target], type⟩
  | .conditional predicate whenTrue whenFalse => do
    let trueType := types.typeOf (.inside (1 :: trail) whenTrue)
    let falseType := types.typeOf (.inside (2 :: trail) whenFalse)
    let type ← Logged.ofOutcome
      (conditionalType predicate whenTrue whenFalse trueType falseType)
    let first ← entering predicate (convertNode types (0 :: trail) predicate)
    let second ← entering whenTrue (convertNode types (1 :: trail) whenTrue)
    let third ← entering whenFalse (convertNode types (2 :: trail) whenFalse)
    return ⟨.conditional predicate whenTrue whenFalse,
      .apply "if" [first.target, second.target, third.target], type⟩
  | .membership value list => do
    let first ← entering value (convertNode types (0 :: trail) value)
    let others ← convertNodes types trail 1 list
    return ⟨.membership value list, .apply "isIn" (first.target :: others), .boolean⟩
  | .literal value type => do
    let scalar ← Logged.ofOutcome (ScalarType.ofSource type)
    return ⟨.literal value type, .constant value scalar, scalar⟩
  | .negation child => do
    let argument ← entering child (convertNode types (0 :: trail) child)
    return ⟨.negation child, .apply "not" [argument.target], .boolean⟩
  | .nullCheck check child => do
    let argument ← entering child (convertNode types (0 :: trail) child)
    return ⟨.nullCheck check child, .apply check.markupFunction [argument.target], .boolean⟩
  | .cast child type => Logged.ofOutcome (.error (Expression.cast child type).unsupported)
  | .minus child => Logged.ofOutcome (.error (Expression.minus child).unsupported)
  | .call name arguments type =>
    Logged.ofOutcome (.error (Expression.call name arguments type).unsupported)

/-- The elements of several children of a node, each entered in turn; `i` is the number of the
first of them. -/
def convertNodes (types : TypeTable) (trail : Expression.Trail) (i : Nat) :
    List Expression → Logged (List Element)
  | [] => return []
  | e :: es => do
    let first ← entering e (convertNode types (i :: trail) e)
    let others ← convertNodes types trail (i + 1) es
    return first.target :: others

end

/-- The conversion of a tree without a depth limit. -/
def convertTree (e : Expression) : Logged Mapping :=
  let types := TypeTable.infer e
  (entering e (convertNode types [] e)).recordFailure fun error => .failed e.summary error

/-- The conversion of a tree. -/
def convert (configuration : Configuration) (e : Expression) : Logged Mapping :=
  match configuration.maxDepth with
  | none => convertTree e
  | some limit =>
    if e.exceedsDepth limit then ⟨[.rejected e.summary limit], .error (.tooDeep limit)⟩
    else convertTree e

/-- The conversions of named trees, up to the first that fails. -/
def convertAll (configuration : Configuration) :
    List (String × Expression) → Logged (List (String × Mapping))
  | [] => return []
  | (name, e) :: items => do
    let mapping ← convert configuration e
    let others ← convertAll configuration items
    return (name, mapping) :: others

end Conversion

end ScoringMarkup
