import ScoringMarkup.Document.Types
import ScoringMarkup.Expression.Basic

/-!
# Source expressions in documents

The datum of each operator, null check and expression, and what a datum stands for. Every datum
made here stands for what it was made from.
-/

namespace ScoringMarkup

open Json

namespace BinaryOperator

/-- An operator stands as its name. -/
def toDatum (op : BinaryOperator) : Datum := .unit op.nodeName

def ofDatum? : Datum → Option BinaryOperator
  | .unit name => ofNodeName? name
  | _ => none

/-- An operator stands for itself. -/
@[simp] theorem ofDatum?_toDatum (op : BinaryOperator) : ofDatum? op.toDatum = some op := by
  simp [toDatum, ofDatum?]

end BinaryOperator

namespace NullCheck

/-- A null check stands as its name. -/
def toDatum (check : NullCheck) : Datum := .unit check.nodeName

def ofDatum? : Datum → Option NullCheck
  | .unit name => ofNodeName? name
  | _ => none

/-- A null check stands for itself. -/
@[simp] theorem ofDatum?_toDatum (check : NullCheck) : ofDatum? check.toDatum = some check := by
  simp [toDatum, ofDatum?]

end NullCheck

namespace Expression

mutual

/-- The datum of an expression. -/
def toDatum : Expression → Datum
  | .alias child name =>
    .variant "Alias" (.record [("child", toDatum child), ("name", .string name)])
  | .field name type =>
    .variant "FieldReference" (.record [("name", .string name), ("data_type", type.toDatum)])
  | .binary op left right =>
    .variant "BinaryOp"
      (.record [("op", op.toDatum), ("left", toDatum left), ("right", toDatum right)])
  | .conditional predicate whenTrue whenFalse =>
    .variant "If"
      (.record [("predicate", toDatum predicate), ("true_value", toDatum whenTrue),
        ("false_value", toDatum whenFalse)])
  | .membership value list =>
    .variant "In" (.record [("value", toDatum value), ("list", .list (toData list))])
  | .literal value type =>
    .variant "Literal" (.record [("value", value.toDatum), ("data_type", type.toDatum)])
  | .negation child => .variant "Not" (toDatum child)
  | .nullCheck check child =>
    .variant "NullCheck" (.record [("kind", check.toDatum), ("child", toDatum child)])
  | .cast child type =>
    .variant "Cast" (.record [("child", toDatum child), ("data_type", type.toDatum)])
  | .minus child => .variant "UnaryMinus" (toDatum child)
  | .call name arguments type =>
    .variant "ScalarFunction"
      (.record [("name", .string name), ("arguments", .list (toData arguments)),
        ("data_type", type.toDatum)])

/-- The data of several expressions. -/
def toData : List Expression → List Datum
  | [] => []
  | e :: es => toDatum e :: toData es

end

mutual

/-- The expression that a datum stands for. -/
def ofDatum? : Datum → Option Expression
  | .variant "Alias" (.record [(_, child), (_, .string name)]) => do
    return .alias (← ofDatum? child) name
  | .variant "FieldReference" (.record [(_, .string name), (_, type)]) => do
    return .field name (← SourceType.ofDatum? type)
  | .variant "BinaryOp" (.record [(_, op), (_, left), (_, right)]) => do
    return .binary (← BinaryOperator.ofDatum? op) (← ofDatum? left) (← ofDatum? right)
  | .variant "If" (.record [(_, predicate), (_, whenTrue), (_, whenFalse)]) => do
    return .conditional (← ofDatum? predicate) (← ofDatum? whenTrue) (← ofDatum? whenFalse)
  | .variant "In" (.record [(_, value), (_, .list list)]) => do
    return .membership (← ofDatum? value) (← ofData? list)
  | .variant "Literal" (.record [(_, value), (_, type)]) => do
    return .literal (← Value.ofDatum? value) (← SourceType.ofDatum? type)
  | .variant "Not" child => do return .negation (← ofDatum? child)
  | .variant "NullCheck" (.record [(_, check), (_, child)]) => do
    return .nullCheck (← NullCheck.ofDatum? check) (← ofDatum? child)
  | .variant "Cast" (.record [(_, child), (_, type)]) => do
    return .cast (← ofDatum? child) (← SourceType.ofDatum? type)
  | .variant "UnaryMinus" child => do return .minus (← ofDatum? child)
  | .variant "ScalarFunction" (.record [(_, .string name), (_, .list arguments), (_, type)]) => do
    return .call name (← ofData? arguments) (← SourceType.ofDatum? type)
  | _ => none

/-- The expressions that data stand for. -/
def ofData? : List Datum → Option (List Expression)
  | [] => some []
  | d :: ds => do return (← ofDatum? d) :: (← ofData? ds)

end

mutual

/-- What an expression stands as stands for the expression. -/
@[simp] theorem ofDatum?_toDatum : ∀ e : Expression, ofDatum? e.toDatum = some e
  | .alias child _ => by simp [toDatum, ofDatum?, ofDatum?_toDatum child]
  | .field _ _ => by simp [toDatum, ofDatum?]
  | .binary _ left right => by
    simp [toDatum, ofDatum?, ofDatum?_toDatum left, ofDatum?_toDatum right]
  | .conditional predicate whenTrue whenFalse => by
    simp [toDatum, ofDatum?, ofDatum?_toDatum predicate, ofDatum?_toDatum whenTrue,
      ofDatum?_toDatum whenFalse]
  | .membership value list => by
    simp [toDatum, ofDatum?, ofDatum?_toDatum value, ofData?_toData list]
  | .literal _ _ => by simp [toDatum, ofDatum?]
  | .negation child => by simp [toDatum, ofDatum?, ofDatum?_toDatum child]
  | .nullCheck _ child => by simp [toDatum, ofDatum?, ofDatum?_toDatum child]
  | .cast child _ => by simp [toDatum, ofDatum?, ofDatum?_toDatum child]
  | .minus child => by simp [toDatum, ofDatum?, ofDatum?_toDatum child]
  | .call _ arguments _ => by simp [toDatum, ofDatum?, ofData?_toData arguments]

/-- The data of several expressions stand for all of them. -/
theorem ofData?_toData : ∀ es : List Expression, ofData? (toData es) = some es
  | [] => rfl
  | e :: es => by simp [toData, ofData?, ofDatum?_toDatum e, ofData?_toData es]

end

end Expression

end ScoringMarkup
