import ScoringMarkup.Conversion.Mapping
import ScoringMarkup.Document.Types

/-!
# Markup expressions and configurations in documents

The datum of each markup expression and configuration, and what a datum stands for. Every datum
made here stands for what it was made from.
-/

namespace ScoringMarkup

open Json

namespace Element

mutual

/-- The datum of a markup expression. -/
def toDatum : Element → Datum
  | .fieldRef field => .variant "FieldRef" (.record [("field", .string field)])
  | .apply function arguments =>
    .variant "Apply"
      (.record [("function", .string function), ("arguments", .list (toData arguments))])
  | .constant value type =>
    .variant "Constant" (.record [("value", value.toDatum), ("data_type", type.toDatum)])

/-- The data of several markup expressions. -/
def toData : List Element → List Datum
  | [] => []
  | e :: es => toDatum e :: toData es

end

mutual

/-- The markup expression that a datum stands for. -/
def ofDatum? : Datum → Option Element
  | .variant "FieldRef" (.record [(_, .string field)]) => some (.fieldRef field)
  | .variant "Apply" (.record [(_, .string function), (_, .list arguments)]) => do
    return .apply function (← ofData? arguments)
  | .variant "Constant" (.record [(_, value), (_, type)]) => do
    return .constant (← Value.ofDatum? value) (← ScalarType.ofDatum? type)
  | _ => none

/-- The markup expressions that data stand for. -/
def ofData? : List Datum → Option (List Element)
  | [] => some []
  | d :: ds => do return (← ofDatum? d) :: (← ofData? ds)

end

mutual

/-- What an element stands as stands for the element. -/
@[simp] theorem ofDatum?_toDatum : ∀ e : Element, ofDatum? e.toDatum = some e
  | .fieldRef _ => by simp [toDatum, ofDatum?]
  | .apply _ arguments => by simp [toDatum, ofDatum?, ofData?_toData arguments]
  | .constant _ _ => by simp [toDatum, ofDatum?]

/-- The data of several elements stand for all of them. -/
theorem ofData?_toData : ∀ es : List Element, ofData? (toData es) = some es
  | [] => rfl
  | e :: es => by simp [toData, ofData?, ofDatum?_toDatum e, ofData?_toData es]

end

end Element

namespace Configuration

/-- The datum of a configuration. -/
def toDatum (c : Configuration) : Datum :=
  .record [("max_depth", match c.maxDepth with
    | none => .null
    | some limit => .integer limit)]

/-- The configuration that a datum stands for. -/
def ofDatum? : Datum → Option Configuration
  | .record [(_, .null)] => some .unbounded
  | .record [(_, .integer limit)] => some (.withMaxDepth limit.toNat)
  | _ => none

/-- What a configuration stands as stands for the configuration. -/
@[simp] theorem ofDatum?_toDatum (c : Configuration) : ofDatum? c.toDatum = some c := by
  obtain ⟨_ | limit⟩ := c <;> simp [toDatum, ofDatum?, unbounded, withMaxDepth]

end Configuration

namespace Mapping

/-- The datum of a mapping as it is printed: the type and the markup expression. -/
def toDatum (m : Mapping) : Datum :=
  .record [("data_type", m.type.toDatum), ("expression", m.target.toDatum)]

end Mapping

end ScoringMarkup
