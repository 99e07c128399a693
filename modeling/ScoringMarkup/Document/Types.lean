import ScoringMarkup.Json.Grammar
import ScoringMarkup.Markup.Element
import ScoringMarkup.SourceType

/-!
# Values and types in documents

The datum of each value and type, and the value or type that a datum stands for. Every datum made
here stands for what it was made from.
-/

namespace ScoringMarkup

open Json

namespace Value

/-- The datum of a value. -/
def toDatum : Value → Datum
  | .null => .unit "Null"
  | .boolean b => .variant "Boolean" (.boolean b)
  | .integer n => .variant "Integer" (.integer n.toInt)
  | .double x => .variant "Double" (.double x)
  | .string s => .variant "String" (.string s)

/-- The value that a datum stands for. -/
def ofDatum? : Datum → Option Value
  | .unit "Null" => some .null
  | .variant "Boolean" (.boolean b) => some (.boolean b)
  | .variant "Integer" (.integer n) => some (.integer (Int64.ofInt n))
  | .variant "Double" (.double x) => some (.double x)
  | .variant "String" (.string s) => some (.string s)
  | _ => none

/-- What a value stands as stands for the value. -/
@[simp] theorem ofDatum?_toDatum (v : Value) : ofDatum? v.toDatum = some v := by
  cases v <;> simp [toDatum, ofDatum?]

end Value

namespace ScalarType

/-- A markup type stands as its name. -/
def toDatum (type : ScalarType) : Datum := .unit type.name

def ofDatum? : Datum → Option ScalarType
  | .unit name => ofName? name
  | _ => none

/-- A markup type stands for itself. -/
@[simp] theorem ofDatum?_toDatum (type : ScalarType) : ofDatum? type.toDatum = some type := by
  simp [toDatum, ofDatum?]

end ScalarType

namespace SourceType

mutual

/-- The datum of a type. -/
def toDatum : SourceType → Datum
  | .string => .unit "String"
  | .byte => .unit "Byte"
  | .short => .unit "Short"
  | .integer => .unit "Integer"
  | .long => .unit "Long"
  | .float => .unit "Float"
  | .double => .unit "Double"
  | .boolean => .unit "Boolean"
  | .decimal precision scale =>
    .variant "Decimal"
      (.record [("precision", .integer precision.toNat), ("scale", .integer scale.toNat)])
  | .date => .unit "Date"
  | .timestamp => .unit "Timestamp"
  | .binary => .unit "Binary"
  | .void => .unit "Null"
  | .array element containsNull =>
    .variant "Array"
      (.record [("element", toDatum element), ("contains_null", .boolean containsNull)])
  | .struct fields => .variant "Struct" (.list (fieldData fields))

/-- The data of the fields of a struct type. -/
def fieldData : List StructField → List Datum
  | [] => []
  | ⟨name, type, nullable⟩ :: fields =>
    .record [("name", .string name), ("data_type", toDatum type), ("nullable", .boolean nullable)]
      :: fieldData fields

end

mutual

/-- The type that a datum stands for. -/
def ofDatum? : Datum → Option SourceType
  | .unit "String" => some .string
  | .unit "Byte" => some .byte
  | .unit "Short" => some .short
  | .unit "Integer" => some .integer
  | .unit "Long" => some .long
  | .unit "Float" => some .float
  | .unit "Double" => some .double
  | .unit "Boolean" => some .boolean
  | .variant "Decimal" (.record [(_, .integer precision), (_, .integer scale)]) =>
    some (.decimal (UInt8.ofNat precision.toNat) (UInt8.ofNat scale.toNat))
  | .unit "Date" => some .date
  | .unit "Timestamp" => some .timestamp
  | .unit "Binary" => some .binary
  | .unit "Null" => some .void
  | .variant "Array" (.record [(_, element), (_, .boolean containsNull)]) => do
    return .array (← ofDatum? element) containsNull
  | .variant "Struct" (.list fields) => do return .struct (← ofFieldData? fields)
  | _ => none

/-- The fields that data stand for. -/
def ofFieldData? : List Datum → Option (List StructField)
  | [] => some []
  | .record [(_, .string name), (_, type), (_, .boolean nullable)] :: fields => do
    return ⟨name, ← ofDatum? type, nullable⟩ :: (← ofFieldData? fields)
  | _ => none

end

mutual

/-- What a type stands as stands for the type. -/
@[simp] theorem ofDatum?_toDatum : ∀ type : SourceType, ofDatum? type.toDatum = some type
  | .string | .byte | .short | .integer | .long | .float | .double | .boolean => by
    simp [toDatum, ofDatum?]
  | .date | .timestamp | .binary | .void => by simp [toDatum, ofDatum?]
  | .decimal _ _ => by simp [toDatum, ofDatum?]
  | .array element _ => by simp [toDatum, ofDatum?, ofDatum?_toDatum element]
  | .struct fields => by simp [toDatum, ofDatum?, ofFieldData?_fieldData fields]

/-- The data of several fields stand for all of them. -/
theorem ofFieldData?_fieldData : ∀ fields : List StructField,
    ofFieldData? (fieldData fields) = some fields
  | [] => rfl
  | ⟨_, type, _⟩ :: fields => by
    simp [fieldData, ofFieldData?, ofDatum?_toDatum type, ofFieldData?_fieldData fields]

end

end SourceType

end ScoringMarkup
