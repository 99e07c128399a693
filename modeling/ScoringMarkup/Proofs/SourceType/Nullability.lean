import ScoringMarkup.Conversion.Error
import ScoringMarkup.Expression.DeclaredType

/-!
# Types without nullability flags

Clearing the flags of a type gives one representative for all types that differ in their flags
only. Two types are the same exactly when they have one representative, and nothing that is asked
of types, which of two accepts the other, what a type is called and what it is mapped to, can tell
a type from its representative.
-/

namespace ScoringMarkup

namespace SourceType

mutual

/-- The type with every nullability flag cleared. -/
def withoutFlags : SourceType → SourceType
  | .array element _ => .array (withoutFlags element) false
  | .struct fields => .struct (fieldsWithoutFlags fields)
  | type => type

/-- The fields with every nullability flag cleared, their own and those of their types. -/
def fieldsWithoutFlags : List StructField → List StructField
  | [] => []
  | ⟨name, type, _⟩ :: fields => ⟨name, withoutFlags type, false⟩ :: fieldsWithoutFlags fields

end

mutual

/-- Two types are the same exactly when they are equal without their flags. -/
theorem sameType_iff : ∀ a b : SourceType,
    a.sameType b = true ↔ a.withoutFlags = b.withoutFlags
  | a, b => by
    cases a <;> cases b <;> simp only [sameType, withoutFlags, decide_eq_true_eq, reduceCtorEq]
    case array.array element _ element' _ => simp [sameType_iff element element']
    case struct.struct fields fields' => simp [sameFields_iff fields fields']

/-- Two lists of fields are the same exactly when they are equal without their flags. -/
theorem sameFields_iff : ∀ fs gs : List StructField,
    sameFields fs gs = true ↔ fieldsWithoutFlags fs = fieldsWithoutFlags gs
  | [], [] => by simp [sameFields]
  | [], ⟨_, _, _⟩ :: _ => by simp [sameFields, fieldsWithoutFlags]
  | ⟨_, _, _⟩ :: _, [] => by simp [sameFields, fieldsWithoutFlags]
  | ⟨_, t, _⟩ :: fs, ⟨_, t', _⟩ :: gs => by
    simp [sameFields, fieldsWithoutFlags, sameType_iff t t', sameFields_iff fs gs, and_assoc]

end

mutual

/-- Clearing flags twice clears no more. -/
@[simp] theorem withoutFlags_withoutFlags : ∀ type : SourceType,
    type.withoutFlags.withoutFlags = type.withoutFlags
  | .string | .byte | .short | .integer | .long | .float | .double | .boolean => rfl
  | .decimal _ _ | .date | .timestamp | .binary | .void => rfl
  | .array element _ => by simp [withoutFlags, withoutFlags_withoutFlags element]
  | .struct fields => by simp [withoutFlags, fieldsWithoutFlags_fieldsWithoutFlags fields]

/-- Clearing the flags of fields twice clears no more. -/
theorem fieldsWithoutFlags_fieldsWithoutFlags : ∀ fields : List StructField,
    fieldsWithoutFlags (fieldsWithoutFlags fields) = fieldsWithoutFlags fields
  | [] => rfl
  | ⟨_, type, _⟩ :: fields => by
    simp [fieldsWithoutFlags, withoutFlags_withoutFlags type,
      fieldsWithoutFlags_fieldsWithoutFlags fields]

end

/-- Sameness does not look at flags. -/
@[simp] theorem sameType_withoutFlags (a b : SourceType) :
    a.withoutFlags.sameType b.withoutFlags = a.sameType b := by
  rw [Bool.eq_iff_iff, sameType_iff, sameType_iff, withoutFlags_withoutFlags,
    withoutFlags_withoutFlags]

/-- Whether one type accepts another does not depend on flags. -/
@[simp] theorem accepts_withoutFlags (a b : SourceType) :
    a.withoutFlags.accepts b.withoutFlags = a.accepts b := by
  unfold accepts
  rw [sameType_withoutFlags]
  cases a <;> cases b <;> rfl

mutual

/-- The name of a type leaves the flags out. -/
@[simp] theorem name_withoutFlags : ∀ type : SourceType, type.withoutFlags.name = type.name
  | .string | .byte | .short | .integer | .long | .float | .double | .boolean => rfl
  | .decimal _ _ | .date | .timestamp | .binary | .void => rfl
  | .array element _ => by simp [withoutFlags, name, name_withoutFlags element]
  | .struct fields => by simp [withoutFlags, name, fieldNames_withoutFlags fields]

/-- The names of fields leave the flags out. -/
theorem fieldNames_withoutFlags : ∀ fields : List StructField,
    fieldNames (fieldsWithoutFlags fields) = fieldNames fields
  | [] => rfl
  | ⟨_, type, _⟩ :: fields => by
    simp [fieldsWithoutFlags, fieldNames, name_withoutFlags type, fieldNames_withoutFlags fields]

end

/-- A type is mapped, or refused by name, as without its flags. -/
@[simp] theorem ofSource_withoutFlags (type : SourceType) :
    ScalarType.ofSource type.withoutFlags = ScalarType.ofSource type := by
  cases type with
  | array element containsNull =>
    have hname := name_withoutFlags (.array element containsNull)
    simp only [withoutFlags] at hname
    simp only [withoutFlags, ScalarType.ofSource, hname]
  | struct fields =>
    have hname := name_withoutFlags (.struct fields)
    simp only [withoutFlags] at hname
    simp only [withoutFlags, ScalarType.ofSource, hname]
  | _ => rfl

/-- Of two operands, the one that gives the type is chosen without looking at flags. -/
theorem ofOperands_withoutFlags (left right : SourceType) :
    ofOperands left.withoutFlags right.withoutFlags = (ofOperands left right).withoutFlags := by
  rw [ofOperands, ofOperands, accepts_withoutFlags, accepts_withoutFlags]
  exact (apply_ite withoutFlags _ right left).symm

end SourceType

/-- What an operator declares for operands without flags is what it declares, without flags. -/
theorem BinaryOperator.declaredType_withoutFlags (op : BinaryOperator) (left right : SourceType) :
    op.declaredType left.withoutFlags right.withoutFlags =
      (op.declaredType left right).withoutFlags := by
  unfold declaredType
  cases op.kind with
  | logical | comparison => rfl
  | arithmetic | bitwise => exact SourceType.ofOperands_withoutFlags left right

end ScoringMarkup
