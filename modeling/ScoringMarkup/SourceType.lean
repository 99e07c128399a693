/-!
# Source types

The types a pipeline declares on its fields, literals and functions. Two types are the *same*
when they differ in nullability flags only, and one type *accepts* another when they are the same
or the other one is a narrower number. Names in diagnostics leave the flags out.
-/

namespace ScoringMarkup

mutual

/-- A type declared by the pipeline. -/
inductive SourceType
  | string
  | byte
  | short
  | integer
  | long
  | float
  | double
  | boolean
  | decimal (precision scale : UInt8)
  | date
  | timestamp
  | binary
  /-- The type of the bare null. -/
  | void
  | array (element : SourceType) (containsNull : Bool)
  | struct (fields : List StructField)

/-- A field of a struct type. -/
structure StructField where
  name : String
  type : SourceType
  nullable : Bool

end

namespace SourceType

mutual

/-- Equality with the flags, decided. -/
def equals : SourceType → SourceType → Bool
  | .string, .string => true
  | .byte, .byte => true
  | .short, .short => true
  | .integer, .integer => true
  | .long, .long => true
  | .float, .float => true
  | .double, .double => true
  | .boolean, .boolean => true
  | .decimal p s, .decimal p' s' => decide (p = p') && decide (s = s')
  | .date, .date => true
  | .timestamp, .timestamp => true
  | .binary, .binary => true
  | .void, .void => true
  | .array e c, .array e' c' => equals e e' && decide (c = c')
  | .struct fs, .struct fs' => equalFields fs fs'
  | _, _ => false

/-- Field by field equality, decided. -/
def equalFields : List StructField → List StructField → Bool
  | [], [] => true
  | ⟨n, t, b⟩ :: fs, ⟨n', t', b'⟩ :: fs' =>
    decide (n = n') && equals t t' && decide (b = b') && equalFields fs fs'
  | _, _ => false

end

mutual

/-- What compares as equal is equal. -/
theorem eq_of_equals : ∀ {a b : SourceType}, equals a b = true → a = b
  | a, b, h => by
    cases a <;> cases b <;>
      simp only [equals, Bool.and_eq_true, decide_eq_true_eq, reduceCtorEq] at h ⊢
    · rw [h.1, h.2]
    · rw [eq_of_equals h.1, h.2]
    · rw [eq_of_equalFields h]

/-- Fields that compare as equal are equal. -/
theorem eq_of_equalFields : ∀ {fs gs : List StructField}, equalFields fs gs = true → fs = gs
  | [], [], _ => rfl
  | [], _ :: _, h => by simp [equalFields] at h
  | _ :: _, [], h => by simp [equalFields] at h
  | ⟨n, t, b⟩ :: fs, ⟨n', t', b'⟩ :: gs, h => by
    simp only [equalFields, Bool.and_eq_true, decide_eq_true_eq] at h
    obtain ⟨⟨⟨hn, ht⟩, hb⟩, hs⟩ := h
    rw [hn, eq_of_equals ht, hb, eq_of_equalFields hs]

end

mutual

theorem equals_refl : ∀ a : SourceType, equals a a = true
  | .string | .byte | .short | .integer | .long | .float | .double | .boolean => rfl
  | .date | .timestamp | .binary | .void => rfl
  | .decimal _ _ => by simp [equals]
  | .array e _ => by simp [equals, equals_refl e]
  | .struct fs => by simp [equals, equalFields_refl fs]

theorem equalFields_refl : ∀ fs : List StructField, equalFields fs fs = true
  | [] => rfl
  | ⟨_, t, _⟩ :: fs => by simp [equalFields, equals_refl t, equalFields_refl fs]

end

/-- Comparing types decides their equality. -/
theorem equals_iff {a b : SourceType} : equals a b = true ↔ a = b :=
  ⟨eq_of_equals, fun h => h ▸ equals_refl a⟩

instance : DecidableEq SourceType := fun _ _ => decidable_of_iff _ equals_iff

/-- Whether this is a fixed-width integer type. -/
def isIntegral : SourceType → Bool
  | .byte | .short | .integer | .long => true
  | _ => false

mutual

/-- Equality that leaves out the nullability flags of arrays and struct fields. -/
def sameType : SourceType → SourceType → Bool
  | .array e _, .array e' _ => sameType e e'
  | .struct fs, .struct fs' => sameFields fs fs'
  | a, b => decide (a = b)

/-- Same names and same types, in order. -/
def sameFields : List StructField → List StructField → Bool
  | [], [] => true
  | ⟨n, t, _⟩ :: fs, ⟨n', t', _⟩ :: fs' => decide (n = n') && sameType t t' && sameFields fs fs'
  | _, _ => false

end

/-- Whether a value of the second type can stand where the first is expected: the same type, or
one of the listed widenings. -/
def accepts (expected given : SourceType) : Bool :=
  sameType expected given ||
    match expected, given with
    | .short, .byte => true
    | .integer, .byte | .integer, .short => true
    | .long, .byte | .long, .short | .long, .integer => true
    | .float, t => t.isIntegral
    | .double, .float => true
    | .double, t => t.isIntegral
    | _, _ => false

mutual

/-- The lower-case name of a type in diagnostics. -/
def name : SourceType → String
  | .string => "string"
  | .byte => "tinyint"
  | .short => "smallint"
  | .integer => "int"
  | .long => "bigint"
  | .float => "float"
  | .double => "double"
  | .boolean => "boolean"
  | .decimal precision scale =>
    "decimal(" ++ toString precision.toNat ++ "," ++ toString scale.toNat ++ ")"
  | .date => "date"
  | .timestamp => "timestamp"
  | .binary => "binary"
  | .void => "void"
  | .array element _ => "array<" ++ name element ++ ">"
  | .struct fields => "struct<" ++ ",".intercalate (fieldNames fields) ++ ">"

/-- Each field's name and type name. -/
def fieldNames : List StructField → List String
  | [] => []
  | ⟨n, t, _⟩ :: fields => (n ++ ":" ++ name t) :: fieldNames fields

end

end SourceType

end ScoringMarkup
