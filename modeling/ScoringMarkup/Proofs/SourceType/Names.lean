import ScoringMarkup.Proofs.SourceType.Nullability

/-!
# Names of types

The name of a type starts with a word that tells which kind of type it is. No such word is the
start of another, and what follows it says by itself where it ends, unless the name of a field
holds one of the characters that set names and types apart. So a name can be read in one way only,
whatever text comes after it, and names tell types apart up to their flags.
-/

namespace ScoringMarkup

namespace SourceType

/-- The characters that set the names and the types of fields apart. -/
def separators : List Char := [':', ',', '<', '>']

mutual

/-- The names of the struct fields in a type, at any depth. -/
def labels : SourceType → List String
  | .array element _ => labels element
  | .struct fields => fieldLabels fields
  | _ => []

/-- The names of fields and those in their types. -/
def fieldLabels : List StructField → List String
  | [] => []
  | ⟨label, type, _⟩ :: fields => label :: (labels type ++ fieldLabels fields)

end

/-- Whether a field name has none of the separators. -/
def IsPlainLabel (label : String) : Prop := ∀ c ∈ separators, c ∉ label.toList

/-- Whether no struct field in a type, at any depth, has a separator in its name. -/
def HasPlainLabels (type : SourceType) : Prop := ∀ label ∈ type.labels, IsPlainLabel label

instance : DecidablePred IsPlainLabel := fun label =>
  List.decidableBAll (fun c => c ∉ label.toList) separators

instance : DecidablePred HasPlainLabels := fun type => List.decidableBAll IsPlainLabel type.labels

/-- The labels of fields are plain when the first and all others are. -/
theorem hasPlainLabels_field {label : String} {type : SourceType} {nullable : Bool}
    {fields : List StructField} :
    (struct (⟨label, type, nullable⟩ :: fields)).HasPlainLabels ↔
      IsPlainLabel label ∧ type.HasPlainLabels ∧ (struct fields).HasPlainLabels := by
  simp only [HasPlainLabels, labels, fieldLabels, List.forall_mem_cons, List.forall_mem_append]

/-! ## The words that names start with -/

/-- The word that a name starts with. -/
def word : SourceType → String
  | .decimal _ _ => "decimal("
  | .array _ _ => "array<"
  | .struct _ => "struct<"
  | type => type.name

/-- The text of the fields of a struct, with the bracket that closes it. -/
def fieldsText (fields : List StructField) : List Char :=
  (",".intercalate (fieldNames fields)).toList ++ ['>']

/-- The text behind a field, by the fields that are left. -/
def textBehind : List StructField → List Char
  | [] => ['>']
  | fields => ',' :: fieldsText fields

/-- What follows the word in a name. -/
def parameters : SourceType → List Char
  | .decimal precision scale =>
    Nat.toDigits 10 precision.toNat ++ ',' :: (Nat.toDigits 10 scale.toNat ++ [')'])
  | .array element _ => element.name.toList ++ ['>']
  | .struct fields => fieldsText fields
  | _ => []

/-- The words of all types. -/
def words : List String :=
  ["string", "tinyint", "smallint", "int", "bigint", "float", "double", "boolean", "decimal(",
    "date", "timestamp", "binary", "void", "array<", "struct<"]

/-- The name of a type starts with one of the words. -/
theorem word_mem_words (type : SourceType) : type.word ∈ words := by
  cases type <;> simp [word, name, words]

/-- No word is the start of another. -/
theorem words_prefixFree : ∀ w ∈ words, ∀ w' ∈ words, w.toList <+: w'.toList → w = w' := by
  decide

/-- A name is a word and what stands behind it. -/
theorem toList_name (type : SourceType) :
    type.name.toList = type.word.toList ++ type.parameters := by
  cases type with
  | decimal precision scale => simp [name, word, parameters]
  | array element containsNull => simp [name, word, parameters]
  | struct fields => simp [name, word, parameters, fieldsText]
  | _ => exact (List.append_nil _).symm

/-- Fields are named one after the other. -/
theorem fieldsText_cons (label : String) (type : SourceType) (nullable : Bool)
    (fields : List StructField) :
    fieldsText (⟨label, type, nullable⟩ :: fields) =
      label.toList ++ ':' :: (type.name.toList ++ textBehind fields) := by
  cases fields with
  | nil => simp [fieldsText, fieldNames, textBehind]
  | cons next fields =>
    obtain ⟨nextLabel, nextType, nextNullable⟩ := next
    simp [fieldsText, fieldNames, textBehind]

/-- Whatever comes after two names, the names start with one word if the texts are equal. -/
theorem word_eq_of_append {a b : SourceType} {u v : List Char}
    (h : a.name.toList ++ u = b.name.toList ++ v) :
    a.word = b.word ∧ a.parameters ++ u = b.parameters ++ v := by
  rw [toList_name, toList_name, List.append_assoc, List.append_assoc] at h
  have hword : a.word = b.word := by
    have hb : b.word.toList <+: a.word.toList ++ (a.parameters ++ u) := by
      rw [h]
      exact List.prefix_append ..
    rcases List.prefix_or_prefix_of_prefix (List.prefix_append _ _) hb with hab | hba
    · exact words_prefixFree _ a.word_mem_words _ b.word_mem_words hab
    · exact (words_prefixFree _ b.word_mem_words _ a.word_mem_words hba).symm
  rw [hword] at h
  exact ⟨hword, List.append_cancel_left h⟩

/-- Two equal texts, each with a mark that does not occur in front of the mark of the other, have
the same mark in the same place. -/
theorem append_cons_inj {x y u v : List Char} {c d : Char} (hc : c ∉ y) (hd : d ∉ x)
    (h : x ++ c :: u = y ++ d :: v) : x = y ∧ c = d ∧ u = v := by
  rcases List.append_eq_append_iff.mp h with ⟨z, rfl, hu⟩ | ⟨z, rfl, hv⟩
  · cases z with
    | nil => simpa using hu
    | cons b z =>
      obtain ⟨rfl, -⟩ := List.cons.inj hu
      exact absurd (List.mem_append_right x List.mem_cons_self) hc
  · cases z with
    | nil => simpa [eq_comm] using hv
    | cons b z =>
      obtain ⟨rfl, -⟩ := List.cons.inj hv
      exact absurd (List.mem_append_right y List.mem_cons_self) hd

/-- Numbers are read off their digits. -/
theorem toDigits_inj {m n : Nat} (h : Nat.toDigits 10 m = Nat.toDigits 10 n) : m = n := by
  have hread := congrArg (Nat.ofDigitChars 10 · 0) h
  simpa [Nat.ofDigitChars_toDigits] using hread

/-- A number in decimal holds only digits. -/
theorem not_mem_toDigits {c : Char} (hc : c.isDigit = false) (n : Nat) :
    c ∉ Nat.toDigits 10 n := by
  intro hmem
  rw [Nat.isDigit_of_mem_toDigits (by decide) (by decide) hmem] at hc
  cases hc

/-- The numbers of a decimal type end in front of what comes after them. -/
theorem eq_of_decimal_append {p s p' s' : UInt8} {u v : List Char}
    (h : (decimal p s).parameters ++ u = (decimal p' s').parameters ++ v) :
    decimal p s = .decimal p' s' ∧ u = v := by
  simp only [parameters, List.append_assoc, List.cons_append, List.nil_append] at h
  obtain ⟨hp, -, hrest⟩ :=
    append_cons_inj (not_mem_toDigits (by decide) _) (not_mem_toDigits (by decide) _) h
  obtain ⟨hs, -, huv⟩ :=
    append_cons_inj (not_mem_toDigits (by decide) _) (not_mem_toDigits (by decide) _) hrest
  rw [UInt8.toNat_inj.mp (toDigits_inj hp), UInt8.toNat_inj.mp (toDigits_inj hs)]
  exact ⟨rfl, huv⟩

/-- A struct without fields closes where one with fields has a field name. -/
theorem fieldsText_nil_append_ne {label : String} (hlabel : IsPlainLabel label)
    {type : SourceType} {nullable : Bool} {fields : List StructField} {u v : List Char} :
    fieldsText [] ++ u ≠ fieldsText (⟨label, type, nullable⟩ :: fields) ++ v := by
  intro h
  rw [fieldsText_cons, List.append_assoc] at h
  have hmarks : '>' = ':' := (append_cons_inj (hlabel '>' (by decide)) List.not_mem_nil h).2.1
  exact absurd hmarks (by decide)

mutual

/-- Of two texts that start with the names of types, equal texts have the same type in front, up
to flags, and go on in the same way. -/
theorem sameType_of_name_append : ∀ {a b : SourceType} {u v : List Char},
    a.HasPlainLabels → b.HasPlainLabels → a.name.toList ++ u = b.name.toList ++ v →
      a.sameType b = true ∧ u = v
  | a, b, u, v, ha, hb, h => by
    obtain ⟨hword, hrest⟩ := word_eq_of_append h
    -- Types of different kinds start with different words.
    cases a <;> cases b <;> simp [word, name] at hword
    case decimal.decimal p s p' s' =>
      obtain ⟨heq, huv⟩ := eq_of_decimal_append hrest
      exact ⟨decide_eq_true heq, huv⟩
    case array.array element _ element' _ =>
      simp only [parameters, List.append_assoc] at hrest
      have helement : element.HasPlainLabels := ha
      have helement' : element'.HasPlainLabels := hb
      obtain ⟨hsame, htail⟩ := sameType_of_name_append helement helement' hrest
      exact ⟨hsame, List.append_cancel_left htail⟩
    case struct.struct fields fields' => exact sameFields_of_text_append ha hb hrest
    all_goals exact ⟨rfl, hrest⟩

/-- The same for the fields of two structs. -/
theorem sameFields_of_text_append : ∀ {fs gs : List StructField} {u v : List Char},
    (struct fs).HasPlainLabels → (struct gs).HasPlainLabels →
      fieldsText fs ++ u = fieldsText gs ++ v → sameFields fs gs = true ∧ u = v
  | [], [], u, v, _, _, h => ⟨rfl, List.append_cancel_left h⟩
  | [], ⟨label, type, nullable⟩ :: gs, u, v, _, hgs, h =>
    absurd h (fieldsText_nil_append_ne (hasPlainLabels_field.mp hgs).1)
  | ⟨label, type, nullable⟩ :: fs, [], u, v, hfs, _, h =>
    absurd h.symm (fieldsText_nil_append_ne (hasPlainLabels_field.mp hfs).1)
  | ⟨label, type, _⟩ :: fs, ⟨label', type', _⟩ :: gs, u, v, hfs, hgs, h => by
    obtain ⟨hlabel, htype, hfields⟩ := hasPlainLabels_field.mp hfs
    obtain ⟨hother, htype', hfields'⟩ := hasPlainLabels_field.mp hgs
    simp only [fieldsText_cons, List.append_assoc, List.cons_append] at h
    -- A plain label is read up to the first colon, and the type behind it up to where it ends.
    obtain ⟨hlabels, -, hrest⟩ :=
      append_cons_inj (hother ':' (by decide)) (hlabel ':' (by decide)) h
    obtain ⟨htypes, htail⟩ := sameType_of_name_append htype htype' hrest
    have hsame : sameFields fs gs = true ∧ u = v := by
      cases fs with
      | nil =>
        cases gs with
        | nil => exact ⟨rfl, List.append_cancel_left htail⟩
        | cons => cases htail
      | cons =>
        cases gs with
        | nil => cases htail
        | cons => exact sameFields_of_text_append hfields hfields' (List.cons.inj htail).2
    simp [sameFields, String.toList_inj.mp hlabels, htypes, hsame.1, hsame.2]

end

/-- Types that are the same have one name. -/
theorem name_eq_of_sameType {a b : SourceType} (h : a.sameType b = true) : a.name = b.name := by
  rw [← name_withoutFlags a, (sameType_iff a b).mp h, name_withoutFlags]

/-- Types of one name are the same, where no field name holds a separator. -/
theorem sameType_of_name_eq {a b : SourceType} (ha : a.HasPlainLabels) (hb : b.HasPlainLabels)
    (h : a.name = b.name) : a.sameType b = true :=
  (sameType_of_name_append ha hb (congrArg (String.toList · ++ []) h)).1

/-- A field name with separators can look like two fields. -/
example : (struct [⟨"a:int,b", .date, true⟩]).name =
      (struct [⟨"a", .integer, true⟩, ⟨"b", .date, true⟩]).name ∧
    (struct [⟨"a:int,b", .date, true⟩]).sameType
      (.struct [⟨"a", .integer, true⟩, ⟨"b", .date, true⟩]) = false := by
  decide

end SourceType

end ScoringMarkup
