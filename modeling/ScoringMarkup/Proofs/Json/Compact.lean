import ScoringMarkup.Proofs.Json.Containers

/-!
# Compact documents

The data that follow a grammar, and the shape of their compact texts: a bracket, the entries with
commas between them, and the closing bracket. Such a text begins at its first byte, stands on one
line and closes every container that it opens.
-/

namespace ScoringMarkup

namespace Json

variable {σ : Type}

/-- Whether a datum is what a rule asks for, with the fields of records in order. Doubles, and the
places for an integer or null, are left out. -/
inductive Follows (grammar : Grammar σ) : Rule σ → Datum → Prop
  | string (s : String) : Follows grammar .string (.string s)
  | boolean (b : Bool) : Follows grammar .boolean (.boolean b)
  | integer {range : IntegerRange} {n : Int} (hrange : range.least ≤ n ∧ n ≤ range.greatest)
    (hfits : FitsWord n) : Follows grammar (.integer range) (.integer n)
  | list {item : σ} {items : List Datum} (h : ∀ d ∈ items, Follows grammar (grammar item) d) :
    Follows grammar (.list item) (.list items)
  | record {title : String} {filled : List (Field σ × Datum)}
    (hnames : (filled.map (·.1.name)).Nodup)
    (h : ∀ p ∈ filled, Follows grammar (grammar p.1.symbol) p.2) :
    Follows grammar (.record title (filled.map (·.1)))
      (.record (filled.map fun p => (p.1.name, p.2)))
  | unit {variants : List (Variant σ)} {v : Variant σ}
    (hfind : variants.find? (fun w => w.name == v.name) = some v) (hpayload : v.payload = .none) :
    Follows grammar (.choice variants) (.unit v.name)
  | variant {variants : List (Variant σ)} {v : Variant σ} {symbol : σ} {d : Datum}
    (hfind : variants.find? (fun w => w.name == v.name) = some v)
    (hpayload : v.payload = .value symbol ∨ v.payload = .fields symbol)
    (h : Follows grammar (grammar symbol) d) :
    Follows grammar (.choice variants) (.variant v.name d)

/-- A comma in front of every entry but the first. -/
def separator (isFirst : Bool) : Bytes := if isFirst then [] else [ascii ',']

/-- Entries with commas between them, and the bracket that closes them. -/
def entries (closing : Char) : (isFirst : Bool) → List Bytes → Bytes
  | _, [] => [ascii closing]
  | isFirst, entry :: others => separator isFirst ++ (entry ++ entries closing false others)

/-- Texts with commas between them, and the bracket behind them, are entries in UTF-8. -/
theorem utf8_intercalate (closing : Char) (texts : List (List Char)) :
    utf8 ([','].intercalate texts) ++ [ascii closing] =
      entries closing true (texts.map utf8) := by
  induction texts with
  | nil => rfl
  | cons text texts ih =>
    cases texts with
    | nil => simp [entries, separator]
    | cons next texts =>
      have hsplit : [','].intercalate (text :: next :: texts) =
          text ++ ',' :: [','].intercalate (next :: texts) := by simp
      rw [hsplit, utf8_append, utf8_cons, List.append_assoc, List.append_assoc, ih]
      rfl

namespace Datum

/-- The bytes of the compact text of a datum. -/
def bytes (d : Datum) : Bytes := utf8 d.compact.toList

/-- A field as it stands in an object. -/
def fieldBytes (field : String × Datum) : Bytes :=
  quoted field.1 ++ ascii ':' :: field.2.bytes

/-- A string is written between quotes. -/
theorem bytes_string (s : String) : (Datum.string s).bytes = quoted s := by
  rw [bytes, compact, utf8_writeString]

/-- A bare variant is written as its name. -/
theorem bytes_unit (name : String) : (Datum.unit name).bytes = quoted name := by
  rw [bytes, compact, utf8_writeString]

/-- An integer is written in decimal digits. -/
theorem bytes_integer (n : Int) : (Datum.integer n).bytes = integerBytes n := by
  rw [bytes, compact, utf8_toString]

/-- The elements of a list are written each by itself. -/
theorem compactItems_eq (items : List Datum) : compactItems items = items.map compact := by
  induction items with
  | nil => rw [compactItems, List.map_nil]
  | cons d items ih => rw [compactItems, List.map_cons, ih]

/-- The fields of a record are written each by itself, behind its name. -/
theorem compactFields_eq (fields : List (String × Datum)) :
    compactFields fields = fields.map fun p => writeString p.1 ++ ":" ++ p.2.compact := by
  induction fields with
  | nil => rw [compactFields, List.map_nil]
  | cons field fields ih => rw [compactFields, List.map_cons, ih]

/-- A list is written as its elements between square brackets. -/
theorem bytes_list (items : List Datum) :
    (Datum.list items).bytes = ascii '[' :: entries ']' true (items.map bytes) := by
  have h := utf8_intercalate ']' ((compactItems items).map String.toList)
  rw [compactItems_eq, List.map_map, List.map_map] at h
  rw [bytes, compact, String.toList_append, String.toList_append, String.toList_intercalate,
    utf8_append, utf8_append, List.append_assoc, compactItems_eq, List.map_map]
  exact congrArg (ascii '[' :: ·) h

/-- A record is written as its fields between braces. -/
theorem bytes_record (fields : List (String × Datum)) :
    (Datum.record fields).bytes =
      ascii '\x7b' :: entries '\x7d' true (fields.map fieldBytes) := by
  have h := utf8_intercalate '\x7d' ((compactFields fields).map String.toList)
  have hfield : (utf8 ∘ String.toList ∘ fun p : String × Datum =>
      writeString p.1 ++ ":" ++ p.2.compact) = fieldBytes := by
    funext p
    rw [Function.comp_apply, Function.comp_apply, String.toList_append, String.toList_append,
      utf8_append, utf8_append, utf8_writeString, List.append_assoc]
    rfl
  rw [compactFields_eq, List.map_map, List.map_map, hfield] at h
  rw [bytes, compact, String.toList_append, String.toList_append, String.toList_intercalate,
    utf8_append, utf8_append, List.append_assoc, compactFields_eq, List.map_map]
  exact congrArg (ascii '\x7b' :: ·) h

/-- A variant with a payload is written as an object of that one field. -/
theorem bytes_variant (name : String) (payload : Datum) :
    (Datum.variant name payload).bytes =
      ascii '\x7b' :: entries '\x7d' true [fieldBytes (name, payload)] := by
  rw [bytes, compact]
  simp only [String.toList_append, utf8_append, utf8_writeString, entries, fieldBytes,
    List.append_assoc]
  rfl

end Datum

/-- The text of a datum begins at once, and not with a closing bracket. -/
theorem bytes_eq_cons {grammar : Grammar σ} {rule : Rule σ} {d : Datum}
    (h : Follows grammar rule d) :
    ∃ b tail, d.bytes = b :: tail ∧ isBlank b = false ∧ b ≠ ascii ']' := by
  cases h with
  | string s => exact ⟨_, _, Datum.bytes_string s, rfl, by decide⟩
  | boolean b => cases b <;> exact ⟨_, _, rfl, rfl, by decide⟩
  | @integer range n hrange hfits =>
    rw [Datum.bytes_integer]
    cases n with
    | ofNat n =>
      obtain ⟨b, tail, heq, hd⟩ := decimal_eq_cons n
      refine ⟨b, tail, heq, (not_isBlank_of_isDigit hd).1, ?_⟩
      rintro rfl
      exact absurd hd (by decide)
    | negSucc n => exact ⟨_, _, rfl, rfl, by decide⟩
  | list => exact ⟨_, _, Datum.bytes_list _, rfl, by decide⟩
  | record => exact ⟨_, _, Datum.bytes_record _, rfl, by decide⟩
  | unit => exact ⟨_, _, Datum.bytes_unit _, rfl, by decide⟩
  | variant => exact ⟨_, _, Datum.bytes_variant _ _, rfl, by decide⟩

/-- Whether a text closes every container that it opens and ends outside strings. -/
def IsBalanced (text : Bytes) : Prop := ∀ o, Scan.run ⟨o, .outside⟩ text = ⟨o, .outside⟩

/-- A separator leaves the scan outside strings and opens nothing. -/
theorem leadsTo_separator (isFirst : Bool) :
    LeadsTo .outside .outside (separator isFirst) := by
  cases isFirst with
  | true => exact .nil _
  | false => exact .byte fun _ => rfl

/-- A boolean leaves the scan outside strings and opens nothing. -/
theorem leadsTo_boolean (b : Bool) : LeadsTo .outside .outside (Datum.boolean b).bytes := by
  cases b with
  | false =>
    change LeadsTo _ _ [ascii 'f', ascii 'a', ascii 'l', ascii 's', ascii 'e']
    exact .cons (fun _ => rfl) (.cons (fun _ => rfl) (.cons (fun _ => rfl)
      (.cons (fun _ => rfl) (.byte fun _ => rfl))))
  | true =>
    change LeadsTo _ _ [ascii 't', ascii 'r', ascii 'u', ascii 'e']
    exact .cons (fun _ => rfl) (.cons (fun _ => rfl) (.cons (fun _ => rfl)
      (.byte fun _ => rfl)))

/-- Balanced entries close the one container that is open in front of them. -/
theorem run_entries {closing : Char} (hc : closing = ']' ∨ closing = '\x7d')
    {texts : List Bytes} (h : ∀ text ∈ texts, IsBalanced text) (isFirst : Bool) (o : Nat) :
    Scan.run ⟨o + 1, .outside⟩ (entries closing isFirst texts) = ⟨o, .outside⟩ := by
  induction texts generalizing isFirst with
  | nil => rcases hc with rfl | rfl <;> rfl
  | cons text texts ih =>
    rw [entries, Scan.run_append, (leadsTo_separator isFirst).run_eq, Scan.run_append,
      h text List.mem_cons_self, ih fun t ht => h t (List.mem_cons_of_mem _ ht)]

/-- A name in front of a balanced text leaves it balanced. -/
theorem IsBalanced.field {d : Datum} (h : IsBalanced d.bytes) (name : String) :
    IsBalanced (Datum.fieldBytes (name, d)) := by
  intro o
  rw [Datum.fieldBytes, Scan.run_append, (LeadsTo.quoted name).run_eq]
  exact h o

/-- The text of a datum closes every container that it opens. -/
theorem isBalanced_bytes {grammar : Grammar σ} {rule : Rule σ} {d : Datum}
    (h : Follows grammar rule d) : IsBalanced d.bytes := by
  induction h with
  | string s =>
    rw [Datum.bytes_string]
    exact (LeadsTo.quoted s).run_eq
  | boolean b => exact (leadsTo_boolean b).run_eq
  | integer =>
    rw [Datum.bytes_integer]
    exact (LeadsTo.integerBytes _).run_eq
  | list _ ih =>
    intro o
    rw [Datum.bytes_list]
    exact run_entries (Or.inl rfl) (List.forall_mem_map.mpr ih) true o
  | record _ _ ih =>
    intro o
    rw [Datum.bytes_record, List.map_map]
    exact run_entries (Or.inr rfl) (List.forall_mem_map.mpr fun p hp => (ih p hp).field _) true o
  | unit =>
    rw [Datum.bytes_unit]
    exact (LeadsTo.quoted _).run_eq
  | variant _ _ _ ih =>
    intro o
    rw [Datum.bytes_variant]
    exact run_entries (Or.inr rfl) (by simpa using ih.field _) true o

/-- Whether a text stands on one line. -/
def IsOneLine (text : Bytes) : Prop := (10 : UInt8) ∉ text

instance (text : Bytes) : Decidable (IsOneLine text) :=
  inferInstanceAs (Decidable ((10 : UInt8) ∉ text))

/-- Two texts on one line each make one line together. -/
theorem IsOneLine.append {text more : Bytes} (ht : IsOneLine text) (hm : IsOneLine more) :
    IsOneLine (text ++ more) := by
  rw [IsOneLine, List.mem_append, not_or]
  exact ⟨ht, hm⟩

/-- Any byte but a line feed in front of a line keeps it one line. -/
theorem IsOneLine.cons {b : UInt8} {text : Bytes} (hb : b ≠ 10) (ht : IsOneLine text) :
    IsOneLine (b :: text) :=
  List.not_mem_cons_of_ne_of_not_mem hb.symm ht

/-- Hexadecimal digits hold no line feed. -/
theorem isOneLine_of_spellsCode {n : Nat} {code : Bytes} (h : SpellsCode n code) :
    IsOneLine code := by
  have digit {b : UInt8} {n : Nat} (hb : hexValue? b = some n) : b ≠ 10 := by
    rintro rfl
    cases hb
  cases h with
  | digits hp hq hr hs =>
    exact .cons (digit hp) (.cons (digit hq) (.cons (digit hr) (.cons (digit hs) List.not_mem_nil)))

/-- No way to write a character uses a line feed. -/
theorem isOneLine_of_spells {c : Char} {bytes : Bytes} (h : Spells c bytes) :
    IsOneLine bytes := by
  cases h with
  | plain h => exact fun hmem => (h 10 hmem).2.2 (by decide)
  | short h hc =>
    refine .cons (by decide) (.cons ?_ List.not_mem_nil)
    rintro rfl
    cases h
  | hex h => exact .cons (by decide) (.cons (by decide) (isOneLine_of_spellsCode h))
  | pair hfirst hsecond =>
    refine .cons (by decide) (.cons (by decide) ((isOneLine_of_spellsCode hfirst).append ?_))
    exact .cons (by decide) (.cons (by decide) (isOneLine_of_spellsCode hsecond))

/-- A quoted string stands on one line, for line feeds in it are escaped. -/
theorem isOneLine_quoted (s : String) : IsOneLine (quoted s) := by
  refine .cons (by decide) ?_
  induction s.toList with
  | nil => decide
  | cons c cs ih =>
    rw [quotedTail_cons]
    exact (isOneLine_of_spells (spells_writeChar c)).append ih

/-- An integer stands on one line. -/
theorem isOneLine_integerBytes (n : Int) : IsOneLine (integerBytes n) := by
  have hdecimal (m : Nat) : IsOneLine (decimal m) := fun hmem =>
    absurd (isDigit_of_mem_decimal hmem) (by decide)
  cases n with
  | ofNat n => exact hdecimal n
  | negSucc n => exact .cons (by decide) (hdecimal (n + 1))

/-- Entries that stand on one line each make one line together. -/
theorem isOneLine_entries {closing : Char} (hc : ascii closing ≠ 10) {texts : List Bytes}
    (h : ∀ text ∈ texts, IsOneLine text) (isFirst : Bool) :
    IsOneLine (entries closing isFirst texts) := by
  induction texts generalizing isFirst with
  | nil => exact .cons hc List.not_mem_nil
  | cons text texts ih =>
    have hothers := ih (fun t ht => h t (List.mem_cons_of_mem _ ht)) false
    refine .append ?_ ((h text List.mem_cons_self).append hothers)
    cases isFirst <;> decide

/-- A name in front of a text on one line leaves it on one line. -/
theorem IsOneLine.field {d : Datum} (h : IsOneLine d.bytes) (name : String) :
    IsOneLine (Datum.fieldBytes (name, d)) :=
  (isOneLine_quoted name).append (.cons (by decide) h)

/-- The text of a datum stands on one line. -/
theorem isOneLine_bytes {grammar : Grammar σ} {rule : Rule σ} {d : Datum}
    (h : Follows grammar rule d) : IsOneLine d.bytes := by
  induction h with
  | string s =>
    rw [Datum.bytes_string]
    exact isOneLine_quoted s
  | boolean b => cases b <;> decide
  | integer =>
    rw [Datum.bytes_integer]
    exact isOneLine_integerBytes _
  | list _ ih =>
    rw [Datum.bytes_list]
    exact .cons (by decide) (isOneLine_entries (by decide) (List.forall_mem_map.mpr ih) true)
  | record _ _ ih =>
    rw [Datum.bytes_record, List.map_map]
    refine .cons (by decide) (isOneLine_entries (by decide) ?_ true)
    exact List.forall_mem_map.mpr fun p hp => (ih p hp).field _
  | unit =>
    rw [Datum.bytes_unit]
    exact isOneLine_quoted _
  | variant _ _ _ ih =>
    rw [Datum.bytes_variant]
    exact .cons (by decide) (isOneLine_entries (by decide) (by simpa using ih.field _) true)

end Json

end ScoringMarkup
