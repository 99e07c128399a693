import ScoringMarkup.Proofs.Json.Nesting
import ScoringMarkup.Proofs.Json.RoundTrip
import ScoringMarkup.Proofs.Json.Skipping

/-!
# Spellings of a datum

A datum can be written in many ways: records as objects with their keys in any order and with keys
that name no field, or as lists; variants without a payload by their name or as an object; strings
with any escapes, names included; and blanks between all tokens. Whatever the way, the text is read
as the datum, as long as no more containers are open at once than may be. Containers of skipped
values do not count.
-/

namespace ScoringMarkup

namespace Json

variable {σ : Type}

/-- The ways to write a string with its quotes. -/
inductive Quotes (s : String) : Bytes → Prop
  | letters {letters : Bytes} (h : SpellsAll s.toList letters) :
    Quotes s (ascii '"' :: (letters ++ [ascii '"']))

/-- An entry of an object that is written for a record. -/
structure Member (σ : Type) where
  name : String
  key : Padded
  value : Padded
  /-- The field of that name with what is written for it; nothing where no field has the name. -/
  filled : Option (Field σ × Datum)

namespace Member

/-- The bytes of an entry. -/
def text (m : Member σ) : Bytes := m.key.text ++ ascii ':' :: m.value.text

/-- What is found at the entry. -/
def entry? (m : Member σ) : Option (String × Datum) := m.filled.map entryOf

end Member

/-- The texts that write a datum at a place of a rule, with at most `opened` containers open at
once, those of skipped values not counted. Doubles, and the places for an integer or null, are left
out. -/
inductive Writes (grammar : Grammar σ) : (opened : Nat) → Rule σ → Datum → Bytes → Prop
  | string {opened : Nat} {s : String} {text : Bytes} (h : Quotes s text) :
    Writes grammar opened .string (.string s) text
  | boolean {opened : Nat} (b : Bool) :
    Writes grammar opened .boolean (.boolean b) (Datum.boolean b).bytes
  | integer {opened : Nat} {range : IntegerRange} {n : Int}
    (hrange : range.least ≤ n ∧ n ≤ range.greatest) (hfits : FitsWord n) :
    Writes grammar opened (.integer range) (.integer n) (Datum.integer n).bytes
  | list {opened : Nat} {item : σ} {front : Bytes} {items : List (Datum × Padded)}
    (hfront : IsBlanks front) (h : ∀ p ∈ items, Writes grammar opened (grammar item) p.1 p.2.core) :
    Writes grammar (opened + 1) (.list item) (.list (items.map (·.1)))
      (ascii '[' :: (front ++ entries ']' true (items.map (·.2.text))))
  /-- A record as a list of its fields in order. -/
  | elements {opened : Nat} {title : String} {front : Bytes}
    {filled : List ((Field σ × Datum) × Padded)} (hfront : IsBlanks front)
    (h : ∀ p ∈ filled, Writes grammar opened (grammar p.1.1.symbol) p.1.2 p.2.core) :
    Writes grammar (opened + 1) (.record title (filled.map (·.1.1)))
      (.record (filled.map fun p => entryOf p.1))
      (ascii '[' :: (front ++ entries ']' true (filled.map (·.2.text))))
  /-- A record as an object, its fields in any order among others that are skipped. -/
  | members {opened : Nat} {title : String} {front : Bytes} {filled : List (Field σ × Datum)}
    {ms : List (Member σ)} (hfront : IsBlanks front) (hnames : (filled.map (·.1.name)).Nodup)
    (hfilled : (ms.filterMap (·.filled)).Perm filled) (hkey : ∀ m ∈ ms, Quotes m.name m.key.core)
    (hname : ∀ m ∈ ms, ∀ p, m.filled = some p → p.1.name = m.name)
    (h : ∀ m ∈ ms, ∀ p, m.filled = some p →
      Writes grammar opened (grammar p.1.symbol) p.2 m.value.core)
    (hother : ∀ m ∈ ms, m.filled = none → ∀ p ∈ filled, p.1.name ≠ m.name)
    (hskipped : ∀ m ∈ ms, m.filled = none → IsValue m.value.core) :
    Writes grammar (opened + 1) (.record title (filled.map (·.1))) (.record (filled.map entryOf))
      (ascii '\x7b' :: (front ++ entries '\x7d' true (ms.map Member.text)))
  /-- A variant without a payload by its name. -/
  | name {opened : Nat} {variants : List (Variant σ)} {v : Variant σ} {text : Bytes}
    (hfind : variants.find? (fun w => w.name == v.name) = some v) (hpayload : v.payload = .none)
    (h : Quotes v.name text) : Writes grammar opened (.choice variants) (.unit v.name) text
  /-- A variant without a payload as an object. -/
  | unit {opened : Nat} {variants : List (Variant σ)} {v : Variant σ} {key value : Padded}
    (hfind : variants.find? (fun w => w.name == v.name) = some v) (hpayload : v.payload = .none)
    (hkey : Quotes v.name key.core) (hvalue : value.core = "null".toList.map ascii) :
    Writes grammar (opened + 1) (.choice variants) (.unit v.name)
      (ascii '\x7b' :: (key.text ++ ascii ':' :: (value.text ++ [ascii '\x7d'])))
  | variant {opened : Nat} {variants : List (Variant σ)} {v : Variant σ} {symbol : σ} {d : Datum}
    {key value : Padded} (hfind : variants.find? (fun w => w.name == v.name) = some v)
    (hpayload : v.payload = .value symbol ∨ v.payload = .fields symbol)
    (hkey : Quotes v.name key.core) (h : Writes grammar opened (grammar symbol) d value.core) :
    Writes grammar (opened + 1) (.choice variants) (.variant v.name d)
      (ascii '\x7b' :: (key.text ++ ascii ':' :: (value.text ++ [ascii '\x7d'])))

/-- A string in any spelling begins with its quote and is read behind it. -/
theorem Quotes.exists_cons {s : String} {text : Bytes} (h : Quotes s text) :
    ∃ tail, text = ascii '"' :: tail ∧ ∀ rest, readString (tail ++ rest) = .ok (s, rest) := by
  obtain ⟨h⟩ := h
  refine ⟨_, rfl, fun rest => ?_⟩
  rw [List.append_assoc, List.singleton_append, readString_spelledAll h]

/-- Blanks in front of a value make no difference to what is read. -/
theorem readRule_skipBlanks (inside : Option (σ → Bytes → Except Failure (Datum × Bytes)))
    (rule : Rule σ) (input : Bytes) :
    readRule inside rule (skipBlanks input) = readRule inside rule input := by
  cases rule <;> simp only [readRule, readStringValue, readBoolean, readInteger, readNumberOr,
    readOptionalInteger, readDouble, skipBlanks_skipBlanks]

/-- A written datum begins at once, and not with a closing bracket. -/
theorem Writes.exists_cons {grammar : Grammar σ} {opened : Nat} {rule : Rule σ} {d : Datum}
    {text : Bytes} (h : Writes grammar opened rule d text) :
    ∃ b tail, text = b :: tail ∧ isBlank b = false ∧ b ≠ ascii ']' := by
  cases h with
  | string h | name hfind hpayload h =>
    obtain ⟨tail, rfl, -⟩ := h.exists_cons
    exact ⟨_, _, rfl, rfl, by decide⟩
  | boolean b =>
    have hfollows : Follows grammar .boolean (.boolean b) := .boolean b
    exact bytes_eq_cons hfollows
  | @integer _ range n hrange hfits =>
    have hfollows : Follows grammar (.integer range) (.integer n) := .integer hrange hfits
    exact bytes_eq_cons hfollows
  | list | elements | members | unit | variant => exact ⟨_, _, rfl, rfl, by decide⟩

/-! ## Lists of items and of elements -/

/-- A list ends at its bracket. -/
theorem nextItem_closing {blanks : Bytes} (h : IsBlanks blanks) (isFirst : Bool) (rest : Bytes) :
    nextItem isFirst (blanks ++ ascii ']' :: rest) = .ok (.closed rest) := by
  rw [nextItem, skipBlanks_append h]
  rfl

/-- The next item is found behind the comma, if there has to be one. -/
theorem nextItem_padded {blanks : Bytes} (h : IsBlanks blanks) (p : Padded)
    (hp : ∃ b tail, p.core = b :: tail ∧ isBlank b = false ∧ b ≠ ascii ']') (isFirst : Bool)
    (more : Bytes) :
    nextItem isFirst (blanks ++ (separator isFirst ++ (p.text ++ more))) =
      .ok (.entry (skipBlanks (p.text ++ more))) := by
  obtain ⟨b, tail, hcore, hblank, hb⟩ := hp
  have htext := p.skipBlanks_text hcore hblank more
  cases isFirst with
  | true =>
    rw [separator, if_pos rfl, List.nil_append, nextItem, skipBlanks_append h, htext]
    dsimp only
    rw [if_neg hb, if_pos rfl]
  | false =>
    rw [separator, if_neg (by decide), List.singleton_append, nextItem, skipBlanks_append h,
      skipBlanks_of_not_isBlank rfl]
    dsimp only
    rw [if_neg (by decide), if_neg (by decide), if_pos rfl, htext]
    dsimp only
    rw [if_neg hb]

/-- Whether a reader gives a datum from a text with blanks around it, wherever it may stand. -/
structure ReadsPadded (reader : Bytes → Except Failure (Datum × Bytes)) (d : Datum) (p : Padded) :
    Prop where
  exists_cons : ∃ b tail, p.core = b :: tail ∧ isBlank b = false ∧ b ≠ ascii ']'
  read : ∀ rest, EndsNumber rest → reader (p.text ++ rest) = .ok (d, p.behind ++ rest)
  skipBlanks : ∀ input, reader (skipBlanks input) = reader input

/-- The items of a list are read one by one. -/
theorem readItems_padded {reader : Bytes → Except Failure (Datum × Bytes)}
    {items : List (Datum × Padded)} (h : ∀ p ∈ items, ReadsPadded reader p.1 p.2) {blanks : Bytes}
    (hblanks : IsBlanks blanks) (done : List Datum) (rest : Bytes) {bound : Nat}
    (hb : (entries ']' done.isEmpty (items.map (·.2.text))).length ≤ bound) :
    readItems reader bound done
        (blanks ++ (entries ']' done.isEmpty (items.map (·.2.text)) ++ rest)) =
      .ok (done.reverse ++ items.map (·.1), rest) := by
  induction items generalizing blanks done bound with
  | nil =>
    obtain ⟨bound, rfl⟩ := Nat.exists_eq_add_of_le' (show 1 ≤ bound from hb)
    rw [List.map_nil, entries, List.singleton_append, readItems, nextItem_closing hblanks]
    simp
  | cons p items ih =>
    obtain ⟨hp, hitems⟩ := List.forall_mem_cons.mp h
    obtain ⟨b, tail, hcore, -⟩ := hp.exists_cons
    rw [List.map_cons, entries] at hb ⊢
    have hlength : (entries ']' false (items.map (·.2.text))).length < bound := by
      have htext : 0 < p.2.text.length := by
        rw [Padded.text, List.length_append, List.length_append, hcore, List.length_cons]
        omega
      rw [List.length_append, List.length_append] at hb
      omega
    obtain ⟨bound, rfl⟩ := Nat.exists_eq_add_of_le' (Nat.zero_lt_of_lt hlength)
    have hends : EndsNumber (entries ']' false (items.map (·.2.text)) ++ rest) :=
      endsNumber_entries (Or.inl rfl) _ rest
    have hothers := ih hitems p.2.isBlanks_behind (p.1 :: done) (Nat.le_of_lt_succ hlength)
    rw [List.append_assoc, List.append_assoc, readItems,
      nextItem_padded hblanks p.2 hp.exists_cons]
    dsimp only
    rw [hp.skipBlanks, hp.read _ hends]
    dsimp only
    rw [List.isEmpty_cons] at hothers
    rw [hothers, List.reverse_cons, List.append_assoc, List.map_cons, List.singleton_append]

/-- The elements of a record that is written as a list are read in the order of its fields. -/
theorem readElements_padded {reader : σ → Bytes → Except Failure (Datum × Bytes)}
    {filled : List ((Field σ × Datum) × Padded)}
    (h : ∀ p ∈ filled, ReadsPadded (reader p.1.1.symbol) p.1.2 p.2) {blanks : Bytes}
    (hblanks : IsBlanks blanks) (expected : String) (position : Nat) (rest : Bytes) :
    readElements reader expected position (filled.map (·.1.1))
        (blanks ++ (entries ']' (position == 0) (filled.map (·.2.text)) ++ rest)) =
      .ok (filled.map fun p => entryOf p.1, rest) := by
  induction filled generalizing blanks position with
  | nil =>
    have hclose : closeElements (blanks ++ ascii ']' :: rest) = .ok rest := by
      rw [closeElements, skipBlanks_append hblanks]
      rfl
    rw [List.map_nil, List.map_nil, entries, List.singleton_append, readElements, hclose]
    rfl
  | cons p filled ih =>
    obtain ⟨hp, hfilled⟩ := List.forall_mem_cons.mp h
    have hends : EndsNumber (entries ']' false (filled.map (·.2.text)) ++ rest) :=
      endsNumber_entries (Or.inl rfl) _ rest
    have hothers := ih hfilled p.2.isBlanks_behind (position + 1)
    rw [List.map_cons, List.map_cons, entries, List.append_assoc, List.append_assoc, readElements,
      nextItem_padded hblanks p.2 hp.exists_cons]
    simp only [Bind.bind, Except.bind]
    rw [hp.skipBlanks, hp.read _ hends]
    have hposition : (position + 1 == 0) = false := by simp
    rw [hposition] at hothers
    dsimp only
    rw [hothers]
    rfl

/-! ## Objects -/

/-- An object ends at its bracket. -/
theorem nextKey_closing {blanks : Bytes} (h : IsBlanks blanks) (isFirst : Bool) (rest : Bytes) :
    nextKey isFirst (blanks ++ ascii '\x7d' :: rest) = .ok (.closed rest) := by
  rw [nextKey, skipBlanks_append h]
  rfl

/-- The next key is found behind the comma, if there has to be one. -/
theorem nextKey_padded {blanks : Bytes} (h : IsBlanks blanks) (p : Padded) {tail : Bytes}
    (hcore : p.core = ascii '"' :: tail) (isFirst : Bool) (more : Bytes) :
    nextKey isFirst (blanks ++ (separator isFirst ++ (p.text ++ more))) =
      .ok (.entry (tail ++ (p.behind ++ more))) := by
  have htext := p.skipBlanks_text hcore rfl more
  cases isFirst with
  | true =>
    rw [separator, if_pos rfl, List.nil_append, nextKey, skipBlanks_append h, htext]
    rfl
  | false =>
    rw [separator, if_neg (by decide), List.singleton_append, nextKey, skipBlanks_append h,
      skipBlanks_of_not_isBlank rfl]
    dsimp only
    rw [if_neg (by decide), if_neg (by decide), if_pos rfl, htext]
    rfl

/-- Whether an entry is read as its field, or skipped if no field has its name. -/
inductive Member.IsRead (fields : List (Field σ))
    (reader : σ → Bytes → Except Failure (Datum × Bytes)) (m : Member σ) : Prop
  | field {field : Field σ} {d : Datum} (hfilled : m.filled = some (field, d))
    (hfind : fields.find? (fun f => f.name == m.name) = some field)
    (h : ReadsPadded (reader field.symbol) d m.value)
  | other (hfilled : m.filled = none) (hfind : fields.find? (fun f => f.name == m.name) = none)
    (h : IsValue m.value.core)

/-- One round of an object reads one entry: what is found there is kept, and a value of another
name is passed. -/
theorem readEntries_member {fields : List (Field σ)}
    {reader : σ → Bytes → Except Failure (Datum × Bytes)} {m : Member σ}
    (hkey : Quotes m.name m.key.core) (h : m.IsRead fields reader) {found : List (String × Datum)}
    (hfound : ∀ e ∈ m.entry?, found.lookup e.1 = none) {blanks : Bytes}
    (hblanks : IsBlanks blanks) (isFirst : Bool) (bound : Nat) {more : Bytes}
    (hmore : EndsNumber more) :
    readEntries reader fields (bound + 1) isFirst found
        (blanks ++ (separator isFirst ++ (m.text ++ more))) =
      readEntries reader fields bound false (m.entry?.toList ++ found)
        (m.value.behind ++ more) := by
  obtain ⟨tail, hcore, hread⟩ := hkey.exists_cons
  have hcolon := readColon_blanks m.key.isBlanks_behind (m.value.text ++ more)
  rw [Member.text, List.append_assoc, List.cons_append, readEntries,
    nextKey_padded hblanks m.key hcore]
  simp only [Bind.bind, Except.bind, hread]
  cases h with
  | @field field d hfilled hfind h =>
    have hentry : m.entry? = some (m.name, d) := by
      have hname : field.name = m.name := beq_iff_eq.mp (List.find?_some hfind :)
      rw [Member.entry?, hfilled, Option.map_some, entryOf, hname]
    simp only [hfind, hfound _ hentry, Option.isSome_none, Bool.false_eq_true, if_false, hcolon,
      h.read more hmore, hentry]
    rfl
  | other hfilled hfind h =>
    simp only [hfind, hcolon, skipValue_padded m.value h hmore, Member.entry?, hfilled]
    rfl

/-- The entries of an object are read one by one. -/
theorem readEntries_members {fields : List (Field σ)}
    {reader : σ → Bytes → Except Failure (Datum × Bytes)} {ms : List (Member σ)}
    (hkey : ∀ m ∈ ms, Quotes m.name m.key.core) (h : ∀ m ∈ ms, m.IsRead fields reader)
    (hnames : ((ms.filterMap Member.entry?).map (·.1)).Nodup) {found : List (String × Datum)}
    (hfound : ∀ e ∈ ms.filterMap Member.entry?, found.lookup e.1 = none) {blanks : Bytes}
    (hblanks : IsBlanks blanks) (isFirst : Bool) (rest : Bytes) {bound : Nat}
    (hb : (entries '\x7d' isFirst (ms.map Member.text)).length ≤ bound) :
    readEntries reader fields bound isFirst found
        (blanks ++ (entries '\x7d' isFirst (ms.map Member.text) ++ rest)) =
      .ok ((ms.filterMap Member.entry?).reverse ++ found, rest) := by
  induction ms generalizing isFirst found blanks bound with
  | nil =>
    obtain ⟨bound, rfl⟩ := Nat.exists_eq_add_of_le' (show 1 ≤ bound from hb)
    rw [List.map_nil, entries, List.singleton_append, readEntries, nextKey_closing hblanks]
    rfl
  | cons m ms ih =>
    obtain ⟨hkey, hkeys⟩ := List.forall_mem_cons.mp hkey
    obtain ⟨hm, hms⟩ := List.forall_mem_cons.mp h
    have hlength : (entries '\x7d' false (ms.map Member.text)).length < bound := by
      rw [List.map_cons, entries, List.length_append, List.length_append, Member.text,
        List.length_append, List.length_cons] at hb
      omega
    obtain ⟨bound, rfl⟩ := Nat.exists_eq_add_of_le' (Nat.zero_lt_of_lt hlength)
    have hends : EndsNumber (entries '\x7d' false (ms.map Member.text) ++ rest) :=
      endsNumber_entries (Or.inr rfl) _ rest
    rw [List.map_cons, entries, List.append_assoc, List.append_assoc]
    cases hentry : m.entry? with
    | none =>
      rw [List.filterMap_cons_none hentry] at hnames hfound ⊢
      rw [readEntries_member hkey hm (by simp [hentry]) hblanks isFirst bound hends, hentry]
      exact ih hkeys hms hnames hfound m.value.isBlanks_behind false (Nat.le_of_lt_succ hlength)
    | some e =>
      rw [List.filterMap_cons_some hentry] at hnames hfound ⊢
      obtain ⟨hnew, hnames⟩ := List.nodup_cons.mp hnames
      obtain ⟨he, hfound⟩ := List.forall_mem_cons.mp hfound
      -- No name comes twice, so the entry just read hides none of the names still to come.
      have hnext : ∀ other ∈ ms.filterMap Member.entry?, (e :: found).lookup other.1 = none := by
        intro other hother
        have hne : other.1 ≠ e.1 := fun heq =>
          hnew (List.mem_map.mpr ⟨other, hother, heq⟩)
        rw [List.lookup_cons, beq_eq_false_iff_ne.mpr hne]
        exact hfound other hother
      have hothers := ih hkeys hms hnames hnext m.value.isBlanks_behind false
        (Nat.le_of_lt_succ hlength)
      rw [readEntries_member hkey hm (by simpa [hentry] using he) hblanks isFirst bound
        hends, hentry, Option.toList_some, List.singleton_append, hothers, List.reverse_cons,
        List.append_assoc, List.singleton_append]

/-- The object of a variant holds its payload and ends. -/
theorem readVariantObject_padded {reader : σ → Bytes → Except Failure (Datum × Bytes)}
    {variants : List (Variant σ)} {v : Variant σ} {key value : Padded} {d : Datum}
    (hfind : variants.find? (fun w => w.name == v.name) = some v) (hkey : Quotes v.name key.core)
    (h : ∀ rest, EndsNumber rest →
      readPayload reader v (value.text ++ rest) = .ok (d, value.behind ++ rest)) (rest : Bytes) :
    readVariantObject reader variants
        (key.text ++ ascii ':' :: (value.text ++ ascii '\x7d' :: rest)) = .ok (d, rest) := by
  obtain ⟨tail, hcore, hread⟩ := hkey.exists_cons
  have hpayload := h (ascii '\x7d' :: rest) ⟨rfl, by decide⟩
  have hcolon := readColon_blanks key.isBlanks_behind (value.text ++ ascii '\x7d' :: rest)
  rw [readVariantObject, key.skipBlanks_text hcore rfl]
  dsimp only
  rw [if_pos rfl, hread]
  simp only [Bind.bind, Except.bind, findVariant_eq hfind, hcolon, hpayload,
    skipBlanks_append value.isBlanks_behind]
  rfl

/-! ## Whole values -/

/-- What is read without blanks around it is read with them. -/
theorem readsPadded_read {grammar : Grammar σ} {symbol : σ} {d : Datum} {p : Padded} {opened : Nat}
    (h : Writes grammar opened (grammar symbol) d p.core) {room : Nat}
    (hread : ∀ rest, EndsNumber rest →
      readRule (inside grammar room) (grammar symbol) (p.core ++ rest) = .ok (d, rest)) :
    ReadsPadded (read grammar room symbol) d p := by
  refine ⟨h.exists_cons, fun rest hrest => ?_, fun input => ?_⟩
  · obtain ⟨b, tail, hcore, hb, -⟩ := h.exists_cons
    have hinside := hread (p.behind ++ rest) (.append p.isBlanks_behind hrest)
    rw [read_eq, ← readRule_skipBlanks, p.skipBlanks_text hcore hb]
    rwa [hcore] at hinside
  · rw [read_eq, read_eq, readRule_skipBlanks]

/-- The contents of an object are the fields of its record, whatever other entries it has. -/
theorem readRecord_members {reader : σ → Bytes → Except Failure (Datum × Bytes)}
    {filled : List (Field σ × Datum)} {ms : List (Member σ)} {front : Bytes}
    (hfront : IsBlanks front) (hnames : (filled.map (·.1.name)).Nodup)
    (hfilled : (ms.filterMap (·.filled)).Perm filled) (hkey : ∀ m ∈ ms, Quotes m.name m.key.core)
    (h : ∀ m ∈ ms, m.IsRead (filled.map (·.1)) reader) (rest : Bytes) {bound : Nat}
    (hb : (entries '\x7d' true (ms.map Member.text)).length ≤ bound) :
    ((readEntries reader (filled.map (·.1)) bound true []
        (front ++ (entries '\x7d' true (ms.map Member.text) ++ rest))).bind
      fun p => (collectFields p.1 p.2 (filled.map (·.1))).bind fun values =>
        .ok (Datum.record values, p.2)) = .ok (.record (filled.map entryOf), rest) := by
  have hentries : (ms.filterMap Member.entry?).Perm (filled.map entryOf) := by
    have hmap := hfilled.map entryOf
    rwa [List.map_filterMap] at hmap
  have hnodup : ((ms.filterMap Member.entry?).map (·.1)).Nodup := by
    refine (hentries.map (·.1)).nodup_iff.mpr ?_
    rwa [List.map_map]
  have hlookup : ∀ p ∈ filled, (ms.filterMap Member.entry?).reverse.lookup p.1.name = some p.2 := by
    intro p hp
    refine lookup_of_nodup (p := entryOf p) ?_ ?_
    · rwa [List.map_reverse, List.nodup_reverse]
    · exact List.mem_reverse.mpr (hentries.mem_iff.mpr (List.mem_map_of_mem hp))
  rw [readEntries_members hkey h hnodup (fun _ _ => rfl) hfront true rest hb, List.append_nil]
  dsimp only [Except.bind]
  rw [collectFields_filled hlookup]

/-! ### Behind an opening bracket -/

section Opening

variable {grammar : Grammar σ} {k : Nat} (input : Bytes)

/-- A list is read behind its bracket. -/
theorem readRule_list (item : σ) :
    readRule (inside grammar (k + 1)) (.list item) (ascii '[' :: input) =
      placing leaveList ((readItems (read grammar k item) input.length [] input).bind fun p =>
        .ok (.list p.1, p.2)) := rfl

/-- A record in brackets is read as the list of its fields. -/
theorem readRule_elements (title : String) (fields : List (Field σ)) :
    readRule (inside grammar (k + 1)) (.record title fields) (ascii '[' :: input) =
      placing leaveList ((readElements (read grammar k)
        (title ++ " with " ++ elementCount fields.length) 0 fields input).bind fun p =>
          .ok (.record p.1, p.2)) := rfl

/-- A record in braces is read entry by entry, and its fields are then collected. -/
theorem readRule_members (title : String) (fields : List (Field σ)) :
    readRule (inside grammar (k + 1)) (.record title fields) (ascii '\x7b' :: input) =
      placing leaveObject ((readEntries (read grammar k) fields input.length true [] input).bind
        fun p => (collectFields p.1 p.2 fields).bind fun values => .ok (.record values, p.2)) := rfl

/-- A variant in braces is read as the object of one entry. -/
theorem readRule_variant (variants : List (Variant σ)) :
    readRule (inside grammar (k + 1)) (.choice variants) (ascii '\x7b' :: input) =
      readVariantObject (read grammar k) variants input := rfl

end Opening

private theorem length_le_append (text front rest : Bytes) :
    text.length ≤ (front ++ (text ++ rest)).length := by
  rw [List.length_append, List.length_append]
  omega

/-- However a datum is written, it is read, behind any blanks and with any text behind it that
cannot belong to it. -/
theorem readRule_writes {grammar : Grammar σ} {opened : Nat} {rule : Rule σ} {d : Datum}
    {text : Bytes} (h : Writes grammar opened rule d text) {room : Nat} (hroom : opened ≤ room)
    {rest : Bytes} (hrest : EndsNumber rest) :
    readRule (inside grammar room) rule (text ++ rest) = .ok (d, rest) := by
  -- What stands in a container is written with one container less, and read with one less to open.
  induction h generalizing room rest with
  | string h =>
    obtain ⟨tail, rfl, hread⟩ := h.exists_cons
    rw [List.cons_append, readRule, readStringValue, skipBlanks_of_not_isBlank rfl]
    dsimp only
    rw [if_pos rfl, hread]
    rfl
  | boolean b => cases b <;> rfl
  | integer hrange hfits =>
    rw [Datum.bytes_integer]
    exact readInteger_integerBytes hfits hrange hrest
  | @list opened item front items hfront h ih =>
    obtain ⟨k, rfl⟩ := Nat.exists_eq_add_one_of_ne_zero (Nat.ne_zero_of_lt hroom)
    have hitems : ∀ p ∈ items, ReadsPadded (read grammar k item) p.1 p.2 := fun p hp =>
      readsPadded_read (h p hp) fun rest hrest => ih p hp (Nat.le_of_succ_le_succ hroom) hrest
    have hread := readItems_padded hitems hfront [] rest (length_le_append _ front rest)
    rw [List.isEmpty_nil] at hread
    rw [List.cons_append, List.append_assoc, readRule_list, hread]
    rfl
  | @elements opened title front filled hfront h ih =>
    obtain ⟨k, rfl⟩ := Nat.exists_eq_add_one_of_ne_zero (Nat.ne_zero_of_lt hroom)
    have hfilled : ∀ p ∈ filled, ReadsPadded (read grammar k p.1.1.symbol) p.1.2 p.2 := fun p hp =>
      readsPadded_read (h p hp) fun rest hrest => ih p hp (Nat.le_of_succ_le_succ hroom) hrest
    have hread := readElements_padded hfilled hfront
      (title ++ " with " ++ elementCount (filled.map (·.1.1)).length) 0 rest
    rw [List.cons_append, List.append_assoc, readRule_elements]
    exact congrArg (fun x => placing leaveList (Except.bind x _)) hread
  | @members opened title front filled ms hfront hnames hfilled hkey hname h hother hskipped ih =>
    obtain ⟨k, rfl⟩ := Nat.exists_eq_add_one_of_ne_zero (Nat.ne_zero_of_lt hroom)
    have hfields : ((filled.map (·.1)).map (·.name)).Nodup := by
      rwa [List.map_map]
    have hms : ∀ m ∈ ms, m.IsRead (filled.map (·.1)) (read grammar k) := by
      intro m hm
      cases hp : m.filled with
      | none =>
        -- No field has the name of this entry, so the reader skips it.
        refine .other hp (List.find?_eq_none.mpr ?_) (hskipped m hm hp)
        simpa using hother m hm hp
      | some p =>
        have hmem : p ∈ filled := hfilled.mem_iff.mp (List.mem_filterMap.mpr ⟨m, hm, hp⟩)
        have hfind := find?_of_nodup hfields (List.mem_map_of_mem (f := (·.1)) hmem)
        rw [hname m hm p hp] at hfind
        exact .field hp hfind (readsPadded_read (h m hm p hp) fun rest hrest =>
          ih m hm p hp (Nat.le_of_succ_le_succ hroom) hrest)
    rw [List.cons_append, List.append_assoc, readRule_members]
    exact congrArg (placing leaveObject)
      (readRecord_members hfront hnames hfilled hkey hms rest (length_le_append _ front rest))
  | name hfind hpayload h =>
    obtain ⟨tail, rfl, hread⟩ := h.exists_cons
    rw [List.cons_append, readRule, skipBlanks_of_not_isBlank rfl]
    dsimp only
    rw [if_pos rfl, readBareVariant, hread]
    simp only [Bind.bind, Except.bind, findVariant_eq hfind, hpayload]
    rfl
  | @unit opened variants v key value hfind hpayload hkey hvalue =>
    obtain ⟨k, rfl⟩ := Nat.exists_eq_add_one_of_ne_zero (Nat.ne_zero_of_lt hroom)
    have hnull (rest : Bytes) (_ : EndsNumber rest) :
        readPayload (read grammar k) v (value.text ++ rest) =
          .ok (.unit v.name, value.behind ++ rest) := by
      rw [readPayload, hpayload]
      dsimp only
      rw [readUnit, value.skipBlanks_text hvalue rfl]
      rfl
    rw [List.cons_append, List.append_assoc, List.cons_append, List.append_assoc, readRule_variant]
    exact readVariantObject_padded hfind hkey hnull rest
  | @variant opened variants v symbol d key value hfind hpayload hkey h ih =>
    obtain ⟨k, rfl⟩ := Nat.exists_eq_add_one_of_ne_zero (Nat.ne_zero_of_lt hroom)
    have hvalue := readsPadded_read h fun rest hrest => ih (Nat.le_of_succ_le_succ hroom) hrest
    have hread (rest : Bytes) (hrest : EndsNumber rest) :
        readPayload (read grammar k) v (value.text ++ rest) =
          .ok (.variant v.name d, value.behind ++ rest) := by
      rw [readPayload_eq hpayload, hvalue.read rest hrest]
      rfl
    rw [List.cons_append, List.append_assoc, List.cons_append, List.append_assoc, readRule_variant]
    exact readVariantObject_padded hfind hkey hread rest

/-- A whole document is read, however its datum is written and whatever blanks are around it. -/
theorem readDocument_writes {grammar : Grammar σ} {symbol : σ} {opened : Nat} {d : Datum}
    {p : Padded} (h : Writes grammar opened (grammar symbol) d p.core)
    (hopened : opened ≤ containerLimit) : readDocument grammar symbol p.text = .ok d := by
  have hpadded := readsPadded_read h fun rest hrest => readRule_writes h hopened hrest
  have hread := hpadded.read [] trivial
  rw [List.append_nil, List.append_nil] at hread
  have hend := skipBlanks_append p.isBlanks_behind []
  rw [List.append_nil] at hend
  rw [readDocument, hread]
  simp only [Bind.bind, Except.bind, hend]
  rfl

/-! ## The compact spelling -/

/-- A text without blanks around it. -/
def Padded.bare (core : Bytes) : Padded := ⟨[], core, [], isBlanks_nil, isBlanks_nil⟩

/-- A text without blanks is the text itself. -/
@[simp] theorem Padded.text_bare (core : Bytes) : (Padded.bare core).text = core :=
  List.append_nil core

/-- A field as the member of that name, without blanks. -/
def Member.bare (p : Field σ × Datum) : Member σ :=
  ⟨p.1.name, .bare (quoted p.1.name), .bare p.2.bytes, some p⟩

/-- The member of a field has the bytes of that field. -/
@[simp] theorem Member.text_bare (p : Field σ × Datum) :
    (Member.bare p).text = Datum.fieldBytes (entryOf p) := by
  simp [bare, text, Datum.fieldBytes, entryOf]

@[simp] theorem Member.filled_bare (p : Field σ × Datum) : (Member.bare p).filled = some p := rfl

/-- The writer quotes in one of the ways to write a string. -/
theorem quotes_quoted (s : String) : Quotes s (quoted s) := .letters (spellsAll_writeChar s.toList)

/-- A variant is written by its quoted name and its payload, without blanks between them. -/
theorem writes_variant {grammar : Grammar σ} {opened : Nat} {variants : List (Variant σ)}
    {v : Variant σ} {symbol : σ} {d : Datum} {text : Bytes}
    (hfind : variants.find? (fun w => w.name == v.name) = some v)
    (hpayload : v.payload = .value symbol ∨ v.payload = .fields symbol)
    (h : Writes grammar opened (grammar symbol) d text) :
    Writes grammar (opened + 1) (.choice variants) (.variant v.name d)
      (ascii '\x7b' :: (quoted v.name ++ ascii ':' :: (text ++ [ascii '\x7d']))) := by
  have hwrites : Writes grammar (opened + 1) (.choice variants) (.variant v.name d)
      (ascii '\x7b' :: ((Padded.bare (quoted v.name)).text ++
        ascii ':' :: ((Padded.bare text).text ++ [ascii '\x7d']))) :=
    .variant hfind hpayload (quotes_quoted v.name) h
  simpa using hwrites

/-- The compact text is one of the ways to write a datum, with as many containers open at once as
stand inside one another. -/
theorem writes_bytes {grammar : Grammar σ} {rule : Rule σ} {d : Datum} (h : Follows grammar rule d)
    {opened : Nat} (hopened : d.nesting ≤ opened) : Writes grammar opened rule d d.bytes := by
  induction h generalizing opened with
  | string s =>
    rw [Datum.bytes_string]
    exact .string (quotes_quoted s)
  | boolean b => exact .boolean b
  | integer hrange hfits => exact .integer hrange hfits
  | unit hfind hpayload =>
    rw [Datum.bytes_unit]
    exact .name hfind hpayload (quotes_quoted _)
  | @list item items hf ih =>
    rw [Datum.nesting, Nat.add_comm] at hopened
    obtain ⟨k, rfl⟩ := Nat.exists_eq_add_one_of_ne_zero (Nat.ne_zero_of_lt hopened)
    have hk := Nat.le_of_succ_le_succ hopened
    have hitems : ∀ p ∈ items.map fun d => (d, Padded.bare d.bytes),
        Writes grammar k (grammar item) p.1 p.2.core := List.forall_mem_map.mpr fun d hd =>
      ih d hd (Nat.le_trans (Datum.nesting_le_itemsNesting hd) hk)
    simpa [Datum.bytes_list, Function.comp_def] using Writes.list isBlanks_nil hitems
  | @record title filled hnames hf ih =>
    rw [Datum.nesting, Nat.add_comm] at hopened
    obtain ⟨k, rfl⟩ := Nat.exists_eq_add_one_of_ne_zero (Nat.ne_zero_of_lt hopened)
    have hk := Nat.le_of_succ_le_succ hopened
    have hfilled : (filled.map Member.bare).filterMap (·.filled) = filled := by
      simp [List.filterMap_map, Function.comp_def]
    have hwrites : Writes grammar (k + 1) (.record title (filled.map (·.1)))
        (.record (filled.map entryOf)) (ascii '\x7b' ::
          ([] ++ entries '\x7d' true ((filled.map Member.bare).map Member.text))) := by
      refine .members isBlanks_nil hnames (.of_eq hfilled) ?_ ?_ ?_ ?_ ?_
      all_goals refine List.forall_mem_map.mpr fun p hp => ?_
      · exact quotes_quoted p.1.name
      · simp [Member.bare]
      · rintro _ ⟨⟩
        exact ih p hp (Nat.le_trans
          (Datum.nesting_le_fieldsNesting (List.mem_map_of_mem (f := entryOf) hp)) hk)
      · simp
      · simp
    rw [Datum.bytes_record]
    change Writes grammar (k + 1) _ (.record (filled.map entryOf)) _
    simpa [Function.comp_def, entryOf] using hwrites
  | @variant variants v symbol d hfind hpayload hf ih =>
    rw [Datum.nesting, Nat.add_comm] at hopened
    obtain ⟨k, rfl⟩ := Nat.exists_eq_add_one_of_ne_zero (Nat.ne_zero_of_lt hopened)
    have hwrites := writes_variant hfind hpayload (ih (Nat.le_of_succ_le_succ hopened))
    simpa [Datum.bytes_variant, Datum.fieldBytes, entries, separator] using hwrites

end Json

end ScoringMarkup
