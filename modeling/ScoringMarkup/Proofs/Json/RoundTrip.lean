import Mathlib.Data.List.Nodup
import ScoringMarkup.Proofs.Json.Compact

/-!
# Reading compact documents

The compact text of a datum that follows a rule is read back as that datum, or the reading stops
behind the bracket that opens one container more than may be open. Which of the two it is, and
at which bracket, is told by the scan of the text alone; no other failure is possible.
-/

namespace ScoringMarkup

namespace Json

variable {σ : Type} {α β : Type} {limit o : Nat}

/-- What comes of reading a text with `o` containers open in front of it: its result, or the
failure behind the bracket that opens more than `limit`. -/
def verdict (limit o : Nat) (text : Bytes) (a : α) (rest : Bytes) : Except Failure (α × Bytes) :=
  match beyond limit ⟨o, .outside⟩ text with
  | none => .ok (a, rest)
  | some behind => stop .tooDeep (behind ++ rest)

/-- A text that opens nothing is accepted. -/
theorem verdict_of_leadsTo {text : Bytes} (h : LeadsTo .outside .outside text) (ho : o ≤ limit)
    (a : α) (rest : Bytes) : verdict limit o text a rest = .ok (a, rest) := by
  rw [verdict, h.beyond_eq o limit ho]

/-- A text that opens nothing has no part in the verdict. -/
theorem verdict_append_of_leadsTo {text : Bytes} (h : LeadsTo .outside .outside text)
    (ho : o ≤ limit) (more : Bytes) (a : α) (rest : Bytes) :
    verdict limit o (text ++ more) a rest = verdict limit o more a rest := by
  rw [verdict, beyond_append, h.beyond_eq o limit ho, h.run_eq]
  rfl

/-- A balanced text is read first, and what follows it only where the limit is kept. -/
theorem verdict_append {text : Bytes} (h : IsBalanced text) (more : Bytes) (a : α) (b : β)
    (rest : Bytes) :
    verdict limit o (text ++ more) a rest =
      (verdict limit o text b (more ++ rest)).bind fun _ => verdict limit o more a rest := by
  rw [verdict, verdict, beyond_append, h]
  cases beyond limit ⟨o, .outside⟩ text with
  | none => rfl
  | some behind =>
    change stop .tooDeep ((behind ++ more) ++ rest) = stop .tooDeep (behind ++ (more ++ rest))
    rw [List.append_assoc]

/-- What follows a verdict needs to be known at its result alone. -/
theorem verdict_bind_congr {text : Bytes} {a : α} {rest : Bytes}
    {f g : α × Bytes → Except Failure β} (h : f (a, rest) = g (a, rest)) :
    (verdict limit o text a rest).bind f = (verdict limit o text a rest).bind g := by
  unfold verdict
  cases beyond limit ⟨o, .outside⟩ text with
  | none => exact h
  | some behind => rfl

/-- What is made of the result is made of the verdict. -/
theorem verdict_bind_eq {text : Bytes} {a : α} {b : β} {rest : Bytes}
    {f : α × Bytes → Except Failure (β × Bytes)} (h : f (a, rest) = .ok (b, rest)) :
    (verdict limit o text a rest).bind f = verdict limit o text b rest := by
  unfold verdict
  cases beyond limit ⟨o, .outside⟩ text with
  | none => exact h
  | some behind => rfl

/-- A closing bracket is accepted. -/
theorem verdict_closing {closing : Char} (hc : closing = ']' ∨ closing = '\x7d')
    (ho : o ≤ limit) (a : α) (rest : Bytes) :
    verdict limit o [ascii closing] a rest = .ok (a, rest) := by
  have hstep : (Scan.step ⟨o, .outside⟩ (ascii closing)).opened ≤ limit := by
    rcases hc with rfl | rfl <;> exact Nat.le_trans (Nat.sub_le o 1) ho
  rw [verdict, beyond, if_neg (Nat.not_lt.mpr hstep)]
  rfl

/-- What reads the values inside a container, if one may be opened. -/
def inside (grammar : Grammar σ) :
    (containers : Nat) → Option (σ → Bytes → Except Failure (Datum × Bytes))
  | 0 => none
  | containers + 1 => some (read grammar containers)

/-- A document of a symbol is read by the rule of the symbol. -/
theorem read_eq (grammar : Grammar σ) (containers : Nat) (symbol : σ) (input : Bytes) :
    read grammar containers symbol input =
      readRule (inside grammar containers) (grammar symbol) input := by
  cases containers <;> rfl

/-- What a limit comes to has its place already. -/
theorem placing_verdict (leave : Bytes → Bytes) (limit : Nat) (text : Bytes) (a : α)
    (rest : Bytes) : placing leave (verdict limit o text a rest) = verdict limit o text a rest := by
  unfold verdict
  cases beyond limit ⟨o, .outside⟩ text with
  | none => rfl
  | some behind => rfl

/-- A container is entered unless its bracket is the one beyond the limit. -/
theorem entering_inside {grammar : Grammar σ} {room : Nat} {b : UInt8}
    (hb : Scan.step ⟨o, .outside⟩ b = ⟨o + 1, .outside⟩) {text rest : Bytes} {a : α}
    {contents : (σ → Bytes → Except Failure (Datum × Bytes)) → Except Failure (α × Bytes)}
    (h : ∀ k, room = k + 1 →
      contents (read grammar k) = verdict (o + room) (o + 1) text a rest) :
    entering (inside grammar room) (text ++ rest) contents =
      verdict (o + room) o (b :: text) a rest := by
  rw [verdict, beyond, hb]
  cases room with
  | zero =>
    change stop .tooDeep (text ++ rest) = _
    rw [if_pos (Nat.lt_succ_self (o + 0))]
  | succ k =>
    rw [if_neg (by dsimp only; omega)]
    exact h k rfl

/-- Whether a reader gives a datum back from its text, wherever a value may end. -/
def ReadsBack (limit o : Nat) (reader : Bytes → Except Failure (Datum × Bytes)) (d : Datum) :
    Prop :=
  ∀ rest, EndsValue rest → reader (d.bytes ++ rest) = verdict limit o d.bytes d rest

/-- Behind an entry of a container there is a comma or the closing bracket. -/
theorem endsValue_entries {closing : Char} (hc : closing = ']' ∨ closing = '\x7d')
    (texts : List Bytes) (rest : Bytes) : EndsValue (entries closing false texts ++ rest) := by
  cases texts with
  | nil =>
    rcases hc with rfl | rfl
    · exact Or.inr (Or.inl rfl)
    · exact Or.inr (Or.inr rfl)
  | cons text texts => exact Or.inl rfl

/-- The next item is found behind the comma, if there has to be one. -/
theorem nextItem_separator {text : Bytes}
    (h : ∃ b tail, text = b :: tail ∧ isBlank b = false ∧ b ≠ ascii ']') (isFirst : Bool)
    (more : Bytes) :
    nextItem isFirst (separator isFirst ++ (text ++ more)) = .ok (.entry (text ++ more)) := by
  obtain ⟨b, tail, rfl, hblank, hb⟩ := h
  cases isFirst with
  | true =>
    rw [separator, if_pos rfl, List.nil_append, List.cons_append, nextItem,
      skipBlanks_of_not_isBlank hblank]
    dsimp only
    rw [if_neg hb, if_pos rfl]
  | false =>
    rw [separator, if_neg (by decide), List.singleton_append, nextItem,
      skipBlanks_of_not_isBlank rfl]
    dsimp only
    rw [if_neg (by decide), if_neg (by decide), if_pos rfl, List.cons_append,
      skipBlanks_of_not_isBlank hblank]
    dsimp only
    rw [if_neg hb]

/-- The next key is found behind the comma, if there has to be one. -/
theorem nextKey_separator (name : String) (isFirst : Bool) (more : Bytes) :
    nextKey isFirst (separator isFirst ++ (quoted name ++ more)) =
      .ok (.entry (quotedTail name.toList ++ more)) := by
  cases isFirst <;> rfl

/-- One round of a list reads one item. -/
theorem readItems_step {item : Bytes → Except Failure (Datum × Bytes)} {text : Bytes}
    (h : ∃ b tail, text = b :: tail ∧ isBlank b = false ∧ b ≠ ascii ']') (bound : Nat)
    (done : List Datum) (more : Bytes) :
    readItems item (bound + 1) done (separator done.isEmpty ++ (text ++ more)) =
      (item (text ++ more)).bind fun p => readItems item bound (p.1 :: done) p.2 := by
  rw [readItems, nextItem_separator h]
  dsimp only
  cases item (text ++ more) <;> rfl

/-- The items of a list are read one by one, up to the bracket beyond the limit. -/
theorem readItems_entries {grammar : Grammar σ} {rule : Rule σ}
    {item : Bytes → Except Failure (Datum × Bytes)} (ho : o ≤ limit) {items : List Datum}
    (hf : ∀ d ∈ items, Follows grammar rule d) (hr : ∀ d ∈ items, ReadsBack limit o item d)
    (done : List Datum) (rest : Bytes) {bound : Nat}
    (hb : (entries ']' done.isEmpty (items.map Datum.bytes) ++ rest).length ≤ bound) :
    readItems item bound done (entries ']' done.isEmpty (items.map Datum.bytes) ++ rest) =
      verdict limit o (entries ']' done.isEmpty (items.map Datum.bytes)) (done.reverse ++ items)
        rest := by
  induction items generalizing done bound with
  | nil =>
    obtain ⟨bound, rfl⟩ := Nat.exists_eq_add_of_le' (Nat.le_trans (Nat.le_add_left 1 _) hb)
    rw [List.map_nil, entries, verdict_closing (Or.inl rfl) ho, List.append_nil]
    rfl
  | cons d items ih =>
    have hd := hf d List.mem_cons_self
    have hread := hr d List.mem_cons_self _
      (endsValue_entries (Or.inl rfl) (items.map Datum.bytes) rest)
    rw [List.map_cons, entries, List.append_assoc, List.append_assoc] at hb ⊢
    have hlen : (entries ']' false (items.map Datum.bytes) ++ rest).length < bound := by
      obtain ⟨b, tail, heq, -⟩ := bytes_eq_cons hd
      rw [heq] at hb
      simp only [List.length_append, List.length_cons] at hb ⊢
      omega
    obtain ⟨bound, rfl⟩ := Nat.exists_eq_add_of_le' (Nat.zero_lt_of_lt hlen)
    rw [verdict_append_of_leadsTo (leadsTo_separator _) ho,
      verdict_append (b := d) (isBalanced_bytes hd), readItems_step (bytes_eq_cons hd), hread]
    -- Behind an item that opens no container too many, the others are read by induction.
    refine verdict_bind_congr ?_
    have hothers := ih (fun x hx => hf x (List.mem_cons_of_mem _ hx))
      (fun x hx => hr x (List.mem_cons_of_mem _ hx)) (d :: done) (Nat.le_of_lt_succ hlen)
    rwa [List.reverse_cons, List.append_assoc] at hothers

/-- Where no two elements share a key, an element is the first one with its key. -/
theorem split_of_nodup {γ κ : Type} {key : γ → κ} {l : List γ} (h : (l.map key).Nodup) {x : γ}
    (hx : x ∈ l) : ∃ before after, l = before ++ x :: after ∧ ∀ y ∈ before, key y ≠ key x := by
  obtain ⟨before, after, rfl⟩ := List.append_of_mem hx
  refine ⟨before, after, rfl, fun y hy heq => ?_⟩
  rw [List.map_append, List.map_cons, List.nodup_append] at h
  exact h.2.2 _ (List.mem_map_of_mem hy) _ List.mem_cons_self heq

/-- Where all names differ, a field is found under its name. -/
theorem find?_of_nodup {fields : List (Field σ)} (h : (fields.map (·.name)).Nodup)
    {field : Field σ} (hf : field ∈ fields) :
    fields.find? (fun f => f.name == field.name) = some field := by
  obtain ⟨before, after, heq, hne⟩ := split_of_nodup h hf
  refine List.find?_eq_some_iff_append.mpr ⟨beq_self_eq_true _, before, after, heq, ?_⟩
  intro other hother
  rw [Bool.not_eq_true', beq_eq_false_iff_ne]
  exact hne other hother

/-- Where all names differ, a value is found under its name. -/
theorem lookup_of_nodup {found : List (String × Datum)} (h : (found.map (·.1)).Nodup)
    {p : String × Datum} (hp : p ∈ found) : found.lookup p.1 = some p.2 := by
  obtain ⟨before, after, heq, hne⟩ := split_of_nodup h hp
  refine List.lookup_eq_some_iff.mpr ⟨before, after, heq, ?_⟩
  intro other hother
  rw [bne_iff_ne]
  exact (hne other hother).symm

/-- The name and the value of a filled field. -/
def entryOf (p : Field σ × Datum) : String × Datum := (p.1.name, p.2)

/-- One round of an object reads one entry whose key names a field not found so far. -/
theorem readEntries_step {fields : List (Field σ)}
    {reader : σ → Bytes → Except Failure (Datum × Bytes)} {field : Field σ} {name : String}
    (hfind : fields.find? (fun f => f.name == name) = some field)
    {found : List (String × Datum)} (hfound : found.lookup name = none) (isFirst : Bool)
    (bound : Nat) (d : Datum) (more : Bytes) :
    readEntries reader fields (bound + 1) isFirst found
        (separator isFirst ++ (Datum.fieldBytes (name, d) ++ more)) =
      (reader field.symbol (d.bytes ++ more)).bind fun p =>
        readEntries reader fields bound false ((name, p.1) :: found) p.2 := by
  rw [Datum.fieldBytes, List.append_assoc, List.cons_append, readEntries, nextKey_separator]
  simp only [Bind.bind, Except.bind, readString_quotedTail, hfind, hfound]
  rfl

/-- The text of a field counts as that of its value. -/
theorem verdict_fieldBytes {d : Datum} (h : IsBalanced d.bytes) (ho : o ≤ limit) (name : String)
    (more : Bytes) (a : α) (rest : Bytes) :
    verdict limit o (Datum.fieldBytes (name, d) ++ more) a rest =
      (verdict limit o d.bytes d (more ++ rest)).bind fun _ => verdict limit o more a rest := by
  rw [Datum.fieldBytes, List.append_assoc, verdict_append_of_leadsTo (.quoted name) ho,
    List.cons_append, ← List.singleton_append,
    verdict_append_of_leadsTo (.byte fun _ => rfl) ho, verdict_append h]

/-- The entries of an object are read one by one, up to the bracket beyond the limit. -/
theorem readEntries_entries {grammar : Grammar σ} {fields : List (Field σ)}
    {reader : σ → Bytes → Except Failure (Datum × Bytes)} (ho : o ≤ limit)
    {filled : List (Field σ × Datum)} (hnames : (filled.map (·.1.name)).Nodup)
    (hfind : ∀ p ∈ filled, fields.find? (fun f => f.name == p.1.name) = some p.1)
    (hf : ∀ p ∈ filled, Follows grammar (grammar p.1.symbol) p.2)
    (hr : ∀ p ∈ filled, ReadsBack limit o (reader p.1.symbol) p.2) (isFirst : Bool)
    {found : List (String × Datum)} (hfound : ∀ p ∈ filled, found.lookup p.1.name = none)
    (rest : Bytes) {bound : Nat}
    (hb : (entries '\x7d' isFirst (filled.map fun p => Datum.fieldBytes (entryOf p))
      ++ rest).length ≤ bound) :
    readEntries reader fields bound isFirst found
        (entries '\x7d' isFirst (filled.map fun p => Datum.fieldBytes (entryOf p)) ++ rest) =
      verdict limit o (entries '\x7d' isFirst (filled.map fun p => Datum.fieldBytes (entryOf p)))
        ((filled.map entryOf).reverse ++ found) rest := by
  induction filled generalizing isFirst found bound with
  | nil =>
    obtain ⟨bound, rfl⟩ := Nat.exists_eq_add_of_le' (Nat.le_trans (Nat.le_add_left 1 _) hb)
    rw [List.map_nil, entries, verdict_closing (Or.inr rfl) ho]
    rfl
  | cons p filled ih =>
    have hbal := isBalanced_bytes (hf p List.mem_cons_self)
    have hcurly : '\x7d' = ']' ∨ '\x7d' = '\x7d' := Or.inr rfl
    have hread := hr p List.mem_cons_self _
      (endsValue_entries hcurly (filled.map fun p => Datum.fieldBytes (entryOf p)) rest)
    rw [List.map_cons, entries, List.append_assoc, List.append_assoc] at hb ⊢
    have hlen : (entries '\x7d' false (filled.map fun p => Datum.fieldBytes (entryOf p))
        ++ rest).length < bound := by
      simp only [Datum.fieldBytes, List.length_append, List.length_cons] at hb ⊢
      omega
    obtain ⟨bound, rfl⟩ := Nat.exists_eq_add_of_le' (Nat.zero_lt_of_lt hlen)
    -- No name comes twice, so the entry just read hides none of the names still to come.
    obtain ⟨hnew, hnames⟩ := List.nodup_cons.mp hnames
    have hnext : ∀ q ∈ filled, ((entryOf p) :: found).lookup q.1.name = none := by
      intro q hq
      have hne : q.1.name ≠ p.1.name := fun heq => hnew (List.mem_map.mpr ⟨q, hq, heq⟩)
      rw [List.lookup_cons, entryOf, beq_eq_false_iff_ne.mpr hne]
      exact hfound q (List.mem_cons_of_mem _ hq)
    rw [verdict_append_of_leadsTo (leadsTo_separator _) ho, entryOf,
      verdict_fieldBytes hbal ho, readEntries_step (hfind p List.mem_cons_self)
      (hfound p List.mem_cons_self), hread]
    refine verdict_bind_congr ?_
    have hothers := ih hnames (fun q hq => hfind q (List.mem_cons_of_mem _ hq))
      (fun q hq => hf q (List.mem_cons_of_mem _ hq))
      (fun q hq => hr q (List.mem_cons_of_mem _ hq)) false hnext (Nat.le_of_lt_succ hlen)
    rw [List.map_cons, List.reverse_cons, List.append_assoc]
    exact hothers

/-- Fields that have all been found are collected in order. -/
theorem collectFields_filled {filled : List (Field σ × Datum)} {found : List (String × Datum)}
    (h : ∀ p ∈ filled, found.lookup p.1.name = some p.2) (rest : Bytes) :
    collectFields found rest (filled.map (·.1)) = .ok (filled.map entryOf) := by
  induction filled with
  | nil => rfl
  | cons p filled ih =>
    rw [List.map_cons, collectFields, h p List.mem_cons_self, Option.some_or]
    dsimp only
    rw [ih fun q hq => h q (List.mem_cons_of_mem _ hq)]
    rfl

/-- The contents of an object are the fields of the record, up to the bracket beyond the limit. -/
theorem readRecord_entries {grammar : Grammar σ}
    {reader : σ → Bytes → Except Failure (Datum × Bytes)} (ho : o ≤ limit)
    {filled : List (Field σ × Datum)} (hnames : (filled.map (·.1.name)).Nodup)
    (hf : ∀ p ∈ filled, Follows grammar (grammar p.1.symbol) p.2)
    (hr : ∀ p ∈ filled, ReadsBack limit o (reader p.1.symbol) p.2) (rest : Bytes) {bound : Nat}
    (hb : (entries '\x7d' true (filled.map fun p => Datum.fieldBytes (entryOf p))
      ++ rest).length ≤ bound) :
    ((readEntries reader (filled.map (·.1)) bound true []
        (entries '\x7d' true (filled.map fun p => Datum.fieldBytes (entryOf p)) ++ rest)).bind
      fun p => (collectFields p.1 p.2 (filled.map (·.1))).bind fun values =>
        .ok (Datum.record values, p.2)) =
      verdict limit o (entries '\x7d' true (filled.map fun p => Datum.fieldBytes (entryOf p)))
        (Datum.record (filled.map entryOf)) rest := by
  have hfields : ((filled.map (·.1)).map (·.name)).Nodup := by
    rwa [List.map_map]
  have hfind : ∀ p ∈ filled,
      (filled.map (·.1)).find? (fun f => f.name == p.1.name) = some p.1 :=
    fun p hp => find?_of_nodup hfields (List.mem_map_of_mem hp)
  have hfound : (((filled.map entryOf).reverse).map (·.1)).Nodup := by
    rw [List.map_reverse, List.nodup_reverse, List.map_map]
    exact hnames
  have hlookup : ∀ p ∈ filled, (filled.map entryOf).reverse.lookup p.1.name = some p.2 :=
    fun p hp => lookup_of_nodup hfound (List.mem_reverse.mpr (List.mem_map_of_mem hp))
  rw [readEntries_entries ho hnames hfind hf hr true (fun _ _ => rfl) rest hb, List.append_nil]
  refine verdict_bind_eq ?_
  dsimp only
  rw [collectFields_filled hlookup]
  rfl

/-- A variant is found by its name. -/
theorem findVariant_eq {variants : List (Variant σ)} {v : Variant σ}
    (h : variants.find? (fun w => w.name == v.name) = some v) (rest : Bytes) :
    findVariant variants v.name rest = .ok v := by
  rw [findVariant, h]

/-- A bare variant is read back from its name. -/
theorem readBareVariant_quotedTail {variants : List (Variant σ)} {v : Variant σ}
    (hfind : variants.find? (fun w => w.name == v.name) = some v) (hpayload : v.payload = .none)
    (rest : Bytes) :
    readBareVariant variants (quotedTail v.name.toList ++ rest) = .ok (.unit v.name, rest) := by
  rw [readBareVariant, readString_quotedTail]
  simp only [Bind.bind, Except.bind, findVariant_eq hfind, hpayload]
  rfl

/-- The payload of a variant is read by the rule of its symbol. -/
theorem readPayload_eq {reader : σ → Bytes → Except Failure (Datum × Bytes)} {v : Variant σ}
    {symbol : σ} (h : v.payload = .value symbol ∨ v.payload = .fields symbol) (input : Bytes) :
    readPayload reader v input =
      (reader symbol input).bind fun p => .ok (.variant v.name p.1, p.2) := by
  rcases h with h | h
  · rw [readPayload, h]
    rfl
  · rw [readPayload, h]
    rfl

/-- Behind its bracket, the object of a variant holds the payload and ends. -/
theorem readVariantObject_field {reader : σ → Bytes → Except Failure (Datum × Bytes)}
    {variants : List (Variant σ)} {v : Variant σ} {symbol : σ}
    (hfind : variants.find? (fun w => w.name == v.name) = some v)
    (hpayload : v.payload = .value symbol ∨ v.payload = .fields symbol) (d : Datum)
    (more : Bytes) :
    readVariantObject reader variants (Datum.fieldBytes (v.name, d) ++ more) =
      (reader symbol (d.bytes ++ more)).bind fun p =>
        match skipBlanks p.2 with
        | [] => stop .endInObject []
        | c :: rest =>
          if c = ascii '\x7d' then .ok (.variant v.name p.1, rest)
          else stop .expectedValue rest := by
  rw [Datum.fieldBytes, quoted, List.append_assoc, List.cons_append, List.cons_append,
    readVariantObject, skipBlanks_of_not_isBlank rfl]
  dsimp only
  have hcolon (input : Bytes) : readColon (ascii ':' :: input) = .ok input := rfl
  rw [if_pos rfl, readString_quotedTail]
  simp only [Bind.bind, Except.bind, findVariant_eq hfind, hcolon, readPayload_eq hpayload]
  cases reader symbol (d.bytes ++ more) <;> rfl

/-- The contents of the object of a variant are its payload, up to the bracket beyond the
limit. -/
theorem readVariantObject_entries {grammar : Grammar σ}
    {reader : σ → Bytes → Except Failure (Datum × Bytes)} (ho : o ≤ limit)
    {variants : List (Variant σ)} {v : Variant σ} {symbol : σ} {d : Datum}
    (hfind : variants.find? (fun w => w.name == v.name) = some v)
    (hpayload : v.payload = .value symbol ∨ v.payload = .fields symbol)
    (hf : Follows grammar (grammar symbol) d) (hr : ReadsBack limit o (reader symbol) d)
    (rest : Bytes) :
    readVariantObject reader variants
        (entries '\x7d' true [Datum.fieldBytes (v.name, d)] ++ rest) =
      verdict limit o (entries '\x7d' true [Datum.fieldBytes (v.name, d)])
        (.variant v.name d) rest := by
  have hread := hr (ascii '\x7d' :: rest) (Or.inr (Or.inr rfl))
  rw [entries, entries, verdict_append_of_leadsTo (leadsTo_separator true) ho,
    verdict_fieldBytes (isBalanced_bytes hf) ho, verdict_closing (Or.inr rfl) ho, separator,
    if_pos rfl, List.nil_append, List.append_assoc, List.singleton_append,
    readVariantObject_field hfind hpayload, hread]
  exact verdict_bind_congr rfl

/-- A value inside a container has one place less to open containers in. -/
theorem readsBack_read {grammar : Grammar σ} {symbol : σ} {d : Datum}
    (h : ∀ o room, ReadsBack (o + room) o (readRule (inside grammar room) (grammar symbol)) d)
    (o k : Nat) : ReadsBack (o + (k + 1)) (o + 1) (read grammar k symbol) d := by
  intro rest hrest
  rw [read_eq, Nat.add_comm k, ← Nat.add_assoc]
  exact h (o + 1) k rest hrest

/-- The compact text of a datum that follows a rule is read back, up to the bracket beyond the
limit; `room` containers may be opened behind the `o` that are open. -/
theorem readRule_bytes {grammar : Grammar σ} {rule : Rule σ} {d : Datum}
    (h : Follows grammar rule d) (o room : Nat) :
    ReadsBack (o + room) o (readRule (inside grammar room) rule) d := by
  -- Behind a bracket one container more is open and one less may be opened, so the limit, which
  -- is the sum of both, is the same for all values of the datum.
  induction h generalizing o room with
  | string s =>
    intro rest _
    rw [Datum.bytes_string, verdict_of_leadsTo (.quoted s) (Nat.le_add_right o room), quoted,
      List.cons_append, readRule, readStringValue, skipBlanks_of_not_isBlank rfl]
    dsimp only
    rw [if_pos rfl, readString_quotedTail]
    rfl
  | boolean b =>
    intro rest _
    rw [verdict_of_leadsTo (leadsTo_boolean b) (Nat.le_add_right o room)]
    cases b <;> rfl
  | integer hrange hfits =>
    intro rest hrest
    rw [Datum.bytes_integer, verdict_of_leadsTo (.integerBytes _) (Nat.le_add_right o room)]
    exact readInteger_integerBytes hfits hrange hrest.endsNumber
  | @list item items hf ih =>
    intro rest hrest
    rw [Datum.bytes_list, List.cons_append, readRule, skipBlanks_of_not_isBlank rfl]
    dsimp only
    rw [if_pos rfl, ← placing_verdict leaveList]
    refine congrArg (placing leaveList) (entering_inside rfl fun k hk => ?_)
    subst hk
    have hr : ∀ d ∈ items, ReadsBack (o + (k + 1)) (o + 1) (read grammar k item) d :=
      fun d hd => readsBack_read (ih d hd) o k
    have hread := readItems_entries (by omega) hf hr [] rest (Nat.le_refl _)
    rw [List.isEmpty_nil] at hread
    rw [hread]
    exact verdict_bind_eq rfl
  | @record title filled hnames hf ih =>
    intro rest hrest
    rw [Datum.bytes_record, List.map_map, List.cons_append, readRule,
      skipBlanks_of_not_isBlank rfl]
    dsimp only
    rw [if_neg (by decide), if_pos rfl, ← placing_verdict leaveObject]
    refine congrArg (placing leaveObject) (entering_inside rfl fun k hk => ?_)
    subst hk
    have hr : ∀ p ∈ filled,
        ReadsBack (o + (k + 1)) (o + 1) (read grammar k p.1.symbol) p.2 :=
      fun p hp => readsBack_read (ih p hp) o k
    exact readRecord_entries (by omega) hnames hf hr rest (Nat.le_refl _)
  | @unit variants v hfind hpayload =>
    intro rest _
    rw [Datum.bytes_unit, verdict_of_leadsTo (.quoted v.name) (Nat.le_add_right o room), quoted,
      List.cons_append, readRule, skipBlanks_of_not_isBlank rfl]
    dsimp only
    rw [if_pos rfl, readBareVariant_quotedTail hfind hpayload]
  | @variant variants v symbol d hfind hpayload hf ih =>
    intro rest _
    rw [Datum.bytes_variant, List.cons_append, readRule, skipBlanks_of_not_isBlank rfl]
    dsimp only
    rw [if_neg (by decide), if_pos rfl]
    refine entering_inside rfl fun k hk => ?_
    subst hk
    exact readVariantObject_entries (by omega) hfind hpayload hf (readsBack_read ih o k) rest

/-- A whole document is read back, up to the bracket beyond the limit. -/
theorem readDocument_bytes {grammar : Grammar σ} {symbol : σ} {d : Datum}
    (h : Follows grammar (grammar symbol) d) :
    readDocument grammar symbol d.bytes =
      match beyond containerLimit ⟨0, .outside⟩ d.bytes with
      | none => .ok d
      | some behind => stop .tooDeep behind := by
  have hread := readRule_bytes h 0 containerLimit [] trivial
  rw [List.append_nil, Nat.zero_add, ← read_eq] at hread
  rw [readDocument, hread, verdict]
  cases beyond containerLimit ⟨0, .outside⟩ d.bytes with
  | none => rfl
  | some behind =>
    change stop .tooDeep (behind ++ []) = stop .tooDeep behind
    rw [List.append_nil]

end Json

end ScoringMarkup
