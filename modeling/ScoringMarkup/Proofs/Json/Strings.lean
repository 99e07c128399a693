import Mathlib.Data.List.Basic
import ScoringMarkup.Json.Strings
import ScoringMarkup.Json.Writer

/-!
# Written strings

A written string is read back as it was, whatever its characters and however each of them is
written: by its own bytes, by an escape letter, by its code in four hexadecimal digits or by the
codes of a surrogate pair. The writer chooses one of the ways for each character, and the ways
bound the bytes that may stand between the quotes.
-/

namespace ScoringMarkup

namespace Json

/-- The bytes of characters. -/
def utf8 (cs : List Char) : Bytes := cs.flatMap String.utf8EncodeChar

@[simp] theorem utf8_nil : utf8 [] = [] := rfl

@[simp] theorem utf8_cons (c : Char) (cs : List Char) :
    utf8 (c :: cs) = String.utf8EncodeChar c ++ utf8 cs := rfl

@[simp] theorem utf8_append (cs ds : List Char) : utf8 (cs ++ ds) = utf8 cs ++ utf8 ds :=
  List.flatMap_append

/-- The bytes of a text stand for that text. -/
theorem decodeUtf8?_utf8 (s : String) : decodeUtf8? (utf8 s.toList) = some s := by
  have h : (utf8 s.toList).toByteArray = s.toByteArray := by
    rw [← String.utf8Encode_toList, List.utf8Encode, utf8]
  rw [decodeUtf8?, h, String.fromUTF8?, dif_pos s.isValidUTF8]
  rfl

/-- In ASCII a character is one byte. -/
theorem utf8EncodeChar_of_lt {c : Char} (h : c.toNat < 0x80) :
    String.utf8EncodeChar c = [ascii c] := by
  have hle : c.val.toNat ≤ 0x7f := Nat.le_of_lt_succ h
  unfold String.utf8EncodeChar
  simp only [hle, if_true]
  rfl

/-- Outside ASCII every byte of a character has its high bit set. -/
theorem le_of_mem_utf8EncodeChar {c : Char} (h : 0x80 ≤ c.toNat) {b : UInt8}
    (hb : b ∈ String.utf8EncodeChar c) : 0x80 ≤ b := by
  have hc : ¬ c.val.toNat ≤ 0x7f := Nat.not_le.mpr h
  unfold String.utf8EncodeChar at hb
  simp only [hc, if_false] at hb
  rw [UInt8.le_iff_toNat_le]
  split at hb
  · simp only [List.mem_cons, List.not_mem_nil, or_false] at hb
    rcases hb with rfl | rfl <;> simp <;> omega
  · split at hb
    · simp only [List.mem_cons, List.not_mem_nil, or_false] at hb
      rcases hb with rfl | rfl | rfl <;> simp <;> omega
    · simp only [List.mem_cons, List.not_mem_nil, or_false] at hb
      rcases hb with rfl | rfl | rfl | rfl <;> simp <;> omega

/-- The byte of a character in ASCII is its code. -/
theorem toNat_ascii {c : Char} (h : c.toNat < 0x80) : (ascii c).toNat = c.toNat := by
  change c.val.toUInt8.toNat = c.toNat
  rw [UInt32.toNat_toUInt8]
  exact Nat.mod_eq_of_lt (Nat.lt_trans h (by decide))

/-- In ASCII different characters are different bytes. -/
theorem ascii_inj {c d : Char} (hc : c.toNat < 0x80) (hd : d.toNat < 0x80) :
    ascii c = ascii d ↔ c = d := by
  rw [← UInt8.toNat_inj, toNat_ascii hc, toNat_ascii hd, Char.toNat_inj]

/-- Whether a byte stands for itself inside a string. -/
def IsPlain (b : UInt8) : Prop := b ≠ ascii '"' ∧ b ≠ ascii '\\' ∧ ¬ b < 0x20

/-- A number in four hexadecimal digits. -/
inductive SpellsCode : Nat → Bytes → Prop
  | digits {p q r s : UInt8} {i j k l : Nat} (hp : hexValue? p = some i)
    (hq : hexValue? q = some j) (hr : hexValue? r = some k) (hs : hexValue? s = some l) :
    SpellsCode (((i * 16 + j) * 16 + k) * 16 + l) [p, q, r, s]

/-- The ways to write a character inside a string. -/
inductive Spells : Char → Bytes → Prop
  /-- By its own bytes. -/
  | plain {c : Char} (h : ∀ b ∈ String.utf8EncodeChar c, IsPlain b) :
    Spells c (String.utf8EncodeChar c)
  /-- By an escape letter. -/
  | short {c : Char} {l b : UInt8} (h : shortEscape? l = some b)
    (hc : String.utf8EncodeChar c = [b]) : Spells c [ascii '\\', l]
  /-- By its code. -/
  | hex {c : Char} {code : Bytes} (h : SpellsCode c.toNat code) :
    Spells c (ascii '\\' :: ascii 'u' :: code)
  /-- By the codes of a surrogate pair. -/
  | pair {c : Char} {leading trailing : Nat} {first second : Bytes}
    (hfirst : SpellsCode leading first) (hsecond : SpellsCode trailing second)
    (hleading : isLeadingSurrogate leading = true) (htrailing : isTrailingSurrogate trailing = true)
    (hc : pairCodePoint leading trailing = c.toNat) :
    Spells c (ascii '\\' :: ascii 'u' :: (first ++ ascii '\\' :: ascii 'u' :: second))

/-- A hexadecimal digit has the value it is written for. -/
theorem hexValue?_digitChar : ∀ n < 16, hexValue? (ascii (Nat.digitChar n)) = some n := by
  decide

/-- Hexadecimal digits lie in ASCII. -/
theorem digitChar_lt : ∀ n < 16, (Nat.digitChar n).toNat < 0x80 := by decide

/-- A character that is neither a control character nor escaped has plain bytes only. -/
theorem isPlain_of_mem_utf8EncodeChar {c : Char} (hq : c ≠ '"') (hs : c ≠ '\\')
    (hc : ¬ c.toNat < 0x20) {b : UInt8} (hb : b ∈ String.utf8EncodeChar c) : IsPlain b := by
  by_cases hlt : c.toNat < 0x80
  · rw [utf8EncodeChar_of_lt hlt, List.mem_singleton] at hb
    subst hb
    rw [IsPlain, Ne, Ne, ascii_inj hlt (by decide), ascii_inj hlt (by decide),
      UInt8.lt_iff_toNat_lt, toNat_ascii hlt]
    exact ⟨hq, hs, hc⟩
  · have hle := le_of_mem_utf8EncodeChar (Nat.le_of_not_lt hlt) hb
    rw [UInt8.le_iff_toNat_le] at hle
    refine ⟨?_, ?_, ?_⟩
    · rintro rfl
      exact absurd hle (by decide)
    · rintro rfl
      exact absurd hle (by decide)
    · rw [UInt8.lt_iff_toNat_lt]
      exact Nat.not_lt.mpr (Nat.le_trans (by decide) hle)

/-- The writer writes every character in one of these ways. -/
theorem spells_writeChar (c : Char) : Spells c (utf8 (writeChar c)) := by
  unfold writeChar
  split_ifs with hmark hb hf hn hr ht hcontrol
  · rcases hmark with rfl | rfl
    · exact .short (l := ascii '"') rfl rfl
    · exact .short (l := ascii '\\') rfl rfl
  · subst hb
    exact .short (l := ascii 'b') rfl rfl
  · subst hf
    exact .short (l := ascii 'f') rfl rfl
  · subst hn
    exact .short (l := ascii 'n') rfl rfl
  · subst hr
    exact .short (l := ascii 'r') rfl rfl
  · subst ht
    exact .short (l := ascii 't') rfl rfl
  · -- Any other control character is written by its code.
    have hhigh := hexValue?_digitChar (c.toNat / 16) (by omega)
    have hlow := hexValue?_digitChar (c.toNat % 16) (by omega)
    have hzero : hexValue? (ascii '0') = some 0 := rfl
    have hcode := SpellsCode.digits hzero hzero hhigh hlow
    have hc : ((0 * 16 + 0) * 16 + c.toNat / 16) * 16 + c.toNat % 16 = c.toNat := by omega
    rw [hc] at hcode
    simp only [utf8_cons, utf8_nil, utf8EncodeChar_of_lt (digitChar_lt (c.toNat / 16) (by omega)),
      utf8EncodeChar_of_lt (digitChar_lt (c.toNat % 16) (by omega))]
    exact .hex hcode
  · rw [utf8_cons, utf8_nil, List.append_nil]
    exact .plain fun b hb => isPlain_of_mem_utf8EncodeChar (fun hq => hmark (Or.inl hq))
      (fun hs => hmark (Or.inr hs)) hcontrol hb

/-- Plain bytes are kept, one a round. -/
theorem readStringFrom_plain {bytes : Bytes} (h : ∀ b ∈ bytes, IsPlain b) (bound : Nat)
    (done tail : Bytes) :
    readStringFrom (bytes.length + bound) done (bytes ++ tail) =
      readStringFrom bound (bytes.reverse ++ done) tail := by
  induction bytes generalizing done with
  | nil => simp
  | cons b bytes ih =>
    obtain ⟨hq, hs, hc⟩ := h b List.mem_cons_self
    rw [List.length_cons, Nat.add_right_comm, List.cons_append, readStringFrom, if_neg hq,
      if_neg hs, if_neg hc, ih fun x hx => h x (List.mem_cons_of_mem _ hx)]
    simp

/-- An escape letter stands for its byte. -/
theorem readEscape_short {letter byte : UInt8} (h : shortEscape? letter = some byte)
    (tail : Bytes) : readEscape (letter :: tail) = .ok ([byte], tail) := by
  have hu : letter ≠ ascii 'u' := by
    rintro rfl
    cases h
  rw [readEscape, if_neg hu, h]

/-- A code takes four digits. -/
theorem SpellsCode.length_eq {n : Nat} {code : Bytes} (h : SpellsCode n code) :
    code.length = 4 := by
  cases h
  rfl

/-- A code is read back. -/
theorem readHex_code {n : Nat} {code : Bytes} (h : SpellsCode n code) (tail : Bytes) :
    readHex (code ++ tail) = .ok (n, tail) := by
  cases h with
  | digits hp hq hr hs => simp only [List.cons_append, List.nil_append, readHex, hp, hq, hr, hs]

/-- A code in four digits is the character itself, since no character is a surrogate. -/
theorem readEscape_hex {c : Char} {code : Bytes} (h : SpellsCode c.toNat code) (tail : Bytes) :
    readEscape (ascii 'u' :: (code ++ tail)) = .ok (String.utf8EncodeChar c, tail) := by
  have hv : c.toNat < 0xd800 ∨ 0xdfff < c.toNat ∧ c.toNat < 0x110000 := c.valid
  have ht : isTrailingSurrogate c.toNat = false := by
    simp only [isTrailingSurrogate, decide_eq_false_iff_not]
    omega
  have hl : isLeadingSurrogate c.toNat = false := by
    simp only [isLeadingSurrogate, decide_eq_false_iff_not]
    omega
  rw [readEscape, if_pos rfl, readCodePoint, readHex_code h]
  simp [ht, hl, Bind.bind, Except.bind, Pure.pure, Except.pure]

/-- The codes of a pair are taken together. -/
theorem readEscape_pair {c : Char} {leading trailing : Nat} {first second : Bytes}
    (hfirst : SpellsCode leading first) (hsecond : SpellsCode trailing second)
    (hleading : isLeadingSurrogate leading = true) (htrailing : isTrailingSurrogate trailing = true)
    (hc : pairCodePoint leading trailing = c.toNat) (tail : Bytes) :
    readEscape (ascii 'u' :: (first ++ ascii '\\' :: ascii 'u' :: (second ++ tail))) =
      .ok (String.utf8EncodeChar c, tail) := by
  have hnot : isTrailingSurrogate leading = false := by
    simp only [isLeadingSurrogate, decide_eq_true_eq] at hleading
    simp only [isTrailingSurrogate, decide_eq_false_iff_not]
    omega
  have hmark (mark : Char) (rest : Bytes) : readPairMark mark (ascii mark :: rest) = .ok rest := by
    rw [readPairMark, if_pos rfl]
  rw [readEscape, if_pos rfl, readCodePoint, readHex_code hfirst]
  simp only [Bind.bind, Except.bind, hnot, hleading, hmark, readHex_code hsecond, htrailing, hc,
    Char.ofNat_toNat]
  rfl

/-- An escape is taken in one round. -/
theorem readStringFrom_escape {rest rest' bytes : Bytes}
    (h : readEscape rest = .ok (bytes, rest')) (bound : Nat) (done : Bytes) :
    readStringFrom (bound + 1) done (ascii '\\' :: rest) =
      readStringFrom bound (bytes.reverse ++ done) rest' := by
  rw [readStringFrom, if_neg (by decide), if_pos rfl, h]

/-- However a character is written, its own bytes are added to those read so far. -/
theorem readStringFrom_spelled {c : Char} {bytes : Bytes} (h : Spells c bytes)
    (done tail : Bytes) {bound : Nat} (hb : (bytes ++ tail).length ≤ bound) :
    ∃ bound', tail.length ≤ bound' ∧ readStringFrom bound done (bytes ++ tail) =
      readStringFrom bound' ((String.utf8EncodeChar c).reverse ++ done) tail := by
  -- An escape of any length is one round, so some of the bound is left over.
  have escaped {rest : Bytes} (hread : readEscape rest = .ok (String.utf8EncodeChar c, tail))
      (hlength : tail.length ≤ rest.length) (hb : (ascii '\\' :: rest).length ≤ bound) :
      ∃ bound', tail.length ≤ bound' ∧ readStringFrom bound done (ascii '\\' :: rest) =
        readStringFrom bound' ((String.utf8EncodeChar c).reverse ++ done) tail := by
    obtain ⟨bound', rfl⟩ := Nat.exists_eq_add_of_le' (Nat.le_trans (Nat.le_add_left 1 _) hb)
    exact ⟨bound', Nat.le_trans hlength (Nat.le_of_succ_le_succ hb),
      readStringFrom_escape hread bound' done⟩
  cases h with
  | plain h =>
    rw [List.length_append] at hb
    obtain ⟨bound', rfl⟩ := Nat.exists_eq_add_of_le (Nat.le_of_add_right_le hb)
    exact ⟨bound', by omega, readStringFrom_plain h bound' done tail⟩
  | short h hc =>
    have hread := readEscape_short h tail
    rw [← hc] at hread
    exact escaped hread (Nat.le_succ _) hb
  | hex h => exact escaped (readEscape_hex h tail) (by simp [h.length_eq]; omega) hb
  | pair hfirst hsecond hleading htrailing hc =>
    rw [List.cons_append, List.cons_append, List.append_assoc, List.cons_append, List.cons_append]
      at hb ⊢
    exact escaped (readEscape_pair hfirst hsecond hleading htrailing hc tail)
      (by simp; omega) hb

/-- The ways to write the characters of a text one after the other. -/
inductive SpellsAll : List Char → Bytes → Prop
  | nil : SpellsAll [] []
  | cons {c : Char} {cs : List Char} {bytes more : Bytes} (h : Spells c bytes)
    (hs : SpellsAll cs more) : SpellsAll (c :: cs) (bytes ++ more)

/-- Behind the characters already read, the remaining ones are read to the closing quote. -/
theorem readStringFrom_spelledAll {cs : List Char} {bytes : Bytes} (h : SpellsAll cs bytes)
    (done : List Char) (rest : Bytes) {bound : Nat}
    (hb : (bytes ++ ascii '"' :: rest).length ≤ bound) :
    readStringFrom bound (utf8 done).reverse (bytes ++ ascii '"' :: rest) =
      .ok (String.ofList (done ++ cs), rest) := by
  induction h generalizing done bound with
  | nil =>
    obtain ⟨bound, rfl⟩ := Nat.exists_eq_add_of_le' (Nat.le_trans (Nat.le_add_left 1 _) hb)
    have htext := decodeUtf8?_utf8 (String.ofList done)
    rw [String.toList_ofList] at htext
    rw [List.nil_append, readStringFrom, if_pos rfl, List.reverse_reverse, htext, List.append_nil]
  | @cons c cs bytes more h hs ih =>
    rw [List.append_assoc] at hb ⊢
    obtain ⟨bound', hb', hread⟩ := readStringFrom_spelled h (utf8 done).reverse _ hb
    have hdone : (String.utf8EncodeChar c).reverse ++ (utf8 done).reverse =
        (utf8 (done ++ [c])).reverse := by simp
    rw [hread, hdone, ih (done ++ [c]) hb', List.append_assoc, List.singleton_append]

/-- A string is read behind its opening quote, up to its closing one. -/
theorem readString_spelledAll {s : String} {bytes : Bytes} (h : SpellsAll s.toList bytes)
    (rest : Bytes) : readString (bytes ++ ascii '"' :: rest) = .ok (s, rest) := by
  have hread := readStringFrom_spelledAll h [] rest (Nat.le_refl _)
  rwa [List.nil_append, String.ofList_toList] at hread

/-- The characters between the quotes, and the closing quote. -/
def quotedTail (cs : List Char) : Bytes := cs.flatMap (fun c => utf8 (writeChar c)) ++ [ascii '"']

/-- The way a character is written does not depend on what follows it. -/
theorem quotedTail_cons (c : Char) (cs : List Char) :
    quotedTail (c :: cs) = utf8 (writeChar c) ++ quotedTail cs := by
  rw [quotedTail, List.flatMap_cons, List.append_assoc, quotedTail]

/-- The bytes of a written string. -/
def quoted (s : String) : Bytes := ascii '"' :: quotedTail s.toList

/-- The text of a string, and the bytes of that text. -/
theorem utf8_writeString (s : String) : utf8 (writeString s).toList = quoted s := by
  rw [writeString, String.toList_ofList, quoted, quotedTail, utf8_append, utf8_cons]
  simp only [utf8, List.flatMap_assoc]
  rfl

/-- The writer writes every text in one of these ways. -/
theorem spellsAll_writeChar (cs : List Char) :
    SpellsAll cs (cs.flatMap fun c => utf8 (writeChar c)) := by
  induction cs with
  | nil => exact .nil
  | cons c cs ih => exact .cons (spells_writeChar c) ih

/-- A written string is read back behind its opening quote, up to its closing one. -/
theorem readString_quotedTail (s : String) (rest : Bytes) :
    readString (quotedTail s.toList ++ rest) = .ok (s, rest) := by
  rw [quotedTail, List.append_assoc, List.singleton_append,
    readString_spelledAll (spellsAll_writeChar s.toList)]

end Json

end ScoringMarkup
