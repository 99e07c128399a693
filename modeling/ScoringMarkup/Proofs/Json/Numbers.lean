import ScoringMarkup.Double.Format
import ScoringMarkup.Json.Reader
import ScoringMarkup.Proofs.Json.Strings

/-!
# Written integers

An integer is written in decimal, without a leading zero and with a minus sign if it is negative.
Where nothing behind its digits can belong to it, it is read back as an integer as long as it fits
64 bits, and the range that its place asks for is all that is left to check. The characters of a
double are digits and four others.
-/

namespace ScoringMarkup

namespace Json

/-- Whether what follows a value is the end of the document, a comma or a closing bracket. -/
def EndsValue : Bytes → Prop
  | [] => True
  | b :: _ => b = ascii ',' ∨ b = ascii ']' ∨ b = ascii '\x7d'

/-- Where no blank stands, none is skipped. -/
theorem skipBlanks_of_not_isBlank {b : UInt8} (h : isBlank b = false) (rest : Bytes) :
    skipBlanks (b :: rest) = b :: rest := by
  rw [skipBlanks, List.dropWhile_cons_of_neg (by rw [h]; decide)]

/-- Whether what follows a number can be no part of it. -/
def EndsNumber : Bytes → Prop
  | [] => True
  | b :: _ => isDigit b = false ∧ b ∉ [ascii '.', ascii 'e', ascii 'E']

/-- The end of a value is the end of a number. -/
theorem EndsValue.endsNumber {rest : Bytes} (h : EndsValue rest) : EndsNumber rest := by
  cases rest with
  | nil => trivial
  | cons b rest => rcases h with rfl | rfl | rfl <;> exact ⟨rfl, by decide⟩

/-- Behind a number there is no digit. -/
theorem EndsNumber.startsWithDigit_eq {rest : Bytes} (h : EndsNumber rest) :
    startsWithDigit rest = false := by
  cases rest with
  | nil => rfl
  | cons b rest => exact h.1

/-- The whole part of a number that ends there is an integer. -/
theorem readAfterInteger_of_endsNumber {rest : Bytes} (h : EndsNumber rest) (negative : Bool)
    (value : Nat) :
    readAfterInteger negative value rest = .ok (integerOrDouble negative value, rest) := by
  cases rest with
  | nil => rfl
  | cons b rest =>
    obtain ⟨-, hb⟩ := h
    simp only [List.mem_cons, List.not_mem_nil, or_false] at hb
    rw [readAfterInteger, if_neg hb]

/-- The bytes of a natural number in decimal. -/
def decimal (n : Nat) : Bytes := (Nat.toDigits 10 n).map ascii

/-- The codes of the digits. -/
theorem toNat_of_isDigit {c : Char} (h : c.isDigit = true) : 0x30 ≤ c.toNat ∧ c.toNat ≤ 0x39 :=
  Char.isDigit_iff_toNat.mp h

/-- Characters of one byte each. -/
theorem utf8_of_forall_lt {cs : List Char} (h : ∀ c ∈ cs, c.toNat < 0x80) :
    utf8 cs = cs.map ascii := by
  induction cs with
  | nil => rfl
  | cons c cs ih =>
    rw [utf8_cons, utf8EncodeChar_of_lt (h c List.mem_cons_self),
      ih fun d hd => h d (List.mem_cons_of_mem _ hd), List.map_cons, List.singleton_append]

/-- Digits are characters of one byte each. -/
theorem utf8_of_isDigit {cs : List Char} (h : ∀ c ∈ cs, c.isDigit = true) :
    utf8 cs = cs.map ascii :=
  utf8_of_forall_lt fun c hc => Nat.lt_of_le_of_lt (toNat_of_isDigit (h c hc)).2 (by decide)

/-- A digit is recognised, and has the value of its character. -/
theorem isDigit_ascii {c : Char} (h : c.isDigit = true) :
    isDigit (ascii c) = true ∧ digitValue (ascii c) = c.toNat - 0x30 := by
  have hc := toNat_of_isDigit h
  have hv := toNat_ascii (c := c) (by omega)
  constructor
  · rw [isDigit, decide_eq_true_eq, UInt8.le_iff_toNat_le, UInt8.le_iff_toNat_le, hv]
    exact hc
  · rw [digitValue, hv]

/-- Digits behind a value make it no less. -/
theorem le_ofDigitChars (cs : List Char) (value : Nat) :
    value ≤ Nat.ofDigitChars 10 cs value := by
  rw [Nat.ofDigitChars_eq_ofDigitChars_zero]
  exact Nat.le_add_right_of_le (Nat.le_mul_of_pos_left value (Nat.pow_pos (by decide)))

/-- Digits are taken as long as the value of all of them may be kept. -/
theorem takeDigits_digits {cs : List Char} (h : ∀ c ∈ cs, c.isDigit = true) {value : Nat}
    (hv : Nat.ofDigitChars 10 cs value ≤ largestSignificand) (count : Nat) (rest : Bytes) :
    takeDigits value count (cs.map ascii ++ rest) =
      takeDigits (Nat.ofDigitChars 10 cs value) (count + cs.length) rest := by
  induction cs generalizing value count with
  | nil => simp
  | cons c cs ih =>
    obtain ⟨hd, hval⟩ := isDigit_ascii (h c List.mem_cons_self)
    have hstep : value * 10 + digitValue (ascii c) = 10 * value + (c.toNat - '0'.toNat) := by
      rw [hval, Nat.mul_comm]
      rfl
    rw [Nat.ofDigitChars_cons] at hv ⊢
    have hle := Nat.le_trans (le_ofDigitChars cs _) hv
    rw [List.map_cons, List.cons_append, takeDigits, hstep, if_pos ⟨hd, hle⟩,
      ih (fun d hd => h d (List.mem_cons_of_mem _ hd)) hv, List.length_cons]
    congr 1
    omega

/-- Where no digit stands, none is taken. -/
theorem takeDigits_of_not_startsWithDigit {rest : Bytes} (h : startsWithDigit rest = false)
    (value count : Nat) : takeDigits value count rest = ⟨value, count, rest⟩ := by
  cases rest with
  | nil => rfl
  | cons b rest =>
    rw [startsWithDigit] at h
    rw [takeDigits, if_neg (by rw [h]; simp)]

/-- Digits are taken in full where no other digit follows them. -/
theorem takeDigits_all {cs : List Char} (h : ∀ c ∈ cs, c.isDigit = true) {value : Nat}
    (hv : Nat.ofDigitChars 10 cs value ≤ largestSignificand) {rest : Bytes}
    (hr : startsWithDigit rest = false) :
    takeDigits value 0 (cs.map ascii ++ rest) =
      ⟨Nat.ofDigitChars 10 cs value, cs.length, rest⟩ := by
  rw [takeDigits_digits h hv, takeDigits_of_not_startsWithDigit hr, Nat.zero_add]

/-- A number in decimal consists of digits. -/
theorem isDigit_of_mem_toDigits (n : Nat) : ∀ c ∈ Nat.toDigits 10 n, c.isDigit = true :=
  fun _ hc => Nat.isDigit_of_mem_toDigits (by decide) (by decide) hc

/-- A positive number has no leading zero. -/
theorem toDigits_of_pos {n : Nat} (h : 0 < n) :
    ∃ c cs, Nat.toDigits 10 n = c :: cs ∧ c ≠ '0' := by
  induction n using Nat.strongRecOn with
  | ind n ih =>
    by_cases hn : n < 10
    · have hdigit : ∀ d < 10, 0 < d → Nat.digitChar d ≠ '0' := by decide
      exact ⟨_, [], Nat.toDigits_of_lt_base hn, hdigit n hn h⟩
    · obtain ⟨c, cs, heq, hne⟩ := ih (n / 10) (by omega) (by omega)
      refine ⟨c, cs ++ [Nat.digitChar (n % 10)], ?_, hne⟩
      rw [Nat.toDigits_of_base_le (by decide) (by omega), heq, List.cons_append]

/-- Digits may stand as a whole part if they are a zero or do not begin with one. -/
def IsWhole (cs : List Char) : Prop :=
  (∀ c ∈ cs, c.isDigit = true) ∧ (cs = ['0'] ∨ ∃ c rest, cs = c :: rest ∧ c ≠ '0')

/-- A number in decimal may stand as a whole part. -/
theorem isWhole_toDigits (n : Nat) : IsWhole (Nat.toDigits 10 n) := by
  refine ⟨isDigit_of_mem_toDigits n, ?_⟩
  rcases Nat.eq_zero_or_pos n with rfl | hpos
  · exact Or.inl rfl
  · exact Or.inr (toDigits_of_pos hpos)

/-- A whole part is taken in full, at either sign. -/
theorem readNumber_whole {cs : List Char} (h : IsWhole cs)
    (hv : Nat.ofDigitChars 10 cs 0 ≤ largestSignificand) {rest : Bytes}
    (hr : startsWithDigit rest = false) (negative : Bool) :
    readNumber negative (cs.map ascii ++ rest) =
      readAfterInteger negative (Nat.ofDigitChars 10 cs 0) rest := by
  obtain ⟨hall, rfl | ⟨c, cs, rfl, hne⟩⟩ := h
  · rw [List.map_singleton, List.singleton_append, readNumber, if_pos rfl, hr, if_neg (by decide)]
    rfl
  · have hc : c.isDigit = true := hall c List.mem_cons_self
    have hzero : ascii c ≠ ascii '0' := by
      rw [Ne, ascii_inj (Nat.lt_of_le_of_lt (toNat_of_isDigit hc).2 (by decide)) (by decide)]
      exact hne
    have htaken := takeDigits_all hall hv hr
    rw [List.map_cons, List.cons_append] at htaken ⊢
    rw [readNumber, if_neg hzero, (isDigit_ascii hc).1, if_pos rfl, htaken]
    dsimp only
    rw [hr, if_neg (by decide)]

/-- A number in decimal is read as a whole, at either sign. -/
theorem readNumber_decimal {n : Nat} (hn : n ≤ largestSignificand) {rest : Bytes}
    (hr : EndsNumber rest) (negative : Bool) :
    readNumber negative (decimal n ++ rest) = .ok (integerOrDouble negative n, rest) := by
  rw [decimal, readNumber_whole (isWhole_toDigits n) (by rwa [Nat.ofDigitChars_ten_toDigits])
    hr.startsWithDigit_eq, Nat.ofDigitChars_ten_toDigits, readAfterInteger_of_endsNumber hr]

/-- The bytes of an integer. -/
def integerBytes : Int → Bytes
  | .ofNat n => decimal n
  | .negSucc n => ascii '-' :: decimal (n + 1)

/-- The text of an integer, and the bytes of that text. -/
theorem utf8_toString (n : Int) : utf8 (toString n).toList = integerBytes n := by
  have hnat (m : Nat) : utf8 m.repr.toList = decimal m := by
    rw [Nat.toList_repr, utf8_of_isDigit (isDigit_of_mem_toDigits m), decimal]
  cases n with
  | ofNat n => exact hnat n
  | negSucc n =>
    change utf8 ("-" ++ (n + 1).repr).toList = _
    rw [String.toList_append, utf8_append, hnat]
    rfl

/-- The bytes of a number in decimal are digits. -/
theorem isDigit_of_mem_decimal {n : Nat} {b : UInt8} (h : b ∈ decimal n) : isDigit b = true := by
  obtain ⟨c, hc, rfl⟩ := List.mem_map.mp h
  exact (isDigit_ascii (isDigit_of_mem_toDigits n c hc)).1

/-- A number in decimal begins with a digit. -/
theorem decimal_eq_cons (n : Nat) : ∃ b rest, decimal n = b :: rest ∧ isDigit b = true := by
  have hne : decimal n ≠ [] := List.map_eq_nil_iff.not.mpr Nat.toDigits_ne_nil
  obtain ⟨b, rest, heq⟩ := List.exists_cons_of_ne_nil hne
  exact ⟨b, rest, heq, isDigit_of_mem_decimal (heq ▸ List.mem_cons_self)⟩

/-- Blanks and the minus sign are no digits. -/
theorem not_isBlank_of_isDigit {b : UInt8} (h : isDigit b = true) :
    isBlank b = false ∧ b ≠ ascii '-' := by
  constructor
  · by_contra hb
    simp only [isBlank, Bool.not_eq_false, Bool.or_eq_true, beq_iff_eq] at hb
    rcases hb with ((rfl | rfl) | rfl) | rfl <;> exact absurd h (by decide)
  · rintro rfl
    exact absurd h (by decide)

/-- Whether an integer fits 64 bits, with a sign or without. -/
def FitsWord (n : Int) : Prop := -0x8000000000000000 ≤ n ∧ n ≤ 0xffffffffffffffff

/-- Every integer that fits 64 bits is read back, and no other kind of value is thought of. -/
theorem readNumberOr_integerBytes {n : Int} (h : FitsWord n) {rest : Bytes}
    (hr : EndsNumber rest) (expected : String) :
    readNumberOr expected (integerBytes n ++ rest) = .ok (.integer n, rest) := by
  obtain ⟨hl, hg⟩ := h
  cases n with
  | ofNat n =>
    have hn : n ≤ largestSignificand := by
      rw [Int.ofNat_eq_natCast] at hg
      rw [largestSignificand]
      omega
    obtain ⟨b, tail, heq, hd⟩ := decimal_eq_cons n
    have hread := readNumber_decimal hn hr false
    rw [integerBytes]
    rw [heq, List.cons_append] at hread ⊢
    rw [readNumberOr, skipBlanks_of_not_isBlank (not_isBlank_of_isDigit hd).1]
    dsimp only
    rw [if_neg (not_isBlank_of_isDigit hd).2, hd, if_pos rfl, hread]
    rfl
  | negSucc n =>
    have hn : n + 1 ≤ 0x8000000000000000 := by omega
    have hkept : n + 1 ≤ largestSignificand := Nat.le_trans hn (by decide)
    rw [integerBytes, List.cons_append, readNumberOr, skipBlanks_of_not_isBlank rfl]
    dsimp only
    rw [if_pos rfl, readNumber_decimal hkept hr, integerOrDouble]
    simp only [Bool.not_true, Bool.false_eq_true, if_false]
    rw [if_neg (by omega)]
    rfl

/-- An integer is read back where its range holds it. -/
theorem readInteger_integerBytes {n : Int} (h : FitsWord n) {range : IntegerRange}
    (hrange : range.least ≤ n ∧ n ≤ range.greatest) {rest : Bytes} (hr : EndsNumber rest) :
    readInteger range (integerBytes n ++ rest) = .ok (.integer n, rest) := by
  rw [readInteger, readNumberOr_integerBytes h hr]
  simp only [Bind.bind, Except.bind]
  rw [if_pos hrange]

/-- The characters that stand in a number. -/
def IsNumberChar (c : Char) : Prop := c.isDigit = true ∨ c ∈ ['-', '.', 'e', '+']

/-- A decimal with all its places shows digits and a point. -/
theorem isNumberChar_of_mem_positional (d : Decimal) : ∀ c ∈ d.positional, IsNumberChar c := by
  have hdigits (c : Char) (hc : c ∈ Nat.toDigits 10 d.coefficient) : IsNumberChar c :=
    Or.inl (isDigit_of_mem_toDigits _ c hc)
  have hzero : IsNumberChar '0' := Or.inl rfl
  have hzeros (n : Nat) (c : Char) (hc : c ∈ List.replicate n '0') : IsNumberChar c :=
    List.eq_of_mem_replicate hc ▸ hzero
  have hpoint : IsNumberChar '.' := Or.inr (by decide)
  unfold Decimal.positional
  dsimp only
  split
  · exact List.forall_mem_append.2 ⟨hdigits, hzeros _⟩
  · split
    · simp only [List.forall_mem_cons, List.forall_mem_append]
      exact ⟨hzero, hpoint, hzeros _, hdigits⟩
    · simp only [List.forall_mem_cons, List.forall_mem_append]
      exact ⟨fun c hc => hdigits c (List.mem_of_mem_take hc), hpoint,
        fun c hc => hdigits c (List.mem_of_mem_drop hc)⟩

/-- In scientific notation a sign and a mark join them. -/
theorem isNumberChar_of_mem_scientific (d : Decimal) : ∀ c ∈ d.scientific, IsNumberChar c := by
  have hdigits (n : Nat) (c : Char) (hc : c ∈ Nat.toDigits 10 n) : IsNumberChar c :=
    Or.inl (isDigit_of_mem_toDigits _ c hc)
  have hother : ∀ c ∈ ['-', '.', 'e', '+'], IsNumberChar c := fun _ => Or.inr
  unfold Decimal.scientific
  simp only [List.forall_mem_cons, List.forall_mem_append]
  refine ⟨⟨⟨fun c hc => hdigits _ c (List.mem_of_mem_take hc), ?_⟩,
    fun c hc => hdigits _ c (List.mem_of_mem_drop hc)⟩, hother _ (by decide), ?_, hdigits _⟩
  · split
    · exact List.forall_mem_nil _
    · exact List.forall_mem_singleton.2 (hother _ (by decide))
  · split <;> exact hother _ (by decide)

/-- Whatever the format, a magnitude shows no other characters. -/
theorem isNumberChar_of_mem_magnitudeText (format : NumberFormat) (field : Nat) :
    ∀ c ∈ Double.magnitudeText format field, IsNumberChar c := by
  unfold Double.magnitudeText
  generalize (if field = 0 then (⟨0, 0⟩ : Decimal) else Decimal.shortest format.tie field) = d
  dsimp only
  split
  · refine List.forall_mem_append.2 ⟨isNumberChar_of_mem_positional d, ?_⟩
    split
    · simp only [List.forall_mem_cons]
      exact ⟨Or.inr (by decide), Or.inl rfl, List.forall_mem_nil _⟩
    · exact List.forall_mem_nil _
  · exact isNumberChar_of_mem_scientific d

/-- A sign is a character of numbers. -/
theorem isNumberChar_of_mem_signText (x : Double) : ∀ c ∈ x.signText, IsNumberChar c := by
  rw [Double.signText]
  split
  · exact List.forall_mem_singleton.2 (Or.inr (by decide))
  · exact List.forall_mem_nil _

/-- A plain numeral shows only characters of numbers. -/
theorem isNumberChar_of_mem_plainText (x : Double) : ∀ c ∈ x.plainText, IsNumberChar c := by
  rw [Double.plainText]
  refine List.forall_mem_append.2 ⟨isNumberChar_of_mem_signText x, ?_⟩
  split
  · refine List.forall_mem_append.2 ⟨fun c hc => Or.inl (isDigit_of_mem_toDigits _ c hc), ?_⟩
    simp only [List.forall_mem_cons]
    exact ⟨Or.inr (by decide), Or.inl rfl, List.forall_mem_nil _⟩
  · exact isNumberChar_of_mem_magnitudeText _ _

/-- An integer shows only characters of numbers. -/
theorem isNumberChar_of_mem_toString (n : Int) : ∀ c ∈ (toString n).toList, IsNumberChar c := by
  have hnat (m : Nat) : ∀ c ∈ m.repr.toList, IsNumberChar c := by
    rw [Nat.toList_repr]
    exact fun c hc => Or.inl (isDigit_of_mem_toDigits m c hc)
  cases n with
  | ofNat n => exact hnat n
  | negSucc n =>
    change ∀ c ∈ ("-" ++ (n + 1).repr).toList, _
    rw [String.toList_append]
    exact List.forall_mem_append.2 ⟨List.forall_mem_singleton.2 (Or.inr (by decide)), hnat _⟩

/-- A double in a document shows only characters of numbers. -/
theorem isNumberChar_of_mem_documentText (x : Double) :
    ∀ c ∈ x.documentText.toList, IsNumberChar c := by
  rw [Double.documentText, String.toList_ofList]
  exact List.forall_mem_append.2
    ⟨isNumberChar_of_mem_signText x, isNumberChar_of_mem_magnitudeText _ _⟩

end Json

end ScoringMarkup
