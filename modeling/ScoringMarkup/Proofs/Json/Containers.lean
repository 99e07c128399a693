import ScoringMarkup.Proofs.Json.Numbers

/-!
# Open containers

How many containers a document has open behind each of its bytes, counted without reading the
document: brackets count outside strings only, and a backslash inside a string hides the byte
behind it. The bracket that first opens more containers than a limit allows is found by the same
scan, and a text that opens nothing leaves the scan where it was.
-/

namespace ScoringMarkup

namespace Json

/-- Where a scan over a document stands. -/
inductive Place
  | outside
  | inString
  /-- Behind a backslash in a string. -/
  | escaped
  deriving DecidableEq

/-- The containers open so far, and where the scan stands. -/
structure Scan where
  opened : Nat
  place : Place
  deriving DecidableEq

namespace Scan

/-- Passes one byte. -/
def step (s : Scan) (b : UInt8) : Scan :=
  match s.place with
  | .outside =>
    if b = ascii '"' then ⟨s.opened, .inString⟩
    else if b = ascii '[' ∨ b = ascii '\x7b' then ⟨s.opened + 1, .outside⟩
    else if b = ascii ']' ∨ b = ascii '\x7d' then ⟨s.opened - 1, .outside⟩
    else ⟨s.opened, .outside⟩
  | .inString =>
    if b = ascii '"' then ⟨s.opened, .outside⟩
    else if b = ascii '\\' then ⟨s.opened, .escaped⟩
    else ⟨s.opened, .inString⟩
  | .escaped => ⟨s.opened, .inString⟩

/-- Passes the bytes of a text. -/
def run (s : Scan) (text : Bytes) : Scan := text.foldl step s

@[simp] theorem run_nil (s : Scan) : s.run [] = s := rfl

@[simp] theorem run_cons (s : Scan) (b : UInt8) (text : Bytes) :
    s.run (b :: text) = (s.step b).run text := rfl

@[simp] theorem run_append (s : Scan) (text more : Bytes) :
    s.run (text ++ more) = (s.run text).run more := List.foldl_append

/-- One byte opens at most one container. -/
theorem opened_step_le (s : Scan) (b : UInt8) : (s.step b).opened ≤ s.opened + 1 := by
  obtain ⟨opened, place⟩ := s
  cases place with
  | outside =>
    simp only [step]
    split_ifs <;> simp only <;> omega
  | inString =>
    simp only [step]
    split_ifs <;> exact Nat.le_succ _
  | escaped => exact Nat.le_succ _

/-- The most containers open at once while a text is passed. -/
def peak (s : Scan) : Bytes → Nat
  | [] => s.opened
  | b :: rest => max s.opened ((s.step b).peak rest)

/-- The peak keeps a limit exactly when the containers open behind every beginning of the text do.
-/
theorem peak_le_iff {s : Scan} {text : Bytes} {limit : Nat} :
    s.peak text ≤ limit ↔ ∀ n, (s.run (text.take n)).opened ≤ limit := by
  induction text generalizing s with
  | nil => simp [peak]
  | cons b text ih =>
    rw [peak, Nat.max_le, ih]
    constructor
    · rintro ⟨hs, hall⟩ n
      cases n with
      | zero => exact hs
      | succ n => exact hall n
    · intro hall
      exact ⟨hall 0, fun n => hall (n + 1)⟩

end Scan

/-- The containers open behind a text. -/
def openAfter (text : Bytes) : Nat := (Scan.run ⟨0, .outside⟩ text).opened

/-- The most containers of a document that are ever open at once. -/
def mostOpen (document : Bytes) : Nat := Scan.peak ⟨0, .outside⟩ document

/-- A document keeps a limit exactly when every beginning of it does. -/
theorem mostOpen_le_iff {document : Bytes} {limit : Nat} :
    mostOpen document ≤ limit ↔ ∀ n, openAfter (document.take n) ≤ limit :=
  Scan.peak_le_iff

/-- What stands behind the bracket by which a text first opens more containers than `limit`. -/
def beyond (limit : Nat) (s : Scan) : Bytes → Option Bytes
  | [] => none
  | b :: rest =>
    if limit < (s.step b).opened then some rest else beyond limit (s.step b) rest

/-- A bracket is looked for in the first text, then in the second from where the first ends. -/
theorem beyond_append (limit : Nat) (s : Scan) (text more : Bytes) :
    beyond limit s (text ++ more) =
      ((beyond limit s text).map (· ++ more)).or (beyond limit (s.run text) more) := by
  induction text generalizing s with
  | nil => rfl
  | cons b text ih =>
    rw [List.cons_append, beyond, beyond, Scan.run_cons]
    by_cases h : limit < (s.step b).opened
    · rw [if_pos h, if_pos h]
      rfl
    · rw [if_neg h, if_neg h, ih]

/-- No bracket is found exactly when the limit is kept. -/
theorem beyond_eq_none_iff {limit : Nat} {s : Scan} (hs : s.opened ≤ limit) {text : Bytes} :
    beyond limit s text = none ↔ s.peak text ≤ limit := by
  induction text generalizing s with
  | nil => simp [beyond, Scan.peak, hs]
  | cons b text ih =>
    rw [beyond, Scan.peak, Nat.max_le, and_iff_right hs]
    by_cases h : limit < (s.step b).opened
    · rw [if_pos h]
      refine iff_of_false (by simp) fun hle => ?_
      exact Nat.not_le.mpr h (Scan.peak_le_iff.mp hle 0)
    · rw [if_neg h, ih (Nat.le_of_not_lt h)]

/-- The bracket found opens the first container beyond the limit. -/
theorem beyond_eq_some {limit : Nat} {s : Scan} (hs : s.opened ≤ limit) {text behind : Bytes}
    (h : beyond limit s text = some behind) :
    ∃ passed, text = passed ++ behind ∧ (s.run passed).opened = limit + 1 ∧
      ∀ n < passed.length, (s.run (passed.take n)).opened ≤ limit := by
  induction text generalizing s with
  | nil => simp [beyond] at h
  | cons b text ih =>
    rw [beyond] at h
    by_cases hb : limit < (s.step b).opened
    · rw [if_pos hb, Option.some.injEq] at h
      subst h
      refine ⟨[b], rfl, ?_, ?_⟩
      · have hle := s.opened_step_le b
        rw [Scan.run_cons, Scan.run_nil]
        omega
      · intro n hn
        obtain rfl : n = 0 := Nat.lt_one_iff.mp hn
        exact hs
    · rw [if_neg hb] at h
      obtain ⟨passed, rfl, hopen, hall⟩ := ih (Nat.le_of_not_lt hb) h
      refine ⟨b :: passed, rfl, hopen, ?_⟩
      intro n hn
      cases n with
      | zero => exact hs
      | succ n => exact hall n (Nat.lt_of_succ_lt_succ hn)

/-- Whether a text leads a scan from one place to another without opening a container, at any
number of containers already open. -/
structure LeadsTo (p q : Place) (text : Bytes) : Prop where
  run_eq : ∀ o, Scan.run ⟨o, p⟩ text = ⟨o, q⟩
  beyond_eq : ∀ o limit, o ≤ limit → beyond limit ⟨o, p⟩ text = none

namespace LeadsTo

theorem nil (p : Place) : LeadsTo p p [] := ⟨fun _ => rfl, fun _ _ _ => rfl⟩

/-- One text after the other leads on from where the first ends. -/
theorem append {p q r : Place} {text more : Bytes} (ht : LeadsTo p q text)
    (hm : LeadsTo q r more) : LeadsTo p r (text ++ more) := by
  constructor
  · intro o
    rw [Scan.run_append, ht.run_eq, hm.run_eq]
  · intro o limit ho
    rw [beyond_append, ht.beyond_eq o limit ho, ht.run_eq, hm.beyond_eq o limit ho]
    rfl

/-- A byte that opens no container leads to where one step ends. -/
theorem byte {p q : Place} {b : UInt8} (h : ∀ o, Scan.step ⟨o, p⟩ b = ⟨o, q⟩) :
    LeadsTo p q [b] := by
  constructor
  · exact h
  · intro o limit ho
    rw [beyond, h, if_neg (Nat.not_lt.mpr ho)]
    rfl

/-- A byte in front leads on to where the text leads. -/
theorem cons {p q r : Place} {b : UInt8} {text : Bytes}
    (h : ∀ o, Scan.step ⟨o, p⟩ b = ⟨o, q⟩) (ht : LeadsTo q r text) : LeadsTo p r (b :: text) :=
  (byte h).append ht

/-- Bytes that stand for themselves stay inside the string. -/
theorem plain {bytes : Bytes} (h : ∀ b ∈ bytes, IsPlain b) : LeadsTo .inString .inString bytes := by
  induction bytes with
  | nil => exact nil _
  | cons b bytes ih =>
    obtain ⟨hq, hs, -⟩ := h b List.mem_cons_self
    refine cons (fun o => ?_) (ih fun x hx => h x (List.mem_cons_of_mem _ hx))
    simp only [Scan.step]
    rw [if_neg hq, if_neg hs]

/-- Hexadecimal digits stay inside the string. -/
theorem code {n : Nat} {code : Bytes} (h : SpellsCode n code) :
    LeadsTo .inString .inString code := by
  have digit {b : UInt8} {n : Nat} (hb : hexValue? b = some n) :
      ∀ o, Scan.step ⟨o, .inString⟩ b = ⟨o, .inString⟩ := by
    intro o
    have hquote : b ≠ ascii '"' := by
      rintro rfl
      cases hb
    have hslash : b ≠ ascii '\\' := by
      rintro rfl
      cases hb
    simp only [Scan.step]
    rw [if_neg hquote, if_neg hslash]
  cases h with
  | digits hp hq hr hs =>
    exact cons (digit hp) (cons (digit hq) (cons (digit hr) (byte (digit hs))))

/-- However a character is written, the scan stays inside the string. -/
theorem spelled {c : Char} {bytes : Bytes} (h : Spells c bytes) :
    LeadsTo .inString .inString bytes := by
  have escaped {code : Bytes} (h : LeadsTo .inString .inString code) :
      LeadsTo .inString .inString (ascii '\\' :: ascii 'u' :: code) :=
    cons (q := .escaped) (fun _ => rfl) (cons (q := .inString) (fun _ => rfl) h)
  cases h with
  | plain h => exact plain h
  | short h hc => exact cons (fun _ => rfl) (byte fun _ => rfl)
  | hex h => exact escaped (code h)
  | pair hfirst hsecond => exact escaped ((code hfirst).append (escaped (code hsecond)))

/-- A written string is passed as a whole. -/
theorem quoted (s : String) : LeadsTo .outside .outside (quoted s) := by
  refine cons (q := .inString) (fun _ => rfl) ?_
  induction s.toList with
  | nil => exact byte fun _ => rfl
  | cons c cs ih =>
    rw [quotedTail_cons]
    exact (spelled (spells_writeChar c)).append ih

/-- A text without quotes and brackets is passed as a whole. -/
theorem unmarked {text : Bytes}
    (h : ∀ b ∈ text, b ∉ [ascii '"', ascii '[', ascii ']', ascii '\x7b', ascii '\x7d']) :
    LeadsTo .outside .outside text := by
  induction text with
  | nil => exact nil _
  | cons b text ih =>
    have hb := h b List.mem_cons_self
    simp only [List.mem_cons, List.not_mem_nil, or_false, not_or] at hb
    obtain ⟨hquote, hlist, hlist', hobject, hobject'⟩ := hb
    refine cons (fun o => ?_) (ih fun x hx => h x (List.mem_cons_of_mem _ hx))
    simp only [Scan.step]
    rw [if_neg hquote, if_neg (not_or.mpr ⟨hlist, hobject⟩),
      if_neg (not_or.mpr ⟨hlist', hobject'⟩)]

/-- A natural number is passed as a whole. -/
theorem decimal (n : Nat) : LeadsTo .outside .outside (decimal n) := by
  refine unmarked fun b hb hmark => ?_
  have hd := isDigit_of_mem_decimal hb
  simp only [List.mem_cons, List.not_mem_nil, or_false] at hmark
  rcases hmark with rfl | rfl | rfl | rfl | rfl <;> exact absurd hd (by decide)

/-- An integer is passed as a whole. -/
theorem integerBytes (n : Int) : LeadsTo .outside .outside (integerBytes n) := by
  cases n with
  | ofNat n => exact decimal n
  | negSucc n => exact cons (fun _ => rfl) (decimal (n + 1))

end LeadsTo

end Json

end ScoringMarkup
