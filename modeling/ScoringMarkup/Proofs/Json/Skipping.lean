import Mathlib.Data.List.DropRight
import ScoringMarkup.Proofs.Json.Compact

/-!
# Skipped values

Where nothing is asked for, any value may stand: a word, a number of any size, a string with any
escapes, or a list or an object of such values, nested to any depth, with blanks between all
tokens. The reader passes each of them to exactly its end, since behind every value inside a
container it is back in the containers that were open in front of it.
-/

namespace ScoringMarkup

namespace Json

/-- Whether bytes may stand between tokens. -/
def IsBlanks (bytes : Bytes) : Prop := ∀ b ∈ bytes, isBlank b = true

instance (bytes : Bytes) : Decidable (IsBlanks bytes) := List.decidableBAll _ bytes

theorem isBlanks_nil : IsBlanks [] := List.forall_mem_nil _

/-- Blanks in front are skipped. -/
theorem skipBlanks_append {blanks : Bytes} (h : IsBlanks blanks) (rest : Bytes) :
    skipBlanks (blanks ++ rest) = skipBlanks rest :=
  List.dropWhile_append_of_pos h

/-- Blanks are skipped at once. -/
theorem skipBlanks_skipBlanks (input : Bytes) : skipBlanks (skipBlanks input) = skipBlanks input :=
  List.dropWhile_idempotent isBlank input

/-- Blanks may stand behind a number. -/
theorem EndsNumber.append {blanks rest : Bytes} (h : IsBlanks blanks) (hr : EndsNumber rest) :
    EndsNumber (blanks ++ rest) := by
  cases blanks with
  | nil => exact hr
  | cons b blanks =>
    have hb : isBlank b = true := h b List.mem_cons_self
    simp only [isBlank, Bool.or_eq_true, beq_iff_eq] at hb
    rcases hb with ((rfl | rfl) | rfl) | rfl <;> exact ⟨rfl, by decide⟩

/-- Behind an entry of a container nothing can belong to a number. -/
theorem endsNumber_entries {closing : Char} (hc : closing = ']' ∨ closing = '\x7d')
    (texts : List Bytes) (rest : Bytes) : EndsNumber (entries closing false texts ++ rest) := by
  cases texts with
  | nil => rcases hc with rfl | rfl <;> exact ⟨rfl, by decide⟩
  | cons text texts => exact ⟨rfl, by decide⟩

/-- A text with blanks around it. -/
structure Padded where
  front : Bytes
  core : Bytes
  behind : Bytes
  isBlanks_front : IsBlanks front
  isBlanks_behind : IsBlanks behind

/-- The text together with its blanks. -/
def Padded.text (p : Padded) : Bytes := p.front ++ (p.core ++ p.behind)

/-- The blanks in front of a padded text are skipped, those behind it are kept. -/
theorem Padded.skipBlanks_text (p : Padded) {b : UInt8} {tail : Bytes} (hcore : p.core = b :: tail)
    (hb : isBlank b = false) (more : Bytes) :
    skipBlanks (p.text ++ more) = b :: (tail ++ (p.behind ++ more)) := by
  rw [Padded.text, List.append_assoc, skipBlanks_append p.isBlanks_front, hcore, List.append_assoc,
    List.cons_append, skipBlanks_of_not_isBlank hb]

/-! ## Numbers and strings -/

/-- Whether bytes are digits, at least one. -/
def IsDigits (bytes : Bytes) : Prop := bytes ≠ [] ∧ ∀ b ∈ bytes, isDigit b = true

instance (bytes : Bytes) : Decidable (IsDigits bytes) :=
  have : Decidable (∀ b ∈ bytes, isDigit b = true) := List.decidableBAll _ bytes
  inferInstanceAs (Decidable (_ ∧ _))

/-- The whole part of a number: a zero, or digits that do not begin with one. -/
inductive IsWholePart : Bytes → Prop
  | zero : IsWholePart [ascii '0']
  | digits {b : UInt8} {others : Bytes} (hb : isDigit b = true) (hzero : b ≠ ascii '0')
    (h : ∀ d ∈ others, isDigit d = true) : IsWholePart (b :: others)

/-- The fraction of a number, if it has one. -/
inductive IsFraction : Bytes → Prop
  | none : IsFraction []
  | digits {digits : Bytes} (h : IsDigits digits) : IsFraction (ascii '.' :: digits)

/-- The exponent of a number, if it has one. -/
inductive IsExponent : Bytes → Prop
  | none : IsExponent []
  | digits {mark : UInt8} {sign digits : Bytes} (hmark : mark = ascii 'e' ∨ mark = ascii 'E')
    (hsign : sign = [] ∨ sign = [ascii '+'] ∨ sign = [ascii '-']) (h : IsDigits digits) :
    IsExponent (mark :: (sign ++ digits))

/-- A number behind its minus sign, if it has one. -/
inductive IsMagnitude : Bytes → Prop
  | parts {whole fraction exponent : Bytes} (hwhole : IsWholePart whole)
    (hfraction : IsFraction fraction) (hexponent : IsExponent exponent) :
    IsMagnitude (whole ++ (fraction ++ exponent))

/-- Digits are dropped where no other digit follows them. -/
theorem dropWhile_digits {digits rest : Bytes} (h : ∀ b ∈ digits, isDigit b = true)
    (hr : startsWithDigit rest = false) : (digits ++ rest).dropWhile isDigit = rest := by
  rw [List.dropWhile_append_of_pos h]
  cases rest with
  | nil => rfl
  | cons b rest => exact List.dropWhile_cons_of_neg (by rw [startsWithDigit] at hr; simp [hr])

/-- The digits of an exponent are passed. -/
theorem skipExponentDigits_digits {digits rest : Bytes} (h : IsDigits digits)
    (hr : startsWithDigit rest = false) : skipExponentDigits (digits ++ rest) = .ok rest := by
  obtain ⟨hne, hall⟩ := h
  obtain ⟨b, others, rfl⟩ := List.exists_cons_of_ne_nil hne
  obtain ⟨hb, hothers⟩ := List.forall_mem_cons.mp hall
  rw [List.cons_append, skipExponentDigits, if_pos hb, dropWhile_digits hothers hr]

/-- An exponent, or none, is passed to the end of the number. -/
theorem skipAfterFraction_exponent {exponent rest : Bytes} (h : IsExponent exponent)
    (hr : EndsNumber rest) : skipAfterFraction (exponent ++ rest) = .ok rest := by
  cases h with
  | none =>
    cases rest with
    | nil => rfl
    | cons b rest =>
      have hb := hr.2
      simp only [List.mem_cons, List.not_mem_nil, or_false, not_or] at hb
      rw [List.nil_append, skipAfterFraction, if_neg (not_or.mpr hb.2)]
  | @digits mark sign digits hmark hsign h =>
    have hdigits := skipExponentDigits_digits h hr.startsWithDigit_eq
    rw [List.cons_append, skipAfterFraction, if_pos hmark, List.append_assoc]
    rcases hsign with rfl | rfl | rfl
    · obtain ⟨hne, hall⟩ := h
      obtain ⟨b, others, rfl⟩ := List.exists_cons_of_ne_nil hne
      have hb : isDigit b = true := hall b List.mem_cons_self
      have hsign : ¬ (b = ascii '+' ∨ b = ascii '-') := by
        rintro (rfl | rfl) <;> exact absurd hb (by decide)
      rw [List.nil_append, List.cons_append, skipExponent, if_neg hsign]
      exact hdigits
    · exact hdigits
    · exact hdigits

/-- Behind a fraction, or a number without one, there is neither a digit nor a point. -/
theorem IsExponent.head_ne {exponent rest more : Bytes} {b : UInt8} (h : IsExponent exponent)
    (hr : EndsNumber rest) (heq : exponent ++ rest = b :: more) :
    isDigit b = false ∧ b ≠ ascii '.' := by
  cases h with
  | none =>
    rw [List.nil_append] at heq
    subst heq
    obtain ⟨hb, hmark⟩ := hr
    exact ⟨hb, fun hpoint => hmark (hpoint ▸ List.mem_cons_self)⟩
  | digits hmark =>
    obtain ⟨rfl, -⟩ := List.cons.inj heq
    rcases hmark with rfl | rfl <;> exact ⟨rfl, by decide⟩

/-- What comes behind the digits of a fraction begins with no digit. -/
theorem IsExponent.startsWithDigit_eq {exponent rest : Bytes} (h : IsExponent exponent)
    (hr : EndsNumber rest) : startsWithDigit (exponent ++ rest) = false := by
  cases heq : exponent ++ rest with
  | nil => rfl
  | cons b more => exact (h.head_ne hr heq).1

/-- A fraction and an exponent, or none, are passed to the end of the number. -/
theorem skipAfterWhole_fraction {fraction exponent rest : Bytes} (h : IsFraction fraction)
    (he : IsExponent exponent) (hr : EndsNumber rest) :
    skipAfterWhole (fraction ++ (exponent ++ rest)) = .ok rest := by
  have hexponent := skipAfterFraction_exponent he hr
  cases h with
  | none =>
    rw [List.nil_append]
    cases heq : exponent ++ rest with
    | nil => exact congrArg Except.ok (List.append_eq_nil_iff.mp heq).2.symm
    | cons b more => rw [skipAfterWhole, if_neg (he.head_ne hr heq).2, ← heq, hexponent]
  | digits h =>
    obtain ⟨hne, hall⟩ := h
    obtain ⟨b, others, rfl⟩ := List.exists_cons_of_ne_nil hne
    have hdrop := dropWhile_digits hall (he.startsWithDigit_eq hr)
    have hstart : startsWithDigit ((b :: others) ++ (exponent ++ rest)) = true :=
      hall b List.mem_cons_self
    rw [List.cons_append, skipAfterWhole, if_pos rfl, if_pos hstart, hdrop, hexponent]

/-- A number of any size is passed. -/
theorem skipNumber_magnitude {text rest : Bytes} (h : IsMagnitude text) (hr : EndsNumber rest) :
    skipNumber (text ++ rest) = .ok rest := by
  obtain @⟨whole, fraction, exponent, hwhole, hfraction, hexponent⟩ := h
  have hbehind := skipAfterWhole_fraction hfraction hexponent hr
  have hstart : startsWithDigit (fraction ++ (exponent ++ rest)) = false := by
    cases hfraction with
    | none => exact hexponent.startsWithDigit_eq hr
    | digits => rfl
  rw [List.append_assoc, List.append_assoc]
  cases hwhole with
  | zero =>
    rw [List.singleton_append, skipNumber, if_pos rfl, hstart]
    exact hbehind
  | digits hb hzero h =>
    rw [List.cons_append, skipNumber, if_neg hzero, if_pos hb, dropWhile_digits h hstart]
    exact hbehind

/-- The letters of a string that is only passed: bytes, escape letters and codes of any number,
whether they stand for characters or not. -/
inductive IsLetters : Bytes → Prop
  | nil : IsLetters []
  | plain {b : UInt8} {more : Bytes} (hb : IsPlain b) (h : IsLetters more) : IsLetters (b :: more)
  | short {letter : UInt8} {more : Bytes} (hletter : (shortEscape? letter).isSome = true)
    (h : IsLetters more) : IsLetters (ascii '\\' :: letter :: more)
  | code {n : Nat} {code more : Bytes} (hcode : SpellsCode n code) (h : IsLetters more) :
    IsLetters (ascii '\\' :: ascii 'u' :: (code ++ more))

/-- An escape is passed in one round. -/
theorem skipStringFrom_escape {rest rest' : Bytes} (h : skipEscape rest = .ok rest')
    (bound : Nat) :
    skipStringFrom (bound + 1) (ascii '\\' :: rest) = skipStringFrom bound rest' := by
  rw [skipStringFrom, if_neg (by decide), if_pos rfl, h]

/-- The letters of a string are passed, one round at most for each byte. -/
theorem skipStringFrom_letters {text : Bytes} (h : IsLetters text) (rest : Bytes) {bound : Nat}
    (hb : (text ++ ascii '"' :: rest).length ≤ bound) :
    skipStringFrom bound (text ++ ascii '"' :: rest) = .ok rest := by
  induction h generalizing bound with
  | nil =>
    obtain ⟨bound, rfl⟩ := Nat.exists_eq_add_of_le' (Nat.le_trans (Nat.le_add_left 1 _) hb)
    rw [List.nil_append, skipStringFrom, if_pos rfl]
  | @plain b more hplain h ih =>
    obtain ⟨bound, rfl⟩ := Nat.exists_eq_add_of_le' (Nat.le_trans (Nat.le_add_left 1 _) hb)
    obtain ⟨hquote, hslash, hcontrol⟩ := hplain
    rw [List.cons_append, skipStringFrom, if_neg hquote, if_neg hslash, if_neg hcontrol]
    exact ih (Nat.le_of_succ_le_succ hb)
  | @short letter more hletter h ih =>
    obtain ⟨bound, rfl⟩ := Nat.exists_eq_add_of_le' (Nat.le_trans (Nat.le_add_left 1 _) hb)
    have hu : letter ≠ ascii 'u' := by
      rintro rfl
      cases hletter
    have hescape : skipEscape (letter :: (more ++ ascii '"' :: rest)) =
        .ok (more ++ ascii '"' :: rest) := by
      rw [skipEscape, if_neg hu, if_pos hletter]
    rw [List.cons_append, List.cons_append] at hb ⊢
    rw [skipStringFrom_escape hescape]
    exact ih (by simp only [List.length_cons] at hb; omega)
  | @code n code more hcode h ih =>
    obtain ⟨bound, rfl⟩ := Nat.exists_eq_add_of_le' (Nat.le_trans (Nat.le_add_left 1 _) hb)
    have hescape : skipEscape (ascii 'u' :: (code ++ (more ++ ascii '"' :: rest))) =
        .ok (more ++ ascii '"' :: rest) := by
      rw [skipEscape, if_pos rfl, readHex_code hcode]
      rfl
    rw [List.cons_append, List.cons_append, List.append_assoc] at hb ⊢
    rw [skipStringFrom_escape hescape]
    exact ih (by simp only [List.length_cons, List.length_append] at hb ⊢; omega)

/-- A string is passed behind its opening quote, up to its closing one. -/
theorem skipString_letters {text : Bytes} (h : IsLetters text) (rest : Bytes) :
    skipString (text ++ ascii '"' :: rest) = .ok rest :=
  skipStringFrom_letters h rest (Nat.le_refl _)

/-! ## Values -/

/-- The bracket that opens a container. -/
def Frame.opening : Frame → Char
  | .list => '['
  | .object => '\x7b'

/-- What stands in front of a value in a container: nothing in a list, a key and its colon in an
object. -/
inductive IsLead : Frame → Bytes → Prop
  | list : IsLead .list []
  | object {key : Padded} {letters : Bytes} (h : IsLetters letters)
    (hkey : key.core = ascii '"' :: (letters ++ [ascii '"'])) :
    IsLead .object (key.text ++ [ascii ':'])

/-- An entry of a container: a value with blanks around it, and what stands in front of it. -/
structure Entry where
  lead : Bytes
  value : Padded

/-- The bytes of an entry. -/
def Entry.text (e : Entry) : Bytes := e.lead ++ e.value.text

/-- Whether a text is a value, of any kind and with any values inside. -/
inductive IsValue : Bytes → Prop
  | word {w : String} (h : w ∈ ["null", "true", "false"]) : IsValue (w.toList.map ascii)
  | number {text : Bytes} (h : IsMagnitude text) : IsValue text
  | negative {text : Bytes} (h : IsMagnitude text) : IsValue (ascii '-' :: text)
  | string {letters : Bytes} (h : IsLetters letters) :
    IsValue (ascii '"' :: (letters ++ [ascii '"']))
  | container {frame : Frame} {front : Bytes} {es : List Entry} (hfront : IsBlanks front)
    (hlead : ∀ e ∈ es, IsLead frame e.lead) (h : ∀ e ∈ es, IsValue e.value.core) :
    IsValue (ascii frame.opening :: (front ++ entries frame.closing true (es.map Entry.text)))

/-- Goes on behind a value: with the next one in the containers that are still open, if any. -/
def resume (bound : Nat) (frames : List Frame) (input : Bytes) : Except Failure Bytes :=
  match closeFrames frames input with
  | .error failure => .error failure
  | .ok ([], rest) => .ok rest
  | .ok (frame :: frames, rest) => skipFrom bound (frame :: frames) rest

/-- A round that passes a value goes on behind it. -/
theorem skipFrom_succ {frames frames' : List Frame} {input input' : Bytes}
    (h : skipStep frames input = closeFrames frames' input') (bound : Nat) :
    skipFrom (bound + 1) frames input = resume bound frames' input' := by
  rewrite [skipFrom, h, resume]
  cases closeFrames frames' input' with
  | error failure => rfl
  | ok p => obtain ⟨_ | _, _⟩ := p <;> rfl

/-- Blanks in front of a value are passed with it. -/
theorem skipFrom_congr {x y : Bytes} (h : skipBlanks x = skipBlanks y) (bound : Nat)
    (frames : List Frame) : skipFrom bound frames x = skipFrom bound frames y := by
  cases bound with
  | zero => rfl
  | succ bound => rw [skipFrom, skipFrom, skipStep, skipStep, h]

/-- Whether a value is passed to its end inside any open containers. -/
def IsPassed (text : Bytes) : Prop :=
  ∃ rounds ≤ text.length, ∀ (frames : List Frame) (rest : Bytes) (bound : Nat), EndsNumber rest →
    skipFrom (rounds + bound) frames (text ++ rest) = resume bound frames rest

/-- What one round passes is passed to its end. -/
theorem IsPassed.of_skipStep {text : Bytes} (hne : text ≠ [])
    (h : ∀ frames rest, EndsNumber rest →
      skipStep frames (text ++ rest) = closeFrames frames rest) :
    IsPassed text := by
  refine ⟨1, List.length_pos_iff.mpr hne, fun frames rest bound hr => ?_⟩
  rw [Nat.add_comm]
  exact skipFrom_succ (h frames rest hr) bound

/-- A value begins at once, and not with a closing bracket. -/
theorem IsValue.exists_cons {text : Bytes} (h : IsValue text) :
    ∃ b tail, text = b :: tail ∧ isBlank b = false ∧ b ≠ ascii ']' := by
  have hdigit {b : UInt8} (hb : isDigit b = true) : isBlank b = false ∧ b ≠ ascii ']' := by
    refine ⟨(not_isBlank_of_isDigit hb).1, ?_⟩
    rintro rfl
    exact absurd hb (by decide)
  cases h with
  | word h =>
    simp only [List.mem_cons, List.not_mem_nil, or_false] at h
    rcases h with rfl | rfl | rfl <;> exact ⟨_, _, rfl, rfl, by decide⟩
  | number h =>
    obtain ⟨hwhole, -, -⟩ := h
    cases hwhole with
    | zero => exact ⟨_, _, rfl, rfl, by decide⟩
    | digits hb hzero h => exact ⟨_, _, rfl, hdigit hb⟩
  | negative h => exact ⟨_, _, rfl, rfl, by decide⟩
  | string h => exact ⟨_, _, rfl, rfl, by decide⟩
  | @container frame =>
    cases frame <;> exact ⟨_, _, rfl, rfl, by decide⟩

/-- A colon is found behind blanks. -/
theorem readColon_blanks {blanks : Bytes} (h : IsBlanks blanks) (rest : Bytes) :
    readColon (blanks ++ ascii ':' :: rest) = .ok rest := by
  rw [readColon, skipBlanks_append h]
  rfl

/-- What stands in front of a value in a container is passed. -/
theorem skipToValue_lead {frame : Frame} {lead : Bytes} (h : IsLead frame lead) (rest : Bytes) :
    skipToValue frame (lead ++ rest) = .ok rest := by
  cases h with
  | list => rfl
  | @object key letters h hkey =>
    rw [List.append_assoc, List.singleton_append, skipToValue, skipKey,
      key.skipBlanks_text hkey rfl]
    dsimp only
    rw [if_pos rfl, List.append_assoc, List.singleton_append, skipString_letters h]
    exact readColon_blanks key.isBlanks_behind rest

/-- Blanks in front of an entry make no difference to where its value is found. -/
theorem skipToValue_skipBlanks (frame : Frame) {input rest : Bytes}
    (h : skipToValue frame input = .ok rest) :
    ∃ rest', skipToValue frame (skipBlanks input) = .ok rest' ∧
      skipBlanks rest' = skipBlanks rest := by
  cases frame with
  | list =>
    cases h
    exact ⟨_, rfl, skipBlanks_skipBlanks input⟩
  | object =>
    rw [skipToValue, skipKey, ← skipBlanks_skipBlanks] at h
    exact ⟨rest, h, rfl⟩

/-- A padded value is passed like the bare one with the blanks behind it. -/
theorem Padded.skipFrom_text (p : Padded) (bound : Nat) (frames : List Frame) (rest : Bytes) :
    skipFrom bound frames (p.text ++ rest) =
      skipFrom bound frames (p.core ++ (p.behind ++ rest)) := by
  refine skipFrom_congr ?_ bound frames
  rw [Padded.text, List.append_assoc, List.append_assoc, skipBlanks_append p.isBlanks_front]

/-- There are two brackets that close a container. -/
theorem Frame.closing_eq (frame : Frame) : frame.closing = ']' ∨ frame.closing = '\x7d' := by
  cases frame
  · exact Or.inl rfl
  · exact Or.inr rfl

/-- Behind a value of a container, the other entries are passed up to the bracket that closes the
container. -/
theorem resume_entries {frame : Frame} {es : List Entry} (hlead : ∀ e ∈ es, IsLead frame e.lead)
    (hp : ∀ e ∈ es, IsPassed e.value.core) :
    ∃ rounds ≤ (entries frame.closing false (es.map Entry.text)).length,
      ∀ (blanks : Bytes) (frames : List Frame) (rest : Bytes) (bound : Nat), IsBlanks blanks →
        EndsNumber rest →
        resume (rounds + bound) (frame :: frames)
          (blanks ++ (entries frame.closing false (es.map Entry.text) ++ rest)) =
        resume bound frames rest := by
  induction es with
  | nil =>
    refine ⟨0, Nat.zero_le _, fun blanks frames rest bound hblanks _ => ?_⟩
    have hclose : closeFrames (frame :: frames) (blanks ++ ascii frame.closing :: rest) =
        closeFrames frames rest := by
      rw [closeFrames, skipBlanks_append hblanks]
      cases frame <;> rfl
    rw [List.map_nil, entries, List.singleton_append, Nat.zero_add, resume, hclose, resume]
  | cons e es ih =>
    obtain ⟨hlead, hleads⟩ := List.forall_mem_cons.mp hlead
    obtain ⟨⟨first, hfirst, hpass⟩, hps⟩ := List.forall_mem_cons.mp hp
    obtain ⟨others, hothers, hresume⟩ := ih hleads hps
    -- The rounds of an entry are no more than its bytes, so together they fit into the text.
    refine ⟨first + others, ?_, fun blanks frames rest bound hblanks hr => ?_⟩
    · rw [List.map_cons, entries, List.length_append, List.length_append, Entry.text,
        List.length_append, Padded.text, List.length_append, List.length_append]
      omega
    have hcomma : closeFrames (frame :: frames) (blanks ++ ascii ',' :: (e.lead ++
        (e.value.text ++ (entries frame.closing false (es.map Entry.text) ++ rest)))) =
        .ok (frame :: frames,
          e.value.text ++ (entries frame.closing false (es.map Entry.text) ++ rest)) := by
      have hne : ascii ',' ≠ ascii frame.closing := by cases frame <;> decide
      rw [closeFrames, skipBlanks_append hblanks, skipBlanks_of_not_isBlank rfl]
      dsimp only
      rw [if_neg hne, if_pos rfl, skipToValue_lead hlead]
      rfl
    have htext : entries frame.closing false ((e :: es).map Entry.text) ++ rest =
        ascii ',' :: (e.lead ++
          (e.value.text ++ (entries frame.closing false (es.map Entry.text) ++ rest))) := by
      simp [entries, separator, Entry.text]
    have hends := endsNumber_entries frame.closing_eq (es.map Entry.text) rest
    rw [htext, resume, hcomma]
    dsimp only
    rw [e.value.skipFrom_text, Nat.add_assoc,
      hpass _ _ _ (.append e.value.isBlanks_behind hends)]
    exact hresume _ frames rest bound e.value.isBlanks_behind hr

/-- Behind its bracket a container is opened, and its first value comes next. -/
theorem openFrame_lead {frame : Frame} {front : Bytes} {e : Entry} (hfront : IsBlanks front)
    (hlead : IsLead frame e.lead) (hvalue : IsValue e.value.core) (frames : List Frame)
    (more : Bytes) :
    ∃ rest, openFrame frame frames (front ++ (e.lead ++ (e.value.text ++ more))) =
        .ok (frame :: frames, rest) ∧ skipBlanks rest = skipBlanks (e.value.text ++ more) := by
  obtain ⟨rest, hskip, hblanks⟩ :=
    skipToValue_skipBlanks frame (skipToValue_lead hlead (e.value.text ++ more))
  refine ⟨rest, ?_, hblanks⟩
  have hhead : ∃ b tail, skipBlanks (e.lead ++ (e.value.text ++ more)) = b :: tail ∧
      b ≠ ascii frame.closing := by
    obtain ⟨lead, value⟩ := e
    cases hlead with
    | list =>
      obtain ⟨b, tail, heq, hb, hne⟩ := hvalue.exists_cons
      exact ⟨b, _, value.skipBlanks_text heq hb more, hne⟩
    | @object key letters h hkey =>
      have hkey := key.skipBlanks_text hkey rfl (ascii ':' :: (value.text ++ more))
      exact ⟨_, _, (congrArg skipBlanks (List.append_assoc ..)).trans hkey, by decide⟩
  obtain ⟨b, tail, heq, hne⟩ := hhead
  rw [heq] at hskip
  rw [openFrame, skipBlanks_append hfront, heq]
  dsimp only
  rw [if_neg hne, hskip]
  rfl

/-- A container is passed when the values in it are. -/
theorem isPassed_container {frame : Frame} {front : Bytes} {es : List Entry}
    (hfront : IsBlanks front) (hlead : ∀ e ∈ es, IsLead frame e.lead)
    (hvalue : ∀ e ∈ es, IsValue e.value.core) (hp : ∀ e ∈ es, IsPassed e.value.core) :
    IsPassed
      (ascii frame.opening :: (front ++ entries frame.closing true (es.map Entry.text))) := by
  have hopen (frames : List Frame) (more : Bytes) :
      skipStep frames (ascii frame.opening :: more) = openFrame frame frames more := by
    cases frame <;> rfl
  cases es with
  | nil =>
    refine .of_skipStep nofun fun frames rest _ => ?_
    rw [List.cons_append, hopen, openFrame, List.append_assoc, skipBlanks_append hfront]
    cases frame <;> rfl
  | cons e es =>
    obtain ⟨hlead, hleads⟩ := List.forall_mem_cons.mp hlead
    obtain ⟨⟨first, hfirst, hpass⟩, hps⟩ := List.forall_mem_cons.mp hp
    obtain ⟨others, hothers, hresume⟩ := resume_entries hleads hps
    refine ⟨first + others + 1, ?_, fun frames rest bound hr => ?_⟩
    · rw [List.map_cons, entries, List.length_cons, List.length_append, List.length_append,
        List.length_append, Entry.text, List.length_append, Padded.text, List.length_append,
        List.length_append]
      omega
    have htext : front ++ entries frame.closing true ((e :: es).map Entry.text) ++ rest =
        front ++ (e.lead ++
          (e.value.text ++ (entries frame.closing false (es.map Entry.text) ++ rest))) := by
      simp [entries, separator, Entry.text]
    obtain ⟨behind, hfirst, hblanks⟩ := openFrame_lead hfront hlead
      (hvalue e List.mem_cons_self) frames (entries frame.closing false (es.map Entry.text) ++ rest)
    have hends := endsNumber_entries frame.closing_eq (es.map Entry.text) rest
    rw [Nat.add_right_comm, List.cons_append, htext, skipFrom, hopen, hfirst]
    dsimp only
    rw [skipFrom_congr hblanks, e.value.skipFrom_text, Nat.add_assoc,
      hpass _ _ _ (.append e.value.isBlanks_behind hends)]
    exact hresume _ frames rest bound e.value.isBlanks_behind hr

/-- A number takes one round. -/
theorem skipStep_magnitude {text rest : Bytes} (h : IsMagnitude text) (hr : EndsNumber rest)
    (frames : List Frame) : skipStep frames (text ++ rest) = closeFrames frames rest := by
  have hnumber := skipNumber_magnitude h hr
  obtain ⟨b, tail, rfl, hb⟩ : ∃ b tail, text = b :: tail ∧ isDigit b = true := by
    obtain ⟨hwhole, -, -⟩ := h
    cases hwhole with
    | zero => exact ⟨_, _, rfl, rfl⟩
    | digits hb => exact ⟨_, _, rfl, hb⟩
  have hne {c : Char} (hc : isDigit (ascii c) = false) : b ≠ ascii c := by
    rintro rfl
    exact absurd (hb.symm.trans hc) nofun
  rw [List.cons_append] at hnumber ⊢
  rw [skipStep, skipBlanks_of_not_isBlank (not_isBlank_of_isDigit hb).1]
  dsimp only
  rw [if_neg (hne rfl), if_neg (hne rfl), if_neg (hne rfl), if_neg (hne rfl), if_pos hb, hnumber]
  rfl

/-- A value of any kind is passed: words, numbers and strings in one round, containers by induction.
-/
theorem isPassed_of_isValue {text : Bytes} (h : IsValue text) : IsPassed text := by
  induction h with
  | word h =>
    simp only [List.mem_cons, List.not_mem_nil, or_false] at h
    rcases h with rfl | rfl | rfl <;> exact .of_skipStep (by decide) fun _ _ _ => rfl
  | @number text h =>
    refine .of_skipStep ?_ fun frames rest hr => skipStep_magnitude h hr frames
    obtain ⟨b, tail, rfl, -⟩ := (IsValue.number h).exists_cons
    exact nofun
  | @negative text h =>
    refine .of_skipStep nofun fun frames rest hr => ?_
    have hstep : skipStep frames (ascii '-' :: (text ++ rest)) =
        skipNumber (text ++ rest) >>= closeFrames frames := rfl
    rw [List.cons_append, hstep, skipNumber_magnitude h hr]
    rfl
  | @string letters h =>
    refine .of_skipStep nofun fun frames rest _ => ?_
    have hstep (more : Bytes) : skipStep frames (ascii '"' :: more) =
        skipString more >>= closeFrames frames := rfl
    rw [List.cons_append, List.append_assoc, List.singleton_append, hstep, skipString_letters h]
    rfl
  | container hfront hlead h ih => exact isPassed_container hfront hlead h ih

/-- A value of any kind is passed, with the blanks in front of it, to exactly its end. -/
theorem skipValue_padded (p : Padded) (h : IsValue p.core) {rest : Bytes} (hr : EndsNumber rest) :
    skipValue (p.text ++ rest) = .ok (p.behind ++ rest) := by
  obtain ⟨rounds, hrounds, hpass⟩ := isPassed_of_isValue h
  have hlength : rounds ≤ (p.text ++ rest).length := by
    rw [List.length_append, Padded.text, List.length_append, List.length_append]
    omega
  obtain ⟨bound, hbound⟩ := Nat.exists_eq_add_of_le hlength
  rw [skipValue, p.skipFrom_text, hbound, hpass _ _ _ (.append p.isBlanks_behind hr)]
  rfl

end Json

end ScoringMarkup
