import Mathlib.Data.List.TakeWhile
import ScoringMarkup.Json.Skipping
import ScoringMarkup.Proofs.Json.Containers

/-!
# Where a reader stands

A reader that is given the rest of a document has passed what comes before it. The scan over the
bytes passed counts the containers that the reader has open: each function that passes blanks,
words, numbers, strings or whole skipped values stops where the scan has as many open as before,
or fails for the form of what it meets.
-/

namespace ScoringMarkup

namespace Json

/-- What holds of an outcome: one thing of a result, another of a failure. -/
def Meets {α : Type} (x : Except Failure α) (result : α → Prop) (failed : Failure → Prop) : Prop :=
  match x with
  | .ok a => result a
  | .error failure => failed failure

namespace Meets

variable {α β : Type} {result : α → Prop} {failed failed' : Failure → Prop}

/-- What follows a result has to meet what is asked of it; a failure stays as it is. -/
theorem bind {next : β → Prop} {x : Except Failure α} {f : α → Except Failure β}
    (hx : Meets x result failed) (hf : ∀ a, result a → Meets (f a) next failed) :
    Meets (x >>= f) next failed := by
  cases x with
  | error failure => exact hx
  | ok a => exact hf a hx

/-- Less may be asked of a failure. -/
theorem imp_failed {x : Except Failure α} (hx : Meets x result failed)
    (h : ∀ failure, failed failure → failed' failure) : Meets x result failed' := by
  cases x with
  | error failure => exact h failure hx
  | ok a => exact hx

end Meets

/-- Whether a cause is one of form: a break of the format other than too many open containers, or
an early end of the document. -/
def Cause.isFormal : Cause → Bool
  | .tooDeep => false
  | cause => cause.category = .format || cause.category = .endOfDocument

/-- Whether a failure is one of form. -/
def Failure.IsFormal (failure : Failure) : Prop := failure.cause.isFormal = true

/-- Whether a reader of a document stands in front of `rest` while the scan over what it has
passed stands at `s`. -/
def Reached (document : Bytes) (s : Scan) (rest : Bytes) : Prop :=
  ∃ passed, document = passed ++ rest ∧ Scan.run ⟨0, .outside⟩ passed = s

variable {document input rest : Bytes} {o : Nat} {p q : Place}

namespace Reached

/-- A reader starts in front of the document, with nothing open. -/
theorem start (document : Bytes) : Reached document ⟨0, .outside⟩ document := ⟨[], rfl, rfl⟩

/-- A byte passed is a step of the scan. -/
theorem cons {s : Scan} {b : UInt8} (h : Reached document s (b :: rest)) :
    Reached document (s.step b) rest := by
  obtain ⟨passed, rfl, rfl⟩ := h
  exact ⟨passed ++ [b], by simp, by simp⟩

/-- Bytes passed are a run of the scan. -/
theorem append {text : Bytes} (h : Reached document ⟨o, p⟩ (text ++ rest))
    (ht : LeadsTo p q text) : Reached document ⟨o, q⟩ rest := by
  obtain ⟨passed, rfl, hrun⟩ := h
  exact ⟨passed ++ text, (List.append_assoc ..).symm, by rw [Scan.run_append, hrun, ht.run_eq]⟩

end Reached

/-- Whether a byte opens a container, outside of strings. -/
def IsOpening (b : UInt8) : Prop := b = ascii '[' ∨ b = ascii '\x7b'

namespace Reached

/-- Behind a bracket that opens a container, one more is open. -/
theorem opening {b : UInt8} (hb : IsOpening b) (h : Reached document ⟨o, .outside⟩ (b :: rest)) :
    Reached document ⟨o + 1, .outside⟩ rest := by
  rcases hb with rfl | rfl <;> exact h.cons

/-- The rest of a document tells where the scan over what comes before it stands. -/
theorem unique {s s' : Scan} (h : Reached document s rest) (h' : Reached document s' rest) :
    s = s' := by
  obtain ⟨passed, rfl, rfl⟩ := h
  obtain ⟨passed', heq, rfl⟩ := h'
  rw [List.append_cancel_right heq]

end Reached

/-- Whether a byte is none by which a scan outside strings counts. -/
def IsUnmarked (b : UInt8) : Prop :=
  b ∉ [ascii '"', ascii '[', ascii ']', ascii '\x7b', ascii '\x7d']

instance (b : UInt8) : Decidable (IsUnmarked b) := inferInstanceAs (Decidable (b ∉ _))

/-- A digit opens and closes nothing. -/
theorem isUnmarked_of_isDigit {b : UInt8} (h : isDigit b = true) : IsUnmarked b := by
  intro hmark
  simp only [List.mem_cons, List.not_mem_nil, or_false] at hmark
  rcases hmark with rfl | rfl | rfl | rfl | rfl <;> exact absurd h (by decide)

/-- A blank opens and closes nothing. -/
theorem isUnmarked_of_isBlank {b : UInt8} (h : isBlank b = true) : IsUnmarked b := by
  intro hmark
  simp only [List.mem_cons, List.not_mem_nil, or_false] at hmark
  rcases hmark with rfl | rfl | rfl | rfl | rfl <;> exact absurd h (by decide)

namespace Reached

/-- Behind a byte that the scan does not count by, as many containers are open as before. -/
theorem unmarked {b : UInt8} (h : Reached document ⟨o, .outside⟩ (b :: rest))
    (hb : IsUnmarked b) : Reached document ⟨o, .outside⟩ rest :=
  Reached.append (show Reached document _ ([b] ++ rest) from h)
    (.unmarked fun _ hmem => List.mem_singleton.mp hmem ▸ hb)

/-- A whole row of such bytes may be passed. -/
theorem dropWhile {skips : UInt8 → Bool} (hskips : ∀ b, skips b = true → IsUnmarked b)
    (h : Reached document ⟨o, .outside⟩ input) :
    Reached document ⟨o, .outside⟩ (input.dropWhile skips) := by
  rw [← List.takeWhile_append_dropWhile (p := skips) (l := input)] at h
  exact h.append (.unmarked fun b hb => hskips b (List.mem_takeWhile_imp hb))

/-- Blanks may be passed. -/
theorem skipBlanks (h : Reached document ⟨o, .outside⟩ input) :
    Reached document ⟨o, .outside⟩ (skipBlanks input) :=
  h.dropWhile fun _ => isUnmarked_of_isBlank

/-- What stands behind blanks is reached with them. -/
theorem ofBlanks {b : UInt8} (h : Reached document ⟨o, .outside⟩ input)
    (heq : Json.skipBlanks input = b :: rest) : Reached document ⟨o, .outside⟩ (b :: rest) :=
  heq ▸ h.skipBlanks

/-- Digits may be passed. -/
theorem digits (h : Reached document ⟨o, .outside⟩ input) :
    Reached document ⟨o, .outside⟩ (input.dropWhile isDigit) :=
  h.dropWhile fun _ => isUnmarked_of_isDigit

end Reached

/-- A word is passed letter by letter. -/
theorem readWord_meets {letters : List Char}
    (hletters : (letters.all fun c => IsUnmarked (ascii c)) = true)
    (h : Reached document ⟨o, .outside⟩ input) :
    Meets (readWord letters input) (Reached document ⟨o, .outside⟩) Failure.IsFormal := by
  induction letters generalizing input with
  | nil => exact h
  | cons c letters ih =>
    rw [List.all_cons, Bool.and_eq_true, decide_eq_true_eq] at hletters
    obtain ⟨hc, hletters⟩ := hletters
    cases input with
    | nil => rfl
    | cons b rest =>
      rw [readWord]
      split_ifs with hb
      · subst hb
        exact ih hletters (h.unmarked hc)
      · rfl

/-- A colon is passed with the blanks in front of it. -/
theorem readColon_meets (h : Reached document ⟨o, .outside⟩ input) :
    Meets (readColon input) (Reached document ⟨o, .outside⟩) Failure.IsFormal := by
  unfold readColon
  cases heq : skipBlanks input with
  | nil => rfl
  | cons b rest =>
    dsimp only
    split_ifs with hb
    · subst hb
      exact (h.ofBlanks heq).unmarked (by decide)
    · rfl

/-! ## Numbers -/

/-- Digits taken into a value are passed. -/
theorem Reached.takeDigits (h : Reached document ⟨o, .outside⟩ input) (value count : Nat) :
    Reached document ⟨o, .outside⟩ (takeDigits value count input).rest := by
  fun_induction Json.takeDigits value count input with
  | case1 => exact h
  | case2 value count b rest hb ih => exact ih (h.unmarked (isUnmarked_of_isDigit hb.1))
  | case3 => exact h

/-- Nothing more is passed when a double is made of its parts. -/
theorem finishDouble_meets (negative : Bool) (significand : Nat) (exponent : Int)
    (h : Reached document ⟨o, .outside⟩ input) :
    Meets (finishDouble negative significand exponent input)
      (fun p => Reached document ⟨o, .outside⟩ p.2) Failure.IsFormal := by
  unfold finishDouble
  cases Double.ofScaled? significand exponent with
  | some x => exact h
  | none => rfl

/-- The digits of an exponent are passed, whether or not they fit 32 bits. -/
theorem readExponentDigits_meets (negative : Bool) (significand : Nat) (exponent : Int)
    (lowering : Bool) (h : Reached document ⟨o, .outside⟩ input) :
    Meets (readExponentDigits negative significand exponent lowering input)
      (fun p => Reached document ⟨o, .outside⟩ p.2) Failure.IsFormal := by
  cases input with
  | nil => rfl
  | cons b rest =>
    rw [readExponentDigits]
    by_cases hd : isDigit b = true
    · have hdigits := (h.unmarked (isUnmarked_of_isDigit hd)).digits
      rw [if_pos hd]
      by_cases hfits : digitsValue (b :: rest) ≤ largestExponent
      · rw [if_pos hfits]
        exact finishDouble_meets _ _ _ hdigits
      · rw [if_neg hfits]
        by_cases hzero : lowering = true ∨ significand = 0
        · rw [if_pos hzero]
          exact hdigits
        · rw [if_neg hzero]
          rfl
    · rw [if_neg hd]
      rfl

/-- An exponent is passed behind its letter. -/
theorem readExponent_meets (negative : Bool) (significand : Nat) (exponent : Int)
    (h : Reached document ⟨o, .outside⟩ input) :
    Meets (readExponent negative significand exponent input)
      (fun p => Reached document ⟨o, .outside⟩ p.2) Failure.IsFormal := by
  cases input with
  | nil => rfl
  | cons b rest =>
    rw [readExponent]
    split_ifs with hplus hminus
    · subst hplus
      exact readExponentDigits_meets _ _ _ _ (h.unmarked (by decide))
    · subst hminus
      exact readExponentDigits_meets _ _ _ _ (h.unmarked (by decide))
    · exact readExponentDigits_meets _ _ _ _ h

/-- The letter in front of an exponent opens and closes nothing. -/
theorem isUnmarked_of_isExponentLetter {b : UInt8} (h : b = ascii 'e' ∨ b = ascii 'E') :
    IsUnmarked b := by
  rcases h with rfl | rfl <;> decide

/-- What follows the digits of a double is passed if it is an exponent. -/
theorem readAfterFraction_meets (negative : Bool) (significand : Nat) (exponent : Int)
    (h : Reached document ⟨o, .outside⟩ input) :
    Meets (readAfterFraction negative significand exponent input)
      (fun p => Reached document ⟨o, .outside⟩ p.2) Failure.IsFormal := by
  cases input with
  | nil => exact finishDouble_meets _ _ _ h
  | cons b rest =>
    rw [readAfterFraction]
    split_ifs with hb
    · exact readExponent_meets _ _ _ (h.unmarked (isUnmarked_of_isExponentLetter hb))
    · exact finishDouble_meets _ _ _ h

/-- A fraction is passed behind its point. -/
theorem readFraction_meets (negative : Bool) (significand : Nat) (exponent : Int)
    (h : Reached document ⟨o, .outside⟩ input) :
    Meets (readFraction negative significand exponent input)
      (fun p => Reached document ⟨o, .outside⟩ p.2) Failure.IsFormal := by
  have htaken := h.takeDigits significand 0
  cases input with
  | nil => rfl
  | cons b rest =>
    rw [readFraction]
    split_ifs with hd
    · exact readAfterFraction_meets _ _ _ htaken.digits
    · rfl

/-- What follows the whole part of a double is passed. -/
theorem readAfterWhole_meets (negative : Bool) (significand dropped : Nat)
    (h : Reached document ⟨o, .outside⟩ input) :
    Meets (readAfterWhole negative significand dropped input)
      (fun p => Reached document ⟨o, .outside⟩ p.2) Failure.IsFormal := by
  cases input with
  | nil => exact finishDouble_meets _ _ _ h
  | cons b rest =>
    rw [readAfterWhole]
    split_ifs with hpoint
    · subst hpoint
      exact readFraction_meets _ _ _ (h.unmarked (by decide))
    · exact readAfterFraction_meets _ _ _ h

/-- What follows a whole part that fits is passed if it makes the number a double. -/
theorem readAfterInteger_meets (negative : Bool) (value : Nat)
    (h : Reached document ⟨o, .outside⟩ input) :
    Meets (readAfterInteger negative value input)
      (fun p => Reached document ⟨o, .outside⟩ p.2) Failure.IsFormal := by
  cases input with
  | nil => exact h
  | cons b rest =>
    rw [readAfterInteger]
    split_ifs with hdouble
    · exact readAfterWhole_meets _ _ _ h
    · exact h

/-- A number is passed. -/
theorem readNumber_meets (negative : Bool) (h : Reached document ⟨o, .outside⟩ input) :
    Meets (readNumber negative input)
      (fun p => Reached document ⟨o, .outside⟩ p.2) Failure.IsFormal := by
  have htaken := h.takeDigits 0 0
  cases input with
  | nil => rfl
  | cons b rest =>
    rw [readNumber]
    dsimp only
    split_ifs with hzero hdigit hd hdropped
    · rfl
    · subst hzero
      exact readAfterInteger_meets _ _ (h.unmarked (by decide))
    · exact readAfterWhole_meets _ _ _ htaken.digits
    · exact readAfterInteger_meets _ _ htaken
    · rfl

/-- The digits of a skipped exponent are passed. -/
theorem skipExponentDigits_meets (h : Reached document ⟨o, .outside⟩ input) :
    Meets (skipExponentDigits input) (Reached document ⟨o, .outside⟩) Failure.IsFormal := by
  cases input with
  | nil => rfl
  | cons b rest =>
    rw [skipExponentDigits]
    split_ifs with hd
    · exact (h.unmarked (isUnmarked_of_isDigit hd)).digits
    · rfl

/-- A skipped exponent is passed behind its letter. -/
theorem skipExponent_meets (h : Reached document ⟨o, .outside⟩ input) :
    Meets (skipExponent input) (Reached document ⟨o, .outside⟩) Failure.IsFormal := by
  cases input with
  | nil => rfl
  | cons b rest =>
    rw [skipExponent]
    split_ifs with hsign
    · refine skipExponentDigits_meets (h.unmarked ?_)
      rcases hsign with rfl | rfl <;> decide
    · exact skipExponentDigits_meets h

/-- What follows the digits of a skipped number is passed if it is an exponent. -/
theorem skipAfterFraction_meets (h : Reached document ⟨o, .outside⟩ input) :
    Meets (skipAfterFraction input) (Reached document ⟨o, .outside⟩) Failure.IsFormal := by
  cases input with
  | nil => exact h
  | cons b rest =>
    rw [skipAfterFraction]
    split_ifs with hb
    · exact skipExponent_meets (h.unmarked (isUnmarked_of_isExponentLetter hb))
    · exact h

/-- What follows the whole part of a skipped number is passed. -/
theorem skipAfterWhole_meets (h : Reached document ⟨o, .outside⟩ input) :
    Meets (skipAfterWhole input) (Reached document ⟨o, .outside⟩) Failure.IsFormal := by
  cases input with
  | nil => exact h
  | cons b rest =>
    rw [skipAfterWhole]
    split_ifs with hpoint hdigit
    · subst hpoint
      exact skipAfterFraction_meets (h.unmarked (by decide)).digits
    · rfl
    · exact skipAfterFraction_meets h

/-- A skipped number is passed. -/
theorem skipNumber_meets (h : Reached document ⟨o, .outside⟩ input) :
    Meets (skipNumber input) (Reached document ⟨o, .outside⟩) Failure.IsFormal := by
  cases input with
  | nil => rfl
  | cons b rest =>
    rw [skipNumber]
    split_ifs with hzero hdigit hd
    · rfl
    · subst hzero
      exact skipAfterWhole_meets (h.unmarked (by decide))
    · exact skipAfterWhole_meets (h.unmarked (isUnmarked_of_isDigit hd)).digits
    · rfl

/-! ## Strings -/

/-- Inside a string, all bytes but the quote and the backslash may be passed. -/
theorem Reached.inString {b : UInt8} (h : Reached document ⟨o, .inString⟩ (b :: rest))
    (hq : b ≠ ascii '"') (hs : b ≠ ascii '\\') : Reached document ⟨o, .inString⟩ rest := by
  have hcons := h.cons
  simp only [Scan.step] at hcons
  rwa [if_neg hq, if_neg hs] at hcons

/-- A digit of a code point is neither a quote nor a backslash. -/
theorem Reached.hexDigit {b : UInt8} {n : Nat} (h : Reached document ⟨o, .inString⟩ (b :: rest))
    (hb : hexValue? b = some n) : Reached document ⟨o, .inString⟩ rest := by
  refine h.inString ?_ ?_
  · rintro rfl
    cases hb
  · rintro rfl
    cases hb

/-- Four digits of a code point are passed. -/
theorem readHex_meets (h : Reached document ⟨o, .inString⟩ input) :
    Meets (readHex input) (fun p => Reached document ⟨o, .inString⟩ p.2) Failure.IsFormal := by
  fun_cases readHex input with
  | case1 b₁ b₂ b₃ b₄ rest n₁ n₂ n₃ n₄ h₄ h₃ h₂ h₁ =>
    exact (((h.hexDigit h₁).hexDigit h₂).hexDigit h₃).hexDigit h₄
  | case2 => rfl
  | case3 => rfl

/-- A given byte inside an escape is passed by a step of the scan. -/
theorem readPairMark_meets {mark : Char} (h : Reached document ⟨o, p⟩ input)
    (hstep : Scan.step ⟨o, p⟩ (ascii mark) = ⟨o, q⟩) :
    Meets (readPairMark mark input) (Reached document ⟨o, q⟩) Failure.IsFormal := by
  cases input with
  | nil => rfl
  | cons b rest =>
    rw [readPairMark]
    split_ifs with hb
    · subst hb
      exact hstep ▸ h.cons
    · rfl

/-- A character given by its code point is passed, a surrogate with the other of its pair. -/
theorem readCodePoint_meets (h : Reached document ⟨o, .inString⟩ input) :
    Meets (readCodePoint input) (fun p => Reached document ⟨o, .inString⟩ p.2)
      Failure.IsFormal := by
  refine (readHex_meets h).bind fun ⟨first, rest⟩ h => ?_
  dsimp only
  split_ifs
  · rfl
  · refine (readPairMark_meets (q := .escaped) h rfl).bind fun rest h => ?_
    refine (readPairMark_meets (q := .inString) h rfl).bind fun rest h => ?_
    refine (readHex_meets h).bind fun ⟨second, rest⟩ h => ?_
    dsimp only
    split_ifs
    · exact h
    · rfl
  · exact h

/-- An escape is passed behind its backslash, whatever its letter. -/
theorem readEscape_meets (h : Reached document ⟨o, .escaped⟩ input) :
    Meets (readEscape input) (fun p => Reached document ⟨o, .inString⟩ p.2) Failure.IsFormal := by
  cases input with
  | nil => rfl
  | cons b rest =>
    have hbehind := h.cons
    rw [readEscape]
    by_cases hu : b = ascii 'u'
    · rw [if_pos hu]
      exact (readCodePoint_meets hbehind).bind fun _ h => h
    · rw [if_neg hu]
      cases shortEscape? b with
      | some byte => exact hbehind
      | none => rfl

/-- The rest of a string is passed, up to and including its closing quote. -/
theorem readStringFrom_meets (bound : Nat) (done : Bytes)
    (h : Reached document ⟨o, .inString⟩ input) :
    Meets (readStringFrom bound done input) (fun p => Reached document ⟨o, .outside⟩ p.2)
      Failure.IsFormal := by
  fun_induction readStringFrom bound done input with
  | case1 | case2 => rfl
  | case3 => exact h.cons
  | case4 => rfl
  | case5 bound done rest bytes rest' heq hq ih =>
    have hescape := readEscape_meets h.cons
    rw [heq] at hescape
    exact ih hescape
  | case6 bound done rest failure heq hq =>
    have hescape := readEscape_meets h.cons
    rw [heq] at hescape
    exact hescape
  | case7 => rfl
  | case8 bound done b rest hq hs hc ih => exact ih (h.inString hq hs)

/-- A string is passed behind its opening quote. -/
theorem readString_meets (h : Reached document ⟨o, .inString⟩ input) :
    Meets (readString input) (fun p => Reached document ⟨o, .outside⟩ p.2) Failure.IsFormal :=
  readStringFrom_meets _ _ h

/-- A skipped escape is passed behind its backslash. -/
theorem skipEscape_meets (h : Reached document ⟨o, .escaped⟩ input) :
    Meets (skipEscape input) (Reached document ⟨o, .inString⟩) Failure.IsFormal := by
  cases input with
  | nil => rfl
  | cons b rest =>
    have hbehind := h.cons
    rw [skipEscape]
    split_ifs with hu hshort
    · exact (readHex_meets hbehind).bind fun _ h => h
    · exact hbehind
    · rfl

/-- The rest of a skipped string is passed, up to and including its closing quote. -/
theorem skipStringFrom_meets (bound : Nat) (h : Reached document ⟨o, .inString⟩ input) :
    Meets (skipStringFrom bound input) (Reached document ⟨o, .outside⟩) Failure.IsFormal := by
  fun_induction skipStringFrom bound input with
  | case1 | case2 => rfl
  | case3 => exact h.cons
  | case4 bound rest rest' heq hq ih =>
    have hescape := skipEscape_meets h.cons
    rw [heq] at hescape
    exact ih hescape
  | case5 bound rest failure heq hq =>
    have hescape := skipEscape_meets h.cons
    rw [heq] at hescape
    exact hescape
  | case6 => rfl
  | case7 bound b rest hq hs hc ih => exact ih (h.inString hq hs)

/-- A skipped string is passed behind its opening quote. -/
theorem skipString_meets (h : Reached document ⟨o, .inString⟩ input) :
    Meets (skipString input) (Reached document ⟨o, .outside⟩) Failure.IsFormal :=
  skipStringFrom_meets _ h

/-! ## Skipped values -/

/-- A closing bracket closes one of the open containers. -/
theorem Reached.closing {frame : Frame}
    (h : Reached document ⟨o + 1, .outside⟩ (ascii frame.closing :: rest)) :
    Reached document ⟨o, .outside⟩ rest := by
  cases frame <;> exact h.cons

/-- The end of the document inside a container is a fault of form. -/
theorem Frame.isFormal_endCause (frame : Frame) : frame.endCause.isFormal = true := by
  cases frame <;> rfl

/-- A missing comma is a fault of form. -/
theorem Frame.isFormal_separatorCause (frame : Frame) : frame.separatorCause.isFormal = true := by
  cases frame <;> rfl

/-- A skipped key is passed with its colon. -/
theorem skipKey_meets (h : Reached document ⟨o, .outside⟩ input) :
    Meets (skipKey input) (Reached document ⟨o, .outside⟩) Failure.IsFormal := by
  unfold skipKey
  cases heq : skipBlanks input with
  | nil => rfl
  | cons b rest =>
    dsimp only
    split_ifs with hb
    · subst hb
      exact (skipString_meets (h.ofBlanks heq).cons).bind fun _ h => readColon_meets h
    · rfl

/-- What stands in front of the next skipped value is passed. -/
theorem skipToValue_meets (frame : Frame) (h : Reached document ⟨o, .outside⟩ input) :
    Meets (skipToValue frame input) (Reached document ⟨o, .outside⟩) Failure.IsFormal := by
  cases frame with
  | list => exact h
  | object => exact skipKey_meets h

/-- Behind a value, the containers that are still open are those of the frames returned. -/
theorem closeFrames_meets (frames : List Frame)
    (h : Reached document ⟨o + frames.length, .outside⟩ input) :
    Meets (closeFrames frames input)
      (fun p => Reached document ⟨o + p.1.length, .outside⟩ p.2) Failure.IsFormal := by
  induction frames generalizing input with
  | nil => exact h
  | cons frame frames ih =>
    unfold closeFrames
    cases heq : skipBlanks input with
    | nil => exact frame.isFormal_endCause
    | cons b rest =>
      have h := h.ofBlanks heq
      dsimp only
      split_ifs with hclosing hcomma
      · subst hclosing
        exact ih h.closing
      · subst hcomma
        exact (skipToValue_meets frame (h.unmarked (by decide))).bind fun _ h => h
      · exact frame.isFormal_separatorCause

/-- Behind an opening bracket, its container is open unless it is closed at once. -/
theorem openFrame_meets (frame : Frame) (frames : List Frame)
    (h : Reached document ⟨o + frames.length + 1, .outside⟩ input) :
    Meets (openFrame frame frames input)
      (fun p => Reached document ⟨o + p.1.length, .outside⟩ p.2) Failure.IsFormal := by
  unfold openFrame
  cases heq : skipBlanks input with
  | nil => exact frame.isFormal_endCause
  | cons b rest =>
    have h := h.ofBlanks heq
    dsimp only
    split_ifs with hclosing
    · subst hclosing
      exact closeFrames_meets frames h.closing
    · exact (skipToValue_meets frame h).bind fun _ h => h

/-- A step over a value keeps the open containers in the frames. -/
theorem skipStep_meets (frames : List Frame)
    (h : Reached document ⟨o + frames.length, .outside⟩ input) :
    Meets (skipStep frames input)
      (fun p => Reached document ⟨o + p.1.length, .outside⟩ p.2) Failure.IsFormal := by
  have hclose : ∀ rest, Reached document ⟨o + frames.length, .outside⟩ rest →
      Meets (closeFrames frames rest)
        (fun p => Reached document ⟨o + p.1.length, .outside⟩ p.2) Failure.IsFormal :=
    fun _ => closeFrames_meets frames
  unfold skipStep
  cases heq : skipBlanks input with
  | nil => rfl
  | cons b rest =>
    have h := h.ofBlanks heq
    dsimp only
    split_ifs with hnull htrue hfalse hminus hdigit hstring hlist hobject
    · subst hnull
      exact (readWord_meets (by decide) (h.unmarked (by decide))).bind hclose
    · subst htrue
      exact (readWord_meets (by decide) (h.unmarked (by decide))).bind hclose
    · subst hfalse
      exact (readWord_meets (by decide) (h.unmarked (by decide))).bind hclose
    · subst hminus
      exact (skipNumber_meets (h.unmarked (by decide))).bind hclose
    · exact (skipNumber_meets h).bind hclose
    · subst hstring
      exact (skipString_meets h.cons).bind hclose
    · subst hlist
      exact openFrame_meets .list frames h.cons
    · subst hobject
      exact openFrame_meets .object frames h.cons
    · rfl

/-- Values are passed until all frames are closed. -/
theorem skipFrom_meets (bound : Nat) (frames : List Frame)
    (h : Reached document ⟨o + frames.length, .outside⟩ input) :
    Meets (skipFrom bound frames input) (Reached document ⟨o, .outside⟩) Failure.IsFormal := by
  induction bound generalizing frames input with
  | zero => rfl
  | succ bound ih =>
    have hstep := skipStep_meets frames h
    unfold skipFrom
    cases heq : skipStep frames input with
    | error failure =>
      rw [heq] at hstep
      exact hstep
    | ok p =>
      rw [heq] at hstep
      obtain ⟨frames, rest⟩ := p
      cases frames with
      | nil => exact hstep
      | cons frame frames => exact ih _ hstep

/-- A skipped value leaves as many containers open as there were, however many it opens itself. -/
theorem skipValue_meets (h : Reached document ⟨o, .outside⟩ input) :
    Meets (skipValue input) (Reached document ⟨o, .outside⟩) Failure.IsFormal :=
  skipFrom_meets _ [] h

end Json

end ScoringMarkup
