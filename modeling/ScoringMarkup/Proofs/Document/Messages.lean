import ScoringMarkup.Proofs.Document.Depth

/-!
# Messages that speak of nesting

Which messages have the words by which a failure of nesting is known: that of the nesting limit
itself, and those that quote the words from a document, in an unknown name of a variant or in a
string that stands where something else is asked for. Every other message shows nothing of the
document but numbers, and no text of the grammar has the words.
-/

namespace ScoringMarkup

namespace Document

open Json

/-! ## Words inside texts -/

section Words

variable {word a b : List Char} {c : Char}

/-- No word begins with a character that it does not have. -/
theorem eq_nil_of_prefix_cons (hc : c ∉ word) (h : word <+: c :: b) : word = [] := by
  cases word with
  | nil => rfl
  | cons w word =>
    obtain ⟨rfl, -⟩ := List.cons_prefix_cons.mp h
    exact absurd List.mem_cons_self hc

/-- No word goes across a character that it does not have. -/
theorem infix_append_cons_iff (hc : c ∉ word) :
    word <:+: a ++ c :: b ↔ word <:+: a ∨ word <:+: b := by
  constructor
  · intro h
    rcases List.infix_append_iff.mp h with h | h | ⟨front, behind, rfl, hfront, hbehind⟩
    · exact Or.inl h
    · rcases List.infix_cons_iff.mp h with h | h
      · obtain rfl := eq_nil_of_prefix_cons hc h
        exact Or.inl List.nil_infix
      · exact Or.inr h
    · obtain rfl := eq_nil_of_prefix_cons (fun hmem => hc (List.mem_append_right _ hmem)) hbehind
      rw [List.append_nil]
      exact Or.inl hfront.isInfix
  · rintro (h | h)
    · exact List.infix_append_of_infix_left h
    · exact List.infix_append_of_infix_right (List.infix_cons h)

/-- No word goes across the end of a text if its last letter is not behind. -/
theorem infix_append_iff_of_not_mem {init : List Char} (hc : c ∉ b) :
    init ++ [c] <:+: a ++ b ↔ init ++ [c] <:+: a := by
  refine ⟨fun h => ?_, List.infix_append_of_infix_left⟩
  rcases List.infix_append_iff.mp h with h | h | ⟨front, behind, heq, hfront, hbehind⟩
  · exact h
  · exact absurd (h.subset (List.mem_append_right _ List.mem_cons_self)) hc
  · -- A word across the end would have its last letter behind it.
    rcases List.eq_nil_or_concat behind with rfl | ⟨behind, last, rfl⟩
    · rw [heq, List.append_nil]
      exact hfront.isInfix
    · rw [List.concat_eq_append] at heq hbehind
      rw [← List.append_assoc] at heq
      obtain ⟨-, hlast⟩ := List.append_inj' heq rfl
      rw [← hlast] at hbehind
      exact absurd (hbehind.subset (List.mem_append_right _ List.mem_cons_self)) hc

end Words

/-- The words by which a failure of nesting is known, letter by letter. -/
def nestingLetters : List Char :=
  ['r', 'e', 'c', 'u', 'r', 's', 'i', 'o', 'n', ' ', 'l', 'i', 'm', 'i', 't', ' ',
    'e', 'x', 'c', 'e', 'e', 'd', 'e', 'd']

theorem toList_nestingWords : nestingWords.toList = nestingLetters := String.toList_ofList

/-- Whether a text speaks of the nesting limit. -/
def mentionsNesting (text : List Char) : Bool :=
  @decide (nestingLetters <:+: text) (List.instDecidableIsInfixOfDecidableEq _ _)

/-- A text speaks of the nesting limit exactly when it holds the words. -/
theorem mentionsNesting_iff {text : List Char} :
    mentionsNesting text = true ↔ nestingLetters <:+: text :=
  @decide_eq_true_iff _ (List.instDecidableIsInfixOfDecidableEq _ _)

/-- A message is searched letter by letter. -/
theorem speaksOfNesting_eq (message : String) :
    speaksOfNesting message = mentionsNesting message.toList := by
  rw [Bool.eq_iff_iff, speaksOfNesting_iff_isInfix, mentionsNesting_iff, toList_nestingWords]

/-- A text is searched letter by letter. -/
theorem mentionsNesting_text {text : String} {letters : List Char}
    (htext : text = String.ofList letters) (h : mentionsNesting letters = false) :
    mentionsNesting text.toList = false := by
  rwa [htext, String.toList_ofList]

/-- Texts on both sides of a character that the words lack are searched apart. -/
theorem mentionsNesting_append_cons {c : Char} (hc : c ∉ nestingLetters) (a b : List Char) :
    mentionsNesting (a ++ c :: b) = (mentionsNesting a || mentionsNesting b) := by
  rw [Bool.eq_iff_iff, Bool.or_eq_true, mentionsNesting_iff, mentionsNesting_iff,
    mentionsNesting_iff]
  exact infix_append_cons_iff hc

/-- A text that lacks a letter of the words lacks the words. -/
theorem mentionsNesting_of_not_mem {text : List Char} (h : 'x' ∉ text) :
    mentionsNesting text = false := by
  rw [← Bool.not_eq_true, mentionsNesting_iff]
  exact fun hwords => h (hwords.subset (by decide))

/-- What stands behind a text and lacks the last letter of the words is not searched. -/
theorem mentionsNesting_append_of_not_mem {a b : List Char} (hb : 'd' ∉ b) :
    mentionsNesting (a ++ b) = mentionsNesting a := by
  have hletters : nestingLetters = nestingLetters.dropLast ++ ['d'] := by decide
  rw [Bool.eq_iff_iff, mentionsNesting_iff, mentionsNesting_iff, hletters]
  exact infix_append_iff_of_not_mem hb

/-- A text without the words, up to a character that they lack, may be left out. -/
theorem mentionsNesting_behind {front : List Char} {c : Char}
    (hfront : mentionsNesting front = false) (hc : c ∉ nestingLetters) (text : List Char) :
    mentionsNesting (front ++ c :: text) = mentionsNesting text := by
  rw [mentionsNesting_append_cons hc, hfront, Bool.false_or]

/-- A character that the words lack may be left out in front. -/
theorem mentionsNesting_cons {c : Char} (hc : c ∉ nestingLetters) (text : List Char) :
    mentionsNesting (c :: text) = mentionsNesting text :=
  mentionsNesting_behind (show mentionsNesting [] = false from rfl) hc text

/-! ## Numbers -/

/-- A literal text lacks the letter if its letters do. -/
theorem x_not_mem_text {text : String} {letters : List Char}
    (htext : text = String.ofList letters) (h : 'x' ∉ letters) : 'x' ∉ text.toList := by
  rwa [htext, String.toList_ofList]

/-- A natural number shows digits only. -/
theorem not_mem_nat {c : Char} (hc : c.isDigit = false) (n : Nat) : c ∉ (toString n).toList := by
  change c ∉ n.repr.toList
  rw [Nat.toList_repr]
  intro hmem
  rw [isDigit_of_mem_toDigits n c hmem] at hc
  cases hc

/-- An integer shows digits and a sign only. -/
theorem x_not_mem_int (n : Int) : 'x' ∉ (toString n).toList := by
  cases n with
  | ofNat n => exact not_mem_nat (by decide) n
  | negSucc n =>
    change 'x' ∉ ("-" ++ (n + 1).repr).toList
    rw [String.toList_append, List.mem_append, not_or]
    exact ⟨by decide, not_mem_nat (by decide) (n + 1)⟩

/-- A double shows only what numbers are written with. -/
theorem x_not_mem_documentText (x : Double) : 'x' ∉ x.documentText.toList :=
  fun hx => absurd (isNumberChar_of_mem_documentText x 'x' hx) (by simp [IsNumberChar])

/-- The words have no digits. -/
theorem not_mem_nestingLetters_of_isDigit {c : Char} (h : c.isDigit = true) :
    c ∉ nestingLetters := by
  have hletters : (nestingLetters.all fun c => !c.isDigit) = true := by decide
  exact fun hc => absurd h (by simpa using List.all_eq_true.mp hletters c hc)

/-- Digits may be left out in front. -/
theorem mentionsNesting_digits {digits : List Char} (hdigits : ∀ c ∈ digits, c.isDigit = true)
    (text : List Char) : mentionsNesting (digits ++ text) = mentionsNesting text := by
  induction digits with
  | nil => rfl
  | cons c digits ih =>
    obtain ⟨hc, hdigits⟩ := List.forall_mem_cons.mp hdigits
    rw [List.cons_append, mentionsNesting_cons (not_mem_nestingLetters_of_isDigit hc), ih hdigits]

/-- A number is searched apart from what stands around it. -/
theorem mentionsNesting_toDigits {front : List Char} (hfront : mentionsNesting front = false)
    (n : Nat) (text : List Char) :
    mentionsNesting (front ++ (Nat.toDigits 10 n ++ text)) = mentionsNesting text := by
  obtain ⟨c, digits, heq⟩ := List.exists_cons_of_ne_nil (Nat.toDigits_ne_nil (n := n) (b := 10))
  have hdigits := isDigit_of_mem_toDigits n
  rw [heq] at hdigits ⊢
  obtain ⟨hc, hdigits⟩ := List.forall_mem_cons.mp hdigits
  rw [List.cons_append, mentionsNesting_behind hfront (not_mem_nestingLetters_of_isDigit hc),
    mentionsNesting_digits hdigits]

/-! ## Texts of the grammar -/

/-- The letters between a cause and what is asked for, behind their comma. -/
def expectedLetters : List Char := [' ', 'e', 'x', 'p', 'e', 'c', 't', 'e', 'd', ' ']

/-- The letters between the title of a record and its number of elements. -/
def withLetters : List Char := [' ', 'w', 'i', 't', 'h', ' ']

/-- Whether a text is free of the words in all surroundings in which messages show it. -/
def IsClear (text : String) : Prop :=
  mentionsNesting (expectedLetters ++ (text.toList ++ withLetters)) = false

namespace IsClear

variable {text : String}

/-- A text is clear if its letters are. -/
theorem ofLetters {letters : List Char} (htext : text = String.ofList letters)
    (h : mentionsNesting (expectedLetters ++ (letters ++ withLetters)) = false) : IsClear text := by
  rwa [IsClear, htext, String.toList_ofList]

/-- A part of these surroundings is free of the words as well. -/
theorem of_part (h : IsClear text) {part : List Char}
    (hpart : part <:+: expectedLetters ++ (text.toList ++ withLetters)) :
    mentionsNesting part = false := by
  rw [IsClear, ← Bool.not_eq_true, mentionsNesting_iff] at h
  rw [← Bool.not_eq_true, mentionsNesting_iff]
  exact fun hwords => h (hwords.trans hpart)

/-- A clear text does not speak of nesting alone. -/
theorem alone (h : IsClear text) : mentionsNesting text.toList = false :=
  h.of_part (List.infix_append' ..)

/-- Nor does it behind the words that say what is expected. -/
theorem expected (h : IsClear text) : mentionsNesting (expectedLetters ++ text.toList) = false := by
  refine h.of_part ?_
  rw [← List.append_assoc]
  exact List.infix_append_left

end IsClear

/-- The names that a rule has for its fields or variants. -/
def names : Rule Symbol → List String
  | .record _ fields => fields.map (·.name)
  | .choice variants => variants.map (·.name)
  | _ => []

/-- No text of the grammar has the words, alone or between those of a message. -/
theorem isClear_texts (symbol : Symbol) :
    ∀ text ∈ (grammar symbol).kinds ++ names (grammar symbol), IsClear text := by
  cases symbol <;>
    repeat first
      | exact List.forall_mem_nil _
      | refine List.forall_mem_cons.mpr ⟨.ofLetters rfl (by decide +kernel), ?_⟩

/-- What a symbol is said to ask for is clear. -/
theorem isClear_kind {symbol : Symbol} {kind : String} (h : kind ∈ (grammar symbol).kinds) :
    IsClear kind :=
  isClear_texts symbol kind (List.mem_append_left _ h)

/-- The title of a record is clear. -/
theorem isClear_title {symbol : Symbol} {title : String} {fields : List (Json.Field Symbol)}
    (h : grammar symbol = .record title fields) : IsClear title := by
  refine isClear_kind (show title ∈ (grammar symbol).kinds from ?_)
  rw [h]
  exact List.mem_cons_self

/-- The names of fields are clear. -/
theorem isClear_field {symbol : Symbol} {title : String} {fields : List (Json.Field Symbol)}
    (h : grammar symbol = .record title fields) {field : Json.Field Symbol}
    (hfield : field ∈ fields) : IsClear field.name := by
  refine isClear_texts symbol _ (List.mem_append_right _ ?_)
  rw [h]
  exact List.mem_map_of_mem hfield

/-- The names of variants are clear. -/
theorem isClear_variants {symbol : Symbol} {variants : List (Variant Symbol)}
    (h : grammar symbol = .choice variants) : ∀ name ∈ variants.map (·.name), IsClear name := by
  intro name hname
  refine isClear_texts symbol _ (List.mem_append_right _ ?_)
  rw [h]
  exact hname

/-! ## Messages -/

theorem toList_append₃ (a b c : String) :
    (a ++ b ++ c).toList = a.toList ++ (b.toList ++ c.toList) := by
  rw [String.toList_append, String.toList_append, List.append_assoc]

theorem toList_append₄ (a b c d : String) :
    (a ++ b ++ c ++ d).toList = a.toList ++ (b.toList ++ (c.toList ++ d.toList)) := by
  rw [String.toList_append, toList_append₃, List.append_assoc, List.append_assoc]

/-- What is asked for is searched apart from what stands in front of it. -/
theorem mentionsNesting_expected (front text : List Char) :
    mentionsNesting (front ++ (", expected ".toList ++ text)) =
      (mentionsNesting front || mentionsNesting (expectedLetters ++ text)) := by
  have hcomma : ", expected ".toList = ',' :: expectedLetters := String.toList_ofList
  rw [hcomma, List.cons_append, mentionsNesting_append_cons (by decide)]

/-- What stands between marks is searched apart from what stands around these. -/
theorem mentionsNesting_quoted {front mark : String} {letters name behind text : List Char}
    (hfront : front = String.ofList letters)
    (hletters : 'x' ∉ letters ∧ letters.getLast? = some '`')
    (hmark : mark = String.ofList ('`' :: behind)) :
    mentionsNesting (front.toList ++ (name ++ (mark.toList ++ text))) =
      (mentionsNesting name || mentionsNesting (behind ++ text)) := by
  obtain ⟨hx, hlast⟩ := hletters
  obtain ⟨init, rfl⟩ := List.getLast?_eq_some_iff.mp hlast
  have hinit : 'x' ∉ init := fun hmem => hx (List.mem_append_left _ hmem)
  rw [hfront, hmark, String.toList_ofList, String.toList_ofList, List.append_assoc,
    List.singleton_append, mentionsNesting_behind (mentionsNesting_of_not_mem hinit) (by decide),
    List.cons_append, mentionsNesting_append_cons (by decide)]

/-- Whether a message quotes the words of the nesting limit from a document: in the name of a
variant, or in a string that stands where something else is asked for. -/
def quotesNesting : Cause → Bool
  | .unknownVariant name _ => mentionsNesting name.toList
  | .wrongKind (.string s) _ => mentionsNesting (Text.quoted s).toList
  | _ => false

/-- The message of a fault of form does not speak of nesting. -/
theorem speaksOfNesting_of_isFormal {cause : Cause} (h : cause.isFormal = true) :
    speaksOfNesting cause.message = false := by
  rw [speaksOfNesting_eq]
  cases cause with
  | tooDeep | unknownVariant | missingField | duplicateField | wrongKind => cases h
  | integerOutOfRange | wrongLength | unreadable => cases h
  | _ => exact mentionsNesting_text rfl (by decide)

/-- A formal failure quotes nothing. -/
theorem quotesNesting_of_isFormal {cause : Cause} (h : cause.isFormal = true) :
    quotesNesting cause = false := by
  cases cause with
  | unknownVariant | wrongKind => cases h
  | _ => rfl

/-- The message of the nesting limit speaks of nesting. -/
theorem speaksOfNesting_tooDeep : speaksOfNesting (Cause.message .tooDeep) = true :=
  speaksOfNesting_iff_isInfix.mpr (List.infix_refl nestingWords.toList)

/-! ### Values of another kind -/

/-- Three texts lack the letter together if each of them does. -/
theorem x_not_mem_append₃ {a b c : String} (ha : 'x' ∉ a.toList) (hb : 'x' ∉ b.toList)
    (hc : 'x' ∉ c.toList) : 'x' ∉ (a ++ b ++ c).toList := by
  rw [toList_append₃]
  exact List.not_mem_append ha (List.not_mem_append hb hc)

/-- Of what is found in place of something else, only a string can show any letters of its own. -/
theorem x_not_mem_found {found : Found} (h : ∀ s, found ≠ .string s) :
    'x' ∉ found.message.toList := by
  have hmark : 'x' ∉ "`".toList := x_not_mem_text rfl (by decide)
  cases found with
  | null | sequence | map | unitVariant => exact x_not_mem_text rfl (by decide)
  | boolean b =>
    refine x_not_mem_append₃ (x_not_mem_text rfl (by decide)) ?_ hmark
    cases b <;> exact x_not_mem_text rfl (by decide)
  | integer n =>
    exact x_not_mem_append₃ (x_not_mem_text rfl (by decide)) (x_not_mem_int n) hmark
  | double x =>
    exact x_not_mem_append₃ (x_not_mem_text rfl (by decide)) (x_not_mem_documentText x) hmark
  | string s => exact absurd rfl (h s)

/-- A string is shown between quotes, and the words do not go across these. -/
theorem mentionsNesting_string {front : List Char} (hfront : 'x' ∉ front) (s : String) :
    mentionsNesting (front ++ (Found.string s).message.toList) =
      mentionsNesting (Text.quoted s).toList := by
  obtain ⟨inner, hinner⟩ : ∃ inner, (Text.quoted s).toList = '"' :: inner :=
    ⟨_, String.toList_ofList⟩
  have hmessage : (Found.string s).message.toList = "string ".toList ++ '"' :: inner :=
    (String.toList_append ..).trans (congrArg _ hinner)
  have hstring : 'x' ∉ "string ".toList := x_not_mem_text rfl (by decide)
  rw [hmessage, hinner, ← List.append_assoc,
    mentionsNesting_behind (mentionsNesting_of_not_mem (List.not_mem_append hfront hstring))
      (by decide),
    mentionsNesting_cons (by decide)]

/-- A value of another kind makes its message speak of nesting only where it is a string that
does. -/
theorem speaksOfNesting_wrongKind {found : Found} {expected : String} (h : IsClear expected) :
    speaksOfNesting (Cause.wrongKind found expected).message =
      quotesNesting (.wrongKind found expected) := by
  have hmessage := toList_append₄ "invalid type: " found.message ", expected " expected
  have hfront : 'x' ∉ "invalid type: ".toList := x_not_mem_text rfl (by decide)
  rw [speaksOfNesting_eq]
  refine (congrArg mentionsNesting hmessage).trans ?_
  rw [← List.append_assoc, mentionsNesting_expected, h.expected, Bool.or_false]
  by_cases hstring : ∃ s, found = .string s
  · obtain ⟨s, rfl⟩ := hstring
    exact mentionsNesting_string hfront s
  · have hquotes : quotesNesting (.wrongKind found expected) = false := by
      cases found with
      | string s => exact absurd ⟨s, rfl⟩ hstring
      | _ => rfl
    rw [hquotes]
    exact mentionsNesting_of_not_mem
      (List.not_mem_append hfront (x_not_mem_found fun s hs => hstring ⟨s, hs⟩))

/-! ### Numbers out of their bounds -/

/-- An integer out of its range does not make its message speak of nesting. -/
theorem speaksOfNesting_integerOutOfRange {n : Int} {expected : String} (h : IsClear expected) :
    speaksOfNesting (Cause.integerOutOfRange n expected).message = false := by
  have hmessage := toList_append₄ "invalid value: integer `" (toString n) "`, expected " expected
  rw [speaksOfNesting_eq]
  refine (congrArg mentionsNesting hmessage).trans
    ((mentionsNesting_quoted rfl (by decide) rfl).trans ?_)
  rw [mentionsNesting_of_not_mem (x_not_mem_int n), Bool.false_or]
  exact (mentionsNesting_cons (by decide) _).trans h.expected

/-- A number of elements is searched apart from the title of a record. -/
theorem mentionsNesting_elements {front : List Char} (hfront : mentionsNesting front = false)
    (count : Nat) : mentionsNesting (front ++ (elementCount count).toList) = false := by
  have hcount : (elementCount count).toList = Nat.toDigits 10 count ++
      (if count = 1 then " element" else " elements").toList :=
    (String.toList_append ..).trans (congrArg (· ++ _) Nat.toList_repr)
  rw [hcount, mentionsNesting_toDigits hfront]
  split <;> exact mentionsNesting_text rfl (by decide)

/-- A list of a wrong length does not make its message speak of nesting. -/
theorem speaksOfNesting_wrongLength {length count : Nat} {title : String} (h : IsClear title) :
    speaksOfNesting
      (Cause.wrongLength length (title ++ " with " ++ elementCount count)).message = false := by
  have hmessage := toList_append₄ "invalid length " (toString length) ", expected "
    (title ++ " with " ++ elementCount count)
  have hexpected := toList_append₃ title " with " (elementCount count)
  have hwith : " with ".toList = withLetters := String.toList_ofList
  have hlength : mentionsNesting ("invalid length ".toList ++ (toString length).toList) = false :=
    mentionsNesting_of_not_mem
      (List.not_mem_append (x_not_mem_text rfl (by decide)) (not_mem_nat (by decide) length))
  rw [speaksOfNesting_eq]
  refine (congrArg mentionsNesting hmessage).trans ?_
  rw [← List.append_assoc, mentionsNesting_expected, hlength, Bool.false_or, hexpected, hwith,
    ← List.append_assoc title.toList, ← List.append_assoc]
  exact mentionsNesting_elements h count

/-! ### Names -/

/-- A field is named at the end of a message. -/
theorem mentionsNesting_field {front : String} {letters : List Char}
    (hfront : front = String.ofList letters)
    (hletters : 'x' ∉ letters ∧ letters.getLast? = some '`') {name : String} (h : IsClear name) :
    mentionsNesting (front ++ name ++ "`").toList = false := by
  rw [toList_append₃, ← List.append_nil "`".toList, mentionsNesting_quoted hfront hletters rfl,
    h.alone]
  rfl

/-- A field that is missing does not make its message speak of nesting. -/
theorem speaksOfNesting_missingField {name : String} (h : IsClear name) :
    speaksOfNesting (Cause.missingField name).message = false :=
  (speaksOfNesting_eq _).trans (mentionsNesting_field rfl (by decide) h)

/-- A field that is named twice does not make its message speak of nesting. -/
theorem speaksOfNesting_duplicateField {name : String} (h : IsClear name) :
    speaksOfNesting (Cause.duplicateField name).message = false :=
  (speaksOfNesting_eq _).trans (mentionsNesting_field rfl (by decide) h)

/-- A name in quotes is searched apart from what stands around it. -/
theorem mentionsNesting_name {front : List Char} (hfront : mentionsNesting front = false)
    {name : String} (hname : IsClear name) (text : List Char) :
    mentionsNesting (front ++ (("`" ++ name ++ "`").toList ++ text)) = mentionsNesting text := by
  have hmark : "`".toList = ['`'] := String.toList_ofList
  have hquoted : ("`" ++ name ++ "`").toList = '`' :: (name.toList ++ ['`']) := by
    rw [toList_append₃, hmark, List.singleton_append]
  rw [hquoted, List.cons_append, mentionsNesting_behind hfront (by decide), List.append_assoc,
    List.singleton_append, mentionsNesting_behind hname.alone (by decide)]

/-- So is a name at the end of a text. -/
theorem mentionsNesting_lastName {front : List Char} (hfront : mentionsNesting front = false)
    {name : String} (hname : IsClear name) :
    mentionsNesting (front ++ ("`" ++ name ++ "`").toList) = false := by
  rw [← List.append_nil ("`" ++ name ++ "`").toList, mentionsNesting_name hfront hname]
  rfl

/-- A list of names is free of the words if each name is clear. -/
theorem mentionsNesting_names {front : List Char} (hfront : mentionsNesting front = false)
    {name : String} (hname : IsClear name) {names : List String}
    (hnames : ∀ other ∈ names, IsClear other) :
    mentionsNesting (front ++ (", ".intercalate
      ((name :: names).map fun name => "`" ++ name ++ "`")).toList) = false := by
  induction names generalizing front name with
  | nil =>
    rw [List.map_singleton, String.intercalate_singleton]
    exact mentionsNesting_lastName hfront hname
  | cons next names ih =>
    obtain ⟨hnext, hnames⟩ := List.forall_mem_cons.mp hnames
    rw [List.map_cons, List.map_cons, String.intercalate_cons_cons, toList_append₃,
      mentionsNesting_name hfront hname]
    exact ih (mentionsNesting_text rfl (by decide)) hnext hnames

/-- The possible names, as they are listed behind a blank. -/
theorem mentionsNesting_alternatives {names : List String} (h : ∀ name ∈ names, IsClear name) :
    mentionsNesting (' ' :: (Cause.alternatives names).toList) = false := by
  have hexpected : ∀ {text : String} {letters : List Char}, text = String.ofList letters →
      mentionsNesting (' ' :: letters) = false → mentionsNesting (' ' :: text.toList) = false :=
    fun htext h => by rwa [htext, String.toList_ofList]
  match names, h with
  | [], _ => exact hexpected rfl (by decide)
  | [one], h =>
    have halternatives : (Cause.alternatives [one]).toList =
        "expected ".toList ++ ("`" ++ one ++ "`").toList := String.toList_append ..
    rw [halternatives, ← List.cons_append]
    exact mentionsNesting_lastName (hexpected rfl (by decide)) (h one (by simp))
  | [one, other], h =>
    have halternatives : (Cause.alternatives [one, other]).toList =
        "expected ".toList ++ (("`" ++ one ++ "`").toList ++
          (" or ".toList ++ ("`" ++ other ++ "`").toList)) := toList_append₄ ..
    rw [halternatives, ← List.cons_append,
      mentionsNesting_name (hexpected rfl (by decide)) (h one (by simp))]
    exact mentionsNesting_lastName (mentionsNesting_text rfl (by decide)) (h other (by simp))
  | one :: other :: third :: names, h =>
    obtain ⟨hone, hnames⟩ := List.forall_mem_cons.mp h
    have halternatives : (Cause.alternatives (one :: other :: third :: names)).toList =
        "expected one of ".toList ++ (", ".intercalate
          ((one :: other :: third :: names).map fun name => "`" ++ name ++ "`")).toList :=
      String.toList_append ..
    rw [halternatives, ← List.cons_append]
    exact mentionsNesting_names (hexpected rfl (by decide)) hone hnames

/-- An unknown variant makes its message speak of nesting only where its name does. -/
theorem speaksOfNesting_unknownVariant {name : String} {expected : List String}
    (h : ∀ other ∈ expected, IsClear other) :
    speaksOfNesting (Cause.unknownVariant name expected).message =
      quotesNesting (.unknownVariant name expected) := by
  have hmessage := toList_append₄ "unknown variant `" name "`, " (Cause.alternatives expected)
  have hbehind : mentionsNesting ([',', ' '] ++ (Cause.alternatives expected).toList) = false :=
    (mentionsNesting_cons (by decide) _).trans (mentionsNesting_alternatives h)
  rw [speaksOfNesting_eq]
  refine (congrArg mentionsNesting hmessage).trans
    ((mentionsNesting_quoted rfl (by decide) rfl).trans ?_)
  rw [hbehind, Bool.or_false]
  rfl

/-- The place of a failure does not make its message speak of nesting. -/
theorem speaksOfNesting_messageAt (cause : Cause) (position? : Option Position) :
    speaksOfNesting (cause.messageAt position?) = speaksOfNesting cause.message := by
  cases position? with
  | none => rfl
  | some position =>
    have hplace : 'd' ∉ (" at " ++ position.message).toList := by
      simp only [Position.message, String.toList_append, List.mem_append, not_or]
      exact ⟨by decide, ⟨⟨by decide, not_mem_nat (by decide) _⟩, by decide⟩,
        not_mem_nat (by decide) _⟩
    rw [speaksOfNesting_eq, speaksOfNesting_eq, Cause.messageAt, String.append_assoc,
      String.toList_append, mentionsNesting_append_of_not_mem hplace]

/-- The failures of a document whose messages speak of nesting are that of the nesting limit and
those that quote the words. -/
theorem speaksOfNesting_iff {document : Bytes} {limit : Nat} {failure : Failure}
    (h : Explains grammar document limit failure) :
    speaksOfNesting failure.cause.message = true ↔
      failure.cause = .tooDeep ∨ quotesNesting failure.cause = true := by
  cases h with
  | formal h =>
    have hcause : failure.cause ≠ .tooDeep := fun heq => by
      rw [Failure.IsFormal, heq] at h
      cases h
    simp [speaksOfNesting_of_isFormal h, quotesNesting_of_isFormal h, hcause]
  | tooDeep => simp [speaksOfNesting_tooDeep]
  | wrongKind h =>
    rw [speaksOfNesting_wrongKind (isClear_kind h)]
    simp
  | bareVariant h =>
    rw [speaksOfNesting_wrongKind (isClear_kind h)]
    simp
  | integerOutOfRange h => simp [speaksOfNesting_integerOutOfRange (isClear_kind h), quotesNesting]
  | unknownVariant h =>
    rw [speaksOfNesting_unknownVariant (isClear_variants h)]
    simp
  | missingField h hfield =>
    simp [speaksOfNesting_missingField (isClear_field h hfield), quotesNesting]
  | duplicateField h hfield =>
    simp [speaksOfNesting_duplicateField (isClear_field h hfield), quotesNesting]
  | wrongLength h => simp [speaksOfNesting_wrongLength (isClear_title h), quotesNesting]

/-- A failure whose message speaks of nesting has a place. -/
theorem isPlaced_of_speaksOfNesting {document : Bytes} {limit : Nat} {failure : Failure}
    (h : Explains grammar document limit failure)
    (hspeaks : speaksOfNesting failure.cause.message = true) : failure.isPlaced = true := by
  have hiff := (speaksOfNesting_iff h).mp hspeaks
  cases h with
  | formal h =>
    rw [speaksOfNesting_of_isFormal h] at hspeaks
    cases hspeaks
  | bareVariant | duplicateField => simp [quotesNesting] at hiff
  | _ => rfl

end Document

end ScoringMarkup
