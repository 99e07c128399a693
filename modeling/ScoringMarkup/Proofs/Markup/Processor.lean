import Mathlib.Data.Nat.Digits.Defs

/-!
# What an XML processor reports

A processor reads the content of some element by the rules of XML 1.0 and reports start tags with
their attributes, characters and end tags. Line ends become line feeds before anything else. The
text is then read one character at a time, with the open elements and the place in the text as the
state. There is no document type, so attributes hold character data and only the five entities that
XML itself defines are known. Comments, sections and processing instructions are refused.
-/

namespace ScoringMarkup

namespace Xml

/-! ## Characters -/

/-- Whether a character may stand in an XML text. -/
def isAllowed (c : Char) : Bool :=
  c = '\t' || c = '\n' || c = '\r' || (0x20 ≤ c.toNat && c.toNat ≤ 0xfffd) || 0x10000 ≤ c.toNat

/-- The line ends of a text as line feeds: a carriage return, with the line feed behind it if there
is one. -/
def lineEnds : List Char → List Char
  | '\r' :: '\n' :: rest => '\n' :: lineEnds rest
  | '\r' :: rest => '\n' :: lineEnds rest
  | c :: rest => c :: lineEnds rest
  | [] => []

def isBlank (c : Char) : Bool := c = ' ' || c = '\t' || c = '\n' || c = '\r'

/-- A character of an attribute value as it is reported; every blank becomes a space. -/
def inValue (c : Char) : Char := if isBlank c then ' ' else c

/-- Whether a character is in one of several ranges. -/
def isWithin (c : Char) (ranges : List (Nat × Nat)) : Bool :=
  ranges.any fun range => range.1 ≤ c.toNat && c.toNat ≤ range.2

/-- Whether a character may begin a name. -/
def isNameStart (c : Char) : Bool :=
  c.isAlpha || c = ':' || c = '_' ||
    isWithin c [(0xc0, 0xd6), (0xd8, 0xf6), (0xf8, 0x2ff), (0x370, 0x37d), (0x37f, 0x1fff),
      (0x200c, 0x200d), (0x2070, 0x218f), (0x2c00, 0x2fef), (0x3001, 0xd7ff), (0xf900, 0xfdcf),
      (0xfdf0, 0xfffd), (0x10000, 0xeffff)]

/-- Whether a character may stand in a name. -/
def isNameChar (c : Char) : Bool :=
  isNameStart c || c.isDigit || c = '-' || c = '.' ||
    isWithin c [(0xb7, 0xb7), (0x300, 0x36f), (0x203f, 0x2040)]

/-- Whether a character is a space or a visible one of ASCII. -/
def IsPrintable (c : Char) : Prop := 0x20 ≤ c.toNat ∧ c.toNat < 0x7f

instance (c : Char) : Decidable (IsPrintable c) :=
  inferInstanceAs (Decidable (0x20 ≤ c.toNat ∧ c.toNat < 0x7f))

/-- Printable characters are allowed. -/
theorem IsPrintable.isAllowed {c : Char} (h : IsPrintable c) : isAllowed c = true := by
  obtain ⟨hl, hg⟩ := h
  simp only [Xml.isAllowed, Bool.or_eq_true, Bool.and_eq_true, decide_eq_true_eq]
  exact Or.inl (Or.inr ⟨hl, by omega⟩)

/-- A carriage return is not printable. -/
theorem IsPrintable.ne_return {c : Char} (h : IsPrintable c) : c ≠ '\r' := by
  rintro rfl
  exact absurd h (by decide)

/-- Whether every character of a text is a space or a visible one of ASCII. -/
def AllPrintable (text : List Char) : Prop := ∀ c ∈ text, IsPrintable c

instance (text : List Char) : Decidable (AllPrintable text) := List.decidableBAll _ text

/-- Whether every character of a text may stand in an XML text. -/
def AllAllowed (text : List Char) : Prop := ∀ c ∈ text, isAllowed c = true

instance (text : List Char) : Decidable (AllAllowed text) := List.decidableBAll _ text

/-- Other characters than a carriage return are kept. -/
theorem lineEnds_cons {c : Char} (hc : c ≠ '\r') (rest : List Char) :
    lineEnds (c :: rest) = c :: lineEnds rest := by
  rw [lineEnds] <;> simp [hc]

/-- A lone carriage return becomes a line feed. -/
theorem lineEnds_return {rest : List Char} (h : rest.head? ≠ some '\n') :
    lineEnds ('\r' :: rest) = '\n' :: lineEnds rest := by
  rw [lineEnds]
  rintro more rfl
  exact h rfl

/-- Text without carriage returns is kept, whatever follows. -/
theorem lineEnds_append_of_not_mem {text : List Char} (h : '\r' ∉ text) (rest : List Char) :
    lineEnds (text ++ rest) = text ++ lineEnds rest := by
  induction text with
  | nil => rfl
  | cons c text ih =>
    obtain ⟨hc, htext⟩ := not_or.mp (mt List.mem_cons.mpr h)
    rw [List.cons_append, lineEnds_cons (Ne.symm hc), ih htext, List.cons_append]

/-- Text without carriage returns is kept. -/
theorem lineEnds_of_not_mem {text : List Char} (h : '\r' ∉ text) : lineEnds text = text := by
  have happend := lineEnds_append_of_not_mem h []
  rwa [List.append_nil, lineEnds, List.append_nil] at happend

/-- No carriage return is left. -/
theorem not_mem_lineEnds (text : List Char) : '\r' ∉ lineEnds text := by
  fun_induction lineEnds text with
  | case1 rest ih | case2 rest h ih => exact List.not_mem_cons_of_ne_of_not_mem (by decide) ih
  | case3 c rest h hc ih => exact List.not_mem_cons_of_ne_of_not_mem (fun heq => hc heq.symm) ih
  | case4 => exact List.not_mem_nil

/-- A text is kept exactly when it has no carriage return. -/
theorem lineEnds_eq_self_iff {text : List Char} : lineEnds text = text ↔ '\r' ∉ text :=
  ⟨fun h => h ▸ not_mem_lineEnds text, lineEnds_of_not_mem⟩

/-! ## References -/

/-- The value of a digit. -/
def digitValue? (base : Nat) (c : Char) : Option Nat :=
  let value :=
    if c.isDigit then c.toNat - '0'.toNat
    else if 'a' ≤ c ∧ c ≤ 'f' then c.toNat - 'a'.toNat + 10
    else if 'A' ≤ c ∧ c ≤ 'F' then c.toNat - 'A'.toNat + 10
    else base
  if value < base then some value else none

/-- The character with a code in digits. -/
def coded? (base : Nat) (digits : List Char) : Option Char := do
  let values ← digits.reverse.mapM (digitValue? base)
  let code := Nat.ofDigits base values
  if digits ≠ [] ∧ code.isValidChar ∧ isAllowed (Char.ofNat code) then some (Char.ofNat code)
  else none

/-- The entities that need no declaration. -/
def entities : List (String × Char) :=
  [("amp", '&'), ("lt", '<'), ("gt", '>'), ("quot", '"'), ("apos", '\'')]

/-- The character that a reference stands for, from what is between `&` and `;`. -/
def referenced? : List Char → Option Char
  | '#' :: 'x' :: digits => coded? 16 digits
  | '#' :: digits => coded? 10 digits
  | name => entities.lookup (String.ofList name)

/-! ## Tags and content -/

/-- What is reported. -/
inductive Event
  | start (name : String) (attributes : List (String × String))
  | char (c : Char)
  | stop (name : String)
  deriving DecidableEq

/-- A start tag as far as it is read. -/
structure Opening where
  name : String
  attributes : List (String × String)

/-- A start tag with one attribute more; no name may come twice. -/
def Opening.with? (t : Opening) (name value : String) : Option Opening :=
  if (t.attributes.lookup name).isSome then none
  else some { t with attributes := t.attributes ++ [(name, value)] }

/-- Where in a text the reader is. Names, values and references that are not complete are held with
the last character first. -/
inductive Place
  /-- Between tags, behind a number of closing brackets. -/
  | content (brackets : Nat)
  | contentReference (letters : List Char)
  /-- Behind the `<` of a tag. -/
  | tag
  | startName (letters : List Char)
  /-- In a start tag, between its attributes. -/
  | inside (t : Opening) (afterBlank : Bool)
  | attributeName (t : Opening) (letters : List Char)
  | beforeEquals (t : Opening) (name : String)
  | beforeValue (t : Opening) (name : String)
  | value (t : Opening) (name : String) (quote : Char) (letters : List Char)
  | valueReference (t : Opening) (name : String) (quote : Char) (letters reference : List Char)
  /-- Behind the slash of a tag that is start and end in one. -/
  | emptyEnd (t : Opening)
  | endName (letters : List Char)
  | behindEndName (name : String)

/-- The state of a reader. -/
structure State where
  /-- The names of the open elements, the innermost first. -/
  elements : List String
  place : Place

namespace State

/-- Goes on at another place with nothing to report. -/
def go (s : State) (place : Place) : Option (State × List Event) := some (⟨s.elements, place⟩, [])

/-- The word of letters that are held with the last one first. -/
def word (letters : List Char) : String := String.ofList letters.reverse

/-- Goes on in a start tag behind its name or a value. -/
def behindPart (s : State) (t : Opening) (c : Char) : Option (State × List Event) :=
  if isBlank c then s.go (.inside t true)
  else if c = '/' then s.go (.emptyEnd t)
  else if c = '>' then
    some (⟨t.name :: s.elements, .content 0⟩, [.start t.name t.attributes])
  else none

/-- Goes on behind the name of an attribute. -/
def behindName (s : State) (t : Opening) (name : String) (c : Char) :
    Option (State × List Event) :=
  if isBlank c then s.go (.beforeEquals t name)
  else if c = '=' then s.go (.beforeValue t name)
  else none

/-- Goes on behind the name in an end tag, which has to be that of the innermost element. -/
def behindEnd (s : State) (name : String) (c : Char) : Option (State × List Event) :=
  if isBlank c then s.go (.behindEndName name)
  else if c = '>' ∧ s.elements.head? = some name then
    some (⟨s.elements.tail, .content 0⟩, [.stop name])
  else none

/-- Reads one character. -/
def step (s : State) (c : Char) : Option (State × List Event) :=
  match s.place with
  | .content brackets =>
    if c = '<' then s.go .tag
    else if c = '&' then s.go (.contentReference [])
    else if c = ']' then some (⟨s.elements, .content (brackets + 1)⟩, [.char c])
    else if c = '>' ∧ 2 ≤ brackets then none
    else some (⟨s.elements, .content 0⟩, [.char c])
  | .contentReference letters =>
    if c = ';' then
      (referenced? letters.reverse).map fun d => (⟨s.elements, .content 0⟩, [.char d])
    else s.go (.contentReference (c :: letters))
  | .tag =>
    if c = '/' then s.go (.endName [])
    else if isNameStart c then s.go (.startName [c])
    else none
  | .startName letters =>
    if isNameChar c then s.go (.startName (c :: letters)) else s.behindPart ⟨word letters, []⟩ c
  | .inside t afterBlank =>
    if afterBlank && isNameStart c then s.go (.attributeName t [c]) else s.behindPart t c
  | .attributeName t letters =>
    if isNameChar c then s.go (.attributeName t (c :: letters))
    else s.behindName t (word letters) c
  | .beforeEquals t name => s.behindName t name c
  | .beforeValue t name =>
    if isBlank c then s.go (.beforeValue t name)
    else if c = '"' ∨ c = '\'' then s.go (.value t name c [])
    else none
  | .value t name quote letters =>
    if c = quote then (t.with? name (word letters)).bind fun t => s.go (.inside t false)
    else if c = '<' then none
    else if c = '&' then s.go (.valueReference t name quote letters [])
    else s.go (.value t name quote (inValue c :: letters))
  | .valueReference t name quote letters reference =>
    if c = ';' then
      (referenced? reference.reverse).bind fun d => s.go (.value t name quote (d :: letters))
    else s.go (.valueReference t name quote letters (c :: reference))
  | .emptyEnd t =>
    if c = '>' then some (⟨s.elements, .content 0⟩, [.start t.name t.attributes, .stop t.name])
    else none
  | .endName letters =>
    if isNameChar c then s.go (.endName (c :: letters)) else s.behindEnd (word letters) c
  | .behindEndName name => s.behindEnd name c

/-- Reads several characters. -/
def run (s : State) : List Char → Option (State × List Event)
  | [] => some (s, [])
  | c :: cs => (s.step c).bind fun p => (run p.1 cs).map fun q => (q.1, p.2 ++ q.2)

end State

/-- What is reported of a text; nothing where it breaks the rules. -/
def read (text : String) : Option (List Event) :=
  if text.toList.all isAllowed then
    match State.run ⟨[], .content 0⟩ (lineEnds text.toList) with
    | some (⟨[], .content _⟩, events) => some events
    | _ => none
  else none

/-- A tab is kept where it is written by its code, and becomes a space where it stands as such. -/
example : read "<p a='\t&#9;'>&lt;&#x9;\r\n</p>" =
    some [.start "p" [("a", " \t")], .char '<', .char '\t', .char '\n', .stop "p"] := by
  decide +kernel

/-! ## Runs -/

/-- Adds to what is reported. -/
def prepend (events : List Event) (p : State × List Event) : State × List Event :=
  (p.1, events ++ p.2)

theorem map_prepend_nil (result : Option (State × List Event)) :
    result.map (prepend []) = result := Option.map_id'

theorem prepend_comp_prepend (events others : List Event) :
    prepend events ∘ prepend others = prepend (events ++ others) := by
  funext p
  simp [prepend]

/-- The rest of a text is read on from where its beginning ends. -/
theorem State.run_append {s s' : State} {text : List Char} {events : List Event}
    (h : s.run text = some (s', events)) (rest : List Char) :
    s.run (text ++ rest) = (s'.run rest).map (prepend events) := by
  induction text generalizing s events with
  | nil =>
    obtain ⟨rfl, rfl⟩ := Prod.mk.inj (Option.some.inj h)
    exact (map_prepend_nil _).symm
  | cons c text ih =>
    rw [run] at h
    obtain ⟨⟨next, first⟩, hstep, hrun⟩ := Option.bind_eq_some_iff.mp h
    obtain ⟨⟨_, others⟩, hothers, heq⟩ := Option.map_eq_some_iff.mp hrun
    obtain ⟨rfl, rfl⟩ := Prod.mk.inj heq
    rw [List.cons_append, run, hstep, Option.bind_some, ih hothers]
    change Option.map (prepend first) _ = _
    rw [Option.map_map, prepend_comp_prepend]

/-- Whether a text between tags is read to its end, from the open elements in front of it to those
behind it, with line ends taken for line feeds, and what is reported of it. -/
def Reports (before : List String) (text : List Char) (behind : List String)
    (events : List Event) : Prop :=
  ∀ brackets rest, ∃ brackets',
    State.run ⟨before, .content brackets⟩ (lineEnds (text ++ rest)) =
      (State.run ⟨behind, .content brackets'⟩ (lineEnds rest)).map (prepend events)

/-- Texts one after the other report what each of them reports. -/
theorem Reports.append {before between behind : List String} {text more : List Char}
    {events others : List Event} (h : Reports before text between events)
    (hmore : Reports between more behind others) :
    Reports before (text ++ more) behind (events ++ others) := by
  intro brackets rest
  obtain ⟨brackets', hrun⟩ := h brackets (more ++ rest)
  obtain ⟨brackets'', hothers⟩ := hmore brackets' rest
  refine ⟨brackets'', ?_⟩
  rw [List.append_assoc, hrun, hothers, Option.map_map, prepend_comp_prepend]

/-- A text without carriage returns is read as it is. -/
theorem Reports.of_run {before behind : List String} {text : List Char} {events : List Event}
    (hreturn : '\r' ∉ text) (h : ∀ brackets, ∃ brackets',
      State.run ⟨before, .content brackets⟩ text = some (⟨behind, .content brackets'⟩, events)) :
    Reports before text behind events := by
  intro brackets rest
  obtain ⟨brackets', hrun⟩ := h brackets
  exact ⟨brackets', by rw [lineEnds_append_of_not_mem hreturn, State.run_append hrun]⟩

end Xml

end ScoringMarkup
