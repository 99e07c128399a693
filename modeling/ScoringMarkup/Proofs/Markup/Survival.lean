import ScoringMarkup.Proofs.Json.Numbers
import ScoringMarkup.Proofs.Markup.Processor
import ScoringMarkup.Proofs.Markup.Reading

/-!
# Markup behind an XML processor

The five characters that XML gives a meaning to are replaced in names and texts, and all others are
written as they are. So not every blank comes through a processor: line ends become line feeds, and
in attribute values tabs and line feeds become spaces. What is reported of an element follows for
every element whose names and texts may stand in XML at all.
-/

namespace ScoringMarkup

namespace Element

open Xml

/-! ## Escaped texts -/

/-- Escaping a character keeps it or writes printable characters. -/
theorem eq_or_isPrintable_of_mem_escapeChar {c d : Char} (h : d ∈ escapeChar c) :
    d = c ∨ IsPrintable d := by
  unfold escapeChar at h
  split at h
  case h_6 => exact Or.inl (List.mem_singleton.mp h)
  all_goals exact Or.inr ((by decide : AllPrintable _) d h)

/-- Escaping brings in only allowed characters. -/
theorem allAllowed_flatMap_escapeChar {text : List Char} (h : AllAllowed text) :
    AllAllowed (text.flatMap escapeChar) := by
  intro d hd
  obtain ⟨c, hc, hd⟩ := List.mem_flatMap.mp hd
  rcases eq_or_isPrintable_of_mem_escapeChar hd with rfl | hd
  · exact h d hc
  · exact hd.isAllowed

/-- Escaping brings in no carriage return. -/
theorem return_not_mem_escapeChar {c : Char} (hc : c ≠ '\r') : '\r' ∉ escapeChar c := by
  intro h
  rcases eq_or_isPrintable_of_mem_escapeChar h with rfl | h
  · exact hc rfl
  · exact h.ne_return rfl

/-- Only a line feed is written with a line feed in front. -/
theorem head?_escapeChar_append {c : Char} (hc : c ≠ '\n') (rest : List Char) :
    (escapeChar c ++ rest).head? ≠ some '\n' := by
  unfold escapeChar
  split
  case h_6 => exact fun h => hc (Option.some.inj h)
  all_goals exact fun h => absurd (Option.some.inj h) (by decide)

/-- Escaping leaves line ends as they are. -/
theorem lineEnds_flatMap_escapeChar (text : List Char) {rest : List Char}
    (h : rest.head? ≠ some '\n') :
    lineEnds (text.flatMap escapeChar ++ rest) =
      (lineEnds text).flatMap escapeChar ++ lineEnds rest := by
  fun_induction lineEnds text with
  | case1 text ih => exact congrArg ('\n' :: ·) ih
  | case2 text hn ih =>
    have hhead : (text.flatMap escapeChar ++ rest).head? ≠ some '\n' := by
      cases text with
      | nil => exact h
      | cons c text =>
        rw [List.flatMap_cons, List.append_assoc]
        exact head?_escapeChar_append (fun hc => hn text (by rw [hc])) _
    exact (lineEnds_return hhead).trans (congrArg ('\n' :: ·) ih)
  | case3 c text _ hc ih =>
    have hreturn := return_not_mem_escapeChar hc
    rw [List.flatMap_cons, List.append_assoc, lineEnds_append_of_not_mem hreturn, ih,
      List.flatMap_cons, List.append_assoc]
  | case4 => rfl

/-- An escaped character in an attribute value. -/
theorem run_value_escapeChar (elements : List String) (t : Opening) (name : String)
    (letters : List Char) (c : Char) :
    State.run ⟨elements, .value t name '"' letters⟩ (escapeChar c) =
      some (⟨elements, .value t name '"' (inValue c :: letters)⟩, []) := by
  unfold escapeChar
  split
  case h_6 hamp hlt _ hquote _ =>
    rw [State.run, State.step]
    dsimp only
    rw [if_neg hquote, if_neg hlt, if_neg hamp]
    rfl
  all_goals rfl

/-- An escaped text in an attribute value. -/
theorem run_value_escape (elements : List String) (t : Opening) (name : String) (text : List Char)
    (letters : List Char) :
    State.run ⟨elements, .value t name '"' letters⟩ (text.flatMap escapeChar) =
      some (⟨elements, .value t name '"' ((text.map inValue).reverse ++ letters)⟩, []) := by
  induction text generalizing letters with
  | nil => rfl
  | cons c text ih =>
    rw [List.flatMap_cons, State.run_append (run_value_escapeChar ..), ih]
    simp [prepend]

/-- An escaped character between tags. -/
theorem run_content_escapeChar (elements : List String) (brackets : Nat) (c : Char) :
    ∃ brackets', State.run ⟨elements, .content brackets⟩ (escapeChar c) =
      some (⟨elements, .content brackets'⟩, [.char c]) := by
  unfold escapeChar
  split
  case h_6 hamp hlt hgt _ _ =>
    rw [State.run, State.step]
    dsimp only
    rw [if_neg hlt, if_neg hamp]
    by_cases hbracket : c = ']'
    · rw [if_pos hbracket]
      exact ⟨_, rfl⟩
    · rw [if_neg hbracket, if_neg fun h => hgt h.1]
      exact ⟨_, rfl⟩
  all_goals exact ⟨_, rfl⟩

/-- An escaped text between tags. -/
theorem run_content_escape (elements : List String) (brackets : Nat) (text : List Char) :
    ∃ brackets', State.run ⟨elements, .content brackets⟩ (text.flatMap escapeChar) =
      some (⟨elements, .content brackets'⟩, text.map .char) := by
  induction text generalizing brackets with
  | nil => exact ⟨brackets, rfl⟩
  | cons c text ih =>
    obtain ⟨between, hchar⟩ := run_content_escapeChar elements brackets c
    obtain ⟨brackets', hrun⟩ := ih between
    refine ⟨brackets', ?_⟩
    rw [List.flatMap_cons, State.run_append hchar, hrun]
    rfl

/-! ## What is reported -/

/-- A name as it is reported: line ends and tabs have become spaces. -/
def inAttribute (s : String) : String := String.ofList ((lineEnds s.toList).map inValue)

/-- A text as it is reported: line ends have become line feeds. -/
def inContent (s : String) : String := String.ofList (lineEnds s.toList)

/-- The blanks in front of a tag. -/
def blanks (level : Nat) : List Event := List.replicate (2 * level) (.char ' ')

section Reported

variable (name text : String → String)

mutual

/-- What is reported of an element where names and texts come through as given. -/
def reported (level : Nat) : Element → List Event
  | .fieldRef field =>
    blanks level ++ [.start "FieldRef" [("field", name field)], .stop "FieldRef", .char '\n']
  | .apply function [] =>
    blanks level ++ [.start "Apply" [("function", name function)], .stop "Apply", .char '\n']
  | .apply function (argument :: arguments) =>
    blanks level ++ [.start "Apply" [("function", name function)], .char '\n'] ++
      reported (level + 1) argument ++ allReported (level + 1) arguments ++
        blanks level ++ [.stop "Apply", .char '\n']
  | .constant value type =>
    match value.markupText? with
    | some s =>
      blanks level ++ .start "Constant" [("dataType", type.name)] ::
        ((text s).toList.map .char ++ [.stop "Constant", .char '\n'])
    | none =>
      blanks level ++ [.start "Constant" [("dataType", type.name), ("missing", "true")],
        .stop "Constant", .char '\n']

/-- What is reported of several elements. -/
def allReported (level : Nat) : List Element → List Event
  | [] => []
  | e :: es => reported level e ++ allReported level es

end

end Reported

/-! ## From markup to what is reported -/

/-- An escaped text with its surroundings is read with its line ends taken for line feeds. -/
theorem reports_escaped {before behind : List String} {front more : List Char} {c : Char}
    {s : String} {events : List Event} (hfront : '\r' ∉ front) (hc : c ≠ '\n')
    (hmore : '\r' ∉ c :: more)
    (h : ∀ brackets, ∃ brackets', State.run ⟨before, .content brackets⟩
      (front ++ ((lineEnds s.toList).flatMap escapeChar ++ c :: more)) =
        some (⟨behind, .content brackets'⟩, events)) :
    Reports before (front ++ ((escape s).toList ++ c :: more)) behind events := by
  intro brackets rest
  obtain ⟨brackets', hrun⟩ := h brackets
  have hhead : (c :: more ++ rest).head? ≠ some '\n' := fun heq => hc (Option.some.inj heq)
  refine ⟨brackets', ?_⟩
  rw [toList_escape, List.append_assoc, List.append_assoc, lineEnds_append_of_not_mem hfront,
    lineEnds_flatMap_escapeChar _ hhead, lineEnds_append_of_not_mem hmore, ← List.append_assoc,
    ← List.append_assoc, List.append_assoc front, State.run_append hrun]

/-- A tag with one attribute. -/
theorem reports_attribute {before behind : List String} {tag key : String}
    {front ending : List Char} {events : List Event} (s : String) (hfront : '\r' ∉ front)
    (hending : '\r' ∉ ending)
    (hname : ∀ brackets, State.run ⟨before, .content brackets⟩ front =
      some (⟨before, .value ⟨tag, []⟩ key '"' []⟩, []))
    (h : State.run ⟨before, .inside ⟨tag, [(key, inAttribute s)]⟩ false⟩ ending =
      some (⟨behind, .content 0⟩, events)) :
    Reports before (front ++ ((escape s).toList ++ '"' :: ending)) behind events := by
  refine reports_escaped hfront (by decide)
    (List.not_mem_cons_of_ne_of_not_mem (by decide) hending) fun brackets => ⟨0, ?_⟩
  have hquote : State.run ⟨before, .value ⟨tag, []⟩ key '"'
      (((lineEnds s.toList).map inValue).reverse ++ [])⟩ ('"' :: ending) =
        some (⟨behind, .content 0⟩, events) := by
    have hstep : State.step ⟨before, .value ⟨tag, []⟩ key '"'
        (((lineEnds s.toList).map inValue).reverse ++ [])⟩ '"' =
          some (⟨before, .inside ⟨tag, [(key, inAttribute s)]⟩ false⟩, []) := by
      simp [State.step, State.word, State.go, Opening.with?, inAttribute]
    rw [State.run, hstep, Option.bind_some, h]
    rfl
  rw [State.run_append (hname brackets), State.run_append (run_value_escape ..), hquote]
  rfl

/-- Blanks between tags. -/
theorem reports_indent (elements : List String) (level : Nat) :
    Reports elements (indent level).toList elements (blanks level) := by
  have hescape : (List.replicate (2 * level) ' ').flatMap escapeChar = (indent level).toList := by
    rw [List.flatMap_replicate, indent, String.toList_ofList]
    exact List.flatten_replicate_singleton
  refine .of_run (by simp [indent]) fun brackets => ?_
  obtain ⟨brackets', hrun⟩ := run_content_escape elements brackets (List.replicate (2 * level) ' ')
  rw [hescape, List.map_replicate] at hrun
  exact ⟨brackets', hrun⟩

/-- The end of an application is reported as such. -/
theorem reports_closing (elements : List String) :
    Reports ("Apply" :: elements) "</Apply>\n".toList elements [.stop "Apply", .char '\n'] :=
  .of_run (by decide) fun _ => ⟨0, rfl⟩

/-- A constant with its text. -/
theorem reports_constant (elements : List String) (type : ScalarType) (s : String) :
    Reports elements ("<Constant dataType=\"".toList ++ type.name.toList ++ "\">".toList ++
        ((escape s).toList ++ '<' :: "/Constant>\n".toList)) elements
      (.start "Constant" [("dataType", type.name)] ::
        ((inContent s).toList.map .char ++ [.stop "Constant", .char '\n'])) := by
  have hfront : '\r' ∉ "<Constant dataType=\"".toList ++ type.name.toList ++ "\">".toList := by
    cases type <;> decide
  have hopening (brackets : Nat) : State.run ⟨elements, .content brackets⟩
      ("<Constant dataType=\"".toList ++ type.name.toList ++ "\">".toList) =
        some (⟨"Constant" :: elements, .content 0⟩,
          [.start "Constant" [("dataType", type.name)]]) := by
    cases type <;> rfl
  have hclosing (brackets : Nat) : State.run ⟨"Constant" :: elements, .content brackets⟩
      ('<' :: "/Constant>\n".toList) =
        some (⟨elements, .content 0⟩, [.stop "Constant", .char '\n']) := rfl
  refine reports_escaped hfront (by decide) (by decide) fun brackets => ⟨0, ?_⟩
  obtain ⟨brackets', hcontent⟩ := run_content_escape ("Constant" :: elements) 0 (lineEnds s.toList)
  rw [State.run_append (hopening brackets), State.run_append hcontent, hclosing brackets']
  simp [prepend, inContent]

/-- A constant that is missing. -/
theorem reports_missing (elements : List String) (type : ScalarType) :
    Reports elements
      ("<Constant dataType=\"".toList ++ type.name.toList ++ "\" missing=\"true\"/>\n".toList)
      elements [.start "Constant" [("dataType", type.name), ("missing", "true")], .stop "Constant",
        .char '\n'] := by
  have hreturn : '\r' ∉ "<Constant dataType=\"".toList ++ type.name.toList ++
      "\" missing=\"true\"/>\n".toList := by
    cases type <;> decide
  refine .of_run hreturn fun brackets => ⟨0, ?_⟩
  cases type <;> rfl

mutual

/-- What is reported of the lines of an element, inside any others. -/
theorem reports_render : ∀ (e : Element) (level : Nat) (elements : List String),
    Reports elements (e.render level).toList elements (e.reported inAttribute inContent level)
  | .fieldRef field, level, elements => by
    have htag : Reports elements
        ("<FieldRef field=\"".toList ++ ((escape field).toList ++ '"' :: "/>\n".toList)) elements
        [.start "FieldRef" [("field", inAttribute field)], .stop "FieldRef", .char '\n'] :=
      reports_attribute field (by decide) (by decide) (fun _ => rfl) rfl
    simpa [render, reported] using (reports_indent elements level).append htag
  | .apply function [], level, elements => by
    have htag : Reports elements
        ("<Apply function=\"".toList ++ ((escape function).toList ++ '"' :: "/>\n".toList)) elements
        [.start "Apply" [("function", inAttribute function)], .stop "Apply", .char '\n'] :=
      reports_attribute function (by decide) (by decide) (fun _ => rfl) rfl
    simpa [render, reported] using (reports_indent elements level).append htag
  | .apply function (argument :: arguments), level, elements => by
    have hopening : Reports elements
        ("<Apply function=\"".toList ++ ((escape function).toList ++ '"' :: ">\n".toList))
        ("Apply" :: elements) [.start "Apply" [("function", inAttribute function)], .char '\n'] :=
      reports_attribute function (by decide) (by decide) (fun _ => rfl) rfl
    have hinside := (reports_render argument (level + 1) ("Apply" :: elements)).append
      (reports_renderAll arguments (level + 1) ("Apply" :: elements))
    -- The arguments stand inside one element more, which the closing tag ends.
    have hclosing := (reports_indent ("Apply" :: elements) level).append (reports_closing elements)
    have h := (((reports_indent elements level).append hopening).append hinside).append hclosing
    simpa [render, reported] using h
  | .constant value type, level, elements => by
    cases htext : value.markupText? with
    | none =>
      have h := (reports_indent elements level).append (reports_missing elements type)
      simpa [render, reported, htext] using h
    | some s =>
      have htag := reports_constant elements type s
      simpa [render, reported, htext] using (reports_indent elements level).append htag

/-- Several elements are reported one after the other. -/
theorem reports_renderAll : ∀ (es : List Element) (level : Nat) (elements : List String),
    Reports elements (renderAll level es).toList elements
      (allReported inAttribute inContent level es)
  | [], _, _ => .of_run List.not_mem_nil fun brackets => ⟨brackets, rfl⟩
  | e :: es, level, elements => by
    have h := (reports_render e level elements).append (reports_renderAll es level elements)
    simpa [renderAll, allReported] using h

end

/-! ## Allowed characters -/

mutual

/-- Whether the names in an element and the texts of its string constants have given properties. -/
def HasAll (name text : String → Prop) : Element → Prop
  | .fieldRef field => name field
  | .apply function arguments => name function ∧ AllHave name text arguments
  | .constant value _ => ∀ s, value = .string s → text s

/-- Whether the names and texts in several elements have given properties. -/
def AllHave (name text : String → Prop) : List Element → Prop
  | [] => True
  | e :: es => HasAll name text e ∧ AllHave name text es

end

end Element

/-- The characters of numbers are printable. -/
theorem Json.IsNumberChar.isPrintable {c : Char} (h : Json.IsNumberChar c) : Xml.IsPrintable c := by
  rcases h with h | h
  · have hdigit := Json.toNat_of_isDigit h
    exact ⟨by omega, by omega⟩
  · exact (by decide : Xml.AllPrintable _) c h

/-- The text of any value but a string has printable characters only. -/
theorem Value.isPrintable_of_mem_markupText {value : Value} {s : String}
    (h : value.markupText? = some s) (hstring : ∀ t, value ≠ .string t) :
    Xml.AllPrintable s.toList := by
  cases value with
  | null => cases h
  | boolean b =>
    obtain rfl := Option.some.inj h
    cases b <;> decide
  | integer n =>
    obtain rfl := Option.some.inj h
    exact fun c hc => (Json.isNumberChar_of_mem_toString _ c hc).isPrintable
  | double x =>
    obtain rfl := Option.some.inj h
    rw [Double.markupText]
    split
    · decide
    · split
      · split <;> decide
      · rw [String.toList_ofList]
        exact fun c hc => (Json.isNumberChar_of_mem_plainText x c hc).isPrintable
  | string t => exact absurd rfl (hstring t)

namespace Element

open Xml

/-- Whether a text may stand in XML. -/
def IsText (s : String) : Prop := AllAllowed s.toList

instance (s : String) : Decidable (IsText s) := inferInstanceAs (Decidable (AllAllowed s.toList))

/-- Two texts are allowed together exactly when each is. -/
theorem allAllowed_append {xs ys : List Char} :
    AllAllowed (xs ++ ys) ↔ AllAllowed xs ∧ AllAllowed ys := List.forall_mem_append

/-- A text of allowed characters is so when escaped. -/
theorem allAllowed_escape {s : String} (h : IsText s) : AllAllowed (escape s).toList := by
  rw [toList_escape]
  exact allAllowed_flatMap_escapeChar h

/-- The blanks in front of a tag are allowed. -/
theorem allAllowed_indent (level : Nat) : AllAllowed (indent level).toList := by
  intro c hc
  rw [indent, String.toList_ofList] at hc
  rw [List.eq_of_mem_replicate hc]
  rfl

/-- The text of a constant may stand in XML if a string may. -/
theorem isText_of_markupText? {value : Value} {s : String} (htext : value.markupText? = some s)
    (h : ∀ t, value = .string t → IsText t) : IsText s := by
  by_cases hstring : ∃ t, value = .string t
  · obtain ⟨t, rfl⟩ := hstring
    obtain rfl := Option.some.inj htext
    exact h t rfl
  · have hprintable := Value.isPrintable_of_mem_markupText htext (not_exists.mp hstring)
    exact fun c hc => (hprintable c hc).isAllowed

mutual

/-- The markup of an element has no other characters than its names and texts and printable ones. -/
theorem allAllowed_render : ∀ (e : Element) (level : Nat), e.HasAll IsText IsText →
    AllAllowed (e.render level).toList
  | .fieldRef field, level, h => by
    simp only [render, String.toList_append, allAllowed_append, and_assoc]
    exact ⟨allAllowed_indent level, by decide, allAllowed_escape h, by decide⟩
  | .apply function [], level, h => by
    simp only [render, String.toList_append, allAllowed_append, and_assoc]
    exact ⟨allAllowed_indent level, by decide, allAllowed_escape h.1, by decide⟩
  | .apply function (argument :: arguments), level, h => by
    have hinside := allAllowed_render argument (level + 1) h.2.1
    have hothers := allAllowed_renderAll arguments (level + 1) h.2.2
    simp only [render, String.toList_append, allAllowed_append, and_assoc]
    exact ⟨allAllowed_indent level, by decide, allAllowed_escape h.1, by decide, hinside, hothers,
      allAllowed_indent level, by decide⟩
  | .constant value type, level, h => by
    have htype : AllAllowed type.name.toList := by cases type <;> decide
    cases htext : value.markupText? with
    | none =>
      simp only [render, htext, String.toList_append, allAllowed_append, and_assoc]
      exact ⟨allAllowed_indent level, by decide, htype, by decide⟩
    | some s =>
      have hs := allAllowed_escape (isText_of_markupText? htext h)
      simp only [render, htext, String.toList_append, allAllowed_append, and_assoc]
      exact ⟨allAllowed_indent level, by decide, htype, by decide, hs, by decide⟩

/-- The markup of several elements with allowed texts is allowed. -/
theorem allAllowed_renderAll : ∀ (es : List Element) (level : Nat), AllHave IsText IsText es →
    AllAllowed (renderAll level es).toList
  | [], _, _ => List.forall_mem_nil _
  | e :: es, level, h => by
    simp only [renderAll, String.toList_append, allAllowed_append]
    exact ⟨allAllowed_render e level h.1, allAllowed_renderAll es level h.2⟩

end

/-! ## What comes through -/

/-- The characters in front of an end tag are read off the events. -/
theorem map_char_append_inj {xs ys : List Char} {name : String} {more others : List Event} :
    xs.map Event.char ++ .stop name :: more = ys.map Event.char ++ .stop name :: others ↔
      xs = ys ∧ more = others := by
  induction xs generalizing ys with
  | nil => cases ys <;> simp
  | cons x xs ih => cases ys <;> simp [ih, and_assoc]

section Exact

variable {name text : String → String}

mutual

/-- The same is reported as of the names and texts themselves exactly where each of them comes
through as it is. -/
theorem reported_append_eq_iff
    (hplain : ∀ s : String, AllPrintable s.toList → text s = s) :
    ∀ (e : Element) (level : Nat) {more others : List Event},
    reported name text level e ++ more = reported id id level e ++ others ↔
      e.HasAll (fun s => name s = s) (fun s => text s = s) ∧ more = others
  | .fieldRef _, _, _, _ => by simp [reported, HasAll]
  | .apply _ [], _, _, _ => by simp [reported, HasAll, AllHave]
  | .apply _ (argument :: arguments), _, _, _ => by
    simp [reported, HasAll, AllHave, reported_append_eq_iff hplain argument,
      allReported_append_eq_iff hplain arguments, and_assoc]
  | .constant value _, _, _, _ => by
    cases htext : value.markupText? with
    | none =>
      have hnone : ∀ s, value ≠ .string s := by
        rintro s rfl
        cases htext
      simp [reported, HasAll, htext, hnone]
    | some s =>
      have hs : text s = s ↔ ∀ t, value = .string t → text t = t := by
        by_cases hstring : ∃ t, value = .string t
        · obtain ⟨t, rfl⟩ := hstring
          obtain rfl := Option.some.inj htext
          exact ⟨fun h t ht => by rwa [← Value.string.inj ht], fun h => h t rfl⟩
        · have hne := not_exists.mp hstring
          have hprintable := Value.isPrintable_of_mem_markupText htext hne
          exact ⟨fun _ t ht => absurd ht (hne t), fun _ => hplain s hprintable⟩
      simp [reported, HasAll, htext, map_char_append_inj, String.toList_inj, hs]

/-- Several elements come through exactly when each of them does. -/
theorem allReported_append_eq_iff
    (hplain : ∀ s : String, AllPrintable s.toList → text s = s) :
    ∀ (es : List Element) (level : Nat) {more others : List Event},
    allReported name text level es ++ more = allReported id id level es ++ others ↔
      AllHave (fun s => name s = s) (fun s => text s = s) es ∧ more = others
  | [], _, _, _ => by simp [allReported, AllHave]
  | e :: es, _, _, _ => by
    simp [allReported, AllHave, reported_append_eq_iff hplain e,
      allReported_append_eq_iff hplain es, and_assoc]

end

end Exact

/-- What an XML processor has to report for nothing to be lost: every name and every text as it is,
between the tags and blanks of the markup. -/
def report (e : Element) : List Event := e.reported id id 0

/-- Whether a name has neither a tab nor a line end. -/
def IsUnbroken (s : String) : Prop := ∀ c ∈ s.toList, c ≠ '\t' ∧ c ≠ '\n' ∧ c ≠ '\r'

/-- Whether a text has no carriage return. -/
def HasNoReturn (s : String) : Prop := '\r' ∉ s.toList

/-- A text comes through in content exactly when it has no carriage return. -/
theorem inContent_eq_self_iff {s : String} : inContent s = s ↔ HasNoReturn s := by
  rw [inContent, ← String.toList_inj, String.toList_ofList, lineEnds_eq_self_iff, HasNoReturn]

/-- Blanks other than spaces come through in no attribute value. -/
theorem inValue_ne (c : Char) : inValue c ≠ '\t' ∧ inValue c ≠ '\n' ∧ inValue c ≠ '\r' := by
  unfold inValue
  split_ifs with hblank
  · decide
  · simp only [isBlank, Bool.or_eq_true, decide_eq_true_eq, not_or] at hblank
    exact ⟨hblank.1.1.2, hblank.1.2, hblank.2⟩

/-- Characters other than blanks come through in an attribute value. -/
theorem inValue_eq_self {c : Char} (h : c ≠ '\t' ∧ c ≠ '\n' ∧ c ≠ '\r') : inValue c = c := by
  unfold inValue isBlank
  by_cases hspace : c = ' '
  · simp [hspace]
  · simp [hspace, h]

/-- A text comes through in an attribute exactly when it has no line breaks and tabs. -/
theorem inAttribute_eq_self_iff {s : String} : inAttribute s = s ↔ IsUnbroken s := by
  rw [inAttribute, ← String.toList_inj, String.toList_ofList, IsUnbroken]
  constructor
  · intro h c hc
    rw [← h] at hc
    obtain ⟨d, -, rfl⟩ := List.mem_map.mp hc
    exact inValue_ne d
  · intro h
    have hreturn : '\r' ∉ s.toList := fun hmem => (h _ hmem).2.2 rfl
    rw [lineEnds_of_not_mem hreturn]
    exact (List.map_congr_left fun c hc => inValue_eq_self (h c hc)).trans (List.map_id' _)

/-- From the markup of an element whose names and texts may stand in XML, a processor reports the
element, with line ends and tabs in names as spaces and line ends in texts as line feeds. So
nothing is lost exactly where no name has a tab or a line end and no text a carriage return. -/
theorem read_markup {e : Element} (h : e.HasAll IsText IsText) :
    read e.markup = some (e.reported inAttribute inContent 0) ∧
      (read e.markup = some e.report ↔ e.HasAll IsUnbroken HasNoReturn) := by
  have hallowed : e.markup.toList.all isAllowed = true :=
    List.all_eq_true.mpr (allAllowed_render e 0 h)
  have hread : read e.markup = some (e.reported inAttribute inContent 0) := by
    obtain ⟨brackets, hrun⟩ := reports_render e 0 [] 0 []
    rw [List.append_nil] at hrun
    unfold Xml.read
    rw [if_pos hallowed, markup, hrun]
    simp [lineEnds, State.run, prepend]
  refine ⟨hread, ?_⟩
  have hplain (s : String) (hs : AllPrintable s.toList) : inContent s = s :=
    inContent_eq_self_iff.mpr fun hmem => (hs _ hmem).ne_return rfl
  have heq : e.reported inAttribute inContent 0 ++ [] = e.reported id id 0 ++ [] ↔ _ :=
    reported_append_eq_iff hplain e 0
  simp only [List.append_nil, inAttribute_eq_self_iff, inContent_eq_self_iff, and_true] at heq
  rw [hread, Option.some_inj, report, heq]

/-- An application whose names and text have blanks that do not come through. -/
def brokenSum : Element :=
  .apply "+\n" [.fieldRef "a\tb", .constant (.string "<\r\n") .string]

/-- In names a line feed and a tab are lost, and in a text a carriage return. -/
theorem read_markup_brokenSum :
    read brokenSum.markup =
        some [.start "Apply" [("function", "+ ")], .char '\n',
          .char ' ', .char ' ', .start "FieldRef" [("field", "a b")], .stop "FieldRef", .char '\n',
          .char ' ', .char ' ', .start "Constant" [("dataType", "string")], .char '<', .char '\n',
          .stop "Constant", .char '\n', .stop "Apply", .char '\n'] ∧
      read brokenSum.markup ≠ some brokenSum.report := by
  have hfunction : IsText "+\n" := by decide
  have hfield : IsText "a\tb" := by decide
  have hstring : ∀ s, Value.string "<\r\n" = .string s → IsText s := by
    rintro _ ⟨⟩
    decide
  have htexts : brokenSum.HasAll IsText IsText := by
    simp only [brokenSum, HasAll, AllHave]
    exact ⟨hfunction, hfield, hstring, trivial⟩
  have hread := read_markup htexts
  constructor
  · rw [hread.1]
    decide +kernel
  · intro heq
    have hnone := hread.2.mp heq
    simp only [brokenSum, HasAll] at hnone
    exact absurd (hnone.1 '\n' (by decide)) (by decide)

/-- A tab may stand in XML, but not in the name of a field: it comes back as a space. -/
theorem read_markup_tab :
    (Element.fieldRef "a\tb").HasAll IsText IsText ∧
      read (Element.fieldRef "a\tb").markup =
        some [.start "FieldRef" [("field", "a b")], .stop "FieldRef", .char '\n'] ∧
      (Element.fieldRef "a\tb").report =
        [.start "FieldRef" [("field", "a\tb")], .stop "FieldRef", .char '\n'] ∧
      read (Element.fieldRef "a\tb").markup ≠ some (Element.fieldRef "a\tb").report := by
  have htext : (Element.fieldRef "a\tb").HasAll IsText IsText := by
    change IsText "a\tb"
    decide
  have hread : read (Element.fieldRef "a\tb").markup =
      some [.start "FieldRef" [("field", "a b")], .stop "FieldRef", .char '\n'] := by
    decide +kernel
  refine ⟨htext, hread, rfl, ?_⟩
  rw [hread]
  decide +kernel

end Element

end ScoringMarkup
