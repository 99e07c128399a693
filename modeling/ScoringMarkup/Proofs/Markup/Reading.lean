import Mathlib.Data.List.Forall2
import ScoringMarkup.Markup.Render

/-!
# Reading markup

Markup is read back without looking at its layout. A `<` stands only in front of a tag and a quote
only around an attribute, since both are escaped in names and texts. So the text falls apart into
tags at each `<`, and a tag into its parts at each quote. The tags are taken up from the last to
the first: the end of an application opens a list of arguments, an element joins the list that is
open, and the beginning of an application makes an element of the list.
-/

namespace ScoringMarkup

/-- The name of a markup type holds no `<`. -/
theorem ScalarType.lt_not_mem_name (type : ScalarType) : '<' ∉ type.name.toList := by
  cases type <;> decide

/-- The name of a markup type holds no quote. -/
theorem ScalarType.quote_not_mem_name (type : ScalarType) : '"' ∉ type.name.toList := by
  cases type <;> decide

namespace Element

/-- The characters that escaped characters stand for. -/
def unescape : List Char → List Char
  | '&' :: 'a' :: 'm' :: 'p' :: ';' :: rest => '&' :: unescape rest
  | '&' :: 'l' :: 't' :: ';' :: rest => '<' :: unescape rest
  | '&' :: 'g' :: 't' :: ';' :: rest => '>' :: unescape rest
  | '&' :: 'q' :: 'u' :: 'o' :: 't' :: ';' :: rest => '"' :: unescape rest
  | '&' :: 'a' :: 'p' :: 'o' :: 's' :: ';' :: rest => '\'' :: unescape rest
  | c :: rest => c :: unescape rest
  | [] => []

/-- Any character but an ampersand stands for itself. -/
theorem unescape_cons {c : Char} (h : c ≠ '&') (rest : List Char) :
    unescape (c :: rest) = c :: unescape rest := by
  rw [unescape] <;> simp_all

/-- A character that has been escaped is read back, whatever follows. -/
theorem unescape_escapeChar (c : Char) (rest : List Char) :
    unescape (escapeChar c ++ rest) = c :: unescape rest := by
  unfold escapeChar
  split
  case h_6 h _ _ _ _ => exact unescape_cons h rest
  all_goals rfl

/-- Escaping is undone. -/
theorem unescape_escape (text : List Char) : unescape (text.flatMap escapeChar) = text := by
  induction text with
  | nil => rfl
  | cons c text ih => rw [List.flatMap_cons, unescape_escapeChar, ih]

/-- Escaping a character leaves no `<` and no quote. -/
theorem not_mem_escapeChar (c : Char) : '<' ∉ escapeChar c ∧ '"' ∉ escapeChar c := by
  unfold escapeChar
  split
  case h_6 hlt _ hquote _ =>
    exact ⟨mt List.mem_singleton.mp (Ne.symm hlt), mt List.mem_singleton.mp (Ne.symm hquote)⟩
  all_goals decide

/-- A text is escaped character by character. -/
theorem toList_escape (text : String) : (escape text).toList = text.toList.flatMap escapeChar := by
  simp [escape]

/-- An escaped text holds no `<`. -/
theorem lt_not_mem_escape (text : String) : '<' ∉ (escape text).toList := by
  rw [toList_escape, List.mem_flatMap]
  rintro ⟨c, -, hc⟩
  exact (not_mem_escapeChar c).1 hc

/-- An escaped text holds no quote. -/
theorem quote_not_mem_escape (text : String) : '"' ∉ (escape text).toList := by
  rw [toList_escape, List.mem_flatMap]
  rintro ⟨c, -, hc⟩
  exact (not_mem_escapeChar c).2 hc

/-- The text that an escaped text stands for. -/
def ofEscaped (text : List Char) : String := String.ofList (unescape text)

/-- A text that has been escaped is read back. -/
@[simp] theorem ofEscaped_escape (text : String) : ofEscaped (escape text).toList = text := by
  rw [ofEscaped, toList_escape, unescape_escape, String.ofList_toList]

/-- The names of markup types need no escaping. -/
@[simp] theorem ofEscaped_name (type : ScalarType) : ofEscaped type.name.toList = type.name := by
  cases type <;> decide

end Element

/-- What markup shows of a value: its text, and null as such. -/
def Value.shown (v : Value) : Value :=
  match v.markupText? with
  | some text => .string text
  | none => .null

/-- What is shown of a value has the text of the value. -/
@[simp] theorem Value.markupText?_shown (v : Value) : v.shown.markupText? = v.markupText? := by
  cases htext : v.markupText? with
  | some text =>
    rw [Value.shown, htext]
    rfl
  | none =>
    rw [Value.shown, htext]
    rfl

/-- The same is shown of two values exactly when they have the same text, or none both. -/
theorem Value.shown_eq_iff {v v' : Value} :
    v.shown = v'.shown ↔ v.markupText? = v'.markupText? := by
  constructor
  · intro h
    rw [← v.markupText?_shown, h, v'.markupText?_shown]
  · intro h
    rw [shown, shown, h]

/-- Null alone has no text, so values of the same text are null together. -/
theorem Value.isNull_eq_of_markupText? {v v' : Value} (h : v.markupText? = v'.markupText?) :
    v.isNull = v'.isNull := by
  rw [Bool.eq_iff_iff, ← markupText?_eq_none_iff, h, markupText?_eq_none_iff]

namespace Element

mutual

/-- What markup shows of an element: each value replaced by its text, and null kept. -/
def shown : Element → Element
  | .fieldRef field => .fieldRef field
  | .apply function arguments => .apply function (allShown arguments)
  | .constant value type => .constant value.shown type

/-- What markup shows of several elements. -/
def allShown : List Element → List Element
  | [] => []
  | e :: es => shown e :: allShown es

end

mutual

/-- What is not shown makes no difference to the markup. -/
theorem render_shown : ∀ (e : Element) (level : Nat), e.shown.render level = e.render level
  | .fieldRef _, _ => rfl
  | .apply _ [], _ => rfl
  | .apply _ (argument :: arguments), level => by
    simp only [shown, allShown, render, render_shown argument, renderAll_shown arguments]
  | .constant value _, _ => by
    simp only [shown, render, Value.markupText?_shown]

/-- What is not shown of several elements makes no difference to their markup. -/
theorem renderAll_shown : ∀ (es : List Element) (level : Nat),
    renderAll level (allShown es) = renderAll level es
  | [], _ => rfl
  | e :: es, level => by
    simp only [allShown, renderAll, render_shown e, renderAll_shown es]

end

/-- A part of markup between one `<` and the next. -/
inductive Tag
  /-- An element without elements inside. -/
  | leaf (e : Element)
  /-- The beginning of an application. -/
  | opening (function : String)
  /-- The end of an application. -/
  | closing

namespace Tag

/-- The tag with the given parts between quotes; its first letters tell which it is. The end of a
constant is no tag of its own. -/
def ofParts? : List (List Char) → Option Tag
  | ('F' :: _) :: value :: _ => some (.leaf (.fieldRef (ofEscaped value)))
  | ('A' :: _) :: value :: ('/' :: _) :: _ => some (.leaf (.apply (ofEscaped value) []))
  | ('A' :: _) :: value :: _ => some (.opening (ofEscaped value))
  | ('C' :: _) :: value :: ('>' :: text) :: _ =>
    (ScalarType.ofName? (ofEscaped value)).map fun type =>
      .leaf (.constant (.string (ofEscaped text)) type)
  | ('C' :: _) :: value :: _ =>
    (ScalarType.ofName? (ofEscaped value)).map fun type => .leaf (.constant .null type)
  | ('/' :: 'A' :: _) :: _ => some .closing
  | _ => none

/-- The lists of arguments that are open once the elements in front of them are taken up too,
the innermost first. -/
def takeUp (t : Tag) (lists : List (List Element)) : List (List Element) :=
  match t, lists with
  | .leaf e, arguments :: lists => (e :: arguments) :: lists
  | .opening function, arguments :: outer :: lists => (.apply function arguments :: outer) :: lists
  | .closing, lists => [] :: lists
  | _, lists => lists

end Tag

/-- The tags of a text, in order. -/
def tagsOf (text : List Char) : List Tag :=
  (text.splitOn '<').tail.filterMap fun part => Tag.ofParts? (part.splitOn '"')

/-- The elements of a text, with the lists of arguments that its beginning leaves open. -/
def listsOf (text : List Char) : List (List Element) := (tagsOf text).foldr Tag.takeUp [[]]

/-- The element that a text is the markup of, as far as markup shows it. -/
def ofMarkup? (text : String) : Option Element :=
  match listsOf text.toList with
  | [[e]] => some e
  | _ => none

/-- The characters in front of the first `<`. -/
def front (text : List Char) : List Char := (text.splitOn '<').headD []

/-- There is nothing in front of a `<` that comes first. -/
theorem front_lt (text : List Char) : front ('<' :: text) = [] := by
  simp [front, List.splitOn_cons_eq_if_modifyHead]

/-- Text without the separator joins the first part. -/
private theorem splitOn_append {sep : Char} {xs : List Char} (h : sep ∉ xs) (ys : List Char) :
    (xs ++ ys).splitOn sep = (xs ++ (ys.splitOn sep).headD []) :: (ys.splitOn sep).tail := by
  induction xs with
  | nil =>
    obtain ⟨part, parts, hparts⟩ := List.exists_cons_of_ne_nil (List.splitOn_ne_nil sep ys)
    simp [hparts]
  | cons c xs ih =>
    obtain ⟨hc, hxs⟩ := not_or.mp (mt List.mem_cons.mpr h)
    have hne : (c == sep) = false := by simpa using Ne.symm hc
    rw [List.cons_append, List.splitOn_cons_eq_if_modifyHead, hne, ih hxs]
    rfl

/-- A part of a text gives its tag, in front of the tags of the rest. -/
theorem tagsOf_part {blanks part : List Char} (hblanks : '<' ∉ blanks) (hpart : '<' ∉ part)
    (rest : List Char) :
    tagsOf (blanks ++ '<' :: (part ++ rest)) =
      (Tag.ofParts? ((part ++ front rest).splitOn '"')).toList ++ tagsOf rest := by
  rw [tagsOf, List.splitOn_append_cons_self_of_not_mem hblanks, List.tail_cons,
    splitOn_append hpart, List.filterMap_cons]
  cases h : Tag.ofParts? ((part ++ front rest).splitOn '"') <;>
    simp [front] at h <;> simp [h, tagsOf]

/-- A part of a text that is a tag is taken up in front of the rest. -/
theorem listsOf_tag {blanks part rest : List Char} {t : Tag} (hblanks : '<' ∉ blanks)
    (hpart : '<' ∉ part) (h : Tag.ofParts? ((part ++ front rest).splitOn '"') = some t) :
    listsOf (blanks ++ '<' :: (part ++ rest)) = t.takeUp (listsOf rest) := by
  rw [listsOf, tagsOf_part hblanks hpart, h]
  rfl

/-- A tag with one attribute, from behind its `<`. -/
def attributeTag (name value ending : List Char) : List Char :=
  name ++ '"' :: (value ++ '"' :: ending)

/-- A tag with one attribute falls apart at the quotes of the attribute. -/
theorem splitOn_attributeTag {name value : List Char} (hname : '"' ∉ name) (hvalue : '"' ∉ value)
    (ending : List Char) :
    (attributeTag name value ending).splitOn '"' = name :: value :: ending.splitOn '"' := by
  rw [attributeTag, List.splitOn_append_cons_self_of_not_mem hname,
    List.splitOn_append_cons_self_of_not_mem hvalue]

/-- What follows a tag with one attribute is part of its ending. -/
theorem attributeTag_append (name value ending more : List Char) :
    attributeTag name value ending ++ more = attributeTag name value (ending ++ more) := by
  simp [attributeTag]

/-- A tag with one attribute holds no `<` if none of its pieces does. -/
theorem lt_not_mem_attributeTag {name value ending : List Char} (hname : '<' ∉ name)
    (hvalue : '<' ∉ value) (hending : '<' ∉ ending) : '<' ∉ attributeTag name value ending := by
  simp [attributeTag, hname, hvalue, hending]

/-- The first part of a text begins as the text does. -/
private theorem exists_splitOn_cons {sep c : Char} (h : c ≠ sep) (text : List Char) :
    ∃ part parts, (c :: text).splitOn sep = (c :: part) :: parts := by
  have happend := splitOn_append (by simpa using h.symm : sep ∉ [c]) text
  exact ⟨_, _, happend⟩

section Parts

variable {name : List Char} (hname : '"' ∉ name)

include hname

/-- A reference to a field is known by its `F`. -/
theorem ofParts?_fieldRef (field : String) (more : List Char) :
    Tag.ofParts? ((attributeTag ('F' :: name) (escape field).toList more).splitOn '"') =
      some (.leaf (.fieldRef field)) := by
  rw [splitOn_attributeTag (by simpa using hname) (quote_not_mem_escape field), Tag.ofParts?,
    ofEscaped_escape]

/-- A slash behind the attribute makes an application one without arguments. -/
theorem ofParts?_apply_nil (function : String) (more : List Char) :
    Tag.ofParts? ((attributeTag ('A' :: name) (escape function).toList ('/' :: more)).splitOn '"') =
      some (.leaf (.apply function [])) := by
  obtain ⟨part, parts, hparts⟩ := exists_splitOn_cons (by decide : '/' ≠ '"') more
  rw [splitOn_attributeTag (by simpa using hname) (quote_not_mem_escape function), hparts,
    Tag.ofParts?, ofEscaped_escape]

/-- A `>` behind the attribute begins an application with arguments. -/
theorem ofParts?_opening (function : String) (more : List Char) :
    Tag.ofParts? ((attributeTag ('A' :: name) (escape function).toList ('>' :: more)).splitOn '"') =
      some (.opening function) := by
  obtain ⟨part, parts, hparts⟩ := exists_splitOn_cons (by decide : '>' ≠ '"') more
  rw [splitOn_attributeTag (by simpa using hname) (quote_not_mem_escape function), hparts,
    Tag.ofParts?, ofEscaped_escape]
  simp

/-- A `>` behind the attribute makes a constant one with a text. -/
theorem ofParts?_constant (type : ScalarType) (text : String) :
    Tag.ofParts? ((attributeTag ('C' :: name) type.name.toList
        ('>' :: (escape text).toList)).splitOn '"') =
      some (.leaf (.constant (.string text) type)) := by
  have hending : '"' ∉ '>' :: (escape text).toList := by simpa using quote_not_mem_escape text
  rw [splitOn_attributeTag (by simpa using hname) type.quote_not_mem_name,
    List.splitOn_eq_singleton hending, Tag.ofParts?, ofEscaped_name, ScalarType.ofName?_name,
    ofEscaped_escape]
  rfl

/-- Another attribute behind the first makes a constant a missing one. -/
theorem ofParts?_missing (type : ScalarType) (more : List Char) :
    Tag.ofParts? ((attributeTag ('C' :: name) type.name.toList (' ' :: more)).splitOn '"') =
      some (.leaf (.constant .null type)) := by
  obtain ⟨part, parts, hparts⟩ := exists_splitOn_cons (by decide : ' ' ≠ '"') more
  rw [splitOn_attributeTag (by simpa using hname) type.quote_not_mem_name, hparts,
    Tag.ofParts?, ofEscaped_name, ScalarType.ofName?_name]
  · rfl
  · simp

end Parts

/-- The end of an application is known by its `/A`. -/
theorem ofParts?_closing (more : List Char) :
    Tag.ofParts? (('/' :: 'A' :: more).splitOn '"') = some .closing := by
  have happend := splitOn_append (by decide : '"' ∉ ['/', 'A']) more
  rw [List.cons_append, List.cons_append, List.nil_append] at happend
  rw [happend]
  rfl

/-- The end of a constant is no tag. -/
theorem ofParts?_constantEnd (more : List Char) :
    Tag.ofParts? (('/' :: 'C' :: more).splitOn '"') = none := by
  have happend := splitOn_append (by decide : '"' ∉ ['/', 'C']) more
  rw [List.cons_append, List.cons_append, List.nil_append] at happend
  rw [happend]
  rfl

/-- The blanks in front of a tag hold no `<`. -/
theorem lt_not_mem_indent (level : Nat) : '<' ∉ (indent level).toList := by
  simp [indent]

/-- A tag with one attribute is taken up in front of the rest. -/
theorem listsOf_attributeTag (level : Nat) {name value : List Char} {ending rest : List Char}
    {t : Tag} (hname : '<' ∉ name) (hvalue : '<' ∉ value) (hending : '<' ∉ ending)
    (h : Tag.ofParts? ((attributeTag name value (ending ++ front rest)).splitOn '"') = some t) :
    listsOf ((indent level).toList ++ '<' :: (attributeTag name value ending ++ rest)) =
      t.takeUp (listsOf rest) := by
  refine listsOf_tag (lt_not_mem_indent level)
    (lt_not_mem_attributeTag hname hvalue hending) ?_
  rwa [attributeTag_append]

/-- The end of an application opens a list of arguments. -/
theorem listsOf_closing (level : Nat) (rest : List Char) :
    listsOf ((indent level).toList ++ "</Apply>\n".toList ++ rest) = [] :: listsOf rest := by
  have hpart : '<' ∉ "/Apply>\n".toList := by decide
  have htag := listsOf_tag (lt_not_mem_indent level) hpart
    (ofParts?_closing ("pply>\n".toList ++ front rest))
  simpa [Tag.takeUp] using htag

/-- The end of a constant changes no list. -/
theorem listsOf_constantEnd (rest : List Char) :
    listsOf ("</Constant>\n".toList ++ rest) = listsOf rest := by
  have hpart : '<' ∉ "/Constant>\n".toList := by decide
  have hnone : Tag.ofParts? (("/Constant>\n".toList ++ front rest).splitOn '"') = none :=
    ofParts?_constantEnd ("onstant>\n".toList ++ front rest)
  have htags := tagsOf_part List.not_mem_nil hpart rest
  rw [hnone] at htags
  exact congrArg (List.foldr Tag.takeUp [[]]) htags

mutual

/-- The markup of an element adds what it shows of the element to the arguments behind it. -/
theorem listsOf_render : ∀ (e : Element) (level : Nat) {rest : List Char}
    {arguments : List Element} {outer : List (List Element)}, listsOf rest = arguments :: outer →
    listsOf ((e.render level).toList ++ rest) = (e.shown :: arguments) :: outer
  | .fieldRef field, level, rest, arguments, outer, hrest => by
    have hending : '<' ∉ "/>\n".toList := by decide
    have hparts := ofParts?_fieldRef (by decide : '"' ∉ "ieldRef field=".toList) field
      ("/>\n".toList ++ front rest)
    have htag := listsOf_attributeTag level (by decide) (lt_not_mem_escape field) hending hparts
    rw [hrest] at htag
    simpa [render, attributeTag, shown, Tag.takeUp] using htag
  | .apply function [], level, rest, arguments, outer, hrest => by
    have hending : '<' ∉ "/>\n".toList := by decide
    have hparts := ofParts?_apply_nil (by decide : '"' ∉ "pply function=".toList) function
      (">\n".toList ++ front rest)
    have htag := listsOf_attributeTag level (by decide) (lt_not_mem_escape function) hending hparts
    rw [hrest] at htag
    simpa [render, attributeTag, shown, allShown, Tag.takeUp] using htag
  | .apply function (argument :: more), level, rest, arguments, outer, hrest => by
    -- The lists are followed from the end of the application back to its beginning.
    have hclosing : listsOf ((indent level).toList ++ "</Apply>\n".toList ++ rest) =
        [] :: arguments :: outer := by
      rw [listsOf_closing, hrest]
    have hmore := listsOf_renderAll more (level + 1) hclosing
    have hinside := listsOf_render argument (level + 1) hmore
    have hending : '<' ∉ ">\n".toList := by decide
    have hparts (next : List Char) := ofParts?_opening (by decide : '"' ∉ "pply function=".toList)
      function ("\n".toList ++ front next)
    have hopening (next : List Char) := listsOf_attributeTag level (by decide)
      (lt_not_mem_escape function) hending (hparts next)
    have htag := (hopening _).trans (congrArg (Tag.takeUp (.opening function)) hinside)
    simpa [render, attributeTag, shown, allShown, Tag.takeUp] using htag
  | .constant value type, level, rest, arguments, outer, hrest => by
    cases htext : value.markupText? with
    | none =>
      have hending : '<' ∉ " missing=\"true\"/>\n".toList := by decide
      have hparts := ofParts?_missing (by decide : '"' ∉ "onstant dataType=".toList) type
        ("missing=\"true\"/>\n".toList ++ front rest)
      have htag := listsOf_attributeTag level (by decide) type.lt_not_mem_name hending hparts
      rw [hrest] at htag
      simpa [render, attributeTag, shown, Value.shown, htext, Tag.takeUp] using htag
    | some text =>
      have hending : '<' ∉ '>' :: (escape text).toList := by
        simpa using lt_not_mem_escape text
      have hfront : ('>' :: (escape text).toList) ++ front ("</Constant>\n".toList ++ rest) =
          '>' :: (escape text).toList := by
        have hnext : front ("</Constant>\n".toList ++ rest) = [] := front_lt _
        rw [hnext, List.append_nil]
      have hparts := ofParts?_constant (by decide : '"' ∉ "onstant dataType=".toList) type text
      rw [← hfront] at hparts
      have htag := listsOf_attributeTag level (by decide) type.lt_not_mem_name hending hparts
      rw [listsOf_constantEnd, hrest] at htag
      simpa [render, attributeTag, shown, Value.shown, htext, Tag.takeUp] using htag

/-- The markup of several elements adds what it shows of them, in order. -/
theorem listsOf_renderAll : ∀ (es : List Element) (level : Nat) {rest : List Char}
    {arguments : List Element} {outer : List (List Element)}, listsOf rest = arguments :: outer →
    listsOf ((renderAll level es).toList ++ rest) = (allShown es ++ arguments) :: outer
  | [], level, rest, arguments, outer, hrest => by
    simpa [renderAll, allShown] using hrest
  | e :: es, level, rest, arguments, outer, hrest => by
    have htail := listsOf_renderAll es level hrest
    have hhead := listsOf_render e level htail
    simpa [renderAll, allShown] using hhead

end

/-- Two elements of the same shape, with the same functions and fields, arguments in the same
order, and constants of the same types, missing in the same places and otherwise of the same
texts. -/
inductive Alike : Element → Element → Prop
  | fieldRef (field : String) : Alike (.fieldRef field) (.fieldRef field)
  | apply (function : String) {arguments others : List Element}
      (alike : List.Forall₂ Alike arguments others) :
      Alike (.apply function arguments) (.apply function others)
  | constant (type : ScalarType) {value other : Value} (missing : value.isNull = other.isNull)
      (text : value.markupText? = other.markupText?) :
      Alike (.constant value type) (.constant other type)

mutual

/-- Elements are alike exactly when the same is shown of them. -/
theorem alike_iff_shown : ∀ {e other : Element}, Alike e other ↔ e.shown = other.shown
  | .fieldRef _, .fieldRef _ => by
    constructor
    · rintro ⟨⟩
      rfl
    · rintro ⟨⟩
      exact .fieldRef _
  | .apply _ _, .apply _ _ => by
    constructor
    · rintro (_ | ⟨function, halike⟩)
      rw [shown, shown, alike_iff_allShown.mp halike]
    · intro h
      obtain ⟨rfl, harguments⟩ := Element.apply.inj h
      exact .apply _ (alike_iff_allShown.mpr harguments)
  | .constant _ _, .constant _ _ => by
    constructor
    · rintro (_ | _ | ⟨type, hmissing, htext⟩)
      rw [shown, shown, Value.shown_eq_iff.mpr htext]
    · intro h
      obtain ⟨hvalue, rfl⟩ := Element.constant.inj h
      have htext := Value.shown_eq_iff.mp hvalue
      exact .constant _ (Value.isNull_eq_of_markupText? htext) htext
  | .fieldRef _, .apply _ _ | .fieldRef _, .constant _ _ | .apply _ _, .fieldRef _
  | .apply _ _, .constant _ _ | .constant _ _, .fieldRef _ | .constant _ _, .apply _ _ => by
    constructor <;> rintro ⟨⟩

/-- Arguments are alike one by one exactly when the same is shown of all. -/
theorem alike_iff_allShown : ∀ {es others : List Element},
    List.Forall₂ Alike es others ↔ allShown es = allShown others
  | [], [] => by simp
  | [], _ :: _ | _ :: _, [] => by simp [allShown]
  | e :: es, other :: others => by
    rw [List.forall₂_cons, alike_iff_shown, alike_iff_allShown, allShown, allShown, List.cons.injEq]

end

/-- Markup is read back as what it shows of its element; so exactly the elements that are alike
have the same markup. -/
theorem ofMarkup?_markup :
    (∀ e : Element, ofMarkup? e.markup = some e.shown) ∧
      ∀ e other : Element, e.markup = other.markup ↔ Alike e other := by
  have hread (e : Element) : ofMarkup? e.markup = some e.shown := by
    have hnothing : listsOf [] = [[]] := rfl
    have hlists := listsOf_render e 0 hnothing
    rw [List.append_nil] at hlists
    rw [ofMarkup?, markup, hlists]
  refine ⟨hread, fun e other => ?_⟩
  rw [alike_iff_shown]
  constructor
  · intro h
    apply Option.some.inj
    rw [← hread e, h, hread other]
  · intro h
    rw [markup, markup, ← render_shown e, h, render_shown other]

end Element

end ScoringMarkup
