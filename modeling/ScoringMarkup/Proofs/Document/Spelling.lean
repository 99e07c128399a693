import ScoringMarkup.Proofs.Document.RoundTrip
import ScoringMarkup.Proofs.Json.Spelling

/-!
# Spellings of an expression

Other tools write expressions with their keys in another order, with keys of their own, with lists
in place of objects, with other escapes and with blanks. None of this changes what is read: every
document that writes an expression is read as that expression. The containers of the values that
are skipped do not count towards the limit.
-/

namespace ScoringMarkup

namespace Document

open Json

/-- The document of an expression without doubles is one of those that write it. -/
theorem writes_documentOf {e : Expression} (h : HasNoDouble e) :
    Writes grammar (mostOpen (documentOf e)) (grammar .expression) e.toDatum (documentOf e) := by
  have hfollows := follows_expression e h
  have hdocument : documentOf e = e.toDatum.bytes := bytesOf_eq _
  rw [hdocument]
  exact writes_bytes hfollows (Nat.le_of_eq (mostOpen_bytes hfollows).symm)

/-- However a document writes an expression, with blanks around it or not, the expression is read
from it, as long as at most 127 containers outside skipped values are open at once. -/
theorem readExpression_writes {e : Expression} {document : Padded} {opened : Nat}
    (h : Writes grammar opened (grammar .expression) e.toDatum document.core)
    (hopened : opened ≤ 127) : readExpression document.text = .ok e := by
  rw [readExpression, readAs, readDocument_writes h hopened]
  dsimp only
  rw [Expression.ofDatum?_toDatum]
  rfl

/-- A document with blanks, keys in another order, a key of its own, a list for an object, an object
for a name and the codes of a surrogate pair. -/
def foreignDocument : Padded where
  front := bytesOf "\n "
  core := bytesOf
    ("\x7b\"In\":\x7b\"list\":[ ],\"note\" :[\x7b\x7d,-5e7],\"value\":\x7b\"FieldReference\":" ++
      "[\"\\ud83d\\uDE00\",\x7b\"Long\":null\x7d]\x7d\x7d\x7d")
  behind := bytesOf "\t\r"
  isBlanks_front := by decide
  isBlanks_behind := by decide

/-- The expression of that document. -/
def foreignExpression : Expression := .membership (.field "😀" .long) []

/-- The field in that document. -/
theorem writes_foreignField : Writes grammar 3 (grammar .expression)
    (Expression.field "😀" .long).toDatum
    (bytesOf "\x7b\"FieldReference\":[\"\\ud83d\\uDE00\",\x7b\"Long\":null\x7d]\x7d") := by
  have hname : Writes grammar 1 (grammar .string) (.string "😀")
      (bytesOf "\"\\ud83d\\uDE00\"") := by
    have hletters : SpellsAll "😀".toList (bytesOf "\\ud83d\\uDE00" ++ []) :=
      .cons (.pair (.digits rfl rfl rfl rfl) (.digits rfl rfl rfl rfl) rfl rfl rfl) .nil
    exact .string (.letters hletters)
  have htype : Writes grammar 1 (grammar .sourceType) (.unit "Long") (ascii '\x7b' ::
      ((Padded.bare (quoted "Long")).text ++
        ascii ':' :: ((Padded.bare (bytesOf "null")).text ++ [ascii '\x7d']))) :=
    .unit (v := bare "Long") rfl rfl (quotes_quoted "Long") rfl
  let filled : List ((Json.Field Symbol × Datum) × Padded) :=
    [((needed "name" .string, .string "😀"), .bare (bytesOf "\"\\ud83d\\uDE00\"")),
      ((needed "data_type" .sourceType, .unit "Long"), .bare (bytesOf "\x7b\"Long\":null\x7d"))]
  have hfilled : ∀ p ∈ filled, Writes grammar 1 (grammar p.1.1.symbol) p.1.2 p.2.core :=
    List.forall_mem_cons.mpr ⟨hname, List.forall_mem_singleton.mpr htype⟩
  have hfields : Writes grammar 2
      (.record "struct variant Expression::FieldReference" (filled.map (·.1.1)))
      (.record (filled.map fun p => entryOf p.1))
      (ascii '[' :: ([] ++ entries ']' true (filled.map (·.2.text)))) :=
    .elements isBlanks_nil hfilled
  exact writes_variant (v := made "FieldReference" .field) rfl (Or.inr rfl) hfields

/-- A list that no field asks for. -/
theorem isValue_foreignNote : IsValue (bytesOf "[\x7b\x7d,-5e7]") := by
  have hobject : IsValue (ascii (Frame.opening .object) ::
      ([] ++ entries (Frame.closing .object) true ([].map Entry.text))) :=
    .container isBlanks_nil (List.forall_mem_nil _) (List.forall_mem_nil _)
  have hwhole : IsWholePart [ascii '5'] := .digits rfl (by decide) (List.forall_mem_nil _)
  have hexponent : IsExponent (ascii 'e' :: ([] ++ bytesOf "7")) :=
    .digits (Or.inl rfl) (Or.inl rfl) (by decide)
  have hnumber := IsValue.negative (.parts hwhole .none hexponent)
  let es : List Entry := [⟨[], .bare (bytesOf "\x7b\x7d")⟩, ⟨[], .bare (bytesOf "-5e7")⟩]
  have hlead : ∀ e ∈ es, IsLead .list e.lead :=
    List.forall_mem_cons.mpr ⟨.list, List.forall_mem_singleton.mpr .list⟩
  have hvalues : ∀ e ∈ es, IsValue e.value.core :=
    List.forall_mem_cons.mpr ⟨hobject, List.forall_mem_singleton.mpr hnumber⟩
  have hcontainer : IsValue (ascii (Frame.opening .list) ::
      ([] ++ entries (Frame.closing .list) true (es.map Entry.text))) :=
    .container isBlanks_nil hlead hvalues
  exact hcontainer

/-- The fields in the object of that document, in the order of the grammar. -/
def foreignFields : List (Json.Field Symbol × Datum) :=
  [(needed "value" .expression, (Expression.field "😀" .long).toDatum),
    (needed "list" .expressions, .list [])]

/-- The entries of that object, in the order of the document. -/
def foreignMembers : List (Member Symbol) :=
  [⟨"list", .bare (quoted "list"), .bare (bytesOf "[ ]"),
      some (needed "list" .expressions, .list [])⟩,
    ⟨"note", ⟨[], quoted "note", bytesOf " ", isBlanks_nil, by decide⟩,
      .bare (bytesOf "[\x7b\x7d,-5e7]"), none⟩,
    ⟨"value", .bare (quoted "value"),
      .bare (bytesOf "\x7b\"FieldReference\":[\"\\ud83d\\uDE00\",\x7b\"Long\":null\x7d]\x7d"),
      some (needed "value" .expression, (Expression.field "😀" .long).toDatum)⟩]

theorem writes_foreignDocument :
    Writes grammar 5 (grammar .expression) foreignExpression.toDatum foreignDocument.core := by
  have hitems : ∀ p ∈ ([] : List (Datum × Padded)), Writes grammar 2 (grammar .expression) p.1
      p.2.core := List.forall_mem_nil _
  have hblanks : IsBlanks (bytesOf " ") := by decide
  have hlist := Writes.list hblanks hitems
  have hnames : (foreignFields.map (·.1.name)).Nodup := by decide
  have hfilled : (foreignMembers.filterMap (·.filled)).Perm foreignFields := .swap _ _ []
  have hobject : Writes grammar 4
      (.record "struct variant Expression::In" (foreignFields.map (·.1)))
      (.record (foreignFields.map entryOf))
      (ascii '\x7b' :: ([] ++ entries '\x7d' true (foreignMembers.map Member.text))) := by
    refine .members isBlanks_nil hnames hfilled ?_ ?_ ?_ ?_ ?_
    -- What is asked of each entry is trivial unless it is of the kind asked about.
    all_goals simp only [foreignMembers, List.forall_mem_cons, List.not_mem_nil, false_implies,
      implies_true, and_true, reduceCtorEq, Option.some.injEq, forall_eq', true_implies, true_and]
    · exact ⟨quotes_quoted _, quotes_quoted _, quotes_quoted _⟩
    · exact ⟨rfl, rfl⟩
    · exact ⟨hlist, writes_foreignField⟩
    · exact List.forall_mem_cons.mpr ⟨by decide, List.forall_mem_singleton.mpr (by decide)⟩
    · exact isValue_foreignNote
  exact writes_variant (v := made "In" .membership) rfl (Or.inr rfl) hobject

/-- That document is read as the expression it writes. -/
theorem readExpression_foreignDocument :
    readExpression foreignDocument.text = .ok foreignExpression :=
  readExpression_writes writes_foreignDocument (by decide)

end Document

end ScoringMarkup
