import ScoringMarkup.Proofs.Document.RoundTrip
import ScoringMarkup.Proofs.Json.Nesting

/-!
# Markup expressions read back

The document of a markup expression without doubles is read back as that expression while it keeps
to the limit of open containers, and is otherwise refused for it. How many containers it has open
is counted on the expression: an application adds three to the most of any argument.
-/

namespace ScoringMarkup

open Json

namespace Document

/-- The compact text of a datum is read as what the datum stands for while at most 127 of its
containers are open at once; otherwise the limit ends the reading. -/
theorem readAs_bytes {α : Type} {symbol : Symbol} {ofDatum? : Datum → Option α} {d : Datum} {a : α}
    (h : Follows grammar (grammar symbol) d) (ha : ofDatum? d = some a) :
    (mostOpen d.bytes ≤ 127 → readAs symbol ofDatum? d.bytes = .ok a) ∧
      (127 < mostOpen d.bytes →
        ∃ behind, readAs symbol ofDatum? d.bytes = stop .tooDeep behind) := by
  have hlimit : beyond containerLimit ⟨0, .outside⟩ d.bytes = none ↔ mostOpen d.bytes ≤ 127 :=
    beyond_eq_none_iff (Nat.zero_le _)
  rw [readAs, readDocument_bytes h]
  constructor
  · intro hmost
    rw [hlimit.mpr hmost]
    dsimp only
    rw [ha]
  · intro hmost
    cases hbeyond : beyond containerLimit ⟨0, .outside⟩ d.bytes with
    | none => exact absurd hmost (Nat.not_lt.mpr (hlimit.mp hbeyond))
    | some behind => exact ⟨behind, rfl⟩

end Document

open Document

namespace Element

mutual

/-- Whether no constant of an element holds a double. -/
def HasNoDouble : Element → Prop
  | .fieldRef _ => True
  | .apply _ arguments => HaveNoDouble arguments
  | .constant value _ => ∀ x, value ≠ .double x

/-- Whether no constant of several elements holds a double. -/
def HaveNoDouble : List Element → Prop
  | [] => True
  | e :: es => HasNoDouble e ∧ HaveNoDouble es

end

mutual

/-- The most containers that the document of an element has open at once. -/
def containers : Element → Nat
  | .fieldRef _ => 2
  | .constant .null _ => 2
  | .constant _ _ => 3
  | .apply _ arguments => 3 + mostContainers arguments

/-- The most containers that the document of any of several elements has open at once; none where
there is no element. -/
def mostContainers : List Element → Nat
  | [] => 0
  | e :: es => max (containers e) (mostContainers es)

end

mutual

/-- The datum of an element without doubles follows the grammar of elements. -/
theorem follows_toDatum : ∀ e : Element, e.HasNoDouble →
    Follows grammar (grammar .element) e.toDatum
  | .fieldRef field, _ => by
    have hrecord : Follows grammar (grammar .fieldRef) (.record [("field", .string field)]) := by
      refine follows_record [(needed "field" .string, .string field)] rfl ?_
      simp only [List.forall_mem_cons]
      exact ⟨.string field, List.forall_mem_nil _⟩
    rw [toDatum]
    exact follows_holding rfl hrecord
  | .apply function arguments, h => by
    have harguments := follows_toData arguments h
    have hrecord : Follows grammar (grammar .apply) (.record
        [("function", .string function), ("arguments", .list (toData arguments))]) := by
      refine follows_record [(needed "function" .string, .string function),
        (needed "arguments" .elements, .list (toData arguments))] rfl ?_
      simp only [List.forall_mem_cons]
      exact ⟨.string function, .list harguments, List.forall_mem_nil _⟩
    rw [toDatum]
    exact follows_holding rfl hrecord
  | .constant value type, h => by
    have htype : Follows grammar (grammar .scalarType) type.toDatum := by
      cases type <;> exact follows_bare rfl
    have hrecord : Follows grammar (grammar .constant) (.record
        [("value", value.toDatum), ("data_type", type.toDatum)]) := by
      refine follows_record [(needed "value" .value, value.toDatum),
        (needed "data_type" .scalarType, type.toDatum)] rfl ?_
      simp only [List.forall_mem_cons]
      exact ⟨follows_value h, htype, List.forall_mem_nil _⟩
    rw [toDatum]
    exact follows_holding rfl hrecord

/-- The data of elements without doubles follow the grammar of elements. -/
theorem follows_toData : ∀ es : List Element, HaveNoDouble es →
    ∀ d ∈ toData es, Follows grammar (grammar .element) d
  | [], _ => by
    rw [toData]
    exact List.forall_mem_nil _
  | e :: es, h => by
    rw [toData, List.forall_mem_cons]
    exact ⟨follows_toDatum e h.1, follows_toData es h.2⟩

end

mutual

/-- The containers of an element are those of its datum. -/
theorem nesting_toDatum : ∀ e : Element, e.HasNoDouble → e.toDatum.nesting = e.containers
  | .fieldRef _, _ => rfl
  | .apply _ arguments, h => by
    rw [containers, ← nesting_toData arguments h]
    simp only [toDatum, Datum.nesting, Datum.fieldsNesting]
    omega
  | .constant value _, h => by
    cases value with
    | null => rfl
    | double x => exact absurd rfl (h x)
    | boolean | integer | string => rfl

/-- The containers of several elements, in a list, are those of the deepest. -/
theorem nesting_toData : ∀ es : List Element, HaveNoDouble es →
    Datum.itemsNesting (toData es) = mostContainers es
  | [], _ => rfl
  | e :: es, h => by
    rw [toData, Datum.itemsNesting, nesting_toDatum e h.1, nesting_toData es h.2, mostContainers]

end

/-- The document of an element, without blanks. -/
def document (e : Element) : Bytes := bytesOf e.toDatum.compact

/-- The document of an element is the compact text of its datum. -/
theorem document_eq (e : Element) : e.document = e.toDatum.bytes := bytesOf_eq _

/-- A document opens as many containers at once as its element takes. -/
theorem mostOpen_document {e : Element} (h : e.HasNoDouble) :
    mostOpen e.document = e.containers := by
  rw [document_eq, mostOpen_bytes (follows_toDatum e h), nesting_toDatum e h]

/-- The document of an element without doubles has as many containers open at once as the shape of
the element says. While these are at most 127 it is read back as that element, and otherwise the
limit of open containers ends the reading. -/
theorem readAs_document {e : Element} (h : e.HasNoDouble) :
    mostOpen e.document = e.containers ∧
      (mostOpen e.document ≤ 127 → readAs .element ofDatum? e.document = .ok e) ∧
      (127 < mostOpen e.document → ∃ failure, readAs .element ofDatum? e.document = .error failure ∧
        failure.cause = .tooDeep ∧ failure.cause.message = "recursion limit exceeded") := by
  have hread := readAs_bytes (follows_toDatum e h) (ofDatum?_toDatum e)
  rw [← document_eq] at hread
  refine ⟨mostOpen_document h, hread.1, fun hmost => ?_⟩
  obtain ⟨behind, hfailure⟩ := hread.2 hmost
  exact ⟨⟨.tooDeep, behind, true⟩, hfailure, rfl, rfl⟩

/-- A field under a tower of applications. -/
def nestedField (field : String) : Nat → Element
  | 0 => .fieldRef field
  | n + 1 => .apply "not" [nestedField field n]

/-- An element of applications around a field holds no double. -/
theorem hasNoDouble_nestedField (field : String) (n : Nat) : (nestedField field n).HasNoDouble := by
  induction n with
  | zero => exact trivial
  | succ n ih => exact ⟨ih, trivial⟩

theorem containers_nestedField (field : String) (n : Nat) :
    (nestedField field n).containers = 3 * n + 2 := by
  induction n with
  | zero => rfl
  | succ n ih =>
    rw [nestedField, containers, mostContainers, mostContainers, ih]
    omega

/-- Under 41 applications a field is read back, even if its name has brackets and quotes, and under
42 it is refused. -/
theorem readAs_nestedField :
    readAs .element ofDatum? (nestedField "[\x7b\"" 41).document = .ok (nestedField "[\x7b\"" 41) ∧
      ∃ failure, readAs .element ofDatum? (nestedField "p" 42).document = .error failure ∧
        failure.cause.message = "recursion limit exceeded" := by
  have hshallow := readAs_document (hasNoDouble_nestedField "[\x7b\"" 41)
  have hdeep := readAs_document (hasNoDouble_nestedField "p" 42)
  rw [containers_nestedField] at hshallow hdeep
  obtain ⟨failure, hread, -, hmessage⟩ := hdeep.2.2 (by rw [hdeep.1]; decide)
  exact ⟨hshallow.2.1 (by rw [hshallow.1]; decide), failure, hread, hmessage⟩

end Element

end ScoringMarkup
