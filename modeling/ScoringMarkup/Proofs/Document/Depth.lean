import ScoringMarkup.Document.Reading
import ScoringMarkup.Proofs.Conversion.Inspection
import ScoringMarkup.Proofs.Document.RoundTrip
import ScoringMarkup.Proofs.Json.Conformance

/-!
# Expressions of documents

Every datum that the grammar lets through stands for something, and an expression takes at least
one container more to write than it has levels. So what is read within the limit of open
containers lies within every depth limit from there on, and is converted as without one.
-/

namespace ScoringMarkup

namespace Document

open Json

variable {n : Nat} {d : Datum}

/-- No record of the grammar names a field twice. -/
theorem hasDistinctFields : HasDistinctFields grammar := fun _ _ _ => nodup_names

/-- Fields that have to be there have been read, under their names. -/
theorem exists_needed {within : Symbol → Datum → Prop} {name : String} {symbol : Symbol}
    {fields : List (Json.Field Symbol)} {values : List (String × Datum)}
    (h : List.Forall₂ (FillsField within) (needed name symbol :: fields) values) :
    ∃ held others, values = (name, held) :: others ∧ within symbol held ∧
      List.Forall₂ (FillsField within) fields others := by
  obtain ⟨⟨name', held⟩, others, hfills, hothers, rfl⟩ := List.forall₂_cons_left_iff.mp h
  obtain rfl : name' = name := hfills.name_eq
  exact ⟨held, others, rfl, hfills.value.resolve_right nofun, hothers⟩

/-- A record of two fields that have to be there. -/
theorem exists_pair {symbol s t : Symbol} {title a b : String}
    (h : FitsWithin grammar n symbol d)
    (hrule : grammar symbol = .record title [needed a s, needed b t]) :
    ∃ k x y, n = k + 1 ∧ d = .record [(a, x), (b, y)] ∧
      FitsWithin grammar k s x ∧ FitsWithin grammar k t y := by
  obtain ⟨k, values, rfl, rfl, hvalues⟩ := h.record hrule
  obtain ⟨x, _, rfl, hx, hvalues⟩ := exists_needed hvalues
  obtain ⟨y, _, rfl, hy, hvalues⟩ := exists_needed hvalues
  cases hvalues
  exact ⟨k, x, y, rfl, rfl, hx, hy⟩

/-- A record of three fields that have to be there. -/
theorem exists_triple {symbol s t u : Symbol} {title a b c : String}
    (h : FitsWithin grammar n symbol d)
    (hrule : grammar symbol = .record title [needed a s, needed b t, needed c u]) :
    ∃ k x y z, n = k + 1 ∧ d = .record [(a, x), (b, y), (c, z)] ∧
      FitsWithin grammar k s x ∧ FitsWithin grammar k t y ∧ FitsWithin grammar k u z := by
  obtain ⟨k, values, rfl, rfl, hvalues⟩ := h.record hrule
  obtain ⟨x, _, rfl, hx, hvalues⟩ := exists_needed hvalues
  obtain ⟨y, _, rfl, hy, hvalues⟩ := exists_needed hvalues
  obtain ⟨z, _, rfl, hz, hvalues⟩ := exists_needed hvalues
  cases hvalues
  exact ⟨k, x, y, z, rfl, rfl, hx, hy, hz⟩

/-! ## Types and values -/

/-- A datum of an operator stands for one. -/
theorem exists_operator (h : FitsWithin grammar n .operator d) :
    ∃ op, BinaryOperator.ofDatum? d = some op := by
  obtain ⟨v, hv, h⟩ := h.choice rfl
  obtain ⟨op, -, rfl⟩ := List.mem_map.mp hv
  obtain rfl : d = .unit op.nodeName := h
  exact ⟨op, op.ofDatum?_toDatum⟩

/-- A datum of a null check stands for one. -/
theorem exists_nullCheck (h : FitsWithin grammar n .nullCheck d) :
    ∃ check, NullCheck.ofDatum? d = some check := by
  obtain ⟨v, hv, h⟩ := h.choice rfl
  obtain ⟨check, -, rfl⟩ := List.mem_map.mp hv
  obtain rfl : d = .unit check.nodeName := h
  exact ⟨check, check.ofDatum?_toDatum⟩

/-- A datum of a value stands for one, variant by variant. -/
theorem exists_value (h : FitsWithin grammar n .value d) :
    ∃ value, Value.ofDatum? d = some value := by
  obtain ⟨v, hv, hd⟩ := h.choice rfl
  revert v
  simp only [List.forall_mem_cons]
  refine ⟨?null, ?boolean, ?integer, ?double, ?string, List.forall_mem_nil _⟩
  case null =>
    rintro rfl
    exact ⟨.null, rfl⟩
  case boolean =>
    rintro ⟨k, held, -, rfl, hheld⟩
    obtain ⟨b, rfl⟩ := hheld.boolean rfl
    exact ⟨.boolean b, rfl⟩
  case integer =>
    rintro ⟨k, held, -, rfl, hheld⟩
    obtain ⟨i, rfl, -⟩ := hheld.integer rfl
    exact ⟨.integer (Int64.ofInt i), rfl⟩
  case double =>
    rintro ⟨k, held, -, rfl, hheld⟩
    obtain ⟨x, rfl⟩ := hheld.double rfl
    exact ⟨.double x, rfl⟩
  case string =>
    rintro ⟨k, held, -, rfl, hheld⟩
    obtain ⟨s, rfl⟩ := hheld.string rfl
    exact ⟨.string s, rfl⟩

/-- Data of fields stand for the fields of a struct type where their types stand for types. -/
theorem exists_structFields {items : List Datum}
    (htype : ∀ k < n, ∀ d, FitsWithin grammar k .sourceType d →
      ∃ type, SourceType.ofDatum? d = some type)
    (h : ∀ d ∈ items, FitsWithin grammar n .structField d) :
    ∃ fields, SourceType.ofFieldData? items = some fields := by
  induction items with
  | nil => exact ⟨[], rfl⟩
  | cons d items ih =>
    obtain ⟨hd, hitems⟩ := List.forall_mem_cons.mp h
    obtain ⟨fields, hfields⟩ := ih hitems
    obtain ⟨k, x, y, z, rfl, rfl, hx, hy, hz⟩ := exists_triple hd rfl
    obtain ⟨name, rfl⟩ := hx.string rfl
    obtain ⟨type, htype⟩ := htype k (Nat.lt_succ_self k) y hy
    obtain ⟨nullable, rfl⟩ := hz.boolean rfl
    exact ⟨⟨name, type, nullable⟩ :: fields, by simp [SourceType.ofFieldData?, htype, hfields]⟩

/-- A datum of a type stands for one: bare variants at once, nested types by induction on the
containers around them. -/
theorem exists_sourceType (h : FitsWithin grammar n .sourceType d) :
    ∃ type, SourceType.ofDatum? d = some type := by
  -- A nested type stands in an object and the fields of one, so the induction takes any number
  -- less.
  induction n using Nat.strong_induction_on generalizing d with
  | h n ih =>
    have hbare {name : String} {type : SourceType}
        (htype : SourceType.ofDatum? (.unit name) = some type) :
        FitsVariant grammar n (bare name) d → ∃ type, SourceType.ofDatum? d = some type := by
      rintro rfl
      exact ⟨type, htype⟩
    obtain ⟨v, hv, hd⟩ := h.choice rfl
    revert v
    simp only [List.forall_mem_cons]
    refine ⟨hbare rfl, hbare rfl, hbare rfl, hbare rfl, hbare rfl, hbare rfl, hbare rfl, hbare rfl,
      ?decimal, hbare rfl, hbare rfl, hbare rfl, hbare rfl, ?array, ?struct,
      List.forall_mem_nil _⟩
    case decimal =>
      rintro ⟨k, held, -, rfl, hheld⟩
      obtain ⟨k, x, y, -, rfl, hx, hy⟩ := exists_pair hheld rfl
      obtain ⟨precision, rfl, -⟩ := hx.integer rfl
      obtain ⟨scale, rfl, -⟩ := hy.integer rfl
      exact ⟨_, rfl⟩
    case array =>
      rintro ⟨k, held, rfl, rfl, hheld⟩
      obtain ⟨k, x, y, rfl, rfl, hx, hy⟩ := exists_pair hheld rfl
      obtain ⟨element, helement⟩ := ih k (by omega) hx
      obtain ⟨containsNull, rfl⟩ := hy.boolean rfl
      exact ⟨.array element containsNull, by simp [SourceType.ofDatum?, made, helement]⟩
    case struct =>
      rintro ⟨k, held, rfl, rfl, hheld⟩
      obtain ⟨k, items, rfl, rfl, hitems⟩ := hheld.list rfl
      obtain ⟨fields, hfields⟩ := exists_structFields (fun j hj d => ih j (by omega)) hitems
      exact ⟨.struct fields, by simp [SourceType.ofDatum?, holding, hfields]⟩

/-! ## Expressions -/

/-- Data of expressions stand for a list of them where each datum stands for one. -/
theorem exists_expressions {items : List Datum} {P : Expression → Prop}
    (h : ∀ d ∈ items, ∃ e, Expression.ofDatum? d = some e ∧ P e) :
    ∃ es, Expression.ofData? items = some es ∧ ∀ e ∈ es, P e := by
  induction items with
  | nil => exact ⟨[], rfl, List.forall_mem_nil _⟩
  | cons d items ih =>
    obtain ⟨⟨e, he, hP⟩, hitems⟩ := List.forall_mem_cons.mp h
    obtain ⟨es, hes, hall⟩ := ih hitems
    exact ⟨e :: es, by simp [Expression.ofData?, he, hes], List.forall_mem_cons.mpr ⟨hP, hall⟩⟩

/-- A tree whose children have fewer levels than containers, with one container to spare, has
fewer levels than containers. -/
theorem height_lt_of_children {e : Expression} (hn : 1 < n)
    (h : ∀ c ∈ e.children, c.height + 1 < n) : e.height < n := by
  have hle := Expression.height_le_succ (n := n - 2) fun c hc => by
    have hc := h c hc
    omega
  omega

/-- An only child that has fewer levels than containers, with one container to spare, leaves its
parent with fewer levels than containers. -/
theorem height_lt_of_child {e child : Expression} (hchildren : e.children = [child])
    (h : child.height + 1 < n) : e.height < n := by
  refine height_lt_of_children (by omega) ?_
  rwa [hchildren, List.forall_mem_singleton]

/-- Whether a datum stands for an expression that has fewer levels than containers. -/
def StandsBelow (n : Nat) (d : Datum) : Prop := ∃ e, Expression.ofDatum? d = some e ∧ e.height < n

namespace StandsBelow

/-- A field reference stands for a leaf; its record takes the container that a leaf needs. -/
theorem field (h : FitsVariant grammar n (made "FieldReference" .field) d) : StandsBelow n d := by
  obtain ⟨k, held, rfl, rfl, hheld⟩ := h
  obtain ⟨k, x, y, rfl, rfl, hx, hy⟩ := exists_pair hheld rfl
  obtain ⟨name, rfl⟩ := hx.string rfl
  obtain ⟨type, htype⟩ := exists_sourceType hy
  exact ⟨.field name type, by simp [Expression.ofDatum?, made, htype],
    height_lt_of_children (by omega) (List.forall_mem_nil _)⟩

/-- A literal stands for a leaf, like a field reference. -/
theorem literal (h : FitsVariant grammar n (made "Literal" .literal) d) : StandsBelow n d := by
  obtain ⟨k, held, rfl, rfl, hheld⟩ := h
  obtain ⟨k, x, y, rfl, rfl, hx, hy⟩ := exists_pair hheld rfl
  obtain ⟨value, hvalue⟩ := exists_value hx
  obtain ⟨type, htype⟩ := exists_sourceType hy
  exact ⟨.literal value type, by simp [Expression.ofDatum?, made, hvalue, htype],
    height_lt_of_children (by omega) (List.forall_mem_nil _)⟩

section Children

variable (ih : ∀ k < n, ∀ d, FitsWithin grammar k .expression d → StandsBelow k d)
include ih

/-- The record of an alias stands in the variant, so its child has two containers less. -/
theorem named (h : FitsVariant grammar n (made "Alias" .alias) d) : StandsBelow n d := by
  obtain ⟨k, held, rfl, rfl, hheld⟩ := h
  obtain ⟨k, x, y, rfl, rfl, hx, hy⟩ := exists_pair hheld rfl
  obtain ⟨child, hchild, hheight⟩ := ih k (by omega) _ hx
  obtain ⟨name, rfl⟩ := hy.string rfl
  exact ⟨.alias child name, by simp [Expression.ofDatum?, made, hchild],
    height_lt_of_child rfl (by omega)⟩

/-- Both operands stand two containers further in than the operation. -/
theorem binary (h : FitsVariant grammar n (made "BinaryOp" .binary) d) : StandsBelow n d := by
  obtain ⟨k, held, rfl, rfl, hheld⟩ := h
  obtain ⟨k, x, y, z, rfl, rfl, hx, hy, hz⟩ := exists_triple hheld rfl
  obtain ⟨op, hop⟩ := exists_operator hx
  obtain ⟨left, hleft, hlheight⟩ := ih k (by omega) _ hy
  obtain ⟨right, hright, hrheight⟩ := ih k (by omega) _ hz
  refine ⟨.binary op left right, by simp [Expression.ofDatum?, made, hop, hleft, hright],
    height_lt_of_children (by omega) ?_⟩
  simp only [Expression.children, List.forall_mem_cons]
  exact ⟨by omega, by omega, List.forall_mem_nil _⟩

/-- The predicate and both branches stand two containers further in. -/
theorem conditional (h : FitsVariant grammar n (made "If" .conditional) d) : StandsBelow n d := by
  obtain ⟨k, held, rfl, rfl, hheld⟩ := h
  obtain ⟨k, x, y, z, rfl, rfl, hx, hy, hz⟩ := exists_triple hheld rfl
  obtain ⟨predicate, hpredicate, hpheight⟩ := ih k (by omega) _ hx
  obtain ⟨whenTrue, htrue, htheight⟩ := ih k (by omega) _ hy
  obtain ⟨whenFalse, hfalse, hfheight⟩ := ih k (by omega) _ hz
  refine ⟨.conditional predicate whenTrue whenFalse,
    by simp [Expression.ofDatum?, made, hpredicate, htrue, hfalse],
    height_lt_of_children (by omega) ?_⟩
  simp only [Expression.children, List.forall_mem_cons]
  exact ⟨by omega, by omega, by omega, List.forall_mem_nil _⟩

/-- The value stands two containers further in, and the list one more than that. -/
theorem membership (h : FitsVariant grammar n (made "In" .membership) d) : StandsBelow n d := by
  obtain ⟨k, held, rfl, rfl, hheld⟩ := h
  obtain ⟨k, x, y, rfl, rfl, hx, hy⟩ := exists_pair hheld rfl
  obtain ⟨value, hvalue, hvheight⟩ := ih k (by omega) _ hx
  obtain ⟨j, items, rfl, rfl, hitems⟩ := hy.list rfl
  obtain ⟨list, hlist, hlheight⟩ := exists_expressions fun d hd => ih j (by omega) d (hitems d hd)
  refine ⟨.membership value list, by simp [Expression.ofDatum?, made, hvalue, hlist],
    height_lt_of_children (by omega) (List.forall_mem_cons.mpr ⟨by omega, fun c hc => ?_⟩)⟩
  have hc := hlheight c hc
  omega

/-- The child of a negation stands in the variant itself, one container further in: the least that
a level takes. -/
theorem negation (h : FitsVariant grammar n (holding "Not" .expression) d) : StandsBelow n d := by
  obtain ⟨k, held, rfl, rfl, hheld⟩ := h
  obtain ⟨child, hchild, hheight⟩ := ih k (by omega) _ hheld
  exact ⟨.negation child, by simp [Expression.ofDatum?, holding, hchild],
    height_lt_of_child rfl (by omega)⟩

/-- The child of a null check stands two containers further in. -/
theorem nullCheck (h : FitsVariant grammar n (made "NullCheck" .nullTest) d) : StandsBelow n d := by
  obtain ⟨k, held, rfl, rfl, hheld⟩ := h
  obtain ⟨k, x, y, rfl, rfl, hx, hy⟩ := exists_pair hheld rfl
  obtain ⟨check, hcheck⟩ := exists_nullCheck hx
  obtain ⟨child, hchild, hheight⟩ := ih k (by omega) _ hy
  exact ⟨.nullCheck check child, by simp [Expression.ofDatum?, made, hcheck, hchild],
    height_lt_of_child rfl (by omega)⟩

/-- The child of a cast stands two containers further in, beside the type. -/
theorem cast (h : FitsVariant grammar n (made "Cast" .cast) d) : StandsBelow n d := by
  obtain ⟨k, held, rfl, rfl, hheld⟩ := h
  obtain ⟨k, x, y, rfl, rfl, hx, hy⟩ := exists_pair hheld rfl
  obtain ⟨child, hchild, hheight⟩ := ih k (by omega) _ hx
  obtain ⟨type, htype⟩ := exists_sourceType hy
  exact ⟨.cast child type, by simp [Expression.ofDatum?, made, hchild, htype],
    height_lt_of_child rfl (by omega)⟩

/-- The child of a minus stands in the variant itself, like that of a negation. -/
theorem minus (h : FitsVariant grammar n (holding "UnaryMinus" .expression) d) :
    StandsBelow n d := by
  obtain ⟨k, held, rfl, rfl, hheld⟩ := h
  obtain ⟨child, hchild, hheight⟩ := ih k (by omega) _ hheld
  exact ⟨.minus child, by simp [Expression.ofDatum?, holding, hchild],
    height_lt_of_child rfl (by omega)⟩

/-- The arguments stand three containers further in, in a list of the record. -/
theorem call (h : FitsVariant grammar n (made "ScalarFunction" .call) d) : StandsBelow n d := by
  obtain ⟨k, held, rfl, rfl, hheld⟩ := h
  obtain ⟨k, x, y, z, rfl, rfl, hx, hy, hz⟩ := exists_triple hheld rfl
  obtain ⟨name, rfl⟩ := hx.string rfl
  obtain ⟨j, items, rfl, rfl, hitems⟩ := hy.list rfl
  obtain ⟨list, hlist, hlheight⟩ := exists_expressions fun d hd => ih j (by omega) d (hitems d hd)
  obtain ⟨type, htype⟩ := exists_sourceType hz
  refine ⟨.call name list type, by simp [Expression.ofDatum?, made, hlist, htype],
    height_lt_of_children (by omega) fun c hc => ?_⟩
  have hc := hlheight c hc
  omega

end Children

end StandsBelow

/-- A datum of an expression stands for one that has fewer levels than containers. -/
theorem exists_expression (h : FitsWithin grammar n .expression d) : StandsBelow n d := by
  induction n using Nat.strong_induction_on generalizing d with
  | h n ih =>
    obtain ⟨v, hv, hd⟩ := h.choice rfl
    revert v
    simp only [List.forall_mem_cons]
    exact ⟨.named ih, .field, .binary ih, .conditional ih, .membership ih, .literal, .negation ih,
      .nullCheck ih, .cast ih, .minus ih, .call ih, List.forall_mem_nil _⟩

/-- An accepted document holds a datum that stands for the expression read. -/
theorem readExpression_eq_ok {document : Bytes} {e : Expression}
    (h : readExpression document = .ok e) :
    ∃ d, readDocument grammar .expression document = .ok d ∧ Expression.ofDatum? d = some e := by
  unfold readExpression readAs at h
  cases hd : readDocument grammar .expression document with
  | error failure =>
    rw [hd] at h
    cases h
  | ok d =>
    rw [hd] at h
    cases he : Expression.ofDatum? d with
    | none =>
      simp only [he] at h
      cases h
    | some e' =>
      simp only [he] at h
      cases h
      exact ⟨d, rfl, he⟩

/-- Of the 127 containers that may be open, a leaf takes two and each level above it takes one at
least. -/
theorem height_of_readExpression {document : Bytes} {e : Expression}
    (h : readExpression document = .ok e) : e.height ≤ 126 := by
  obtain ⟨d, hd, he⟩ := readExpression_eq_ok h
  have hfits := readDocument_meets hasDistinctFields .expression document
  rw [hd] at hfits
  obtain ⟨e', he', hheight⟩ := exists_expression hfits
  cases he.symm.trans he'
  exact Nat.le_of_lt_succ hheight

/-- Within the limit, a tree is not refused for its depth. -/
theorem convert_withMaxDepth_of_height_le {e : Expression} {limit : Nat} (h : e.height ≤ limit) :
    Conversion.convert (.withMaxDepth limit) e = Conversion.convert .unbounded e ∧
      ∀ limit',
        (Conversion.convert (.withMaxDepth limit) e).outcome ≠ .error (.tooDeep limit') := by
  have hconvert := Conversion.convert_of_admits (Conversion.admits_withMaxDepth h)
  exact ⟨hconvert, fun limit' => hconvert ▸ Conversion.outcome_convertTree_ne_tooDeep e limit'⟩

/-- However a document is spelled, an expression that is read has at most 126 levels. So no limit
of 126 levels or more makes a difference to its conversion, which is never refused for depth. -/
theorem depth_of_readExpression {document : Bytes} {e : Expression}
    (h : readExpression document = .ok e) :
    e.depth ≤ 126 ∧ ∀ maxDepth, 126 ≤ maxDepth →
      Conversion.convert (.withMaxDepth maxDepth) e = Conversion.convert .unbounded e ∧
      ∀ limit,
        (Conversion.convert (.withMaxDepth maxDepth) e).outcome ≠ .error (.tooDeep limit) := by
  have hheight := height_of_readExpression h
  refine ⟨e.depth_eq_height ▸ hheight, fun maxDepth hmax => ?_⟩
  exact convert_withMaxDepth_of_height_le (hheight.trans hmax)

/-- A negation spelled with blanks, with elements in place of named fields, and with a skipped key
whose value opens more containers than all that is kept. -/
def spelledNegation : Bytes :=
  bytesOf (" \x7b \"Not\" : \x7b\"Alias\": \x7b\"skipped\": [[[[[[0]]]]]], \"name\": \"y\",\n" ++
    "\"child\" : \x7b\"FieldReference\" :[\"x\", \"Boolean\"]\x7d\x7d\x7d\x7d ")

/-- The skipped key costs no level: the negation is read and converted as without a limit. -/
theorem depth_of_spelledNegation :
    readExpression spelledNegation =
      .ok (.negation (.alias (.field "x" .boolean) "y")) ∧
    Conversion.convert .standard (.negation (.alias (.field "x" .boolean) "y")) =
      Conversion.convert .unbounded (.negation (.alias (.field "x" .boolean) "y")) := by
  have h : readExpression spelledNegation =
      .ok (.negation (.alias (.field "x" .boolean) "y")) := by rfl
  obtain ⟨-, hconvert⟩ := depth_of_readExpression h
  exact ⟨h, (hconvert 256 (by decide)).1⟩

end Document

end ScoringMarkup
