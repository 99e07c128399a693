import ScoringMarkup.Proofs.Document.RoundTrip
import ScoringMarkup.Proofs.Json.Doubles

/-!
# Doubles read back

A literal of a finite double is read back as one of a double near it: every digit is written, but
the reader rounds the digits and the power of ten on its way.
-/

namespace ScoringMarkup

namespace Document

open Json

variable {reader : Symbol → Bytes → Except Failure (Datum × Bytes)} {rest : Bytes}

/-- A variant is read as what its payload is read as. -/
theorem readRule_variant {variants : List (Variant Symbol)} {v : Variant Symbol} {symbol : Symbol}
    {d d' : Datum} (hfind : variants.find? (fun w => w.name == v.name) = some v)
    (hpayload : v.payload = .value symbol ∨ v.payload = .fields symbol)
    (h : ∀ rest, EndsValue rest → reader symbol (d.bytes ++ rest) = .ok (d', rest)) :
    readRule (some reader) (.choice variants) ((Datum.variant v.name d).bytes ++ rest) =
      .ok (.variant v.name d', rest) := by
  have hread := h (ascii '\x7d' :: rest) (Or.inr (Or.inr rfl))
  rw [Datum.bytes_variant, List.cons_append, readRule, skipBlanks_of_not_isBlank rfl]
  dsimp only
  rw [if_neg (by decide), if_pos rfl, entering, entries, entries, separator, if_pos rfl,
    List.nil_append, List.append_assoc, List.singleton_append,
    readVariantObject_field hfind hpayload, hread]
  rfl

/-- The entries of a literal are found one by one. -/
theorem readEntries_literal {value value' type type' : Datum}
    (hvalue : ∀ rest, EndsValue rest → reader .value (value.bytes ++ rest) = .ok (value', rest))
    (htype : ∀ rest, EndsValue rest →
      reader .sourceType (type.bytes ++ rest) = .ok (type', rest)) (bound : Nat) :
    readEntries reader [needed "value" .value, needed "data_type" .sourceType] (bound + 3) true []
        (entries '\x7d' true
          [Datum.fieldBytes ("value", value), Datum.fieldBytes ("data_type", type)] ++ rest) =
      .ok ([("data_type", type'), ("value", value')], rest) := by
  have hfirst := hvalue _
    (endsValue_entries (Or.inr rfl) [Datum.fieldBytes ("data_type", type)] rest)
  have hsecond := htype _ (endsValue_entries (Or.inr rfl) [] rest)
  have hnamed : [needed "value" .value, needed "data_type" .sourceType].find?
      (fun f => f.name == "value") = some (needed "value" .value) := rfl
  have htyped : [needed "value" .value, needed "data_type" .sourceType].find?
      (fun f => f.name == "data_type") = some (needed "data_type" .sourceType) := rfl
  have hnew : [("value", value')].lookup "data_type" = none := rfl
  rw [entries, List.append_assoc, List.append_assoc, readEntries_step hnamed rfl]
  refine (congrArg (Except.bind · _) hfirst).trans ?_
  dsimp only [Except.bind]
  rw [entries, List.append_assoc, List.append_assoc, readEntries_step htyped hnew]
  exact (congrArg (Except.bind · _) hsecond).trans rfl

/-- The record of a literal is read as what its value and its type are read as. -/
theorem readRule_literal {value value' type type' : Datum}
    (hvalue : ∀ rest, EndsValue rest → reader .value (value.bytes ++ rest) = .ok (value', rest))
    (htype : ∀ rest, EndsValue rest →
      reader .sourceType (type.bytes ++ rest) = .ok (type', rest)) :
    readRule (some reader) (grammar .literal)
        ((Datum.record [("value", value), ("data_type", type)]).bytes ++ rest) =
      .ok (.record [("value", value'), ("data_type", type')], rest) := by
  rw [Datum.bytes_record, List.cons_append, grammar, readRule, skipBlanks_of_not_isBlank rfl]
  dsimp only
  rw [if_neg (by decide), if_pos rfl, entering, List.map_cons, List.map_singleton]
  have hlength : 3 ≤ (entries '\x7d' true
      [Datum.fieldBytes ("value", value), Datum.fieldBytes ("data_type", type)] ++
        rest).length := by
    simp only [entries, Datum.fieldBytes, List.length_append, List.length_cons, List.length_nil]
    omega
  obtain ⟨bound, hbound⟩ := Nat.exists_eq_add_of_le' hlength
  rw [hbound, readEntries_literal hvalue htype]
  rfl

/-- The document of a literal of a double up to its type. -/
def literalHead (x : Double) : Bytes :=
  ascii '\x7b' :: (quoted "Literal" ++ ascii ':' :: ascii '\x7b' :: (quoted "value" ++
    ascii ':' :: ascii '\x7b' :: (quoted "Double" ++ ascii ':' :: ((Datum.double x).bytes ++
      ascii '\x7d' :: ascii ',' :: (quoted "data_type" ++ [ascii ':'])))))

theorem documentOf_literal (x : Double) (type : SourceType) :
    documentOf (.literal (.double x) type) =
      literalHead x ++ (type.toDatum.bytes ++ [ascii '\x7d', ascii '\x7d']) := by
  rw [documentOf, bytesOf_eq, Expression.toDatum, ← Datum.bytes, Datum.bytes_variant, literalHead,
    Value.toDatum]
  simp only [entries, separator, Datum.fieldBytes, Datum.bytes_record, Datum.bytes_variant,
    List.map_cons, List.map_nil]
  simp

variable {x : Double}

/-- Two containers are open where the type begins. -/
theorem run_literalHead (hx : x.isFinite = true) :
    Scan.run ⟨0, .outside⟩ (literalHead x) = ⟨2, .outside⟩ := by
  have hopening (o : Nat) : Scan.step ⟨o, .outside⟩ (ascii '\x7b') = ⟨o + 1, .outside⟩ := rfl
  have hclosing (o : Nat) : Scan.step ⟨o, .outside⟩ (ascii '\x7d') = ⟨o - 1, .outside⟩ := rfl
  have hcolon (o : Nat) : Scan.step ⟨o, .outside⟩ (ascii ':') = ⟨o, .outside⟩ := rfl
  have hcomma (o : Nat) : Scan.step ⟨o, .outside⟩ (ascii ',') = ⟨o, .outside⟩ := rfl
  simp only [literalHead, Scan.run_cons, Scan.run_append, Scan.run_nil,
    (LeadsTo.quoted _).run_eq, (Double.leadsTo_double hx).run_eq, hopening, hclosing, hcolon,
    hcomma]

/-- If the limit holds for the document, it holds for the type behind the two containers. -/
theorem beyond_type (hx : x.isFinite = true) {type : SourceType}
    (h : mostOpen (documentOf (.literal (.double x) type)) ≤ containerLimit) :
    beyond containerLimit ⟨2, .outside⟩ type.toDatum.bytes = none := by
  have hnone := (beyond_eq_none_iff (s := ⟨0, .outside⟩) (Nat.zero_le _)).2 h
  rw [documentOf_literal, beyond_append, Option.or_eq_none_iff, run_literalHead hx, beyond_append,
    Option.or_eq_none_iff, Option.map_eq_none_iff, Option.map_eq_none_iff] at hnone
  exact hnone.2.1

/-- The datum of a literal of a finite double is read as that of a double near it. -/
theorem readDocument_literal {y : Double} (hx : x.isFinite = true)
    (hread : ∀ rest, EndsValue rest →
      readDouble ((Datum.double x).bytes ++ rest) = .ok (.double y, rest)) {type : SourceType}
    (h : mostOpen (documentOf (.literal (.double x) type)) ≤ containerLimit) :
    readDocument grammar .expression (documentOf (.literal (.double x) type)) =
      .ok (Expression.literal (.double y) type).toDatum := by
  have htype (rest : Bytes) (hrest : EndsValue rest) :
      read grammar 125 .sourceType (type.toDatum.bytes ++ rest) = .ok (type.toDatum, rest) := by
    have hback := readRule_bytes (follows_sourceType type) 2 125 rest hrest
    rw [← read_eq] at hback
    have hwithin : beyond (2 + 125) ⟨2, .outside⟩ type.toDatum.bytes = none := beyond_type hx h
    rw [hback, verdict, hwithin]
  have hvalue (rest : Bytes) (hrest : EndsValue rest) :
      read grammar 125 .value ((Value.double x).toDatum.bytes ++ rest) =
        .ok ((Value.double y).toDatum, rest) :=
    readRule_variant (v := holding "Double" .double) rfl (Or.inl rfl) hread
  have hliteral (rest : Bytes) (hrest : EndsValue rest) :
      read grammar 126 .literal
          ((Datum.record [("value", (Value.double x).toDatum),
            ("data_type", type.toDatum)]).bytes ++ rest) =
        .ok (.record [("value", (Value.double y).toDatum), ("data_type", type.toDatum)], rest) :=
    readRule_literal hvalue htype
  have hexpression : read grammar containerLimit .expression
      ((Expression.literal (.double x) type).toDatum.bytes ++ []) =
        .ok ((Expression.literal (.double y) type).toDatum, []) :=
    readRule_variant (v := made "Literal" .literal) rfl (Or.inr rfl) hliteral
  rw [List.append_nil] at hexpression
  have hdocument : documentOf (.literal (.double x) type) =
      (Expression.literal (.double x) type).toDatum.bytes := bytesOf_eq _
  rw [readDocument, hdocument, hexpression]
  rfl

/-- A literal of a finite double is read as that of the scaled number of its decimal, with its
sign. -/
theorem readExpression_of_ofScaled? (hx : x.isFinite = true) {y : Double}
    (hy : Double.ofScaled? x.documentDecimal.coefficient x.documentDecimal.exponent = some y)
    {type : SourceType} (h : mostOpen (documentOf (.literal (.double x) type)) ≤ containerLimit) :
    readExpression (documentOf (.literal (.double x) type)) =
      .ok (.literal (.double (if x.isNegative then y.negate else y)) type) := by
  have hread := readDocument_literal hx (fun _ => Double.readDouble_bytes hx hy) h
  rw [readExpression, readAs, hread]
  dsimp only
  rw [Expression.ofDatum?_toDatum]
  rfl

/-- A literal of a finite double is read back within the limit of open containers, as that of a
finite double of the same sign that lies no further away than there are roundings. There are three
of them at most, and without any the same double is read back. -/
theorem readExpression_literal_double (hx : x.isFinite = true) {type : SourceType}
    (h : mostOpen (documentOf (.literal (.double x) type)) ≤ 127) :
    ∃ y : Double, readExpression (documentOf (.literal (.double x) type)) =
        .ok (.literal (.double y) type) ∧
      y.isFinite = true ∧ y.isNegative = x.isNegative ∧
      y.field ≤ x.field + x.documentRoundings ∧ x.field ≤ y.field + x.documentRoundings ∧
      x.documentRoundings ≤ 3 ∧ (x.documentRoundings = 0 → y = x) := by
  obtain ⟨y, hy, hfinite, hnear⟩ := Double.exists_ofScaled?_documentDecimal hx
  have hreads := Double.ReadsAs.of_isNear hfinite hnear
  exact ⟨_, readExpression_of_ofScaled? hx hy h, hreads.isFinite, hreads.isNegative_eq, hreads.le,
    hreads.ge, Double.roundings_le _ _, hreads.eq⟩

/-- A tenth is read back. -/
theorem readExpression_tenth :
    mostOpen (documentOf (.literal (.double ⟨0x3fb999999999999a⟩) .double)) ≤ 127 ∧
    Double.documentRoundings ⟨0x3fb999999999999a⟩ = 0 ∧
    readExpression (documentOf (.literal (.double ⟨0x3fb999999999999a⟩) .double)) =
      .ok (.literal (.double ⟨0x3fb999999999999a⟩) .double) := by
  have hopen : mostOpen (documentOf (.literal (.double ⟨0x3fb999999999999a⟩) .double)) ≤ 127 := by
    decide +kernel
  have hnone : Double.documentRoundings ⟨0x3fb999999999999a⟩ = 0 := by decide +kernel
  obtain ⟨y, hread, -, -, -, -, -, heq⟩ :=
    readExpression_literal_double (x := ⟨0x3fb999999999999a⟩) (by decide) hopen
  rw [heq hnone] at hread
  exact ⟨hopen, hnone, hread⟩

/-- The last whole number of 53 bits is read as the one below it: with the zero behind the point its
digits have 57 bits, and lose the last one. -/
theorem readExpression_lastWhole :
    (Double.mk 0x433fffffffffffff).isFinite = true ∧
    documentOf (.literal (.double ⟨0x433fffffffffffff⟩) .double) =
      bytesOf ("\x7b\"Literal\":\x7b\"value\":\x7b\"Double\":9007199254740991.0\x7d," ++
        "\"data_type\":\"Double\"\x7d\x7d") ∧
    readExpression (documentOf (.literal (.double ⟨0x433fffffffffffff⟩) .double)) =
      .ok (.literal (.double ⟨0x433ffffffffffffe⟩) .double) := by
  have hscaled : Double.ofScaled? (Double.mk 0x433fffffffffffff).documentDecimal.coefficient
      (Double.mk 0x433fffffffffffff).documentDecimal.exponent = some ⟨0x433ffffffffffffe⟩ := by
    decide +kernel
  refine ⟨by decide, by decide +kernel, ?_⟩
  exact readExpression_of_ofScaled? (by decide) hscaled (by decide +kernel)

end Document

end ScoringMarkup
