import Mathlib.Data.List.Infix
import Mathlib.Data.List.TakeWhile
import ScoringMarkup.Document.Reading
import ScoringMarkup.Proofs.Expression.Walks
import ScoringMarkup.Proofs.Json.RoundTrip

/-!
# Expressions read back

The document of an expression without doubles follows the grammar of expressions, whatever its
types and its other values. So it is read back as that expression while it keeps to the limit of
open containers, and is otherwise refused at the bracket that goes beyond it.
-/

namespace ScoringMarkup

namespace Document

open Json

/-- No record of the grammar has two fields of one name. -/
theorem nodup_names {symbol : Symbol} {title : String} {fields : List (Json.Field Symbol)}
    (h : grammar symbol = .record title fields) : (fields.map (·.name)).Nodup := by
  cases symbol <;> cases h <;> decide

/-- A record follows its rule where its fields do. -/
theorem follows_record {symbol : Symbol} {title : String}
    (filled : List (Json.Field Symbol × Datum))
    (hrule : grammar symbol = .record title (filled.map (·.1)))
    (h : ∀ p ∈ filled, Follows grammar (grammar p.1.symbol) p.2) :
    Follows grammar (grammar symbol) (.record (filled.map entryOf)) := by
  have hnames := nodup_names hrule
  rw [List.map_map] at hnames
  rw [hrule]
  exact .record hnames h

/-- A variant with a record of its own follows its rule where the fields of the record do. -/
theorem follows_made {variants : List (Variant Symbol)} {name title : String} {symbol : Symbol}
    (filled : List (Json.Field Symbol × Datum))
    (hfind : variants.find? (fun w => w.name == name) = some (made name symbol))
    (hrule : grammar symbol = .record title (filled.map (·.1)))
    (h : ∀ p ∈ filled, Follows grammar (grammar p.1.symbol) p.2) :
    Follows grammar (.choice variants) (.variant name (.record (filled.map entryOf))) :=
  .variant (v := made name symbol) hfind (Or.inr rfl) (follows_record filled hrule h)

/-- A variant with a single value follows its rule where the value does. -/
theorem follows_holding {variants : List (Variant Symbol)} {name : String} {symbol : Symbol}
    {d : Datum} (hfind : variants.find? (fun w => w.name == name) = some (holding name symbol))
    (h : Follows grammar (grammar symbol) d) :
    Follows grammar (.choice variants) (.variant name d) :=
  .variant (v := holding name symbol) hfind (Or.inl rfl) h

/-- A variant that is its name alone follows its rule. -/
theorem follows_bare {variants : List (Variant Symbol)} {name : String}
    (hfind : variants.find? (fun w => w.name == name) = some (bare name)) :
    Follows grammar (.choice variants) (.unit name) :=
  .unit (v := bare name) hfind rfl

/-- Every number of 8 bits is in its range. -/
theorem follows_octet (n : UInt8) : Follows grammar (grammar .octet) (.integer n.toNat) := by
  have h := n.toNat_lt
  refine .integer ⟨Int.natCast_nonneg _, ?_⟩ ⟨?_, ?_⟩
  · change (n.toNat : Int) ≤ 255
    omega
  · omega
  · omega

/-- Every integer of 64 bits is in its range. -/
theorem follows_long (n : Int64) : Follows grammar (grammar .long) (.integer n.toInt) := by
  have hl := n.le_toInt
  have hg := n.toInt_lt
  refine .integer ⟨hl, ?_⟩ ⟨hl, ?_⟩
  · change n.toInt ≤ 0x7fffffffffffffff
    omega
  · omega

mutual

/-- The datum of every type follows the grammar of types. -/
theorem follows_sourceType : ∀ type : SourceType,
    Follows grammar (grammar .sourceType) type.toDatum
  | .string | .byte | .short | .integer | .long | .float | .double | .boolean => by
    rw [SourceType.toDatum]
    exact follows_bare rfl
  | .date | .timestamp | .binary | .void => by
    rw [SourceType.toDatum]
    exact follows_bare rfl
  | .decimal precision scale => by
    rw [SourceType.toDatum]
    refine follows_made [(needed "precision" .octet, .integer precision.toNat),
      (needed "scale" .octet, .integer scale.toNat)] rfl rfl ?_
    simp only [List.forall_mem_cons]
    exact ⟨follows_octet precision, follows_octet scale, List.forall_mem_nil _⟩
  | .array element containsNull => by
    rw [SourceType.toDatum]
    refine follows_made [(needed "element" .sourceType, element.toDatum),
      (needed "contains_null" .boolean, .boolean containsNull)] rfl rfl ?_
    simp only [List.forall_mem_cons]
    exact ⟨follows_sourceType element, .boolean containsNull, List.forall_mem_nil _⟩
  | .struct fields => by
    rw [SourceType.toDatum]
    exact follows_holding rfl (.list (follows_fieldData fields))

/-- The data of the fields of a struct type follow the grammar of fields. -/
theorem follows_fieldData : ∀ fields : List StructField,
    ∀ d ∈ SourceType.fieldData fields, Follows grammar (grammar .structField) d
  | [] => by
    rw [SourceType.fieldData]
    exact List.forall_mem_nil _
  | ⟨name, type, nullable⟩ :: fields => by
    rw [SourceType.fieldData, List.forall_mem_cons]
    refine ⟨follows_record [(needed "name" .string, .string name),
      (needed "data_type" .sourceType, type.toDatum),
      (needed "nullable" .boolean, .boolean nullable)] rfl ?_, follows_fieldData fields⟩
    simp only [List.forall_mem_cons]
    exact ⟨.string name, follows_sourceType type, .boolean nullable, List.forall_mem_nil _⟩

end

/-- The datum of every value but a double follows the grammar of values. -/
theorem follows_value {value : Value} (h : ∀ x, value ≠ .double x) :
    Follows grammar (grammar .value) value.toDatum := by
  cases value with
  | null => exact follows_bare rfl
  | boolean b => exact follows_holding rfl (.boolean b)
  | integer n => exact follows_holding rfl (follows_long n)
  | double x => exact absurd rfl (h x)
  | string s => exact follows_holding rfl (.string s)

theorem follows_operator (op : BinaryOperator) :
    Follows grammar (grammar .operator) op.toDatum := by
  have hfind : (BinaryOperator.all.map fun op => bare op.nodeName).find?
      (fun v => v.name == op.nodeName) = some (bare op.nodeName) := by
    cases op <;> rfl
  exact follows_bare hfind

theorem follows_nullCheck (check : NullCheck) :
    Follows grammar (grammar .nullCheck) check.toDatum := by
  have hfind : (NullCheck.all.map fun check => bare check.nodeName).find?
      (fun v => v.name == check.nodeName) = some (bare check.nodeName) := by
    cases check <;> rfl
  exact follows_bare hfind

/-- Whether no literal of an expression holds a double. -/
def HasNoDouble (e : Expression) : Prop :=
  ∀ value type, .literal value type ∈ e.preorder → ∀ x, value ≠ .double x

theorem HasNoDouble.child {e c : Expression} (h : HasNoDouble e) (hc : c ∈ e.children) :
    HasNoDouble c :=
  fun value type hmem => h value type (Expression.mem_preorder_of_mem_children hc hmem)

mutual

/-- The datum of an expression without doubles follows the grammar of expressions. -/
theorem follows_expression : ∀ e : Expression, HasNoDouble e →
    Follows grammar (grammar .expression) e.toDatum
  | .alias child name, h => by
    have hchild := follows_expression child (h.child (by simp [Expression.children]))
    rw [Expression.toDatum]
    refine follows_made [(needed "child" .expression, child.toDatum),
      (needed "name" .string, .string name)] rfl rfl ?_
    simp only [List.forall_mem_cons]
    exact ⟨hchild, .string name, List.forall_mem_nil _⟩
  | .field name type, _ => by
    rw [Expression.toDatum]
    refine follows_made [(needed "name" .string, .string name),
      (needed "data_type" .sourceType, type.toDatum)] rfl rfl ?_
    simp only [List.forall_mem_cons]
    exact ⟨.string name, follows_sourceType type, List.forall_mem_nil _⟩
  | .binary op left right, h => by
    have hleft := follows_expression left (h.child (by simp [Expression.children]))
    have hright := follows_expression right (h.child (by simp [Expression.children]))
    rw [Expression.toDatum]
    refine follows_made [(needed "op" .operator, op.toDatum),
      (needed "left" .expression, left.toDatum),
      (needed "right" .expression, right.toDatum)] rfl rfl ?_
    simp only [List.forall_mem_cons]
    exact ⟨follows_operator op, hleft, hright, List.forall_mem_nil _⟩
  | .conditional predicate whenTrue whenFalse, h => by
    have hpredicate := follows_expression predicate (h.child (by simp [Expression.children]))
    have htrue := follows_expression whenTrue (h.child (by simp [Expression.children]))
    have hfalse := follows_expression whenFalse (h.child (by simp [Expression.children]))
    rw [Expression.toDatum]
    refine follows_made [(needed "predicate" .expression, predicate.toDatum),
      (needed "true_value" .expression, whenTrue.toDatum),
      (needed "false_value" .expression, whenFalse.toDatum)] rfl rfl ?_
    simp only [List.forall_mem_cons]
    exact ⟨hpredicate, htrue, hfalse, List.forall_mem_nil _⟩
  | .membership value list, h => by
    have hvalue := follows_expression value (h.child (by simp [Expression.children]))
    have hlist := follows_expressions list fun e he => h.child (List.mem_cons_of_mem value he)
    rw [Expression.toDatum]
    refine follows_made [(needed "value" .expression, value.toDatum),
      (needed "list" .expressions, .list (Expression.toData list))] rfl rfl ?_
    simp only [List.forall_mem_cons]
    exact ⟨hvalue, .list hlist, List.forall_mem_nil _⟩
  | .literal value type, h => by
    have hvalue := follows_value (h value type (Expression.self_mem_preorder _))
    rw [Expression.toDatum]
    refine follows_made [(needed "value" .value, value.toDatum),
      (needed "data_type" .sourceType, type.toDatum)] rfl rfl ?_
    simp only [List.forall_mem_cons]
    exact ⟨hvalue, follows_sourceType type, List.forall_mem_nil _⟩
  | .negation child, h => by
    have hchild := follows_expression child (h.child (by simp [Expression.children]))
    rw [Expression.toDatum]
    exact follows_holding rfl hchild
  | .nullCheck check child, h => by
    have hchild := follows_expression child (h.child (by simp [Expression.children]))
    rw [Expression.toDatum]
    refine follows_made [(needed "kind" .nullCheck, check.toDatum),
      (needed "child" .expression, child.toDatum)] rfl rfl ?_
    simp only [List.forall_mem_cons]
    exact ⟨follows_nullCheck check, hchild, List.forall_mem_nil _⟩
  | .cast child type, h => by
    have hchild := follows_expression child (h.child (by simp [Expression.children]))
    rw [Expression.toDatum]
    refine follows_made [(needed "child" .expression, child.toDatum),
      (needed "data_type" .sourceType, type.toDatum)] rfl rfl ?_
    simp only [List.forall_mem_cons]
    exact ⟨hchild, follows_sourceType type, List.forall_mem_nil _⟩
  | .minus child, h => by
    have hchild := follows_expression child (h.child (by simp [Expression.children]))
    rw [Expression.toDatum]
    exact follows_holding rfl hchild
  | .call name arguments type, h => by
    have harguments := follows_expressions arguments fun e he => h.child he
    rw [Expression.toDatum]
    refine follows_made [(needed "name" .string, .string name),
      (needed "arguments" .expressions, .list (Expression.toData arguments)),
      (needed "data_type" .sourceType, type.toDatum)] rfl rfl ?_
    simp only [List.forall_mem_cons]
    exact ⟨.string name, .list harguments, follows_sourceType type, List.forall_mem_nil _⟩

/-- The data of expressions without doubles follow the grammar of expressions. -/
theorem follows_expressions : ∀ es : List Expression, (∀ e ∈ es, HasNoDouble e) →
    ∀ d ∈ Expression.toData es, Follows grammar (grammar .expression) d
  | [], _ => by
    rw [Expression.toData]
    exact List.forall_mem_nil _
  | e :: es, h => by
    rw [Expression.toData, List.forall_mem_cons]
    exact ⟨follows_expression e (h e List.mem_cons_self),
      follows_expressions es fun c hc => h c (List.mem_cons_of_mem _ hc)⟩

end

/-- The bytes of a text are those of its characters. -/
theorem bytesOf_eq (s : String) : bytesOf s = utf8 s.toList := by
  rw [bytesOf, ← String.utf8Encode_toList, List.utf8Encode]
  simp [utf8]

/-- The document of an expression, without blanks. -/
def documentOf (e : Expression) : Bytes := bytesOf e.toDatum.compact

/-- On one line the column is the number of bytes passed. -/
theorem after_of_isOneLine {passed : Bytes} (h : IsOneLine passed) :
    Position.after passed = ⟨1, passed.length⟩ := by
  have hcount : passed.count 10 = 0 := List.count_eq_zero.mpr h
  have htake : passed.reverse.takeWhile (· != 10) = passed.reverse := by
    refine List.takeWhile_eq_self_iff.mpr fun b hb => bne_iff_ne.mpr ?_
    rintro rfl
    exact h (List.mem_reverse.mp hb)
  rw [Position.after, hcount, htake, List.length_reverse]

/-- A message speaks of nesting exactly when it holds the words. -/
theorem speaksOfNesting_iff_isInfix {message : String} :
    speaksOfNesting message = true ↔ nestingWords.toList <:+: message.toList :=
  @decide_eq_true_iff _ (List.instDecidableIsInfixOfDecidableEq _ _)

/-- A message that starts with the words speaks of nesting. -/
theorem speaksOfNesting_append (text : String) : speaksOfNesting (nestingWords ++ text) = true := by
  rw [speaksOfNesting_iff_isInfix, String.toList_append]
  exact List.infix_append_left

/-- A failure at the bracket beyond the limit is reported as one of nesting, with the column of
that bracket. -/
theorem ofFailure_tooDeep {passed behind : Bytes} (h : IsOneLine passed) :
    ReadError.ofFailure (passed ++ behind) ⟨.tooDeep, behind, true⟩ =
      .nesting ("recursion limit exceeded at line 1 column " ++ toString passed.length) := by
  have htake : (passed ++ behind).take ((passed ++ behind).length - behind.length) = passed := by
    rw [List.length_append, Nat.add_sub_cancel, List.take_left]
  have hposition : Failure.position? ⟨.tooDeep, behind, true⟩ (passed ++ behind) =
      some ⟨1, passed.length⟩ := by
    rw [Failure.position?, if_pos rfl, Failure.position, htake, after_of_isOneLine h]
  have htext : Cause.messageAt .tooDeep (some ⟨1, passed.length⟩) =
      nestingWords ++ (" at line 1 column " ++ toString passed.length) := by
    have hline : " at " ++ ("line " ++ toString 1 ++ " column ") = " at line 1 column " := by decide
    rw [← hline, String.append_assoc, ← String.append_assoc]
    rfl
  rw [ReadError.ofFailure]
  dsimp only
  rw [hposition, htext, if_pos (speaksOfNesting_append _), ← String.append_assoc]
  rfl

/-- The document of an expression without doubles is read back as that expression while at most
127 of its containers are open at once. Otherwise it is refused for its nesting, at the column of
the bracket that opens the 128th. -/
theorem readExpression_documentOf {e : Expression} (h : HasNoDouble e) :
    (mostOpen (documentOf e) ≤ 127 → readExpression (documentOf e) = .ok e) ∧
      (127 < mostOpen (documentOf e) → ∃ column,
        openAfter ((documentOf e).take column) = 128 ∧
        (∀ n < column, openAfter ((documentOf e).take n) ≤ 127) ∧
        readExpression (documentOf e) =
          .error (.nesting ("recursion limit exceeded at line 1 column " ++ toString column))) := by
  have hfollows := follows_expression e h
  have hdocument : documentOf e = e.toDatum.bytes := bytesOf_eq _
  have hread := readDocument_bytes hfollows
  have hline := isOneLine_bytes hfollows
  rw [readExpression, readAs, hdocument, hread]
  constructor
  · intro hmost
    have hnone : beyond containerLimit ⟨0, .outside⟩ e.toDatum.bytes = none :=
      (beyond_eq_none_iff (Nat.zero_le _)).mpr hmost
    rw [hnone]
    dsimp only
    rw [Expression.ofDatum?_toDatum]
    rfl
  · intro hmost
    cases hbeyond : beyond containerLimit ⟨0, .outside⟩ e.toDatum.bytes with
    | none =>
      have hle := (beyond_eq_none_iff (Nat.zero_le _)).mp hbeyond
      exact absurd hmost (Nat.not_lt.mpr hle)
    | some behind =>
      -- The document is one line, so the bytes up to the bracket are its column.
      obtain ⟨passed, heq, hopen, hall⟩ := beyond_eq_some (Nat.zero_le _) hbeyond
      have hpassed : IsOneLine passed := fun hmem =>
        hline (heq ▸ List.mem_append_left behind hmem)
      rw [heq]
      refine ⟨passed.length, ?_, ?_, ?_⟩
      · rw [List.take_left]
        exact hopen
      · intro n hn
        rw [List.take_append_of_le_length (Nat.le_of_lt hn)]
        exact hall n hn
      · exact congrArg Except.error (ofFailure_tooDeep hpassed)

/-- A field under a tower of negations. -/
def negatedField : Nat → Expression
  | 0 => .field "p" .boolean
  | n + 1 => .negation (negatedField n)

theorem hasNoDouble_negatedField (n : Nat) : HasNoDouble (negatedField n) := by
  intro value type hmem
  induction n with
  | zero => simp [negatedField, Expression.preorder_eq, Expression.children] at hmem
  | succ n ih =>
    refine ih ?_
    simpa [negatedField, Expression.preorder_eq (.negation _), Expression.children] using hmem

/-- A negation opens one container and a field two, all open where the field begins. -/
theorem exists_run_negatedField (n : Nat) :
    ∃ passed behind, documentOf (negatedField n) = passed ++ behind ∧
      ∀ o, (Scan.run ⟨o, .outside⟩ passed).opened = o + (n + 2) := by
  induction n with
  | zero =>
    have hsplit := List.take_append_drop 19 (documentOf (negatedField 0))
    exact ⟨_, _, hsplit.symm, fun o => rfl⟩
  | succ n ih =>
    obtain ⟨passed, behind, heq, hrun⟩ := ih
    refine ⟨ascii '\x7b' :: (quoted "Not" ++ ascii ':' :: passed), behind ++ [ascii '\x7d'], ?_, ?_⟩
    · have hdocument := Datum.bytes_variant "Not" (negatedField n).toDatum
      rw [documentOf, bytesOf_eq] at heq ⊢
      rw [negatedField, Expression.toDatum]
      refine hdocument.trans ?_
      rw [entries, entries, separator, if_pos rfl, Datum.fieldBytes, Datum.bytes, heq]
      simp
    · intro o
      have hopening : Scan.step ⟨o, .outside⟩ (ascii '\x7b') = ⟨o + 1, .outside⟩ := rfl
      have hcolon : Scan.step ⟨o + 1, .outside⟩ (ascii ':') = ⟨o + 1, .outside⟩ := rfl
      rw [Scan.run_cons, hopening, Scan.run_append, (LeadsTo.quoted "Not").run_eq, Scan.run_cons,
        hcolon, hrun]
      omega

/-- Under one negation a field is read back, and under 126 it is refused. -/
theorem readExpression_negatedField :
    readExpression (documentOf (negatedField 1)) = .ok (negatedField 1) ∧
      ∃ column, openAfter ((documentOf (negatedField 126)).take column) = 128 ∧
        readExpression (documentOf (negatedField 126)) =
          .error (.nesting ("recursion limit exceeded at line 1 column " ++ toString column)) := by
  have hshallow : mostOpen (documentOf (negatedField 1)) ≤ 127 := by decide +kernel
  have hdeep : 127 < mostOpen (documentOf (negatedField 126)) := by
    obtain ⟨passed, behind, heq, hrun⟩ := exists_run_negatedField 126
    by_contra hle
    have hall := mostOpen_le_iff.mp (Nat.le_of_not_lt hle) passed.length
    rw [heq, List.take_left, openAfter, hrun] at hall
    exact absurd hall (by decide)
  refine ⟨(readExpression_documentOf (hasNoDouble_negatedField 1)).1 hshallow, ?_⟩
  obtain ⟨column, hcolumn, -, hread⟩ :=
    (readExpression_documentOf (hasNoDouble_negatedField 126)).2 hdeep
  exact ⟨column, hcolumn, hread⟩

end Document

end ScoringMarkup
