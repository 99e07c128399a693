import ScoringMarkup.Proofs.Conversion.Inspection
import ScoringMarkup.Proofs.Expression.Relabeling

/-!
# Conversion and renaming

Conversion looks neither at the names of fields nor at the payloads of literals. So a run on a tree
whose fields are renamed and whose payloads are replaced enters the same nodes, fails at the same
node for the same reason, or ends with the markup renamed and replaced in the same way. Only the
summaries in reports and errors can tell the two runs apart.
-/

namespace ScoringMarkup

namespace ConversionError

/-- What an error is about, without the text that shows the tree: the kind of what is refused, or
the limit that is exceeded. -/
def subject : ConversionError → String ⊕ Nat
  | .unsupported refusal => .inl refusal.kind
  | .tooDeep limit => .inr limit

end ConversionError

open ConversionError (subject)

variable (field : String → String) (value : Value → Value)

namespace Element

mutual

/-- The markup with its fields renamed and the payloads of its constants replaced. -/
def rename : Element → Element
  | .fieldRef name => .fieldRef (field name)
  | .apply function arguments => .apply function (renameAll arguments)
  | .constant payload type => .constant (value payload) type

/-- The markup of several arguments, each renamed. -/
def renameAll : List Element → List Element
  | [] => []
  | e :: es => rename e :: renameAll es

end

end Element

namespace Expression

/-- The tree with its fields renamed and the payloads of its literals replaced. -/
def rename : Expression → Expression := relabel ⟨field, value, id⟩

/-- The tree declares what it declared before. -/
theorem declaredType_rename : ∀ e : Expression,
    (e.rename field value).declaredType = e.declaredType
  | .alias child _ => declaredType_rename child
  | .field .. | .literal .. | .cast .. | .call .. => rfl
  | .membership .. | .negation _ | .nullCheck .. => rfl
  | .conditional _ whenTrue _ => declaredType_rename whenTrue
  | .minus child => declaredType_rename child
  | .binary op left right =>
    congrArg₂ op.declaredType (declaredType_rename left) (declaredType_rename right)

/-- A node passes its check, or fails for the same reason, whatever the fields and payloads below
it are. -/
theorem ownCheck_rename (e : Expression) :
    (e.rename field value).ownCheck.mapError subject = e.ownCheck.mapError subject := by
  cases e with
  | «alias» | membership | negation | nullCheck => rfl
  | field | literal | «cast» | minus | call => rfl
  | binary op left right =>
    have hrename : (binary op left right).rename field value =
        binary op (left.rename field value) (right.rename field value) := rfl
    rw [hrename]
    cases op
    case add | subtract | multiply | divide =>
      simp only [ownCheck, declaredType_rename]
      -- Only the refusal of operands that do not go together shows the tree.
      split
      · rfl
      · split <;> rfl
    all_goals rfl
  | conditional predicate whenTrue whenFalse =>
    have hrename : (conditional predicate whenTrue whenFalse).rename field value =
        conditional (predicate.rename field value) (whenTrue.rename field value)
          (whenFalse.rename field value) := rfl
    rw [hrename]
    simp only [ownCheck, declaredType_rename]
    split <;> rfl

mutual

/-- The counterpart of the tree has the same fields renamed and the same payloads replaced. -/
theorem counterpart_rename : ∀ e : Expression,
    (e.rename field value).counterpart = e.counterpart.rename field value
  | .alias child _ => counterpart_rename child
  | .field .. | .literal .. => rfl
  | .binary op left right => congrArg₂ (fun first second => Element.apply op.functionName
    [first, second]) (counterpart_rename left) (counterpart_rename right)
  | .conditional predicate whenTrue whenFalse => by
    have hpredicate := counterpart_rename predicate
    have htrue := counterpart_rename whenTrue
    have hfalse := counterpart_rename whenFalse
    rw [rename] at hpredicate htrue hfalse ⊢
    rw [relabel, counterpart, hpredicate, htrue, hfalse]
    rfl
  | .membership member list => congrArg (Element.apply "isIn")
    (congrArg₂ List.cons (counterpart_rename member) (counterparts_rename list))
  | .negation child => congrArg (Element.apply "not" [·]) (counterpart_rename child)
  | .nullCheck .isNull child =>
    congrArg (Element.apply "isMissing" [·]) (counterpart_rename child)
  | .nullCheck .isNotNull child =>
    congrArg (Element.apply "isNotMissing" [·]) (counterpart_rename child)
  | .cast child _ => congrArg (Element.apply "cast" [·]) (counterpart_rename child)
  | .minus child => congrArg (Element.apply "-" [·]) (counterpart_rename child)
  | .call name arguments _ => congrArg (Element.apply name) (counterparts_rename arguments)

/-- The markup of a list of trees is renamed tree by tree. -/
theorem counterparts_rename : ∀ es : List Expression,
    counterparts (relabelList ⟨field, value, id⟩ es) =
      Element.renameAll field value (counterparts es)
  | [] => rfl
  | e :: es => congrArg₂ List.cons (counterpart_rename e) (counterparts_rename es)

end

/-- Renaming leaves the aliases around a node as they are. -/
theorem unaliased_rename : ∀ e : Expression,
    (e.rename field value).unaliased = e.unaliased.rename field value
  | .alias child _ => unaliased_rename child
  | .field .. | .literal .. | .cast .. | .call .. | .membership .. | .negation _ => rfl
  | .nullCheck .. | .conditional .. | .minus _ | .binary .. => rfl

end Expression

/-- The mapping of the renamed tree. -/
def Mapping.rename (m : Mapping) : Mapping :=
  ⟨m.source.rename field value, m.target.rename field value, m.type⟩

/-- The mapping of a renamed tree is the renamed mapping. -/
theorem Expression.mapping_rename (e : Expression) :
    (e.rename field value).mapping = e.mapping.rename field value := by
  rw [mapping, unaliased_rename, counterpart_rename, declaredType_rename]
  rfl

namespace Logged

variable {α : Type}

/-- The records that are made under the lowest level. -/
def traces (x : Logged α) : List LogRecord := x.records.filter fun r => r.level == "TRACE"

end Logged

namespace Conversion

variable {field value}

/-- Nodes that have the same names, and whose checks pass or fail for the same reason, are inspected
alike. -/
theorem inspect_map_subject {f : Expression → Expression} {es : List Expression}
    (hname : ∀ e ∈ es, (f e).nodeName = e.nodeName)
    (hcheck : ∀ e ∈ es, (f e).ownCheck.mapError subject = e.ownCheck.mapError subject) :
    (inspect (es.map f)).records = (inspect es).records ∧
      (inspect (es.map f)).outcome.mapError subject = (inspect es).outcome.mapError subject := by
  induction es with
  | nil => exact ⟨rfl, rfl⟩
  | cons e es ih =>
    obtain ⟨hrecords, houtcome⟩ := ih (fun n hn => hname n (List.mem_cons_of_mem _ hn))
      (fun n hn => hcheck n (List.mem_cons_of_mem _ hn))
    have he := hcheck e (List.mem_cons_self ..)
    rw [List.map_cons, inspect, inspect, hname e (List.mem_cons_self ..)]
    cases hold : e.ownCheck with
    | ok u =>
      cases hnew : (f e).ownCheck with
      | ok u' => exact ⟨congrArg (LogRecord.entering e.nodeName :: ·) hrecords, houtcome⟩
      | error error => simp [hold, hnew, Except.mapError] at he
    | error error =>
      cases hnew : (f e).ownCheck with
      | ok u' => simp [hold, hnew, Except.mapError] at he
      | error error' =>
        rw [hold, hnew] at he
        exact ⟨rfl, he⟩

/-- The nodes of the renamed tree are inspected as those of the tree are. -/
theorem inspect_rename (field : String → String) (value : Value → Value) (e : Expression) :
    (inspect (e.rename field value).preorder).records = (inspect e.preorder).records ∧
      (inspect (e.rename field value).preorder).outcome.mapError subject =
        (inspect e.preorder).outcome.mapError subject := by
  rw [Expression.rename, Expression.preorder_relabel]
  exact inspect_map_subject (fun n _ => n.nodeName_relabel _)
    fun n _ => n.ownCheck_rename field value

/-- The records of entered nodes are traces, all of them. -/
theorem filter_map_entry (es : List Expression) :
    (es.map entry).filter (fun r => r.level == "TRACE") = es.map entry := by
  refine List.filter_eq_self.mpr fun r hr => ?_
  obtain ⟨e, -, rfl⟩ := List.mem_map.mp hr
  rfl

/-- A conversion leaves the traces of the inspection of its nodes. -/
theorem traces_convertTree (e : Expression) :
    (convertTree e).traces = (inspect e.preorder).records := by
  rcases convertTree_cases e with
    ⟨hpass, htree⟩ | ⟨before, n, after, refusal, he, hbefore, hn, htree⟩
  · rw [htree, inspect_of_passing hpass]
    exact filter_map_entry e.preorder
  · rw [htree, he, inspect_of_failing hbefore hn, Logged.traces, List.filter_append,
      filter_map_entry]
    exact List.append_nil _

/-- What renaming makes of a run: the mapping is renamed with the tree, or the error keeps its
subject, and the traces stay as they are. -/
structure Renames (field : String → String) (value : Value → Value)
    (run renamed : Logged Mapping) : Prop where
  mapping : ∀ m, run.outcome = .ok m → renamed.outcome = .ok (m.rename field value)
  error : ∀ error, run.outcome = .error error →
    ∃ error', renamed.outcome = .error error' ∧ error'.subject = error.subject
  traces : renamed.traces = run.traces

/-- Converting a renamed tree gives the renamed mapping or a refusal of the same kind. -/
theorem renames_convertTree (e : Expression) :
    Renames field value (convertTree e) (convertTree (e.rename field value)) := by
  obtain ⟨hrecords, houtcome⟩ := inspect_rename field value e
  refine ⟨fun m hm => ?_, fun error herror => ?_, ?_⟩
  · rw [outcome_convertTree] at hm ⊢
    cases hold : (inspect e.preorder).outcome with
    | error error => simp [hold, Except.map] at hm
    | ok u =>
      cases hnew : (inspect (e.rename field value).preorder).outcome with
      | error error => simp [hold, hnew, Except.mapError] at houtcome
      | ok u' =>
        rw [hold] at hm
        cases hm
        exact congrArg Except.ok (e.mapping_rename field value)
  · rw [outcome_convertTree] at herror ⊢
    cases hold : (inspect e.preorder).outcome with
    | ok u => simp [hold, Except.map] at herror
    | error error' =>
      rw [hold] at herror
      cases herror
      cases hnew : (inspect (e.rename field value).preorder).outcome with
      | ok u => simp [hold, hnew, Except.mapError] at houtcome
      | error error' =>
        rw [hold, hnew] at houtcome
        exact ⟨error', rfl, by simpa [Except.mapError] using houtcome⟩
  · rw [traces_convertTree, traces_convertTree, hrecords]

/-- A run ends with a mapping exactly when the renamed run does. -/
theorem Renames.exists_ok_iff {run renamed : Logged Mapping} (h : Renames field value run renamed) :
    (∃ m, run.outcome = .ok m) ↔ ∃ m, renamed.outcome = .ok m := by
  constructor
  · rintro ⟨m, hm⟩
    exact ⟨_, h.mapping m hm⟩
  · rintro ⟨m, hm⟩
    cases hrun : run.outcome with
    | ok m' => exact ⟨m', rfl⟩
    | error error =>
      obtain ⟨error', herror', -⟩ := h.error error hrun
      rw [hm] at herror'
      cases herror'

variable (field value)

/-- Conversion commutes with renaming fields and replacing payloads, whatever the functions do to
names and values, and under every configuration. The renamed tree is converted exactly when the tree
is, to the same type and to the markup renamed; otherwise both fail, with the same kind of error on
the same kind of node or for the same limit. Either way the same nodes are entered in the same
order. -/
theorem convert_rename (configuration : Configuration) (e : Expression) :
    ((∃ m, (convert configuration e).outcome = .ok m) ↔
      ∃ m, (convert configuration (e.rename field value)).outcome = .ok m) ∧
    (∀ m, (convert configuration e).outcome = .ok m →
      (convert configuration (e.rename field value)).outcome =
        .ok ⟨m.source.rename field value, m.target.rename field value, m.type⟩) ∧
    (∀ error, (convert configuration e).outcome = .error error →
      ∃ error', (convert configuration (e.rename field value)).outcome = .error error' ∧
        error'.subject = error.subject) ∧
    (convert configuration (e.rename field value)).traces = (convert configuration e).traces := by
  have hrenames : Renames field value (convert configuration e)
      (convert configuration (e.rename field value)) := by
    unfold convert
    split
    · exact renames_convertTree e
    · rw [Expression.rename, e.exceedsDepth_relabel]
      split
      · refine ⟨fun m hm => (by cases hm), fun error herror => ?_, rfl⟩
        cases herror
        exact ⟨_, rfl, rfl⟩
      · exact renames_convertTree e
  exact ⟨hrenames.exists_ok_iff, hrenames.mapping, hrenames.error, hrenames.traces⟩

/-- A choice on a repeated name, between an integer sum with some payload and another type. -/
def repeatedName (payload : Value) (type : SourceType) : Expression :=
  .conditional (.field "a" .boolean)
    (.binary .add (.field "a" .integer) (.literal payload .integer))
    (.alias (.field "a" type) "a")

/-- An integer sum stays one when its payload is gone. A choice that is refused is still refused as
a choice under other names, though its summary reads otherwise. -/
theorem convert_rename_repeatedName :
    (convert .unbounded (repeatedName (.string "1") .integer)).outcome =
      .ok (repeatedName (.string "1") .integer).mapping ∧
    (convert .unbounded ((repeatedName (.string "1") .integer).rename (· ++ "b")
      fun _ => .null)).outcome.map Mapping.result = .ok (.apply "if" [.fieldRef "ab",
        .apply "+" [.fieldRef "ab", .constant .null .integer], .fieldRef "ab"], .integer) ∧
    ∃ error, (convert .unbounded ((repeatedName (.integer 1) .string).rename (· ++ "b")
      fun _ => .null)).outcome = .error error ∧ error.subject = .inl "If" := by
  have hsum : (convert .unbounded (repeatedName (.string "1") .integer)).outcome =
      .ok (repeatedName (.string "1") .integer).mapping := outcome_convertTree _
  have hchoice : (convert .unbounded (repeatedName (.integer 1) .string)).outcome =
      .error (.unsupported (.branches "If" (repeatedName (.integer 1) .string).summary
        "int" "string")) := outcome_convertTree _
  refine ⟨hsum, ?_, ?_⟩
  · rw [(convert_rename (· ++ "b") (fun _ => .null) .unbounded _).2.1 _ hsum]
    rfl
  · exact (convert_rename (· ++ "b") (fun _ => .null) .unbounded _).2.2.1 _ hchoice

end Conversion

end ScoringMarkup
