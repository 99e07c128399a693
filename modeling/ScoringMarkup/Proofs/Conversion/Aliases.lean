import ScoringMarkup.Proofs.Conversion.Inspection
import ScoringMarkup.Proofs.Expression.Aliases

/-!
# Conversion and aliases

A stripped tree is inspected as the tree is: an alias passes its own check, and stripping a node
that is none keeps the outcome of its check up to the summary that the error shows. So stripping
keeps the markup and the type that a tree is converted to, and what is refused where it fails.
-/

namespace ScoringMarkup

namespace ConversionError

/-- What is refused, where the failure is a refusal. -/
def kind? : ConversionError → Option String
  | .unsupported refusal => some refusal.kind
  | .tooDeep _ => none

/-- An error that speaks of something unsupported holds a refusal. -/
theorem exists_refusal {error : ConversionError} (h : error.isUnsupported = true) :
    ∃ refusal, error = .unsupported refusal := by
  cases error with
  | unsupported refusal => exact ⟨refusal, rfl⟩
  | tooDeep limit => cases h

end ConversionError

namespace Expression

/-- The tree without the aliases around it starts with the first node that is no alias. -/
theorem find?_preorder (e : Expression) : e.preorder.find? (!·.isAlias) = some e.unaliased := by
  induction e using induct_children with
  | step e ih =>
    cases h : e.isAlias with
    | true =>
      obtain ⟨child, name, rfl⟩ := exists_eq_alias h
      have htail : (Expression.alias child name).preorder =
          .alias child name :: child.preorder := by simp [preorder_eq, children]
      rw [htail, List.find?_cons_of_neg (by simp [isAlias]), ih child (List.mem_singleton.mpr rfl)]
      rfl
    | false =>
      rw [preorder_eq, List.find?_cons_of_pos (by simp [h])]
      cases e with
      | «alias» => cases h
      | _ => rfl

/-- Behind the aliases of a node there is none. -/
theorem isAlias_unaliased (e : Expression) : e.unaliased.isAlias = false := by
  simpa using List.find?_some e.find?_preorder

/-- The aliases around a node are gone without aliases. -/
theorem withoutAliases_unaliased : ∀ e : Expression,
    e.unaliased.withoutAliases = e.withoutAliases
  | .alias child _ => withoutAliases_unaliased child
  | .field .. | .literal .. | .binary .. | .conditional .. | .membership .. => rfl
  | .negation _ | .nullCheck .. | .cast .. | .minus _ | .call .. => rfl

/-- An alias is never refused itself. -/
theorem ownCheck_of_isAlias {e : Expression} (h : e.isAlias = true) : e.ownCheck = .ok () := by
  obtain ⟨child, name, rfl⟩ := exists_eq_alias h
  rfl

/-- Stripping a node that is no alias keeps the outcome of its own check, up to the summary. -/
theorem ownCheck_withoutAliases {e : Expression} (h : e.isAlias = false) :
    e.withoutAliases.ownCheck.mapError ConversionError.kind? =
      e.ownCheck.mapError ConversionError.kind? := by
  cases e with
  | «alias» => cases h
  | field | literal | membership | negation | nullCheck => rfl
  | «cast» | minus | call =>
    simp only [withoutAliases, ownCheck, Except.mapError, ConversionError.kind?, Refusal.kind]
  | binary op left right =>
    cases op
    case add | subtract | multiply | divide =>
      simp only [withoutAliases, ownCheck, declaredType_withoutAliases]
      split
      · rfl
      · split
        · rfl
        · simp only [Except.mapError, ConversionError.kind?, Refusal.kind, nodeName]
    case and | or | equalTo | greaterThan | greaterThanOrEqual | lessThan | lessThanOrEqual => rfl
    all_goals
      simp only [withoutAliases, ownCheck, Except.mapError, ConversionError.kind?, Refusal.kind,
        nodeName]
  | conditional predicate whenTrue whenFalse =>
    simp only [withoutAliases, ownCheck, declaredType_withoutAliases]
    split
    · rfl
    · simp only [Except.mapError, ConversionError.kind?, Refusal.kind, nodeName]

mutual

/-- Aliases leave nothing behind in the markup. -/
theorem counterpart_withoutAliases : ∀ e : Expression,
    e.withoutAliases.counterpart = e.counterpart
  | .alias child _ => counterpart_withoutAliases child
  | .field .. | .literal .. => rfl
  | .binary op left right => by
    rw [withoutAliases, counterpart, counterpart, counterpart_withoutAliases left,
      counterpart_withoutAliases right]
  | .conditional predicate whenTrue whenFalse => by
    rw [withoutAliases, counterpart, counterpart, counterpart_withoutAliases predicate,
      counterpart_withoutAliases whenTrue, counterpart_withoutAliases whenFalse]
  | .membership value list => by
    rw [withoutAliases, counterpart, counterpart, counterpart_withoutAliases value,
      counterparts_withoutAliases list]
  | .negation child => by
    rw [withoutAliases, counterpart, counterpart, counterpart_withoutAliases child]
  | .nullCheck .isNull child | .nullCheck .isNotNull child => by
    rw [withoutAliases, counterpart, counterpart, counterpart_withoutAliases child]
  | .cast child _ => by
    rw [withoutAliases, counterpart, counterpart, counterpart_withoutAliases child]
  | .minus child => by
    rw [withoutAliases, counterpart, counterpart, counterpart_withoutAliases child]
  | .call name arguments _ => by
    rw [withoutAliases, counterpart, counterpart, counterparts_withoutAliases arguments]

/-- The markup of a list of trees does not show aliases. -/
theorem counterparts_withoutAliases : ∀ es : List Expression,
    counterparts (listWithoutAliases es) = counterparts es
  | [] => rfl
  | e :: es => by
    rw [listWithoutAliases, counterparts, counterparts, counterpart_withoutAliases e,
      counterparts_withoutAliases es]

end

end Expression

namespace Conversion

/-- Without the aliases, each of the others stripped, nodes are inspected with the same outcome,
up to the summary in an error. -/
theorem inspect_withoutAliases (es : List Expression) :
    (inspect ((es.filter (!·.isAlias)).map Expression.withoutAliases)).outcome.mapError
        ConversionError.kind? =
      (inspect es).outcome.mapError ConversionError.kind? := by
  induction es with
  | nil => rfl
  | cons e es ih =>
    rw [outcome_inspect_cons]
    cases h : e.isAlias with
    | true =>
      rw [List.filter_cons_of_neg (by simp [h]), Expression.ownCheck_of_isAlias h, ih]
      rfl
    | false =>
      have hcheck := Expression.ownCheck_withoutAliases h
      rw [List.filter_cons_of_pos (by simp [h]), List.map_cons, outcome_inspect_cons]
      cases h₁ : e.withoutAliases.ownCheck <;> cases h₂ : e.ownCheck <;>
        simp only [h₁, h₂, Except.mapError, reduceCtorEq] at hcheck
      · exact hcheck
      · exact ih

/-- The tree without aliases has the same markup and the same type. -/
theorem result_mapping_withoutAliases (e : Expression) :
    e.withoutAliases.mapping.result = e.mapping.result := by
  simp only [Mapping.result, Expression.mapping, Expression.counterpart_withoutAliases,
    Expression.declaredType_withoutAliases]

/-- Without a depth limit, a tree and the stripped tree are converted alike: to the same result,
or both fail and the same is refused. -/
theorem convertTree_withoutAliases (e : Expression) :
    (∃ m m', (convertTree e).outcome = .ok m ∧ (convertTree e.withoutAliases).outcome = .ok m' ∧
      m'.result = m.result) ∨
    ∃ error error', (convertTree e).outcome = .error error ∧
      (convertTree e.withoutAliases).outcome = .error error' ∧ error'.kind? = error.kind? := by
  have hinspect := inspect_withoutAliases e.preorder
  rw [← Expression.preorder_withoutAliases] at hinspect
  rw [outcome_convertTree, outcome_convertTree]
  cases h₁ : (inspect e.withoutAliases.preorder).outcome <;>
    cases h₂ : (inspect e.preorder).outcome <;>
    simp only [h₁, h₂, Except.mapError, reduceCtorEq, Except.error.injEq] at hinspect
  · exact Or.inr ⟨_, _, rfl, rfl, hinspect⟩
  · exact Or.inl ⟨_, _, rfl, rfl, result_mapping_withoutAliases e⟩

/-- Aliases are transparent wherever they stand. Without a depth limit a tree is converted exactly
when the stripped tree is, to the same markup of the same type, and the mapping shows the first
node of the tree that is no alias; where both fail, the same is refused. Under any configuration
the stripped tree is converted if the tree is. -/
theorem convert_withoutAliases (e : Expression) :
    ((∃ m, (convert .unbounded e).outcome = .ok m) ↔
      ∃ m', (convert .unbounded e.withoutAliases).outcome = .ok m') ∧
    (∀ m m', (convert .unbounded e).outcome = .ok m →
      (convert .unbounded e.withoutAliases).outcome = .ok m' →
      m'.target = m.target ∧ m'.type = m.type) ∧
    (∀ m, (convert .unbounded e).outcome = .ok m →
      e.preorder.find? (!·.isAlias) = some m.source) ∧
    (∀ error error', (convert .unbounded e).outcome = .error error →
      (convert .unbounded e.withoutAliases).outcome = .error error' →
      ∃ refusal refusal', error = .unsupported refusal ∧ error' = .unsupported refusal' ∧
        refusal'.kind = refusal.kind) ∧
    ∀ configuration m, (convert configuration e).outcome = .ok m →
      ∃ m', (convert configuration e.withoutAliases).outcome = .ok m' ∧
        m'.target = m.target ∧ m'.type = m.type := by
  have hsource : ∀ m, (convertTree e).outcome = .ok m →
      e.preorder.find? (!·.isAlias) = some m.source := by
    intro m hm
    obtain ⟨-, rfl⟩ := outcome_convertTree_iff.mp hm
    exact e.find?_preorder
  -- Without its aliases a tree is no higher, so a limit that admits the tree admits that too.
  have hadmits : ∀ {configuration m}, (convert configuration e).outcome = .ok m →
      (convertTree e).outcome = .ok m ∧
        convert configuration e.withoutAliases = convertTree e.withoutAliases := by
    intro configuration m hm
    obtain ⟨hadmits, hm⟩ := convert_eq_ok hm
    exact ⟨hm, convert_of_admits fun limit hl =>
      Expression.exceedsDepth_withoutAliases (hadmits limit hl)⟩
  rw [show convert .unbounded e = convertTree e from rfl,
    show convert .unbounded e.withoutAliases = convertTree e.withoutAliases from rfl]
  rcases convertTree_withoutAliases e with ⟨m, m', hm, hm', hresult⟩ |
    ⟨error, error', herror, herror', hkind⟩
  · obtain ⟨htarget, htype⟩ := Prod.mk.inj hresult
    refine ⟨⟨fun _ => ⟨m', hm'⟩, fun _ => ⟨m, hm⟩⟩, ?_, hsource, ?_, ?_⟩
    · intro n n' hn hn'
      cases hm.symm.trans hn
      cases hm'.symm.trans hn'
      exact ⟨htarget, htype⟩
    · intro error _ herror
      cases hm.symm.trans herror
    · intro configuration n hn
      obtain ⟨hn, hconvert⟩ := hadmits hn
      cases hm.symm.trans hn
      exact ⟨m', hconvert ▸ hm', htarget, htype⟩
  · refine ⟨⟨?_, ?_⟩, ?_, hsource, ?_, ?_⟩
    · rintro ⟨m, hm⟩
      cases herror.symm.trans hm
    · rintro ⟨m', hm'⟩
      cases herror'.symm.trans hm'
    · intro m _ hm
      cases herror.symm.trans hm
    · intro other other' h h'
      cases herror.symm.trans h
      cases herror'.symm.trans h'
      obtain ⟨refusal, rfl⟩ := ConversionError.exists_refusal (isUnsupported_of_convertTree h)
      obtain ⟨refusal', rfl⟩ := ConversionError.exists_refusal (isUnsupported_of_convertTree h')
      exact ⟨refusal, refusal', rfl, rfl, Option.some.inj hkind⟩
    · intro configuration m hm
      cases herror.symm.trans (hadmits hm).1

/-- A choice with aliases around it, inside it and around its operands. -/
def aliasedChoice : Expression :=
  .alias
    (.alias
      (.conditional (.alias (.isNull (.field "p" .boolean)) "q")
        (.binary .add (.alias (.alias (.field "i" .integer) "j") "k") (.field "d" .double))
        (.alias (.literal .null .double) "none"))
      "inner")
    "outer"

/-- The mapping shows the choice, and the stripped choice is converted to the same. -/
theorem convert_aliasedChoice :
    (convert .standard aliasedChoice).outcome = .ok aliasedChoice.mapping ∧
    aliasedChoice.preorder.find? (!·.isAlias) = some aliasedChoice.mapping.source ∧
    ∃ m', (convert .standard aliasedChoice.withoutAliases).outcome = .ok m' ∧
      m'.target = aliasedChoice.mapping.target ∧ m'.type = .double := by
  have hadmits : Admits .standard aliasedChoice :=
    admits_withMaxDepth (by decide)
  have h : (convert .standard aliasedChoice).outcome = .ok aliasedChoice.mapping := by
    rw [convert_of_admits hadmits]
    exact outcome_convertTree _
  obtain ⟨-, -, hsource, -, hlimited⟩ := convert_withoutAliases aliasedChoice
  exact ⟨h, hsource _ (outcome_convertTree _), hlimited .standard _ h⟩

end Conversion

end ScoringMarkup
