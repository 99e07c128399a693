import ScoringMarkup.Proofs.Conversion.Inspection

/-!
# What conversion returns and reports

The readings of a run that callers rely on: when a tree is converted and to what, which node
decides a failure and what has been reported by then, when a tree is refused for its depth, and
that the type of a mapping is the one that inference finds for the tree.
-/

namespace ScoringMarkup

namespace Conversion

/-- Without a depth limit, a tree is converted exactly when every node is supported, and then to
its counterpart. -/
theorem convert_unbounded_iff (e : Expression) (target : Element) :
    (∃ m, (convert .unbounded e).outcome = .ok m ∧ m.target = target) ↔
      (∀ n ∈ e.preorder, n.IsSupported) ∧ target = e.counterpart := by
  rw [show convert .unbounded e = convertTree e from rfl]
  simp only [outcome_convertTree_iff, Expression.ownCheck_eq_ok_iff]
  constructor
  · rintro ⟨m, ⟨h, rfl⟩, rfl⟩
    exact ⟨h, rfl⟩
  · rintro ⟨h, rfl⟩
    exact ⟨e.mapping, ⟨h, rfl⟩, rfl⟩

/-- Within the depth limit, a run reports each node as it is entered, in pre-order. If all nodes
pass their checks, nothing else is reported and the tree is converted. Otherwise the first node
that fails is the last one entered; its error is returned, and reported with the summary of the
tree. -/
theorem convert_follows_preorder {configuration : Configuration} {e : Expression}
    (hadmits : Admits configuration e) :
    ((∀ n ∈ e.preorder, n.ownCheck = .ok ()) →
      (∃ m, (convert configuration e).outcome = .ok m) ∧
        (convert configuration e).records = e.preorder.map fun n => .entering n.nodeName) ∧
    ∀ before n after error, e.preorder = before ++ n :: after →
      (∀ b ∈ before, b.ownCheck = .ok ()) → n.ownCheck = .error error →
      (convert configuration e).outcome = .error error ∧
        (convert configuration e).records =
          ((before ++ [n]).map fun n => .entering n.nodeName) ++ [.failed e.summary error] := by
  rw [convert_of_admits hadmits]
  constructor
  · intro h
    rw [convertTree_of_passing h]
    exact ⟨⟨e.mapping, rfl⟩, rfl⟩
  · intro before n after error he hbefore hn
    rw [convertTree_of_failing he hbefore hn]
    exact ⟨rfl, rfl⟩

/-- What a run within the depth limit writes. Each node that is entered is named in the trace. Where
a node is refused, the trace ends with it, and one debug message more shows the summary of the tree,
the kind of the refusal and its description. -/
theorem messages_of_convert {configuration : Configuration} {e : Expression}
    (hadmits : Admits configuration e) :
    ((∀ n ∈ e.preorder, n.ownCheck = .ok ()) →
      (convert configuration e).records.map (fun r => (r.level, r.message)) =
        e.preorder.map fun n => ("TRACE", "Translating " ++ n.nodeName)) ∧
    ∀ before n after refusal, e.preorder = before ++ n :: after →
      (∀ b ∈ before, b.ownCheck = .ok ()) → n.ownCheck = .error (.unsupported refusal) →
      (convert configuration e).outcome = .error (.unsupported refusal) ∧
        (convert configuration e).records.map (fun r => (r.level, r.message)) =
          ((before ++ [n]).map fun n => ("TRACE", "Translating " ++ n.nodeName)) ++
            [("DEBUG", "Failed to translate expression '" ++ e.summary ++ "': " ++
              ("Unsupported expression " ++ refusal.kind ++ ": " ++ refusal.description))] := by
  have htrace (es : List Expression) : (es.map entry).map (fun r => (r.level, r.message)) =
      es.map fun n => ("TRACE", "Translating " ++ n.nodeName) := by
    rw [List.map_map]
    rfl
  rw [convert_of_admits hadmits]
  constructor
  · intro h
    rw [convertTree_of_passing h]
    exact htrace _
  · intro before n after refusal he hbefore hn
    rw [convertTree_of_failing he hbefore hn, ← htrace]
    exact ⟨rfl, List.map_append⟩

/-- A null check on a date, beside a cast: the date is refused, and the cast is never entered. -/
def dateAndCast : Expression :=
  .binary .and (.isNull (.field "d" .date)) (.cast (.field "x" .byte) .double)

theorem convert_dateAndCast :
    Admits .standard dateAndCast ∧
      (convert .standard dateAndCast).outcome = .error (.unsupported (.type "date")) ∧
      (convert .standard dateAndCast).records =
        [.entering "And", .entering "IsNull", .entering "AttributeReference",
          .failed dateAndCast.summary (.unsupported (.type "date"))] := by
  have hadmits : Admits .standard dateAndCast := by
    intro limit hl
    cases hl
    rw [Bool.eq_false_iff, Ne, Expression.exceedsDepth_iff]
    decide
  have hbefore : ∀ b ∈ [dateAndCast, .isNull (.field "d" .date)], b.ownCheck = .ok () := by
    intro b hb
    simp only [List.mem_cons, List.not_mem_nil, or_false] at hb
    rcases hb with rfl | rfl <;> rfl
  refine ⟨hadmits, ?_⟩
  exact (convert_follows_preorder hadmits).2 [dateAndCast, .isNull (.field "d" .date)]
    (.field "d" .date) [.cast (.field "x" .byte) .double, .field "x" .byte] _ rfl hbefore rfl

/-- The depth limit is exact and comes before every other check. The depth found by the walk is the
height, and the test that stops at the first node that lies too deep decides on the height as well.
So a tree is refused for its depth exactly when it is higher than the limit, whatever its nodes
are, and then that is all that is reported; on any other tree the limit makes no difference. -/
theorem convert_withMaxDepth (e : Expression) (limit : Nat) :
    e.height = 1 + (e.children.map Expression.height).foldr max 0 ∧
    e.depth = e.height ∧
    (e.exceedsDepth limit = true ↔ limit < e.height) ∧
    (∀ limit', (convert (.withMaxDepth limit) e).outcome = .error (.tooDeep limit') ↔
      limit' = limit ∧ limit < e.height) ∧
    convert (.withMaxDepth limit) e =
      if limit < e.height then ⟨[.rejected e.summary limit], .error (.tooDeep limit)⟩
      else convert .unbounded e := by
  refine ⟨e.height_eq, e.depth_eq_height, e.exceedsDepth_iff limit, fun limit' => ?_,
    convert_withMaxDepth_eq e limit⟩
  rw [convert_withMaxDepth_eq]
  by_cases h : limit < e.height
  · rw [if_pos h, and_iff_left h, eq_comm (a := limit')]
    simp
  · rw [if_neg h]
    exact iff_of_false (outcome_convertTree_ne_tooDeep e limit') fun ⟨_, hlt⟩ => h hlt

/-- The children of a converted tree are converted on their own under the same configuration. -/
theorem convert_of_mem_children {configuration : Configuration} {e c : Expression} {m : Mapping}
    (h : (convert configuration e).outcome = .ok m) (hc : c ∈ e.children) :
    (convert configuration c).outcome = .ok c.mapping := by
  obtain ⟨hadmits, htree⟩ := convert_eq_ok h
  have hpass := (outcome_convertTree_iff.mp htree).1
  have hchild : Admits configuration c := fun limit hl =>
    Expression.exceedsDepth_of_mem_children hc (hadmits limit hl)
  rw [convert_of_admits hchild, outcome_convertTree_iff]
  exact ⟨fun n hn => hpass n (Expression.mem_preorder_of_mem_children hc hn), rfl⟩

/-- The type of a mapping is the counterpart of the type that inference finds for the tree. For a
conditional it is also the type of both branches, converted on their own. -/
theorem type_of_convert {configuration : Configuration} {e : Expression} {m : Mapping}
    (h : (convert configuration e).outcome = .ok m) :
    ScalarType.ofSource (TypeTable.infer e).root = .ok m.type ∧
    ∀ predicate whenTrue whenFalse, e = .conditional predicate whenTrue whenFalse →
      (∃ mt, (convert configuration whenTrue).outcome = .ok mt ∧ mt.type = m.type) ∧
      ∃ mf, (convert configuration whenFalse).outcome = .ok mf ∧ mf.type = m.type := by
  obtain ⟨hpass, rfl⟩ := outcome_convertTree_iff.mp (convert_eq_ok h).2
  have hsupported : ∀ n ∈ e.preorder, n.IsSupported := fun n hn =>
    (Expression.ownCheck_eq_ok_iff n).mp (hpass n hn)
  constructor
  · rw [TypeTable.root_infer]
    exact (Expression.isMapped_declaredType hsupported).ofSource_eq
  · rintro predicate whenTrue whenFalse rfl
    obtain ⟨hsame, hmapped⟩ := hsupported _ (Expression.self_mem_preorder _)
    have htrue := convert_of_mem_children h (c := whenTrue) (by simp [Expression.children])
    have hfalse := convert_of_mem_children h (c := whenFalse) (by simp [Expression.children])
    refine ⟨⟨_, htrue, rfl⟩, ⟨_, hfalse, ?_⟩⟩
    show whenFalse.declaredType.scalar = whenTrue.declaredType.scalar
    rw [SourceType.eq_of_sameType hmapped hsame]

/-- A choice between a sum that widens to a double and a double. -/
def widenedChoice : Expression :=
  .conditional (.field "p" .boolean)
    (.binary .add (.field "i" .integer) (.alias (.field "d" .double) "x"))
    (.literal .null .double)

/-- The sum widens to a double, and the choice is a double like its other branch. -/
theorem type_of_widenedChoice :
    (convert .unbounded widenedChoice).outcome = .ok widenedChoice.mapping ∧
    ScalarType.ofSource (TypeTable.infer widenedChoice).root = .ok .double ∧
    ∃ m, (convert .unbounded (.literal .null .double)).outcome = .ok m ∧ m.type = .double := by
  have h : (convert .unbounded widenedChoice).outcome = .ok widenedChoice.mapping :=
    outcome_convertTree _
  obtain ⟨htype, hbranches⟩ := type_of_convert h
  exact ⟨h, htype, (hbranches _ _ _ rfl).2⟩

end Conversion

end ScoringMarkup
