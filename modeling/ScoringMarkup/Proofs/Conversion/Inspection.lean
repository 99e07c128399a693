import ScoringMarkup.Proofs.Conversion.Support
import ScoringMarkup.Proofs.Expression.Tables

/-!
# Conversion as an inspection of nodes

Checks before operands, checks at leaves and the descent from left to right amount to one thing:
conversion enters the nodes of a tree in pre-order, makes each node's own check as it enters, and
stops at the first that fails. The types that it looks up in the table of the tree are those that
the nodes declare by themselves. What it returns otherwise is the counterpart of the tree. The
outcome and the records of a run are read off the listing of the nodes.
-/

namespace ScoringMarkup

namespace Conversion

open Expression (preorder)

/-- Enters nodes one after the other and makes each one's own check. -/
def inspect : List Expression → Logged Unit
  | [] => return ()
  | e :: es => do
    Logged.record (.entering e.nodeName)
    Logged.ofOutcome e.ownCheck
    inspect es

/-- Nodes that have the same names and pass or fail the same checks are inspected alike. -/
theorem inspect_map {f : Expression → Expression} {es : List Expression}
    (hname : ∀ e ∈ es, (f e).nodeName = e.nodeName)
    (hcheck : ∀ e ∈ es, (f e).ownCheck = e.ownCheck) : inspect (es.map f) = inspect es := by
  induction es with
  | nil => rfl
  | cons e es ih =>
    have hrest := ih (fun n hn => hname n (List.mem_cons_of_mem _ hn))
      (fun n hn => hcheck n (List.mem_cons_of_mem _ hn))
    rw [List.map_cons, inspect, inspect, hname e (List.mem_cons_self ..),
      hcheck e (List.mem_cons_self ..), hrest]

theorem inspect_append (es es' : List Expression) :
    inspect (es ++ es') = inspect es >>= fun _ => inspect es' := by
  induction es with
  | nil => simp [inspect]
  | cons e es ih => simp [inspect, ih]

theorem outcome_inspect_cons (e : Expression) (es : List Expression) :
    (inspect (e :: es)).outcome = e.ownCheck.bind fun _ => (inspect es).outcome := by
  rw [inspect, Logged.outcome_bind, Logged.outcome_bind]
  rfl

/-- An inspection that fails ends with the refusal of a node. -/
theorem isUnsupported_of_inspect {es : List Expression} {error : ConversionError}
    (h : (inspect es).outcome = .error error) : error.isUnsupported = true := by
  induction es with
  | nil => cases h
  | cons e es ih =>
    rw [outcome_inspect_cons] at h
    cases hcheck : e.ownCheck with
    | error error' =>
      rw [hcheck] at h
      cases h
      exact Expression.isUnsupported_of_ownCheck hcheck
    | ok u =>
      rw [hcheck] at h
      exact ih h

/-- The record made on entering a node. -/
def entry (e : Expression) : LogRecord := .entering e.nodeName

/-- Nodes that all pass their checks are all entered. -/
theorem inspect_of_passing {es : List Expression} (h : ∀ n ∈ es, n.ownCheck = .ok ()) :
    inspect es = ⟨es.map entry, .ok ()⟩ := by
  induction es with
  | nil => rfl
  | cons e es ih =>
    rw [inspect, h e (List.mem_cons_self ..), ih fun n hn => h n (List.mem_cons_of_mem _ hn)]
    rfl

/-- The first node that fails its check is the last one entered, and its error is the outcome. -/
theorem inspect_of_failing {before after : List Expression} {n : Expression}
    {error : ConversionError} (hbefore : ∀ b ∈ before, b.ownCheck = .ok ())
    (hn : n.ownCheck = .error error) :
    inspect (before ++ n :: after) = ⟨(before ++ [n]).map entry, .error error⟩ := by
  have hstop : inspect (n :: after) = ⟨[entry n], .error error⟩ := by
    rw [inspect, hn]
    rfl
  rw [inspect_append, inspect_of_passing hbefore, hstop, List.map_append]
  rfl

/-- Some node is the first to fail, unless all pass. -/
theorem exists_failing {es : List Expression} (h : ¬ ∀ n ∈ es, n.ownCheck = .ok ()) :
    ∃ before n after error, es = before ++ n :: after ∧
      (∀ b ∈ before, b.ownCheck = .ok ()) ∧ n.ownCheck = .error error := by
  obtain ⟨n, hfind⟩ : ∃ n, es.find? (fun n => n.ownCheck ≠ .ok ()) = some n := by
    rw [← Option.isSome_iff_exists, List.find?_isSome]
    simpa using h
  obtain ⟨hn, before, after, rfl, hbefore⟩ := List.find?_eq_some_iff_append.mp hfind
  cases hcheck : n.ownCheck with
  | error error => exact ⟨before, n, after, error, rfl, by simpa using hbefore, hcheck⟩
  | ok u => simp [hcheck] at hn

/-- The chosen type of an arithmetic node is the one it declares. -/
theorem widen_eq_ok {e : Expression} {left right type : SourceType}
    (h : widen e left right = .ok type) : type = SourceType.ofOperands left right := by
  unfold widen at h
  split_ifs at h with hl hr
  · cases h
    rw [SourceType.ofOperands_of_accepts (Or.inl hl), if_pos hl]
  · cases h
    rw [SourceType.ofOperands_of_accepts (Or.inr hr), if_neg hl]

/-- A computed signature gives the function and the declared type of the node. -/
theorem binarySignature_eq_ok {op : BinaryOperator} {left right : Expression}
    {signature : String × ScalarType}
    (h : binarySignature op left right left.declaredType right.declaredType = .ok signature) :
    signature = (op.functionName, (Expression.binary op left right).declaredType.scalar) := by
  unfold binarySignature at h
  by_cases hw : op.isWidening = true
  · rw [Expression.declaredType_widening hw]
    have hname : op.symbol = op.functionName := by cases op <;> cases hw <;> rfl
    rw [if_pos hw] at h
    cases htype : widen (.binary op left right) left.declaredType right.declaredType with
    | error error =>
      rw [htype] at h
      cases h
    | ok type =>
      cases hscalar : ScalarType.ofSource type with
      | error error =>
        simp only [htype, Bind.bind, Except.bind, hscalar] at h
        cases h
      | ok scalar =>
        simp only [htype, Bind.bind, Except.bind, hscalar] at h
        cases h
        rw [hname, SourceType.scalar_of_ofSource hscalar, widen_eq_ok htype]
  · rw [if_neg hw] at h
    cases op <;> cases h <;> rfl

/-- What is made of a computed value does not matter to whether it could be computed. -/
private theorem map_unit_bind {α β : Type} (x : Except ConversionError α) (f : α → β) :
    (x >>= fun a => pure (f a)).map (fun _ => ()) = x.map fun _ => () := by
  cases x <;> rfl

/-- Widening and mapping the type fail as the node's own check does. -/
theorem widen_check (e : Expression) (left right : SourceType)
    (signature : ScalarType → String × ScalarType) :
    (widen e left right >>= fun type => ScalarType.ofSource type >>= fun scalar =>
      pure (signature scalar)).map (fun _ => ()) =
    if left.accepts right then left.check
    else if right.accepts left then right.check
    else .error (.unsupported (.operands e.nodeName e.summary left.name right.name)) := by
  unfold widen
  split
  · exact map_unit_bind ..
  · split
    · exact map_unit_bind ..
    · rfl

/-- A signature can be computed exactly when the node passes its own check. -/
theorem binarySignature_check (op : BinaryOperator) (left right : Expression) :
    (binarySignature op left right left.declaredType right.declaredType).map (fun _ => ()) =
      (Expression.binary op left right).ownCheck := by
  cases op
  case add | subtract | multiply | divide => exact widen_check ..
  all_goals rfl

/-- The computed type of a conditional is that of its first branch. -/
theorem conditionalType_eq_ok {predicate whenTrue whenFalse : Expression}
    {trueType falseType : SourceType} {scalar : ScalarType}
    (h : conditionalType predicate whenTrue whenFalse trueType falseType = .ok scalar) :
    scalar = trueType.scalar := by
  unfold conditionalType at h
  split at h
  · exact SourceType.scalar_of_ofSource h
  · cases h

/-- The type of a conditional can be computed exactly when the node passes its own check. -/
theorem conditionalType_check (predicate whenTrue whenFalse : Expression) :
    (conditionalType predicate whenTrue whenFalse whenTrue.declaredType
        whenFalse.declaredType).map (fun _ => ()) =
      (Expression.conditional predicate whenTrue whenFalse).ownCheck := by
  simp only [conditionalType, Expression.ownCheck]
  split <;> rfl

section Tree

open Expression

variable (root : Expression)

mutual

/-- Entering and converting a node of a tree, with types from the table of the tree, is inspecting
the nodes below in pre-order, with the mapping of the node as the result. -/
theorem entering_convertNode : ∀ (e : Expression) (trail : Trail),
    root.subtree? trail.reverse = some e →
    entering e (convertNode (.infer root) trail e) = inspect e.preorder >>= fun _ => pure e.mapping
  | .alias child name, trail, h => by
    rw [preorder_eq, entering, convertNode, entering_convertNode child _ (subtree?_child h rfl)]
    simp [inspect, children]
    rfl
  | .field name type, trail, h => by
    rw [preorder_eq, entering, convertNode,
      Logged.ofOutcome_bind fun _ => SourceType.scalar_of_ofSource]
    simp [inspect, children]
    rfl
  | .binary op left right, trail, h => by
    have hleft : root.subtree? (0 :: trail).reverse = some left := subtree?_child h rfl
    have hright : root.subtree? (1 :: trail).reverse = some right := subtree?_child h rfl
    -- Both operands stand in the tree of the table, which so gives the types that they declare.
    rw [preorder_eq, entering, convertNode, TypeTable.typeOf_infer hleft,
      TypeTable.typeOf_infer hright, Logged.ofOutcome_bind fun _ => binarySignature_eq_ok,
      binarySignature_check, entering_convertNode left _ hleft, entering_convertNode right _ hright]
    simp [inspect, inspect_append, children]
    rfl
  | .conditional predicate whenTrue whenFalse, trail, h => by
    have hpredicate : root.subtree? (0 :: trail).reverse = some predicate := subtree?_child h rfl
    have htrue : root.subtree? (1 :: trail).reverse = some whenTrue := subtree?_child h rfl
    have hfalse : root.subtree? (2 :: trail).reverse = some whenFalse := subtree?_child h rfl
    rw [preorder_eq, entering, convertNode, TypeTable.typeOf_infer htrue,
      TypeTable.typeOf_infer hfalse, Logged.ofOutcome_bind fun _ => conditionalType_eq_ok,
      conditionalType_check, entering_convertNode predicate _ hpredicate,
      entering_convertNode whenTrue _ htrue, entering_convertNode whenFalse _ hfalse]
    simp [inspect, inspect_append, children]
    rfl
  | .membership value list, trail, h => by
    have hlist : ∀ j c, list[j]? = some c → root.subtree? ((1 + j) :: trail).reverse = some c :=
      fun j c hc => subtree?_child h (by rw [Nat.add_comm]; exact hc)
    rw [preorder_eq, entering, convertNode, entering_convertNode value _ (subtree?_child h rfl),
      convertNodes_eq list trail 1 hlist]
    simp [inspect, inspect_append, children, ownCheck]
    rfl
  | .literal value type, trail, h => by
    rw [preorder_eq, entering, convertNode,
      Logged.ofOutcome_bind fun _ => SourceType.scalar_of_ofSource]
    simp [inspect, children]
    rfl
  | .negation child, trail, h => by
    rw [preorder_eq, entering, convertNode, entering_convertNode child _ (subtree?_child h rfl)]
    simp [inspect, children, ownCheck]
    rfl
  | .nullCheck check child, trail, h => by
    rw [preorder_eq, entering, convertNode, entering_convertNode child _ (subtree?_child h rfl)]
    cases check <;> simp [inspect, children, ownCheck] <;> rfl
  | .cast child type, trail, h => by
    rw [preorder_eq, entering, convertNode]
    rfl
  | .minus child, trail, h => by
    rw [preorder_eq, entering, convertNode]
    rfl
  | .call name arguments type, trail, h => by
    rw [preorder_eq, entering, convertNode]
    rfl

/-- The same for several children of a node, whose nodes are inspected child by child. -/
theorem convertNodes_eq : ∀ (es : List Expression) (trail : Trail) (i : Nat),
    (∀ j c, es[j]? = some c → root.subtree? ((i + j) :: trail).reverse = some c) →
    convertNodes (.infer root) trail i es =
      inspect (es.flatMap preorder) >>= fun _ => pure (counterparts es)
  | [], _, _, _ => rfl
  | e :: es, trail, i, h => by
    have hothers : ∀ j c, es[j]? = some c →
        root.subtree? ((i + 1 + j) :: trail).reverse = some c := by
      intro j c hc
      rw [Nat.add_right_comm]
      exact h (j + 1) c hc
    have hfirst : root.subtree? (i :: trail).reverse = some e := h 0 e rfl
    rw [convertNodes, entering_convertNode e _ hfirst, convertNodes_eq es trail (i + 1) hothers,
      List.flatMap_cons, inspect_append]
    simp only [bind_assoc, pure_bind]
    rfl

end

end Tree

/-- Making something of the result comes before or after the record of a failure. -/
private theorem recordFailure_bind_pure {α β : Type} (x : Logged α) (b : β)
    (r : ConversionError → LogRecord) :
    (x >>= fun _ => pure b).recordFailure r = x.recordFailure r >>= fun _ => pure b := by
  obtain ⟨records, outcome⟩ := x
  cases outcome with
  | error error => rfl
  | ok a =>
    show (Logged.mk (records ++ []) (.ok b)).recordFailure r = _
    rw [List.append_nil]
    show Logged.mk records (.ok b) = Logged.mk (records ++ []) (.ok b)
    rw [List.append_nil]

/-- Converting a tree is inspecting its nodes and reporting a failure of that, with the mapping of
the tree as the result. -/
theorem convertTree_eq (e : Expression) :
    convertTree e =
      (inspect e.preorder).recordFailure (.failed e.summary) >>= fun _ => pure e.mapping := by
  rw [convertTree, entering_convertNode e e [] rfl, recordFailure_bind_pure]

private theorem outcome_recordFailure {α : Type} (x : Logged α) (r : ConversionError → LogRecord) :
    (x.recordFailure r).outcome = x.outcome := by
  unfold Logged.recordFailure
  cases h : x.outcome <;> simp [h]

/-- The outcome of a tree is that of inspecting its nodes. -/
theorem outcome_convertTree (e : Expression) :
    (convertTree e).outcome = (inspect e.preorder).outcome.map fun _ => e.mapping := by
  rw [convertTree_eq, Logged.outcome_bind, outcome_recordFailure]
  cases (inspect e.preorder).outcome <;> rfl

/-- Without a depth limit a tree fails only by the refusal of a node. -/
theorem isUnsupported_of_convertTree {e : Expression} {error : ConversionError}
    (h : (convertTree e).outcome = .error error) : error.isUnsupported = true := by
  rw [outcome_convertTree] at h
  cases hi : (inspect e.preorder).outcome with
  | error error' =>
    rw [hi] at h
    cases h
    exact isUnsupported_of_inspect hi
  | ok u =>
    rw [hi] at h
    cases h

theorem outcome_convertTree_ne_tooDeep (e : Expression) (limit : Nat) :
    (convertTree e).outcome ≠ .error (.tooDeep limit) := by
  intro h
  cases isUnsupported_of_convertTree h

/-- A tree whose nodes all pass their checks is converted to its mapping. -/
theorem convertTree_of_passing {e : Expression} (h : ∀ n ∈ e.preorder, n.ownCheck = .ok ()) :
    convertTree e = ⟨e.preorder.map entry, .ok e.mapping⟩ := by
  rw [convertTree, entering_convertNode e e [] rfl, inspect_of_passing h]
  show Logged.mk (e.preorder.map entry ++ []) (.ok e.mapping) = _
  rw [List.append_nil]

/-- The first node that fails its check decides the error of the tree. -/
theorem convertTree_of_failing {e n : Expression} {before after : List Expression}
    {error : ConversionError} (he : e.preorder = before ++ n :: after)
    (hbefore : ∀ b ∈ before, b.ownCheck = .ok ()) (hn : n.ownCheck = .error error) :
    convertTree e =
      ⟨(before ++ [n]).map entry ++ [.failed e.summary error], .error error⟩ := by
  rw [convertTree, entering_convertNode e e [] rfl, he, inspect_of_failing hbefore hn]
  rfl

/-- All that the conversion of a tree can do: enter every node and give its mapping, or end behind
the first node that fails its check, with the refusal of that node. -/
theorem convertTree_cases (e : Expression) :
    ((∀ n ∈ e.preorder, n.ownCheck = .ok ()) ∧
      convertTree e = ⟨e.preorder.map entry, .ok e.mapping⟩) ∨
    ∃ before n after refusal, e.preorder = before ++ n :: after ∧
      (∀ b ∈ before, b.ownCheck = .ok ()) ∧ n.ownCheck = .error (.unsupported refusal) ∧
      convertTree e = ⟨(before ++ [n]).map entry ++ [.failed e.summary (.unsupported refusal)],
        .error (.unsupported refusal)⟩ := by
  by_cases h : ∀ n ∈ e.preorder, n.ownCheck = .ok ()
  · exact Or.inl ⟨h, convertTree_of_passing h⟩
  · obtain ⟨before, n, after, error, he, hbefore, hn⟩ := exists_failing h
    cases error with
    | unsupported refusal =>
      exact Or.inr ⟨before, n, after, refusal, he, hbefore, hn,
        convertTree_of_failing he hbefore hn⟩
    | tooDeep limit => cases Expression.isUnsupported_of_ownCheck hn

/-- A tree without a depth limit is converted exactly when all of its nodes pass their checks. -/
theorem outcome_convertTree_iff {e : Expression} {m : Mapping} :
    (convertTree e).outcome = .ok m ↔ (∀ n ∈ e.preorder, n.ownCheck = .ok ()) ∧ m = e.mapping := by
  rcases convertTree_cases e with ⟨hpass, htree⟩ | ⟨before, n, after, refusal, he, -, hn, htree⟩
  · rw [htree, and_iff_right hpass]
    simp [eq_comm]
  · rw [htree]
    refine iff_of_false (by simp) fun ⟨hpass, _⟩ => ?_
    rw [hpass n (he ▸ by simp)] at hn
    cases hn

/-- Without a depth limit, a tree is converted exactly when all of its nodes are supported. -/
theorem exists_convertTree_iff (e : Expression) :
    (∃ m, (convertTree e).outcome = .ok m) ↔ ∀ n ∈ e.preorder, n.IsSupported := by
  simp only [outcome_convertTree_iff, Expression.ownCheck_eq_ok_iff, exists_and_left, exists_eq,
    and_true]

/-- Whether the depth limit of a configuration, if it has one, lets a tree pass. -/
def Admits (configuration : Configuration) (e : Expression) : Prop :=
  ∀ limit, configuration.maxDepth = some limit → e.exceedsDepth limit = false

theorem admits_withMaxDepth {limit : Nat} {e : Expression} (h : e.height ≤ limit) :
    Admits (.withMaxDepth limit) e := by
  intro limit' hl
  cases hl
  rw [Bool.eq_false_iff, Ne, Expression.exceedsDepth_iff]
  exact Nat.not_lt.mpr h

/-- Within the limit a configuration makes no difference. -/
theorem convert_of_admits {configuration : Configuration} {e : Expression}
    (h : Admits configuration e) : convert configuration e = convertTree e := by
  unfold convert
  cases hd : configuration.maxDepth with
  | none => rfl
  | some limit => simp [h limit hd]

/-- All that a conversion can do: refuse the tree for its depth, with one record, or convert it
within the limit. -/
theorem convert_cases (configuration : Configuration) (e : Expression) :
    (∃ limit, configuration.maxDepth = some limit ∧ e.exceedsDepth limit = true ∧
      convert configuration e = ⟨[.rejected e.summary limit], .error (.tooDeep limit)⟩) ∨
    Admits configuration e ∧ convert configuration e = convertTree e := by
  by_cases hadmits : Admits configuration e
  · exact Or.inr ⟨hadmits, convert_of_admits hadmits⟩
  · simp only [Admits, not_forall, Bool.not_eq_false] at hadmits
    obtain ⟨limit, hlimit, hdeep⟩ := hadmits
    refine Or.inl ⟨limit, hlimit, hdeep, ?_⟩
    rw [convert, hlimit]
    dsimp only
    rw [if_pos hdeep]

/-- A tree higher than the limit is refused with one record; on any other the limit makes no
difference. -/
theorem convert_withMaxDepth_eq (e : Expression) (limit : Nat) :
    convert (.withMaxDepth limit) e =
      if limit < e.height then ⟨[.rejected e.summary limit], .error (.tooDeep limit)⟩
      else convertTree e := by
  show (if e.exceedsDepth limit = true then _ else convertTree e) = _
  simp only [Expression.exceedsDepth_iff]

/-- A tree that is converted lies within the limit, and all of its nodes pass their checks. -/
theorem convert_eq_ok {configuration : Configuration} {e : Expression} {m : Mapping}
    (h : (convert configuration e).outcome = .ok m) :
    Admits configuration e ∧ (convertTree e).outcome = .ok m := by
  rcases convert_cases configuration e with ⟨limit, -, -, hconvert⟩ | ⟨hadmits, hconvert⟩
  · rw [hconvert] at h
    cases h
  · rw [hconvert] at h
    exact ⟨hadmits, h⟩

end Conversion

end ScoringMarkup
