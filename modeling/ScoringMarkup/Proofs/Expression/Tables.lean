import Mathlib.Data.List.Perm.Basic
import Mathlib.Logic.Relation
import ScoringMarkup.Proofs.Expression.Places
import ScoringMarkup.Proofs.Expression.Walks

/-!
# What a table of declared types holds

A walk enters each node of its tree once, under its place and with its declared type. The steps
of the walk keep the results of finished children ready for the pending visits, so no step ever
misses a result or is left without a rule for the type of its node.
-/

namespace ScoringMarkup

namespace Expression

/-- The type of a node over the types of its children, where a rule gives one. -/
def ruledType? : Expression → List SourceType → Option SourceType
  | .field _ type, _ | .literal _ type, _ | .cast _ type, _ | .call _ _ type, _ => some type
  | .membership .., _ | .negation _, _ | .nullCheck .., _ => some .boolean
  | .binary op _ _, [left, right] => some (op.declaredType left right)
  | .alias .., [child] | .minus _, [child] => some child
  | .conditional .., [_, whenTrue, _] => some whenTrue
  | _, _ => none

/-- A node that no rule gives a type for has the void type. -/
theorem typeOver_eq_getD (e : Expression) (types : List SourceType) :
    e.typeOver types = (e.ruledType? types).getD .void := by
  unfold typeOver ruledType?
  split <;> simp_all

/-- The declared types of its children are under a rule for each node. -/
theorem ruledType?_children (e : Expression) :
    e.ruledType? (e.children.map declaredType) = some e.declaredType := by
  cases e <;> rfl

end Expression

namespace TypeTable

open Expression (declaredType)

/-- A walk enters the nodes of the listing, in another order. -/
theorem entries_perm (e : Expression) (trail : Expression.Trail) :
    (entries e trail).Perm
      (e.nodes.map fun (below, n) => (below.reverse ++ trail, n.declaredType)) := by
  induction e using Expression.induct_children generalizing trail with
  | step e ih =>
    rw [entries_eq, Expression.nodes_eq_flatMap, List.map_cons, List.map_flatMap]
    refine (List.perm_append_singleton _ _).trans (.cons _ (List.Perm.flatMap_left _ ?_))
    rintro ⟨c, i⟩ hc
    have hchild := ih c (List.fst_mem_of_mem_zipIdx hc) (i :: trail)
    simpa [Function.comp_def] using hchild

/-- Entering is inserting one entry after the other. -/
theorem Progress.types_enter (p : Progress) (more : List (Expression.Trail × SourceType)) :
    (p.enter more []).types = p.types.insertMany more := by
  induction more generalizing p with
  | nil => simp
  | cons entry more ih =>
    have hfirst : p.enter (entry :: more) [] = (p.enter [entry] []).enter more [] := by
      rw [enter_enter]
      rfl
    rw [hfirst, ih, Std.HashMap.insertMany_cons]
    rfl

/-- The table is made of the entries of the walk. -/
theorem types_infer (e : Expression) :
    (infer e).types = Std.HashMap.ofList (entries e []) := by
  have henter : (infer e).types = (Progress.enter ⟨∅, []⟩ (entries e []) []).types := by
    rw [infer_eq]
    rfl
  rw [henter, Progress.types_enter, Std.HashMap.ofList_eq_insertMany_empty]

/-- No place is entered twice. -/
theorem pairwise_entries (e : Expression) :
    (entries e []).Pairwise fun entry other => (entry.1 == other.1) = false := by
  have hperm := (entries_perm e []).map Prod.fst
  have hpaths : ((entries e []).map Prod.fst).Nodup := by
    have hreversed := e.nodup_paths.map List.reverse_injective
    rw [hperm.nodup_iff, List.map_map]
    simpa [Function.comp_def] using hreversed
  exact (List.pairwise_map.mp hpaths).imp fun hne => by simpa using hne

/-- The entries of a tree are the declared types of its nodes, each under its trail. -/
theorem mem_entries_iff {e : Expression} {trail : Expression.Trail} {type : SourceType} :
    (trail, type) ∈ entries e [] ↔
      ∃ n, e.subtree? trail.reverse = some n ∧ n.declaredType = type := by
  rw [(entries_perm e []).mem_iff]
  simp [Expression.mem_nodes_iff, List.reverse_eq_iff]

/-- The table has one entry for each node of the tree. -/
theorem size_infer (e : Expression) : (infer e).size = e.nodeCount := by
  rw [size, types_infer, Std.HashMap.size_ofList (pairwise_entries e),
    (entries_perm e []).length_eq, List.length_map, Expression.length_nodes]

/-- The table holds the declared types of the places of the tree and nothing else. -/
theorem getElem?_types_infer (e : Expression) (trail : Expression.Trail) :
    (infer e).types[trail]? = (e.subtree? trail.reverse).map declaredType := by
  rw [types_infer]
  cases h : e.subtree? trail.reverse with
  | some n =>
    have hentry := mem_entries_iff.mpr ⟨n, h, rfl⟩
    exact Std.HashMap.getElem?_ofList_of_mem (beq_self_eq_true trail) (pairwise_entries e) hentry
  | none =>
    refine Std.HashMap.getElem?_ofList_of_contains_eq_false ?_
    rw [Bool.eq_false_iff, Ne, List.contains_iff_mem, List.mem_map]
    rintro ⟨⟨trail', type⟩, hentry, rfl⟩
    obtain ⟨n, hn, -⟩ := mem_entries_iff.mp hentry
    rw [h] at hn
    cases hn

/-- The table records the declared type of each node of the tree under its place. -/
theorem get?_infer {e n : Expression} {trail : Expression.Trail}
    (h : e.subtree? trail.reverse = some n) :
    (infer e).get? (.inside trail n) = some n.declaredType := by
  rw [get?, getElem?_types_infer, h]
  rfl

/-- A node of the tree is looked up by its place, so its type is never found anew. -/
theorem typeOf_infer {e n : Expression} {trail : Expression.Trail}
    (h : e.subtree? trail.reverse = some n) :
    (infer e).typeOf (.inside trail n) = n.declaredType := by
  simp only [typeOf, get?_infer h]

/-- A state of a walk: what it has found, and the visits still pending. -/
structure State where
  progress : Progress
  visits : List Visit

namespace State

/-- The state in which the walk of a tree starts. -/
def start (e : Expression) : State := ⟨⟨∅, []⟩, [⟨[], e, false⟩]⟩

end State

/-- One step of a walk. -/
inductive Step : State → State → Prop
  | descend {p : Progress} {trail : Expression.Trail} {n : Expression} {visits : List Visit}
      (h : n.children ≠ []) :
      Step ⟨p, ⟨trail, n, false⟩ :: visits⟩
        ⟨p, Visit.ofChildren trail n ++ ⟨trail, n, true⟩ :: visits⟩
  | finish {p p' : Progress} {trail : Expression.Trail} {n : Expression} {childrenDone : Bool}
      {visits : List Visit} (h : childrenDone = true ∨ n.children = [])
      (hp : p.finish? trail n = some p') :
      Step ⟨p, ⟨trail, n, childrenDone⟩ :: visits⟩ ⟨p', visits⟩

/-- Each step brings a walk nearer to its end. -/
theorem Step.totalCost_lt {s s' : State} (h : Step s s') :
    Visit.totalCost s'.visits < Visit.totalCost s.visits := by
  cases h with
  | @descend p trail n visits h =>
    have hcount := n.nodeCount_eq
    simp only [Visit.totalCost_append, Visit.totalCost_cons, Visit.totalCost_ofChildren, Visit.cost]
    simp
    omega
  | @finish p p' trail n childrenDone visits h hp =>
    have hcount := n.nodeCount_eq
    simp only [Visit.totalCost_cons, Visit.cost]
    split <;> omega

/-- No walk goes on forever. -/
theorem wellFounded_step : WellFounded (Function.swap Step) :=
  Subrelation.wf Step.totalCost_lt (measure fun s : State => Visit.totalCost s.visits).wf

/-- A step changes nothing about the end of the walk. -/
theorem Step.walk_eq {s s' : State} (h : Step s s') :
    walk s.progress s.visits = walk s'.progress s'.visits := by
  cases h with
  | descend h =>
    rw [walk, if_pos (by simpa using h)]
  | @finish p p' trail n childrenDone visits h hp =>
    have hup : ¬(!childrenDone && !n.children.isEmpty) = true := by
      rcases h with rfl | h
      · simp
      · simp [h]
    rw [walk, if_neg hup, hp]

/-- A walk that ends is a run of steps. -/
theorem reaches_of_walk {p p' : Progress} {visits : List Visit} (h : walk p visits = some p') :
    Relation.ReflTransGen Step ⟨p, visits⟩ ⟨p', []⟩ := by
  fun_induction walk p visits with
  | case1 p =>
    obtain rfl := Option.some.inj h
    exact .refl
  | case2 p trail n childrenDone visits hdown ih =>
    obtain ⟨hdone, hchildren⟩ : childrenDone = false ∧ n.children ≠ [] := by simpa using hdown
    subst hdone
    exact .head (.descend hchildren) (ih h)
  | case3 => cases h
  | case4 p trail n childrenDone visits hup p'' hfinish ih =>
    have hready : childrenDone = true ∨ n.children = [] := by
      cases childrenDone <;> simp_all
    exact .head (.finish hready hfinish) (ih h)

/-- The walk comes to an end exactly where its steps lead. -/
theorem walk_eq_some_iff {p p' : Progress} {visits : List Visit} :
    walk p visits = some p' ↔ Relation.ReflTransGen Step ⟨p, visits⟩ ⟨p', []⟩ := by
  refine ⟨reaches_of_walk, fun h => ?_⟩
  have hwalk : ∀ s : State, Relation.ReflTransGen Step ⟨p, visits⟩ s →
      walk p visits = walk s.progress s.visits := by
    intro s hs
    induction hs with
    | refl => rfl
    | tail _ hstep ih => rw [ih, hstep.walk_eq]
  rw [hwalk _ h, walk]

/-- Results that lie ready for pending visits: the second visit of a node has the types of its
children on top, and either visit of a node leaves its type there for the visits behind. -/
inductive Ready : List SourceType → List Visit → Prop
  | done {results : List SourceType} : Ready results []
  | first {trail : Expression.Trail} {n : Expression} {results : List SourceType}
      {visits : List Visit} (h : Ready (n.declaredType :: results) visits) :
      Ready results (⟨trail, n, false⟩ :: visits)
  | second {trail : Expression.Trail} {n : Expression} {results : List SourceType}
      {visits : List Visit} (h : Ready (n.declaredType :: results) visits) :
      Ready ((n.children.map declaredType).reverse ++ results) (⟨trail, n, true⟩ :: visits)

namespace Ready

variable {results : List SourceType} {visits : List Visit} {trail : Expression.Trail}
  {n : Expression}

/-- The results that first visits of several trees add are those of the trees, the last one on
top. -/
theorem ofChildren (es : List Expression) (k : Nat)
    (h : Ready ((es.map declaredType).reverse ++ results) visits) :
    Ready results (((es.zipIdx k).map fun (c, i) => ⟨i :: trail, c, false⟩) ++ visits) := by
  induction es generalizing results k with
  | nil => exact h
  | cons c es ih =>
    -- The first tree is visited first, so its type comes to lie below those of the others.
    refine .first (ih (k + 1) ?_)
    simpa using h

/-- The type of a tree whose first visit is pending will lie on top of the results. -/
theorem of_first (h : Ready results (⟨trail, n, false⟩ :: visits)) :
    Ready (n.declaredType :: results) visits := by
  cases h with
  | first h => exact h

/-- A node that is finished next has the types of its children on top of the results. -/
theorem exists_results {childrenDone : Bool}
    (h : Ready results (⟨trail, n, childrenDone⟩ :: visits))
    (hnext : childrenDone = true ∨ n.children = []) :
    ∃ below, results = (n.children.map declaredType).reverse ++ below ∧
      Ready (n.declaredType :: below) visits := by
  cases h with
  | first h =>
    have hchildren : n.children = [] := by simpa using hnext
    exact ⟨results, by rw [hchildren]; rfl, h⟩
  | second h => exact ⟨_, rfl, h⟩

end Ready

/-- Finishing a node puts its type in the place of those of its children. -/
theorem Progress.results_finish? {p p' : Progress} {trail : Expression.Trail} {n : Expression}
    {below : List SourceType}
    (hresults : p.results = (n.children.map declaredType).reverse ++ below)
    (h : p.finish? trail n = some p') : p'.results = n.declaredType :: below := by
  have henter := Progress.finish?_enter ⟨p.types, below⟩ [] trail n
  have hp : Progress.enter ⟨p.types, below⟩ [] (n.children.map declaredType) = p := by
    rw [Progress.enter, ← hresults]
    rfl
  rw [hp, h] at henter
  rw [Option.some.inj henter]
  rfl

/-- Each step keeps the results ready. -/
theorem Step.ready {s s' : State} (h : Step s s') (hs : Ready s.progress.results s.visits) :
    Ready s'.progress.results s'.visits := by
  cases h with
  | descend h => exact .ofChildren _ 0 (.second hs.of_first)
  | finish h hp =>
    obtain ⟨below, hresults, hrest⟩ := hs.exists_results h
    rwa [← Progress.results_finish? hresults hp] at hrest

/-- The results lie ready in every state that a walk comes to. -/
theorem ready_of_reaches {e : Expression} {s : State}
    (h : Relation.ReflTransGen Step (.start e) s) :
    Ready s.progress.results s.visits := by
  induction h with
  | refl => exact .first .done
  | tail _ hstep ih => exact hstep.ready ih

namespace State

/-- Whether a node that is finished next finds a result for each of its children, and a rule that
gives its declared type over these results. -/
def IsServed : State → Prop
  | ⟨_, []⟩ => True
  | ⟨p, ⟨_, n, childrenDone⟩ :: _⟩ => childrenDone = true ∨ n.children = [] →
    n.children.length ≤ p.results.length ∧
      n.ruledType? (p.results.take n.children.length).reverse = some n.declaredType

end State

theorem Ready.isServed {s : State} (h : Ready s.progress.results s.visits) : s.IsServed := by
  obtain ⟨p, _ | ⟨⟨trail, n, childrenDone⟩, visits⟩⟩ := s
  · trivial
  · intro hnext
    obtain ⟨below, hresults, -⟩ := h.exists_results hnext
    have hlength : ((n.children.map declaredType).reverse).length = n.children.length := by simp
    constructor
    · rw [hresults, List.length_append, hlength]
      exact Nat.le_add_right _ _
    · rw [hresults, ← hlength, List.take_left, List.reverse_reverse,
        Expression.ruledType?_children]

/-- The walk over a tree ends with its table and with the type of the root as its only result. -/
theorem walk_start (e : Expression) :
    walk ⟨∅, []⟩ [⟨[], e, false⟩] = some ⟨(infer e).types, [e.declaredType]⟩ := by
  rw [walk_visit, walk, infer_eq]
  rfl

/-- The walk over a tree ends, with the type of the root as its only result, and no step of it
misses a result or falls back to the void type for want of a rule. Its table gives each node of
the tree, once, the type that the node declares by itself. -/
theorem infer_declaredType (e : Expression) :
    Acc (Function.swap Step) (.start e) ∧
      (∀ p, Relation.ReflTransGen Step (.start e) ⟨p, []⟩ ↔
        p = ⟨(infer e).types, [e.declaredType]⟩) ∧
      (∀ n types, Expression.typeOver n types = (n.ruledType? types).getD .void) ∧
      (∀ s, Relation.ReflTransGen Step (.start e) s → s.IsServed) ∧
      (infer e).root = e.declaredType ∧
      (infer e).size = e.nodeCount ∧
      (∀ trail : Expression.Trail,
        (infer e).types[trail]? = (e.subtree? trail.reverse).map declaredType) ∧
      ∀ (trail : Expression.Trail) n, e.subtree? trail.reverse = some n →
        (infer e).get? (.inside trail n) = some n.declaredType ∧
          (infer e).typeOf (.inside trail n) = n.declaredType ∧
          (infer n).root = n.declaredType := by
  have hend (p : Progress) : Relation.ReflTransGen Step (.start e) ⟨p, []⟩ ↔
      p = ⟨(infer e).types, [e.declaredType]⟩ := by
    rw [State.start, ← walk_eq_some_iff, walk_start, Option.some_inj, eq_comm]
  have hserved (s : State) (hs : Relation.ReflTransGen Step (.start e) s) : s.IsServed :=
    (ready_of_reaches hs).isServed
  refine ⟨wellFounded_step.apply _, hend, Expression.typeOver_eq_getD, hserved, root_infer e,
    size_infer e, getElem?_types_infer e, fun trail n hn => ?_⟩
  exact ⟨get?_infer hn, typeOf_infer hn, root_infer n⟩

/-- A call without arguments is finished at its first visit, without a result to take. -/
theorem infer_sumWithCall :
    let call : Expression := .call "today" [] .integer
    let right : Expression := .alias (.field "x" .double) "y"
    let e : Expression := .binary .add call right
    State.IsServed ⟨⟨∅, []⟩, [⟨[0], call, false⟩, ⟨[1], right, false⟩, ⟨[], e, true⟩]⟩ ∧
      (infer e).size = 4 ∧ (infer e).typeOf (.inside [0] call) = .integer ∧
      (infer e).get? (.inside [0, 1] (.field "x" .double)) = some .double := by
  intro call right e
  obtain ⟨-, -, -, hserved, -, hsize, -, hnodes⟩ := infer_declaredType e
  have hdown : Step (.start e)
      ⟨⟨∅, []⟩, [⟨[0], call, false⟩, ⟨[1], right, false⟩, ⟨[], e, true⟩]⟩ :=
    .descend (by simp [e, Expression.children])
  exact ⟨hserved _ (.single hdown), hsize, (hnodes [0] call rfl).2.1, (hnodes [0, 1] _ rfl).1⟩

end TypeTable

end ScoringMarkup
