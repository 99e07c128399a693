import Mathlib.Data.List.Basic
import Mathlib.Order.MinMax
import ScoringMarkup.Expression.Depth
import ScoringMarkup.Expression.TypeTable

/-!
# Walks over source expressions

The walks with a list of pending nodes give what the recursive definitions give. The test against
a depth limit, which stops at the first node that lies too deep, decides on the height; the walk
that fills a table of types ends with the declared type of the tree and one entry per node. The
listing of all nodes is unfolded without their places.
-/

namespace ScoringMarkup

namespace Expression

/-- All nodes, each parent before its children and these in evaluation order. -/
def preorder (e : Expression) : List Expression := e.nodes.map (·.2)

/-- Prefixing places with child numbers changes no node. -/
private theorem map_nodes_zipIdx (es : List Expression) (k : Nat) :
    ((es.map nodes).zipIdx k).map (fun (ns, i) => (ns.map fun (path, n) => (i :: path, n)).map
      (·.2)) = es.map preorder := by
  induction es generalizing k with
  | nil => rfl
  | cons e es ih =>
    rw [List.map_cons, List.zipIdx_cons, List.map_cons, ih, List.map_cons]
    simp [preorder, Function.comp_def]

/-- The listing starts with the root and goes on with the listings of the children. -/
theorem preorder_eq (e : Expression) : e.preorder = e :: e.children.flatMap preorder := by
  rw [preorder, nodes_eq, List.map_cons, List.map_flatten, List.map_map, List.flatMap_def,
    ← map_nodes_zipIdx e.children 0]
  rfl

/-- A tree is a node of itself. -/
theorem self_mem_preorder (e : Expression) : e ∈ e.preorder := by
  rw [preorder_eq]
  exact List.mem_cons_self ..

/-- The nodes of a child are nodes of its parent. -/
theorem mem_preorder_of_mem_children {e c n : Expression} (hc : c ∈ e.children)
    (hn : n ∈ c.preorder) : n ∈ e.preorder := by
  rw [preorder_eq]
  exact List.mem_cons_of_mem _ (List.mem_flatMap.mpr ⟨c, hc, hn⟩)

/-- What holds of all nodes holds of the root and of all nodes of its children. -/
theorem forall_mem_preorder_iff {e : Expression} {P : Expression → Prop} :
    (∀ n ∈ e.preorder, P n) ↔ P e ∧ ∀ c ∈ e.children, ∀ n ∈ c.preorder, P n := by
  rw [preorder_eq]
  simp only [List.forall_mem_cons, List.forall_mem_flatMap]

/-- A number lies below a maximum exactly when it lies below one of the heights. -/
theorem lt_foldr_max {n : Nat} {heights : List Nat} :
    n < heights.foldr max 0 ↔ ∃ h ∈ heights, n < h := by
  induction heights with
  | nil => simp
  | cons h heights ih =>
    rw [List.foldr_cons, lt_max_iff, ih]
    simp

/-- A tree that starts on a level reaches beyond a limit exactly when the level itself does, or
a child of the root that starts one level further down. -/
theorem lt_add_height_iff (e : Expression) (limit level : Nat) :
    limit < level + e.height ↔
      limit ≤ level ∨ ∃ c ∈ e.children, limit < level + 1 + c.height := by
  have hroot : limit < level + e.height ↔
      limit ≤ level ∨ limit - (level + 1) < (e.children.map height).foldr max 0 := by
    rw [height_eq]
    omega
  rw [hroot, lt_foldr_max]
  simp only [List.mem_map, exists_exists_and_eq_and]
  constructor
  · rintro (h | ⟨c, hc, h⟩)
    · exact Or.inl h
    · exact Or.inr ⟨c, hc, by omega⟩
  · rintro (h | ⟨c, hc, h⟩)
    · exact Or.inl h
    · have hpos : c.height ≠ 0 := by
        rw [height_eq]
        omega
      by_cases hl : limit ≤ level
      · exact Or.inl hl
      · exact Or.inr ⟨c, hc, by omega⟩

/-- The test with early exit finds a node below the limit exactly when some pending tree
reaches there. -/
theorem Pending.crosses_iff (limit : Nat) (pending : Pending) :
    Pending.crosses limit pending = true ↔ ∃ p ∈ pending, limit + 1 < p.2 + p.1.height := by
  fun_induction Pending.crosses limit pending with
  | case1 => simp
  | case2 e level pending ih =>
    rw [Bool.or_eq_true, decide_eq_true_eq, ih, List.exists_mem_cons_iff, lt_add_height_iff]
    simp only [Pending.descend, List.mem_append, List.mem_reverse, List.mem_map]
    constructor
    · rintro (h | ⟨p, ⟨c, hc, rfl⟩ | hp, h⟩)
      · exact Or.inl (Or.inl h)
      · exact Or.inl (Or.inr ⟨c, hc, h⟩)
      · exact Or.inr ⟨p, hp, h⟩
    · rintro ((h | ⟨c, hc, h⟩) | ⟨p, hp, h⟩)
      · exact Or.inl h
      · exact Or.inr ⟨(c, level + 1), Or.inl ⟨c, hc, rfl⟩, h⟩
      · exact Or.inr ⟨p, Or.inr hp, h⟩

/-- The test against a limit decides on the height. -/
theorem exceedsDepth_iff (e : Expression) (limit : Nat) :
    e.exceedsDepth limit = true ↔ limit < e.height := by
  rw [exceedsDepth, Pending.crosses_iff, List.exists_mem_cons_iff]
  simp only [List.not_mem_nil, false_and, exists_false, or_false]
  omega

/-- The walk that looks for the largest level passes a number exactly when that number was passed
before or the test with early exit finds a node below it. -/
theorem Pending.lt_deepest_iff (n seen : Nat) (pending : Pending) :
    n < Pending.deepest seen pending ↔ n < seen ∨ Pending.crosses n pending = true := by
  fun_induction Pending.deepest seen pending with
  | case1 => simp [Pending.crosses]
  | case2 seen e level pending ih =>
    rw [ih, lt_max_iff, Pending.crosses, Bool.or_eq_true, decide_eq_true_eq, or_assoc]

/-- The walk that looks for the largest level finds the height. -/
theorem depth_eq_height (e : Expression) : e.depth = e.height := by
  refine eq_of_forall_lt_iff fun n => ?_
  rw [depth, Pending.lt_deepest_iff, ← exceedsDepth_iff, exceedsDepth]
  simp

/-- A child is lower than its parent. -/
theorem height_lt_of_mem_children {e c : Expression} (h : c ∈ e.children) :
    c.height < e.height := by
  have hc := (lt_add_height_iff e c.height 0).mpr (Or.inr ⟨c, h, by omega⟩)
  omega

/-- A tree is at most one level higher than its highest child. -/
theorem height_le_succ {e : Expression} {n : Nat} (h : ∀ c ∈ e.children, c.height ≤ n) :
    e.height ≤ n + 1 := by
  have hbelow : (e.children.map height).foldr max 0 ≤ n := by
    by_contra hlt
    obtain ⟨k, hk, hn⟩ := lt_foldr_max.mp (Nat.lt_of_not_le hlt)
    obtain ⟨c, hc, rfl⟩ := List.mem_map.mp hk
    exact Nat.not_lt.mpr (h c hc) hn
  rw [height_eq]
  omega

/-- A tree within a limit has all its children within it. -/
theorem exceedsDepth_of_mem_children {e c : Expression} {limit : Nat} (hc : c ∈ e.children)
    (he : e.exceedsDepth limit = false) : c.exceedsDepth limit = false := by
  have hlt := height_lt_of_mem_children hc
  rw [Bool.eq_false_iff, Ne, exceedsDepth_iff] at he ⊢
  omega

end Expression

namespace TypeTable

/-- The entries that a walk makes for the nodes of a tree at a place, in the order in which the
nodes are finished: the children of a node before the node. -/
def entries : Expression → Expression.Trail → List (Expression.Trail × SourceType) :=
  Expression.fold fun e below trail =>
    (below.zipIdx.flatMap fun (entriesBelow, i) => entriesBelow (i :: trail)) ++
      [(trail, e.declaredType)]

/-- The entries of a tree are those under its children, and its own. -/
theorem entries_eq (e : Expression) (trail : Expression.Trail) :
    entries e trail = (e.children.zipIdx.flatMap fun (c, i) => entries c (i :: trail)) ++
      [(trail, e.declaredType)] := by
  rw [entries, Expression.fold_eq, List.zipIdx_map, List.flatMap_map]
  rfl

namespace Progress

/-- What a walk has found after more entries and after more finished nodes, the last one first. -/
def enter (p : Progress) (more : List (Expression.Trail × SourceType)) (types : List SourceType) :
    Progress :=
  ⟨more.foldl (fun known (trail, type) => known.insert trail type) p.types,
    types.reverse ++ p.results⟩

@[simp] theorem enter_nil (p : Progress) : p.enter [] [] = p := rfl

/-- Entries are made one after the other or all at once. -/
theorem enter_enter (p : Progress) (more more' : List (Expression.Trail × SourceType))
    (types types' : List SourceType) :
    (p.enter more types).enter more' types' = p.enter (more ++ more') (types ++ types') := by
  simp [enter]

/-- The types of the children decide the type of a node. -/
theorem typeOver_children (e : Expression) :
    e.typeOver (e.children.map Expression.declaredType) = e.declaredType := by
  cases e <;> rfl

/-- A node whose children are finished replaces their types by its own. -/
theorem finish?_enter (p : Progress) (more : List (Expression.Trail × SourceType))
    (trail : Expression.Trail) (e : Expression) :
    (p.enter more (e.children.map Expression.declaredType)).finish? trail e =
      some (p.enter (more ++ [(trail, e.declaredType)]) [e.declaredType]) := by
  simp [enter, finish?, typeOver_children]

end Progress

/-- First visits of several trees are finished in order when each of them can be. -/
theorem walk_ofChildren (trail : Expression.Trail) (es : List Expression)
    (hes : ∀ c ∈ es, ∀ (trail : Expression.Trail) (p : Progress) (visits : List Visit),
      walk p (⟨trail, c, false⟩ :: visits) =
        walk (p.enter (entries c trail) [c.declaredType]) visits)
    (k : Nat) (p : Progress) (visits : List Visit) :
    walk p (((es.zipIdx k).map fun (c, i) => ⟨i :: trail, c, false⟩) ++ visits) =
      walk (p.enter ((es.zipIdx k).flatMap fun (c, i) => entries c (i :: trail))
        (es.map Expression.declaredType)) visits := by
  induction es generalizing k p with
  | nil => rfl
  | cons c es ih =>
    rw [List.zipIdx_cons, List.map_cons, List.cons_append, hes c (List.mem_cons_self ..),
      ih fun c' hc => hes c' (List.mem_cons_of_mem _ hc), Progress.enter_enter,
      List.flatMap_cons, List.map_cons, List.singleton_append]

/-- The first visit of a tree is finished with its declared type on top of the results. -/
theorem walk_visit (e : Expression) (trail : Expression.Trail) (p : Progress)
    (visits : List Visit) :
    walk p (⟨trail, e, false⟩ :: visits) =
      walk (p.enter (entries e trail) [e.declaredType]) visits := by
  induction e using Expression.induct_children generalizing trail p visits with
  | step e ih =>
    have hfinish := Progress.finish?_enter p
      (e.children.zipIdx.flatMap fun (c, i) => entries c (i :: trail)) trail e
    rw [← entries_eq] at hfinish
    rw [walk]
    by_cases hc : e.children = []
    · simp only [hc, List.zipIdx_nil, List.flatMap_nil, List.map_nil, Progress.enter_nil]
        at hfinish
      simp [hc, hfinish]
    · rw [if_pos (by simpa using hc), Visit.ofChildren, walk_ofChildren trail e.children ih, walk]
      simp [hfinish]

/-- The table of a tree holds the entries of its nodes, and the declared type as that of the
root. -/
theorem infer_eq (e : Expression) :
    infer e = ⟨(entries e []).foldl (fun known (trail, type) => known.insert trail type) ∅,
      e.declaredType⟩ := by
  rw [infer, walk_visit, walk]
  rfl

/-- The table gives the root its declared type. -/
@[simp] theorem root_infer (e : Expression) : (infer e).root = e.declaredType := by
  rw [infer_eq]

end TypeTable

end ScoringMarkup
