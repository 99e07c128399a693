import Mathlib.Data.List.Nodup
import ScoringMarkup.Expression.Fold

/-!
# Places in source expressions

The listing of the nodes of a tree has every place of the tree, once and with the subtree that
stands there, so it is as long as the tree has nodes.
-/

namespace ScoringMarkup

namespace Expression

/-- A place is the root, or a place in a child behind the number of the child. -/
theorem nodes_eq_flatMap (e : Expression) :
    e.nodes = ([], e) :: e.children.zipIdx.flatMap fun (c, i) =>
      c.nodes.map fun (path, n) => (i :: path, n) := by
  rw [nodes_eq, List.zipIdx_map, List.map_map, List.flatMap_def]
  rfl

/-- The nodes below the root are the nodes of the children, behind their numbers. -/
theorem mem_nodes_cons_iff {e n : Expression} {i : Nat} {path : Path} :
    (i :: path, n) ∈ e.nodes ↔ ∃ c, e.children[i]? = some c ∧ (path, n) ∈ c.nodes := by
  rw [nodes_eq_flatMap, List.mem_cons, List.mem_flatMap]
  constructor
  · rintro (h | ⟨⟨c, j⟩, hc, hn⟩)
    · simp at h
    · obtain ⟨⟨path', n'⟩, hn', heq⟩ := List.mem_map.mp hn
      obtain ⟨⟨rfl, rfl⟩, rfl⟩ : (j = i ∧ path' = path) ∧ n' = n := by simpa using heq
      exact ⟨c, List.mk_mem_zipIdx_iff_getElem?.mp hc, hn'⟩
  · rintro ⟨c, hc, hn⟩
    exact Or.inr ⟨(c, i), List.mk_mem_zipIdx_iff_getElem?.mpr hc,
      List.mem_map.mpr ⟨(path, n), hn, rfl⟩⟩

/-- At the empty path there is the tree itself. -/
theorem mem_nodes_nil_iff {e n : Expression} : ([], n) ∈ e.nodes ↔ n = e := by
  rw [nodes_eq_flatMap, List.mem_cons, List.mem_flatMap]
  constructor
  · rintro (h | ⟨⟨c, j⟩, -, hn⟩)
    · exact (Prod.mk.inj h).2
    · simp at hn
  · rintro rfl
    exact Or.inl rfl

/-- The listing pairs each place of a tree with the subtree there. -/
theorem mem_nodes_iff {e n : Expression} {path : Path} :
    (path, n) ∈ e.nodes ↔ e.subtree? path = some n := by
  induction path generalizing e with
  | nil => rw [mem_nodes_nil_iff, subtree?, Option.some_inj, eq_comm]
  | cons i path ih => simp only [mem_nodes_cons_iff, ih, subtree?, Option.bind_eq_some_iff]

/-- The place of a child is that of its parent with the number of the child. -/
theorem subtree?_append_child {e n c : Expression} {path : Path} {i : Nat}
    (h : e.subtree? path = some n) (hc : n.children[i]? = some c) :
    e.subtree? (path ++ [i]) = some c := by
  induction path generalizing e with
  | nil =>
    obtain rfl := Option.some.inj h
    rw [List.nil_append, subtree?, hc]
    rfl
  | cons j path ih =>
    obtain ⟨child, hchild, hn⟩ := Option.bind_eq_some_iff.mp h
    rw [List.cons_append, subtree?, hchild]
    exact ih hn

/-- The trail of a child is that of its parent behind the number of the child. -/
theorem subtree?_child {e n c : Expression} {trail : Trail} {i : Nat}
    (h : e.subtree? trail.reverse = some n) (hc : n.children[i]? = some c) :
    e.subtree? (i :: trail).reverse = some c := by
  rw [List.reverse_cons]
  exact subtree?_append_child h hc

/-- No place is listed twice. -/
theorem nodup_paths (e : Expression) : (e.nodes.map Prod.fst).Nodup := by
  induction e using induct_children with
  | step e ih =>
    rw [nodes_eq_flatMap, List.map_cons, List.map_flatMap, List.nodup_cons]
    constructor
    · simp
    · rw [List.nodup_flatMap]
      constructor
      · rintro ⟨c, i⟩ hc
        have hinj : Function.Injective (List.cons i) := List.cons_injective
        have hchild := (ih c (List.fst_mem_of_mem_zipIdx hc)).map hinj
        simpa [Function.comp_def] using hchild
      · -- Places in different children begin with different numbers.
        have hnumbers : (e.children.zipIdx.map Prod.snd).Nodup := by
          rw [List.zipIdx_map_snd]
          exact List.nodup_range'
        refine (List.pairwise_map.mp hnumbers).imp fun {x y} hne => List.disjoint_left.mpr ?_
        intro path hx hy
        simp only [List.map_map, List.mem_map] at hx hy
        obtain ⟨_, -, rfl⟩ := hx
        obtain ⟨_, -, heq⟩ := hy
        exact hne (List.cons.inj heq).1.symm

/-- There are as many places as nodes. -/
theorem length_nodes (e : Expression) : e.nodes.length = e.nodeCount := by
  induction e using induct_children with
  | step e ih =>
    have hbelow : (e.children.zipIdx.map fun (c, i) => c.nodes.length) =
        e.children.map nodeCount := by
      have hfst := congrArg (List.map nodeCount) (List.zipIdx_map_fst 0 e.children)
      rw [← hfst, List.map_map]
      exact List.map_congr_left fun (c, i) hc => ih c (List.fst_mem_of_mem_zipIdx hc)
    rw [nodes_eq_flatMap, nodeCount_eq, List.length_cons, List.length_flatMap, Nat.add_comm,
      ← List.sum_eq_foldr, ← hbelow]
    simp only [List.length_map]

end Expression

end ScoringMarkup
