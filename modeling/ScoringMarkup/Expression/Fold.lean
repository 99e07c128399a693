import ScoringMarkup.Expression.Basic

/-!
# Folding over source expressions

One pass from the leaves to the root serves every measure and listing of a tree: a node's result
is made from the node and the results of its children in order (`fold_eq`). Proofs about such
results go by induction on the children (`Expression.induct_children`).
-/

namespace ScoringMarkup

namespace Expression

variable {α : Type}

mutual

/-- Combines each node with the results of its children, from the leaves up. -/
def fold (combine : Expression → List α → α) : Expression → α
  | .alias child name => combine (.alias child name) [fold combine child]
  | .field name type => combine (.field name type) []
  | .binary op left right =>
    combine (.binary op left right) [fold combine left, fold combine right]
  | .conditional predicate whenTrue whenFalse =>
    combine (.conditional predicate whenTrue whenFalse)
      [fold combine predicate, fold combine whenTrue, fold combine whenFalse]
  | .membership value list =>
    combine (.membership value list) (fold combine value :: foldList combine list)
  | .literal value type => combine (.literal value type) []
  | .negation child => combine (.negation child) [fold combine child]
  | .nullCheck check child => combine (.nullCheck check child) [fold combine child]
  | .cast child type => combine (.cast child type) [fold combine child]
  | .minus child => combine (.minus child) [fold combine child]
  | .call name arguments type =>
    combine (.call name arguments type) (foldList combine arguments)

/-- The results of a list of trees. -/
def foldList (combine : Expression → List α → α) : List Expression → List α
  | [] => []
  | e :: es => fold combine e :: foldList combine es

end

/-- The trees of a list are folded one by one. -/
theorem foldList_eq_map (combine : Expression → List α → α) (es : List Expression) :
    foldList combine es = es.map (fold combine) := by
  induction es with
  | nil => rfl
  | cons e es ih => simp [foldList, ih]

/-- A node's result is made from the results of its children. -/
theorem fold_eq (combine : Expression → List α → α) (e : Expression) :
    fold combine e = combine e (e.children.map (fold combine)) := by
  cases e <;> simp [fold, children, foldList_eq_map]

/-- What holds of a node whenever it holds of its children holds of every tree. -/
theorem induct_children {motive : Expression → Prop}
    (step : ∀ e : Expression, (∀ c ∈ e.children, motive c) → motive e) (e : Expression) :
    motive e :=
  step e fun c hc =>
    have := sizeOf_lt_of_mem_children hc
    induct_children step c
termination_by sizeOf e

/-- The number of nodes. -/
def nodeCount : Expression → Nat := fold fun _ counts => 1 + counts.foldr (· + ·) 0

/-- A tree has the nodes of its children and one more. -/
theorem nodeCount_eq (e : Expression) :
    e.nodeCount = 1 + (e.children.map nodeCount).foldr (· + ·) 0 := by
  rw [nodeCount, fold_eq]

/-- A place in a tree: the child numbers from the root down. -/
abbrev Path := List Nat

/-- A place in a tree as the way back to the root: the child numbers of its path, the last one
first. The trails of all children of a node share the trail of the node, so those of a deep tree
take no more room than its nodes. -/
abbrev Trail := List Nat

/-- The subtree at a place, if the tree has that place. -/
def subtree? (e : Expression) : Path → Option Expression
  | [] => some e
  | i :: path => e.children[i]?.bind fun child => child.subtree? path

/-- All nodes with their places, each parent before its children. -/
def nodes : Expression → List (Path × Expression) :=
  fold fun e below =>
    ([], e) :: (below.zipIdx.map fun (ns, i) => ns.map fun (path, n) => (i :: path, n)).flatten

/-- The nodes of a tree are the tree itself and those under its children, in order. -/
theorem nodes_eq (e : Expression) :
    e.nodes = ([], e) :: ((e.children.map nodes).zipIdx.map fun (ns, i) =>
      ns.map fun (path, n) => (i :: path, n)).flatten := by
  rw [nodes, fold_eq]

end Expression

end ScoringMarkup
