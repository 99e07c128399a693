import ScoringMarkup.Expression.Fold

/-!
# Depth of source expressions

The height of a tree is defined by recursion on it. Depth and the test against a limit walk the
tree with a list of pending nodes instead, so that deep trees need no deep recursion; the test
stops at the first node that lies too deep.
-/

namespace ScoringMarkup

namespace Expression

/-- The number of nodes on the longest path from the root to a leaf. -/
def height : Expression → Nat := fold fun _ heights => 1 + heights.foldr max 0

/-- A tree is one level higher than its highest child, and a leaf has one level. -/
theorem height_eq (e : Expression) :
    e.height = 1 + (e.children.map height).foldr max 0 := by
  rw [height, fold_eq]

/-- Nodes still to be visited, each with its level. -/
abbrev Pending := List (Expression × Nat)

namespace Pending

/-- The nodes of all pending trees. -/
def nodeCount (pending : Pending) : Nat := pending.foldr (fun p count => p.1.nodeCount + count) 0

/-- Replaces a pending node by its children, one level further down; the last child is the next
one to be visited. -/
def descend (e : Expression) (level : Nat) (pending : Pending) : Pending :=
  (e.children.map fun child => (child, level + 1)).reverse ++ pending

/-- A pending tree is visited with all its nodes. -/
theorem nodeCount_cons (e : Expression) (level : Nat) (pending : Pending) :
    nodeCount ((e, level) :: pending) = e.nodeCount + nodeCount pending := rfl

/-- Going down to the children leaves one node less to visit. -/
theorem nodeCount_descend (e : Expression) (level : Nat) (pending : Pending) :
    nodeCount (descend e level pending) + 1 = nodeCount ((e, level) :: pending) := by
  have general : ∀ (es : List Expression) (rest : Pending),
      nodeCount ((es.map fun child => (child, level + 1)).reverse ++ rest) =
        (es.map Expression.nodeCount).foldr (· + ·) 0 + nodeCount rest := by
    intro es
    induction es with
    | nil => exact fun rest => (Nat.zero_add _).symm
    | cons c es ih =>
      intro rest
      rw [List.map_cons, List.reverse_cons, List.append_assoc, List.singleton_append, ih,
        nodeCount_cons, List.map_cons, List.foldr_cons]
      omega
  rw [nodeCount_cons, Expression.nodeCount_eq e, descend, general]
  omega

/-- The largest level of any node below, or the one already seen. -/
def deepest (seen : Nat) : Pending → Nat
  | [] => seen
  | (e, level) :: pending => deepest (max seen level) (descend e level pending)
termination_by pending => nodeCount pending
decreasing_by
  have := nodeCount_descend e level pending
  omega

/-- Whether some node lies below the given level. -/
def crosses (limit : Nat) : Pending → Bool
  | [] => false
  | (e, level) :: pending => decide (limit < level) || crosses limit (descend e level pending)
termination_by pending => nodeCount pending
decreasing_by
  have := nodeCount_descend e level pending
  omega

end Pending

/-- The number of levels of a tree. -/
def depth (e : Expression) : Nat := Pending.deepest 0 [(e, 1)]

/-- Whether a tree has more levels than the limit. -/
def exceedsDepth (e : Expression) (limit : Nat) : Bool := Pending.crosses limit [(e, 1)]

end Expression

end ScoringMarkup
