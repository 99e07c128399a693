import Std.Data.HashMap
import ScoringMarkup.Expression.DeclaredType
import ScoringMarkup.Expression.Fold

/-!
# Tables of declared types

The declared types of all nodes of one tree, found in a single walk that keeps its pending nodes
and the results of finished children on two stacks. A node is looked up by its place in the tree,
given as the way back to the root; a node of another tree has no entry and its type is found
anew.
-/

namespace ScoringMarkup

namespace Expression

/-- A node as seen from one tree: at a place of that tree, or somewhere else. -/
inductive Node
  | inside (trail : Trail) (e : Expression)
  | elsewhere (e : Expression)

/-- The type of a node over the types of its children. A list of another length than the node
has children gives the void type. -/
def typeOver : Expression → List SourceType → SourceType
  | .field _ type, _ | .literal _ type, _ | .cast _ type, _ | .call _ _ type, _ => type
  | .membership .., _ | .negation _, _ | .nullCheck .., _ => .boolean
  | .binary op _ _, [left, right] => op.declaredType left right
  | .alias .., [child] | .minus _, [child] => child
  | .conditional .., [_, whenTrue, _] => whenTrue
  | _, _ => .void

end Expression

/-- A pending visit of a node: its place, and whether its children are finished. -/
structure Visit where
  trail : Expression.Trail
  node : Expression
  childrenDone : Bool

namespace Visit

/-- The steps that a visit still stands for. -/
def cost (v : Visit) : Nat := if v.childrenDone then 1 else 2 * v.node.nodeCount

/-- First visits of the children of a node. -/
def ofChildren (trail : Expression.Trail) (e : Expression) : List Visit :=
  e.children.zipIdx.map fun (child, i) => ⟨i :: trail, child, false⟩

/-- The steps that a list of visits stands for. -/
def totalCost (visits : List Visit) : Nat := visits.foldr (fun v total => v.cost + total) 0

/-- A visit in front costs what it costs alone. -/
theorem totalCost_cons (v : Visit) (visits : List Visit) :
    totalCost (v :: visits) = v.cost + totalCost visits := rfl

/-- Visits together cost the sum. -/
theorem totalCost_append (visits more : List Visit) :
    totalCost (visits ++ more) = totalCost visits + totalCost more := by
  induction visits with
  | nil => exact (Nat.zero_add _).symm
  | cons v visits ih => rw [List.cons_append, totalCost_cons, totalCost_cons, ih, Nat.add_assoc]

/-- The children of a node cost two turns for each node below it. -/
theorem totalCost_ofChildren (trail : Expression.Trail) (e : Expression) :
    totalCost (ofChildren trail e) = 2 * (e.nodeCount - 1) := by
  have general : ∀ (es : List Expression) (k : Nat),
      totalCost ((es.zipIdx k).map fun (child, i) => ⟨i :: trail, child, false⟩)
        = 2 * (es.map Expression.nodeCount).foldr (· + ·) 0 := by
    intro es
    induction es with
    | nil => intro k; rfl
    | cons c es ih =>
      intro k
      have hcost : cost ⟨k :: trail, c, false⟩ = 2 * c.nodeCount := rfl
      rw [List.zipIdx_cons, List.map_cons, totalCost_cons, hcost, ih, List.map_cons,
        List.foldr_cons, Nat.mul_add]
  rw [Expression.nodeCount_eq e, Nat.add_sub_cancel_left]
  exact general e.children 0

end Visit

/-- The declared types of the nodes of one tree. -/
structure TypeTable where
  /-- The type of each node by its place. -/
  types : Std.HashMap Expression.Trail SourceType
  /-- The type of the tree. -/
  root : SourceType

namespace TypeTable

/-- What a walk has found: the entries made, and the types of finished nodes whose parent is
still pending, the last one first. -/
structure Progress where
  types : Std.HashMap Expression.Trail SourceType
  results : List SourceType

namespace Progress

/-- Takes the types of a node's children off the results and puts the node's own type there; the
walk fails if results are missing. -/
def finish? (p : Progress) (trail : Expression.Trail) (e : Expression) : Option Progress :=
  let arity := e.children.length
  if p.results.length < arity then none
  else
    let type := e.typeOver (p.results.take arity).reverse
    some ⟨p.types.insert trail type, type :: p.results.drop arity⟩

end Progress

/-- Finishes all pending visits, the children of a node before the node. -/
def walk (p : Progress) : List Visit → Option Progress
  | [] => some p
  | ⟨trail, e, childrenDone⟩ :: visits =>
    if !childrenDone && !e.children.isEmpty then
      walk p (Visit.ofChildren trail e ++ ⟨trail, e, true⟩ :: visits)
    else
      match p.finish? trail e with
      | none => none
      | some p => walk p visits
termination_by visits => Visit.totalCost visits
decreasing_by
  next hpending =>
    have hd : childrenDone = false := by simp at hpending; exact hpending.1
    have := Expression.nodeCount_eq e
    simp only [Visit.totalCost_append, Visit.totalCost_cons, Visit.totalCost_ofChildren,
      Visit.cost, hd]
    simp
    omega
  · rw [Visit.totalCost_cons]
    have := Expression.nodeCount_eq e
    simp only [Visit.cost]
    split <;> omega

/-- The table of a tree. The walk always ends with the one type of the root. -/
def infer (e : Expression) : TypeTable :=
  match walk ⟨∅, []⟩ [⟨[], e, false⟩] with
  | some ⟨types, [root]⟩ => ⟨types, root⟩
  | _ => ⟨∅, .void⟩

/-- The recorded type of a node. -/
def get? (table : TypeTable) : Expression.Node → Option SourceType
  | .inside trail _ => table.types[trail]?
  | .elsewhere _ => none

/-- The type of a node, found anew when it has no entry. -/
def typeOf (table : TypeTable) (node : Expression.Node) : SourceType :=
  match table.get? node, node with
  | some type, _ => type
  | none, .inside _ e | none, .elsewhere e => (infer e).root

/-- The number of entries. -/
def size (table : TypeTable) : Nat := table.types.size

def isEmpty (table : TypeTable) : Bool := table.types.isEmpty

end TypeTable

end ScoringMarkup
