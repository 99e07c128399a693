import ScoringMarkup.Expression.DeclaredType
import ScoringMarkup.Proofs.Expression.Walks

/-!
# Trees without aliases

Removing the aliases of a tree puts the child of each alias in its place. The nodes of the
stripped tree are the other nodes, each stripped itself, in the same order; the tree declares what
it declared and has grown no higher.
-/

namespace ScoringMarkup

namespace Expression

/-- Whether a node is an alias. -/
def isAlias : Expression → Bool
  | .alias .. => true
  | _ => false

mutual

/-- The tree with every alias replaced by its child. -/
def withoutAliases : Expression → Expression
  | .alias child _ => withoutAliases child
  | .field name type => .field name type
  | .binary op left right => .binary op (withoutAliases left) (withoutAliases right)
  | .conditional predicate whenTrue whenFalse =>
    .conditional (withoutAliases predicate) (withoutAliases whenTrue) (withoutAliases whenFalse)
  | .membership value list => .membership (withoutAliases value) (listWithoutAliases list)
  | .literal value type => .literal value type
  | .negation child => .negation (withoutAliases child)
  | .nullCheck check child => .nullCheck check (withoutAliases child)
  | .cast child type => .cast (withoutAliases child) type
  | .minus child => .minus (withoutAliases child)
  | .call name arguments type => .call name (listWithoutAliases arguments) type

/-- The trees of a list, each without aliases. -/
def listWithoutAliases : List Expression → List Expression
  | [] => []
  | e :: es => withoutAliases e :: listWithoutAliases es

end

/-- The trees of a list lose their aliases one by one. -/
theorem listWithoutAliases_eq_map (es : List Expression) :
    listWithoutAliases es = es.map withoutAliases := by
  induction es with
  | nil => rfl
  | cons e es ih => rw [listWithoutAliases, ih, List.map_cons]

/-- An alias is an alias of its only child. -/
theorem exists_eq_alias {e : Expression} (h : e.isAlias = true) :
    ∃ child name, e = .alias child name := by
  cases e <;> cases h
  exact ⟨_, _, rfl⟩

/-- The children of a node that is no alias lose their aliases. -/
theorem children_withoutAliases {e : Expression} (h : e.isAlias = false) :
    e.withoutAliases.children = e.children.map withoutAliases := by
  cases e with
  | «alias» => cases h
  | membership | call => simp [withoutAliases, children, listWithoutAliases_eq_map]
  | _ => rfl

/-- A node that is no alias keeps its kind. -/
theorem nodeName_withoutAliases {e : Expression} (h : e.isAlias = false) :
    e.withoutAliases.nodeName = e.nodeName := by
  cases e with
  | «alias» => cases h
  | _ => rfl

/-- The nodes of a stripped tree are the nodes that are no aliases, each stripped. -/
theorem preorder_withoutAliases (e : Expression) :
    e.withoutAliases.preorder = (e.preorder.filter (!·.isAlias)).map withoutAliases := by
  induction e using induct_children with
  | step e ih =>
    cases h : e.isAlias with
    | true =>
      obtain ⟨child, name, rfl⟩ := exists_eq_alias h
      rw [withoutAliases, ih child (List.mem_singleton.mpr rfl), preorder_eq (.alias child name)]
      simp [isAlias, children]
    | false =>
      rw [preorder_eq, preorder_eq e, children_withoutAliases h,
        List.filter_cons_of_pos (by simp [h]), List.map_cons, List.flatMap_map,
        List.filter_flatMap, List.map_flatMap]
      exact congrArg _ (List.flatMap_congr ih)

/-- An alias declares what its child declares. -/
@[simp] theorem declaredType_withoutAliases : ∀ e : Expression,
    e.withoutAliases.declaredType = e.declaredType
  | .alias child _ => declaredType_withoutAliases child
  | .field .. | .literal .. | .cast .. | .call .. => rfl
  | .membership .. | .negation _ | .nullCheck .. => rfl
  | .conditional _ whenTrue _ => declaredType_withoutAliases whenTrue
  | .minus child => declaredType_withoutAliases child
  | .binary op left right => congrArg₂ op.declaredType (declaredType_withoutAliases left)
    (declaredType_withoutAliases right)

/-- Without its aliases a tree is no higher. -/
theorem height_withoutAliases_le (e : Expression) : e.withoutAliases.height ≤ e.height := by
  induction e using induct_children with
  | step e ih =>
    cases h : e.isAlias with
    | true =>
      obtain ⟨child, name, rfl⟩ := exists_eq_alias h
      have hchild : child ∈ (Expression.alias child name).children := List.mem_singleton.mpr rfl
      exact (ih child hchild).trans (height_lt_of_mem_children hchild).le
    | false =>
      obtain ⟨n, hn⟩ : ∃ n, e.height = n + 1 := ⟨_, by rw [height_eq, Nat.add_comm]⟩
      rw [hn]
      refine height_le_succ ?_
      rw [children_withoutAliases h]
      intro c hc
      obtain ⟨c', hc', rfl⟩ := List.mem_map.mp hc
      have hlt := height_lt_of_mem_children hc'
      exact (ih c' hc').trans (by omega)

/-- A stripped tree passes every test against a limit that the tree passes. -/
theorem exceedsDepth_withoutAliases {e : Expression} {limit : Nat}
    (h : e.exceedsDepth limit = false) : e.withoutAliases.exceedsDepth limit = false := by
  rw [Bool.eq_false_iff, Ne, exceedsDepth_iff] at h ⊢
  exact fun hlt => h (hlt.trans_le e.height_withoutAliases_le)

end Expression

end ScoringMarkup
