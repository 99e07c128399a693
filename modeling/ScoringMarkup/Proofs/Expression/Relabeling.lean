import ScoringMarkup.Expression.Display
import ScoringMarkup.Proofs.Expression.Walks

/-!
# Relabelled expressions

A relabelling changes what the nodes of a tree say of themselves, the names of fields, the payloads
of literals and the declared types, and leaves the shape of the tree as it is. So the listing of
the nodes and the height of a relabelled tree are those of the tree.
-/

namespace ScoringMarkup

/-- New names for fields, new payloads for literals, and new types wherever a node declares one. -/
structure Relabeling where
  field : String → String
  value : Value → Value
  type : SourceType → SourceType

/-- A relabelling that leaves all labels as they are shown: types may change, but not what they
are called. -/
structure Relabeling.KeepsText (r : Relabeling) : Prop where
  field : ∀ name, r.field name = name
  value : ∀ value, r.value value = value
  typeName : ∀ type, (r.type type).name = type.name

namespace Expression

mutual

/-- The tree with the labels of its nodes changed. -/
def relabel (r : Relabeling) : Expression → Expression
  | .alias child name => .alias (relabel r child) name
  | .field name type => .field (r.field name) (r.type type)
  | .binary op left right => .binary op (relabel r left) (relabel r right)
  | .conditional predicate whenTrue whenFalse =>
    .conditional (relabel r predicate) (relabel r whenTrue) (relabel r whenFalse)
  | .membership value list => .membership (relabel r value) (relabelList r list)
  | .literal value type => .literal (r.value value) (r.type type)
  | .negation child => .negation (relabel r child)
  | .nullCheck check child => .nullCheck check (relabel r child)
  | .cast child type => .cast (relabel r child) (r.type type)
  | .minus child => .minus (relabel r child)
  | .call name arguments type => .call name (relabelList r arguments) (r.type type)

/-- The trees of a list with the labels of their nodes changed. -/
def relabelList (r : Relabeling) : List Expression → List Expression
  | [] => []
  | e :: es => relabel r e :: relabelList r es

end

variable (r : Relabeling)

/-- The trees of a list are relabelled one by one. -/
theorem relabelList_eq_map (es : List Expression) : relabelList r es = es.map (relabel r) := by
  induction es with
  | nil => rfl
  | cons e es ih => rw [relabelList, ih, List.map_cons]

/-- The children of a relabelled tree are the relabelled children. -/
@[simp] theorem children_relabel (e : Expression) :
    (e.relabel r).children = e.children.map (relabel r) := by
  cases e <;> simp [relabel, children, relabelList_eq_map]

/-- A relabelling changes no kind of node. -/
@[simp] theorem nodeName_relabel (e : Expression) : (e.relabel r).nodeName = e.nodeName := by
  cases e <;> simp [relabel, nodeName]

/-- The nodes of a relabelled tree are the relabelled nodes, in the same order. -/
theorem preorder_relabel (e : Expression) :
    (e.relabel r).preorder = e.preorder.map (relabel r) := by
  induction e using induct_children with
  | step e ih =>
    rw [preorder_eq, preorder_eq e, children_relabel, List.map_cons, List.flatMap_map,
      List.map_flatMap]
    exact congrArg _ (List.flatMap_congr ih)

/-- A relabelling keeps the height. -/
theorem height_relabel (e : Expression) : (e.relabel r).height = e.height := by
  induction e using induct_children with
  | step e ih =>
    have hheights : e.children.map (height ∘ relabel r) = e.children.map height :=
      List.map_congr_left ih
    rw [height_eq, height_eq e, children_relabel, List.map_map, hheights]

/-- A relabelled tree exceeds the limits that the tree exceeds. -/
theorem exceedsDepth_relabel (e : Expression) (limit : Nat) :
    (e.relabel r).exceedsDepth limit = e.exceedsDepth limit := by
  rw [Bool.eq_iff_iff, exceedsDepth_iff, exceedsDepth_iff, height_relabel]

variable {r}

mutual

/-- A relabelling that keeps names, literals and what types are called keeps the text. -/
theorem render_relabel (h : r.KeepsText) : ∀ (e : Expression) (levels : Option Nat),
    (e.relabel r).render levels = e.render levels
  | .alias child _, _ | .negation child, _ | .nullCheck _ child, _ | .minus child, _ => by
    simp only [relabel, render, render_relabel h child]
  | .field .., _ => by simp only [relabel, render, h.field]
  | .literal .., _ => by simp only [relabel, render, h.value]
  | .binary _ left right, _ => by
    simp only [relabel, render, render_relabel h left, render_relabel h right]
  | .conditional predicate whenTrue whenFalse, _ => by
    simp only [relabel, render, render_relabel h predicate, render_relabel h whenTrue,
      render_relabel h whenFalse]
  | .membership value list, _ => by
    simp only [relabel, render, render_relabel h value, renderList_relabel h list]
  | .cast child _, _ => by simp only [relabel, render, render_relabel h child, h.typeName]
  | .call _ arguments _, _ => by simp only [relabel, render, renderList_relabel h arguments]

/-- A relabelling that keeps the text of trees keeps the text of lists of them. -/
theorem renderList_relabel (h : r.KeepsText) : ∀ (es : List Expression) (levels : Option Nat),
    renderList (relabelList r es) levels = renderList es levels
  | [], _ => rfl
  | e :: es, _ => by
    simp only [relabelList, renderList, render_relabel h e, renderList_relabel h es]

end

end Expression

end ScoringMarkup
