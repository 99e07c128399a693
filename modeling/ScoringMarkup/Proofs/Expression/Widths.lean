import ScoringMarkup.Proofs.Conversion.Support

/-!
# Trees without widths

Forgetting the declared types of fields, and putting one source type for all that have the same
markup type into the literals, leaves of the types in a tree what its markup shows of them.
-/

namespace ScoringMarkup

/-- The source type that stands for a markup type. -/
def ScalarType.source : ScalarType → SourceType
  | .string => .string
  | .integer => .integer
  | .double => .double
  | .boolean => .boolean

/-- The source type that stands for a markup type has that markup type. -/
@[simp] theorem SourceType.scalar_source (type : ScalarType) : type.source.scalar = type := by
  cases type <;> rfl

namespace Expression

mutual

/-- The tree with void fields, and with its literals declared by the markup type of their type. -/
def withoutWidths : Expression → Expression
  | .alias child name => .alias (withoutWidths child) name
  | .field name _ => .field name .void
  | .binary op left right => .binary op (withoutWidths left) (withoutWidths right)
  | .conditional predicate whenTrue whenFalse =>
    .conditional (withoutWidths predicate) (withoutWidths whenTrue) (withoutWidths whenFalse)
  | .membership value list => .membership (withoutWidths value) (listWithoutWidths list)
  | .literal value type => .literal value type.scalar.source
  | .negation child => .negation (withoutWidths child)
  | .nullCheck check child => .nullCheck check (withoutWidths child)
  | .cast child type => .cast (withoutWidths child) type
  | .minus child => .minus (withoutWidths child)
  | .call name arguments type => .call name (listWithoutWidths arguments) type

/-- The trees of a list, each without widths. -/
def listWithoutWidths : List Expression → List Expression
  | [] => []
  | e :: es => withoutWidths e :: listWithoutWidths es

end

/-- The trees of a list lose their widths one by one. -/
theorem listWithoutWidths_eq_map (es : List Expression) :
    listWithoutWidths es = es.map withoutWidths := by
  induction es with
  | nil => rfl
  | cons e es ih => rw [listWithoutWidths, ih, List.map_cons]

/-- The children of a tree without widths are the children without widths. -/
@[simp] theorem children_withoutWidths (e : Expression) :
    e.withoutWidths.children = e.children.map withoutWidths := by
  cases e <;> simp [withoutWidths, children, listWithoutWidths_eq_map]

/-- Forgetting widths changes no kind of node. -/
@[simp] theorem nodeName_withoutWidths (e : Expression) :
    e.withoutWidths.nodeName = e.nodeName := by
  cases e <;> simp [withoutWidths, nodeName]

/-- The markup of a tree does not show the widths. -/
@[simp] theorem counterpart_withoutWidths (e : Expression) :
    e.withoutWidths.counterpart = e.counterpart := by
  induction e using induct_children with
  | step e ih =>
    have hchildren : (e.children.map withoutWidths).map counterpart =
        e.children.map counterpart := by
      rw [List.map_map]
      exact List.map_congr_left ih
    cases e with
    | field | literal => simp [withoutWidths, counterpart]
    | nullCheck check child =>
      cases check <;> simpa [withoutWidths, counterpart, children] using hchildren
    | _ =>
      simpa [withoutWidths, counterpart, children, counterparts_eq_map, listWithoutWidths_eq_map]
        using hchildren

end Expression

end ScoringMarkup
