import ScoringMarkup.Expression.Basic

/-!
# Texts of source expressions

A tree is written in infix form, either in full or down to a number of levels, below which each
subtree becomes an ellipsis. Diagnostics use the summary of sixteen levels.
-/

namespace ScoringMarkup

namespace Expression

/-- What stands for a subtree below the last level shown. -/
def ellipsis : String := "..."

/-- The text of a node from the levels left for its children; an ellipsis if no level is left
for the node itself. Without a number of levels nothing is cut. -/
def onLevel (levels : Option Nat) (text : Option Nat → String) : String :=
  match levels with
  | some 0 => ellipsis
  | some (below + 1) => text (some below)
  | none => text none

mutual

/-- The text of a tree, cut below a number of levels if one is given. -/
def render : Expression → Option Nat → String
  | .alias child name, levels => onLevel levels fun below => render child below ++ " AS " ++ name
  | .field name _, levels => onLevel levels fun _ => name
  | .binary op left right, levels => onLevel levels fun below =>
    "(" ++ render left below ++ " " ++ op.symbol ++ " " ++ render right below ++ ")"
  | .conditional predicate whenTrue whenFalse, levels => onLevel levels fun below =>
    "if (" ++ render predicate below ++ ") " ++ render whenTrue below ++ " else "
      ++ render whenFalse below
  | .membership value list, levels => onLevel levels fun below =>
    render value below ++ " IN (" ++ ", ".intercalate (renderList list below) ++ ")"
  | .literal value _, levels => onLevel levels fun _ =>
    match value with
    | .string s => "'" ++ s ++ "'"
    | value => value.display
  | .negation child, levels => onLevel levels fun below => "NOT " ++ render child below
  | .nullCheck check child, levels => onLevel levels fun below =>
    check.functionName ++ "(" ++ render child below ++ ")"
  | .cast child type, levels => onLevel levels fun below =>
    "cast(" ++ render child below ++ " as " ++ type.name ++ ")"
  | .minus child, levels => onLevel levels fun below => "-" ++ render child below
  | .call name arguments _, levels => onLevel levels fun below =>
    name ++ "(" ++ ", ".intercalate (renderList arguments below) ++ ")"

/-- The texts of a list of trees on one level. -/
def renderList : List Expression → Option Nat → List String
  | [], _ => []
  | e :: es, levels => render e levels :: renderList es levels

end

/-- The text of the whole tree. -/
def display (e : Expression) : String := e.render none

/-- The levels that a summary shows. -/
def summaryLevels : Nat := 16

/-- The text of the top levels, for diagnostics. -/
def summary (e : Expression) : String := e.render (some summaryLevels)

/-- Below the last level every tree looks alike. -/
@[simp] theorem render_zero (e : Expression) : e.render (some 0) = ellipsis := by
  cases e <;> rfl

theorem renderList_eq_map (es : List Expression) (levels : Option Nat) :
    renderList es levels = es.map fun e => render e levels := by
  induction es with
  | nil => rfl
  | cons e es ih => simp [renderList, ih]

end Expression

end ScoringMarkup
