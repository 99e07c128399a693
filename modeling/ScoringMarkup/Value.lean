import ScoringMarkup.Double.Format

/-!
# Literal values

The payload of a source literal and of a markup constant. A value is independent of the type
declared beside it.
-/

namespace ScoringMarkup

/-- A literal value. -/
inductive Value
  | null
  | boolean (b : Bool)
  | integer (n : Int64)
  | double (x : Double)
  | string (s : String)
  deriving DecidableEq

namespace Value

def isNull : Value → Bool
  | .null => true
  | _ => false

/-- The text of a value inside a constant; null has none. -/
def markupText? : Value → Option String
  | .null => none
  | .boolean b => some (if b then "true" else "false")
  | .integer n => some (toString n.toInt)
  | .double x => some x.markupText
  | .string s => some s

/-- The text of a value in diagnostics: its constant text, and `null`. -/
def display (v : Value) : String := v.markupText?.getD "null"

/-- Exactly null has no constant text. -/
theorem markupText?_eq_none_iff {v : Value} : v.markupText? = none ↔ v.isNull = true := by
  cases v <;> simp [markupText?, isNull]

end Value

end ScoringMarkup
