import ScoringMarkup.Value

/-!
# Markup expressions

The tree that a conversion produces: references to input fields, functions applied to an ordered
list of arguments, and constants that carry their type.
-/

namespace ScoringMarkup

/-- A type of the markup language. -/
inductive ScalarType
  | string
  | integer
  | double
  | boolean
  deriving DecidableEq

namespace ScalarType

def all : List ScalarType := [.string, .integer, .double, .boolean]

/-- The name of a type, in markup and in documents. -/
def name : ScalarType → String
  | .string => "string"
  | .integer => "integer"
  | .double => "double"
  | .boolean => "boolean"

/-- The type with a given name. -/
def ofName? (name : String) : Option ScalarType := all.find? fun type => type.name = name

@[simp] theorem ofName?_name (type : ScalarType) : ofName? type.name = some type := by
  cases type <;> rfl

end ScalarType

/-- A markup expression. -/
inductive Element
  | fieldRef (field : String)
  | apply (function : String) (arguments : List Element)
  | constant (value : Value) (type : ScalarType)

namespace Element

/-- The name of the applied function. -/
def function? : Element → Option String
  | .apply function _ => some function
  | _ => none

/-- The arguments of the applied function; other elements have none. -/
def arguments : Element → List Element
  | .apply _ arguments => arguments
  | _ => []

/-- Whether a constant stands for a missing value; other elements are no constants. -/
def isMissing? : Element → Option Bool
  | .constant value _ => some value.isNull
  | _ => none

/-- The same application with one more argument at the end. -/
def withArgument (e argument : Element) : Element :=
  match e with
  | .apply function arguments => .apply function (arguments ++ [argument])
  | e => e

end Element

end ScoringMarkup
