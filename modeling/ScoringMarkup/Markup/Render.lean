import ScoringMarkup.Markup.Element

/-!
# Markup text

An element is written on lines of its own, two spaces further in than the element around it. The
five characters that markup gives a meaning to are replaced in names and texts alike. Only the
expression itself is written; a document around it is left to the caller.
-/

namespace ScoringMarkup

namespace Element

/-- A character as it stands in an attribute or a text. -/
def escapeChar : Char → List Char
  | '&' => "&amp;".toList
  | '<' => "&lt;".toList
  | '>' => "&gt;".toList
  | '"' => "&quot;".toList
  | '\'' => "&apos;".toList
  | c => [c]

/-- A text as it stands in an attribute or between tags. -/
def escape (text : String) : String := String.ofList (text.toList.flatMap escapeChar)

/-- The blanks in front of an element. -/
def indent (level : Nat) : String := String.ofList (List.replicate (2 * level) ' ')

mutual

/-- The lines of an element at a level of nesting. -/
def render (level : Nat) : Element → String
  | .fieldRef field => indent level ++ "<FieldRef field=\"" ++ escape field ++ "\"/>\n"
  | .apply function [] => indent level ++ "<Apply function=\"" ++ escape function ++ "\"/>\n"
  | .apply function (argument :: arguments) =>
    indent level ++ "<Apply function=\"" ++ escape function ++ "\">\n"
      ++ render (level + 1) argument ++ renderAll (level + 1) arguments
      ++ indent level ++ "</Apply>\n"
  | .constant value type =>
    match value.markupText? with
    | some text =>
      indent level ++ "<Constant dataType=\"" ++ type.name ++ "\">" ++ escape text
        ++ "</Constant>\n"
    | none => indent level ++ "<Constant dataType=\"" ++ type.name ++ "\" missing=\"true\"/>\n"

/-- The lines of several elements. -/
def renderAll (level : Nat) : List Element → String
  | [] => ""
  | e :: es => render level e ++ renderAll level es

end

/-- The markup of an element that stands alone. -/
def markup (e : Element) : String := e.render 0

end Element

end ScoringMarkup
