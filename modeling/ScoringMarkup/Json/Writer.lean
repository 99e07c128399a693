import ScoringMarkup.Double.Format
import ScoringMarkup.Json.Grammar

/-!
# Writing documents

A datum is written without blanks, or indented with each entry on its own line. Strings keep
every character but quotes, backslashes and control characters; a number that is not finite is
written as null.
-/

namespace ScoringMarkup

namespace Json

/-- A character of a string. -/
def writeChar (c : Char) : List Char :=
  if c = '"' ∨ c = '\\' then ['\\', c]
  else if c = '\x08' then ['\\', 'b']
  else if c = '\x0c' then ['\\', 'f']
  else if c = '\n' then ['\\', 'n']
  else if c = '\r' then ['\\', 'r']
  else if c = '\t' then ['\\', 't']
  else if c.toNat < 0x20 then
    ['\\', 'u', '0', '0', Nat.digitChar (c.toNat / 16), Nat.digitChar (c.toNat % 16)]
  else [c]

/-- A string with its quotes. -/
def writeString (s : String) : String :=
  String.ofList ('"' :: s.toList.flatMap writeChar ++ ['"'])

def writeDouble (x : Double) : String := if x.isFinite then x.documentText else "null"

namespace Datum

mutual

/-- The text of a datum without blanks. -/
def compact : Datum → String
  | .null => "null"
  | .boolean b => if b then "true" else "false"
  | .integer n => toString n
  | .double x => writeDouble x
  | .string s => writeString s
  | .list items => "[" ++ ",".intercalate (compactItems items) ++ "]"
  | .record fields => "\x7b" ++ ",".intercalate (compactFields fields) ++ "\x7d"
  | .unit name => writeString name
  | .variant name payload => "\x7b" ++ writeString name ++ ":" ++ compact payload ++ "\x7d"

/-- The texts of the items of a list. -/
def compactItems : List Datum → List String
  | [] => []
  | d :: ds => compact d :: compactItems ds

/-- The texts of the fields of a record. -/
def compactFields : List (String × Datum) → List String
  | [] => []
  | (name, d) :: fields => (writeString name ++ ":" ++ compact d) :: compactFields fields

end

/-- The start of a line at a level of nesting. -/
def newLine (level : Nat) : String := "\n" ++ String.ofList (List.replicate (2 * level) ' ')

/-- Entries between brackets, each on a line of its own. -/
def block (opening closing : String) (level : Nat) (entries : List String) : String :=
  match entries with
  | [] => opening ++ closing
  | entries =>
    opening ++ newLine (level + 1) ++ ("," ++ newLine (level + 1)).intercalate entries
      ++ newLine level ++ closing

mutual

/-- The text of a datum with each entry on a line of its own, inside `level` containers. -/
def indented (level : Nat) : Datum → String
  | .list items => block "[" "]" level (indentedItems (level + 1) items)
  | .record fields => block "\x7b" "\x7d" level (indentedFields (level + 1) fields)
  | .variant name payload =>
    block "\x7b" "\x7d" level [writeString name ++ ": " ++ indented (level + 1) payload]
  | .null => "null"
  | .boolean b => if b then "true" else "false"
  | .integer n => toString n
  | .double x => writeDouble x
  | .string s => writeString s
  | .unit name => writeString name

/-- The texts of the items of a list. -/
def indentedItems (level : Nat) : List Datum → List String
  | [] => []
  | d :: ds => indented level d :: indentedItems level ds

/-- The texts of the fields of a record. -/
def indentedFields (level : Nat) : List (String × Datum) → List String
  | [] => []
  | (name, d) :: fields =>
    (writeString name ++ ": " ++ indented level d) :: indentedFields level fields

end

/-- The text of a datum with each entry on a line of its own. -/
def pretty (d : Datum) : String := d.indented 0

end Datum

end Json

end ScoringMarkup
