import ScoringMarkup.CommandLine.Options
import ScoringMarkup.Document.Reading
import ScoringMarkup.Json.Writer
import ScoringMarkup.Markup.Render

/-!
# Answers of the command line

What is printed for a conversion, and the report of an error: its message, and the messages
behind it one by one, indented, with numbers if there are several.
-/

namespace ScoringMarkup

namespace CommandLine

/-- What a run prints, and how it ends. -/
structure Outcome where
  exitCode : Nat
  output : String
  /-- The error report. -/
  report : String
  /-- The records of the conversion, and of its success. -/
  records : List LogRecord

/-- The name and version that are printed on request. -/
def versionText : String := "sparkpmml 0.1.0\n"

/-- A text with a mark in front of its first line and blanks in front of the others. -/
def indentedLines (mark : String) (blanks : Nat) (text : String) : String :=
  let newLine := '\n' :: List.replicate blanks ' '
  mark ++ String.ofList (text.toList.flatMap fun c => if c = '\n' then newLine else [c])

/-- Numbered causes, each on lines of its own. -/
def numbered (number : Nat) : List String → String
  | [] => ""
  | cause :: causes =>
    indentedLines ("    " ++ toString number ++ ": ") 7 cause ++ "\n"
      ++ numbered (number + 1) causes

/-- The report of an error from its messages, outermost first. -/
def report (message : String) (causes : List String) : String :=
  "Error: " ++ message ++ "\n" ++
    match causes with
    | [] => ""
    | [cause] => "\nCaused by:\n" ++ indentedLines "    " 4 cause ++ "\n"
    | causes => "\nCaused by:\n" ++ numbered 0 causes

/-- The end of a run that fails. -/
def failed (messages : List String) (records : List LogRecord) : Outcome :=
  ⟨1, "", report (messages.headD "") messages.tail, records⟩

/-- A conversion as it is printed. -/
def print (format : OutputFormat) (m : Mapping) : String :=
  match format with
  | .markup => "<!-- dataType: " ++ m.type.name ++ " -->\n" ++ m.target.markup
  | .json => m.toDatum.pretty ++ "\n"

/-- The answer to a request for a conversion, given what reading the expression gave. -/
def respond (o : Options) (source : Except Document.ReadError Expression) : Outcome :=
  match source with
  | .error error => failed error.messages []
  | .ok e =>
    let conversion := Conversion.convert o.configuration e
    match conversion.outcome with
    | .error error =>
      failed ["Failed to translate expression '" ++ e.display ++ "'", error.message]
        conversion.records
    | .ok mapping =>
      ⟨0, print o.outputFormat mapping, "", conversion.records ++ [.converted mapping.type]⟩

end CommandLine

end ScoringMarkup
