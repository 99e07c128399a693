import ScoringMarkup.Document.Elements
import ScoringMarkup.Document.Expressions
import ScoringMarkup.Document.Grammar
import ScoringMarkup.Json.Reader

/-!
# Reading expressions

Documents are read by the grammar and their data taken for what they stand for. A failure to read
an expression is reported as one of nesting when its message speaks of the nesting limit, and as
one of parsing otherwise, with its position in both cases; a file that holds the document is named
in front.
-/

namespace ScoringMarkup

namespace Document

open Json

/-- A document of a symbol, taken for what its datum stands for. A datum that follows the grammar
always stands for something, so the last case answers for no document. -/
def readAs {α : Type} (symbol : Symbol) (ofDatum? : Datum → Option α) (document : Bytes) :
    Except Failure α :=
  match readDocument grammar symbol document with
  | .error failure => .error failure
  | .ok d =>
    match ofDatum? d with
    | some a => .ok a
    | none => stop .expectedValue []

/-- The bytes of a text. -/
def bytesOf (text : String) : Bytes := text.toByteArray.data.toList

/-- What opening and reading a file gives. -/
inductive File
  | contents (bytes : Bytes)
  /-- The file does not open. -/
  | unopened (reason : String)
  /-- The file opens, but its bytes cannot be had. -/
  | unreadable (reason : String)

/-- Why an expression could not be read. -/
inductive ReadError
  /-- Reported as too many open containers; `text` is the message of the failure with its
  position. -/
  | nesting (text : String)
  | parse (cause : Cause) (position? : Option Position)
  | unopened (path reason : String)
  | inFile (path : String) (error : ReadError)

/-- The words by which a failure of nesting is known. -/
def nestingWords : String := "recursion limit exceeded"

/-- Whether a message speaks of the nesting limit. -/
def speaksOfNesting (message : String) : Bool :=
  @decide (nestingWords.toList <:+: message.toList) (List.instDecidableIsInfixOfDecidableEq _ _)

namespace ReadError

/-- The report of a failure in a document. -/
def ofFailure (document : Bytes) (failure : Failure) : ReadError :=
  let position? := failure.position? document
  let text := failure.cause.messageAt position?
  if speaksOfNesting text then .nesting text else .parse failure.cause position?

/-- The messages of an error, from the outermost to the cause of all. -/
def messages : ReadError → List String
  | .nesting text =>
    ["Expression nesting exceeds the JSON reader limit of 128 containers (" ++ text ++ ")"]
  | .parse cause position? => ["Failed to parse expression JSON", cause.messageAt position?]
  | .unopened path reason => ["Failed to open expression file " ++ path, reason]
  | .inFile path error => ("Invalid expression in " ++ path) :: error.messages

/-- The family of the cause, for failures of parsing. -/
def category? : ReadError → Option Category
  | .parse cause _ => some cause.category
  | .inFile _ error => error.category?
  | .nesting _ | .unopened .. => none

end ReadError

/-- The expression in a document. -/
def readExpression (document : Bytes) : Except ReadError Expression :=
  (readAs .expression Expression.ofDatum? document).mapError (ReadError.ofFailure document)

/-- The expression in a file. -/
def loadExpression (path : String) : File → Except ReadError Expression
  | .contents bytes => (readExpression bytes).mapError (ReadError.inFile path)
  | .unopened reason => .error (.unopened path reason)
  | .unreadable reason => .error (.inFile path (.parse (.unreadable reason) none))

end Document

end ScoringMarkup
