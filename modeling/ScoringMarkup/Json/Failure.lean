import ScoringMarkup.Double.Format
import ScoringMarkup.Text.Quoted

/-!
# Reading failures

Why the reading of a document stops, and where. A cause is either a break of the format, or data
that is well formed but not what its place asks for, or the end of the document. A failure keeps
what is left of the document behind the last byte looked at; its position is counted from that. A
few failures have no place of their own and are given one by the container around them, if any.
-/

namespace ScoringMarkup

namespace Json

/-- The bytes of a document or of a part of one. -/
abbrev Bytes := List UInt8

/-- What stands at a place that asks for something else. -/
inductive Found
  | null
  | boolean (b : Bool)
  | integer (n : Int)
  | double (x : Double)
  | string (s : String)
  | sequence
  | map
  /-- The bare name of a variant that needs a payload. -/
  | unitVariant

/-- How a message names what stands in place of something else. -/
def Found.message : Found → String
  | .null => "null"
  | .boolean b => "boolean `" ++ (if b then "true" else "false") ++ "`"
  | .integer n => "integer `" ++ toString n ++ "`"
  | .double x => "floating point `" ++ x.documentText ++ "`"
  | .string s => "string " ++ Text.quoted s
  | .sequence => "sequence"
  | .map => "map"
  | .unitVariant => "unit variant"

/-- Why the reading of a document stops. -/
inductive Cause
  | endInValue
  | endInString
  | endInList
  | endInObject
  | expectedValue
  | expectedIdent
  | expectedColon
  | expectedListSeparator
  | expectedObjectSeparator
  | keyNotString
  | trailingComma
  | trailingCharacters
  | controlCharacter
  | invalidEscape
  | loneSurrogate
  | incompletePair
  | invalidCodePoint
  | invalidNumber
  | numberOutOfRange
  /-- One container more than may be open at once. -/
  | tooDeep
  | unknownVariant (name : String) (expected : List String)
  | missingField (name : String)
  | duplicateField (name : String)
  | wrongKind (found : Found) (expected : String)
  | integerOutOfRange (n : Int) (expected : String)
  | wrongLength (length : Nat) (expected : String)
  /-- The bytes themselves cannot be had. -/
  | unreadable (reason : String)

/-- The family of a cause. -/
inductive Category
  | format
  | data
  | endOfDocument
  | input
  deriving DecidableEq

namespace Cause

/-- Names in quotes, as the possible ones are listed. -/
def alternatives (names : List String) : String :=
  match names.map fun name => "`" ++ name ++ "`" with
  | [] => "there are no variants"
  | [one] => "expected " ++ one
  | [one, other] => "expected " ++ one ++ " or " ++ other
  | several => "expected one of " ++ ", ".intercalate several

/-- The text of a failure, without its place. -/
def message : Cause → String
  | .endInValue => "EOF while parsing a value"
  | .endInString => "EOF while parsing a string"
  | .endInList => "EOF while parsing a list"
  | .endInObject => "EOF while parsing an object"
  | .expectedValue => "expected value"
  | .expectedIdent => "expected ident"
  | .expectedColon => "expected `:`"
  | .expectedListSeparator => "expected `,` or `]`"
  | .expectedObjectSeparator => "expected `,` or `\x7d`"
  | .keyNotString => "key must be a string"
  | .trailingComma => "trailing comma"
  | .trailingCharacters => "trailing characters"
  | .controlCharacter =>
    "control character (\\u0000-\\u001F) found while parsing a string"
  | .invalidEscape => "invalid escape"
  | .loneSurrogate => "lone leading surrogate in hex escape"
  | .incompletePair => "unexpected end of hex escape"
  | .invalidCodePoint => "invalid unicode code point"
  | .invalidNumber => "invalid number"
  | .numberOutOfRange => "number out of range"
  | .tooDeep => "recursion limit exceeded"
  | .unknownVariant name expected =>
    "unknown variant `" ++ name ++ "`, " ++ alternatives expected
  | .missingField name => "missing field `" ++ name ++ "`"
  | .duplicateField name => "duplicate field `" ++ name ++ "`"
  | .wrongKind found expected => "invalid type: " ++ found.message ++ ", expected " ++ expected
  | .integerOutOfRange n expected =>
    "invalid value: integer `" ++ toString n ++ "`, expected " ++ expected
  | .wrongLength length expected =>
    "invalid length " ++ toString length ++ ", expected " ++ expected
  | .unreadable reason => reason

/-- The family that a failure belongs to. -/
def category : Cause → Category
  | .endInValue | .endInString | .endInList | .endInObject => .endOfDocument
  | .unknownVariant .. | .missingField _ | .duplicateField _ | .wrongKind ..
  | .integerOutOfRange .. | .wrongLength .. => .data
  | .unreadable _ => .input
  | _ => .format

end Cause

/-- A cause, and what is left of the document behind the last byte looked at. -/
structure Failure where
  cause : Cause
  rest : Bytes
  /-- Whether the failure has its place there. -/
  isPlaced : Bool

/-- Stops with a cause, at the last byte looked at. -/
def stop {α : Type} (cause : Cause) (rest : Bytes) : Except Failure α :=
  .error ⟨cause, rest, true⟩

/-- Stops with a cause that has no place of its own. -/
def stopUnplaced {α : Type} (cause : Cause) (rest : Bytes) : Except Failure α :=
  .error ⟨cause, rest, false⟩

/-- A line and a column, both counted from one; the column is that of the last byte passed. -/
structure Position where
  line : Nat
  column : Nat
  deriving DecidableEq

namespace Position

/-- The position behind some bytes. -/
def after (passed : Bytes) : Position :=
  ⟨passed.count 10 + 1, (passed.reverse.takeWhile (· != 10)).length⟩

/-- A position in words. -/
def message (p : Position) : String :=
  "line " ++ toString p.line ++ " column " ++ toString p.column

end Position

namespace Failure

/-- Where in a document the reading has stopped. -/
def position (failure : Failure) (document : Bytes) : Position :=
  Position.after (document.take (document.length - failure.rest.length))

/-- The place of a failure in a document, if it has one. -/
def position? (failure : Failure) (document : Bytes) : Option Position :=
  if failure.isPlaced then some (failure.position document) else none

/-- A failure as it comes out of a container. One without a place is given the place up to which the
container is looked at on being left. -/
def placedBy (leave : Bytes → Bytes) (failure : Failure) : Failure :=
  if failure.isPlaced then failure else ⟨failure.cause, leave failure.rest, true⟩

end Failure

/-- Gives a failure inside a container a place, if it has none. -/
def placing {α : Type} (leave : Bytes → Bytes) (x : Except Failure α) : Except Failure α :=
  x.mapError (Failure.placedBy leave)

/-- The message of a cause, with the position if there is one. -/
def Cause.messageAt (cause : Cause) (position? : Option Position) : String :=
  match position? with
  | some position => cause.message ++ " at " ++ position.message
  | none => cause.message

end Json

end ScoringMarkup
