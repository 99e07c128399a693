import ScoringMarkup.Json.Failure

/-!
# Bytes of a document

The few classes of bytes that the format knows, and the literal words. Every loop over a document
is bounded by the number of bytes left, since each round passes at least one of them; where the
bound is used up, the document has ended.
-/

namespace ScoringMarkup

namespace Json

/-- The byte of an ASCII character. -/
def ascii (c : Char) : UInt8 := c.toUInt8

/-- Space, tab, line feed and carriage return may stand between tokens. -/
def isBlank (b : UInt8) : Bool := b == 0x20 || b == 0x09 || b == 0x0a || b == 0x0d

/-- What follows the blanks in front. -/
def skipBlanks (input : Bytes) : Bytes := input.dropWhile isBlank

def isDigit (b : UInt8) : Bool := decide (0x30 ≤ b ∧ b ≤ 0x39)

/-- The value of a decimal digit. -/
def digitValue (b : UInt8) : Nat := b.toNat - 0x30

/-- The value of a hexadecimal digit of either case. -/
def hexValue? (b : UInt8) : Option Nat :=
  if 0x30 ≤ b ∧ b ≤ 0x39 then some (b.toNat - 0x30)
  else if 0x61 ≤ b ∧ b ≤ 0x66 then some (b.toNat - 0x61 + 10)
  else if 0x41 ≤ b ∧ b ≤ 0x46 then some (b.toNat - 0x41 + 10)
  else none

/-- Whether a digit comes next. -/
def startsWithDigit : Bytes → Bool
  | [] => false
  | b :: _ => isDigit b

/-- Passes the remaining letters of a literal word. -/
def readWord : List Char → Bytes → Except Failure Bytes
  | [], input => .ok input
  | _ :: _, [] => stop .endInValue []
  | c :: cs, b :: rest => if b = ascii c then readWord cs rest else stop .expectedIdent rest

/-- Passes a colon and the blanks in front of it. -/
def readColon (input : Bytes) : Except Failure Bytes :=
  match skipBlanks input with
  | [] => stop .endInObject []
  | b :: rest => if b = ascii ':' then .ok rest else stop .expectedColon rest

end Json

end ScoringMarkup
