import ScoringMarkup.Json.Bytes

/-!
# Strings of a document

A string is read byte by byte up to its closing quote; escapes stand for the UTF-8 bytes of their
character, surrogates only in pairs, and the whole has to be UTF-8. A string that is skipped is
checked for its quotes, the form of its escapes and control characters alone.
-/

namespace ScoringMarkup

namespace Json

/-- The character that an escape letter stands for. -/
def shortEscape? (b : UInt8) : Option UInt8 :=
  if b = ascii '"' then some 0x22
  else if b = ascii '\\' then some 0x5c
  else if b = ascii '/' then some 0x2f
  else if b = ascii 'b' then some 0x08
  else if b = ascii 'f' then some 0x0c
  else if b = ascii 'n' then some 0x0a
  else if b = ascii 'r' then some 0x0d
  else if b = ascii 't' then some 0x09
  else none

/-- Four hexadecimal digits. -/
def readHex : Bytes → Except Failure (Nat × Bytes)
  | a :: b :: c :: d :: rest =>
    match hexValue? a, hexValue? b, hexValue? c, hexValue? d with
    | some a, some b, some c, some d => .ok (((a * 16 + b) * 16 + c) * 16 + d, rest)
    | _, _, _, _ => stop .invalidEscape rest
  | _ => stop .endInString []

def isLeadingSurrogate (n : Nat) : Bool := decide (0xd800 ≤ n ∧ n ≤ 0xdbff)

def isTrailingSurrogate (n : Nat) : Bool := decide (0xdc00 ≤ n ∧ n ≤ 0xdfff)

/-- The code point of a surrogate pair. -/
def pairCodePoint (leading trailing : Nat) : Nat :=
  (leading - 0xd800) * 0x400 + (trailing - 0xdc00) + 0x10000

/-- Passes one given byte inside an escape. -/
def readPairMark (mark : Char) : Bytes → Except Failure Bytes
  | [] => stop .endInString []
  | b :: rest => if b = ascii mark then .ok rest else stop .incompletePair rest

/-- The character behind a backslash and a `u`. -/
def readCodePoint (input : Bytes) : Except Failure (Char × Bytes) := do
  let (first, rest) ← readHex input
  if isTrailingSurrogate first then stop .loneSurrogate rest
  else if isLeadingSurrogate first then
    let rest ← readPairMark '\\' rest
    let rest ← readPairMark 'u' rest
    let (second, rest) ← readHex rest
    if isTrailingSurrogate second then .ok (Char.ofNat (pairCodePoint first second), rest)
    else stop .loneSurrogate rest
  else .ok (Char.ofNat first, rest)

/-- The bytes that an escape stands for, read behind its backslash. -/
def readEscape : Bytes → Except Failure (Bytes × Bytes)
  | [] => stop .endInString []
  | b :: rest =>
    if b = ascii 'u' then do
      let (c, rest) ← readCodePoint rest
      return (String.utf8EncodeChar c, rest)
    else
      match shortEscape? b with
      | some byte => .ok ([byte], rest)
      | none => stop .invalidEscape rest

/-- The text of UTF-8 bytes. -/
def decodeUtf8? (bytes : Bytes) : Option String := String.fromUTF8? bytes.toByteArray

/-- The rest of a string, up to its closing quote. `bound` is the number of bytes left and
`done` holds the bytes read so far, the last one first. -/
def readStringFrom : (bound : Nat) → (done : Bytes) → Bytes → Except Failure (String × Bytes)
  | 0, _, _ => stop .endInString []
  | _ + 1, _, [] => stop .endInString []
  | bound + 1, done, b :: rest =>
    if b = ascii '"' then
      match decodeUtf8? done.reverse with
      | some text => .ok (text, rest)
      | none => stop .invalidCodePoint rest
    else if b = ascii '\\' then
      match readEscape rest with
      | .ok (bytes, rest) => readStringFrom bound (bytes.reverse ++ done) rest
      | .error failure => .error failure
    else if b < 0x20 then stop .controlCharacter rest
    else readStringFrom bound (b :: done) rest

/-- A string behind its opening quote. -/
def readString (input : Bytes) : Except Failure (String × Bytes) :=
  readStringFrom input.length [] input

/-- Passes an escape behind its backslash. -/
def skipEscape : Bytes → Except Failure Bytes
  | [] => stop .endInString []
  | b :: rest =>
    if b = ascii 'u' then do
      let (_, rest) ← readHex rest
      return rest
    else if (shortEscape? b).isSome then .ok rest
    else stop .invalidEscape rest

/-- Passes the rest of a string; `bound` is the number of bytes left. -/
def skipStringFrom : (bound : Nat) → Bytes → Except Failure Bytes
  | 0, _ => stop .endInString []
  | _ + 1, [] => stop .endInString []
  | bound + 1, b :: rest =>
    if b = ascii '"' then .ok rest
    else if b = ascii '\\' then
      match skipEscape rest with
      | .ok rest => skipStringFrom bound rest
      | .error failure => .error failure
    else if b < 0x20 then stop .controlCharacter rest
    else skipStringFrom bound rest

/-- Passes a string behind its opening quote. -/
def skipString (input : Bytes) : Except Failure Bytes := skipStringFrom input.length input

end Json

end ScoringMarkup
