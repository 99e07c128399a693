import ScoringMarkup.Json.Numbers
import ScoringMarkup.Json.Strings

/-!
# Skipped values

The value of an unknown key is passed without being kept. Its containers may nest to any depth,
so the open ones are held in a list, the innermost first.
-/

namespace ScoringMarkup

namespace Json

/-- A container that is open while a value is skipped. -/
inductive Frame
  | list
  | object
  deriving DecidableEq

namespace Frame

/-- The bracket that closes the container. -/
def closing : Frame → Char
  | .list => ']'
  | .object => '\x7d'

/-- The cause when the document ends between two entries. -/
def endCause : Frame → Cause
  | .list => .endInList
  | .object => .endInObject

/-- The cause when an entry is followed by neither a comma nor the bracket. -/
def separatorCause : Frame → Cause
  | .list => .expectedListSeparator
  | .object => .expectedObjectSeparator

end Frame

/-- Passes a key and its colon. -/
def skipKey (input : Bytes) : Except Failure Bytes :=
  match skipBlanks input with
  | [] => stop .endInObject []
  | b :: rest =>
    if b = ascii '"' then do
      let rest ← skipString rest
      readColon rest
    else stop .keyNotString rest

/-- Passes what comes before the next value of a container: a key in an object. -/
def skipToValue : Frame → Bytes → Except Failure Bytes
  | .list, input => .ok input
  | .object, input => skipKey input

/-- Behind a value: passes closing brackets, up to the end of the outermost container or to a
comma and the start of the next value. The containers still open come first in the result. -/
def closeFrames : List Frame → Bytes → Except Failure (List Frame × Bytes)
  | [], input => .ok ([], input)
  | frame :: frames, input =>
    match skipBlanks input with
    | [] => stop frame.endCause []
    | b :: rest =>
      if b = ascii frame.closing then closeFrames frames rest
      else if b = ascii ',' then do
        let rest ← skipToValue frame rest
        return (frame :: frames, rest)
      else stop frame.separatorCause rest

/-- Behind an opening bracket: the container may be empty; otherwise its first value follows. -/
def openFrame (frame : Frame) (frames : List Frame) (input : Bytes) :
    Except Failure (List Frame × Bytes) :=
  match skipBlanks input with
  | [] => stop frame.endCause []
  | b :: rest =>
    if b = ascii frame.closing then closeFrames frames rest
    else do
      let rest ← skipToValue frame (b :: rest)
      return (frame :: frames, rest)

/-- Passes a value without containers, or the opening of a container, inside the open frames;
the result is the start of the next value inside the containers still open, if any. -/
def skipStep (frames : List Frame) (input : Bytes) : Except Failure (List Frame × Bytes) :=
  match skipBlanks input with
  | [] => stop .endInValue []
  | b :: rest =>
    if b = ascii 'n' then do closeFrames frames (← readWord ['u', 'l', 'l'] rest)
    else if b = ascii 't' then do closeFrames frames (← readWord ['r', 'u', 'e'] rest)
    else if b = ascii 'f' then do closeFrames frames (← readWord ['a', 'l', 's', 'e'] rest)
    else if b = ascii '-' then do closeFrames frames (← skipNumber rest)
    else if isDigit b then do closeFrames frames (← skipNumber (b :: rest))
    else if b = ascii '"' then do closeFrames frames (← skipString rest)
    else if b = ascii '[' then openFrame .list frames rest
    else if b = ascii '\x7b' then openFrame .object frames rest
    else stop .expectedValue rest

/-- Passes values until all frames are closed; `bound` is the number of bytes left. -/
def skipFrom : (bound : Nat) → List Frame → Bytes → Except Failure Bytes
  | 0, _, _ => stop .endInValue []
  | bound + 1, frames, input =>
    match skipStep frames input with
    | .error failure => .error failure
    | .ok ([], rest) => .ok rest
    | .ok (frame :: frames, rest) => skipFrom bound (frame :: frames) rest

/-- Passes a whole value. -/
def skipValue (input : Bytes) : Except Failure Bytes := skipFrom input.length [] input

end Json

end ScoringMarkup
