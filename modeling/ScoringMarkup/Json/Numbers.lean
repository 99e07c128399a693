import ScoringMarkup.Double.Scale
import ScoringMarkup.Json.Bytes

/-!
# Numbers of a document

A number without fraction and exponent is an integer while it fits 64 bits; every other number
is a double. Its significand keeps the digits, of the whole part and then of the fraction, as
long as they fit 64 bits; a digit dropped from the whole part raises the exponent by one, a digit
kept from the fraction lowers it. A written exponent beyond 32 bits makes the number zero if it
lowers, or if there is no significand, and is out of range otherwise. The byte behind a number is
looked at before the number is done. A skipped number is checked for its form alone.
-/

namespace ScoringMarkup

namespace Json

/-- A number as a document gives it. -/
inductive Number
  | integer (n : Int)
  | double (x : Double)

/-- The largest significand that is kept. -/
def largestSignificand : Nat := 0xffffffffffffffff

/-- Digits taken into a value. -/
structure Taken where
  value : Nat
  count : Nat
  rest : Bytes

/-- Takes digits into a value as long as it stays within the largest significand. -/
def takeDigits (value count : Nat) : Bytes → Taken
  | [] => ⟨value, count, []⟩
  | b :: rest =>
    if isDigit b ∧ value * 10 + digitValue b ≤ largestSignificand then
      takeDigits (value * 10 + digitValue b) (count + 1) rest
    else ⟨value, count, b :: rest⟩

/-- The value of digits in front of other bytes. -/
def digitsValue (input : Bytes) : Nat :=
  (input.takeWhile isDigit).foldl (fun value b => value * 10 + digitValue b) 0

/-- The number that has been read, once all of it is passed and the byte behind it looked at. -/
def finishDouble (negative : Bool) (significand : Nat) (exponent : Int) (rest : Bytes) :
    Except Failure (Number × Bytes) :=
  match Double.ofScaled? significand exponent with
  | some x => .ok (.double (if negative then x.negate else x), rest)
  | none => stop .numberOutOfRange rest.tail

/-- The largest exponent that may be written: one of 32 bits. -/
def largestExponent : Nat := 0x7fffffff

/-- What is left behind the digit that takes a written exponent beyond the largest. -/
def behindLargest (value : Nat) : Bytes → Bytes
  | [] => []
  | b :: rest =>
    if value * 10 + digitValue b ≤ largestExponent then
      behindLargest (value * 10 + digitValue b) rest
    else rest

/-- The digits of a written exponent, at least one, under its sign. -/
def readExponentDigits (negative : Bool) (significand : Nat) (exponent : Int)
    (lowering : Bool) : Bytes → Except Failure (Number × Bytes)
  | [] => stop .endInValue []
  | b :: rest =>
    if isDigit b then
      let written := digitsValue (b :: rest)
      if written ≤ largestExponent then
        finishDouble negative significand
          (if lowering then exponent - written else exponent + written) (rest.dropWhile isDigit)
      else if lowering ∨ significand = 0 then
        .ok (.double (if negative then (Double.ofNat 0).negate else Double.ofNat 0),
          rest.dropWhile isDigit)
      else stop .numberOutOfRange (behindLargest 0 (b :: rest))
    else stop .invalidNumber rest

/-- A written exponent behind its letter. -/
def readExponent (negative : Bool) (significand : Nat) (exponent : Int) (input : Bytes) :
    Except Failure (Number × Bytes) :=
  match input with
  | [] => stop .endInValue []
  | b :: rest =>
    if b = ascii '+' then readExponentDigits negative significand exponent false rest
    else if b = ascii '-' then readExponentDigits negative significand exponent true rest
    else readExponentDigits negative significand exponent false input

/-- What may follow the digits of a double: an exponent, or its end. -/
def readAfterFraction (negative : Bool) (significand : Nat) (exponent : Int) :
    Bytes → Except Failure (Number × Bytes)
  | [] => finishDouble negative significand exponent []
  | b :: rest =>
    if b = ascii 'e' ∨ b = ascii 'E' then readExponent negative significand exponent rest
    else finishDouble negative significand exponent (b :: rest)

/-- A fraction behind its point. -/
def readFraction (negative : Bool) (significand : Nat) (exponent : Int) (input : Bytes) :
    Except Failure (Number × Bytes) :=
  let taken := takeDigits significand 0 input
  match input with
  | [] => stop .endInValue []
  | b :: rest =>
    if isDigit b then
      readAfterFraction negative taken.value (exponent - taken.count)
        (taken.rest.dropWhile isDigit)
    else stop .invalidNumber rest

/-- What may follow the whole part; `dropped` of its digits were not kept. -/
def readAfterWhole (negative : Bool) (significand dropped : Nat) (input : Bytes) :
    Except Failure (Number × Bytes) :=
  match input with
  | [] => finishDouble negative significand dropped []
  | b :: rest =>
    if b = ascii '.' then readFraction negative significand dropped rest
    else readAfterFraction negative significand dropped input

/-- An integer: one with a minus sign has to fit 64 bits and not be zero, or it is a double. -/
def integerOrDouble (negative : Bool) (value : Nat) : Number :=
  if !negative then .integer value
  else if value = 0 ∨ 0x8000000000000000 < value then .double (Double.ofNat value).negate
  else .integer (-value)

/-- What may follow a whole part that fits. -/
def readAfterInteger (negative : Bool) (value : Nat) (input : Bytes) :
    Except Failure (Number × Bytes) :=
  match input with
  | [] => .ok (integerOrDouble negative value, [])
  | b :: _ =>
    if b = ascii '.' ∨ b = ascii 'e' ∨ b = ascii 'E' then readAfterWhole negative value 0 input
    else .ok (integerOrDouble negative value, input)

/-- A number behind its minus sign, if it has one. -/
def readNumber (negative : Bool) : Bytes → Except Failure (Number × Bytes)
  | [] => stop .endInValue []
  | b :: rest =>
    if b = ascii '0' then
      if startsWithDigit rest then stop .invalidNumber rest.tail
      else readAfterInteger negative 0 rest
    else if isDigit b then
      let taken := takeDigits 0 0 (b :: rest)
      if startsWithDigit taken.rest then
        let dropped := (taken.rest.takeWhile isDigit).length
        readAfterWhole negative taken.value dropped (taken.rest.dropWhile isDigit)
      else readAfterInteger negative taken.value taken.rest
    else stop .invalidNumber rest

/-- Passes the digits of an exponent, at least one. -/
def skipExponentDigits : Bytes → Except Failure Bytes
  | [] => stop .invalidNumber []
  | b :: rest => if isDigit b then .ok (rest.dropWhile isDigit) else stop .invalidNumber rest

/-- Passes an exponent behind its letter. -/
def skipExponent : Bytes → Except Failure Bytes
  | [] => stop .invalidNumber []
  | b :: rest =>
    if b = ascii '+' ∨ b = ascii '-' then skipExponentDigits rest
    else skipExponentDigits (b :: rest)

/-- Passes an exponent, if there is one. -/
def skipAfterFraction : Bytes → Except Failure Bytes
  | [] => .ok []
  | b :: rest =>
    if b = ascii 'e' ∨ b = ascii 'E' then skipExponent rest else .ok (b :: rest)

/-- Passes a fraction and an exponent, if there are any. -/
def skipAfterWhole : Bytes → Except Failure Bytes
  | [] => .ok []
  | b :: rest =>
    if b = ascii '.' then
      if startsWithDigit rest then skipAfterFraction (rest.dropWhile isDigit)
      else stop .invalidNumber rest.tail
    else skipAfterFraction (b :: rest)

/-- Passes a number behind its minus sign, if it has one. -/
def skipNumber : Bytes → Except Failure Bytes
  | [] => stop .invalidNumber []
  | b :: rest =>
    if b = ascii '0' then
      if startsWithDigit rest then stop .invalidNumber rest.tail else skipAfterWhole rest
    else if isDigit b then skipAfterWhole (rest.dropWhile isDigit)
    else stop .invalidNumber rest

end Json

end ScoringMarkup
