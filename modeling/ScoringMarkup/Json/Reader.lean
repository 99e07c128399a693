import ScoringMarkup.Json.Grammar
import ScoringMarkup.Json.Skipping

/-!
# Reading by a grammar

A document is read once from left to right, and the first fault met ends the reading. A record
is an object with its keys in any order or a list in field order; a variant is its name, or an
object with the name as its only key. Unknown keys are skipped. Only a limited number of
containers may be open at once; skipped ones do not count. A failure that has no place of its own
is placed by the record or the list around it, where that is left; the object of a variant places
nothing.
-/

namespace ScoringMarkup

namespace Json

/-- Containers that may be open at once. -/
def containerLimit : Nat := 127

variable {σ : Type}

/-- The failure of a value of another kind than the one asked for. Scalars are read to be named,
so their own faults come first; containers are not entered. -/
def otherKind {α : Type} (expected : String) : Bytes → Except Failure α
  | [] => stop .endInValue []
  | b :: rest =>
    if b = ascii 'n' then do
      let rest ← readWord ['u', 'l', 'l'] rest
      stop (.wrongKind .null expected) rest
    else if b = ascii 't' then do
      let rest ← readWord ['r', 'u', 'e'] rest
      stop (.wrongKind (.boolean true) expected) rest
    else if b = ascii 'f' then do
      let rest ← readWord ['a', 'l', 's', 'e'] rest
      stop (.wrongKind (.boolean false) expected) rest
    else if b = ascii '-' ∨ isDigit b then do
      match ← if b = ascii '-' then readNumber true rest else readNumber false (b :: rest) with
      | (.integer n, rest) => stop (.wrongKind (.integer n) expected) rest.tail
      | (.double x, rest) => stop (.wrongKind (.double x) expected) rest.tail
    else if b = ascii '"' then do
      let (s, rest) ← readString rest
      stop (.wrongKind (.string s) expected) rest
    else if b = ascii '[' then stop (.wrongKind .sequence expected) rest
    else if b = ascii '\x7b' then stop (.wrongKind .map expected) rest
    else stop .expectedValue rest

/-- A number, or the failure of another kind of value. -/
def readNumberOr (expected : String) (input : Bytes) : Except Failure (Number × Bytes) :=
  match skipBlanks input with
  | [] => stop .endInValue []
  | b :: rest =>
    if b = ascii '-' then readNumber true rest
    else if isDigit b then readNumber false (b :: rest)
    else otherKind expected (b :: rest)

/-- An integer of a range. -/
def readInteger (range : IntegerRange) (input : Bytes) : Except Failure (Datum × Bytes) := do
  match ← readNumberOr range.name input with
  | (.integer n, rest) =>
    if range.least ≤ n ∧ n ≤ range.greatest then .ok (.integer n, rest)
    else stop (.integerOutOfRange n range.name) rest.tail
  | (.double x, rest) => stop (.wrongKind (.double x) range.name) rest.tail

/-- An integer of a range, or null. -/
def readOptionalInteger (range : IntegerRange) (input : Bytes) :
    Except Failure (Datum × Bytes) :=
  match skipBlanks input with
  | [] => stop .endInValue []
  | b :: rest =>
    if b = ascii 'n' then do
      let rest ← readWord ['u', 'l', 'l'] rest
      return (.null, rest)
    else readInteger range (b :: rest)

/-- A double; integers are rounded to one. -/
def readDouble (input : Bytes) : Except Failure (Datum × Bytes) := do
  match ← readNumberOr "f64" input with
  | (.integer n, rest) => return (.double (Double.ofRatio (decide (n < 0)) n.natAbs 1), rest)
  | (.double x, rest) => return (.double x, rest)

/-- A truth value. -/
def readBoolean (input : Bytes) : Except Failure (Datum × Bytes) :=
  match skipBlanks input with
  | [] => stop .endInValue []
  | b :: rest =>
    if b = ascii 't' then do
      let rest ← readWord ['r', 'u', 'e'] rest
      return (.boolean true, rest)
    else if b = ascii 'f' then do
      let rest ← readWord ['a', 'l', 's', 'e'] rest
      return (.boolean false, rest)
    else otherKind "a boolean" (b :: rest)

/-- A string value. -/
def readStringValue (input : Bytes) : Except Failure (Datum × Bytes) :=
  match skipBlanks input with
  | [] => stop .endInValue []
  | b :: rest =>
    if b = ascii '"' then do
      let (s, rest) ← readString rest
      return (.string s, rest)
    else otherKind "a string" (b :: rest)

/-- The null that may stand as the payload of a variant that has none. -/
def readUnit (input : Bytes) : Except Failure Bytes :=
  match skipBlanks input with
  | [] => stop .endInValue []
  | b :: rest =>
    if b = ascii 'n' then readWord ['u', 'l', 'l'] rest else otherKind "unit" (b :: rest)

/-- Whether a container goes on: behind its closing bracket, or at its next entry. -/
inductive Progress
  | closed (rest : Bytes)
  | entry (rest : Bytes)

/-- The next item of a list. -/
def nextItem (isFirst : Bool) (input : Bytes) : Except Failure Progress :=
  match skipBlanks input with
  | [] => stop .endInList []
  | b :: rest =>
    if b = ascii ']' then .ok (.closed rest)
    else if isFirst then .ok (.entry (b :: rest))
    else if b = ascii ',' then
      match skipBlanks rest with
      | [] => stop .endInValue []
      | c :: rest => if c = ascii ']' then stop .trailingComma rest else .ok (.entry (c :: rest))
    else stop .expectedListSeparator rest

/-- The next key of an object, behind its opening quote. -/
def nextKey (isFirst : Bool) (input : Bytes) : Except Failure Progress :=
  match skipBlanks input with
  | [] => stop .endInObject []
  | b :: rest =>
    if b = ascii '\x7d' then .ok (.closed rest)
    else if isFirst then
      if b = ascii '"' then .ok (.entry rest) else stop .keyNotString rest
    else if b = ascii ',' then
      match skipBlanks rest with
      | [] => stop .endInValue []
      | c :: rest =>
        if c = ascii '"' then .ok (.entry rest)
        else if c = ascii '\x7d' then stop .trailingComma rest
        else stop .keyNotString rest
    else stop .expectedObjectSeparator rest

/-- The items of a list. `bound` is the number of bytes left and `done` holds the items read so
far, the last one first. -/
def readItems (item : Bytes → Except Failure (Datum × Bytes)) :
    (bound : Nat) → (done : List Datum) → Bytes → Except Failure (List Datum × Bytes)
  | 0, _, _ => stop .endInList []
  | bound + 1, done, input =>
    match nextItem done.isEmpty input with
    | .error failure => .error failure
    | .ok (.closed rest) => .ok (done.reverse, rest)
    | .ok (.entry rest) =>
      match item rest with
      | .error failure => .error failure
      | .ok (d, rest) => readItems item bound (d :: done) rest

/-- The number of elements of a record, as a message says it. -/
def elementCount (n : Nat) : String :=
  toString n ++ if n = 1 then " element" else " elements"

/-- Behind the last element of a record that is written as a list. -/
def closeElements (input : Bytes) : Except Failure Bytes :=
  match skipBlanks input with
  | [] => stop .endInList []
  | b :: rest =>
    if b = ascii ']' then .ok rest
    else if b = ascii ',' then
      match skipBlanks rest with
      | [] => stop .trailingCharacters []
      | c :: rest =>
        if c = ascii ']' then stop .trailingComma rest else stop .trailingCharacters rest
    else stop .trailingCharacters rest

/-- What fills the fields of a record for which a list has no more elements; `position` is the
number of elements read, and a field that may not be missing makes the list too short. -/
def absentElements (expected : String) (position : Nat) (rest : Bytes) :
    List (Field σ) → Except Failure (List (String × Datum))
  | [] => .ok []
  | field :: fields =>
    match field.absent with
    | none => stop (.wrongLength position expected) rest
    | some d => do
      let others ← absentElements expected (position + 1) rest fields
      return (field.name, d) :: others

/-- The fields of a record from a list of elements, `position` being the number read so far. -/
def readElements (read : σ → Bytes → Except Failure (Datum × Bytes)) (expected : String) :
    (position : Nat) → List (Field σ) → Bytes →
      Except Failure (List (String × Datum) × Bytes)
  | _, [], input => do
    let rest ← closeElements input
    return ([], rest)
  | position, field :: fields, input => do
    match ← nextItem (position == 0) input with
    | .closed rest =>
      let filled ← absentElements expected position rest (field :: fields)
      return (filled, rest)
    | .entry rest =>
      let (d, rest) ← read field.symbol rest
      let (others, rest) ← readElements read expected (position + 1) fields rest
      return ((field.name, d) :: others, rest)

/-- The entries of an object that name fields. `bound` is the number of bytes left and `found`
holds the entries read so far. -/
def readEntries (read : σ → Bytes → Except Failure (Datum × Bytes)) (fields : List (Field σ)) :
    (bound : Nat) → (isFirst : Bool) → (found : List (String × Datum)) → Bytes →
      Except Failure (List (String × Datum) × Bytes)
  | 0, _, _, _ => stop .endInObject []
  | bound + 1, isFirst, found, input => do
    match ← nextKey isFirst input with
    | .closed rest => return (found, rest)
    | .entry rest =>
      let (key, rest) ← readString rest
      match fields.find? fun field => field.name == key with
      | none =>
        let rest ← readColon rest
        let rest ← skipValue rest
        readEntries read fields bound false found rest
      | some field =>
        if (found.lookup key).isSome then stopUnplaced (.duplicateField key) rest
        else
          let rest ← readColon rest
          let (d, rest) ← read field.symbol rest
          readEntries read fields bound false ((key, d) :: found) rest

/-- The fields of a record in order, from the entries found. -/
def collectFields (found : List (String × Datum)) (rest : Bytes) :
    List (Field σ) → Except Failure (List (String × Datum))
  | [] => .ok []
  | field :: fields =>
    match (found.lookup field.name).or field.absent with
    | none => stop (.missingField field.name) rest
    | some d => do
      let others ← collectFields found rest fields
      return (field.name, d) :: others

/-- The variant with a given name, or the failure of an unknown one. -/
def findVariant (variants : List (Variant σ)) (name : String) (rest : Bytes) :
    Except Failure (Variant σ) :=
  match variants.find? fun v => v.name == name with
  | some v => .ok v
  | none => stop (.unknownVariant name (variants.map (·.name))) rest

/-- A variant by its name alone, behind the opening quote. -/
def readBareVariant (variants : List (Variant σ)) (input : Bytes) :
    Except Failure (Datum × Bytes) := do
  let (name, rest) ← readString input
  let v ← findVariant variants name rest
  match v.payload with
  | .none => return (.unit name, rest)
  | .value _ => stopUnplaced (.wrongKind .unitVariant "newtype variant") rest
  | .fields _ => stopUnplaced (.wrongKind .unitVariant "struct variant") rest

/-- The payload of a variant. -/
def readPayload (read : σ → Bytes → Except Failure (Datum × Bytes)) (v : Variant σ)
    (input : Bytes) : Except Failure (Datum × Bytes) := do
  match v.payload with
  | .none =>
    let rest ← readUnit input
    return (.unit v.name, rest)
  | .value symbol | .fields symbol =>
    let (d, rest) ← read symbol input
    return (.variant v.name d, rest)

/-- A variant with its payload, behind the opening bracket. -/
def readVariantObject (read : σ → Bytes → Except Failure (Datum × Bytes))
    (variants : List (Variant σ)) (input : Bytes) : Except Failure (Datum × Bytes) :=
  match skipBlanks input with
  | [] => stop .endInObject []
  | b :: rest =>
    if b = ascii '"' then do
      let (name, rest) ← readString rest
      let v ← findVariant variants name rest
      let rest ← readColon rest
      let (d, rest) ← readPayload read v rest
      match skipBlanks rest with
      | [] => stop .endInObject []
      | c :: rest => if c = ascii '\x7d' then .ok (d, rest) else stop .expectedValue rest
    else if b = ascii '\x7d' then stop .expectedValue rest
    else stop .keyNotString rest

/-- Enters a container, behind its opening bracket, if one more may be open. -/
def entering {α : Type} (inside : Option (σ → Bytes → Except Failure (Datum × Bytes)))
    (rest : Bytes)
    (contents : (σ → Bytes → Except Failure (Datum × Bytes)) → Except Failure α) :
    Except Failure α :=
  match inside with
  | none => stop .tooDeep rest
  | some read => contents read

/-- What is left behind the bytes that are looked at when an object is left with a failure: those up
to its next sign. -/
def leaveObject (input : Bytes) : Bytes := (skipBlanks input).tail

/-- What is left behind the bytes that are looked at when a list is left with a failure: those up to
its next sign, and to the one behind a comma. -/
def leaveList (input : Bytes) : Bytes :=
  match skipBlanks input with
  | [] => []
  | b :: rest => if b = ascii ',' then (skipBlanks rest).tail else rest

/-- A value that follows a rule. `inside` reads the values within a container, if one may be
opened here. -/
def readRule (inside : Option (σ → Bytes → Except Failure (Datum × Bytes))) :
    Rule σ → Bytes → Except Failure (Datum × Bytes)
  | .string, input => readStringValue input
  | .boolean, input => readBoolean input
  | .integer range, input => readInteger range input
  | .optionalInteger range, input => readOptionalInteger range input
  | .double, input => readDouble input
  | .list item, input =>
    match skipBlanks input with
    | [] => stop .endInValue []
    | b :: rest =>
      if b = ascii '[' then
        placing leaveList <| entering inside rest fun read => do
          let (items, rest) ← readItems (read item) rest.length [] rest
          return (.list items, rest)
      else otherKind "a sequence" (b :: rest)
  | .record title fields, input =>
    match skipBlanks input with
    | [] => stop .endInValue []
    | b :: rest =>
      if b = ascii '[' then
        placing leaveList <| entering inside rest fun read => do
          let expected := title ++ " with " ++ elementCount fields.length
          let (values, rest) ← readElements read expected 0 fields rest
          return (.record values, rest)
      else if b = ascii '\x7b' then
        placing leaveObject <| entering inside rest fun read => do
          let (found, rest) ← readEntries read fields rest.length true [] rest
          let values ← collectFields found rest fields
          return (.record values, rest)
      else otherKind title (b :: rest)
  | .choice variants, input =>
    match skipBlanks input with
    | [] => stop .endInValue []
    | b :: rest =>
      if b = ascii '"' then readBareVariant variants rest
      else if b = ascii '\x7b' then
        entering inside rest fun read => readVariantObject read variants rest
      else stop .expectedValue rest

/-- A value at a place of a symbol, with a number of containers that may still be opened. -/
def read (grammar : Grammar σ) : (containers : Nat) → σ → Bytes → Except Failure (Datum × Bytes)
  | 0, symbol, input => readRule none (grammar symbol) input
  | containers + 1, symbol, input =>
    readRule (some (read grammar containers)) (grammar symbol) input

/-- A whole document of a symbol. -/
def readDocument (grammar : Grammar σ) (symbol : σ) (document : Bytes) : Except Failure Datum := do
  let (d, rest) ← read grammar containerLimit symbol document
  match skipBlanks rest with
  | [] => return d
  | _ :: rest => stop .trailingCharacters rest

end Json

end ScoringMarkup
