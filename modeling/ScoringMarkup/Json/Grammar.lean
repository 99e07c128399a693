import ScoringMarkup.Double.Basic

/-!
# Grammars of documents

What a document may hold is given by a grammar: each symbol has a rule, which says what stands at
a place of that symbol and which symbols stand inside it. Reading by a grammar gives a datum, the
content of the document with the record fields in the order of the grammar.
-/

namespace ScoringMarkup

namespace Json

/-- The content of a document. -/
inductive Datum
  | null
  | boolean (b : Bool)
  | integer (n : Int)
  | double (x : Double)
  | string (s : String)
  | list (items : List Datum)
  /-- Named fields in order. -/
  | record (fields : List (String × Datum))
  /-- A variant by its name alone. -/
  | unit (name : String)
  /-- A variant with a payload. -/
  | variant (name : String) (payload : Datum)

/-- A range of integers under the name of its type. -/
structure IntegerRange where
  name : String
  least : Int
  greatest : Int

/-- A field of a record. -/
structure Field (σ : Type) where
  name : String
  symbol : σ
  /-- What holds if the field is missing, if it may be. -/
  absent : Option Datum

/-- What follows the name of a variant. -/
inductive Payload (σ : Type)
  | none
  /-- A single value. -/
  | value (symbol : σ)
  /-- A record that belongs to the variant. -/
  | fields (symbol : σ)

/-- One of several variants. -/
structure Variant (σ : Type) where
  name : String
  payload : Payload σ

/-- What stands at a place. -/
inductive Rule (σ : Type)
  | string
  | boolean
  | integer (range : IntegerRange)
  /-- An integer or null. -/
  | optionalInteger (range : IntegerRange)
  | double
  | list (item : σ)
  /-- A record, called by its title where another kind of value stands. -/
  | record (title : String) (fields : List (Field σ))
  | choice (variants : List (Variant σ))

/-- A rule for each symbol. -/
abbrev Grammar (σ : Type) := σ → Rule σ

end Json

end ScoringMarkup
