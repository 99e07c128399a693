import ScoringMarkup.Conversion.Error

/-!
# Logged computations

What a conversion reports while it runs, and the command line once it has succeeded. A logged
computation is its records, in order, together with its outcome; the records made before a failure
are kept, and nothing after it runs.
-/

namespace ScoringMarkup

/-- One record of a run. -/
inductive LogRecord
  /-- A node is entered. -/
  | entering (nodeName : String)
  /-- The conversion of a tree has failed. -/
  | failed (summary : String) (error : ConversionError)
  /-- A tree is refused for its depth. -/
  | rejected (summary : String) (limit : Nat)
  /-- A tree has been converted on the command line. -/
  | converted (type : ScalarType)
  deriving DecidableEq

namespace LogRecord

/-- The level under which a record is written. -/
def level : LogRecord → String
  | .entering _ => "TRACE"
  | .failed .. | .rejected .. | .converted _ => "DEBUG"

/-- The text of a record. -/
def message : LogRecord → String
  | .entering nodeName => "Translating " ++ nodeName
  | .failed summary error =>
    "Failed to translate expression '" ++ summary ++ "': " ++ error.message
  | .rejected summary limit =>
    "Rejected expression '" ++ summary ++ "': nesting exceeds " ++ toString limit
  | .converted type => "Translated expression with inferred type " ++ type.name

end LogRecord

/-- The records and the outcome of a computation. -/
structure Logged (α : Type) where
  records : List LogRecord
  outcome : Except ConversionError α

namespace Logged

variable {α β γ : Type}

/-- An outcome without records. -/
def ofOutcome (outcome : Except ConversionError α) : Logged α := ⟨[], outcome⟩

/-- A single record. -/
def record (r : LogRecord) : Logged Unit := ⟨[r], .ok ()⟩

/-- Runs the second computation on the result of the first, unless that failed. -/
def andThen (x : Logged α) (f : α → Logged β) : Logged β :=
  match x.outcome with
  | .ok a => ⟨x.records ++ (f a).records, (f a).outcome⟩
  | .error error => ⟨x.records, .error error⟩

instance : Monad Logged where
  pure a := ⟨[], .ok a⟩
  bind := andThen

/-- Adds a record made from the error if the computation fails. -/
def recordFailure (x : Logged α) (r : ConversionError → LogRecord) : Logged α :=
  match x.outcome with
  | .ok _ => x
  | .error error => ⟨x.records ++ [r error], .error error⟩

@[simp] theorem outcome_pure (a : α) : (pure a : Logged α).outcome = .ok a := rfl

@[simp] theorem records_pure (a : α) : (pure a : Logged α).records = [] := rfl

/-- The outcome of two computations in a row. -/
theorem outcome_bind (x : Logged α) (f : α → Logged β) :
    (x >>= f).outcome = x.outcome.bind fun a => (f a).outcome := by
  show (andThen x f).outcome = _
  unfold andThen
  cases x.outcome <;> rfl

/-- Three computations in a row may be grouped either way. -/
theorem andThen_assoc (x : Logged α) (f : α → Logged β) (g : β → Logged γ) :
    andThen (andThen x f) g = andThen x fun a => andThen (f a) g := by
  obtain ⟨records, outcome⟩ := x
  cases outcome with
  | error error => rfl
  | ok a =>
    simp only [andThen]
    cases (f a).outcome <;> simp

instance : LawfulMonad Logged := LawfulMonad.mk' Logged
  (fun x => by
    obtain ⟨records, outcome⟩ := x
    cases outcome <;> simp [Functor.map, andThen])
  (fun a f => by simp [Bind.bind, Pure.pure, andThen])
  andThen_assoc

/-- A computation that keeps nothing of an outcome but a fixed result is that of the outcome's
success alone. -/
theorem ofOutcome_bind {x : Except ConversionError α} {a : α} (h : ∀ b, x = .ok b → b = a)
    (f : α → Logged β) :
    ofOutcome x >>= f = ofOutcome (x.map fun _ => ()) >>= fun _ => f a := by
  cases x with
  | error error => rfl
  | ok b =>
    rw [h b rfl]
    rfl

end Logged

end ScoringMarkup
