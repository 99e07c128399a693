import Mathlib.Tactic.SplitIfs
import ScoringMarkup.Json.Reader

/-!
# Reading under a higher limit

A limit of open containers has one effect: it ends a reading that would open more. Where it does
not, the outcome, a datum as well as any other failure, is that under every higher limit.
-/

namespace ScoringMarkup

namespace Json

variable {σ : Type} {α β : Type}

/-- Whether an outcome is that under a higher limit, unless the limit has ended the reading. -/
def Curtails (x y : Except Failure α) : Prop := (∃ rest, x = stop .tooDeep rest) ∨ x = y

namespace Curtails

/-- An outcome is that under the same limit. -/
theorem refl (x : Except Failure α) : Curtails x x := Or.inr rfl

/-- An outcome under a limit is that under all higher ones. -/
theorem trans {x y z : Except Failure α} (hxy : Curtails x y) (hyz : Curtails y z) :
    Curtails x z := by
  rcases hxy with hdeep | rfl
  · exact Or.inl hdeep
  · exact hyz

/-- Two readings are compared step by step. -/
theorem bind {x y : Except Failure α} {f g : α → Except Failure β} (hxy : Curtails x y)
    (hfg : ∀ a, Curtails (f a) (g a)) : Curtails (x >>= f) (y >>= g) := by
  rcases hxy with ⟨rest, rfl⟩ | rfl
  · exact Or.inl ⟨rest, rfl⟩
  · cases x with
    | error failure => exact refl _
    | ok a => exact hfg a

/-- A first step that no limit concerns is left out of the comparison. -/
theorem bind_right (x : Except Failure α) {f g : α → Except Failure β}
    (hfg : ∀ a, Curtails (f a) (g a)) : Curtails (x >>= f) (x >>= g) :=
  (refl x).bind hfg

/-- The failure of the limit has its place already, and every other is placed as under a higher
limit. -/
theorem placing {x y : Except Failure α} (h : Curtails x y) (leave : Bytes → Bytes) :
    Curtails (placing leave x) (placing leave y) := by
  rcases h with ⟨rest, rfl⟩ | rfl
  · exact Or.inl ⟨rest, rfl⟩
  · exact refl _

end Curtails

/-! ## Containers -/

section Contents

variable {reader reader' : σ → Bytes → Except Failure (Datum × Bytes)}
  (hreader : ∀ symbol input, Curtails (reader symbol input) (reader' symbol input))
include hreader

/-- The items of a list are read as under a higher limit, up to one that is too deep. -/
theorem readItems_curtails (symbol : σ) (bound : Nat) (done : List Datum) (input : Bytes) :
    Curtails (readItems (reader symbol) bound done input)
      (readItems (reader' symbol) bound done input) := by
  induction bound generalizing done input with
  | zero => exact .refl _
  | succ bound ih =>
    unfold readItems
    cases nextItem done.isEmpty input with
    | error failure => exact .refl _
    | ok progress =>
      cases progress with
      | closed rest => exact .refl _
      | entry rest =>
        dsimp only
        rcases hreader symbol rest with ⟨behind, hdeep⟩ | heq
        · rw [hdeep]
          exact Or.inl ⟨behind, rfl⟩
        · rw [heq]
          cases reader' symbol rest with
          | error failure => exact .refl _
          | ok p => exact ih _ _

/-- The fields of a record from a list are read as under a higher limit. -/
theorem readElements_curtails (expected : String) (position : Nat) (fields : List (Field σ))
    (input : Bytes) :
    Curtails (readElements reader expected position fields input)
      (readElements reader' expected position fields input) := by
  induction fields generalizing position input with
  | nil => exact .refl _
  | cons field fields ih =>
    refine .bind_right _ ?_
    rintro (rest | rest)
    · exact .refl _
    · exact (hreader field.symbol rest).bind fun _ => (ih _ _).bind fun _ => .refl _

/-- The entries of an object are read as under a higher limit; skipped values do not count. -/
theorem readEntries_curtails (fields : List (Field σ)) (bound : Nat) (isFirst : Bool)
    (found : List (String × Datum)) (input : Bytes) :
    Curtails (readEntries reader fields bound isFirst found input)
      (readEntries reader' fields bound isFirst found input) := by
  induction bound generalizing isFirst found input with
  | zero => exact .refl _
  | succ bound ih =>
    refine .bind_right _ ?_
    rintro (rest | rest)
    · exact .refl _
    · refine .bind_right _ ?_
      rintro ⟨key, rest⟩
      dsimp only
      cases fields.find? fun field => field.name == key with
      | none => exact .bind_right _ fun _ => .bind_right _ fun _ => ih _ _ _
      | some field =>
        dsimp only
        split_ifs with hfound
        · exact .refl _
        · exact .bind_right _ fun _ => (hreader _ _).bind fun _ => ih _ _ _

/-- The payload of a variant is read as under a higher limit. -/
theorem readPayload_curtails (v : Variant σ) (input : Bytes) :
    Curtails (readPayload reader v input) (readPayload reader' v input) := by
  unfold readPayload
  cases v.payload with
  | none => exact .refl _
  | value symbol => exact (hreader _ _).bind fun _ => .refl _
  | fields symbol => exact (hreader _ _).bind fun _ => .refl _

/-- The object of a variant is read as under a higher limit. -/
theorem readVariantObject_curtails (variants : List (Variant σ)) (input : Bytes) :
    Curtails (readVariantObject reader variants input)
      (readVariantObject reader' variants input) := by
  unfold readVariantObject
  cases skipBlanks input with
  | nil => exact .refl _
  | cons b rest =>
    dsimp only
    by_cases hquote : b = ascii '"'
    · rw [if_pos hquote, if_pos hquote]
      exact .bind_right _ fun _ => .bind_right _ fun _ => .bind_right _ fun _ =>
        (readPayload_curtails hreader _ _).bind fun _ => .refl _
    · rw [if_neg hquote, if_neg hquote]
      exact .refl _

end Contents

/-! ## Rules -/

/-- The containers of one reading can be entered, if at all, by readers that it curtails. -/
theorem entering_curtails {inside inside' : Option (σ → Bytes → Except Failure (Datum × Bytes))}
    {contents : (σ → Bytes → Except Failure (Datum × Bytes)) → Except Failure α}
    (hinside : ∀ reader, inside = some reader → ∃ reader', inside' = some reader' ∧
      Curtails (contents reader) (contents reader')) (rest : Bytes) :
    Curtails (entering inside rest contents) (entering inside' rest contents) := by
  cases inside with
  | none => exact Or.inl ⟨rest, rfl⟩
  | some reader =>
    obtain ⟨reader', rfl, hcontents⟩ := hinside reader rfl
    exact hcontents

/-- What a rule asks for is read as under a higher limit. -/
theorem readRule_curtails {inside inside' : Option (σ → Bytes → Except Failure (Datum × Bytes))}
    (hinside : ∀ reader, inside = some reader → ∃ reader', inside' = some reader' ∧
      ∀ symbol input, Curtails (reader symbol input) (reader' symbol input))
    (rule : Rule σ) (input : Bytes) :
    Curtails (readRule inside rule input) (readRule inside' rule input) := by
  -- The readers differ behind brackets only, where one may find no room that the other has.
  cases rule with
  | string | boolean | integer | optionalInteger | double => exact .refl _
  | list item =>
    rw [readRule, readRule]
    cases skipBlanks input with
    | nil => exact .refl _
    | cons b rest =>
      dsimp only
      split_ifs with hopening
      · refine (entering_curtails (fun reader h => ?_) _).placing _
        obtain ⟨reader', h', hreader⟩ := hinside reader h
        exact ⟨reader', h', (readItems_curtails hreader _ _ _ _).bind fun _ => .refl _⟩
      · exact .refl _
  | record title fields =>
    rw [readRule, readRule]
    cases skipBlanks input with
    | nil => exact .refl _
    | cons b rest =>
      dsimp only
      split_ifs with hlist hobject
      · refine (entering_curtails (fun reader h => ?_) _).placing _
        obtain ⟨reader', h', hreader⟩ := hinside reader h
        exact ⟨reader', h', (readElements_curtails hreader _ _ _ _).bind fun _ => .refl _⟩
      · refine (entering_curtails (fun reader h => ?_) _).placing _
        obtain ⟨reader', h', hreader⟩ := hinside reader h
        exact ⟨reader', h', (readEntries_curtails hreader _ _ _ _ _).bind fun _ => .refl _⟩
      · exact .refl _
  | choice variants =>
    rw [readRule, readRule]
    cases skipBlanks input with
    | nil => exact .refl _
    | cons b rest =>
      dsimp only
      split_ifs with hquote hobject
      · exact .refl _
      · refine entering_curtails (fun reader h => ?_) _
        obtain ⟨reader', h', hreader⟩ := hinside reader h
        exact ⟨reader', h', readVariantObject_curtails hreader _ _⟩
      · exact .refl _

/-- With more containers to open, the outcome is the same unless one of them was missing. -/
theorem read_curtails (grammar : Grammar σ) {n m : Nat} (h : n ≤ m) (symbol : σ) (input : Bytes) :
    Curtails (read grammar n symbol input) (read grammar m symbol input) := by
  induction n generalizing m symbol input with
  | zero =>
    cases m with
    | zero => exact .refl _
    | succ m =>
      refine readRule_curtails (fun reader hreader => ?_) _ _
      cases hreader
  | succ n ih =>
    cases m with
    | zero => exact absurd h (Nat.not_succ_le_zero n)
    | succ m =>
      refine readRule_curtails (fun reader hreader => ?_) _ _
      cases hreader
      exact ⟨_, rfl, fun symbol input => ih (Nat.le_of_succ_le_succ h) symbol input⟩

/-- A whole document of a symbol under a limit of its own. -/
def readDocumentWithin (limit : Nat) (grammar : Grammar σ) (symbol : σ) (document : Bytes) :
    Except Failure Datum := do
  let (d, rest) ← read grammar limit symbol document
  match skipBlanks rest with
  | [] => return d
  | _ :: rest => stop .trailingCharacters rest

/-- A reading that the limit does not end has the outcome of one under any higher limit. -/
theorem readDocument_curtails (grammar : Grammar σ) {limit : Nat} (h : containerLimit ≤ limit)
    (symbol : σ) (document : Bytes) :
    Curtails (readDocument grammar symbol document)
      (readDocumentWithin limit grammar symbol document) :=
  (read_curtails grammar h symbol document).bind fun _ => .refl _

end Json

end ScoringMarkup
