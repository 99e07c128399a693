import ScoringMarkup.Proofs.Json.Limit
import ScoringMarkup.Proofs.Json.RoundTrip
import ScoringMarkup.Proofs.Json.Tracking

/-!
# What reading by a grammar can come to

A datum that is read is what its symbol asks for, with no more containers inside one another than
could be opened. A failure is one of form, or it stands at a bracket that opens one container more
than may be open, or it says of a symbol of the grammar what stands at its place instead. This
holds of every document, however it is spelled.
-/

namespace ScoringMarkup

namespace Json

variable {σ : Type}

/-- The name and the value of a field, read or filled in for want of one. -/
structure FillsField (within : σ → Datum → Prop) (field : Field σ) (entry : String × Datum) :
    Prop where
  name_eq : entry.1 = field.name
  value : within field.symbol entry.2 ∨ field.absent = some entry.2

/-- Whether a datum is what a rule asks for. `inside` says it of the values within a container, if
one may be opened. -/
inductive Fits (inside : Option (σ → Datum → Prop)) : Rule σ → Datum → Prop
  | string (s : String) : Fits inside .string (.string s)
  | boolean (b : Bool) : Fits inside .boolean (.boolean b)
  | integer {range : IntegerRange} {n : Int} (hrange : range.least ≤ n ∧ n ≤ range.greatest) :
    Fits inside (.integer range) (.integer n)
  | noInteger {range : IntegerRange} : Fits inside (.optionalInteger range) .null
  | someInteger {range : IntegerRange} {n : Int}
    (hrange : range.least ≤ n ∧ n ≤ range.greatest) :
    Fits inside (.optionalInteger range) (.integer n)
  | double (x : Double) : Fits inside .double (.double x)
  | list {within : σ → Datum → Prop} {item : σ} {items : List Datum}
    (hinside : inside = some within) (h : ∀ d ∈ items, within item d) :
    Fits inside (.list item) (.list items)
  | record {within : σ → Datum → Prop} {title : String} {fields : List (Field σ)}
    {values : List (String × Datum)} (hinside : inside = some within)
    (h : List.Forall₂ (FillsField within) fields values) :
    Fits inside (.record title fields) (.record values)
  | unit {variants : List (Variant σ)} {v : Variant σ} (hv : v ∈ variants)
    (hpayload : v.payload = .none) : Fits inside (.choice variants) (.unit v.name)
  | variant {within : σ → Datum → Prop} {variants : List (Variant σ)} {v : Variant σ}
    {symbol : σ} {d : Datum} (hinside : inside = some within) (hv : v ∈ variants)
    (hpayload : v.payload = .value symbol ∨ v.payload = .fields symbol) (h : within symbol d) :
    Fits inside (.choice variants) (.variant v.name d)

/-- Whether a datum is what a symbol asks for, with at most a number of containers inside one
another. -/
def FitsWithin (grammar : Grammar σ) : (containers : Nat) → σ → Datum → Prop
  | 0, symbol => Fits none (grammar symbol)
  | containers + 1, symbol => Fits (some (FitsWithin grammar containers)) (grammar symbol)

/-- Whether a datum is one of a variant: its name alone, or its name and what it asks for, in a
container of its own. -/
def FitsVariant (grammar : Grammar σ) (containers : Nat) (v : Variant σ) (d : Datum) : Prop :=
  match v.payload with
  | .none => d = .unit v.name
  | .value symbol | .fields symbol =>
    ∃ k held, containers = k + 1 ∧ d = .variant v.name held ∧ FitsWithin grammar k symbol held

namespace FitsWithin

variable {grammar : Grammar σ} {n : Nat} {symbol : σ} {d : Datum}

/-- The predicate on the values inside a container, if one may be opened. -/
private theorem exists_fits (h : FitsWithin grammar n symbol d) :
    ∃ inside, Fits inside (grammar symbol) d ∧
      ∀ within, inside = some within → ∃ k, n = k + 1 ∧ within = FitsWithin grammar k := by
  cases n with
  | zero => exact ⟨none, h, nofun⟩
  | succ k => exact ⟨_, h, fun _ hwithin => ⟨k, rfl, (Option.some.inj hwithin).symm⟩⟩

/-- A symbol for strings is given a string. -/
theorem string (h : FitsWithin grammar n symbol d) (hrule : grammar symbol = .string) :
    ∃ s, d = .string s := by
  obtain ⟨inside, h, -⟩ := h.exists_fits
  rw [hrule] at h
  cases h with
  | string s => exact ⟨s, rfl⟩

/-- A symbol for truth values is given one. -/
theorem boolean (h : FitsWithin grammar n symbol d) (hrule : grammar symbol = .boolean) :
    ∃ b, d = .boolean b := by
  obtain ⟨inside, h, -⟩ := h.exists_fits
  rw [hrule] at h
  cases h with
  | boolean b => exact ⟨b, rfl⟩

/-- A symbol for doubles is given one. -/
theorem double (h : FitsWithin grammar n symbol d) (hrule : grammar symbol = .double) :
    ∃ x, d = .double x := by
  obtain ⟨inside, h, -⟩ := h.exists_fits
  rw [hrule] at h
  cases h with
  | double x => exact ⟨x, rfl⟩

/-- A symbol for integers is given one of its range. -/
theorem integer {range : IntegerRange} (h : FitsWithin grammar n symbol d)
    (hrule : grammar symbol = .integer range) :
    ∃ i, d = .integer i ∧ range.least ≤ i ∧ i ≤ range.greatest := by
  obtain ⟨inside, h, -⟩ := h.exists_fits
  rw [hrule] at h
  cases h with
  | integer hrange => exact ⟨_, rfl, hrange⟩

/-- A symbol for lists is given one, in a container of its own. -/
theorem list {item : σ} (h : FitsWithin grammar n symbol d) (hrule : grammar symbol = .list item) :
    ∃ k items, n = k + 1 ∧ d = .list items ∧ ∀ d ∈ items, FitsWithin grammar k item d := by
  obtain ⟨inside, h, hwithin⟩ := h.exists_fits
  rw [hrule] at h
  cases h with
  | list hinside h =>
    obtain ⟨k, rfl, rfl⟩ := hwithin _ hinside
    exact ⟨k, _, rfl, rfl, h⟩

/-- A symbol for records is given one, with its fields in order, in a container of its own. -/
theorem record {title : String} {fields : List (Field σ)} (h : FitsWithin grammar n symbol d)
    (hrule : grammar symbol = .record title fields) :
    ∃ k values, n = k + 1 ∧ d = .record values ∧
      List.Forall₂ (FillsField (FitsWithin grammar k)) fields values := by
  obtain ⟨inside, h, hwithin⟩ := h.exists_fits
  rw [hrule] at h
  cases h with
  | record hinside h =>
    obtain ⟨k, rfl, rfl⟩ := hwithin _ hinside
    exact ⟨k, _, rfl, rfl, h⟩

/-- A symbol for variants is given one of them. -/
theorem choice {variants : List (Variant σ)} (h : FitsWithin grammar n symbol d)
    (hrule : grammar symbol = .choice variants) : ∃ v ∈ variants, FitsVariant grammar n v d := by
  obtain ⟨inside, h, hwithin⟩ := h.exists_fits
  rw [hrule] at h
  cases h with
  | @unit variants v hv hpayload =>
    refine ⟨v, hv, ?_⟩
    rw [FitsVariant, hpayload]
  | @variant within variants v symbol d hinside hv hpayload h =>
    obtain ⟨k, rfl, rfl⟩ := hwithin _ hinside
    refine ⟨v, hv, ?_⟩
    rcases hpayload with hpayload | hpayload
    · rw [FitsVariant, hpayload]
      exact ⟨k, d, rfl, rfl, h⟩
    · rw [FitsVariant, hpayload]
      exact ⟨k, d, rfl, rfl, h⟩

end FitsWithin

/-- What a rule is said to ask for where something else stands. -/
def Rule.kinds : Rule σ → List String
  | .string => ["a string"]
  | .boolean => ["a boolean"]
  | .integer range | .optionalInteger range => [range.name]
  | .double => ["f64"]
  | .list _ => ["a sequence"]
  | .record title _ => [title]
  | .choice _ => ["unit", "newtype variant", "struct variant"]

/-- Why the reading of a document stops, where at most `limit` containers may be open. Only the bare
name of a variant and a second field of one name may be without a place of their own, apart from
failures of form. -/
inductive Explains (grammar : Grammar σ) (document : Bytes) (limit : Nat) : Failure → Prop
  | formal {failure : Failure} (h : failure.IsFormal) : Explains grammar document limit failure
  | tooDeep {b : UInt8} {rest : Bytes} (hb : IsOpening b)
    (h : Reached document ⟨limit, .outside⟩ (b :: rest)) :
    Explains grammar document limit ⟨.tooDeep, rest, true⟩
  | wrongKind {symbol : σ} {found : Found} {expected : String} {rest : Bytes}
    (h : expected ∈ (grammar symbol).kinds) :
    Explains grammar document limit ⟨.wrongKind found expected, rest, true⟩
  | bareVariant {symbol : σ} {expected : String} {rest : Bytes} {isPlaced : Bool}
    (h : expected ∈ (grammar symbol).kinds) :
    Explains grammar document limit ⟨.wrongKind .unitVariant expected, rest, isPlaced⟩
  | integerOutOfRange {symbol : σ} {n : Int} {expected : String} {rest : Bytes}
    (h : expected ∈ (grammar symbol).kinds) :
    Explains grammar document limit ⟨.integerOutOfRange n expected, rest, true⟩
  | unknownVariant {symbol : σ} {variants : List (Variant σ)} {name : String} {rest : Bytes}
    (h : grammar symbol = .choice variants) :
    Explains grammar document limit ⟨.unknownVariant name (variants.map (·.name)), rest, true⟩
  | missingField {symbol : σ} {title : String} {fields : List (Field σ)} {field : Field σ}
    {rest : Bytes} (h : grammar symbol = .record title fields) (hfield : field ∈ fields) :
    Explains grammar document limit ⟨.missingField field.name, rest, true⟩
  | duplicateField {symbol : σ} {title : String} {fields : List (Field σ)} {field : Field σ}
    {rest : Bytes} {isPlaced : Bool} (h : grammar symbol = .record title fields)
    (hfield : field ∈ fields) :
    Explains grammar document limit ⟨.duplicateField field.name, rest, isPlaced⟩
  | wrongLength {symbol : σ} {title : String} {fields : List (Field σ)} {length : Nat}
    {rest : Bytes} (h : grammar symbol = .record title fields) :
    Explains grammar document limit
      ⟨.wrongLength length (title ++ " with " ++ elementCount fields.length), rest, true⟩

/-- A failure that is given a place stays what it is. -/
theorem Explains.placedBy {grammar : Grammar σ} {document : Bytes} {limit : Nat}
    {failure : Failure} (h : Explains grammar document limit failure) (leave : Bytes → Bytes) :
    Explains grammar document limit (failure.placedBy leave) := by
  cases h with
  | formal h =>
    unfold Failure.placedBy
    split_ifs with hplaced
    · exact .formal h
    · exact .formal h
  | tooDeep hb h => exact .tooDeep hb h
  | wrongKind h => exact .wrongKind h
  | @bareVariant _ _ _ isPlaced h => cases isPlaced <;> exact .bareVariant h
  | integerOutOfRange h => exact .integerOutOfRange h
  | unknownVariant h => exact .unknownVariant h
  | missingField h hfield => exact .missingField h hfield
  | @duplicateField _ _ _ _ _ isPlaced h hfield => cases isPlaced <;> exact .duplicateField h hfield
  | wrongLength h => exact .wrongLength h

/-- A failure of the limit stands at the bracket of one container too many. -/
theorem Explains.opens {grammar : Grammar σ} {document : Bytes} {limit : Nat} {failure : Failure}
    (h : Explains grammar document limit failure) (hcause : failure.cause = .tooDeep) :
    ∃ b, IsOpening b ∧ Reached document ⟨limit, .outside⟩ (b :: failure.rest) := by
  cases h with
  | formal h =>
    rw [Failure.IsFormal, hcause] at h
    cases h
  | tooDeep hb h => exact ⟨_, hb, h⟩
  | _ => cases hcause

/-- A function that fails for form alone fails for a reason of the grammar. -/
theorem Meets.explained {α : Type} {x : Except Failure α} {result : α → Prop}
    (h : Meets x result Failure.IsFormal) {grammar : Grammar σ} {document : Bytes} {limit : Nat} :
    Meets x result (Explains grammar document limit) :=
  h.imp_failed fun _ => .formal

/-- A failure inside a container has the same reason when it is given a place. -/
theorem Meets.placing {α : Type} {x : Except Failure α} {result : α → Prop}
    {grammar : Grammar σ} {document : Bytes} {limit : Nat}
    (h : Meets x result (Explains grammar document limit)) (leave : Bytes → Bytes) :
    Meets (placing leave x) result (Explains grammar document limit) := by
  cases x with
  | error failure => exact Explains.placedBy h leave
  | ok a => exact h

/-- Whether a reader gives what is good, with `o` containers open behind it, or fails for a reason
of the grammar. -/
def Yields {α : Type} (grammar : Grammar σ) (document : Bytes) (limit o : Nat) (good : α → Prop)
    (x : Except Failure (α × Bytes)) : Prop :=
  Meets x (fun p => good p.1 ∧ Reached document ⟨o, .outside⟩ p.2)
    (Explains grammar document limit)

section Reading

variable {grammar : Grammar σ} {document input rest : Bytes} {limit o : Nat} {symbol : σ}
  {expected : String}

/-! ## Scalars -/

/-- A value of another kind is never taken. -/
theorem otherKind_meets {α : Type} {result : α → Prop}
    (hexpected : expected ∈ (grammar symbol).kinds) (h : Reached document ⟨o, .outside⟩ input) :
    Meets (otherKind expected input) result (Explains grammar document limit) := by
  have hnamed (found : Found) (rest : Bytes) :
      Explains grammar document limit ⟨.wrongKind found expected, rest, true⟩ :=
    .wrongKind hexpected
  cases input with
  | nil => exact .formal rfl
  | cons b rest =>
    rw [otherKind]
    split_ifs with hnull htrue hfalse hnumber hminus hstring hlist hobject
    · subst hnull
      exact (readWord_meets (by decide) (h.unmarked (by decide))).explained.bind
        fun _ _ => hnamed _ _
    · subst htrue
      exact (readWord_meets (by decide) (h.unmarked (by decide))).explained.bind
        fun _ _ => hnamed _ _
    · subst hfalse
      exact (readWord_meets (by decide) (h.unmarked (by decide))).explained.bind
        fun _ _ => hnamed _ _
    · subst hminus
      refine (readNumber_meets true (h.unmarked (by decide))).explained.bind ?_
      rintro ⟨_ | _, rest⟩ - <;> exact hnamed _ _
    · refine (readNumber_meets false h).explained.bind ?_
      rintro ⟨_ | _, rest⟩ - <;> exact hnamed _ _
    · subst hstring
      exact (readString_meets h.cons).explained.bind fun ⟨_, _⟩ _ => hnamed _ _
    · exact hnamed _ _
    · exact hnamed _ _
    · exact .formal rfl

/-- A number is read, and nothing else taken. -/
theorem readNumberOr_meets (hexpected : expected ∈ (grammar symbol).kinds)
    (h : Reached document ⟨o, .outside⟩ input) :
    Meets (readNumberOr expected input) (fun p => Reached document ⟨o, .outside⟩ p.2)
      (Explains grammar document limit) := by
  unfold readNumberOr
  cases heq : skipBlanks input with
  | nil => exact .formal rfl
  | cons b rest =>
    have h := h.ofBlanks heq
    dsimp only
    split_ifs with hminus hdigit
    · subst hminus
      exact (readNumber_meets true (h.unmarked (by decide))).explained
    · exact (readNumber_meets false h).explained
    · exact otherKind_meets hexpected h

/-- An integer that is read lies in its range. -/
theorem readInteger_yields {range : IntegerRange} {good : Datum → Prop}
    (hgood : ∀ {n}, range.least ≤ n ∧ n ≤ range.greatest → good (.integer n))
    (hexpected : range.name ∈ (grammar symbol).kinds) (h : Reached document ⟨o, .outside⟩ input) :
    Yields grammar document limit o good (readInteger range input) := by
  refine (readNumberOr_meets hexpected h).bind ?_
  rintro ⟨n | x, rest⟩ h
  · dsimp only
    split_ifs with hrange
    · exact ⟨hgood hrange, h⟩
    · exact .integerOutOfRange hexpected
  · exact .wrongKind hexpected

/-- An optional integer that is read is null or lies in its range. -/
theorem readOptionalInteger_yields {range : IntegerRange} {good : Datum → Prop}
    (hnull : good .null)
    (hgood : ∀ {n}, range.least ≤ n ∧ n ≤ range.greatest → good (.integer n))
    (hexpected : range.name ∈ (grammar symbol).kinds) (h : Reached document ⟨o, .outside⟩ input) :
    Yields grammar document limit o good (readOptionalInteger range input) := by
  unfold readOptionalInteger
  cases heq : skipBlanks input with
  | nil => exact .formal rfl
  | cons b rest =>
    have h := h.ofBlanks heq
    dsimp only
    split_ifs with hb
    · subst hb
      exact (readWord_meets (by decide) (h.unmarked (by decide))).explained.bind
        fun _ h => ⟨hnull, h⟩
    · exact readInteger_yields hgood hexpected h

/-- Whatever number is read, the result is a double. -/
theorem readDouble_yields {good : Datum → Prop} (hgood : ∀ x, good (.double x))
    (hexpected : "f64" ∈ (grammar symbol).kinds) (h : Reached document ⟨o, .outside⟩ input) :
    Yields grammar document limit o good (readDouble input) := by
  refine (readNumberOr_meets hexpected h).bind ?_
  rintro ⟨n | x, rest⟩ h
  · exact ⟨hgood _, h⟩
  · exact ⟨hgood _, h⟩

/-- A truth value is read, and nothing else taken. -/
theorem readBoolean_yields {good : Datum → Prop} (hgood : ∀ b, good (.boolean b))
    (hexpected : "a boolean" ∈ (grammar symbol).kinds)
    (h : Reached document ⟨o, .outside⟩ input) :
    Yields grammar document limit o good (readBoolean input) := by
  unfold readBoolean
  cases heq : skipBlanks input with
  | nil => exact .formal rfl
  | cons b rest =>
    have h := h.ofBlanks heq
    dsimp only
    split_ifs with htrue hfalse
    · subst htrue
      exact (readWord_meets (by decide) (h.unmarked (by decide))).explained.bind
        fun _ h => ⟨hgood true, h⟩
    · subst hfalse
      exact (readWord_meets (by decide) (h.unmarked (by decide))).explained.bind
        fun _ h => ⟨hgood false, h⟩
    · exact otherKind_meets hexpected h

/-- A string is read, and nothing else taken. -/
theorem readStringValue_yields {good : Datum → Prop} (hgood : ∀ s, good (.string s))
    (hexpected : "a string" ∈ (grammar symbol).kinds)
    (h : Reached document ⟨o, .outside⟩ input) :
    Yields grammar document limit o good (readStringValue input) := by
  unfold readStringValue
  cases heq : skipBlanks input with
  | nil => exact .formal rfl
  | cons b rest =>
    have h := h.ofBlanks heq
    dsimp only
    split_ifs with hquote
    · subst hquote
      exact (readString_meets h.cons).explained.bind fun ⟨s, _⟩ h => ⟨hgood s, h⟩
    · exact otherKind_meets hexpected h

/-- The payload of a variant that has none is passed. -/
theorem readUnit_meets (hexpected : "unit" ∈ (grammar symbol).kinds)
    (h : Reached document ⟨o, .outside⟩ input) :
    Meets (readUnit input) (Reached document ⟨o, .outside⟩) (Explains grammar document limit) := by
  unfold readUnit
  cases heq : skipBlanks input with
  | nil => exact .formal rfl
  | cons b rest =>
    have h := h.ofBlanks heq
    dsimp only
    split_ifs with hnull
    · subst hnull
      exact (readWord_meets (by decide) (h.unmarked (by decide))).explained
    · exact otherKind_meets hexpected h

/-! ## Entries of containers -/

/-- Where the scan stands when a container goes on: one container less is open behind its bracket,
and an entry is found at a place of its own. -/
def Progress.Stands (document : Bytes) (o : Nat) (p : Place) : Progress → Prop
  | .closed rest => Reached document ⟨o, .outside⟩ rest
  | .entry rest => Reached document ⟨o + 1, p⟩ rest

/-- The next item of a list is reached, or its end. -/
theorem nextItem_meets (isFirst : Bool) (h : Reached document ⟨o + 1, .outside⟩ input) :
    Meets (nextItem isFirst input) (Progress.Stands document o .outside) Failure.IsFormal := by
  unfold nextItem
  cases heq : skipBlanks input with
  | nil => rfl
  | cons b rest =>
    have h := h.ofBlanks heq
    dsimp only
    split_ifs with hclosing hfirst hcomma
    · subst hclosing
      exact h.cons
    · exact h
    · subst hcomma
      have h := h.unmarked (by decide)
      cases heq : skipBlanks rest with
      | nil => rfl
      | cons c rest =>
        dsimp only
        split_ifs with hclosing
        · rfl
        · exact h.ofBlanks heq
    · rfl

/-- The next key of an object is reached behind its quote, or the end of the object. -/
theorem nextKey_meets (isFirst : Bool) (h : Reached document ⟨o + 1, .outside⟩ input) :
    Meets (nextKey isFirst input) (Progress.Stands document o .inString) Failure.IsFormal := by
  unfold nextKey
  cases heq : skipBlanks input with
  | nil => rfl
  | cons b rest =>
    have h := h.ofBlanks heq
    dsimp only
    split_ifs with hclosing hfirst hquote hcomma
    · subst hclosing
      exact h.cons
    · subst hquote
      exact h.cons
    · rfl
    · subst hcomma
      have h := h.unmarked (by decide)
      cases heq : skipBlanks rest with
      | nil => rfl
      | cons c rest =>
        have h := h.ofBlanks heq
        dsimp only
        split_ifs with hquote hclosing
        · subst hquote
          exact h.cons
        · rfl
        · rfl
    · rfl

/-- The bracket behind the last element of a record is passed. -/
theorem closeElements_meets (h : Reached document ⟨o + 1, .outside⟩ input) :
    Meets (closeElements input) (Reached document ⟨o, .outside⟩) Failure.IsFormal := by
  unfold closeElements
  cases heq : skipBlanks input with
  | nil => rfl
  | cons b rest =>
    have h := h.ofBlanks heq
    dsimp only
    split_ifs with hclosing hcomma
    · subst hclosing
      exact h.cons
    · cases skipBlanks rest with
      | nil => rfl
      | cons c rest =>
        dsimp only
        split_ifs <;> rfl
    · rfl

/-- The items of a list are all what the item reader gives. -/
theorem readItems_yields {item : Bytes → Except Failure (Datum × Bytes)} {good : Datum → Prop}
    (hitem : ∀ {input}, Reached document ⟨o + 1, .outside⟩ input →
      Yields grammar document limit (o + 1) good (item input))
    (bound : Nat) {done : List Datum} (hdone : ∀ d ∈ done, good d)
    (h : Reached document ⟨o + 1, .outside⟩ input) :
    Yields grammar document limit o (fun items => ∀ d ∈ items, good d)
      (readItems item bound done input) := by
  induction bound generalizing done input with
  | zero => exact .formal rfl
  | succ bound ih =>
    have hnext := nextItem_meets done.isEmpty h
    unfold readItems
    cases hn : nextItem done.isEmpty input with
    | error failure =>
      rw [hn] at hnext
      exact .formal hnext
    | ok progress =>
      rw [hn] at hnext
      cases progress with
      | closed rest => exact ⟨fun d hd => hdone d (List.mem_reverse.mp hd), hnext⟩
      | entry rest =>
        have hread := hitem hnext
        dsimp only
        cases hd : item rest with
        | error failure =>
          rw [hd] at hread
          exact hread
        | ok p =>
          rw [hd] at hread
          exact ih (List.forall_mem_cons.mpr ⟨hread.1, hdone⟩) hread.2

/-! ## Records -/

section Record

variable {title : String} {fields : List (Field σ)} {within : σ → Datum → Prop}
  {reader : σ → Bytes → Except Failure (Datum × Bytes)}

/-- Fields that may be missing are filled in; any other makes the list too short. -/
theorem absentElements_meets
    (hlength : ∀ length rest, Explains grammar document limit
      ⟨.wrongLength length expected, rest, true⟩)
    (position : Nat) (rest : Bytes) (fields : List (Field σ)) :
    Meets (absentElements expected position rest fields)
      (List.Forall₂ (FillsField within) fields) (Explains grammar document limit) := by
  induction fields generalizing position with
  | nil => exact .nil
  | cons field fields ih =>
    unfold absentElements
    cases habsent : field.absent with
    | none => exact hlength _ _
    | some d => exact (ih (position + 1)).bind fun _ hothers => .cons ⟨rfl, Or.inr habsent⟩ hothers

/-- The elements of a list fill the fields of a record in order. -/
theorem readElements_yields
    (hread : ∀ {symbol input}, Reached document ⟨o + 1, .outside⟩ input →
      Yields grammar document limit (o + 1) (within symbol) (reader symbol input))
    (hlength : ∀ length rest, Explains grammar document limit
      ⟨.wrongLength length expected, rest, true⟩)
    (position : Nat) (fields : List (Field σ)) (h : Reached document ⟨o + 1, .outside⟩ input) :
    Yields grammar document limit o (List.Forall₂ (FillsField within) fields)
      (readElements reader expected position fields input) := by
  induction fields generalizing position input with
  | nil => exact (closeElements_meets h).explained.bind fun _ h => ⟨.nil, h⟩
  | cons field fields ih =>
    refine (nextItem_meets (position == 0) h).explained.bind ?_
    rintro (rest | rest) h
    · exact (absentElements_meets hlength position rest (field :: fields)).bind
        fun _ hfilled => ⟨hfilled, h⟩
    · refine (hread h).bind ?_
      rintro ⟨d, rest⟩ ⟨hd, h⟩
      refine (ih (position + 1) h).bind ?_
      rintro ⟨others, rest⟩ ⟨hothers, h⟩
      exact ⟨.cons ⟨rfl, Or.inl hd⟩ hothers, h⟩

/-- Whether every entry found has the name of a field and a value that its symbol asks for. -/
def FoundWithin (within : σ → Datum → Prop) (fields : List (Field σ))
    (found : List (String × Datum)) : Prop :=
  ∀ p ∈ found, ∃ field, fields.find? (fun f => f.name == p.1) = some field ∧
    within field.symbol p.2

/-- The entries of an object that name fields are what these ask for; all others are skipped. -/
theorem readEntries_yields (hrule : grammar symbol = .record title fields)
    (hread : ∀ {symbol input}, Reached document ⟨o + 1, .outside⟩ input →
      Yields grammar document limit (o + 1) (within symbol) (reader symbol input))
    (bound : Nat) (isFirst : Bool) {found : List (String × Datum)}
    (hfound : FoundWithin within fields found) (h : Reached document ⟨o + 1, .outside⟩ input) :
    Yields grammar document limit o (FoundWithin within fields)
      (readEntries reader fields bound isFirst found input) := by
  induction bound generalizing isFirst found input with
  | zero => exact .formal rfl
  | succ bound ih =>
    refine (nextKey_meets isFirst h).explained.bind ?_
    rintro (rest | rest) h
    · exact ⟨hfound, h⟩
    · refine (readString_meets h).explained.bind ?_
      rintro ⟨key, rest⟩ h
      dsimp only
      cases hfield : fields.find? fun field => field.name == key with
      | none =>
        refine (readColon_meets h).explained.bind fun rest h => ?_
        exact (skipValue_meets h).explained.bind fun rest h => ih false hfound h
      | some field =>
        have hkey : field.name = key := by simpa using List.find?_some hfield
        dsimp only
        split_ifs with hsecond
        · exact hkey ▸ .duplicateField hrule (List.mem_of_find?_eq_some hfield)
        · refine (readColon_meets h).explained.bind fun rest h => ?_
          refine (hread h).bind ?_
          rintro ⟨d, rest⟩ ⟨hd, h⟩
          exact ih false (List.forall_mem_cons.mpr ⟨⟨field, hfield, hd⟩, hfound⟩) h

/-- The fields of a record are filled in order from the entries found. -/
theorem collectFields_meets (hrule : grammar symbol = .record title fields)
    (hnames : (fields.map (·.name)).Nodup) {found : List (String × Datum)}
    (hfound : FoundWithin within fields found) (rest : Bytes) {some : List (Field σ)}
    (hsome : ∀ field ∈ some, field ∈ fields) :
    Meets (collectFields found rest some) (List.Forall₂ (FillsField within) some)
      (Explains grammar document limit) := by
  induction some with
  | nil => exact .nil
  | cons field others ih =>
    have hfield := hsome field List.mem_cons_self
    unfold collectFields
    cases hd : (found.lookup field.name).or field.absent with
    | none => exact .missingField hrule hfield
    | some d =>
      refine (ih fun f hf => hsome f (List.mem_cons_of_mem _ hf)).bind fun _ hothers => ?_
      refine .cons ⟨rfl, ?_⟩ hothers
      rcases Option.or_eq_some_iff.mp hd with hlookup | ⟨-, habsent⟩
      · obtain ⟨before, after, rfl, -⟩ := List.lookup_eq_some_iff.mp hlookup
        obtain ⟨field', hfind, hwithin⟩ := hfound (field.name, d) (by simp)
        rw [find?_of_nodup hnames hfield] at hfind
        cases hfind
        exact Or.inl hwithin
      · exact Or.inr habsent

end Record

/-! ## Variants -/

section Variant

variable {variants : List (Variant σ)} {within : σ → Datum → Prop}
  {reader : σ → Bytes → Except Failure (Datum × Bytes)}

/-- A variant that is found has the name asked for. -/
theorem findVariant_meets (hrule : grammar symbol = .choice variants) (name : String)
    (rest : Bytes) :
    Meets (findVariant variants name rest) (fun v => v ∈ variants ∧ v.name = name)
      (Explains grammar document limit) := by
  unfold findVariant
  cases hv : variants.find? fun v => v.name == name with
  | some v => exact ⟨List.mem_of_find?_eq_some hv, by simpa using List.find?_some hv⟩
  | none => exact .unknownVariant hrule

/-- A bare name that is read is that of a variant without payload. -/
theorem readBareVariant_yields {inside : Option (σ → Datum → Prop)}
    (hrule : grammar symbol = .choice variants) (h : Reached document ⟨o, .inString⟩ input) :
    Yields grammar document limit o (Fits inside (.choice variants))
      (readBareVariant variants input) := by
  have hunitVariant {expected : String} {rest : Bytes}
      (hexpected : expected ∈ ["unit", "newtype variant", "struct variant"]) :
      Explains grammar document limit ⟨.wrongKind .unitVariant expected, rest, false⟩ := by
    refine .bareVariant (show expected ∈ (grammar symbol).kinds from ?_)
    rwa [hrule, Rule.kinds]
  refine (readString_meets h).explained.bind ?_
  rintro ⟨name, rest⟩ h
  refine (findVariant_meets hrule name rest).bind ?_
  rintro v ⟨hv, rfl⟩
  cases hpayload : v.payload with
  | none => exact ⟨.unit hv hpayload, h⟩
  | value symbol => exact hunitVariant (by simp)
  | fields symbol => exact hunitVariant (by simp)

/-- Inside the object of a variant, its payload is what the variant asks for. -/
theorem readPayload_yields (hrule : grammar symbol = .choice variants)
    (hread : ∀ {symbol input}, Reached document ⟨o, .outside⟩ input →
      Yields grammar document limit o (within symbol) (reader symbol input))
    {v : Variant σ} (hv : v ∈ variants) (h : Reached document ⟨o, .outside⟩ input) :
    Yields grammar document limit o (Fits (some within) (.choice variants))
      (readPayload reader v input) := by
  have hunit : "unit" ∈ (grammar symbol).kinds := by
    rw [hrule, Rule.kinds]
    exact List.mem_cons_self
  unfold readPayload
  cases hpayload : v.payload with
  | none => exact (readUnit_meets hunit h).bind fun _ h => ⟨.unit hv hpayload, h⟩
  | value symbol =>
    exact (hread h).bind fun ⟨d, _⟩ ⟨hd, h⟩ => ⟨.variant rfl hv (Or.inl hpayload) hd, h⟩
  | fields symbol =>
    exact (hread h).bind fun ⟨d, _⟩ ⟨hd, h⟩ => ⟨.variant rfl hv (Or.inr hpayload) hd, h⟩

/-- The object of a variant that is read holds its name and its payload. -/
theorem readVariantObject_yields (hrule : grammar symbol = .choice variants)
    (hread : ∀ {symbol input}, Reached document ⟨o + 1, .outside⟩ input →
      Yields grammar document limit (o + 1) (within symbol) (reader symbol input))
    (h : Reached document ⟨o + 1, .outside⟩ input) :
    Yields grammar document limit o (Fits (some within) (.choice variants))
      (readVariantObject reader variants input) := by
  unfold readVariantObject
  cases heq : skipBlanks input with
  | nil => exact .formal rfl
  | cons b rest =>
    have h := h.ofBlanks heq
    dsimp only
    split_ifs with hquote hclosing
    · subst hquote
      refine (readString_meets h.cons).explained.bind ?_
      rintro ⟨name, rest⟩ h
      refine (findVariant_meets hrule name rest).bind fun v hv => ?_
      refine (readColon_meets h).explained.bind fun rest h => ?_
      refine (readPayload_yields hrule hread hv.1 h).bind ?_
      rintro ⟨d, rest⟩ ⟨hd, h⟩
      dsimp only
      cases heq : skipBlanks rest with
      | nil => exact .formal rfl
      | cons c rest =>
        have h := h.ofBlanks heq
        dsimp only
        split_ifs with hclosing
        · subst hclosing
          exact ⟨hd, h.cons⟩
        · exact .formal rfl
    · exact .formal rfl
    · exact .formal rfl

end Variant

/-! ## Rules -/

/-- Whether no record of a grammar has two fields of one name. -/
def HasDistinctFields (grammar : Grammar σ) : Prop :=
  ∀ symbol title fields,
    grammar symbol = .record title fields → (fields.map (·.name)).Nodup

/-- A container is entered, or the failure stands at its bracket. -/
theorem entering_meets {α : Type} {result : α → Prop} {b : UInt8}
    {inside : Option (σ → Bytes → Except Failure (Datum × Bytes))}
    {contents : (σ → Bytes → Except Failure (Datum × Bytes)) → Except Failure α}
    (hnone : inside = none → limit = o) (hb : IsOpening b)
    (h : Reached document ⟨o, .outside⟩ (b :: rest))
    (hcontents : ∀ reader, inside = some reader →
      Meets (contents reader) result (Explains grammar document limit)) :
    Meets (entering inside rest contents) result (Explains grammar document limit) := by
  cases inside with
  | none =>
    obtain rfl := hnone rfl
    exact .tooDeep hb h
  | some reader => exact hcontents reader rfl

/-- A value that is read by a rule is what the rule asks for. -/
theorem readRule_yields (hfields : HasDistinctFields grammar)
    (inside : Option (σ → Bytes → Except Failure (Datum × Bytes))) (within : σ → Datum → Prop)
    (hnone : inside = none → limit = o)
    (hread : ∀ reader, inside = some reader → ∀ {symbol input},
      Reached document ⟨o + 1, .outside⟩ input →
      Yields grammar document limit (o + 1) (within symbol) (reader symbol input))
    (h : Reached document ⟨o, .outside⟩ input) :
    Yields grammar document limit o (Fits (inside.map fun _ => within) (grammar symbol))
      (readRule inside (grammar symbol) input) := by
  have hkind {kind : String} {rule : Rule σ} (hrule : grammar symbol = rule)
      (hkind : kind ∈ rule.kinds) : kind ∈ (grammar symbol).kinds := hrule ▸ hkind
  cases hrule : grammar symbol with
  | string => exact readStringValue_yields .string (hkind hrule List.mem_cons_self) h
  | boolean => exact readBoolean_yields .boolean (hkind hrule List.mem_cons_self) h
  | integer range => exact readInteger_yields .integer (hkind hrule List.mem_cons_self) h
  | optionalInteger range =>
    exact readOptionalInteger_yields .noInteger .someInteger (hkind hrule List.mem_cons_self) h
  | double => exact readDouble_yields .double (hkind hrule List.mem_cons_self) h
  | list item =>
    rw [readRule]
    cases heq : skipBlanks input with
    | nil => exact .formal rfl
    | cons b rest =>
      have h := h.ofBlanks heq
      dsimp only
      split_ifs with hopening
      · subst hopening
        refine (entering_meets hnone (.inl rfl) h fun reader hreader => ?_).placing _
        refine (readItems_yields (hread reader hreader) _ (List.forall_mem_nil _) h.cons).bind ?_
        rintro ⟨items, rest⟩ ⟨hitems, h⟩
        exact ⟨.list (by rw [hreader]; rfl) hitems, h⟩
      · exact otherKind_meets (hkind hrule List.mem_cons_self) h
  | record title fields =>
    rw [readRule]
    cases heq : skipBlanks input with
    | nil => exact .formal rfl
    | cons b rest =>
      have h := h.ofBlanks heq
      dsimp only
      split_ifs with hlist hobject
      · subst hlist
        refine (entering_meets hnone (.inl rfl) h fun reader hreader => ?_).placing _
        refine (readElements_yields (hread reader hreader) (fun _ _ => .wrongLength hrule) 0 fields
          h.cons).bind ?_
        rintro ⟨values, rest⟩ ⟨hvalues, h⟩
        exact ⟨.record (by rw [hreader]; rfl) hvalues, h⟩
      · subst hobject
        refine (entering_meets hnone (.inr rfl) h fun reader hreader => ?_).placing _
        refine (readEntries_yields hrule (hread reader hreader) _ true
          (List.forall_mem_nil _) h.cons).bind ?_
        rintro ⟨found, rest⟩ ⟨hfound, h⟩
        refine (collectFields_meets hrule (hfields _ _ _ hrule) hfound rest fun _ hf => hf).bind ?_
        exact fun values hvalues => ⟨.record (by rw [hreader]; rfl) hvalues, h⟩
      · exact otherKind_meets (hkind hrule List.mem_cons_self) h
  | choice variants =>
    rw [readRule]
    cases heq : skipBlanks input with
    | nil => exact .formal rfl
    | cons b rest =>
      have h := h.ofBlanks heq
      dsimp only
      split_ifs with hquote hobject
      · subst hquote
        exact readBareVariant_yields hrule h.cons
      · subst hobject
        refine entering_meets hnone (.inr rfl) h fun reader hreader => ?_
        rw [hreader]
        exact readVariantObject_yields hrule (hread reader hreader) h.cons
      · exact .formal rfl

/-- A value that is read is what its symbol asks for, with no more containers inside one another
than could be opened. -/
theorem read_yields (hfields : HasDistinctFields grammar) (containers : Nat)
    (h : Reached document ⟨o, .outside⟩ input) :
    Yields grammar document (o + containers) o (FitsWithin grammar containers symbol)
      (read grammar containers symbol input) := by
  -- Behind a bracket one container more is open and one less may be opened, so the limit, which is
  -- the sum of both, is the same for all values of a document.
  induction containers generalizing o symbol input with
  | zero =>
    change Yields grammar document o o (Fits none (grammar symbol))
      (readRule none (grammar symbol) input)
    refine readRule_yields hfields none (fun _ _ => False) (fun _ => rfl) ?_ h
    intro reader hreader
    cases hreader
  | succ containers ih =>
    change Yields grammar document (o + (containers + 1)) o
      (Fits (some (FitsWithin grammar containers)) (grammar symbol))
      (readRule (some (read grammar containers)) (grammar symbol) input)
    refine readRule_yields hfields (some (read grammar containers))
      (FitsWithin grammar containers) nofun ?_ h
    intro reader hreader symbol input h
    cases hreader
    rw [Nat.add_comm containers, ← Nat.add_assoc]
    exact ih h

/-- Under any limit, a document that is read holds what its symbol asks for; otherwise there is a
reason. -/
theorem readDocumentWithin_meets (hfields : HasDistinctFields grammar) (limit : Nat) (symbol : σ)
    (document : Bytes) :
    Meets (readDocumentWithin limit grammar symbol document) (FitsWithin grammar limit symbol)
      (Explains grammar document limit) := by
  have hread : Yields grammar document (0 + limit) 0 (FitsWithin grammar limit symbol)
      (read grammar limit symbol document) := read_yields hfields limit (.start document)
  rw [Nat.zero_add] at hread
  refine hread.bind ?_
  rintro ⟨d, rest⟩ ⟨hd, -⟩
  dsimp only
  cases skipBlanks rest with
  | nil => exact hd
  | cons b rest => exact .formal rfl

/-- The limit of documents is one of these limits. -/
theorem readDocument_meets (hfields : HasDistinctFields grammar) (symbol : σ) (document : Bytes) :
    Meets (readDocument grammar symbol document) (FitsWithin grammar containerLimit symbol)
      (Explains grammar document containerLimit) :=
  readDocumentWithin_meets hfields containerLimit symbol document

end Reading

end Json

end ScoringMarkup
