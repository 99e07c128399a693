import Mathlib.Data.List.Basic
import ScoringMarkup.Proofs.Conversion.Inspection

/-!
# Conversion of several trees

Named trees are converted one after the other, each as it would be on its own, up to the first
that fails. So a run on several trees is read off the runs on the single trees: it returns the
mappings of all of them under their names, or the error of the first that fails, and it reports
what is reported of these trees one by one.
-/

namespace ScoringMarkup

namespace Conversion

variable (configuration : Configuration)

/-- Whether the tree of an item is converted, on its own. -/
def Converts (item : String × Expression) : Prop :=
  ∃ m, (convert configuration item.2).outcome = .ok m

/-- Whether an entry is the one for an item: its name, with the mapping that its tree has on its
own. -/
def Yields (item : String × Expression) (entry : String × Mapping) : Prop :=
  entry.1 = item.1 ∧ (convert configuration item.2).outcome = .ok entry.2

/-- Whether an item is the first of a list to fail, behind certain items and with a certain error.
Nothing is asked of the items behind it. -/
def FailsBehind (items before : List (String × Expression)) (item : String × Expression)
    (error : ConversionError) : Prop :=
  ∃ after, items = before ++ item :: after ∧ (∀ b ∈ before, Converts configuration b) ∧
    (convert configuration item.2).outcome = .error error

/-- The records of the trees of several items, each converted on its own. -/
def recordsOf (items : List (String × Expression)) : List LogRecord :=
  items.flatMap fun item => (convert configuration item.2).records

variable {configuration} {items before : List (String × Expression)} {item : String × Expression}
  {entries : List (String × Mapping)} {error : ConversionError}

/-- The tree of the first item is converted before those of the others. -/
theorem convertAll_cons (item : String × Expression) (items : List (String × Expression)) :
    convertAll configuration (item :: items) =
      Logged.andThen (convert configuration item.2) fun m =>
        convertAll configuration items >>= fun others => pure ((item.1, m) :: others) := rfl

/-- An item that is converted adds its entry and its records to those of the rest. -/
theorem convertAll_cons_of_yields {entry : String × Mapping} (h : Yields configuration item entry)
    (items : List (String × Expression)) :
    convertAll configuration (item :: items) =
      ⟨(convert configuration item.2).records ++ (convertAll configuration items).records,
        (convertAll configuration items).outcome.map (entry :: ·)⟩ := by
  obtain ⟨name, m⟩ := entry
  obtain ⟨rfl, hm⟩ := h
  have hrest : (convertAll configuration items >>= fun others => pure ((item.1, m) :: others)) =
      ⟨(convertAll configuration items).records,
        (convertAll configuration items).outcome.map ((item.1, m) :: ·)⟩ := by
    obtain ⟨records, outcome⟩ := convertAll configuration items
    cases outcome with
    | error error => rfl
    | ok others => exact congrArg (Logged.mk · _) (List.append_nil records)
  rw [convertAll_cons]
  simp only [Logged.andThen, hm, hrest]

/-- An item that fails ends the run. -/
theorem convertAll_cons_of_error (h : (convert configuration item.2).outcome = .error error)
    (items : List (String × Expression)) :
    convertAll configuration (item :: items) =
      ⟨(convert configuration item.2).records, .error error⟩ := by
  rw [convertAll_cons]
  simp only [Logged.andThen, h]

/-- Items that are all converted add their entries and their records to those of the rest. -/
theorem convertAll_append (h : List.Forall₂ (Yields configuration) before entries)
    (items : List (String × Expression)) :
    convertAll configuration (before ++ items) =
      ⟨recordsOf configuration before ++ (convertAll configuration items).records,
        (convertAll configuration items).outcome.map (entries ++ ·)⟩ := by
  induction h with
  | nil =>
    rw [List.nil_append]
    obtain ⟨records, outcome⟩ := convertAll configuration items
    cases outcome <;> rfl
  | @cons item entry before entries hentry hbefore ih =>
    rw [List.cons_append, convertAll_cons_of_yields hentry, ih]
    simp only [recordsOf, List.flatMap_cons, List.append_assoc]
    cases (convertAll configuration items).outcome <;> rfl

theorem convertAll_of_forall₂ (h : List.Forall₂ (Yields configuration) items entries) :
    convertAll configuration items = ⟨recordsOf configuration items, .ok entries⟩ := by
  have happend := convertAll_append h []
  rw [List.append_nil] at happend
  rw [happend]
  show Logged.mk (recordsOf configuration items ++ []) (.ok (entries ++ [])) = _
  rw [List.append_nil, List.append_nil]

/-- There are entries for all items exactly when all items are converted. -/
theorem exists_forall₂_iff :
    (∃ entries, List.Forall₂ (Yields configuration) items entries) ↔
      ∀ item ∈ items, Converts configuration item := by
  constructor
  · rintro ⟨entries, h⟩
    induction h with
    | nil => simp
    | cons hentry _ ih => exact List.forall_mem_cons.mpr ⟨⟨_, hentry.2⟩, ih⟩
  · intro h
    induction items with
    | nil => exact ⟨[], .nil⟩
    | cons item items ih =>
      obtain ⟨⟨m, hm⟩, hitems⟩ := List.forall_mem_cons.mp h
      obtain ⟨entries, hentries⟩ := ih hitems
      exact ⟨(item.1, m) :: entries, .cons ⟨rfl, hm⟩ hentries⟩

/-- The first item that fails decides the error, and is the last of which anything is reported. -/
theorem convertAll_of_failsBehind (h : FailsBehind configuration items before item error) :
    convertAll configuration items =
      ⟨recordsOf configuration (before ++ [item]), .error error⟩ := by
  obtain ⟨after, rfl, hbefore, hitem⟩ := h
  obtain ⟨entries, hentries⟩ := exists_forall₂_iff.mpr hbefore
  rw [convertAll_append hentries, convertAll_cons_of_error hitem]
  simp only [recordsOf, List.flatMap_append, List.flatMap_cons, List.flatMap_nil, List.append_nil]
  rfl

/-- Some item is the first to fail, unless all are converted. -/
theorem exists_failsBehind (h : ¬ ∀ item ∈ items, Converts configuration item) :
    ∃ before item error, FailsBehind configuration items before item error := by
  classical
  obtain ⟨item, hfind⟩ :
      ∃ item, items.find? (fun item => ¬Converts configuration item) = some item := by
    rw [← Option.isSome_iff_exists, List.find?_isSome]
    simpa using h
  obtain ⟨hitem, before, after, rfl, hbefore⟩ := List.find?_eq_some_iff_append.mp hfind
  cases houtcome : (convert configuration item.2).outcome with
  | error error => exact ⟨before, item, error, after, rfl, by simpa using hbefore, houtcome⟩
  | ok m =>
    have hconverts : Converts configuration item := ⟨m, houtcome⟩
    simp [hconverts] at hitem

/-- A run on several trees returns exactly the entries of all of them. -/
theorem outcome_convertAll_eq_ok_iff :
    (convertAll configuration items).outcome = .ok entries ↔
      List.Forall₂ (Yields configuration) items entries := by
  constructor
  · intro h
    by_cases hall : ∀ item ∈ items, Converts configuration item
    · obtain ⟨entries', hentries⟩ := exists_forall₂_iff.mpr hall
      rw [convertAll_of_forall₂ hentries] at h
      cases h
      exact hentries
    · obtain ⟨before, item, error, hfails⟩ := exists_failsBehind hall
      rw [convertAll_of_failsBehind hfails] at h
      cases h
  · intro h
    rw [convertAll_of_forall₂ h]

/-- A run on several trees fails exactly with the error of the first that fails. -/
theorem outcome_convertAll_eq_error_iff :
    (convertAll configuration items).outcome = .error error ↔
      ∃ before item, FailsBehind configuration items before item error := by
  constructor
  · intro h
    by_cases hall : ∀ item ∈ items, Converts configuration item
    · obtain ⟨entries, hentries⟩ := exists_forall₂_iff.mpr hall
      rw [convertAll_of_forall₂ hentries] at h
      cases h
    · obtain ⟨before, item, error', hfails⟩ := exists_failsBehind hall
      rw [convertAll_of_failsBehind hfails] at h
      cases h
      exact ⟨before, item, hfails⟩
  · rintro ⟨before, item, hfails⟩
    rw [convertAll_of_failsBehind hfails]

/-- Several trees are converted exactly when each of them is on its own, and then to one entry for
each, in order and under its name. Otherwise the error is that of the first that fails, whatever
comes after it. What is reported are the records of the single trees, in order: of all of them,
or up to and including the first that fails. -/
theorem convertAll_follows_items (configuration : Configuration)
    (items : List (String × Expression)) :
    ((∃ entries, (convertAll configuration items).outcome = .ok entries) ↔
      ∀ item ∈ items, Converts configuration item) ∧
    (∀ entries, (convertAll configuration items).outcome = .ok entries ↔
      List.Forall₂ (Yields configuration) items entries) ∧
    (∀ error, (convertAll configuration items).outcome = .error error ↔
      ∃ before item, FailsBehind configuration items before item error) ∧
    ((∀ item ∈ items, Converts configuration item) →
      (convertAll configuration items).records = recordsOf configuration items) ∧
    ∀ before item error, FailsBehind configuration items before item error →
      (convertAll configuration items).records = recordsOf configuration (before ++ [item]) := by
  refine ⟨?_, fun _ => outcome_convertAll_eq_ok_iff, fun _ => outcome_convertAll_eq_error_iff,
    ?_, ?_⟩
  · simp only [outcome_convertAll_eq_ok_iff]
    exact exists_forall₂_iff
  · intro hall
    obtain ⟨entries, hentries⟩ := exists_forall₂_iff.mpr hall
    rw [convertAll_of_forall₂ hentries]
  · intro before item error hfails
    rw [convertAll_of_failsBehind hfails]

/-- Two trees under one name, a tree that is too deep, and one that no markup stands for. -/
def fourItems : List (String × Expression) :=
  [("x", .field "a" .long), ("x", .literal .null .boolean),
    ("y", .negation (.negation (.field "p" .boolean))), ("z", .minus (.field "a" .long))]

/-- The first two are converted, and the name is kept twice. All four fail for the depth of the
third; nothing is reported of the fourth. -/
theorem convertAll_fourItems :
    let configuration := Configuration.withMaxDepth 2
    (convertAll configuration (fourItems.take 2)).outcome =
      .ok [("x", (Expression.field "a" .long).mapping),
        ("x", (Expression.literal .null .boolean).mapping)] ∧
    (convertAll configuration (fourItems.take 2)).records =
      [.entering "AttributeReference", .entering "Literal"] ∧
    (convertAll configuration fourItems).outcome = .error (.tooDeep 2) ∧
    (convertAll configuration fourItems).records =
      [.entering "AttributeReference", .entering "Literal", .rejected "NOT NOT p" 2] := by
  intro configuration
  have hfield : convert configuration (.field "a" .long) =
      ⟨[.entering "AttributeReference"], .ok (Expression.field "a" .long).mapping⟩ := by
    rw [convert_of_admits (admits_withMaxDepth (by decide))]
    rfl
  have hliteral : convert configuration (.literal .null .boolean) =
      ⟨[.entering "Literal"], .ok (Expression.literal .null .boolean).mapping⟩ := by
    rw [convert_of_admits (admits_withMaxDepth (by decide))]
    rfl
  have hnegation : convert configuration (.negation (.negation (.field "p" .boolean))) =
      ⟨[.rejected "NOT NOT p" 2], .error (.tooDeep 2)⟩ := by
    rw [convert_withMaxDepth_eq, if_pos (by decide)]
    exact congrArg (Logged.mk [.rejected · 2] _) (by decide)
  have hboth : ∀ item ∈ fourItems.take 2, Converts configuration item := by
    intro item hitem
    simp only [fourItems, List.take_succ_cons, List.take_zero, List.mem_cons, List.not_mem_nil,
      or_false] at hitem
    rcases hitem with rfl | rfl
    · exact ⟨_, congrArg Logged.outcome hfield⟩
    · exact ⟨_, congrArg Logged.outcome hliteral⟩
  have hfails : FailsBehind configuration fourItems (fourItems.take 2)
      ("y", .negation (.negation (.field "p" .boolean))) (.tooDeep 2) :=
    ⟨[("z", .minus (.field "a" .long))], rfl, hboth, congrArg Logged.outcome hnegation⟩
  obtain ⟨-, hok, -, hrecords, -⟩ := convertAll_follows_items configuration (fourItems.take 2)
  obtain ⟨-, -, herror, -, hstops⟩ := convertAll_follows_items configuration fourItems
  refine ⟨(hok _).mpr ?_, ?_, (herror _).mpr ⟨_, _, hfails⟩, ?_⟩
  · exact .cons ⟨rfl, congrArg Logged.outcome hfield⟩
      (.cons ⟨rfl, congrArg Logged.outcome hliteral⟩ .nil)
  · rw [hrecords hboth]
    show (convert _ _).records ++ ((convert _ _).records ++ []) = _
    rw [hfield, hliteral]
    rfl
  · rw [hstops _ _ _ hfails]
    show (convert _ _).records ++ ((convert _ _).records ++ ((convert _ _).records ++ [])) = _
    rw [hfield, hliteral, hnegation]
    rfl

end Conversion

end ScoringMarkup
