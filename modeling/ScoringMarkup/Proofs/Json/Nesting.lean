import Mathlib.Data.List.MinMax
import ScoringMarkup.Proofs.Json.Compact

/-!
# Nesting of compact documents

How many containers a compact text has open at once can be seen from its datum: lists, records and
variants with a payload open one each, and what stands side by side is never open at the same time.
-/

namespace ScoringMarkup

namespace Json

namespace Datum

mutual

/-- The most containers of a datum that stand inside one another, the outermost one included. -/
def nesting : Datum → Nat
  | .list items => 1 + itemsNesting items
  | .record fields => 1 + fieldsNesting fields
  | .variant _ payload => 1 + nesting payload
  | .null | .boolean _ | .integer _ | .double _ | .string _ | .unit _ => 0

/-- The most containers inside one another in any item of a list. -/
def itemsNesting : List Datum → Nat
  | [] => 0
  | d :: ds => max (nesting d) (itemsNesting ds)

/-- The most containers inside one another in any field of a record. -/
def fieldsNesting : List (String × Datum) → Nat
  | [] => 0
  | (_, d) :: fields => max (nesting d) (fieldsNesting fields)

end

end Datum

namespace Scan

/-- The peak is no less than what is open at first. -/
theorem opened_le_peak (s : Scan) (text : Bytes) : s.opened ≤ s.peak text :=
  peak_le_iff.mp (Nat.le_refl _) 0

/-- The peak of a text is that of its beginning or that of the rest, read on from there. -/
theorem peak_append (s : Scan) (text more : Bytes) :
    s.peak (text ++ more) = max (s.peak text) ((s.run text).peak more) := by
  induction text generalizing s with
  | nil => exact (Nat.max_eq_right (opened_le_peak s more)).symm
  | cons b text ih => rw [List.cons_append, peak, peak, ih, run_cons, Nat.max_assoc]

/-- A text that opens nothing has no peak of its own. -/
theorem peak_of_leadsTo {p q : Place} {text : Bytes} (h : LeadsTo p q text) (o : Nat) :
    peak ⟨o, p⟩ text = o :=
  Nat.le_antisymm ((beyond_eq_none_iff (Nat.le_refl o)).mp (h.beyond_eq o o (Nat.le_refl o)))
    (opened_le_peak ⟨o, p⟩ text)

/-- Entries reach as far up as the highest of them, each from the one container around all. -/
theorem peak_entries {closing : Char} (hc : closing = ']' ∨ closing = '\x7d')
    {texts : List Bytes} (h : ∀ text ∈ texts, IsBalanced text) (isFirst : Bool) (o : Nat) :
    peak ⟨o + 1, .outside⟩ (entries closing isFirst texts) =
      (texts.map (peak ⟨o + 1, .outside⟩)).foldr max (o + 1) := by
  induction texts generalizing isFirst with
  | nil => rcases hc with rfl | rfl <;> exact Nat.max_eq_left (Nat.le_succ o)
  | cons text texts ih =>
    have hothers := ih (fun t ht => h t (List.mem_cons_of_mem _ ht)) false
    rw [entries, peak_append, peak_of_leadsTo (leadsTo_separator isFirst),
      (leadsTo_separator isFirst).run_eq, peak_append, h text List.mem_cons_self, hothers]
    exact Nat.max_eq_right (Nat.le_trans (opened_le_peak ⟨o + 1, .outside⟩ text)
      (Nat.le_max_left ..))

/-- A name opens nothing, so a field reaches as far up as its value. -/
theorem peak_fieldBytes (field : String × Datum) (o : Nat) :
    peak ⟨o, .outside⟩ (Datum.fieldBytes field) = peak ⟨o, .outside⟩ field.2.bytes := by
  have hcolon : peak ⟨o, .outside⟩ (ascii ':' :: field.2.bytes) =
      max o (peak ⟨o, .outside⟩ field.2.bytes) := rfl
  rw [Datum.fieldBytes, peak_append, peak_of_leadsTo (.quoted _), (LeadsTo.quoted _).run_eq, hcolon,
    ← Nat.max_assoc, Nat.max_self]
  exact Nat.max_eq_right (opened_le_peak ⟨o, .outside⟩ field.2.bytes)

/-- A common summand comes out of a maximum. -/
private theorem foldr_max_add (c : Nat) (ns : List Nat) :
    (ns.map (c + ·)).foldr max c = c + ns.foldr max 0 := by
  induction ns with
  | nil => rfl
  | cons n ns ih => rw [List.map_cons, List.foldr_cons, ih, List.foldr_cons, Nat.add_max_add_left]

/-- A container reaches one further up than the highest of its entries. -/
theorem peak_container {α : Type} {opening closing : Char}
    (ho : opening = '[' ∨ opening = '\x7b') (hc : closing = ']' ∨ closing = '\x7d')
    {values : List α} {text : α → Bytes} {nesting : α → Nat}
    (hbalanced : ∀ a ∈ values, IsBalanced (text a))
    (hpeak : ∀ a ∈ values, ∀ o, peak ⟨o, .outside⟩ (text a) = o + nesting a) (o : Nat) :
    peak ⟨o, .outside⟩ (ascii opening :: entries closing true (values.map text)) =
      o + (1 + (values.map nesting).foldr max 0) := by
  have hopening (more : Bytes) : peak ⟨o, .outside⟩ (ascii opening :: more) =
      max o (peak ⟨o + 1, .outside⟩ more) := by
    rcases ho with rfl | rfl <;> rfl
  have hvalues : values.map (peak ⟨o + 1, .outside⟩ ∘ text) =
      (values.map nesting).map (o + 1 + ·) := by
    rw [List.map_map]
    exact List.map_congr_left fun a ha => hpeak a ha (o + 1)
  rw [hopening, peak_entries hc (List.forall_mem_map.mpr hbalanced), List.map_map, hvalues,
    foldr_max_add, ← Nat.add_assoc]
  exact Nat.max_eq_right (Nat.le_add_right_of_le (Nat.le_succ o))

end Scan

namespace Datum

/-- The items of a list nest as deep as the deepest of them. -/
theorem itemsNesting_eq (items : List Datum) :
    itemsNesting items = (items.map nesting).foldr max 0 := by
  induction items with
  | nil => rfl
  | cons d items ih => rw [itemsNesting, ih, List.map_cons, List.foldr_cons]

/-- The fields of a record nest as deep as the deepest of their values. -/
theorem fieldsNesting_eq (fields : List (String × Datum)) :
    fieldsNesting fields = (fields.map fun p => p.2.nesting).foldr max 0 := by
  induction fields with
  | nil => rfl
  | cons field fields ih => rw [fieldsNesting, ih, List.map_cons, List.foldr_cons]

/-- No item nests deeper than all items together. -/
theorem nesting_le_itemsNesting {d : Datum} {items : List Datum} (h : d ∈ items) :
    d.nesting ≤ itemsNesting items := by
  rw [itemsNesting_eq]
  exact List.le_max_of_le' 0 (List.mem_map_of_mem h) (Nat.le_refl _)

/-- No field nests deeper than all fields together. -/
theorem nesting_le_fieldsNesting {field : String × Datum} {fields : List (String × Datum)}
    (h : field ∈ fields) : field.2.nesting ≤ fieldsNesting fields := by
  rw [fieldsNesting_eq]
  exact List.le_max_of_le' 0 (List.mem_map_of_mem (f := fun p => p.2.nesting) h) (Nat.le_refl _)

end Datum

/-- Behind the containers open in front of it, a compact text has as many open at once as stand
inside one another in its datum. -/
theorem peak_bytes {σ : Type} {grammar : Grammar σ} {rule : Rule σ} {d : Datum}
    (h : Follows grammar rule d) (o : Nat) :
    Scan.peak ⟨o, .outside⟩ d.bytes = o + d.nesting := by
  induction h generalizing o with
  | string s =>
    rw [Datum.bytes_string, Scan.peak_of_leadsTo (.quoted s), Datum.nesting, Nat.add_zero]
  | boolean b => rw [Scan.peak_of_leadsTo (leadsTo_boolean b), Datum.nesting, Nat.add_zero]
  | integer =>
    rw [Datum.bytes_integer, Scan.peak_of_leadsTo (.integerBytes _), Datum.nesting, Nat.add_zero]
  | unit => rw [Datum.bytes_unit, Scan.peak_of_leadsTo (.quoted _), Datum.nesting, Nat.add_zero]
  | list hf ih =>
    rw [Datum.bytes_list, Datum.nesting, Datum.itemsNesting_eq]
    exact Scan.peak_container (Or.inl rfl) (Or.inl rfl)
      (fun d hd => isBalanced_bytes (hf d hd)) ih o
  | record _ hf ih =>
    rw [Datum.bytes_record, List.map_map, Datum.nesting, Datum.fieldsNesting_eq, List.map_map]
    refine Scan.peak_container (Or.inr rfl) (Or.inr rfl)
      (fun p hp => (isBalanced_bytes (hf p hp)).field _) (fun p hp o => ?_) o
    exact (Scan.peak_fieldBytes _ o).trans (ih p hp o)
  | @variant _ v _ d _ _ hf ih =>
    have hpeak : Scan.peak ⟨o, .outside⟩
        (ascii '\x7b' :: entries '\x7d' true ([(v.name, d)].map Datum.fieldBytes)) =
          o + (1 + ([(v.name, d)].map fun p => p.2.nesting).foldr max 0) :=
      Scan.peak_container (Or.inr rfl) (Or.inr rfl)
        (List.forall_mem_singleton.mpr ((isBalanced_bytes hf).field _))
        (List.forall_mem_singleton.mpr fun o => (Scan.peak_fieldBytes _ o).trans (ih o)) o
    rw [Datum.bytes_variant, Datum.nesting]
    exact hpeak.trans (by simp)

/-- The most containers that a compact document has open at once. -/
theorem mostOpen_bytes {σ : Type} {grammar : Grammar σ} {rule : Rule σ} {d : Datum}
    (h : Follows grammar rule d) : mostOpen d.bytes = d.nesting := by
  rw [mostOpen, peak_bytes h, Nat.zero_add]

end Json

end ScoringMarkup
