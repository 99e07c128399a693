import ScoringMarkup.Expression.Display
import ScoringMarkup.Proofs.Expression.Contexts
import ScoringMarkup.Proofs.Expression.Walks

/-!
# Summaries and full texts

A text that is cut below a number of levels is the full text of a tree that is cut there, with a
field named by the ellipsis in place of each subtree that lies deeper. So a cut that no node of a
tree reaches changes nothing, and what stands below the cut has no part in the text.
-/

namespace ScoringMarkup

namespace Expression

variable (type : SourceType)

mutual

/-- The tree down to a number of levels, with a field named by the ellipsis in place of every node
on the level below. -/
def truncate : Expression → (levels : Nat) → Expression
  | _, 0 => .field ellipsis type
  | .alias child name, below + 1 => .alias (truncate child below) name
  | .field name t, _ + 1 => .field name t
  | .binary op left right, below + 1 =>
    .binary op (truncate left below) (truncate right below)
  | .conditional predicate whenTrue whenFalse, below + 1 =>
    .conditional (truncate predicate below) (truncate whenTrue below) (truncate whenFalse below)
  | .membership value list, below + 1 =>
    .membership (truncate value below) (truncateList list below)
  | .literal value t, _ + 1 => .literal value t
  | .negation child, below + 1 => .negation (truncate child below)
  | .nullCheck check child, below + 1 => .nullCheck check (truncate child below)
  | .cast child t, below + 1 => .cast (truncate child below) t
  | .minus child, below + 1 => .minus (truncate child below)
  | .call name arguments t, below + 1 => .call name (truncateList arguments below) t

/-- The trees of a list, each down to a number of levels. -/
def truncateList : List Expression → (levels : Nat) → List Expression
  | [], _ => []
  | e :: es, levels => truncate e levels :: truncateList es levels

end

@[simp] theorem truncate_zero (e : Expression) : e.truncate type 0 = .field ellipsis type := by
  cases e <;> rfl

theorem truncateList_eq_map (es : List Expression) (levels : Nat) :
    truncateList type es levels = es.map fun e => e.truncate type levels := by
  induction es with
  | nil => rfl
  | cons e es ih => rw [truncateList, ih, List.map_cons]

mutual

/-- Cutting the text is cutting the tree. -/
theorem display_truncate : ∀ (e : Expression) (levels : Nat),
    (e.truncate type levels).display = e.render (some levels)
  | e, 0 => by
    rw [truncate_zero, render_zero]
    rfl
  | .field .., _ + 1 | .literal .., _ + 1 => rfl
  | .alias child _, below + 1 => by
    simp only [truncate, render, onLevel, display, ← display_truncate child below]
  | .negation child, below + 1 | .nullCheck _ child, below + 1 => by
    simp only [truncate, render, onLevel, display, ← display_truncate child below]
  | .cast child _, below + 1 | .minus child, below + 1 => by
    simp only [truncate, render, onLevel, display, ← display_truncate child below]
  | .binary _ left right, below + 1 => by
    simp only [truncate, render, onLevel, display, ← display_truncate left below,
      ← display_truncate right below]
  | .conditional predicate whenTrue whenFalse, below + 1 => by
    simp only [truncate, render, onLevel, display, ← display_truncate predicate below,
      ← display_truncate whenTrue below, ← display_truncate whenFalse below]
  | .membership value list, below + 1 => by
    simp only [truncate, render, onLevel, display, ← display_truncate value below,
      ← displayList_truncate list below]
  | .call _ arguments _, below + 1 => by
    simp only [truncate, render, onLevel, display, ← displayList_truncate arguments below]

theorem displayList_truncate : ∀ (es : List Expression) (levels : Nat),
    renderList (truncateList type es levels) none = renderList es (some levels)
  | [], _ => rfl
  | e :: es, levels => by
    simp only [truncateList, renderList, ← display_truncate e levels, display,
      displayList_truncate es levels]

end

variable {type}

/-- A node is kept when its children are. -/
theorem truncate_eq_self_of_children {e : Expression} {below : Nat}
    (h : ∀ c ∈ e.children, c.truncate type below = c) : e.truncate type (below + 1) = e := by
  have hlist (es : List Expression) (hes : ∀ c ∈ es, c.truncate type below = c) :
      truncateList type es below = es := by
    rw [truncateList_eq_map, List.map_congr_left hes, List.map_id']
  cases e with
  | field | literal => rfl
  | membership value list =>
    simp only [children, List.forall_mem_cons] at h
    rw [truncate, h.1, hlist list h.2]
  | call name arguments type => rw [truncate, hlist arguments h]
  | _ =>
    simp only [children, List.forall_mem_cons] at h
    simp only [truncate, h]

/-- A tree without a node on the level below the cut is left as it is. -/
theorem truncate_of_height_le {e : Expression} {levels : Nat} (h : e.height ≤ levels) :
    e.truncate type levels = e := by
  induction e using induct_children generalizing levels with
  | step e ih =>
    cases levels with
    | zero =>
      rw [height_eq] at h
      omega
    | succ below =>
      refine truncate_eq_self_of_children fun c hc => ih c hc ?_
      have hlt := height_lt_of_mem_children hc
      omega

/-- A text cut below the last level of a tree is its full text. -/
theorem render_of_height_le {e : Expression} {levels : Nat} (h : e.height ≤ levels) :
    e.render (some levels) = e.display := by
  rw [← display_truncate .void, truncate_of_height_le h]

/-- Trees that agree but for a subtree below the cut are cut to the same tree. -/
theorem truncate_fill (C : Context) {levels : Nat} (h : levels ≤ C.length) (n n' : Expression) :
    (C.fill n).truncate type levels = (C.fill n').truncate type levels := by
  induction C generalizing levels with
  | nil =>
    obtain rfl : levels = 0 := Nat.le_zero.mp h
    rw [truncate_zero, truncate_zero]
  | cons f C ih =>
    cases levels with
    | zero => rw [truncate_zero, truncate_zero]
    | succ below =>
      have hbelow := ih (Nat.le_of_succ_le_succ h)
      show (f.fill (Context.fill C n)).truncate type (below + 1) =
        (f.fill (Context.fill C n')).truncate type (below + 1)
      cases f <;> simp only [Frame.fill, truncate, truncateList_eq_map, List.map_append,
        List.map_cons, hbelow]

/-! ## Where the text of a subtree stands -/

/-- The text of one item stands between the texts of the others in the text of a list. -/
private theorem intercalate_around (sep s : String) (before after : List String) :
    sep.intercalate (before ++ s :: after) =
      String.join (before.map (· ++ sep)) ++ s ++ String.join (after.map (sep ++ ·)) := by
  induction before generalizing s with
  | nil =>
    induction after generalizing s with
    | nil => simp
    | cons next after ih =>
      have hnext := ih next
      simp only [List.nil_append, List.map_nil, String.join_nil, String.empty_append] at hnext ⊢
      rw [String.intercalate_cons_cons, hnext, List.map_cons, String.join_cons]
      simp only [String.append_assoc]
  | cons first before ih =>
    have hne : before ++ s :: after ≠ [] := by simp
    rw [List.cons_append, String.intercalate_cons_of_ne_nil hne, ih, List.map_cons,
      String.join_cons]
    simp only [String.append_assoc]

namespace Frame

/-- The text of a node in front of its open child. -/
def textBefore : Frame → String
  | .leftOperand _ _ => "("
  | .rightOperand op left => "(" ++ left.display ++ " " ++ op.symbol ++ " "
  | .test _ _ => "if ("
  | .trueBranch predicate _ => "if (" ++ predicate.display ++ ") "
  | .falseBranch predicate whenTrue =>
    "if (" ++ predicate.display ++ ") " ++ whenTrue.display ++ " else "
  | .item value before _ =>
    value.display ++ " IN (" ++ String.join (before.map fun e => e.display ++ ", ")
  | .negation => "NOT "
  | .nullCheck check => check.functionName ++ "("
  | .cast _ => "cast("
  | .minus => "-"
  | .argument name before _ _ => name ++ "(" ++ String.join (before.map fun e => e.display ++ ", ")
  | .alias _ | .member _ => ""

/-- The text of a node behind its open child. -/
def textBehind : Frame → String
  | .alias name => " AS " ++ name
  | .leftOperand op right => " " ++ op.symbol ++ " " ++ right.display ++ ")"
  | .rightOperand _ _ | .nullCheck _ => ")"
  | .test whenTrue whenFalse => ") " ++ whenTrue.display ++ " else " ++ whenFalse.display
  | .trueBranch _ whenFalse => " else " ++ whenFalse.display
  | .member list => " IN (" ++ ", ".intercalate (list.map fun e => e.display) ++ ")"
  | .item _ _ after | .argument _ _ after _ =>
    String.join (after.map fun e => ", " ++ e.display) ++ ")"
  | .cast type => " as " ++ type.name ++ ")"
  | .falseBranch _ _ | .negation | .minus => ""

/-- The full text of an open child stands in that of the node. -/
theorem display_fill (f : Frame) (e : Expression) :
    (f.fill e).display = f.textBefore ++ e.display ++ f.textBehind := by
  cases f <;> simp [fill, display, render, onLevel, renderList_eq_map, intercalate_around,
    textBefore, textBehind, Function.comp_def, String.append_assoc]

end Frame

/-- The full text of a subtree stands in that of any tree around it, so trees that differ in one
place read alike only where the subtrees there do. -/
theorem display_fill_inj (C : Context) {n n' : Expression} :
    (C.fill n).display = (C.fill n').display ↔ n.display = n'.display := by
  induction C with
  | nil => exact Iff.rfl
  | cons f C ih =>
    show (f.fill (Context.fill C n)).display = (f.fill (Context.fill C n')).display ↔ _
    rw [f.display_fill, f.display_fill, String.append_left_inj, String.append_right_inj, ih]

/-! ## Summaries and full texts -/

/-- A summary is the full text of the tree cut below sixteen levels, and the full text of a tree
that is no deeper; a text of any number of levels that the tree keeps to is the full text as well.
Whatever stands below the sixteenth level can be replaced without a change to the summary. -/
theorem summary_eq_display_truncate (e : Expression) (type : SourceType) :
    e.summary = (e.truncate type summaryLevels).display ∧
    (e.depth ≤ summaryLevels → e.summary = e.display) ∧
    (∀ levels, e.depth ≤ levels → e.render (some levels) = e.display) ∧
    ∀ (C : Context) (n n' : Expression), e = C.fill n → summaryLevels ≤ C.path.length →
      (C.fill n').summary = e.summary := by
  have hsummary (e : Expression) : e.summary = (e.truncate type summaryLevels).display :=
    (display_truncate type e summaryLevels).symm
  have hdepth (levels : Nat) (h : e.depth ≤ levels) : e.render (some levels) = e.display :=
    render_of_height_le (e.depth_eq_height ▸ h)
  refine ⟨hsummary e, hdepth summaryLevels, hdepth, ?_⟩
  rintro C n n' rfl hlength
  rw [Context.path, List.length_map] at hlength
  rw [hsummary, hsummary (C.fill n), truncate_fill C hlength n' n]

/-- A field under a tower of arithmetic negations. -/
def negated (e : Expression) : Nat → Expression
  | 0 => e
  | n + 1 => .minus (negated e n)

/-- Fifteen negations of a field are shown in full, and the sixteenth hides what it stands on. -/
theorem summary_negated :
    (negated (.field "x" .long) 15).summary = (negated (.field "x" .long) 15).display ∧
    (negated (.field "x" .long) 16).summary = "----------------..." ∧
    (negated (.call "f" [.field "y" .date] .long) 16).summary = "----------------..." := by
  have hshown : (negated (.field "x" .long) 15).depth ≤ summaryLevels := by
    rw [depth_eq_height]
    decide
  have hhidden : (negated (.field "x" .long) 16).summary = "----------------..." := by decide
  refine ⟨(summary_eq_display_truncate _ .long).2.1 hshown, hhidden, ?_⟩
  have hreplaced := (summary_eq_display_truncate (negated (.field "x" .long) 16) .long).2.2.2
    (List.replicate 16 .minus) (.field "x" .long) (.call "f" [.field "y" .date] .long) rfl
    (by decide)
  exact hreplaced.trans hhidden

end Expression

end ScoringMarkup
