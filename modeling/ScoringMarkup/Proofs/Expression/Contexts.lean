import ScoringMarkup.Expression.Fold

/-!
# Expressions with a hole

A context is a tree in which one subtree is left open, at any place and any depth: the frames
around the hole, the outermost one first. A tree put into the hole stands at the place of the hole,
and whatever stands at a place of a tree stands in such a context.
-/

namespace ScoringMarkup

namespace Expression

/-- A node with one of its children left open. -/
inductive Frame
  | alias (name : String)
  | leftOperand (op : BinaryOperator) (right : Expression)
  | rightOperand (op : BinaryOperator) (left : Expression)
  | test (whenTrue whenFalse : Expression)
  | trueBranch (predicate whenFalse : Expression)
  | falseBranch (predicate whenTrue : Expression)
  | member (list : List Expression)
  /-- One item of the list of a membership test. -/
  | item (value : Expression) (before after : List Expression)
  | negation
  | nullCheck (check : NullCheck)
  | cast (type : SourceType)
  | minus
  | argument (name : String) (before after : List Expression) (type : SourceType)

namespace Frame

/-- The node with a tree as its open child. -/
def fill (f : Frame) (e : Expression) : Expression :=
  match f with
  | .alias name => .alias e name
  | .leftOperand op right => .binary op e right
  | .rightOperand op left => .binary op left e
  | .test whenTrue whenFalse => .conditional e whenTrue whenFalse
  | .trueBranch predicate whenFalse => .conditional predicate e whenFalse
  | .falseBranch predicate whenTrue => .conditional predicate whenTrue e
  | .member list => .membership e list
  | .item value before after => .membership value (before ++ e :: after)
  | .negation => .negation e
  | .nullCheck check => .nullCheck check e
  | .cast type => .cast e type
  | .minus => .minus e
  | .argument name before after type => .call name (before ++ e :: after) type

/-- The children in front of the open one. -/
def before : Frame → List Expression
  | .rightOperand _ left => [left]
  | .trueBranch predicate _ => [predicate]
  | .falseBranch predicate whenTrue => [predicate, whenTrue]
  | .item value front _ => value :: front
  | .argument _ front _ _ => front
  | _ => []

/-- The children behind the open one. -/
def after : Frame → List Expression
  | .leftOperand _ right => [right]
  | .test whenTrue whenFalse => [whenTrue, whenFalse]
  | .trueBranch _ whenFalse => [whenFalse]
  | .member list => list
  | .item _ _ rest => rest
  | .argument _ _ rest _ => rest
  | _ => []

theorem children_fill (f : Frame) (e : Expression) :
    (f.fill e).children = f.before ++ e :: f.after := by
  cases f <;> rfl

/-- The tree put into a frame is the child at the open place. -/
theorem getElem?_children_fill (f : Frame) (e : Expression) :
    (f.fill e).children[f.before.length]? = some e := by
  rw [children_fill, List.getElem?_append_right (Nat.le_refl _), Nat.sub_self]
  rfl

end Frame

/-- An item of a list has a part of the list in front of it and one behind it. -/
private theorem exists_parts {es : List Expression} {i : Nat} {c : Expression}
    (h : es[i]? = some c) : ∃ before after, before.length = i ∧ before ++ c :: after = es := by
  obtain ⟨hi, rfl⟩ := List.getElem?_eq_some_iff.mp h
  refine ⟨es.take i, es.drop (i + 1), List.length_take_of_le (Nat.le_of_lt hi), ?_⟩
  rw [List.getElem_cons_drop, List.take_append_drop]

private theorem eq_of_getElem?_singleton {child c : Expression} {i : Nat}
    (h : [child][i]? = some c) : i = 0 ∧ child = c := by
  simpa [List.getElem?_singleton] using h

/-- Each child of a node stands in a frame. -/
theorem exists_frame {e c : Expression} {i : Nat} (h : e.children[i]? = some c) :
    ∃ f : Frame, f.before.length = i ∧ f.fill c = e := by
  cases e with
  | field | literal => simp [children] at h
  | «alias» child name =>
    obtain ⟨rfl, rfl⟩ := eq_of_getElem?_singleton h
    exact ⟨.alias name, rfl, rfl⟩
  | negation child =>
    obtain ⟨rfl, rfl⟩ := eq_of_getElem?_singleton h
    exact ⟨.negation, rfl, rfl⟩
  | nullCheck check child =>
    obtain ⟨rfl, rfl⟩ := eq_of_getElem?_singleton h
    exact ⟨.nullCheck check, rfl, rfl⟩
  | «cast» child type =>
    obtain ⟨rfl, rfl⟩ := eq_of_getElem?_singleton h
    exact ⟨.cast type, rfl, rfl⟩
  | minus child =>
    obtain ⟨rfl, rfl⟩ := eq_of_getElem?_singleton h
    exact ⟨.minus, rfl, rfl⟩
  | binary op left right =>
    rcases i with _ | _ | i
    · cases h
      exact ⟨.leftOperand op right, rfl, rfl⟩
    · cases h
      exact ⟨.rightOperand op left, rfl, rfl⟩
    · cases h
  | conditional predicate whenTrue whenFalse =>
    rcases i with _ | _ | _ | i
    · cases h
      exact ⟨.test whenTrue whenFalse, rfl, rfl⟩
    · cases h
      exact ⟨.trueBranch predicate whenFalse, rfl, rfl⟩
    · cases h
      exact ⟨.falseBranch predicate whenTrue, rfl, rfl⟩
    · cases h
  | membership value list =>
    cases i with
    | zero =>
      cases h
      exact ⟨.member list, rfl, rfl⟩
    | succ i =>
      have hlist : list[i]? = some c := h
      obtain ⟨before, after, rfl, rfl⟩ := exists_parts hlist
      exact ⟨.item value before after, rfl, rfl⟩
  | call name arguments type =>
    have harguments : arguments[i]? = some c := h
    obtain ⟨before, after, rfl, rfl⟩ := exists_parts harguments
    exact ⟨.argument name before after type, rfl, rfl⟩

/-- A tree with a hole: the frames around the hole, the outermost one first. -/
abbrev Context := List Frame

namespace Context

/-- The tree with another tree in its hole. -/
def fill (C : Context) (e : Expression) : Expression := C.foldr Frame.fill e

/-- The place of the hole. -/
def path (C : Context) : Path := C.map fun f => f.before.length

end Context

/-- A tree has another one at a place exactly when it is a context with a hole at that place and
the other one in it. -/
theorem subtree?_eq_some_iff {e n : Expression} {path : Path} :
    e.subtree? path = some n ↔ ∃ C : Context, C.path = path ∧ C.fill n = e := by
  induction path generalizing e with
  | nil =>
    constructor
    · intro h
      cases h
      exact ⟨[], rfl, rfl⟩
    · rintro ⟨C, hpath, rfl⟩
      rw [List.map_eq_nil_iff.mp hpath]
      rfl
  | cons i path ih =>
    rw [subtree?, Option.bind_eq_some_iff]
    constructor
    · rintro ⟨child, hchild, hn⟩
      obtain ⟨f, rfl, rfl⟩ := exists_frame hchild
      obtain ⟨C, rfl, rfl⟩ := ih.mp hn
      exact ⟨f :: C, rfl, rfl⟩
    · rintro ⟨C, hpath, rfl⟩
      obtain ⟨f, C, rfl, rfl, rfl⟩ := List.map_eq_cons_iff.mp hpath
      exact ⟨Context.fill C n, f.getElem?_children_fill _, ih.mpr ⟨C, rfl, rfl⟩⟩

end Expression

end ScoringMarkup
