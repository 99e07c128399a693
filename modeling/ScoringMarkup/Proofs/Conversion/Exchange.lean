import ScoringMarkup.Proofs.Conversion.Arithmetic
import ScoringMarkup.Proofs.Conversion.Congruence

/-!
# Conversion and the order of operands

The operands of `+ - * /` can be exchanged at any choice of places in a tree. A node whose operands
are exchanged may declare another type, but where one operand accepts the other it is the same up
to flags, and a type that has a counterpart has no flags. So a tree is converted exactly when the
exchanged tree is, to the same type and to the same markup with the same arguments exchanged.
-/

namespace ScoringMarkup

namespace Expression

/-- A choice of places in a tree. -/
abbrev Places := Path → Bool

/-- The places chosen in a child, as they are seen from that child. -/
def Places.inChild (places : Places) (i : Nat) : Places := fun path => places (i :: path)

mutual

/-- The tree with the operands of `+ - * /` exchanged at the given places. An alias shares the place
of its child, so that a node has the same place in the tree as in its markup. -/
def exchange (places : Places) : Expression → Expression
  | .alias child name => .alias (exchange places child) name
  | .field name type => .field name type
  | .binary op left right =>
    let first := exchange (places.inChild 0) left
    let second := exchange (places.inChild 1) right
    if op.isWidening && places [] then .binary op second first else .binary op first second
  | .conditional predicate whenTrue whenFalse =>
    .conditional (exchange (places.inChild 0) predicate) (exchange (places.inChild 1) whenTrue)
      (exchange (places.inChild 2) whenFalse)
  | .membership value list =>
    .membership (exchange (places.inChild 0) value) (exchangeList places 1 list)
  | .literal value type => .literal value type
  | .negation child => .negation (exchange (places.inChild 0) child)
  | .nullCheck check child => .nullCheck check (exchange (places.inChild 0) child)
  | .cast child type => .cast (exchange (places.inChild 0) child) type
  | .minus child => .minus (exchange (places.inChild 0) child)
  | .call name arguments type => .call name (exchangeList places 0 arguments) type

/-- The children from a number on, each with the operands exchanged at the places below it. -/
def exchangeList (places : Places) (i : Nat) : List Expression → List Expression
  | [] => []
  | e :: es => exchange (places.inChild i) e :: exchangeList places (i + 1) es

end

end Expression

namespace Element

open Expression (Places)

/-- Whether a function is one of `+ - * /`. -/
def isArithmetic (function : String) : Bool := ["+", "-", "*", "/"].contains function

mutual

/-- The markup with the arguments of `+ - * /` exchanged at the given places. -/
def exchange (places : Places) : Element → Element
  | .fieldRef field => .fieldRef field
  | .apply function arguments =>
    let arguments := exchangeList places 0 arguments
    .apply function
      (if isArithmetic function && places [] then arguments.reverse else arguments)
  | .constant value type => .constant value type

/-- The arguments from a number on, each exchanged at the places below it. -/
def exchangeList (places : Places) (i : Nat) : List Element → List Element
  | [] => []
  | e :: es => exchange (places.inChild i) e :: exchangeList places (i + 1) es

end

end Element

/-- Exactly the functions of the widening operators are arithmetic. -/
theorem BinaryOperator.isArithmetic_functionName (op : BinaryOperator) :
    Element.isArithmetic op.functionName = op.isWidening := by
  cases op <;> rfl

namespace Expression

/-- Two trees of which one is supported throughout exactly when the other one is, and which then
declare the same type. -/
structure TypedAlike (e e' : Expression) : Prop where
  supported : (∀ n ∈ e.preorder, n.IsSupported) ↔ ∀ n ∈ e'.preorder, n.IsSupported
  type : (∀ n ∈ e.preorder, n.IsSupported) → e.declaredType = e'.declaredType

namespace TypedAlike

variable {e e' e'' : Expression}

/-- A tree is typed like itself. -/
theorem refl (e : Expression) : TypedAlike e e := ⟨Iff.rfl, fun _ => rfl⟩

/-- Trees typed alike one after the other are so altogether. -/
theorem trans (h : TypedAlike e e') (h' : TypedAlike e' e'') : TypedAlike e e'' where
  supported := h.supported.trans h'.supported
  type he := (h.type he).trans (h'.type (h.supported.mp he))

/-- The check and the type of a node look at a child only through the type that it declares. -/
theorem frame (h : TypedAlike e e') (f : Frame) : TypedAlike (f.fill e) (f.fill e') where
  supported := by
    rw [supported_frame_iff, supported_frame_iff]
    constructor
    · rintro ⟨hnode, hbefore, he, hafter⟩
      exact ⟨(isSupported_frame (h.type he) f).mp hnode, hbefore, h.supported.mp he, hafter⟩
    · rintro ⟨hnode, hbefore, he', hafter⟩
      have he := h.supported.mpr he'
      exact ⟨(isSupported_frame (h.type he) f).mpr hnode, hbefore, he, hafter⟩
  type hall := declaredType_frame (h.type ((supported_frame_iff e f).mp hall).2.2.1) f

end TypedAlike

section Swap

variable {op : BinaryOperator} {left right : Expression}

/-- A supported operation declares the same type over its operands in the other order: the two
types are the same up to flags, and one that has a counterpart has none. -/
theorem ofOperands_swap (hop : op.isWidening = true)
    (h : (binary op left right).IsSupported) :
    SourceType.ofOperands left.declaredType right.declaredType =
      SourceType.ofOperands right.declaredType left.declaredType := by
  obtain ⟨haccepts, hmapped⟩ := (isSupported_widening_iff hop).mp h
  exact SourceType.eq_of_sameType hmapped (SourceType.sameType_ofOperands_swap haccepts)

/-- A widening operation stays supported when its operands change places. -/
theorem isSupported_swap (hop : op.isWidening = true) (h : (binary op left right).IsSupported) :
    (binary op right left).IsSupported := by
  obtain ⟨haccepts, hmapped⟩ := (isSupported_widening_iff hop).mp h
  exact (isSupported_widening_iff hop).mpr ⟨haccepts.symm, ofOperands_swap hop h ▸ hmapped⟩

/-- Its nodes stay supported with it, since those below are the same. -/
theorem supported_swap (hop : op.isWidening = true)
    (h : ∀ n ∈ (binary op left right).preorder, n.IsSupported) :
    ∀ n ∈ (binary op right left).preorder, n.IsSupported := by
  rw [forall_mem_preorder_iff] at h ⊢
  obtain ⟨hnode, hchildren⟩ := h
  refine ⟨isSupported_swap hop hnode, fun c hc => hchildren c ?_⟩
  exact (List.Perm.swap left right []).mem_iff.mp hc

/-- With its operands exchanged, a supported operation declares what it declared. -/
theorem TypedAlike.swap (hop : op.isWidening = true) (left right : Expression) :
    TypedAlike (binary op left right) (binary op right left) where
  supported := ⟨supported_swap hop, supported_swap hop⟩
  type hall := by
    rw [declaredType_widening hop, declaredType_widening hop]
    exact ofOperands_swap hop (hall _ (self_mem_preorder _))

end Swap

mutual

/-- Exchanging operands anywhere keeps what is supported, and the types that are declared. -/
theorem typedAlike_exchange : ∀ (e : Expression) (places : Places),
    TypedAlike e (e.exchange places)
  | .alias child name, places => (typedAlike_exchange child places).frame (.alias name)
  | .field .., _ | .literal .., _ => .refl _
  | .binary op left right, places => by
    have hleft := (typedAlike_exchange left (places.inChild 0)).frame (.leftOperand op right)
    have hright := (typedAlike_exchange right (places.inChild 1)).frame
      (.rightOperand op (left.exchange (places.inChild 0)))
    have hoperands := hleft.trans hright
    rw [exchange]
    split_ifs with hplace
    · obtain ⟨hop, -⟩ := Bool.and_eq_true_iff.mp hplace
      exact hoperands.trans (.swap hop _ _)
    · exact hoperands
  | .conditional predicate whenTrue whenFalse, places => by
    -- The children are replaced one after the other.
    have htest := (typedAlike_exchange predicate (places.inChild 0)).frame
      (.test whenTrue whenFalse)
    have htrue := (typedAlike_exchange whenTrue (places.inChild 1)).frame
      (.trueBranch (predicate.exchange (places.inChild 0)) whenFalse)
    have hfalse := (typedAlike_exchange whenFalse (places.inChild 2)).frame
      (.falseBranch (predicate.exchange (places.inChild 0))
        (whenTrue.exchange (places.inChild 1)))
    exact htest.trans (htrue.trans hfalse)
  | .membership value list, places => by
    have hvalue := (typedAlike_exchange value (places.inChild 0)).supported
    have hlist := supported_exchangeList list places 1
    refine ⟨?_, fun _ => rfl⟩
    rw [forall_mem_preorder_iff, forall_mem_preorder_iff]
    refine and_congr Iff.rfl ?_
    rw [exchange]
    simp only [children, List.forall_mem_cons]
    exact and_congr hvalue hlist
  | .negation child, places => (typedAlike_exchange child (places.inChild 0)).frame .negation
  | .nullCheck check child, places =>
    (typedAlike_exchange child (places.inChild 0)).frame (.nullCheck check)
  | .cast child type, places => (typedAlike_exchange child (places.inChild 0)).frame (.cast type)
  | .minus child, places => (typedAlike_exchange child (places.inChild 0)).frame .minus
  | .call .., _ =>
    -- A call is never supported, so nothing is asked of its arguments.
    ⟨iff_of_false (fun h => h _ (self_mem_preorder _)) (fun h => h _ (self_mem_preorder _)),
      fun _ => rfl⟩

/-- Exchanging operands in each tree of a list keeps what is supported. -/
theorem supported_exchangeList : ∀ (es : List Expression) (places : Places) (i : Nat),
    (∀ c ∈ es, ∀ n ∈ c.preorder, n.IsSupported) ↔
      ∀ c ∈ exchangeList places i es, ∀ n ∈ c.preorder, n.IsSupported
  | [], _, _ => Iff.rfl
  | e :: es, places, i => by
    have he := (typedAlike_exchange e (places.inChild i)).supported
    rw [exchangeList, List.forall_mem_cons, List.forall_mem_cons, he,
      supported_exchangeList es places (i + 1)]

end

/-- Where all nodes of a tree are supported, so are those of its children. -/
theorem supported_child {e c : Expression} (h : ∀ n ∈ e.preorder, n.IsSupported)
    (hc : c ∈ e.children) : ∀ n ∈ c.preorder, n.IsSupported :=
  fun n hn => h n (mem_preorder_of_mem_children hc hn)

mutual

/-- The markup of an exchanged tree has the arguments exchanged at the same places. -/
theorem counterpart_exchange : ∀ (e : Expression) (places : Places),
    (∀ n ∈ e.preorder, n.IsSupported) →
      (e.exchange places).counterpart = e.counterpart.exchange places
  | .alias child _, places, h =>
    counterpart_exchange child places (supported_child h (List.mem_singleton.mpr rfl))
  | .field .., _, _ | .literal .., _, _ => rfl
  | .binary op left right, places, h => by
    have hleft := counterpart_exchange left (places.inChild 0)
      (supported_child h (by simp [children]))
    have hright := counterpart_exchange right (places.inChild 1)
      (supported_child h (by simp [children]))
    rw [exchange, counterpart, Element.exchange, op.isArithmetic_functionName]
    simp only [Element.exchangeList, ← hleft, ← hright]
    split <;> rfl
  | .conditional predicate whenTrue whenFalse, places, h => by
    rw [exchange, counterpart, counterpart_exchange predicate, counterpart_exchange whenTrue,
      counterpart_exchange whenFalse]
    · rfl
    all_goals exact supported_child h (by simp [children])
  | .membership value list, places, h => by
    have hlist := counterparts_exchangeList list places 1 fun c hc =>
      supported_child h (List.mem_cons_of_mem _ hc)
    rw [exchange, counterpart, hlist, counterpart_exchange value]
    · rfl
    · exact supported_child h (List.mem_cons_self ..)
  | .negation child, places, h =>
    congrArg (Element.apply "not" [·])
      (counterpart_exchange child _ (supported_child h (List.mem_singleton.mpr rfl)))
  | .nullCheck .isNull child, places, h =>
    congrArg (Element.apply "isMissing" [·])
      (counterpart_exchange child _ (supported_child h (List.mem_singleton.mpr rfl)))
  | .nullCheck .isNotNull child, places, h =>
    congrArg (Element.apply "isNotMissing" [·])
      (counterpart_exchange child _ (supported_child h (List.mem_singleton.mpr rfl)))
  | .cast .., _, h | .minus _, _, h | .call .., _, h => (h _ (self_mem_preorder _)).elim

/-- The markup of a list of trees is exchanged tree by tree. -/
theorem counterparts_exchangeList : ∀ (es : List Expression) (places : Places) (i : Nat),
    (∀ c ∈ es, ∀ n ∈ c.preorder, n.IsSupported) →
      counterparts (exchangeList places i es) = Element.exchangeList places i (counterparts es)
  | [], _, _, _ => rfl
  | e :: es, places, i, h => by
    rw [exchangeList, counterparts, counterparts, Element.exchangeList,
      counterpart_exchange e _ (h e (List.mem_cons_self ..)),
      counterparts_exchangeList es _ _ fun c hc => h c (List.mem_cons_of_mem _ hc)]

end

end Expression

namespace Conversion

open Expression (Places)

/-- The order of the operands of `+ - * /` has no part in typing. Without a depth limit, a tree is
converted exactly when the tree with operands exchanged at any places is, and then to the same type
and to the same markup with the arguments exchanged at these places and nowhere else. -/
theorem convert_exchange (e : Expression) (places : Places) :
    ((∃ m, (convert .unbounded e).outcome = .ok m) ↔
      ∃ m', (convert .unbounded (e.exchange places)).outcome = .ok m') ∧
    ∀ m m', (convert .unbounded e).outcome = .ok m →
      (convert .unbounded (e.exchange places)).outcome = .ok m' →
      m'.type = m.type ∧ m'.target = m.target.exchange places := by
  have halike := e.typedAlike_exchange places
  constructor
  · exact (exists_convertTree_iff e).trans
      (halike.supported.trans (exists_convertTree_iff _).symm)
  · intro m m' hm hm'
    have hsupported := (exists_convertTree_iff e).mp ⟨m, hm⟩
    obtain ⟨-, rfl⟩ := outcome_convertTree_iff.mp hm
    obtain ⟨-, rfl⟩ := outcome_convertTree_iff.mp hm'
    exact ⟨congrArg SourceType.scalar (halike.type hsupported).symm,
      e.counterpart_exchange places hsupported⟩

/-- A choice with a product of a sum, under an alias, as one branch. -/
def scaledSum : Expression :=
  .conditional (.field "p" .boolean)
    (.alias (.binary .multiply (.binary .add (.field "a" .long) (.field "b" .byte))
      (.field "d" .double)) "x")
    (.literal .null .double)

/-- The place of the product and the place of the sum in it; the alias is no step. -/
def scaledSumPlaces : Places := fun path => path == [1] || path == [1, 0]

/-- The product and the sum are both turned round in the markup, and the branches are not. -/
theorem convert_exchange_scaledSum :
    (convert .unbounded scaledSum).outcome = .ok scaledSum.mapping ∧
    ∃ m', (convert .unbounded (scaledSum.exchange scaledSumPlaces)).outcome = .ok m' ∧
      m'.type = .double ∧
      m'.target = .apply "if" [.fieldRef "p",
        .apply "*" [.fieldRef "d", .apply "+" [.fieldRef "b", .fieldRef "a"]],
        .constant .null .double] := by
  have h : (convert .unbounded scaledSum).outcome = .ok scaledSum.mapping := outcome_convertTree _
  obtain ⟨hiff, hsame⟩ := convert_exchange scaledSum scaledSumPlaces
  obtain ⟨m', hm'⟩ := hiff.mp ⟨_, h⟩
  obtain ⟨htype, htarget⟩ := hsame _ m' h hm'
  exact ⟨h, m', hm', htype, htarget⟩

end Conversion

end ScoringMarkup
