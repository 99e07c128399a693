import ScoringMarkup.Proofs.Conversion.Aliases
import ScoringMarkup.Proofs.Expression.Widths

/-!
# What markup tells of its source

Markup can be read back as a source tree: no two operators or shapes share a function name, so the
name of a function and the number of its arguments tell the node it stands for. Reading back the
counterpart of a converted tree gives the tree without aliases and without widths, so conversion
loses these and nothing else.
-/

namespace ScoringMarkup

namespace BinaryOperator

/-- The operator that a function stands for. -/
def ofFunctionName? (name : String) : Option BinaryOperator :=
  all.find? fun op => op.functionName = name

end BinaryOperator

namespace Expression

/-- The node that stands for an applied function. A function that conversion never applies is
some other function of the source. -/
def ofFunction : String → List Expression → Expression
  | "if", [predicate, whenTrue, whenFalse] => .conditional predicate whenTrue whenFalse
  | "isIn", value :: list => .membership value list
  | "not", [child] => .negation child
  | "isMissing", [child] => .isNull child
  | "isNotMissing", [child] => .isNotNull child
  | function, arguments =>
    match BinaryOperator.ofFunctionName? function, arguments with
    | some op, [left, right] => .binary op left right
    | _, _ => .call function arguments .void

theorem ofFunction_functionName (op : BinaryOperator) (left right : Expression) :
    ofFunction op.functionName [left, right] = .binary op left right := by
  cases op <;> rfl

end Expression

namespace Element

mutual

/-- The plainest source tree that markup can stand for. -/
def source : Element → Expression
  | .fieldRef field => .field field .void
  | .apply function arguments => .ofFunction function (sources arguments)
  | .constant value type => .literal value type.source

/-- The source trees of several elements. -/
def sources : List Element → List Expression
  | [] => []
  | e :: es => source e :: sources es

end

theorem sources_eq_map (es : List Element) : sources es = es.map source := by
  induction es with
  | nil => rfl
  | cons e es ih => rw [sources, ih, List.map_cons]

end Element

namespace Expression

/-- The counterpart of a supported tree reads back as the tree, but for aliases and widths. -/
theorem source_counterpart {e : Expression} (h : ∀ n ∈ e.preorder, n.IsSupported) :
    e.counterpart.source = e.withoutAliases.withoutWidths := by
  induction e using induct_children with
  | step e ih =>
    obtain ⟨hself, hbelow⟩ := forall_mem_preorder_iff.mp h
    have hchildren : e.children.map (fun c => c.counterpart.source) =
        e.children.map fun c => c.withoutAliases.withoutWidths :=
      List.map_congr_left fun c hc => ih c hc (hbelow c hc)
    cases e with
    | field | literal => rfl
    | «cast» | minus | call => exact hself.elim
    | binary op left right =>
      simpa [counterpart, Element.source, Element.sources, ofFunction_functionName, children,
        withoutAliases, withoutWidths] using hchildren
    | nullCheck check child =>
      cases check <;>
        simpa [counterpart, Element.source, Element.sources, ofFunction, children, withoutAliases,
          withoutWidths, isNull, isNotNull] using hchildren
    | _ =>
      simpa [counterpart, counterparts_eq_map, Element.source, Element.sources,
        Element.sources_eq_map, ofFunction, children, withoutAliases, withoutWidths,
        listWithoutAliases_eq_map, listWithoutWidths_eq_map] using hchildren

/-- A tree without aliases and widths starts with the name of the first node that is no alias. -/
theorem nodeName_plain (e : Expression) :
    e.withoutAliases.withoutWidths.nodeName = e.unaliased.nodeName := by
  rw [nodeName_withoutWidths, ← withoutAliases_unaliased,
    nodeName_withoutAliases e.isAlias_unaliased]

/-- A tree without aliases and widths keeps the markup of the children of the first node that is
no alias. -/
theorem counterpart_children_plain (e : Expression) :
    e.withoutAliases.withoutWidths.children.map counterpart =
      e.unaliased.children.map counterpart := by
  rw [children_withoutWidths, ← withoutAliases_unaliased,
    children_withoutAliases e.isAlias_unaliased]
  simp [counterpart_withoutAliases]

end Expression

namespace Conversion

open Expression (counterpart)

/-- Conversion loses aliases and widths, and nothing else: two converted trees have the same
markup exactly when they are equal without aliases, without the types of fields and with the
markup types of literals for their types. Below aliases they then start with the same operator or
the same kind of node, and the markup of the children is the same, one by one. -/
theorem target_eq_iff {c c' : Configuration} {e e' : Expression} {m m' : Mapping}
    (h : (convert c e).outcome = .ok m) (h' : (convert c' e').outcome = .ok m') :
    (m.target = m'.target ↔
      e.withoutAliases.withoutWidths = e'.withoutAliases.withoutWidths) ∧
    (m.target = m'.target → m.source.nodeName = m'.source.nodeName ∧
      m.source.children.map counterpart = m'.source.children.map counterpart) := by
  have hsupported := (exists_convertTree_iff e).mp ⟨m, (convert_eq_ok h).2⟩
  have hsupported' := (exists_convertTree_iff e').mp ⟨m', (convert_eq_ok h').2⟩
  obtain ⟨-, rfl⟩ := outcome_convertTree_iff.mp (convert_eq_ok h).2
  obtain ⟨-, rfl⟩ := outcome_convertTree_iff.mp (convert_eq_ok h').2
  have hplain : e.counterpart = e'.counterpart →
      e.withoutAliases.withoutWidths = e'.withoutAliases.withoutWidths := by
    intro htarget
    rw [← Expression.source_counterpart hsupported, ← Expression.source_counterpart hsupported',
      htarget]
  refine ⟨⟨hplain, ?_⟩, ?_⟩
  · intro heq
    have hcounterpart := congrArg counterpart heq
    rwa [Expression.counterpart_withoutWidths, Expression.counterpart_withoutAliases,
      Expression.counterpart_withoutWidths, Expression.counterpart_withoutAliases] at hcounterpart
  · intro htarget
    have heq := hplain htarget
    constructor
    · exact (e.nodeName_plain.symm.trans (congrArg Expression.nodeName heq)).trans e'.nodeName_plain
    · have hchildren := congrArg (fun e => e.children.map counterpart) heq
      exact (e.counterpart_children_plain.symm.trans hchildren).trans e'.counterpart_children_plain

/-- A test of a sum, with types for the two operands and a name for the sum. -/
def namedSum (first second : SourceType) (name : String) : Expression :=
  .membership (.alias (.binary .add (.field "a" first) (.literal .null second)) name) []

/-- The sums of operands of other widths and other names cannot be told apart in markup. -/
theorem target_namedSum :
    (convert .standard (namedSum .byte .long "x")).outcome =
      .ok (namedSum .byte .long "x").mapping ∧
    (convert .unbounded (namedSum .integer .short "y")).outcome =
      .ok (namedSum .integer .short "y").mapping ∧
    (namedSum .byte .long "x").mapping.target = (namedSum .integer .short "y").mapping.target := by
  have h : (convert .standard (namedSum .byte .long "x")).outcome =
      .ok (namedSum .byte .long "x").mapping := by
    have hadmits : Admits .standard (namedSum .byte .long "x") := admits_withMaxDepth (by decide)
    rw [convert_of_admits hadmits]
    exact outcome_convertTree _
  have h' : (convert .unbounded (namedSum .integer .short "y")).outcome =
      .ok (namedSum .integer .short "y").mapping := outcome_convertTree _
  exact ⟨h, h', (target_eq_iff h h').1.mpr rfl⟩

end Conversion

end ScoringMarkup
