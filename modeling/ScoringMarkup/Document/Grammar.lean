import ScoringMarkup.Conversion.Configuration
import ScoringMarkup.Json.Grammar
import ScoringMarkup.Markup.Element
import ScoringMarkup.Operator

/-!
# The grammar of documents

The rules for documents that hold expressions, types, values, operators, markup expressions and
configurations. Titles and variant names are those of the document format.
-/

namespace ScoringMarkup

namespace Document

/-- The places of a document. -/
inductive Symbol
  | string
  | boolean
  | double
  | long
  | octet
  | value
  | sourceType
  | decimal
  | array
  | structField
  | structFields
  | operator
  | nullCheck
  | expression
  | expressions
  | alias
  | field
  | binary
  | conditional
  | membership
  | literal
  | nullTest
  | cast
  | call
  | scalarType
  | element
  | elements
  | fieldRef
  | apply
  | constant
  | maxDepth
  | configuration
  deriving DecidableEq

open Json

/-- A signed integer of 64 bits. -/
def longRange : IntegerRange := ⟨"i64", -0x8000000000000000, 0x7fffffffffffffff⟩

/-- An unsigned integer of 8 bits. -/
def octetRange : IntegerRange := ⟨"u8", 0, 255⟩

/-- An unsigned integer of 64 bits. -/
def sizeRange : IntegerRange := ⟨"usize", 0, 0xffffffffffffffff⟩

/-- A variant that is its name alone. -/
def bare (name : String) : Variant Symbol := ⟨name, .none⟩

/-- A variant with a single value. -/
def holding (name : String) (symbol : Symbol) : Variant Symbol := ⟨name, .value symbol⟩

/-- A variant with a record of its own. -/
def made (name : String) (fields : Symbol) : Variant Symbol := ⟨name, .fields fields⟩

/-- A field that has to be there. -/
def needed (name : String) (symbol : Symbol) : Json.Field Symbol := ⟨name, symbol, none⟩

/-- The rule of each place. -/
def grammar : Grammar Symbol
  | .string => .string
  | .boolean => .boolean
  | .double => .double
  | .long => .integer longRange
  | .octet => .integer octetRange
  | .value => .choice
    [bare "Null", holding "Boolean" .boolean, holding "Integer" .long, holding "Double" .double,
      holding "String" .string]
  | .sourceType => .choice
    [bare "String", bare "Byte", bare "Short", bare "Integer", bare "Long", bare "Float",
      bare "Double", bare "Boolean", made "Decimal" .decimal, bare "Date", bare "Timestamp",
      bare "Binary", bare "Null", made "Array" .array, holding "Struct" .structFields]
  | .decimal => .record "struct variant SourceDataType::Decimal"
    [needed "precision" .octet, needed "scale" .octet]
  | .array => .record "struct variant SourceDataType::Array"
    [needed "element" .sourceType, needed "contains_null" .boolean]
  | .structField => .record "struct StructField"
    [needed "name" .string, needed "data_type" .sourceType, needed "nullable" .boolean]
  | .structFields => .list .structField
  | .operator => .choice (BinaryOperator.all.map fun op => bare op.nodeName)
  | .nullCheck => .choice (NullCheck.all.map fun check => bare check.nodeName)
  | .expression => .choice
    [made "Alias" .alias, made "FieldReference" .field, made "BinaryOp" .binary,
      made "If" .conditional, made "In" .membership, made "Literal" .literal,
      holding "Not" .expression, made "NullCheck" .nullTest, made "Cast" .cast,
      holding "UnaryMinus" .expression, made "ScalarFunction" .call]
  | .expressions => .list .expression
  | .alias => .record "struct variant Expression::Alias"
    [needed "child" .expression, needed "name" .string]
  | .field => .record "struct variant Expression::FieldReference"
    [needed "name" .string, needed "data_type" .sourceType]
  | .binary => .record "struct variant Expression::BinaryOp"
    [needed "op" .operator, needed "left" .expression, needed "right" .expression]
  | .conditional => .record "struct variant Expression::If"
    [needed "predicate" .expression, needed "true_value" .expression,
      needed "false_value" .expression]
  | .membership => .record "struct variant Expression::In"
    [needed "value" .expression, needed "list" .expressions]
  | .literal => .record "struct variant Expression::Literal"
    [needed "value" .value, needed "data_type" .sourceType]
  | .nullTest => .record "struct variant Expression::NullCheck"
    [needed "kind" .nullCheck, needed "child" .expression]
  | .cast => .record "struct variant Expression::Cast"
    [needed "child" .expression, needed "data_type" .sourceType]
  | .call => .record "struct variant Expression::ScalarFunction"
    [needed "name" .string, needed "arguments" .expressions, needed "data_type" .sourceType]
  | .scalarType => .choice (ScalarType.all.map fun type => bare type.name)
  | .element => .choice
    [holding "FieldRef" .fieldRef, holding "Apply" .apply, holding "Constant" .constant]
  | .elements => .list .element
  | .fieldRef => .record "struct FieldRef" [needed "field" .string]
  | .apply => .record "struct Apply" [needed "function" .string, needed "arguments" .elements]
  | .constant => .record "struct Constant" [needed "value" .value, needed "data_type" .scalarType]
  | .maxDepth => .optionalInteger sizeRange
  | .configuration => .record "struct TranslatorConfig"
    [⟨"max_depth", .maxDepth, some (.integer Configuration.defaultMaxDepth)⟩]

end Document

end ScoringMarkup
