import ScoringMarkup.Conversion.Mapping

/-!
# Command line options

Arguments are taken from left to right and the first fault ends them; a request for the version
is answered where it stands. Each option may be given once, and a depth limit together with its
removal is refused at the end.
-/

namespace ScoringMarkup

namespace CommandLine

/-- How a conversion is printed. -/
inductive OutputFormat
  | markup
  | json
  deriving DecidableEq

/-- The options of a conversion; `none` stands for an option that is not given. -/
structure Options where
  input : Option String
  maxDepth : Option Nat
  unbounded : Bool
  format : Option OutputFormat
  debug : Bool

namespace Options

/-- No option given. -/
def empty : Options := ⟨none, none, false, none, false⟩

/-- The configuration that the options ask for. -/
def configuration (o : Options) : Configuration :=
  if o.unbounded then .unbounded
  else .withMaxDepth (o.maxDepth.getD Configuration.defaultMaxDepth)

/-- The chosen format, or markup. -/
def outputFormat (o : Options) : OutputFormat := o.format.getD .markup

end Options

/-- What the arguments ask for. -/
inductive Request
  | usageError
  | version
  | convert (options : Options)

/-- Options that take a value. -/
inductive Valued
  | maxDepth
  | format

/-- A natural of 64 bits in decimal digits, with or without a plus sign. -/
def readSize? (text : String) : Option Nat :=
  let digits := match text.toList with
    | '+' :: digits => digits
    | digits => digits
  let value := Nat.ofDigitChars 10 digits 0
  if !digits.isEmpty && digits.all (·.isDigit) && decide (value ≤ 0xffffffffffffffff) then
    some value
  else none

def readFormat? : String → Option OutputFormat
  | "markup" => some .markup
  | "json" => some .json
  | _ => none

/-- Gives an option its value, unless it has one already or the value does not fit. -/
def Valued.set? (option : Valued) (o : Options) (value : String) : Option Options :=
  match option with
  | .maxDepth =>
    match o.maxDepth, readSize? value with
    | none, some limit => some { o with maxDepth := some limit }
    | _, _ => none
  | .format =>
    match o.format, readFormat? value with
    | none, some chosen => some { o with format := some chosen }
    | _, _ => none

/-- Takes the file to read, unless there is one already or the name is empty. -/
def setInput? (o : Options) (path : String) : Option Options :=
  if o.input.isNone && !path.isEmpty then some { o with input := some path } else none

def setUnbounded? (o : Options) : Option Options :=
  if o.unbounded then none else some { o with unbounded := true }

def setDebug? (o : Options) : Option Options :=
  if o.debug then none else some { o with debug := true }

/-- What one argument leads to. -/
inductive Step
  | usageError
  | version
  /-- The argument is complete. -/
  | options (o : Options)
  /-- The next argument is the value of an option. -/
  | awaiting (option : Valued) (o : Options)

/-- The step after an attempt to take an argument. -/
def Step.ofOptions? : Option Options → Step
  | some o => .options o
  | none => .usageError

/-- Takes an option by its long name. -/
def takeLong (o : Options) (name : List Char) : Step :=
  let (key, value) := (name.takeWhile (· != '='), name.dropWhile (· != '='))
  match String.ofList key, value with
  | "max-depth", [] => .awaiting .maxDepth o
  | "format", [] => .awaiting .format o
  | "max-depth", _ :: value => .ofOptions? (Valued.maxDepth.set? o (String.ofList value))
  | "format", _ :: value => .ofOptions? (Valued.format.set? o (String.ofList value))
  | "unbounded", [] => .ofOptions? (setUnbounded? o)
  | "debug", [] => .ofOptions? (setDebug? o)
  | "version", [] => .version
  | _, _ => .usageError

/-- Takes options by their letters; a letter with a value takes the letters behind it, without an
equals sign in front, or else the next argument. -/
def takeShort (o : Options) : List Char → Step
  | [] => .options o
  | 'V' :: _ => .version
  | 'd' :: letters =>
    match setDebug? o with
    | some o => takeShort o letters
    | none => .usageError
  | ['f'] => .awaiting .format o
  | 'f' :: '=' :: value => .ofOptions? (Valued.format.set? o (String.ofList value))
  | 'f' :: value => .ofOptions? (Valued.format.set? o (String.ofList value))
  | _ :: _ => .usageError

/-- Takes an argument in front of the double dash. -/
def takeArgument (o : Options) (argument : String) : Step :=
  match argument.toList with
  | '-' :: '-' :: name => takeLong o name
  | ['-'] => .ofOptions? (setInput? o argument)
  | '-' :: letters => takeShort o letters
  | _ => .ofOptions? (setInput? o argument)

/-- The request once all arguments are taken. -/
def finish (o : Options) : Request :=
  if o.maxDepth.isSome && o.unbounded then .usageError else .convert o

/-- Takes the arguments behind the double dash, which name files only. -/
def takeFiles (o : Options) : List String → Request
  | [] => finish o
  | path :: arguments =>
    match setInput? o path with
    | some o => takeFiles o arguments
    | none => .usageError

/-- Whether an argument can be the value of an option before it. -/
def canBeValue (argument : String) : Bool :=
  match argument.toList with
  | '-' :: _ :: _ => false
  | _ => true

/-- Takes the arguments one by one; `awaiting` is the option that the next one is a value of. -/
def takeArguments (awaiting : Option Valued) (o : Options) : List String → Request
  | [] => if awaiting.isSome then .usageError else finish o
  | argument :: arguments =>
    match awaiting with
    | some option =>
      if canBeValue argument then
        match option.set? o argument with
        | some o => takeArguments none o arguments
        | none => .usageError
      else .usageError
    | none =>
      if argument = "--" then takeFiles o arguments
      else
        match takeArgument o argument with
        | .usageError => .usageError
        | .version => .version
        | .options o => takeArguments none o arguments
        | .awaiting option o => takeArguments (some option) o arguments

/-- What a list of arguments asks for. -/
def parse (arguments : List String) : Request := takeArguments none .empty arguments

end CommandLine

end ScoringMarkup
