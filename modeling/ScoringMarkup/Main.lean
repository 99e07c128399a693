import ScoringMarkup.CommandLine.Run

/-!
# The command line program

Reads the expression from a file or from standard input, and prints what
`CommandLine.respond` answers.
-/

namespace ScoringMarkup

namespace CommandLine

/-- The system's words for an input error. -/
def reason (error : IO.Error) : String :=
  match error with
  | .noFileOrDirectory _ code details | .permissionDenied _ code details
  | .resourceExhausted _ code details | .inappropriateType _ code details
  | .invalidArgument _ code details =>
    details ++ " (os error " ++ toString code ++ ")"
  | error => toString error

/-- Opens a file and reads all of it. -/
def openFile (path : String) : IO Document.File := do
  match ← (IO.FS.Handle.mk path .read).toBaseIO with
  | .error error => return .unopened (reason error)
  | .ok handle =>
    match ← handle.readBinToEnd.toBaseIO with
    | .error error => return .unreadable (reason error)
    | .ok bytes => return .contents bytes.toList

/-- The bytes of standard input. -/
def standardInput : IO Json.Bytes := do return (← (← IO.getStdin).readBinToEnd).toList

/-- Carries out a request. -/
def carryOut : Request → IO UInt32
  | .usageError => do
    IO.eprintln
      "usage: sparkpmml [--max-depth N | --unbounded] [--format markup|json] [--debug] [INPUT]"
    return 2
  | .version => do
    IO.print versionText
    return 0
  | .convert options => do
    let source ← match options.input with
      | some path => Document.loadExpression path <$> openFile path
      | none => Document.readExpression <$> standardInput
    let outcome := respond options source
    if options.debug then
      for r in outcome.records do
        if r.level = "DEBUG" then IO.eprintln r.message
    IO.print outcome.output
    IO.eprint outcome.report
    return outcome.exitCode.toUInt32

end CommandLine

end ScoringMarkup

/-- Converts the expression that the arguments name. -/
def main (arguments : List String) : IO UInt32 :=
  ScoringMarkup.CommandLine.carryOut (ScoringMarkup.CommandLine.parse arguments)
