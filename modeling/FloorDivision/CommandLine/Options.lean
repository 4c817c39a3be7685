import FloorDivision.Failure

/-!
# Options of the command line

* `Options.ofArguments` — what a command line asks for.
* `Complaint` — why a command line is not carried out, and `Complaint.text`, what is said then.
-/

namespace FloorDivision.CommandLine

/-- What a command line asks for. -/
structure Options where
  /-- Takes precedence over the level of the configuration. -/
  level : Option Level := none
  configPath : Option String := none
  trace : Bool := false
  profile : Bool := false
  /-- Show the truth of the quotient instead of the quotient. -/
  asTruth : Bool := false
  asJson : Bool := false
  operands : List String := []

/-- Why a file cannot be read. -/
inductive FileProblem where
  | missing
  | denied
  | directory
  | other (reason : String)

/-- The system's words and code for the problem. -/
def FileProblem.text : FileProblem → String
  | .missing => "No such file or directory (os error 2)"
  | .denied => "Permission denied (os error 13)"
  | .directory => "Is a directory (os error 21)"
  | .other reason => reason

/-- Why a command line is not carried out. -/
inductive Complaint where
  | configWithoutPath
  | unknownOption (option : String)
  | traceAndProfile
  | operandCount
  | unreadableFile (path : String) (problem : FileProblem)
  | invalidConfig (failure : Failure)
  /-- A literal marked as long, under a level without such literals. -/
  | longAtModernLevel (literal : String)
  | invalidLong (literal : String)
  | invalidLiteral (literal : String)

namespace Complaint

def message : Complaint → String
  | .configWithoutPath => "--config requires a file path"
  | .unknownOption option => "unknown option " ++ option
  | .traceAndProfile => "--trace and --profile are exclusive"
  | .operandCount => "expected two operands"
  | .unreadableFile path problem => s!"reading {path}: {problem.text}"
  | .invalidConfig failure => failure.text
  | .longAtModernLevel literal => s!"long literal {literal} is not valid for the modern level"
  | .invalidLong literal => "invalid long literal " ++ literal
  | .invalidLiteral literal => "cannot parse literal " ++ literal

/-- Whether the command line itself is at fault, so that its form is worth showing. -/
def isUsage : Complaint → Bool
  | .configWithoutPath | .unknownOption _ | .traceAndProfile | .operandCount => true
  | _ => false

def usage : String :=
  "usage: pyfloordiv [--legacy | --modern] [--config FILE] [--trace] [--profile] [--bool] " ++
    "[--json] LHS RHS"

def text (complaint : Complaint) : String :=
  "error: " ++ complaint.message ++ "\n" ++ if complaint.isUsage then usage ++ "\n" else ""

end Complaint

namespace Options

/-- Reads arguments from left to right, later ones overriding earlier ones. -/
def read (options : Options) : List String → Except Complaint Options
  | [] => .ok options
  | "--legacy" :: rest => { options with level := some .legacy }.read rest
  | "--modern" :: rest => { options with level := some .modern }.read rest
  | ["--config"] => .error .configWithoutPath
  | "--config" :: path :: rest => { options with configPath := some path }.read rest
  | "--trace" :: rest => { options with trace := true }.read rest
  | "--profile" :: rest => { options with profile := true }.read rest
  | "--bool" :: rest => { options with asTruth := true }.read rest
  | "--json" :: rest => { options with asJson := true }.read rest
  | argument :: rest =>
    if argument.startsWith "--" then .error (.unknownOption argument)
    else { options with operands := options.operands ++ [argument] }.read rest

/-- What the arguments ask for; a single dash begins an operand. -/
def ofArguments (arguments : List String) : Except Complaint Options := do
  let options ← read {} arguments
  if options.trace && options.profile then .error .traceAndProfile else return options

end Options

end FloorDivision.CommandLine
