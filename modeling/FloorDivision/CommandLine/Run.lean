import FloorDivision.CommandLine.Literal
import FloorDivision.Json.Config
import FloorDivision.Json.Object
import FloorDivision.Script.Eval

/-!
# Running a command line

* `Division` — what to divide on which machine, `Division.ofArguments` from the arguments and the
  files that they name.
* `run` — the texts that are printed and the exit code.
-/

namespace FloorDivision.CommandLine

open MachineM

/-- A division of two operands on a machine of its own. -/
structure Division where
  config : Config
  options : Options
  left : Object
  right : Object

/-- What is printed, and whether all went well. -/
structure Outcome where
  exitCode : UInt32
  output : String := ""
  errors : String := ""

/-- The contents of the file under a path, or why it cannot be read. -/
abbrev Files := String → Except FileProblem String

/-- The configuration that the options name. -/
def loadConfig (files : Files) : Option String → Except Complaint Config
  | none => .ok {}
  | some path =>
    match files path with
    | .error problem => .error (.unreadableFile path problem)
    | .ok text => (Config.ofJson text).mapError .invalidConfig

namespace Division

/-- The operands are looked at after the configuration, and read for the level in force. -/
def ofArguments (files : Files) (arguments : List String) : Except Complaint Division := do
  let options ← Options.ofArguments arguments
  let config ← loadConfig files options.configPath
  let config := { config with level := options.level.getD config.level }
  match options.operands with
  | [left, right] =>
    return ⟨config, options, ← readLiteral config.level left, ← readLiteral config.level right⟩
  | _ => .error .operandCount

def tracer (options : Options) : Tracer :=
  if options.trace then .log {} else if options.profile then .profile {} else .silent

/-- No type has slots beyond the builtin ones. -/
def noUserSlots : UserSlots := .ofScripts [] [] 0

/-- The truth of the quotient as it is printed. -/
def truthText (options : Options) (truth : Bool) : String :=
  if options.asJson then toString truth else (Object.bool truth).repr .modern

/-- The quotient as it is printed. -/
def quotientText (options : Options) (machine : Machine) (value : Value) : String :=
  if options.asJson then (machine.toObject value).toJson else machine.repr value

/-- Divides and gives everything back but the text. -/
def perform (division : Division) : MachineM String := do
  let (lhs, rhs) ← both (ofObject division.left) (ofObject division.right)
  let entry := EntryPoint.generic division.config.level
  releasingBoth lhs rhs do
    if division.options.asTruth then
      return truthText division.options (← divideTakingPending noUserSlots entry lhs rhs)
    else inspect (← divide noUserSlots entry lhs rhs) (quotientText division.options)

/-- What a tracer leaves on the error channel. -/
def traceText (tracer : Tracer) : String :=
  match tracer with
  | .log printed => printed.text
  | .profile counts => counts.text ++ "\n"
  | .silent | .recording _ => ""

def outcome (division : Division) : Outcome :=
  let machine := Machine.start division.config (tracer division.options)
  let (result, machine) := division.perform machine
  let traced := traceText machine.tracer
  match result with
  | .ok text => { exitCode := 0, output := text ++ "\n", errors := traced }
  | .error failure => { exitCode := 1, errors := traced ++ failure.text ++ "\n" }

end Division

/-- Carries out a command line. -/
def run (files : Files) (arguments : List String) : Outcome :=
  match Division.ofArguments files arguments with
  | .ok division => division.outcome
  | .error complaint => { exitCode := 1, errors := complaint.text }

end FloorDivision.CommandLine
