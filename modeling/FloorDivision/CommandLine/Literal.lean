import FloorDivision.CommandLine.Options
import FloorDivision.Decimal.Numeral
import FloorDivision.Object

/-!
# Operand literals

A literal is a word for a constant, an integer with or without the mark of a long, or a double.
Only the legacy level has marked integers.
-/

namespace FloorDivision.CommandLine

/-- The text before the mark of a long. -/
def unmarked? (text : List Char) : Option (List Char) :=
  match text.getLast? with
  | some 'L' | some 'l' => some text.dropLast
  | _ => none

/-- An integer that is not marked is a machine integer if it fits one. -/
def integerObject (n : Int) : Object :=
  if (Int64.ofInt n).toInt = n then .int (.ofInt n) else .long n

/-- An operand that is no word for a constant. -/
def readNumber (level : Level) (literal : String) : Except Complaint Object :=
  match unmarked? literal.toList, level with
  | some _, .modern => .error (.longAtModernLevel literal)
  | some digits, .legacy =>
    match Numeral.integer? digits with
    | some n => .ok (.long n)
    | none => .error (.invalidLong literal)
  | none, _ =>
    match Numeral.integer? literal.toList, Numeral.double? literal.toList with
    | some n, _ => .ok (integerObject n)
    | none, some x => .ok (.float x)
    | none, none => .error (.invalidLiteral literal)

def readLiteral (level : Level) : String → Except Complaint Object
  | "None" => .ok .none
  | "True" => .ok (.bool true)
  | "False" => .ok (.bool false)
  | literal => readNumber level literal

end FloorDivision.CommandLine
