import FloorDivision.Level
import FloorDivision.Decimal.Layout

/-!
# Objects outside a machine

An `Object` is a value that owns everything it consists of: it can be written, read, compared and
brought into a machine.

* `Object.repr` — the text of an object, in which a legacy `long` has the suffix `L`.
* `Object.isTrue` — its truth value.
* `Object.isEqual` — equality within one kind, numeric for doubles.
-/

namespace FloorDivision

inductive Object where
  | none
  /-- The answer of an operation that declines its operands. -/
  | notImplemented
  | bool (value : Bool)
  | int (value : Int64)
  | long (value : Int)
  | float (value : Double)
  /-- An instance of a user type, of which only the type's name is known. -/
  | instanceOf (typeName : String)
deriving DecidableEq

namespace Object

def repr (level : Level) : Object → String
  | .none => "None"
  | .notImplemented => "NotImplemented"
  | .bool true => "True"
  | .bool false => "False"
  | .int value => toString value.toInt
  | .long value =>
    match level with
    | .legacy => toString value ++ "L"
    | .modern => toString value
  | .float value => Layout.literal.text value
  | .instanceOf typeName => "<" ++ typeName ++ " object>"

def isTrue : Object → Bool
  | .none => false
  | .notImplemented | .instanceOf _ => true
  | .bool value => value
  | .int value => value != 0
  | .long value => value != 0
  | .float value => !value.isZero

/-- Objects of different kinds are never equal, and a NaN differs from itself. -/
def isEqual : Object → Object → Bool
  | .float x, .float y => x.isEqual y
  | x, y => x == y

end Object

/-- The number of bits in the magnitude of an integer. -/
def bitLength (n : Int) : Nat := if n = 0 then 0 else n.natAbs.log2 + 1

/-- The bytes an integer of any size occupies: its whole bytes of magnitude and a header. -/
def longSize (n : Int) : Nat := (bitLength n + 7) / 8 + 32

end FloorDivision
