/-!
# Language levels

Under the legacy level a machine-size `int` stands beside an unbounded `long`, and numbers may
coerce one another; under the modern level one unbounded `int` serves both and nothing coerces.

* `Level` — the two levels.
* `NumberKind` — the builtin kinds of numbers that have a floor division of their own.
* `Shape` — what is known of an operand before its value is.
-/

namespace FloorDivision

inductive Level where
  | legacy
  | modern
deriving DecidableEq, Repr

namespace Level

def name : Level → String
  | .legacy => "legacy"
  | .modern => "modern"

def all : List Level := [.legacy, .modern]

def ofName? (text : String) : Option Level := all.find? (·.name == text)

/-- Whether a machine-size integer type exists. -/
def hasNativeInt : Level → Bool
  | .legacy => true
  | .modern => false

/-- Whether operands may be coerced to a common type. -/
def hasCoercion : Level → Bool
  | .legacy => true
  | .modern => false

/-- What the type of integers of any size is called. -/
def longTypeName : Level → String
  | .legacy => "long"
  | .modern => "int"

end Level

/-- A builtin kind of number. -/
inductive NumberKind where
  /-- Machine-size integers, a type of their own under the legacy level only. -/
  | int
  /-- Integers of any size. -/
  | long
  | float
deriving DecidableEq, Repr

namespace NumberKind

def name : NumberKind → String
  | .int => "int"
  | .long => "long"
  | .float => "float"

def all : List NumberKind := [.int, .long, .float]

def ofName? (text : String) : Option NumberKind := all.find? (·.name == text)

/-- What messages call the kind. -/
def typeName (level : Level) : NumberKind → String
  | .int => "int"
  | .long => level.longTypeName
  | .float => "float"

/-- The place of a kind in the order int, long, float. -/
def rank : NumberKind → Nat
  | .int => 0
  | .long => 1
  | .float => 2

/-- Whether values of the kind exist as a type of their own. -/
def existsAt (level : Level) : NumberKind → Bool
  | .int => level.hasNativeInt
  | .long | .float => true

end NumberKind

/-- What is known of an operand in advance: its exact builtin type, or nothing. -/
inductive Shape where
  | known (kind : NumberKind)
  | unknown
deriving DecidableEq, Repr

namespace Shape

def name : Shape → String
  | .known kind => kind.name
  | .unknown => "object"

def all : List Shape := NumberKind.all.map .known ++ [.unknown]

def ofName? (text : String) : Option Shape := all.find? (·.name == text)

def kind? : Shape → Option NumberKind
  | .known kind => some kind
  | .unknown => none

/-- Whether an operand can be known to have this shape. -/
def existsAt (level : Level) : Shape → Bool
  | .known kind => kind.existsAt level
  | .unknown => true

end Shape

end FloorDivision
