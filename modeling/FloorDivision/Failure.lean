import FloorDivision.Level

/-!
# Failures of a division

* `ExceptionKind` — the kinds of exceptions and which of them a handler for another kind catches.
* `Raised` — an exception with its message.
* `Failure` — how a computation ends without a value: an exception that handlers may catch, one
  that none may, or a broken promise inside the library.

The exceptions that division raises on its own are built by the functions of `Raised`; each text
is written there and nowhere else.
-/

namespace FloorDivision

inductive ExceptionKind where
  | baseException
  | exception
  | arithmeticError
  | zeroDivisionError
  | overflowError
  | typeError
  | valueError
  | memoryError
  | runtimeError
  | recursionError
deriving DecidableEq, Repr

namespace ExceptionKind

def name : ExceptionKind → String
  | .baseException => "BaseException"
  | .exception => "Exception"
  | .arithmeticError => "ArithmeticError"
  | .zeroDivisionError => "ZeroDivisionError"
  | .overflowError => "OverflowError"
  | .typeError => "TypeError"
  | .valueError => "ValueError"
  | .memoryError => "MemoryError"
  | .runtimeError => "RuntimeError"
  | .recursionError => "RecursionError"

def all : List ExceptionKind :=
  [.baseException, .exception, .arithmeticError, .zeroDivisionError, .overflowError, .typeError,
    .valueError, .memoryError, .runtimeError, .recursionError]

def ofName? (text : String) : Option ExceptionKind := all.find? (·.name == text)

/-- The kind that a kind is a special case of. -/
def parent? : ExceptionKind → Option ExceptionKind
  | .baseException => none
  | .exception => some .baseException
  | .arithmeticError => some .exception
  | .zeroDivisionError | .overflowError => some .arithmeticError
  | .typeError | .valueError | .memoryError | .runtimeError => some .exception
  | .recursionError => some .runtimeError

/-- The kind itself and its parents, four generations being the most there are. -/
def lineage (kind : ExceptionKind) : List ExceptionKind :=
  let parents := kind.parent?.toList
  let grandparents := parents.filterMap parent?
  kind :: parents ++ grandparents ++ grandparents.filterMap parent?

/-- Whether a handler for the kind `handler` catches this kind. -/
def isCaughtBy (kind handler : ExceptionKind) : Bool := kind.lineage.contains handler

end ExceptionKind

/-- An exception: its kind and the message it was raised with, if any. -/
structure Raised where
  kind : ExceptionKind
  message : Option String
deriving DecidableEq, Repr

namespace Raised

def text (raised : Raised) : String :=
  match raised.message with
  | some message => raised.kind.name ++ ": " ++ message
  | none => raised.kind.name

/-- A zero divisor met by a native computation, which calls doubles integers too. -/
def integerDivisionByZero : Raised :=
  ⟨.zeroDivisionError, some "integer division or modulo by zero"⟩

/-- A zero divisor met by the division of integers of any size. -/
def longDivisionByZero : Level → Raised
  | .legacy => ⟨.zeroDivisionError, some "long division or modulo by zero"⟩
  | .modern => integerDivisionByZero

/-- A zero divisor met by the slot of doubles. -/
def floatDivisionByZero : Level → Raised
  | .legacy => ⟨.zeroDivisionError, some "float divmod()"⟩
  | .modern => ⟨.zeroDivisionError, some "float floor division by zero"⟩

/-- An integer beyond the range of doubles. -/
def integerTooLargeForFloat : Level → Raised
  | .legacy => ⟨.overflowError, some "long int too large to convert to float"⟩
  | .modern => ⟨.overflowError, some "int too large to convert to float"⟩

/-- Operands of types between which the operator is not defined. -/
def unsupportedOperands (operator left right : String) : Raised :=
  ⟨.typeError,
    some s!"unsupported operand type(s) for {operator}: '{left}' and '{right}'"⟩

/-- An object outside the machine that names a type cannot be brought in. -/
def notConstructible (typeName : String) : Raised :=
  ⟨.typeError, some s!"cannot create '{typeName}' instances from an Object"⟩

end Raised

/-- How a computation ends without a value. -/
inductive Failure where
  /-- A promise that the library makes to itself was broken. -/
  | internal (message : String)
  | raised (exception : Raised)
  /-- An exception that passes every handler. -/
  | uncatchable (exception : Raised)
deriving DecidableEq, Repr

namespace Failure

def exception? : Failure → Option Raised
  | .internal _ => none
  | .raised exception | .uncatchable exception => some exception

/-- An internal failure counts as a runtime error. -/
def kind (failure : Failure) : ExceptionKind :=
  match failure.exception? with
  | some exception => exception.kind
  | none => .runtimeError

def message? : Failure → Option String
  | .internal message => some message
  | .raised exception | .uncatchable exception => exception.message

/-- Whether a handler for `handler` catches the failure. -/
def isCaughtBy (failure : Failure) (handler : ExceptionKind) : Bool :=
  match failure with
  | .raised exception => exception.kind.isCaughtBy handler
  | .internal _ | .uncatchable _ => false

def text : Failure → String
  | .internal message => "RuntimeError: internal error: " ++ message
  | .raised exception | .uncatchable exception => exception.text

end Failure

end FloorDivision
