import FloorDivision.Division.EntryPoint

/-!
# Expression programs

The language in which user types say what their slots do, and in which values are put together.

* `Expr` — evaluates to a new reference.
* `CoerceExpr` — evaluates to a pair of new references, or declines.
* `SlotScripts` — the slots that one user type defines.
-/

namespace FloorDivision

mutual

/-- What evaluates to a new reference or fails. -/
inductive Expr where
  | object (object : Object)
  /-- The first or the second operand of the slot that is being run. -/
  | operand (isSecond : Bool)
  | variable (name : String)
  /-- An instance with the payload that the expression evaluates to. -/
  | new (type : ObjectType) (payload : Expr)
  | divide (entry : EntryPoint) (left right : Expr)
  /-- The truth of a quotient, by way of the failure that the machine keeps. -/
  | divideToTruth (entry : EntryPoint) (left right : Expr)
  | raise (failure : Failure)
  /-- Evaluates the branch for the machine integer that the subject is. -/
  | select (subject : Expr) (branches : Branches)
  /-- Chooses by whether the subject's type is the given one or derives from it. -/
  | ifInstance (subject : Expr) (type : ObjectType) (yes no : Expr)
  /-- Evaluates the handler instead if the body fails in a way that the kind catches. -/
  | attempt (body : Expr) (kind : ExceptionKind) (handler : Expr)

/-- Alternatives for integers, and one for everything else. -/
inductive Branches where
  | otherwise (value : Expr)
  | case (number : Int64) (value : Expr) (rest : Branches)

end

mutual

/-- What evaluates to new references to converted operands, the slot's own one first. -/
inductive CoerceExpr where
  | decline
  | pair (own other : Expr)
  | select (subject : Expr) (branches : CoerceBranches)
  | ifInstance (subject : Expr) (type : ObjectType) (yes no : CoerceExpr)
  /-- Evaluates an expression for its failure; a value is given back and declines. -/
  | fail (failing : Expr)

/-- Alternatives for integers, and one for everything else. -/
inductive CoerceBranches where
  | otherwise (value : CoerceExpr)
  | case (number : Int64) (value : CoerceExpr) (rest : CoerceBranches)

end

/-- What the slots of one user type do, as far as it defines them. -/
structure SlotScripts where
  divide : Option Expr := none
  coerce : Option CoerceExpr := none
  truth : Option Expr := none

end FloorDivision
