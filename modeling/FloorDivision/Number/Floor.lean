import FloorDivision.Number.Double

/-!
# Floor division of the three kinds of numbers

The quotient rounded towards negative infinity, for machine integers, for integers of any size
and for doubles.  Each function refuses a zero divisor and decides nothing else: which texts the
refusal gets and what becomes of the quotient is left to the callers.

* `intFloorDivide` — truncating machine division, stepped down when the remainder's sign
  disagrees with the divisor's; `none` for the one quotient outside 64 bits.
* `intFloorDivideWide` — the same quotient as an integer of any size.
* `longFloorDivide` — integers of any size.
* `floatFloorDivide` — doubles, rebuilt from the exact remainder.
-/

namespace FloorDivision

/-- The divisor was zero. -/
inductive DivisionByZero where
  | divisionByZero
deriving DecidableEq, Repr

/-- Floor division of machine integers, `none` when the quotient leaves their range. -/
def intFloorDivide (a b : Int64) : Except DivisionByZero (Option Int64) :=
  if b = 0 then .error .divisionByZero
  else if b = -1 ∧ a = Int64.minValue then .ok none
  else
    let truncated := a / b
    let remainder := a - truncated * b
    if remainder ≠ 0 ∧ decide (remainder < 0) ≠ decide (b < 0) then .ok (some (truncated - 1))
    else .ok (some truncated)

/-- Floor division of machine integers without their bound. -/
def intFloorDivideWide (a b : Int64) : Int := Int.fdiv a.toInt b.toInt

/-- Floor division of integers of any size. -/
def longFloorDivide (a b : Int) : Except DivisionByZero Int :=
  if b = 0 then .error .divisionByZero else .ok (Int.fdiv a b)

/--
Floor division of doubles.  The remainder is exact; subtracting it leaves a near-multiple of the
divisor, whose quotient is then repaired to a whole number.  A zero quotient takes the sign that
`a / b` has.
-/
def floatFloorDivide (a b : Double) : Except DivisionByZero Double :=
  if b.isZero then .error .divisionByZero
  else
    let remainder := a % b
    let multiple := (a - remainder) / b
    let quotient :=
      if !remainder.isZero && b.isBelowZero != remainder.isBelowZero then multiple - 1
      else multiple
    if quotient.isZero then .ok (.zero (a / b).isNegative)
    else
      let whole := quotient.floor
      .ok (if Double.half.isLess (quotient - whole) then whole + 1 else whole)

end FloorDivision
