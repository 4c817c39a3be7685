import FloorDivision.Number.Double

/-!
# Decimal numbers

A `Decimal` is a natural number of digits scaled by a power of ten.

* `Decimal.toDouble` — the nearest double, ties to even.
* `Decimal.shortest` — the fewest digits that read back as a given magnitude, of these the
  nearest to it, of two equally near ones the even one.
-/

namespace FloorDivision

/-- The number `digits * 10 ^ exponent`. -/
structure Decimal where
  digits : Nat
  exponent : Int
deriving DecidableEq, Repr

namespace Decimal

/--
The double nearest to the signed decimal.  Exponents that leave the range whatever the digits are
answered first, so that no power of ten larger than the digits call for is computed.
-/
def toDouble (negative : Bool) (d : Decimal) : Double :=
  match d.exponent with
  | .ofNat k =>
    if d.digits = 0 then .zero negative
    else if 400 < k then .infinite negative
    else .round negative (d.digits * Nat.pow 10 k * Double.unit) 1
  | .negSucc k =>
    if d.digits.log2 + 1080 < 3 * (k + 1) then .zero negative
    else .round negative (d.digits * Double.unit) (Nat.pow 10 (k + 1))

/-- A quantum is this many times `10 ^ -1074`, so every magnitude is a whole number of those. -/
def quantumScale : Nat := Nat.pow 5 1074

/-- The decimal that equals `q` quanta. -/
def exact (q : Nat) : Decimal := ⟨q * quantumScale, -1074⟩

/-- How many decimal digits a natural number has. -/
def digitCount (n : Nat) : Nat := n.repr.length

/-- Whether `d * step`, counted in `10 ^ -1074`, rounds to `q` quanta. -/
def readsBack (q step d : Nat) : Bool := roundQuanta (d * step) quantumScale == q

/--
The digits that `q` quanta have on the grid of multiples of `step`: the nearer neighbour, or the
other one if only that reads back.
-/
def gridDigits? (q step : Nat) : Option Nat :=
  let magnitude := q * quantumScale
  let nearest := roundDiv magnitude step
  let other := if nearest * step ≤ magnitude then nearest + 1 else nearest - 1
  if readsBack q step nearest then some nearest
  else if readsBack q step other then some other
  else none

/-- A decimal without trailing zeros among at most `fuel` digits. -/
def trimZeros : Nat → Decimal → Decimal
  | 0, d => d
  | fuel + 1, d =>
    if d.digits ≠ 0 ∧ d.digits % 10 = 0 then trimZeros fuel ⟨d.digits / 10, d.exponent + 1⟩ else d

/-- The digits of `q` quanta on the grid of multiples of `10 ^ (places - 1074)`, without trailing
zeros. -/
def onGrid? (q places : Nat) : Option Decimal :=
  (gridDigits? q (Nat.pow 10 places)).map fun digits => trimZeros 17 ⟨digits, places - 1074⟩

/--
The shortest decimal that reads back as `q` quanta: each grid keeps one significant digit more than
the one before, and with seventeen of them every magnitude is read back.
-/
def shortest (q : Nat) : Decimal :=
  if q = 0 then ⟨0, 0⟩
  else
    let size := digitCount (q * quantumScale)
    ((List.range 17).findSome? fun i => onGrid? q (size - (i + 1))).getD (exact q)

end Decimal

end FloorDivision
