import FloorDivision.Number.Rounding

/-!
# Double-precision numbers as exact values

A `Double` is a NaN, an infinity, or a signed magnitude counted in quanta of `2 ^ -1074`; the two
zeros differ in their sign only.  Nothing here calls machine arithmetic: an operation computes
its exact result as a fraction of quanta and rounds once.

* `Double.round` — a signed fraction of quanta, rounded to nearest even, infinite past the range.
* `Double.ofBits`, `Double.toBits` — the interchange format, all NaNs being one value.
* `Sub`, `Add`, `Mul`, `Div`, `Mod` — correctly rounded operations; `Mod` is exact and keeps the
  dividend's sign.
* `Double.ofInt` — the nearest double to an integer of any size.
-/

namespace FloorDivision

/-- A binary floating-point number of double precision. -/
inductive Double where
  | nan
  | infinite (negative : Bool)
  /-- A signed whole number of quanta. -/
  | finite (negative : Bool) (quanta : Nat) (fits : Representable quanta)
deriving DecidableEq

namespace Double

/-- The number of quanta in one. -/
def unit : Nat := 1 <<< 1074

/-- The double nearest to `n / d` quanta with the given sign. -/
def round (negative : Bool) (n d : Nat) : Double :=
  if h : roundQuanta n d < overflowQuanta then
    .finite negative (roundQuanta n d) (representable_roundQuanta n d h)
  else .infinite negative

theorem representable_zero : Representable 0 := ⟨0, 0, by decide, by decide, rfl⟩

/-- Zero with the given sign. -/
def zero (negative : Bool) : Double := .finite negative 0 representable_zero

instance : Inhabited Double := ⟨zero false⟩

/-! ## Interchange format -/

theorem representable_subnormal {fraction : Nat} (h : fraction < 1 <<< 52) :
    Representable fraction :=
  ⟨fraction, 0, by omega, by omega, rfl⟩

theorem representable_normal {fraction exponent : Nat} (h : fraction < 1 <<< 52)
    (he : exponent < 2047) : Representable ((1 <<< 52 + fraction) <<< (exponent - 1)) :=
  ⟨1 <<< 52 + fraction, exponent - 1, by omega, by omega, rfl⟩

/-- Reads sign, eleven exponent bits and fifty-two fraction bits. -/
def ofBits (bits : UInt64) : Double :=
  let negative := bits.toNat >>> 63 == 1
  let exponent := (bits.toNat >>> 52) % 2048
  let fraction := bits.toNat % (1 <<< 52)
  have hf : fraction < 1 <<< 52 := Nat.mod_lt _ (by decide)
  if exponent = 0 then .finite negative fraction (representable_subnormal hf)
  else if he : exponent < 2047 then
    .finite negative ((1 <<< 52 + fraction) <<< (exponent - 1)) (representable_normal hf he)
  else if fraction = 0 then .infinite negative
  else .nan

/-- The bits of a sign. -/
def signBits (negative : Bool) : Nat := negative.toNat <<< 63

/-- The magnitude bits of `q` quanta: consecutive magnitudes have consecutive bits. -/
def magnitudeBits (q : Nat) : Nat := spacing q <<< 52 + q >>> spacing q

/-- Writes the interchange format; a NaN is the quiet one without payload. -/
def toBits : Double → UInt64
  | .nan => 0x7ff8000000000000
  | .infinite negative => .ofNat (signBits negative + 2047 <<< 52)
  | .finite negative q _ => .ofNat (signBits negative + magnitudeBits q)

/-! ## Signs and order -/

/-- The sign bit; a NaN counts as positive. -/
def isNegative : Double → Bool
  | .nan => false
  | .infinite negative => negative
  | .finite negative _ _ => negative

def isZero : Double → Bool
  | .finite _ q _ => q == 0
  | _ => false

def isFinite : Double → Bool
  | .finite .. => true
  | _ => false

/-- The signed number of quanta, infinities lying beyond every finite double; none for a NaN. -/
def order? : Double → Option Int
  | .nan => none
  | .infinite negative => some (if negative then -overflowQuanta else overflowQuanta)
  | .finite negative q _ => some (if negative then -q else q)

/-- Numeric comparison: false as soon as one side is a NaN. -/
def isLess (x y : Double) : Bool :=
  match x.order?, y.order? with
  | some a, some b => a < b
  | _, _ => false

/-- Numeric equality: the zeros are equal and a NaN differs from itself. -/
def isEqual (x y : Double) : Bool :=
  match x.order?, y.order? with
  | some a, some b => a == b
  | _, _ => false

/-- Below zero as a number, which the negative zero is not. -/
def isBelowZero (x : Double) : Bool := x.isLess (zero false)

/-! ## Arithmetic -/

def neg : Double → Double
  | .nan => .nan
  | .infinite negative => .infinite !negative
  | .finite negative q h => .finite (!negative) q h

instance : Neg Double := ⟨neg⟩

/-- The signed number of quanta of a finite double. -/
def signedQuanta (negative : Bool) (q : Nat) : Int := if negative then -q else q

/-- An exact zero difference is negative only for a negative zero less a positive one. -/
def sub : Double → Double → Double
  | .nan, _ | _, .nan => .nan
  | .infinite a, .infinite b => if a == b then .nan else .infinite a
  | .infinite a, .finite .. => .infinite a
  | .finite .., .infinite b => .infinite !b
  | .finite a p _, .finite b q _ =>
    let difference := signedQuanta a p - signedQuanta b q
    if difference = 0 then zero (a && !b)
    else round (difference < 0) difference.natAbs 1

instance : Sub Double := ⟨sub⟩

instance : Add Double := ⟨fun x y => x - -y⟩

def mul : Double → Double → Double
  | .nan, _ | _, .nan => .nan
  | .infinite a, .infinite b => .infinite (a != b)
  | .infinite a, .finite b q _ | .finite a q _, .infinite b =>
    if q = 0 then .nan else .infinite (a != b)
  | .finite a p _, .finite b q _ => round (a != b) (p * q) unit

instance : Mul Double := ⟨mul⟩

def div : Double → Double → Double
  | .nan, _ | _, .nan => .nan
  | .infinite _, .infinite _ => .nan
  | .infinite a, .finite b _ _ => .infinite (a != b)
  | .finite a _ _, .infinite b => zero (a != b)
  | .finite a p _, .finite b q _ =>
    if q = 0 then if p = 0 then .nan else .infinite (a != b)
    else round (a != b) (p * unit) q

instance : Div Double := ⟨div⟩

/-- The remainder of truncating division, with the dividend's sign. -/
def rem : Double → Double → Double
  | .nan, _ | _, .nan => .nan
  | .infinite _, _ => .nan
  | x@(.finite ..), .infinite _ => x
  | .finite a p _, .finite _ q _ => if q = 0 then .nan else round a (p % q) 1

instance : Mod Double := ⟨rem⟩

/-- The greatest whole number not above a finite double, the zeros being their own floor. -/
def floor : Double → Double
  | .nan => .nan
  | .infinite negative => .infinite negative
  | x@(.finite negative q _) =>
    if q % unit = 0 then x
    else if negative then round true ((q / unit + 1) * unit) 1
    else round false (q / unit * unit) 1

/-! ## Conversion from integers -/

/-- The nearest double to an integer, infinite past the range. -/
def ofInt (n : Int) : Double := round (n < 0) (n.natAbs * unit) 1

instance (n : Nat) : OfNat Double n := ⟨ofInt n⟩

/-- One half. -/
def half : Double := round false unit 2

end Double

end FloorDivision
