import FloorDivision.Decimal.Basic

/-!
# The written form of a double

The shortest digits of a double are written positionally while the point falls within or near
them, and with an exponent otherwise.

* `Layout` — what may differ between two written forms: the words for the values without digits
  and the width of an exponent.
* `Layout.text` — the written form of a double.
* `Layout.literal`, `Layout.document` — the forms used for values and inside documents.
* `Double.fixed` — a double with a fixed number of places.
-/

namespace FloorDivision

/-- The choices that a written form of doubles makes. -/
structure Layout where
  nan : String
  infinity : String
  negativeInfinity : String
  /-- An exponent is padded with zeros to this many digits. -/
  exponentDigits : Nat

namespace Layout

/-- An exponent has two digits or more. -/
def literal : Layout := ⟨"nan", "inf", "-inf", 2⟩

/-- A document has no words for values without digits, and an exponent is not padded. -/
def document : Layout := ⟨"null", "null", "null", 1⟩

/-- Zeros in front up to the given width. -/
def zeroPad (width : Nat) (digits : List Char) : List Char :=
  List.replicate (width - digits.length) '0' ++ digits

/-- Digits with the point after the first `point` of them, zeros filling the gap. -/
def positional (digits : List Char) (point : Int) : List Char :=
  if digits.length ≤ point then
    digits ++ List.replicate (point.toNat - digits.length) '0' ++ ['.', '0']
  else if 0 < point then digits.take point.toNat ++ '.' :: digits.drop point.toNat
  else '0' :: '.' :: (List.replicate (-point).toNat '0' ++ digits)

/-- One digit before the point, and an exponent with its sign. -/
def scientific (exponentDigits : Nat) (digits : List Char) (exponent : Int) : List Char :=
  let mantissa := match digits with
    | first :: rest@(_ :: _) => first :: '.' :: rest
    | _ => digits
  let sign := if exponent < 0 then '-' else '+'
  mantissa ++ 'e' :: sign :: zeroPad exponentDigits (Nat.toDigits 10 exponent.natAbs)

/-- A decimal is positional when its value lies in `10 ^ -5 ≤ x < 10 ^ 16` or is zero. -/
def magnitude (layout : Layout) (d : Decimal) : List Char :=
  let digits := Nat.toDigits 10 d.digits
  let point := digits.length + d.exponent
  if -5 < point ∧ point ≤ 16 then positional digits point
  else scientific layout.exponentDigits digits (point - 1)

def text (layout : Layout) : Double → String
  | .nan => layout.nan
  | .infinite negative => if negative then layout.negativeInfinity else layout.infinity
  | .finite negative q _ =>
    let digits := layout.magnitude (Decimal.shortest q)
    .ofList (if negative then '-' :: digits else digits)

end Layout

/-- A double with one digit or more after the point, ties to even. -/
def Double.fixed (places : Nat) : Double → String
  | .nan => "NaN"
  | .infinite negative => if negative then "-inf" else "inf"
  | .finite negative q _ =>
    let scale := Nat.pow 10 places
    let scaled := roundDiv (q * scale) Double.unit
    let fraction := Layout.zeroPad places (Nat.toDigits 10 (scaled % scale))
    (if negative then "-" else "") ++ toString (scaled / scale) ++ "." ++ .ofList fraction

end FloorDivision
