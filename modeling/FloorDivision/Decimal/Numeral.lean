import FloorDivision.Decimal.Basic

/-!
# Numerals

The texts that name numbers, as grammars over character lists.

* `integer?` — an optional sign, a digit, then digits and underscores.
* `double?` — an optional sign, then a decimal with optional point and exponent or one of the
  words for infinity and not-a-number in any case.

Both read the whole text or nothing, and only ASCII digits count as digits.
-/

namespace FloorDivision.Numeral

/-- The value of decimal digits, underscores standing for nothing. -/
def digitsValue (digits : List Char) : Nat :=
  Nat.ofDigitChars 10 (digits.filter (· ≠ '_')) 0

/-- A digit, then digits and underscores. -/
def natural? : List Char → Option Nat
  | [] => none
  | first :: rest =>
    if first.isDigit && rest.all (fun c => c.isDigit || c == '_') then
      some (digitsValue (first :: rest))
    else none

def integer? : List Char → Option Int
  | '-' :: rest => (natural? rest).map fun n => -(n : Int)
  | '+' :: rest => (natural? rest).map Int.ofNat
  | rest => (natural? rest).map Int.ofNat

/-- A sign, if there is one, and what follows it. -/
def sign : List Char → Bool × List Char
  | '-' :: rest => (true, rest)
  | '+' :: rest => (false, rest)
  | rest => (false, rest)

/-- What follows the mark of an exponent: an optional sign and at least one digit. -/
def exponent? (text : List Char) : Option Int :=
  let (negative, digits) := sign text
  if digits.isEmpty || !digits.all Char.isDigit then none
  else
    let n := digitsValue digits
    some (if negative then -n else n)

/-- The exponent after a mantissa, zero when there is none. -/
def exponentPart? : List Char → Option Int
  | [] => some 0
  | 'e' :: rest | 'E' :: rest => exponent? rest
  | _ => none

/-- Digits with an optional point, at least one digit in all, then an optional exponent. -/
def decimal? (text : List Char) : Option Decimal :=
  let (whole, rest) := text.span Char.isDigit
  let (fraction, rest) := match rest with
    | '.' :: rest => rest.span Char.isDigit
    | rest => ([], rest)
  if whole.isEmpty && fraction.isEmpty then none
  else (exponentPart? rest).map fun exponent =>
    ⟨Nat.ofDigitChars 10 (whole ++ fraction) 0, exponent - fraction.length⟩

/-- The doubles that have a name instead of digits. -/
def named? (negative : Bool) (text : List Char) : Option Double :=
  match String.ofList (text.map Char.toLower) with
  | "inf" | "infinity" => some (.infinite negative)
  | "nan" => some .nan
  | _ => none

def double? (text : List Char) : Option Double :=
  let (negative, body) := sign text
  match decimal? body with
  | some d => some (d.toDouble negative)
  | none => named? negative body

end FloorDivision.Numeral
