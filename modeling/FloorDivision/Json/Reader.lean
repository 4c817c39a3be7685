import FloorDivision.Json.Error

/-!
# Reading the parts of a JSON text

A `Reader` takes what it reads off the front of the remaining characters.  Texts and numbers are
read here; values of a known type are put together in `FloorDivision.Json.Decoder`.

* `next?` — the next character that is not blank, left where it is.
* `textBody` — a text after its opening quotation mark.
* `number` — a number after its sign: an integer if it fits a machine word, else a double.
-/

namespace FloorDivision.Json

/-- Reads off the front of the remaining characters. -/
abbrev Reader := StateT (List Char) (Except ReadError)

def isBlank (c : Char) : Bool := c == ' ' || c == '\n' || c == '\t' || c == '\r'

namespace Reader

def fail (error : ReadError) : Reader α := fun _ => .error error

def skipBlanks : Reader Unit := modify (·.dropWhile isBlank)

/-- Leaves out the next character. -/
def advance : Reader Unit := modify List.tail

/-- The next character after blanks, if there is one. -/
def next? : Reader (Option Char) := do
  skipBlanks
  return (← get).head?

/-- The characters that complete a word whose first one has been read. -/
def word : List Char → Reader Unit
  | [] => pure ()
  | c :: rest => fun remaining =>
    match remaining with
    | [] => .error .endInValue
    | d :: remaining => if d = c then word rest remaining else .error .expectedLiteral

/-! ## Texts -/

def hexValue? (c : Char) : Option Nat :=
  if c.isDigit then some (c.toNat - '0'.toNat)
  else if 'a' ≤ c ∧ c ≤ 'f' then some (c.toNat - 'a'.toNat + 10)
  else if 'A' ≤ c ∧ c ≤ 'F' then some (c.toNat - 'A'.toNat + 10)
  else none

/-- Whether fewer than four bytes remain. -/
def isShortOfFour (remaining : List Char) : Bool :=
  (String.ofList (remaining.take 4)).utf8ByteSize < 4

/-- Four hexadecimal digits; fewer than four bytes end the text. -/
def hexQuad : Reader Nat := fun remaining =>
  match (remaining.take 4).mapM hexValue? with
  | some [a, b, c, d] => .ok (((a * 16 + b) * 16 + c) * 16 + d, remaining.drop 4)
  | _ => .error (if isShortOfFour remaining then .endInText else .invalidEscape)

/-- The given character inside a text. -/
def expectInEscape (c : Char) : Reader Unit := fun remaining =>
  match remaining with
  | [] => .error .endInText
  | d :: remaining => if d = c then .ok ((), remaining) else .error .endOfHexEscape

/-- The character of a `\u` escape, which takes a second escape beyond the basic plane. -/
def unicodeEscape : Reader Char := do
  let high ← hexQuad
  if 0xDC00 ≤ high ∧ high ≤ 0xDFFF then fail .loneSurrogate
  else if high < 0xD800 ∨ 0xDBFF < high then return .ofNat high
  else
    expectInEscape '\\'
    expectInEscape 'u'
    let low ← hexQuad
    if low < 0xDC00 ∨ 0xDFFF < low then fail .loneSurrogate
    else return .ofNat ((high - 0xD800) * 0x400 + (low - 0xDC00) + 0x10000)

/-- The character that a letter after a backslash stands for. -/
def simpleEscape? : Char → Option Char
  | '"' => some '"'
  | '\\' => some '\\'
  | '/' => some '/'
  | 'b' => some '\x08'
  | 'f' => some '\x0c'
  | 'n' => some '\n'
  | 'r' => some '\r'
  | 't' => some '\t'
  | _ => none

/-- What follows a backslash. -/
def escape : Reader Char := fun remaining =>
  match remaining with
  | [] => .error .endInText
  | 'u' :: remaining => unicodeEscape remaining
  | c :: remaining =>
    match simpleEscape? c with
    | some d => .ok (d, remaining)
    | none => .error .invalidEscape

/-- The characters up to the closing quotation mark, at most `fuel` of them. -/
def textLoop : Nat → List Char → Reader (List Char)
  | 0, _ => fail .endInText
  | fuel + 1, read => fun remaining =>
    match remaining with
    | [] => .error .endInText
    | '"' :: remaining => .ok (read.reverse, remaining)
    | '\\' :: remaining =>
      match escape remaining with
      | .ok (c, remaining) => textLoop fuel (c :: read) remaining
      | .error error => .error error
    | c :: remaining =>
      if c < ' ' then .error .controlCharacter else textLoop fuel (c :: read) remaining

/-- A text after its opening quotation mark. -/
def textBody : Reader String := fun remaining =>
  match textLoop (remaining.length + 1) [] remaining with
  | .ok (read, remaining) => .ok (.ofList read, remaining)
  | .error error => .error error

/-! ## Numbers -/

/-- A number as it stands: a word-size integer or a double. -/
inductive Number where
  | integer (value : Int)
  | float (value : Double)

/-- Extends a significand by the digits that keep it within 64 bits. -/
def significand : Nat → List Char → Nat × List Char
  | n, [] => (n, [])
  | n, c :: rest =>
    if c.isDigit && n * 10 + (c.toNat - '0'.toNat) < UInt64.size then
      significand (n * 10 + (c.toNat - '0'.toNat)) rest
    else (n, c :: rest)

/-- The double nearest to a power of ten. -/
def powerOfTen (k : Nat) : Double := .ofInt (Nat.pow 10 k)

/--
A significand scaled by a power of ten, the scaling rounding once more after the significand has
been rounded.  Powers below `10 ^ -308` take two steps, and after two full ones nothing is left.
-/
def scaled (n : Nat) (exponent : Int) : Except ReadError Double :=
  let x := Double.ofInt n
  if exponent < 0 then
    let k := exponent.natAbs
    if k ≤ 308 then .ok (x / powerOfTen k)
    else if k ≤ 616 then .ok (x / powerOfTen 308 / powerOfTen (k - 308))
    else .ok (.zero false)
  else if n = 0 then .ok x
  else if exponent ≤ 308 then
    let y := x * powerOfTen exponent.toNat
    if y.isFinite then .ok y else .error .numberOutOfRange
  else .error .numberOutOfRange

def signed (negative : Bool) (x : Double) : Double := if negative then -x else x

/-- A double from its significand and the power of ten it is scaled by. -/
def finish (negative : Bool) (n : Nat) (exponent : Int) : Reader Number := fun remaining =>
  match scaled n exponent with
  | .ok x => .ok (.float (signed negative x), remaining)
  | .error error => .error error

/-- The sign and digits of an exponent. -/
def exponentBody (negative : Bool) (n : Nat) (exponent : Int) : Reader Number := fun remaining =>
  let (below, digits) := match remaining with
    | '+' :: rest => (false, rest)
    | '-' :: rest => (true, rest)
    | rest => (false, rest)
  match digits with
  | [] => .error .endInValue
  | c :: _ =>
    if c.isDigit then
      let (digits, rest) := digits.span Char.isDigit
      let shift : Int := Nat.ofDigitChars 10 digits 0
      finish negative n (if below then exponent - shift else exponent + shift) rest
    else .error .invalidNumber

/-- An exponent, if there is one. -/
def exponentPart (negative : Bool) (n : Nat) (exponent : Int) : Reader Number := fun remaining =>
  match remaining with
  | 'e' :: rest | 'E' :: rest => exponentBody negative n exponent rest
  | rest => finish negative n exponent rest

/-- The digits after a point, at least one; those that do not fit the significand are dropped. -/
def fraction (negative : Bool) (n : Nat) (exponent : Int) : Reader Number := fun remaining =>
  match remaining with
  | [] => .error .endInValue
  | c :: _ =>
    if c.isDigit then
      let (n, rest) := significand n remaining
      exponentPart negative n (exponent - (remaining.length - rest.length))
        (rest.dropWhile Char.isDigit)
    else .error .invalidNumber

/-- A number without point or exponent: an integer unless it is a negative zero or too low. -/
def whole (negative : Bool) (n : Nat) : Number :=
  if negative then
    if n = 0 ∨ Int64.minValue.toInt.natAbs < n then .float (-Double.ofInt n) else .integer (-n)
  else .integer n

/-- What follows the digits before a point. -/
def numberTail (negative : Bool) (n : Nat) : Reader Number := fun remaining =>
  match remaining with
  | '.' :: rest => fraction negative n 0 rest
  | 'e' :: rest | 'E' :: rest => exponentBody negative n 0 rest
  | rest => .ok (whole negative n, rest)

/-- What follows the digits that fit when more digits precede the point. -/
def longNumberTail (negative : Bool) (n : Nat) : Reader Number := fun remaining =>
  let (digits, rest) := remaining.span Char.isDigit
  match rest with
  | '.' :: rest => fraction negative n digits.length rest
  | rest => exponentPart negative n digits.length rest

/-- A number after its sign. -/
def number (negative : Bool) : Reader Number := fun remaining =>
  match remaining with
  | [] => .error .endInValue
  | '0' :: rest =>
    if (rest.head?.map Char.isDigit).getD false then .error .invalidNumber
    else numberTail negative 0 rest
  | c :: _ =>
    if c.isDigit then
      let (n, rest) := significand 0 remaining
      if (rest.head?.map Char.isDigit).getD false then longNumberTail negative n rest
      else numberTail negative n rest
    else .error .invalidNumber

end Reader

end FloorDivision.Json
