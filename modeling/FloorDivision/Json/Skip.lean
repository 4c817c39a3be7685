import FloorDivision.Json.Reader

/-!
# Passing over values of no interest

`Reader.skipValue` takes one well-formed value of any kind off the text without building it.  The
brackets that are open are kept in a list, so that nesting is not bounded; numbers are checked for
their form only, and escapes only for their digits.
-/

namespace FloorDivision.Json

/-- An open bracket. -/
inductive Bracket where
  | list
  | object
deriving DecidableEq

def Bracket.isClosedBy : Bracket → Char → Bool
  | .list, c => c == ']'
  | .object, c => c == '}'

def Bracket.endError : Bracket → ReadError
  | .list => .endInList
  | .object => .endInObject

def Bracket.separatorError : Bracket → ReadError
  | .list => .expectedCommaOrBracket
  | .object => .expectedCommaOrBrace

namespace Reader

/-- One escape after its backslash. -/
def skipEscape : Reader Unit := fun remaining =>
  match remaining with
  | [] => .error .endInText
  | 'u' :: remaining => (hexQuad remaining).map fun (_, remaining) => ((), remaining)
  | c :: remaining =>
    if (simpleEscape? c).isSome then .ok ((), remaining) else .error .invalidEscape

/-- A text after its opening quotation mark, at most `fuel` characters and escapes long. -/
def skipTextLoop : Nat → Reader Unit
  | 0 => fail .endInText
  | fuel + 1 => fun remaining =>
    match remaining with
    | [] => .error .endInText
    | '"' :: remaining => .ok ((), remaining)
    | '\\' :: remaining =>
      match skipEscape remaining with
      | .ok (_, remaining) => skipTextLoop fuel remaining
      | .error error => .error error
    | c :: remaining => if c < ' ' then .error .controlCharacter else skipTextLoop fuel remaining

def skipText : Reader Unit := fun remaining => skipTextLoop (remaining.length + 1) remaining

/-- At least one digit. -/
def skipDigits : Reader Unit := fun remaining =>
  match remaining with
  | c :: rest => if c.isDigit then .ok ((), rest.dropWhile Char.isDigit) else .error .invalidNumber
  | [] => .error .invalidNumber

/-- An exponent, if there is one. -/
def skipExponent : Reader Unit := fun remaining =>
  match remaining with
  | 'e' :: rest | 'E' :: rest =>
    match rest with
    | '+' :: rest | '-' :: rest => skipDigits rest
    | rest => skipDigits rest
  | rest => .ok ((), rest)

/-- A number after its sign. -/
def skipNumber : Reader Unit := do
  match ← get with
  | '0' :: rest =>
    if (rest.head?.map Char.isDigit).getD false then fail .invalidNumber else set rest
  | _ => skipDigits
  match ← get with
  | '.' :: rest =>
    set rest
    skipDigits
    skipExponent
  | _ => skipExponent

/-- A value that has no parts, or the bracket that opens one that has. -/
def skipScalar : Reader (Option Bracket) := do
  match ← next? with
  | none => fail .endInValue
  | some c =>
    match c with
    | 'n' => advance; word ['u', 'l', 'l']; return none
    | 't' => advance; word ['r', 'u', 'e']; return none
    | 'f' => advance; word ['a', 'l', 's', 'e']; return none
    | '"' => advance; skipText; return none
    | '-' => advance; skipNumber; return none
    | '[' => advance; return some .list
    | '{' => advance; return some .object
    | c => if c.isDigit then skipNumber; return none else fail .expectedValue

/-- The key of a field and the colon after it. -/
def skipKey : Reader Unit := do
  match ← next? with
  | some '"' => advance
  | some _ => fail .keyNotText
  | none => fail .endInObject
  skipText
  match ← next? with
  | some ':' => advance
  | some _ => fail .expectedColon
  | none => fail .endInObject

/-- What has to be read before the next value inside a bracket. -/
def skipItemStart : Bracket → Reader Unit
  | .list => pure ()
  | .object => skipKey

mutual

/-- One value inside the open brackets, and all that closes them. -/
def skipItem : Nat → List Bracket → Reader Unit
  | 0, _ => fail .endInValue
  | fuel + 1, opened => do
    match ← skipScalar with
    | none => skipRest fuel opened
    | some bracket =>
      match ← next? with
      | none => fail bracket.endError
      | some c =>
        if bracket.isClosedBy c then
          advance
          skipRest fuel opened
        else
          skipItemStart bracket
          skipItem fuel (bracket :: opened)

/-- What follows a value inside the open brackets. -/
def skipRest : Nat → List Bracket → Reader Unit
  | _, [] => pure ()
  | 0, bracket :: _ => fail bracket.endError
  | fuel + 1, bracket :: outer => do
    match ← next? with
    | none => fail bracket.endError
    | some c =>
      if c = ',' then
        advance
        skipItemStart bracket
        skipItem fuel (bracket :: outer)
      else if bracket.isClosedBy c then
        advance
        skipRest fuel outer
      else fail bracket.separatorError

end

/-- One value of any kind; each step reads a character or follows one that did. -/
def skipValue : Reader Unit := do
  skipItem (2 * (← get).length + 2) []

end Reader

end FloorDivision.Json
