import FloorDivision.Json.Skip

/-!
# Reading values of a known type

What is read is decided by the type that is asked for, part by part: the first part that does not
fit ends the reading, whatever follows it.

* `Reader.record` — a record, written as an object or as a list of its fields in order.
* `Reader.choice` — one of several named alternatives, written as a name or as an object with that
  one field.
* `Reader.integer`, `Reader.double`, `Reader.bool`, `Reader.text`, `Reader.optional`,
  `Reader.pair`, `Reader.items` — the other parts.
* `decode` — a whole text.
-/

namespace FloorDivision.Json

/-- A field of a record that is being put together in a `σ`. -/
structure Field (σ : Type) where
  name : String
  /-- Reads the field's value into the record. -/
  read : σ → Reader σ
  /-- Whether an object without the field is refused. -/
  required : Bool

/-- How a record is written. -/
structure RecordForm (σ : Type) where
  /-- What messages call it. -/
  title : String
  fields : List (Field σ)
  /-- Whether a list may end before the last field. -/
  mayEndEarly : Bool

/-- How the content of a named alternative is written. -/
inductive Content (α : Type) where
  /-- There is none. -/
  | bare (value : α)
  | value (read : Reader α)
  /-- A record of its own. -/
  | record (read : Reader α)

namespace Reader

/-- Whatever comes next is not what was expected. -/
def mismatch (expected : String) : Reader α := do
  let found ← match ← next? with
    | none => fail .endInValue
    | some c =>
      match c with
      | 'n' => advance; word ['u', 'l', 'l']; pure Found.null
      | 't' => advance; word ['r', 'u', 'e']; pure (.bool true)
      | 'f' => advance; word ['a', 'l', 's', 'e']; pure (.bool false)
      | '"' => advance; pure (.text (← textBody))
      | '[' => pure .list
      | '{' => pure .object
      | c =>
        let negative := c == '-'
        if negative then advance
        if negative || c.isDigit then
          match ← number negative with
          | .integer n => pure (.integer n)
          | .float x => pure (.float x)
        else fail .expectedValue
  fail (.invalidType found expected)

/-! ## Values without parts -/

/-- A number, or what else there is in its place. -/
def numberOr (expected : String) : Reader Number := do
  match ← next? with
  | none => fail .endInValue
  | some c =>
    if c = '-' then advance; number true
    else if c.isDigit then number false
    else mismatch expected

/-- An integer between two bounds. -/
def integer (least greatest : Int) (expected : String) : Reader Int := do
  match ← numberOr expected with
  | .integer n =>
    if least ≤ n ∧ n ≤ greatest then return n else fail (.invalidValue (.integer n) expected)
  | .float x => fail (.invalidType (.float x) expected)

/-- A signed machine integer. -/
def int64 : Reader Int64 :=
  .ofInt <$> integer Int64.minValue.toInt Int64.maxValue.toInt "i64"

/-- An unsigned machine word. -/
def uint64 : Reader UInt64 :=
  (fun n => .ofNat n.toNat) <$> integer 0 (UInt64.size - 1) "usize"

/-- A double, an integer being the nearest one. -/
def double : Reader Double := do
  match ← numberOr "f64" with
  | .integer n => return .ofInt n
  | .float x => return x

def bool : Reader Bool := do
  match ← next? with
  | none => fail .endInValue
  | some 't' => advance; word ['r', 'u', 'e']; return true
  | some 'f' => advance; word ['a', 'l', 's', 'e']; return false
  | some _ => mismatch "a boolean"

def text : Reader String := do
  match ← next? with
  | none => fail .endInValue
  | some '"' => advance; textBody
  | some _ => mismatch "a string"

def null : Reader Unit := do
  match ← next? with
  | none => fail .endInValue
  | some 'n' => advance; word ['u', 'l', 'l']
  | some _ => mismatch "unit"

/-- A value or null. -/
def optional (read : Reader α) : Reader (Option α) := do
  match ← next? with
  | some 'n' => advance; word ['u', 'l', 'l']; return none
  | _ => some <$> read

/-! ## Lists -/

/-- Whether another item follows in an open list, the comma before it being read. -/
def hasItem (isFirst : Bool) : Reader Bool := do
  match ← next? with
  | none => fail .endInList
  | some ']' => return false
  | some c =>
    if isFirst then return true
    else if c = ',' then
      advance
      match ← next? with
      | none => fail .endInValue
      | some ']' => fail .trailingComma
      | some _ => return true
    else fail .expectedCommaOrBracket

/-- The end of a list of which nothing more is wanted. -/
def closeList : Reader Unit := do
  match ← next? with
  | none => fail .endInList
  | some ']' => advance
  | some ',' =>
    advance
    match ← next? with
    | some ']' => fail .trailingComma
    | _ => fail .trailingCharacters
  | some _ => fail .trailingCharacters

/-- The opening bracket of a list. -/
def openList (expected : String) : Reader Unit := do
  match ← next? with
  | none => fail .endInValue
  | some '[' => advance
  | some _ => mismatch expected

def itemsLoop (read : Reader α) : Nat → List α → Reader (List α)
  | 0, done => return done.reverse
  | fuel + 1, done => do
    if ← hasItem done.isEmpty then itemsLoop read fuel ((← read) :: done)
    else return done.reverse

/-- A list of values of one type. -/
def items (expected : String) (read : Reader α) : Reader (List α) := do
  openList expected
  let all ← itemsLoop read ((← get).length + 1) []
  closeList
  return all

/-- Two values in a list. -/
def pair (first : Reader α) (second : Reader β) : Reader (α × β) := do
  let expected := "a tuple of size 2"
  openList expected
  unless ← hasItem true do fail (.invalidLength 0 expected)
  let a ← first
  unless ← hasItem false do fail (.invalidLength 1 expected)
  let b ← second
  closeList
  return (a, b)

/-! ## Records -/

/-- Whether another field follows in an open object, the comma before it being read. -/
def hasField (isFirst : Bool) : Reader Bool := do
  match ← next? with
  | none => fail .endInObject
  | some '}' => return false
  | some c =>
    if isFirst then
      if c = '"' then return true else fail .keyNotText
    else if c = ',' then
      advance
      match ← next? with
      | none => fail .endInValue
      | some '"' => return true
      | some '}' => fail .trailingComma
      | some _ => fail .keyNotText
    else fail .expectedCommaOrBrace

/-- The colon after a key. -/
def colon : Reader Unit := do
  match ← next? with
  | none => fail .endInObject
  | some ':' => advance
  | some _ => fail .expectedColon

/-- The fields of an open object, in any order, unknown ones left out. -/
def fieldsLoop (fields : List (Field σ)) : Nat → Bool → List String → σ → Reader (List String × σ)
  | 0, _, seen, state => return (seen, state)
  | fuel + 1, isFirst, seen, state => do
    if ← hasField isFirst then
      let key ← text
      match fields.find? (·.name == key) with
      | some field =>
        if seen.contains key then fail (.duplicateField key)
        colon
        fieldsLoop fields fuel false (key :: seen) (← field.read state)
      | none =>
        colon
        skipValue
        fieldsLoop fields fuel false seen state
    else return (seen, state)

/-- A record written as an object, after its opening brace. -/
def recordFromObject (form : RecordForm σ) (start : σ) : Reader σ := do
  let (seen, state) ← fieldsLoop form.fields ((← get).length + 1) true [] start
  match form.fields.find? fun field => field.required && !seen.contains field.name with
  | some field => fail (.missingField field.name)
  | none =>
    advance
    return state

/-- "2 elements", "1 element". -/
def countedElements (n : Nat) : String :=
  toString n ++ (if n = 1 then " element" else " elements")

/-- The fields of an open list, in order. -/
def fieldsInOrder (form : RecordForm σ) : List (Field σ) → Nat → σ → Reader σ
  | [], _, state => return state
  | field :: rest, index, state => do
    if ← hasItem (index == 0) then fieldsInOrder form rest (index + 1) (← field.read state)
    else if form.mayEndEarly then return state
    else
      fail (.invalidLength index (form.title ++ " with " ++ countedElements form.fields.length))

/-- A record written as a list, after its opening bracket. -/
def recordFromList (form : RecordForm σ) (start : σ) : Reader σ := do
  let state ← fieldsInOrder form form.fields 0 start
  closeList
  return state

/-- A record that starts as `start` and takes the fields that the text has. -/
def record (form : RecordForm σ) (start : σ) : Reader σ := do
  match ← next? with
  | none => fail .endInValue
  | some '[' => advance; recordFromList form start
  | some '{' => advance; recordFromObject form start
  | some _ => mismatch form.title

/-! ## Alternatives -/

/-- The content of the alternative with the given name. -/
def lookUp (alternatives : List (String × Content α)) (name : String) : Reader (Content α) :=
  match alternatives.find? (·.1 == name) with
  | some (_, content) => pure content
  | none => fail (.unknownVariant name (alternatives.map (·.1)))

/-- An alternative given by its name alone. -/
def bareChoice : Content α → Reader α
  | .bare value => pure value
  | .value _ => fail (.invalidType .bareName "newtype variant")
  | .record _ => fail (.invalidType .bareName "struct variant")

/-- The content of an alternative given by an object. -/
def content : Content α → Reader α
  | .bare value => do
    null
    return value
  | .value read | .record read => read

/-- The name of the alternative that an open object gives. -/
def choiceName : Reader String := do
  match ← next? with
  | none => fail .endInObject
  | some '"' => text
  | some '}' => fail .expectedValue
  | some _ => fail .keyNotText

/-- One of several named alternatives. -/
def choice (alternatives : List (String × Content α)) : Reader α := do
  match ← next? with
  | none => fail .endInValue
  | some '"' => bareChoice (← lookUp alternatives (← text))
  | some '{' =>
    advance
    let chosen ← lookUp alternatives (← choiceName)
    colon
    let value ← content chosen
    match ← next? with
    | none => fail .endInObject
    | some '}' => advance
    | some _ => fail .expectedValue
    return value
  | some _ => fail .expectedValue

end Reader

/-- Reads a whole text. -/
def decode (read : Reader α) (text : String) : Except ReadError α := do
  let (value, rest) ← read text.toList
  if (rest.dropWhile isBlank).isEmpty then return value else throw .trailingCharacters

end FloorDivision.Json
