import FloorDivision.Decimal.Layout

/-!
# Writing JSON texts

A `Document` is what a JSON text says, fields in their order.

* `Document.compact` — the text without blanks.
* `Document.pretty` — the text with one item or field a line, indented by two blanks.
-/

namespace FloorDivision.Json

inductive Document where
  | null
  | bool (value : Bool)
  | integer (value : Int)
  | float (value : Double)
  | text (value : String)
  | list (items : List Document)
  | object (fields : List (String × Document))

/-- How one character is written inside a text: marks and controls are escaped, no more. -/
def writeChar : Char → List Char
  | '"' => ['\\', '"']
  | '\\' => ['\\', '\\']
  | '\x08' => ['\\', 'b']
  | '\x0c' => ['\\', 'f']
  | '\n' => ['\\', 'n']
  | '\r' => ['\\', 'r']
  | '\t' => ['\\', 't']
  | c =>
    if c < ' ' then
      ['\\', 'u', '0', '0', Nat.digitChar (c.toNat / 16), Nat.digitChar (c.toNat % 16)]
    else [c]

/-- A text between quotation marks. -/
def writeText (text : String) : String :=
  .ofList ('"' :: text.toList.flatMap writeChar ++ ['"'])

namespace Document

/-- A document without parts; a double that is not finite is written as null. -/
def scalar? : Document → Option String
  | .null => some "null"
  | .bool value => some (toString value)
  | .integer value => some (toString value)
  | .float value => some (Layout.document.text value)
  | .text value => some (writeText value)
  | .list _ | .object _ => none

mutual

def compact : Document → String
  | .list items => "[" ++ ",".intercalate (compactItems items) ++ "]"
  | .object fields => "\x7b" ++ ",".intercalate (compactFields fields) ++ "\x7d"
  | document => document.scalar?.getD ""

def compactItems : List Document → List String
  | [] => []
  | item :: rest => compact item :: compactItems rest

def compactFields : List (String × Document) → List String
  | [] => []
  | (name, value) :: rest => (writeText name ++ ":" ++ compact value) :: compactFields rest

end

/-- A line break and the indentation of a nesting depth. -/
def newLine (depth : Nat) : String := "\n" ++ .ofList (List.replicate (2 * depth) ' ')

/-- Lines inside brackets, which stand on lines of their own. -/
def bracketed (opening closing : String) (depth : Nat) (lines : List String) : String :=
  if lines.isEmpty then opening ++ closing
  else
    opening ++ newLine (depth + 1) ++ ("," ++ newLine (depth + 1)).intercalate lines ++
      newLine depth ++ closing

mutual

def prettyAt (depth : Nat) : Document → String
  | .list items => bracketed "[" "]" depth (prettyItems (depth + 1) items)
  | .object fields => bracketed "\x7b" "\x7d" depth (prettyFields (depth + 1) fields)
  | document => document.scalar?.getD ""

def prettyItems (depth : Nat) : List Document → List String
  | [] => []
  | item :: rest => prettyAt depth item :: prettyItems depth rest

def prettyFields (depth : Nat) : List (String × Document) → List String
  | [] => []
  | (name, value) :: rest =>
    (writeText name ++ ": " ++ prettyAt depth value) :: prettyFields depth rest

end

def pretty (document : Document) : String := document.prettyAt 0

end Document

end FloorDivision.Json
