import FloorDivision.Text.Hidden

/-!
# Quotations in messages

`quote` puts a text between quotation marks as messages and descriptions do: marks, backslashes
and line controls get a backslash, and other hidden characters are spelled by their code point.
-/

namespace FloorDivision.Text

/-- How one character appears inside a quotation. -/
def quoteChar : Char → List Char
  | '\x00' => ['\\', '0']
  | '\t' => ['\\', 't']
  | '\r' => ['\\', 'r']
  | '\n' => ['\\', 'n']
  | '"' => ['\\', '"']
  | '\\' => ['\\', '\\']
  | c =>
    if Hidden.isHidden c then "\\u\x7b".toList ++ Nat.toDigits 16 c.toNat ++ ['}'] else [c]

/-- A text between quotation marks. -/
def quote (text : String) : String :=
  .ofList ('"' :: text.toList.flatMap quoteChar ++ ['"'])

end FloorDivision.Text
