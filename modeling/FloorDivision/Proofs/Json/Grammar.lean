import FloorDivision.Json.Skip
import FloorDivision.Proofs.Decimal.Written

/-!
# The grammar of JSON texts

What stands at the front of a text is told by what it leaves: `ValueText text rest` says that the
text is one value and then `rest`.  Nothing is said here of how a text is read.

* `Number`, `TextBody`, `ValueText` — values of any kind.
* `Spelled` — a text in quotation marks together with the text that it spells.
* `ObjectText` — an object with the names of its fields, for values of a given form.
-/

namespace FloorDivision.Json.Grammar

variable {text rest : List Char}

/-! ## Blanks and numbers -/

/-- Any number of blanks. -/
def Blanks (text rest : List Char) : Prop :=
  ∃ blanks, (∀ c ∈ blanks, c ∈ [' ', '\n', '\t', '\r']) ∧ text = blanks ++ rest

/-- At least one digit. -/
def Digits (text rest : List Char) : Prop :=
  ∃ digits, digits ≠ [] ∧ AllDigits digits ∧ text = digits ++ rest

/-- An integer without a sign, which begins with a zero only if it is one. -/
inductive Whole : List Char → List Char → Prop where
  | zero (rest : List Char) : Whole ('0' :: rest) rest
  | digits {first : Char} {digits : List Char} (rest : List Char) :
      first.isDigit = true → first ≠ '0' → AllDigits digits → Whole (first :: (digits ++ rest)) rest

inductive Fraction : List Char → List Char → Prop where
  | absent (rest : List Char) : Fraction rest rest
  | present {text rest : List Char} : Digits text rest → Fraction ('.' :: text) rest

inductive Exponent : List Char → List Char → Prop where
  | absent (rest : List Char) : Exponent rest rest
  | present {mark : Char} {sign text rest : List Char} :
      mark ∈ ['e', 'E'] → sign ∈ [[], ['+'], ['-']] → Digits text rest →
        Exponent (mark :: (sign ++ text)) rest

inductive Number : List Char → List Char → Prop where
  | mk {sign text afterWhole afterFraction rest : List Char} :
      sign ∈ [[], ['-']] → Whole text afterWhole → Fraction afterWhole afterFraction →
        Exponent afterFraction rest → Number (sign ++ text) rest

/-! ## Texts -/

/-- A hexadecimal digit, in upper or lower case. -/
def HexDigit (c : Char) (n : Nat) : Prop :=
  n < 16 ∧ (c = Nat.digitChar n ∨ c = (Nat.digitChar n).toUpper)

instance (c : Char) (n : Nat) : Decidable (HexDigit c n) := inferInstanceAs (Decidable (_ ∧ _))

/-- Four hexadecimal digits and their value. -/
inductive HexQuad : List Char → Nat → List Char → Prop where
  | mk {c₁ c₂ c₃ c₄ : Char} {n₁ n₂ n₃ n₄ : Nat} (rest : List Char) :
      HexDigit c₁ n₁ → HexDigit c₂ n₂ → HexDigit c₃ n₃ → HexDigit c₄ n₄ →
        HexQuad (c₁ :: c₂ :: c₃ :: c₄ :: rest) (4096 * n₁ + 256 * n₂ + 16 * n₃ + n₄) rest

/-- The letters that stand for a character after a backslash. -/
def escapes : List (Char × Char) :=
  [('"', '"'), ('\\', '\\'), ('/', '/'), ('b', '\x08'), ('f', '\x0c'), ('n', '\n'), ('r', '\r'),
    ('t', '\t')]

/-- The ways to write a character: as it is, by a letter, by its number, and by two halves of it
beyond the basic plane. -/
inductive SpelledChar : Char → List Char → List Char → Prop where
  | plain {c : Char} (rest : List Char) :
      ' ' ≤ c → c ≠ '"' → c ≠ '\\' → SpelledChar c (c :: rest) rest
  | letter {letter c : Char} (rest : List Char) :
      (letter, c) ∈ escapes → SpelledChar c ('\\' :: letter :: rest) rest
  | number {c : Char} {text rest : List Char} :
      HexQuad text c.toNat rest → SpelledChar c ('\\' :: 'u' :: text) rest
  | halves {c : Char} {high low : Nat} {text text' rest : List Char} :
      HexQuad text high ('\\' :: 'u' :: text') → HexQuad text' low rest →
        0xD800 ≤ high → high ≤ 0xDBFF → 0xDC00 ≤ low → low ≤ 0xDFFF →
        c.toNat = 0x10000 + 0x400 * (high - 0xD800) + (low - 0xDC00) →
          SpelledChar c ('\\' :: 'u' :: text) rest

/-- Characters and the quotation mark after them. -/
inductive SpelledChars : List Char → List Char → List Char → Prop where
  | close (rest : List Char) : SpelledChars [] ('"' :: rest) rest
  | cons {c : Char} {chars text text' rest : List Char} :
      SpelledChar c text text' → SpelledChars chars text' rest → SpelledChars (c :: chars) text rest

/-- A text in quotation marks. -/
inductive Spelled (value : String) : List Char → List Char → Prop where
  | mk {text rest : List Char} :
      SpelledChars value.toList text rest → Spelled value ('"' :: text) rest

/-- What follows an opening quotation mark, where a number may be half of a character that lacks its
other half. -/
inductive TextBody : List Char → List Char → Prop where
  | close (rest : List Char) : TextBody ('"' :: rest) rest
  | char {c : Char} {text text' rest : List Char} :
      SpelledChar c text text' → TextBody text' rest → TextBody text rest
  | half {n : Nat} {text text' rest : List Char} :
      HexQuad text n text' → TextBody text' rest → TextBody ('\\' :: 'u' :: text) rest

/-! ## Values -/

/-- The character that opens a bracket. -/
def opening : Bracket → Char
  | .list => '['
  | .object => '\x7b'

/-- The character that closes a bracket. -/
def closing : Bracket → Char
  | .list => ']'
  | .object => '\x7d'

/-- What stands before a value inside a bracket: in an object there are a key and a colon. -/
inductive Lead : Bracket → List Char → List Char → Prop where
  | list {text rest : List Char} : Blanks text rest → Lead .list text rest
  | object {text key afterKey afterColon rest : List Char} :
      Blanks text ('"' :: key) → TextBody key afterKey → Blanks afterKey (':' :: afterColon) →
        Blanks afterColon rest → Lead .object text rest

mutual

/-- A value of any kind. -/
inductive ValueText : List Char → List Char → Prop where
  | word {word : List Char} (rest : List Char) :
      word ∈ ["null".toList, "true".toList, "false".toList] → ValueText (word ++ rest) rest
  | number {text rest : List Char} : Number text rest → ValueText text rest
  | text {text rest : List Char} : TextBody text rest → ValueText ('"' :: text) rest
  | empty {text rest : List Char} (bracket : Bracket) :
      Blanks text (closing bracket :: rest) → ValueText (opening bracket :: text) rest
  | filled {text rest : List Char} (bracket : Bracket) :
      Items bracket text rest → ValueText (opening bracket :: text) rest

/-- Values inside a bracket and what closes it. -/
inductive Items : Bracket → List Char → List Char → Prop where
  | last {bracket : Bracket} {text value afterValue rest : List Char} :
      Lead bracket text value → ValueText value afterValue →
        Blanks afterValue (closing bracket :: rest) → Items bracket text rest
  | next {bracket : Bracket} {text value afterValue text' rest : List Char} :
      Lead bracket text value → ValueText value afterValue → Blanks afterValue (',' :: text') →
        Items bracket text' rest → Items bracket text rest

end

/-! ## Objects -/

section Objects

variable (form : String → List Char → List Char → Prop)

/-- A field, its value being of the form that goes with its name. -/
inductive Member : String → List Char → List Char → Prop where
  | mk {name : String} {text key afterKey afterColon value rest : List Char} :
      Blanks text key → Spelled name key afterKey → Blanks afterKey (':' :: afterColon) →
        Blanks afterColon value → form name value rest → Member name text rest

/-- The fields of an object with their names in order, and what closes it. -/
inductive Members : List String → List Char → List Char → Prop where
  | last {name : String} {text afterMember rest : List Char} :
      Member form name text afterMember → Blanks afterMember ('\x7d' :: rest) →
        Members [name] text rest
  | next {name : String} {names : List String} {text afterMember text' rest : List Char} :
      Member form name text afterMember → Blanks afterMember (',' :: text') →
        Members names text' rest → Members (name :: names) text rest

/-- An object with the names of its fields in order. -/
inductive ObjectText : List String → List Char → List Char → Prop where
  | empty {text rest : List Char} :
      Blanks text ('\x7d' :: rest) → ObjectText [] ('\x7b' :: text) rest
  | filled {names : List String} {text rest : List Char} :
      Members form names text rest → ObjectText names ('\x7b' :: text) rest

end Objects

end FloorDivision.Json.Grammar
