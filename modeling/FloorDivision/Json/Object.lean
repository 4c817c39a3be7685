import FloorDivision.Object
import FloorDivision.Json.Decoder
import FloorDivision.Json.Document
import FloorDivision.Number.Words

/-!
# Objects as documents

An object is written as the name of its kind or as an object with that one field.  An integer of
any size is its sign and its words of 32 bits, the least significant first.

* `Object.toJson`, `Object.ofJson`.
-/

namespace FloorDivision

open Json

/-- The bits in a word of a written integer. -/
def writtenWordSize : Nat := 32

/-- An integer of any size. -/
def longDocument (n : Int) : Document :=
  let magnitude := words writtenWordSize n.natAbs
  .list [.integer n.sign, .list (magnitude.map fun (w : Nat) => .integer w)]

/-- The sign of an integer of any size. -/
def signReader : Reader Int := do
  let sign ← Reader.integer Int8.minValue.toInt Int8.maxValue.toInt "i8"
  if sign = -1 ∨ sign = 0 ∨ sign = 1 then return sign
  else Reader.fail (.invalidValue (.integer sign) "a sign of -1, 0, or 1")

/-- An integer of any size: words without a sign are nothing, and so is a sign without words. -/
def longReader : Reader Int := do
  let (sign, magnitude) ← Reader.pair signReader
    (.items "a sequence of unsigned 32-bit numbers" (.integer 0 (UInt32.size - 1) "u32"))
  return sign * ofWords writtenWordSize (magnitude.map Int.toNat)

namespace Object

def toDocument : Object → Document
  | .none => .text "None"
  | .notImplemented => .text "NotImplemented"
  | .bool value => .object [("Bool", .bool value)]
  | .int value => .object [("Int", .integer value.toInt)]
  | .long value => .object [("Long", longDocument value)]
  | .float value => .object [("Float", .float value)]
  | .instanceOf typeName => .object [("Instance", .object [("type_name", .text typeName)])]

/-- The one field of an instance. -/
def instanceForm : RecordForm String where
  title := "struct variant Object::Instance"
  fields := [⟨"type_name", fun _ => Reader.text, true⟩]
  mayEndEarly := false

def reader : Reader Object := .choice [
  ("None", .bare .none),
  ("NotImplemented", .bare .notImplemented),
  ("Bool", .value (.bool <$> Reader.bool)),
  ("Int", .value (.int <$> Reader.int64)),
  ("Long", .value (.long <$> longReader)),
  ("Float", .value (.float <$> Reader.double)),
  ("Instance", .record (.instanceOf <$> Reader.record instanceForm ""))]

def toJson (object : Object) : String := object.toDocument.compact

def ofJson (text : String) : Except ReadError Object := decode reader text

end Object

end FloorDivision
