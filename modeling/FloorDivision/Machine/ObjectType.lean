import FloorDivision.Level

/-!
# Types of values and their number slots

A type has a name, at most one base, and three slots through which its values take part in
division.  Types and slots have identities: two types with equal names differ, and a slot that a
type inherits is the same slot as its base's.

* `ObjectType.declare` — a type from its declaration and its base; slots that it does not set are
  taken over from the base there and then.
* `ObjectType.isSubtypeOf` — by identity, along the bases.
* The builtin types of a level: `ObjectType.object`, `ObjectType.number?`, `ObjectType.bool`, ….
-/

namespace FloorDivision

/-- What tells types apart. -/
inductive TypeId where
  | object
  | noneType
  | notImplementedType
  | number (kind : NumberKind)
  | bool
  /-- A type declared by a user, numbered. -/
  | user (index : Nat)
deriving DecidableEq, Repr

/-- An operation that divides two operands or declines them. -/
inductive DivideSlot where
  | builtin (kind : NumberKind)
  /-- The operation that the user type of this number defines. -/
  | user (definer : Nat)
deriving DecidableEq, Repr

/-- An operation that converts its own operand and another one to a common type. -/
inductive CoerceSlot where
  | builtin (kind : NumberKind)
  | user (definer : Nat)
deriving DecidableEq, Repr

/-- An operation that tells whether a value is true. -/
inductive TruthSlot where
  /-- Nothing of the type is true. -/
  | never
  | builtin (kind : NumberKind)
  | user (definer : Nat)
deriving DecidableEq, Repr

/-- The number slots of a type. -/
structure Slots where
  divide : Option DivideSlot := none
  coerce : Option CoerceSlot := none
  truth : Option TruthSlot := none
deriving DecidableEq, Repr

/-- Slots that are not set are taken from others. -/
def Slots.orElse (own others : Slots) : Slots where
  divide := own.divide <|> others.divide
  coerce := own.coerce <|> others.coerce
  truth := own.truth <|> others.truth

/-- A type on its own, or a type as it is declared, with the slots that it sets itself. -/
structure TypeEntry where
  id : TypeId
  name : String
  /-- Classic types divide through coercion only, under the legacy level. -/
  isClassic : Bool := false
  slots : Slots := {}
deriving DecidableEq, Repr

/-- A type: its entry, with slots inherited, and the entries of its bases, nearest first. -/
structure ObjectType extends TypeEntry where
  bases : List TypeEntry
deriving DecidableEq, Repr

namespace ObjectType

/-- The type itself and its bases, nearest first. -/
def ancestors (type : ObjectType) : List TypeEntry := type.toTypeEntry :: type.bases

/-- The type that a declaration describes on top of a base. -/
def declare (own : TypeEntry) : Option ObjectType → ObjectType
  | none => ⟨own, []⟩
  | some base => ⟨{ own with slots := own.slots.orElse base.slots }, base.ancestors⟩

/-- Whether a type is another one or derives from it. -/
def isSubtypeOf (type other : ObjectType) : Bool := type.ancestors.any (·.id == other.id)

/-- Whether values of the type divide through its own slot; all do under the modern level. -/
def isNewStyle (level : Level) (type : ObjectType) : Bool := level == .modern || !type.isClassic

/-- The entry of the type that this one derives from. -/
def base? (type : ObjectType) : Option TypeEntry := type.bases.head?

/-! ## Builtin types -/

def object : ObjectType := declare { id := .object, name := "object", isClassic := true } none

def noneType : ObjectType :=
  declare
    { id := .noneType, name := "NoneType", isClassic := true, slots := { truth := some .never } }
    (some object)

def notImplementedType : ObjectType :=
  declare { id := .notImplementedType, name := "NotImplementedType", isClassic := true }
    (some object)

/-- The slots that a kind of number has. -/
def numberSlots (level : Level) (kind : NumberKind) : Slots where
  divide := some (.builtin kind)
  coerce := if level.hasCoercion then some (.builtin kind) else none
  truth := some (.builtin kind)

/-- The type of a kind of number, where that kind has one. -/
def number (level : Level) (kind : NumberKind) : ObjectType :=
  declare
    { id := .number kind, name := kind.typeName level, slots := numberSlots level kind }
    (some object)

/-- The type of a kind of number, if the kind has one at the level. -/
def number? (level : Level) (kind : NumberKind) : Option ObjectType :=
  if kind.existsAt level then some (number level kind) else none

/-- The kind of machine-size integers as values, which is that of all integers if they unite. -/
def smallIntKind (level : Level) : NumberKind := if level.hasNativeInt then .int else .long

/-- The type of machine-size integers. -/
def smallInt (level : Level) : ObjectType := number level (smallIntKind level)

/-- Truth values are machine-size integers. -/
def bool (level : Level) : ObjectType :=
  declare { id := .bool, name := "bool" } (some (smallInt level))

end ObjectType

end FloorDivision
