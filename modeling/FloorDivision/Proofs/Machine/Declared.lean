import FloorDivision.Machine.ObjectType

/-!
# Types by their declarations

A type is declared on top of a base, which was declared on top of another one, and so on.

* `Declared.type` — the type that comes of a chain of declarations.
* `Declared.slot?` — the slot that divides: the type's own one, or that of the nearest base that has
  one.
* `slot_build` — each slot is looked up along the chain by itself.
* `divide_type`, `isSubtypeOf_type` — a built type has that slot, and derives from the types in its
  chain.
-/

namespace FloorDivision

/-- The declarations of a type and of its bases, nearest first, with the slots that each one sets
itself. -/
structure Declared where
  own : TypeEntry
  bases : List TypeEntry := []

namespace Declared

/-- All declarations of the chain. -/
def chain (declared : Declared) : List TypeEntry := declared.own :: declared.bases

/-- A type declared on top of the type of a chain, if there is any. -/
def build (own : TypeEntry) : List TypeEntry → ObjectType
  | [] => .declare own none
  | base :: bases => .declare own (some (build base bases))

/-- The type that the declarations build. -/
def type (declared : Declared) : ObjectType := build declared.own declared.bases

/-- The slot for division: the first one along the chain. -/
def slot? (declared : Declared) : Option DivideSlot :=
  declared.chain.findSome? (·.slots.divide)

/-- Whether a type is another one or has it among its bases. -/
def derivesFrom (declared other : Declared) : Bool :=
  declared.chain.any (·.id == other.own.id)

/-- The slot that takes part in division: classic types offer none under the legacy level. -/
def offers (level : Level) (declared : Declared) : Option DivideSlot :=
  if level = .modern ∨ declared.own.isClassic = false then declared.slot? else none

/-- The slot of a right operand's type beside the left one: none if that would be the same again. -/
def offersBeside (level : Level) (left right : Declared) : Option DivideSlot :=
  if left.own.id = right.own.id then none
  else if right.offers level = left.offers level then none
  else right.offers level

@[simp] theorem id_build (own : TypeEntry) (bases : List TypeEntry) : (build own bases).id = own.id := by
  cases bases <;> rfl

@[simp] theorem isClassic_build (own : TypeEntry) (bases : List TypeEntry) :
    (build own bases).isClassic = own.isClassic := by
  cases bases <;> rfl

private theorem findSome?_cons_eq {α β : Type} (f : α → Option β) (a : α) (l : List α) :
    (a :: l).findSome? f = (f a <|> l.findSome? f) := by
  rw [List.findSome?_cons]
  cases f a <;> rfl

/-- A slot that is not set is that of the nearest base which sets it. -/
theorem slot_build {α : Type} (slot : Slots → Option α)
    (inherited : ∀ own others, slot (own.orElse others) = (slot own <|> slot others))
    (own : TypeEntry) (bases : List TypeEntry) :
    slot (build own bases).slots = (own :: bases).findSome? (slot ·.slots) := by
  induction bases generalizing own with
  | nil =>
    rw [findSome?_cons_eq]
    show slot own.slots = (slot own.slots <|> none)
    cases slot own.slots <;> rfl
  | cons base bases ih =>
    rw [findSome?_cons_eq, ← ih base]
    exact inherited own.slots (build base bases).slots

theorem divide_build (own : TypeEntry) (bases : List TypeEntry) :
    (build own bases).slots.divide = (own :: bases).findSome? (·.slots.divide) :=
  slot_build (·.divide) (fun _ _ => rfl) own bases

/-- Types are told apart by what they were declared as. -/
theorem map_id_ancestors (own : TypeEntry) (bases : List TypeEntry) :
    (build own bases).ancestors.map (·.id) = (own :: bases).map (·.id) := by
  induction bases generalizing own with
  | nil => rfl
  | cons base bases ih =>
    show own.id :: (build base bases).ancestors.map (·.id) = _
    rw [ih base]
    rfl

theorem divide_type (declared : Declared) : declared.type.slots.divide = declared.slot? :=
  divide_build declared.own declared.bases

theorem isSubtypeOf_type (declared other : Declared) :
    declared.type.isSubtypeOf other.type = declared.derivesFrom other := by
  have ids : ∀ entries : List TypeEntry,
      entries.any (·.id == other.own.id) = (entries.map (·.id)).any (· == other.own.id) := by
    intro entries
    rw [List.any_map]
    rfl
  unfold ObjectType.isSubtypeOf derivesFrom
  rw [show other.type.id = other.own.id from id_build _ _, ids, ids]
  unfold type chain
  rw [map_id_ancestors]

theorem offers_eq (level : Level) (declared : Declared) :
    (if declared.type.isNewStyle level then declared.type.slots.divide else none) =
      declared.offers level := by
  unfold ObjectType.isNewStyle offers
  rw [divide_type, show declared.type.isClassic = declared.own.isClassic from isClassic_build _ _]
  cases level <;> cases declared.own.isClassic <;> rfl

end Declared

end FloorDivision
