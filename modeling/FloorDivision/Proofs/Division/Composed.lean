import FloorDivision.Proofs.Division.Entering
import FloorDivision.Proofs.Machine.Alike
import FloorDivision.Proofs.Machine.Exact

/-!
# What divisions are composed of

* `Machine.untraced` — a machine with its tracer left out.
* `Failure.IsInternal` — a promise inside the library was broken.
* `Composed` — computations put together from the machine's own steps and the slots of user
  types, with the failures that they may raise themselves.  They look at no tracer and at no
  account, and they touch the nesting only by whole divisions.
* `Composed.builtinDivide`, `Composed.builtinCoerce`, `Composed.builtinTruth` — builtin slots are
  composed of steps alone, and none of them raises an internal failure.
* `Composed.divideNatively` — so is a native division, which raises one for operands of another
  kind only.
-/

namespace FloorDivision

open MachineM

/-- The machine without its tracer. -/
def Machine.untraced (m : Machine) : Machine := { m with tracer := .silent }

namespace Machine

@[simp] theorem untraced_heap (m : Machine) : m.untraced.heap = m.heap := rfl

@[simp] theorem untraced_level (m : Machine) : m.untraced.level = m.level := rfl

@[simp] theorem untraced_typeOf (m : Machine) : m.untraced.typeOf = m.typeOf := rfl

/-- Machines that only the tracer tells apart have the same heap. -/
theorem heap_eq_of_untraced {m m' : Machine} (h : m'.untraced = m.untraced) : m'.heap = m.heap := by
  rw [← m'.untraced_heap, h, m.untraced_heap]

theorem alike_untraced (m : Machine) : m.untraced.Alike m := ⟨rfl, .refl m.heap, rfl, rfl, rfl⟩

end Machine

/-- The failure says that a promise inside the library was broken. -/
def Failure.IsInternal : Failure → Prop
  | .internal _ => True
  | .raised _ | .uncatchable _ => False

/-- Slots that decline whatever they are asked. -/
def UserSlots.declining : UserSlots where
  divide _ _ _ := return .notImplemented
  coerce _ _ _ := return none
  truth _ _ := return true

/-- Computations put together from steps of the machine and from the slots of user types.  The
failures that they raise themselves are among `raises`; what a step is refused or a slot fails with
may be any other. -/
inductive Composed (raises : Failure → Prop) (user : UserSlots) :
    {α : Type} → MachineM α → Prop where
  | answer {α : Type} (x : α) : Composed raises user (pure x)
  | fail {α : Type} {e : Failure} : raises e → Composed raises user (throw e : MachineM α)
  | bind {α β : Type} {a : MachineM α} {f : α → MachineM β} :
      Composed raises user a → (∀ x, Composed raises user (f x)) → Composed raises user (a >>= f)
  /-- Looks at the machine, though neither at its tracer nor at its account. -/
  | look {α : Type} {f : Machine → MachineM α} :
      (∀ m, Composed raises user (f m)) → (∀ m m', m.Alike m' → f m = f m') →
        Composed raises user (get >>= f)
  | observe (event : Event) : Composed raises user (observe event)
  | note (call : SlotCall) : Composed raises user (note call)
  | retain (value : Value) : Composed raises user (retain value)
  | release (value : Value) : Composed raises user (release value)
  | newLong (n : Int) : Composed raises user (newLong n)
  | releasing {α : Type} (value : Value) {a : MachineM α} :
      Composed raises user a → Composed raises user (releasing value a)
  | releasingBoth {α : Type} (first second : Value) {a : MachineM α} :
      Composed raises user a → Composed raises user (releasingBoth first second a)
  | nested {α : Type} {a : Nat → MachineM α} :
      (∀ depth, Composed raises user (a depth)) →
        Composed raises user (do let depth ← enter; leaving (a depth))
  | slotDivide (definer : Nat) (lhs rhs : Value) :
      Composed raises user (user.divide definer lhs rhs)
  | slotCoerce (definer : Nat) (own other : Value) :
      Composed raises user (user.coerce definer own other)
  | slotTruth (definer : Nat) (value : Value) : Composed raises user (user.truth definer value)

namespace Composed

variable {raises raises' : Failure → Prop} {user : UserSlots}

/-- More failures may be allowed for. -/
theorem mono (hr : ∀ e, raises e → raises' e) {α : Type} {a : MachineM α}
    (h : Composed raises user a) : Composed raises' user a := by
  induction h with
  | answer x => exact .answer x
  | fail h => exact .fail (hr _ h)
  | bind _ _ iha ihf => exact .bind iha ihf
  | look _ hl ih => exact .look ih hl
  | observe event => exact .observe event
  | note call => exact .note call
  | retain value => exact .retain value
  | release value => exact .release value
  | newLong n => exact .newLong n
  | releasing value _ ih => exact .releasing value ih
  | releasingBoth first second _ ih => exact .releasingBoth first second ih
  | nested _ ih => exact .nested ih
  | slotDivide definer lhs rhs => exact .slotDivide definer lhs rhs
  | slotCoerce definer own other => exact .slotCoerce definer own other
  | slotTruth definer value => exact .slotTruth definer value

/-! ## Builtin slots -/

theorem divideInts (lhs rhs : Value) :
    Composed (¬ ·.IsInternal) user (BuiltinSlot.divideInts lhs rhs) := by
  unfold BuiltinSlot.divideInts
  refine look (fun m => ?_) fun _ _ h => by
    dsimp only
    rw [h.numeric?]
  dsimp only
  split
  · rename_i a b _ _
    cases intFloorDivide a b with
    | error => exact fail id
    | ok quotient =>
      cases quotient with
      | none => exact newLong _
      | some => exact answer _
  · exact answer _

theorem divideLongs (lhs rhs : Value) :
    Composed (¬ ·.IsInternal) user (BuiltinSlot.divideLongs lhs rhs) := by
  unfold BuiltinSlot.divideLongs
  refine look (fun m => ?_) fun _ _ h => by rw [h.numeric?, h.level]
  split
  · rename_i a b _ _
    cases longFloorDivide a b with
    | error => cases m.level <;> exact fail id
    | ok => exact newLong _
  · exact answer _

theorem toDoubleBy (ofLong? : Int → Option Double) (level : Level) (number? : Option Numeric) :
    Composed (¬ ·.IsInternal) user (FloorDivision.toDoubleBy ofLong? level number?) := by
  unfold FloorDivision.toDoubleBy
  split
  · exact answer _
  · exact answer _
  · split
    · exact answer _
    · cases level <;> exact fail id
  · exact answer _

theorem toDouble? (value : Value) :
    Composed (¬ ·.IsInternal) user (BuiltinSlot.toDouble? value) := by
  rw [toDouble?_eq]
  exact look (fun m => toDoubleBy _ _ _) fun _ _ h => by
    rw [h.numeric?, h.level]

theorem divideFloats (lhs rhs : Value) :
    Composed (¬ ·.IsInternal) user (BuiltinSlot.divideFloats lhs rhs) := by
  unfold BuiltinSlot.divideFloats
  refine bind (toDouble? lhs) fun a => ?_
  cases a with
  | none => exact answer _
  | some a =>
    refine bind (toDouble? rhs) fun b => ?_
    cases b with
    | none => exact answer _
    | some b =>
      dsimp only
      cases floatFloorDivide a b with
      | ok => exact answer _
      | error => exact look (fun m => fail id) fun _ _ h => by rw [h.level]

theorem builtinDivide (kind : NumberKind) (lhs rhs : Value) :
    Composed (¬ ·.IsInternal) user (BuiltinSlot.divide kind lhs rhs) := by
  cases kind
  · exact divideInts lhs rhs
  · exact divideLongs lhs rhs
  · exact divideFloats lhs rhs

theorem coerceInts (own other : Value) :
    Composed (¬ ·.IsInternal) user (BuiltinSlot.coerceInts own other) := by
  unfold BuiltinSlot.coerceInts
  refine look (fun m => ?_) fun _ _ h => by rw [h.numeric?]
  split
  · exact bind (retain _) fun _ => bind (retain _) fun _ => answer _
  · exact answer _

theorem coerceLongs (own other : Value) :
    Composed (¬ ·.IsInternal) user (BuiltinSlot.coerceLongs own other) := by
  unfold BuiltinSlot.coerceLongs
  refine look (fun m => ?_) fun _ _ h => by rw [h.numeric?]
  split
  · exact bind (newLong _) fun _ => bind (retain _) fun _ => answer _
  · exact bind (retain _) fun _ => bind (retain _) fun _ => answer _
  · exact answer _

theorem coerceFloats (own other : Value) :
    Composed (¬ ·.IsInternal) user (BuiltinSlot.coerceFloats own other) := by
  unfold BuiltinSlot.coerceFloats
  refine look (fun m => ?_) fun _ _ h => by rw [h.numeric?]
  split
  · exact bind (retain _) fun _ => bind (retain _) fun _ => answer _
  · refine bind (toDouble? other) fun x => ?_
    split
    · exact bind (retain _) fun _ => answer _
    · exact answer _
  · exact answer _

theorem builtinCoerce (kind : NumberKind) (own other : Value) :
    Composed (¬ ·.IsInternal) user (BuiltinSlot.coerce kind own other) := by
  cases kind
  · exact coerceInts own other
  · exact coerceLongs own other
  · exact coerceFloats own other

theorem builtinTruth (value : Value) :
    Composed (¬ ·.IsInternal) user (BuiltinSlot.truth value) := by
  unfold BuiltinSlot.truth
  refine look (fun m => ?_) fun _ _ h => by rw [h.numeric?]
  split
  · exact answer _
  · exact answer _
  · exact answer _
  · exact answer _

/-! ## Native division -/

theorem nativeInts (a b : Int64) :
    Composed (¬ ·.IsInternal) user (FloorDivision.divideInts a b) := by
  unfold FloorDivision.divideInts
  cases intFloorDivide a b with
  | error => exact fail id
  | ok quotient =>
    cases quotient with
    | none => exact bind (observe _) fun _ => answer _
    | some => exact answer _

theorem nativeLongs (lhs rhs : Value) :
    Composed (fun _ => True) user (FloorDivision.divideLongs lhs rhs) := by
  unfold FloorDivision.divideLongs
  refine look (fun m => ?_) fun _ _ h => by rw [h.level, h.longOperand?]
  split
  · exact (nativeInts _ _).mono fun _ _ => trivial
  · split
    · rename_i a b _ _
      cases longFloorDivide a b with
      | error => exact fail trivial
      | ok => exact answer _
    · exact fail trivial

theorem divideNatively (kind : NumberKind) (lhs rhs : Value) :
    Composed (fun _ => True) user (FloorDivision.divideNatively kind lhs rhs) := by
  unfold FloorDivision.divideNatively
  refine bind (observe _) fun _ => ?_
  split
  · exact (nativeInts _ _).mono fun _ _ => trivial
  · exact nativeLongs lhs rhs
  · rename_i a b
    cases floatFloorDivide a b with
    | error => exact fail trivial
    | ok => exact answer _
  · exact fail trivial

theorem toValue (quotient : Quotient) : Composed raises user quotient.toValue := by
  cases quotient with
  | int | float => exact answer _
  | long n => exact newLong n

end Composed

end FloorDivision
