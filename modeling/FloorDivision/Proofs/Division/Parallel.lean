import FloorDivision.Proofs.Division.Composed

/-!
# Divisions with two families of slots

* `Parallel` — computations put together in the same way, one with the slots of one family and one
  with those of another.
* `Parallel.divide`, `Parallel.divideToTruth` — divisions with two families of slots are such
  computations.  What equal steps and slots make equal is equal for divisions, by one induction over
  `Parallel`.
* `Composed.divide`, `Composed.divideToTruth` — so each division is composed of steps and slots.
  What every step keeps is kept by a division, by one induction over `Composed`.
-/

namespace FloorDivision

open MachineM

/-- Computations put together in the same way from steps and from the slots of two families.  The
failures that they raise themselves are among `raises`. -/
inductive Parallel (raises : Failure → Prop) (user user' : UserSlots) :
    {α : Type} → MachineM α → MachineM α → Prop where
  /-- No slot of a user type is called. -/
  | same {α : Type} {a : MachineM α} :
      (∀ user, Composed raises user a) → Parallel raises user user' a a
  | bind {α β : Type} {a a' : MachineM α} {f f' : α → MachineM β} :
      Parallel raises user user' a a' → (∀ x, Parallel raises user user' (f x) (f' x)) →
        Parallel raises user user' (a >>= f) (a' >>= f')
  /-- Looks at the machine, though neither at its tracer nor at its account. -/
  | look {α : Type} {f f' : Machine → MachineM α} :
      (∀ m, Parallel raises user user' (f m) (f' m)) → (∀ m m', m.Alike m' → f m = f m') →
        Parallel raises user user' (get >>= f) (get >>= f')
  | releasing {α : Type} (value : Value) {a a' : MachineM α} :
      Parallel raises user user' a a' →
        Parallel raises user user' (releasing value a) (releasing value a')
  | releasingBoth {α : Type} (first second : Value) {a a' : MachineM α} :
      Parallel raises user user' a a' →
        Parallel raises user user' (releasingBoth first second a) (releasingBoth first second a')
  | nested {α : Type} {a a' : Nat → MachineM α} :
      (∀ depth, Parallel raises user user' (a depth) (a' depth)) →
        Parallel raises user user' (do let depth ← enter; leaving (a depth))
          (do let depth ← enter; leaving (a' depth))
  | slotDivide (definer : Nat) (lhs rhs : Value) :
      Parallel raises user user' (user.divide definer lhs rhs) (user'.divide definer lhs rhs)
  | slotCoerce (definer : Nat) (own other : Value) :
      Parallel raises user user' (user.coerce definer own other) (user'.coerce definer own other)
  | slotTruth (definer : Nat) (value : Value) :
      Parallel raises user user' (user.truth definer value) (user'.truth definer value)

namespace Parallel

variable {raises raises' : Failure → Prop} {user user' : UserSlots} {α : Type}

/-- More failures may be allowed for. -/
theorem mono (hr : ∀ e, raises e → raises' e) {a a' : MachineM α}
    (h : Parallel raises user user' a a') : Parallel raises' user user' a a' := by
  induction h with
  | same ha => exact .same fun user => (ha user).mono hr
  | bind _ _ iha ihf => exact .bind iha ihf
  | look _ hl ih => exact .look ih hl
  | releasing value _ ih => exact .releasing value ih
  | releasingBoth first second _ ih => exact .releasingBoth first second ih
  | nested _ ih => exact .nested ih
  | slotDivide definer lhs rhs => exact .slotDivide definer lhs rhs
  | slotCoerce definer own other => exact .slotCoerce definer own other
  | slotTruth definer value => exact .slotTruth definer value

/-- Each of the two is composed of steps and slots. -/
theorem composed {a a' : MachineM α} (h : Parallel raises user user' a a') :
    Composed raises user a := by
  induction h with
  | same ha => exact ha user
  | bind _ _ iha ihf => exact .bind iha ihf
  | look _ hl ih => exact .look ih hl
  | releasing value _ ih => exact .releasing value ih
  | releasingBoth first second _ ih => exact .releasingBoth first second ih
  | nested _ ih => exact .nested ih
  | slotDivide definer lhs rhs => exact .slotDivide definer lhs rhs
  | slotCoerce definer own other => exact .slotCoerce definer own other
  | slotTruth definer value => exact .slotTruth definer value

theorem answer (x : α) : Parallel raises user user' (pure x) (pure x) := same fun _ => .answer x

theorem fail {e : Failure} (h : raises e) :
    Parallel raises user user' (throw e : MachineM α) (throw e) := same fun _ => .fail h

theorem observe (event : Event) : Parallel raises user user' (observe event) (observe event) :=
  same fun _ => .observe event

theorem note (call : SlotCall) : Parallel raises user user' (note call) (note call) :=
  same fun _ => .note call

theorem release (value : Value) : Parallel raises user user' (release value) (release value) :=
  same fun _ => .release value

/-! ## Slot calls -/

theorem callDivide (slot : DivideSlot) (lhs rhs : Value) :
    Parallel (¬ ·.IsInternal) user user' (FloorDivision.callDivide user slot lhs rhs)
      (FloorDivision.callDivide user' slot lhs rhs) := by
  cases slot with
  | builtin kind => exact same fun _ => .builtinDivide kind lhs rhs
  | user definer => exact bind (note _) fun _ => slotDivide definer lhs rhs

theorem callCoerce (slot : CoerceSlot) (own other : Value) :
    Parallel (¬ ·.IsInternal) user user' (FloorDivision.callCoerce user slot own other)
      (FloorDivision.callCoerce user' slot own other) := by
  cases slot with
  | builtin kind => exact same fun _ => .builtinCoerce kind own other
  | user definer => exact bind (note _) fun _ => slotCoerce definer own other

theorem callTruth (slot : TruthSlot) (value : Value) :
    Parallel (¬ ·.IsInternal) user user' (FloorDivision.callTruth user slot value)
      (FloorDivision.callTruth user' slot value) := by
  cases slot with
  | never => exact answer false
  | builtin => exact same fun _ => .builtinTruth value
  | user definer => exact bind (note _) fun _ => slotTruth definer value

theorem isTrue (value : Value) :
    Parallel (¬ ·.IsInternal) user user' (FloorDivision.isTrue user value)
      (FloorDivision.isTrue user' value) := by
  unfold FloorDivision.isTrue
  refine look (fun m => ?_) fun _ _ h => by rw [h.typeOf]
  split
  · exact callTruth _ value
  · exact answer _

/-! ## Division by slots

Whatever is raised here is no internal failure, as the shapes of an entry point have types. -/

theorem divideCoerced (side : Side) (pair : Option (Value × Value)) :
    Parallel (¬ ·.IsInternal) user user' (FloorDivision.divideCoerced user side pair)
      (FloorDivision.divideCoerced user' side pair) := by
  cases pair with
  | none => exact bind (observe _) fun _ => answer _
  | some pair =>
    obtain ⟨lhs, rhs⟩ := pair
    refine bind (observe _) fun _ => releasingBoth lhs rhs (look (fun m => ?_) fun _ _ h => ?_)
    · split
      · exact answer _
      · refine bind (callDivide _ lhs rhs) fun result => ?_
        split
        · exact bind (release _) fun _ => answer _
        · exact answer _
    · rw [h.typeOf]

theorem divideByCoercionOf (side : Side) (slot : Option CoerceSlot) (lhs rhs : Value) :
    Parallel (¬ ·.IsInternal) user user' (FloorDivision.divideByCoercionOf user side slot lhs rhs)
      (FloorDivision.divideByCoercionOf user' side slot lhs rhs) := by
  cases slot with
  | none => exact answer _
  | some slot => exact bind (callCoerce slot _ _) fun pair => divideCoerced side _

theorem divideByCoercion (leftType rightType : ObjectType) (lhs rhs : Value) :
    Parallel (¬ ·.IsInternal) user user'
      (FloorDivision.divideByCoercion user leftType rightType lhs rhs)
      (FloorDivision.divideByCoercion user' leftType rightType lhs rhs) := by
  refine bind (divideByCoercionOf .left _ lhs rhs) fun outcome => ?_
  cases outcome with
  | computed | unsupported => exact answer _
  | undecided =>
    refine bind (divideByCoercionOf .right _ lhs rhs) fun outcome => ?_
    cases outcome with
    | computed | unsupported | undecided => exact answer _

theorem divideByCandidates (lhs rhs : Value) (slots : List (Side × DivideSlot)) :
    Parallel (¬ ·.IsInternal) user user' (FloorDivision.divideByCandidates user lhs rhs slots)
      (FloorDivision.divideByCandidates user' lhs rhs slots) := by
  induction slots with
  | nil => exact answer _
  | cons candidate rest ih =>
    obtain ⟨side, slot⟩ := candidate
    refine bind (observe _) fun _ => bind (callDivide slot lhs rhs) fun result => ?_
    split
    · exact bind (observe _) fun _ => bind (release _) fun _ => ih
    · exact answer _

theorem refuseOperands (entry : EntryPoint) (leftType rightType : ObjectType) :
    Parallel (¬ ·.IsInternal) user user' (FloorDivision.refuseOperands entry leftType rightType)
      (FloorDivision.refuseOperands entry leftType rightType) :=
  bind (observe _) fun _ => fail id

theorem divideBySlots (entry : EntryPoint) (lhs rhs : Value) :
    Parallel (¬ ·.IsInternal) user user' (FloorDivision.divideBySlots user entry lhs rhs)
      (FloorDivision.divideBySlots user' entry lhs rhs) := by
  unfold FloorDivision.divideBySlots
  refine look (fun m => ?_) fun _ _ h => by rw [h.operandType, h.operandType]
  rw [operandType_eq entry.left_exists, operandType_eq entry.right_exists]
  refine bind (answer _) fun leftType => bind (answer _) fun rightType => ?_
  refine bind (divideByCandidates lhs rhs _) fun value? => ?_
  split
  · exact answer _
  · split
    · refine bind (divideByCoercion leftType rightType lhs rhs) fun value? => ?_
      split
      · exact answer _
      · exact refuseOperands entry leftType rightType
    · exact refuseOperands entry leftType rightType

/-! ## Divisions -/

theorem truthOfOwned (value : Value) :
    Parallel (¬ ·.IsInternal) user user' (FloorDivision.truthOfOwned user value)
      (FloorDivision.truthOfOwned user' value) := releasing value (isTrue value)

theorem truthOfQuotient (quotient : Quotient) :
    Parallel (¬ ·.IsInternal) user user' (FloorDivision.truthOfQuotient user quotient)
      (FloorDivision.truthOfQuotient user' quotient) := by
  cases quotient with
  | int | float => exact answer _
  | long n => exact bind (same fun _ => .newLong n) truthOfOwned

variable {native native' : Quotient → MachineM α} {generic generic' : Value → MachineM α}

theorem divideInside (entry : EntryPoint)
    (hn : ∀ quotient, Parallel (¬ ·.IsInternal) user user' (native quotient) (native' quotient))
    (hg : ∀ value, Parallel (¬ ·.IsInternal) user user' (generic value) (generic' value))
    (lhs rhs : Value) :
    Parallel (fun _ => True) user user'
      (FloorDivision.divideInside user entry native generic lhs rhs)
      (FloorDivision.divideInside user' entry native' generic' lhs rhs) := by
  have any : ∀ e : Failure, ¬e.IsInternal → True := fun _ _ => trivial
  unfold FloorDivision.divideInside
  refine look (fun m => ?_) fun _ _ h => by rw [h.fastKind?]
  split
  · exact bind (same fun _ => .divideNatively _ lhs rhs) fun quotient => (hn quotient).mono any
  · exact (bind (divideBySlots entry lhs rhs) hg).mono any

theorem divideWith (entry : EntryPoint)
    (hn : ∀ quotient, Parallel (¬ ·.IsInternal) user user' (native quotient) (native' quotient))
    (hg : ∀ value, Parallel (¬ ·.IsInternal) user user' (generic value) (generic' value))
    (lhs rhs : Value) :
    Parallel (fun _ => True) user user'
      (FloorDivision.divideWith user entry native generic lhs rhs)
      (FloorDivision.divideWith user' entry native' generic' lhs rhs) := by
  unfold FloorDivision.divideWith
  refine look (fun m => ?_) fun _ _ h => by rw [h.level]
  have inside : Parallel (fun _ => True) user user' _ _ := nested fun depth =>
    bind (observe (.dispatch entry.left entry.right depth)) fun _ =>
      divideInside entry hn hg lhs rhs
  dsimp only
  split
  · exact bind (fail trivial) fun _ => inside
  · exact inside

/-- **Divisions with two families of slots go the same way.** -/
theorem divide (entry : EntryPoint) (lhs rhs : Value) :
    Parallel (fun _ => True) user user' (FloorDivision.divide user entry lhs rhs)
      (FloorDivision.divide user' entry lhs rhs) :=
  divideWith entry (fun quotient => same fun _ => .toValue quotient) answer lhs rhs

/-- **Truths of quotients with two families of slots are found the same way.** -/
theorem divideToTruth (entry : EntryPoint) (lhs rhs : Value) :
    Parallel (fun _ => True) user user' (FloorDivision.divideToTruth user entry lhs rhs)
      (FloorDivision.divideToTruth user' entry lhs rhs) :=
  divideWith entry truthOfQuotient truthOfOwned lhs rhs

end Parallel

/-! ## What one division is composed of -/

namespace Composed

variable {user : UserSlots}

/-- What goes the same way with any two families of slots is composed of steps and slots. -/
theorem of_parallel {raises : Failure → Prop} {α : Type} {a : MachineM α}
    (h : Parallel raises user user a a) : Composed raises user a := h.composed

theorem isTrue (value : Value) : Composed (¬ ·.IsInternal) user (FloorDivision.isTrue user value) :=
  of_parallel (.isTrue value)

theorem truthOfOwned (value : Value) :
    Composed (¬ ·.IsInternal) user (FloorDivision.truthOfOwned user value) :=
  of_parallel (.truthOfOwned value)

theorem divideInside (entry : EntryPoint) (lhs rhs : Value) :
    Composed (fun _ => True) user
      (FloorDivision.divideInside user entry Quotient.toValue pure lhs rhs) :=
  of_parallel (.divideInside entry (fun quotient => .same fun _ => .toValue quotient) .answer
    lhs rhs)

/-- **The quotient of two operands is composed of steps and slots.** -/
theorem divide (entry : EntryPoint) (lhs rhs : Value) :
    Composed (fun _ => True) user (FloorDivision.divide user entry lhs rhs) :=
  of_parallel (.divide entry lhs rhs)

/-- **The truth of a quotient is composed of steps and slots.** -/
theorem divideToTruth (entry : EntryPoint) (lhs rhs : Value) :
    Composed (fun _ => True) user (FloorDivision.divideToTruth user entry lhs rhs) :=
  of_parallel (.divideToTruth entry lhs rhs)

end Composed

end FloorDivision
