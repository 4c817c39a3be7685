import FloorDivision.Division.Divide
import FloorDivision.Proofs.Machine.Run

/-!
# Entering and leaving divisions

* `run_divideWith` — a division refuses a machine of another level and a nesting beyond the limit,
  and else runs between `Machine.entered` and `Machine.left`.
* `divideInside` — the quotient or value before anything is made of it.
* `Shape.typeAt`, `operandType_eq` — the type that each operand is taken for.
* `run_divideBySlots` — the slots that are tried, and what is left once all have declined.
* `run_divideToPending`, `run_divideTakingPending` — what callers get who only learn that there
  was a failure.
-/

namespace FloorDivision

open MachineM

variable {α : Type}

/-- The machine inside a division that has just been entered. -/
def Machine.entered (m : Machine) (entry : EntryPoint) : Machine :=
  { m with depth := m.depth + 1 }.observe (.dispatch entry.left entry.right (m.depth + 1))

/-- The machine once the innermost division is over. -/
def Machine.left (m : Machine) : Machine := { m with depth := m.depth - 1 }

/-- A native quotient or the value of a slot, before it is handed on. -/
def divideInside (user : UserSlots) (entry : EntryPoint) (native : Quotient → MachineM α)
    (generic : Value → MachineM α) (lhs rhs : Value) : MachineM α := do
  match fastKind? entry (← get) lhs rhs with
  | some kind => native (← divideNatively kind lhs rhs)
  | none => generic (← divideBySlots user entry lhs rhs)

theorem run_divideInside (user : UserSlots) (entry : EntryPoint) (native : Quotient → MachineM α)
    (generic : Value → MachineM α) (lhs rhs : Value) (m : Machine) :
    divideInside user entry native generic lhs rhs m = match fastKind? entry m lhs rhs with
      | some kind => (divideNatively kind lhs rhs >>= native) m
      | none => (divideBySlots user entry lhs rhs >>= generic) m := by
  unfold divideInside
  rw [run_get_bind]
  cases fastKind? entry m lhs rhs <;> rfl

theorem run_divideInside_native (user : UserSlots) {entry : EntryPoint} {lhs rhs : Value}
    {m : Machine} {kind : NumberKind} (h : fastKind? entry m lhs rhs = some kind)
    (native : Quotient → MachineM α) (generic : Value → MachineM α) :
    divideInside user entry native generic lhs rhs m =
      (divideNatively kind lhs rhs >>= native) m := by
  rw [run_divideInside, h]

theorem run_divideInside_slots (user : UserSlots) {entry : EntryPoint} {lhs rhs : Value}
    {m : Machine} (h : fastKind? entry m lhs rhs = none) (native : Quotient → MachineM α)
    (generic : Value → MachineM α) :
    divideInside user entry native generic lhs rhs m =
      (divideBySlots user entry lhs rhs >>= generic) m := by
  rw [run_divideInside, h]

/-- A known shape is taken for its type without a look at the operand. -/
theorem operandType_known {entry : EntryPoint} {kind : NumberKind} (m : Machine) (value : Value)
    (hs : kind.existsAt entry.level = true) :
    operandType entry (.known kind) m value = .ok (.number entry.level kind) := by
  unfold operandType ObjectType.number?
  rw [show (Shape.known kind).kind? = some kind from rfl]
  dsimp only
  rw [if_pos hs]

/-- The type that an operand is taken for: a known shape tells it, else the operand does. -/
def Shape.typeAt (level : Level) (m : Machine) : Shape → Value → ObjectType
  | .known kind, _ => .number level kind
  | .unknown, value => m.typeOf value

/-- The shapes of an entry point exist at its level, so that there is a type for each operand. -/
theorem operandType_eq {entry : EntryPoint} {shape : Shape}
    (hs : shape.existsAt entry.level = true) (m : Machine) (value : Value) :
    operandType entry shape m value = .ok (shape.typeAt entry.level m value) := by
  cases shape with
  | unknown => rfl
  | known kind => exact operandType_known m value hs

/-- An operand is taken for a number of its shape, or for what it is. -/
theorem Shape.typeAt_of {P : ObjectType → Prop} {level : Level} {m : Machine} {value : Value}
    (hnumber : ∀ kind, P (.number level kind)) (hown : P (m.typeOf value)) (shape : Shape) :
    P (shape.typeAt level m value) := by
  cases shape with
  | known kind => exact hnumber kind
  | unknown => exact hown

/-- **What a division does**, whatever is made of the quotient. -/
theorem run_divideWith (user : UserSlots) (entry : EntryPoint) (native : Quotient → MachineM α)
    (generic : Value → MachineM α) (lhs rhs : Value) (m : Machine) :
    divideWith user entry native generic lhs rhs m =
      if m.level ≠ entry.level then (.error (levelMismatch entry.level m.level), m)
      else match m.heap.budget.checkDepth m.depth with
        | .error refusal => (.error refusal.failure, m)
        | .ok () =>
          let inside := divideInside user entry native generic lhs rhs (m.entered entry)
          (inside.1, inside.2.left) := by
  unfold divideWith
  rw [run_get_bind]
  dsimp only
  split
  · rfl
  · rw [run_bind]
    unfold enter
    cases m.heap.budget.checkDepth m.depth with
    | error => rfl
    | ok => rfl

/-- One slot is called; if it declines, its answer is given back and the others are tried. -/
theorem run_divideByCandidates_cons (user : UserSlots) (lhs rhs : Value) (side : Side)
    (slot : DivideSlot) (rest : List (Side × DivideSlot)) (m : Machine) :
    divideByCandidates user lhs rhs ((side, slot) :: rest) m =
      match callDivide user slot lhs rhs (m.observe (.slotCall side)) with
      | (.ok value, m') =>
        if value.isNotImplemented then
          divideByCandidates user lhs rhs rest ((m'.observe (.slotDeclined side)).releaseValue value)
        else (.ok (some value), m')
      | (.error e, m') => (.error e, m') := by
  rw [divideByCandidates, run_bind_ok (run_observe _ _), run_bind]
  rcases callDivide user slot lhs rhs (m.observe (.slotCall side)) with ⟨e | value, m'⟩
  · rfl
  · dsimp only
    split
    · rfl
    · rfl

/-- What is left to do once all slots have declined: coercion where it is allowed, or a refusal. -/
def divideWithoutSlots (user : UserSlots) (entry : EntryPoint) (leftType rightType : ObjectType)
    (lhs rhs : Value) : MachineM Value := do
  if mayCoerce entry leftType rightType then
    match ← divideByCoercion user leftType rightType lhs rhs with
    | some value => return value
    | none => refuseOperands entry leftType rightType
  else refuseOperands entry leftType rightType

/-- The slot protocol for operands whose types are found. -/
theorem run_divideBySlots (user : UserSlots) {entry : EntryPoint} {lhs rhs : Value} {m : Machine}
    {leftType rightType : ObjectType}
    (hl : operandType entry entry.left m lhs = .ok leftType)
    (hr : operandType entry entry.right m rhs = .ok rightType) :
    divideBySlots user entry lhs rhs m =
      (divideByCandidates user lhs rhs (candidates entry leftType rightType) >>= fun value? =>
        match value? with
        | some value => pure value
        | none => divideWithoutSlots user entry leftType rightType lhs rhs) m := by
  unfold divideBySlots
  rw [run_get_bind, hl, hr]
  rfl

/-- The slot protocol where nothing is known of the operands. -/
theorem run_divideBySlots_generic (user : UserSlots) (level : Level) (lhs rhs : Value)
    (m : Machine) :
    divideBySlots user (.generic level) lhs rhs m =
      (divideByCandidates user lhs rhs (candidates (.generic level) (m.typeOf lhs) (m.typeOf rhs))
        >>= fun value? =>
        match value? with
        | some value => pure value
        | none =>
          divideWithoutSlots user (.generic level) (m.typeOf lhs) (m.typeOf rhs) lhs rhs) m :=
  run_divideBySlots user rfl rfl

theorem run_divideToPending (user : UserSlots) (entry : EntryPoint) (lhs rhs : Value)
    (m : Machine) :
    divideToPending user entry lhs rhs m = match divideToTruth user entry lhs rhs m with
      | (.ok truth, m') => (some truth, m')
      | (.error e, m') => (none, { m' with pending := some e }) := by
  simp only [divideToPending, StateT.bind, bind, ExceptT.run]
  rcases divideToTruth user entry lhs rhs m with ⟨_ | _, _⟩
  · rfl
  · rfl

theorem run_divideTakingPending (user : UserSlots) (entry : EntryPoint) (lhs rhs : Value)
    (m : Machine) :
    divideTakingPending user entry lhs rhs m = match divideToTruth user entry lhs rhs m with
      | (.ok truth, m') => (.ok truth, m')
      | (.error e, m') => (.error e, { m' with pending := none }) := by
  have lifted : (liftM (divideToPending user entry lhs rhs) : MachineM (Option Bool)) m =
      (.ok (divideToPending user entry lhs rhs m).1, (divideToPending user entry lhs rhs m).2) :=
    rfl
  unfold divideTakingPending
  rw [run_bind_ok lifted, run_divideToPending]
  rcases divideToTruth user entry lhs rhs m with ⟨_ | _, _⟩
  · rfl
  · rfl

end FloorDivision
