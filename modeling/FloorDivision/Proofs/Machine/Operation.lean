import FloorDivision.Proofs.Machine.Meter
import FloorDivision.Proofs.Machine.Run

/-!
# What is done to a machine, operation by operation

* `Operation` — one thing that is done to a machine, and `Machine.after`, what a list of them makes
  of it.
* `MachineM.Runs` — a computation does these operations on a machine, one after the other.
* `Machine.Throughout` — something is true before and after every operation.
* `Runs.after`, `Runs.depth_le` — the operations are all that a computation does to a machine.  It
  leaves the nesting as deep as it was, and never beyond the bound.
-/

namespace FloorDivision

variable {α β : Type}

/-! ## Operations -/

/-- One thing that is done to a machine. -/
inductive Operation where
  | allocate (content : Content)
  | retain (value : Value)
  | release (value : Value)
  | observe (event : Event)
  | note (call : SlotCall)
  | setPending (failure? : Option Failure)
  | setTracer (tracer : Tracer)
  | enter
  | leave

namespace Operation

/-- What the operation makes of a machine; a refused allocation leaves it as it is. -/
def perform (m : Machine) : Operation → Machine
  | allocate content => (MachineM.allocate content m).2
  | retain value => m.retainValue value
  | release value => m.releaseValue value
  | observe event => m.observe event
  | note call => { m with journal := m.journal.push call }
  | setPending failure? => { m with pending := failure? }
  | setTracer tracer => { m with tracer }
  | enter => { m with depth := m.depth + 1 }
  | leave => { m with depth := m.depth - 1 }

/-- The operation is an allocation that the machine refuses. -/
def Refused (m : Machine) : Operation → Prop
  | allocate content => ∃ refusal, m.heap.allocate content = .error refusal
  | _ => False

/-- The operation is an allocation that the machine does not refuse. -/
def fills (m : Machine) : Operation → Bool
  | allocate content => (m.heap.allocate content).isOk
  | _ => false

end Operation

namespace Machine

/-- The machine after operations. -/
def after (m : Machine) (operations : List Operation) : Machine :=
  operations.foldl Operation.perform m

@[simp] theorem after_nil (m : Machine) : m.after [] = m := rfl

@[simp] theorem after_cons (m : Machine) (operation : Operation) (rest : List Operation) :
    m.after (operation :: rest) = (operation.perform m).after rest := rfl

@[simp] theorem after_append (m : Machine) (first rest : List Operation) :
    m.after (first ++ rest) = (m.after first).after rest := List.foldl_append

/-- Something is true of the machine before and after every operation. -/
def Throughout (P : Machine → Prop) (m : Machine) (operations : List Operation) : Prop :=
  ∀ before, before <+: operations → P (m.after before)

variable {P : Machine → Prop} {m : Machine} {operation : Operation}
  {first operations rest : List Operation}

theorem throughout_nil : Throughout P m [] ↔ P m := by
  unfold Throughout
  simp [List.prefix_nil]

theorem throughout_cons :
    Throughout P m (operation :: rest) ↔ P m ∧ Throughout P (operation.perform m) rest := by
  constructor
  · intro h
    exact ⟨h [] List.nil_prefix, fun before hbefore =>
      h (operation :: before) (List.prefix_cons_inj operation |>.mpr hbefore)⟩
  · rintro ⟨hnow, hlater⟩ before hbefore
    rcases List.prefix_cons_iff.mp hbefore with rfl | ⟨before, rfl, hrest⟩
    · exact hnow
    · exact hlater before hrest

theorem throughout_append :
    Throughout P m (first ++ rest) ↔ Throughout P m first ∧ Throughout P (m.after first) rest := by
  induction first generalizing m with
  | nil =>
    rw [List.nil_append, throughout_nil, after_nil]
    exact ⟨fun h => ⟨h [] List.nil_prefix, h⟩, And.right⟩
  | cons operation first ih =>
    rw [List.cons_append, throughout_cons, ih, throughout_cons, after_cons, and_assoc]

/-- No allocation among the operations is refused. -/
def Unrefused : Machine → List Operation → Prop
  | _, [] => True
  | m, operation :: rest => ¬operation.Refused m ∧ Unrefused (operation.perform m) rest

/-- How many allocations among the operations are not refused. -/
def allocations : Machine → List Operation → Nat
  | _, [] => 0
  | m, operation :: rest => (operation.fills m).toNat + allocations (operation.perform m) rest

end Machine

/-! ## What operations leave as it is -/

/-- A part of a meter that neither charges nor refunds change. -/
structure Meter.Fixed (part : Meter → β) : Prop where
  charge : ∀ {size meter meter'}, Meter.charge size meter = .ok meter' → part meter' = part meter
  refund : ∀ size meter, part (Meter.refund size meter) = part meter

theorem Meter.fixed_maxDepth : Meter.Fixed Meter.maxDepth := ⟨maxDepth_charge, maxDepth_refund⟩

theorem Heap.charge_of_allocate {heap heap' : Heap} {content : Content} {id : Nat}
    (h : heap.allocate content = .ok (id, heap')) :
    heap.budget.charge content.size = .ok heap'.budget := by
  unfold allocate at h
  split at h
  · cases h
  · rename_i budget hcharge
    rw [hcharge]
    split at h
    · cases h
      rfl
    · cases h
      rfl

theorem Heap.budget_retain (heap : Heap) (id : Nat) : (heap.retain id).budget = heap.budget := by
  unfold retain
  split
  · rfl
  · rfl

section Fixed

variable {part : Meter → β} (hp : Meter.Fixed part)

include hp

theorem Meter.Fixed.releaseLoop (fuel id : Nat) (heap : Heap) :
    part (heap.releaseLoop fuel id).budget = part heap.budget := by
  induction fuel generalizing heap id with
  | zero => rfl
  | succ fuel ih =>
    unfold Heap.releaseLoop
    split
    · rfl
    · split
      · rfl
      · split
        · exact (ih _ _).trans (hp.refund _ _)
        · exact hp.refund _ _

theorem Meter.Fixed.perform (m : Machine) (operation : Operation) :
    part (operation.perform m).heap.budget = part m.heap.budget := by
  cases operation with
  | allocate content =>
    show part (MachineM.allocate content m).2.heap.budget = _
    unfold MachineM.allocate
    split
    · rename_i ha
      exact hp.charge (Heap.charge_of_allocate ha)
    · rfl
  | retain value =>
    cases value with
    | ref id => exact congrArg part (m.heap.budget_retain id)
    | none | notImplemented | bool | int | float => rfl
  | release value =>
    cases value with
    | ref id => exact hp.releaseLoop _ id m.heap
    | none | notImplemented | bool | int | float => rfl
  | observe | note | setPending | setTracer | enter | leave => rfl

theorem Meter.Fixed.after (m : Machine) (operations : List Operation) :
    part (m.after operations).heap.budget = part m.heap.budget := by
  induction operations generalizing m with
  | nil => rfl
  | cons operation rest ih => exact (ih _).trans (hp.perform m operation)

end Fixed

/-! ## The operations that a computation does -/

namespace MachineM

/-- Keeps a failure for later, or none any longer. -/
def setPending (failure? : Option Failure) : MachineM Unit :=
  modify fun machine => { machine with pending := failure? }

def setTracer (tracer : Tracer) : MachineM Unit := modify fun machine => { machine with tracer }

/-- Goes on with what a first computation came to, be it a failure or not. -/
def resume (first : MachineM α) (next : Except Failure α → MachineM β) : MachineM β := fun m =>
  next (first m).1 (first m).2

/-- The computation is an operation by itself. -/
inductive Performs : {α : Type} → MachineM α → Operation → Prop where
  | allocate (content : Content) : Performs (allocate content) (.allocate content)
  | retain (value : Value) : Performs (retain value) (.retain value)
  | release (value : Value) : Performs (release value) (.release value)
  | observe (event : Event) : Performs (observe event) (.observe event)
  | note (call : SlotCall) : Performs (note call) (.note call)
  | setPending (failure? : Option Failure) : Performs (setPending failure?) (.setPending failure?)
  | setTracer (tracer : Tracer) : Performs (setTracer tracer) (.setTracer tracer)

/-- The operations that the computation does on a machine, in order. -/
inductive Runs : {α : Type} → MachineM α → Machine → List Operation → Prop where
  | answer {α : Type} (x : α) (m : Machine) : Runs (pure x) m []
  | fail {α : Type} (e : Failure) (m : Machine) : Runs (throw e : MachineM α) m []
  | single {α : Type} {a : MachineM α} {operation : Operation} (m : Machine) :
      Performs a operation → Runs a m [operation]
  | look {α : Type} {f : Machine → MachineM α} {m : Machine} {operations : List Operation} :
      Runs (f m) m operations → Runs (get >>= f) m operations
  | resume {α β : Type} {a : MachineM α} {next : Except Failure α → MachineM β} {m : Machine}
      {first rest : List Operation} :
      Runs a m first → Runs (next (a m).1) (a m).2 rest → Runs (a.resume next) m (first ++ rest)
  /-- A division that is entered and left. -/
  | nested {α : Type} {a : Nat → MachineM α} {m : Machine} {operations : List Operation} :
      m.heap.budget.checkDepth m.depth = .ok () →
        Runs (a (m.depth + 1)) (Operation.enter.perform m) operations →
        Runs (do let depth ← enter; leaving (a depth)) m (.enter :: operations ++ [.leave])
  | tooDeep {α : Type} {a : Nat → MachineM α} {m : Machine} {refusal : Refusal} :
      m.heap.budget.checkDepth m.depth = .error refusal →
        Runs (do let depth ← enter; leaving (a depth)) m []

variable {m : Machine} {operations : List Operation}

theorem Performs.after {a : MachineM α} {operation : Operation} (h : Performs a operation)
    (m : Machine) : (a m).2 = operation.perform m := by
  cases h with
  | allocate | retain | release | observe | note | setPending | setTracer => rfl

theorem run_nested {a : Nat → MachineM α} (h : m.heap.budget.checkDepth m.depth = .ok ()) :
    (do let depth ← enter; leaving (a depth)) m =
      let inside := a (m.depth + 1) (Operation.enter.perform m)
      (inside.1, Operation.leave.perform inside.2) := by
  rw [run_bind]
  unfold enter
  rw [h]
  rfl

theorem run_nested_error {a : Nat → MachineM α} {refusal : Refusal}
    (h : m.heap.budget.checkDepth m.depth = .error refusal) :
    (do let depth ← enter; leaving (a depth)) m = (.error refusal.failure, m) := by
  rw [run_bind]
  unfold enter
  rw [h]

/-- **The operations are all that a computation does to a machine.** -/
theorem Runs.after {a : MachineM α} (h : Runs a m operations) : (a m).2 = m.after operations := by
  induction h with
  | answer | fail => rfl
  | single m ha => exact ha.after m
  | look _ ih => exact ih
  | resume _ _ ihfirst ihrest => exact ihrest.trans (by rw [ihfirst, Machine.after_append])
  | nested hdepth _ ih =>
    rw [run_nested hdepth]
    show Operation.leave.perform (_ : Except Failure _ × Machine).2 = _
    rw [ih, List.cons_append, Machine.after_cons, Machine.after_append]
    rfl
  | tooDeep hdepth =>
    rw [run_nested_error hdepth]
    rfl

/-! ## How deep divisions are nested while a computation runs -/

theorem Performs.depth {a : MachineM α} {operation : Operation} (h : Performs a operation)
    (m : Machine) : (operation.perform m).depth = m.depth := by
  cases h with
  | allocate content =>
    show (MachineM.allocate content m).2.depth = _
    unfold MachineM.allocate
    split
    · rfl
    · rfl
  | retain | release | observe | note | setPending | setTracer => rfl

/-- A computation leaves the nesting as deep as it was. -/
theorem Runs.depth_eq {a : MachineM α} (h : Runs a m operations) : (a m).2.depth = m.depth := by
  induction h with
  | answer | fail => rfl
  | single m ha =>
    rw [ha.after]
    exact ha.depth m
  | look _ ih => exact ih
  | resume _ _ ihfirst ihrest => exact ihrest.trans ihfirst
  | nested hdepth _ ih =>
    rw [run_nested hdepth]
    show (_ : Except Failure _ × Machine).2.depth - 1 = _
    rw [ih]
    rfl
  | tooDeep hdepth => rw [run_nested_error hdepth]

/-- **At no moment are divisions nested beyond the bound** while a computation runs. -/
theorem Runs.depth_le {a : MachineM α} {limit : UInt64} (h : Runs a m operations)
    (hlimit : m.heap.budget.maxDepth = limit) (hm : m.depth ≤ limit.toNat) :
    Machine.Throughout (fun m => m.depth ≤ limit.toNat) m operations := by
  induction h with
  | answer | fail | tooDeep => exact Machine.throughout_nil.mpr hm
  | single m ha =>
    refine Machine.throughout_cons.mpr ⟨hm, Machine.throughout_nil.mpr ?_⟩
    rwa [ha.depth]
  | look _ ih => exact ih hlimit hm
  | resume hfirst _ ihfirst ihrest =>
    refine Machine.throughout_append.mpr ⟨ihfirst hlimit hm, ?_⟩
    rw [← hfirst.after]
    refine ihrest ?_ ?_
    · rw [hfirst.after, Meter.fixed_maxDepth.after, hlimit]
    · rwa [hfirst.depth_eq]
  | @nested _ a m inner hdepth hinner ih =>
    have hbelow : m.depth + 1 ≤ limit.toNat := by
      unfold Meter.checkDepth at hdepth
      rw [hlimit] at hdepth
      split at hdepth
      · assumption
      · cases hdepth
    have hend : ((Operation.enter.perform m).after inner).depth = m.depth + 1 := by
      rw [← hinner.after]
      exact hinner.depth_eq
    refine Machine.throughout_append.mpr
      ⟨Machine.throughout_cons.mpr ⟨hm, ih hlimit hbelow⟩, Machine.throughout_cons.mpr ⟨?_, ?_⟩⟩
    · rw [Machine.after_cons, hend]
      exact hbelow
    · refine Machine.throughout_nil.mpr ?_
      show ((Operation.enter.perform m).after inner).depth - 1 ≤ _
      rw [hend]
      exact hm

end MachineM

end FloorDivision
