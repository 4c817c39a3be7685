import FloorDivision.Division.FastPath
import FloorDivision.Machine.BuiltinSlot
import FloorDivision.Proofs.Heap.Cells
import FloorDivision.Proofs.Machine.Run

/-!
# Values of one kind of number

* `typeOf_of_isExact` — a value of exactly one kind has the type of that kind.
* `numeric?_bool`, `numeric?_int`, `numeric?_float`, `numeric?_long` — numbers that stand for themselves.
* `exists_longOperand` — native division and the slot of integers read the same number.
* `toDouble?_eq` — what a number is taken for as a double, the conversion of longs being a parameter.
-/

namespace FloorDivision

namespace Heap

@[simp] theorem numeric?_int (heap : Heap) (n : Int64) :
    heap.numeric? (.int n) = some (.int n) := by
  unfold numeric?
  cases heap.cells.size <;> rfl

@[simp] theorem numeric?_bool (heap : Heap) (b : Bool) :
    heap.numeric? (.bool b) = some (.int (if b then 1 else 0)) := by
  unfold numeric?
  cases heap.cells.size <;> rfl

@[simp] theorem numeric?_float (heap : Heap) (x : Double) :
    heap.numeric? (.float x) = some (.float x) := by
  unfold numeric?
  cases heap.cells.size <;> rfl

theorem numeric?_long {heap : Heap} {id : Nat} {n : Int}
    (h : heap.content? id = some (.long n)) : heap.numeric? (.ref id) = some (.long n) := by
  have hsize := lt_size_of_content? h
  unfold numeric?
  cases hcells : heap.cells.size with
  | zero => omega
  | succ fuel =>
    unfold numericLoop
    rw [h]

end Heap

variable {m : Machine} {value : Value} {kind : NumberKind}

theorem exists_content_of_isExact_long {id : Nat} (h : m.isExact (.ref id) .long = true) :
    ∃ n, m.heap.content? id = some (.long n) := by
  unfold Machine.isExact at h
  dsimp only at h
  split at h
  · rename_i n hn
    exact ⟨n, hn⟩
  · cases h

/-- A value of exactly one kind has the type of that kind. -/
theorem typeOf_of_isExact (h : m.isExact value kind = true) :
    m.typeOf value = .number m.level kind := by
  cases kind with
  | int =>
    cases value with
    | int n => simp_all [Machine.isExact, Machine.typeOf, ObjectType.smallInt, ObjectType.smallIntKind]
    | none | notImplemented | bool | float | ref => simp [Machine.isExact] at h
  | long =>
    cases value with
    | int n => simp_all [Machine.isExact, Machine.typeOf, ObjectType.smallInt, ObjectType.smallIntKind]
    | ref id =>
      obtain ⟨n, hn⟩ := exists_content_of_isExact_long h
      simp [Machine.typeOf, hn]
    | none | notImplemented | bool | float => simp [Machine.isExact] at h
  | float =>
    cases value with
    | float x => rfl
    | none | notImplemented | bool | int | ref => simp [Machine.isExact] at h

/-- Native division and the slot read the same integer off an operand. -/
theorem exists_longOperand (h : m.isExact value .long = true) :
    ∃ a, m.longOperand? value = some a ∧ (m.heap.numeric? value).bind (·.integer?) = some a := by
  cases value with
  | int n => exact ⟨n.toInt, rfl, by rw [Heap.numeric?_int]; rfl⟩
  | ref id =>
    obtain ⟨n, hn⟩ := exists_content_of_isExact_long h
    refine ⟨n, ?_, by rw [Heap.numeric?_long hn]; rfl⟩
    unfold Machine.longOperand?
    simp only [hn]
  | none | notImplemented | bool | float => simp [Machine.isExact] at h

/-! ## Doubles -/

/--
The double that a number is taken for.  The conversion of longs is a parameter, so that what holds
of every conversion is proved without running the one in use.
-/
def toDoubleBy (ofLong? : Int → Option Double) (level : Level) (number? : Option Numeric) :
    MachineM (Option Double) :=
  match number? with
  | some (.float x) => return some x
  | some (.int n) => return some (.ofInt n.toInt)
  | some (.long n) =>
    match ofLong? n with
    | some x => return some x
    | none => throw (.raised (.integerTooLargeForFloat level))
  | none => return none

theorem toDouble?_eq (value : Value) :
    BuiltinSlot.toDouble? value =
      get >>= fun m => toDoubleBy Double.ofLong? m.level (m.heap.numeric? value) := by
  unfold BuiltinSlot.toDouble? toDoubleBy
  rfl

/-- The machine is only read. -/
theorem run_toDoubleBy (ofLong? : Int → Option Double) (level : Level) (number? : Option Numeric)
    (m : Machine) :
    (∃ x?, toDoubleBy ofLong? level number? m = (.ok x?, m)) ∨
      ∃ e, toDoubleBy ofLong? level number? m = (.error e, m) := by
  unfold toDoubleBy
  split
  · exact Or.inl ⟨_, rfl⟩
  · exact Or.inl ⟨_, rfl⟩
  · rename_i n
    cases ofLong? n with
    | some x => exact Or.inl ⟨_, rfl⟩
    | none => exact Or.inr ⟨_, rfl⟩
  · exact Or.inl ⟨_, rfl⟩

theorem run_toDouble? (value : Value) (m : Machine) :
    (∃ x?, BuiltinSlot.toDouble? value m = (.ok x?, m)) ∨
      ∃ e, BuiltinSlot.toDouble? value m = (.error e, m) := by
  rw [toDouble?_eq, MachineM.run_get_bind]
  exact run_toDoubleBy _ _ _ m

theorem run_toDouble?_float (x : Double) (m : Machine) :
    BuiltinSlot.toDouble? (.float x) m = (.ok (some x), m) := by
  rw [toDouble?_eq, MachineM.run_get_bind, Heap.numeric?_float]
  generalize Double.ofLong? = ofLong?
  rfl

end FloorDivision
