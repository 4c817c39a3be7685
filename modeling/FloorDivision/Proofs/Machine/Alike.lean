import FloorDivision.Division.Divide
import FloorDivision.Proofs.Machine.Meter

/-!
# Machines that differ in their accounts and tracers only

* `Heap.Alike` — the same cells and the same free ones; the accounts may differ but for the bound
  on nesting.
* `Machine.Alike` — machines with such heaps that agree in everything but limits, counts and tracer.
* `Alike.typeOf`, `Alike.numeric?`, `Alike.toObject` and the like — what is read off a machine
  during a division is the same for machines that are alike.
-/

namespace FloorDivision

/-- Heaps with the same cells, and accounts with the same bound on nesting. -/
structure Heap.Alike (heap heap' : Heap) : Prop where
  cells : heap.cells = heap'.cells
  free : heap.free = heap'.free
  maxDepth : heap.budget.maxDepth = heap'.budget.maxDepth

/-- Machines that agree in everything but heap limits, their counts and the tracer. -/
structure Machine.Alike (m m' : Machine) : Prop where
  level : m.level = m'.level
  heap : m.heap.Alike m'.heap
  pending : m.pending = m'.pending
  depth : m.depth = m'.depth
  journal : m.journal = m'.journal

namespace Heap.Alike

variable {heap heap' : Heap}

theorem refl (heap : Heap) : heap.Alike heap := ⟨rfl, rfl, rfl⟩

theorem cell? (h : heap.Alike heap') : heap.cell? = heap'.cell? := by
  funext id
  unfold Heap.cell?
  rw [h.cells]

theorem content? (h : heap.Alike heap') : heap.content? = heap'.content? := by
  funext id
  unfold Heap.content?
  rw [h.cell?]

theorem numericLoop (h : heap.Alike heap') (fuel : Nat) (value : Value) :
    heap.numericLoop fuel value = heap'.numericLoop fuel value := by
  induction fuel generalizing value with
  | zero => cases value <;> rfl
  | succ fuel ih =>
    cases value with
    | none | notImplemented | bool | int | float => rfl
    | ref id =>
      unfold Heap.numericLoop
      rw [h.content?]
      cases heap'.content? id with
      | none => rfl
      | some content =>
        cases content with
        | long => rfl
        | instanceOf type payload => exact ih payload

/-! ## Operations on heaps that are alike -/

theorem put (h : heap.Alike heap') (id : Nat) (new : Option Cell) :
    (heap.put id new).Alike (heap'.put id new) := by
  refine ⟨?_, h.free, h.maxDepth⟩
  unfold Heap.put
  rw [h.cells]

theorem retain (h : heap.Alike heap') (id : Nat) : (heap.retain id).Alike (heap'.retain id) := by
  unfold Heap.retain
  rw [h.cell?]
  cases heap'.cell? id with
  | none => exact h
  | some cell => exact h.put id _

theorem discard (h : heap.Alike heap') (id : Nat) (content : Content) :
    (heap.discard id content).Alike (heap'.discard id content) := by
  have hput := h.put id none
  refine ⟨hput.cells, ?_, ?_⟩
  · show id :: heap.free = id :: heap'.free
    rw [h.free]
  · show (heap.budget.refund content.size).maxDepth = (heap'.budget.refund content.size).maxDepth
    rw [Meter.maxDepth_refund, Meter.maxDepth_refund, h.maxDepth]

theorem releaseLoop (h : heap.Alike heap') (fuel id : Nat) :
    (heap.releaseLoop fuel id).Alike (heap'.releaseLoop fuel id) := by
  induction fuel generalizing heap heap' id with
  | zero => exact h
  | succ fuel ih =>
    unfold Heap.releaseLoop
    rw [h.cell?]
    cases heap'.cell? id with
    | none => exact h
    | some cell =>
      dsimp only
      split
      · exact h.put id _
      · split
        · exact ih (h.discard id _) _
        · exact h.discard id _

theorem release (h : heap.Alike heap') (id : Nat) : (heap.release id).Alike (heap'.release id) := by
  unfold Heap.release
  rw [h.cells]
  exact h.releaseLoop _ id

theorem retainValue (h : heap.Alike heap') (value : Value) :
    (heap.retainValue value).Alike (heap'.retainValue value) := by
  cases value with
  | ref id => exact h.retain id
  | none | notImplemented | bool | int | float => exact h

theorem releaseValue (h : heap.Alike heap') (value : Value) :
    (heap.releaseValue value).Alike (heap'.releaseValue value) := by
  cases value with
  | ref id => exact h.release id
  | none | notImplemented | bool | int | float => exact h

/-- Two allocations that are not refused fill the same cell. -/
theorem allocate (h : heap.Alike heap') {content : Content} {id id' : Nat} {after after' : Heap}
    (ha : heap.allocate content = .ok (id, after))
    (ha' : heap'.allocate content = .ok (id', after')) :
    id = id' ∧ after.Alike after' := by
  unfold Heap.allocate at ha ha'
  rw [← h.free, ← h.cells] at ha'
  split at ha
  · cases ha
  · rename_i budget hcharge
    split at ha'
    · cases ha'
    · rename_i budget' hcharge'
      have hdepth : budget.maxDepth = budget'.maxDepth := by
        rw [Meter.maxDepth_charge hcharge, Meter.maxDepth_charge hcharge', h.maxDepth]
      cases hfree : heap.free with
      | nil =>
        rw [hfree] at ha ha'
        cases ha
        cases ha'
        exact ⟨rfl, rfl, rfl, hdepth⟩
      | cons first free =>
        rw [hfree] at ha ha'
        cases ha
        cases ha'
        exact ⟨rfl, (h.put _ _).cells, rfl, hdepth⟩

end Heap.Alike

namespace Machine.Alike

variable {m m' : Machine}

theorem refl (m : Machine) : m.Alike m := ⟨rfl, .refl m.heap, rfl, rfl, rfl⟩

/-! ## What is read off a machine -/

theorem content? (h : m.Alike m') : m.heap.content? = m'.heap.content? := h.heap.content?

theorem numeric? (h : m.Alike m') : m.heap.numeric? = m'.heap.numeric? := by
  funext value
  unfold Heap.numeric?
  rw [h.heap.cells]
  exact h.heap.numericLoop _ value

theorem typeOf (h : m.Alike m') : m.typeOf = m'.typeOf := by
  funext value
  cases value <;> simp only [Machine.typeOf, h.level, h.content?]

theorem isExact (h : m.Alike m') : m.isExact = m'.isExact := by
  funext value kind
  cases kind <;> cases value <;> simp only [Machine.isExact, h.level, h.content?]

theorem toObject (h : m.Alike m') : m.toObject = m'.toObject := by
  funext value
  cases value <;> simp only [Machine.toObject, h.level, h.content?]

theorem longOperand? (h : m.Alike m') : m.longOperand? = m'.longOperand? := by
  funext value
  cases value <;> simp only [Machine.longOperand?, h.content?]

theorem fastKind? (h : m.Alike m') (entry : EntryPoint) :
    FloorDivision.fastKind? entry m = FloorDivision.fastKind? entry m' := by
  funext lhs rhs
  unfold FloorDivision.fastKind?
  rw [h.isExact]

theorem operandType (h : m.Alike m') (entry : EntryPoint) (shape : Shape) :
    FloorDivision.operandType entry shape m = FloorDivision.operandType entry shape m' := by
  funext value
  unfold FloorDivision.operandType
  rw [h.typeOf]

theorem checkDepth (h : m.Alike m') :
    m.heap.budget.checkDepth m.depth = m'.heap.budget.checkDepth m'.depth := by
  unfold Meter.checkDepth
  rw [h.heap.maxDepth, h.depth]

end Machine.Alike

end FloorDivision
