import FloorDivision.Machine.Heap

/-!
# Cells of a heap

What operations on a heap make of each of its cells.

* `cell?_put`, `cell?_push` — only the cell that is written changes.
* `allocate_cases` — an allocation fills the cell freed last or adds one.
* `Heap.references`, `Heap.payloads` — the references that a cell counts, and those that the cells
  hold themselves.
-/

namespace FloorDivision.Heap

variable {heap : Heap} {id k : Nat} {cell : Cell}

theorem lt_size_of_cell? (h : heap.cell? id = some cell) : id < heap.cells.size := by
  refine Nat.lt_of_not_le fun hid => ?_
  unfold cell? at h
  rw [Array.getElem?_eq_none hid] at h
  cases h

/-- A live reference is to one of the cells. -/
theorem lt_size_of_content? {content : Content} (h : heap.content? id = some content) :
    id < heap.cells.size := by
  unfold content? at h
  obtain ⟨cell, hcell, _⟩ := Option.map_eq_some_iff.mp h
  exact lt_size_of_cell? hcell

theorem content?_eq (h : heap.cell? id = some cell) : heap.content? id = some cell.content := by
  unfold content?
  rw [h]
  rfl

@[simp] theorem size_put (new : Option Cell) :
    (heap.put id new).cells.size = heap.cells.size := Array.size_setIfInBounds

theorem cell?_put (h : id < heap.cells.size) (new : Option Cell) :
    (heap.put id new).cell? k = if k = id then new else heap.cell? k := by
  unfold cell? put
  rw [Array.getElem?_setIfInBounds]
  by_cases hk : k = id
  · rw [if_pos hk.symm, if_pos hk, if_pos h]
    rfl
  · rw [if_neg (Ne.symm hk), if_neg hk]

/-- Counting references anew leaves every content as it is. -/
theorem content?_recount (h : heap.cell? id = some cell) (n : Nat) :
    (heap.put id (some { cell with references := n })).content? k = heap.content? k := by
  unfold content?
  rw [cell?_put (lt_size_of_cell? h)]
  by_cases hk : k = id
  · subst hk
    rw [if_pos rfl, h]
    rfl
  · rw [if_neg hk]

theorem content?_retain (heap : Heap) (id k : Nat) :
    (heap.retain id).content? k = heap.content? k := by
  unfold retain
  cases hcell : heap.cell? id with
  | none => rfl
  | some cell => exact content?_recount hcell _

theorem content?_retainValue (heap : Heap) (value : Value) (k : Nat) :
    (heap.retainValue value).content? k = heap.content? k := by
  cases value with
  | none | notImplemented | bool | int | float => rfl
  | ref id => exact content?_retain heap id k

/-- The heap with one more cell. -/
def push (heap : Heap) (new : Cell) : Heap := { heap with cells := heap.cells.push (some new) }

theorem cell?_push (new : Cell) :
    (heap.push new).cell? k = if k = heap.cells.size then some new else heap.cell? k := by
  unfold cell? push
  rw [Array.getElem?_push]
  by_cases hk : k = heap.cells.size
  · rw [if_pos hk, if_pos hk]
    rfl
  · rw [if_neg hk, if_neg hk]

/-- What an allocation that is not refused does. -/
theorem allocate_cases {content : Content} {heap' : Heap}
    (h : heap.allocate content = .ok (id, heap')) :
    ∃ budget, heap.budget.charge content.size = .ok budget ∧
      ((∃ free, heap.free = id :: free ∧
          heap' = { heap.put id (some ⟨1, content⟩) with free, budget }) ∨
        (heap.free = [] ∧ id = heap.cells.size ∧
          heap' = { heap.push ⟨1, content⟩ with budget })) := by
  unfold allocate at h
  split at h
  · cases h
  · rename_i budget hcharge
    split at h
    · rename_i id' free hfree
      obtain ⟨rfl, rfl⟩ := Prod.mk.inj (Except.ok.inj h)
      exact ⟨budget, hcharge, Or.inl ⟨free, hfree, rfl⟩⟩
    · rename_i hfree
      obtain ⟨rfl, rfl⟩ := Prod.mk.inj (Except.ok.inj h)
      exact ⟨budget, hcharge, Or.inr ⟨hfree, rfl, rfl⟩⟩

/-! ## References in a heap -/

/-- How many references a cell counts; one that is not live counts none. -/
def references (heap : Heap) (id : Nat) : Nat :=
  match heap.cell? id with
  | some cell => cell.references
  | none => 0

/-- The reference that a cell holds, if it is live and has a payload that is one. -/
def payload (cell : Option Cell) : List Nat := (cell.bind (·.content.child?)).toList

/-- The references that the cells hold. -/
def payloads (heap : Heap) : List Nat := heap.cells.toList.flatMap payload

theorem references_eq (h : heap.cell? id = some cell) : heap.references id = cell.references := by
  unfold references
  rw [h]

theorem references_eq_zero (h : heap.cell? id = none) : heap.references id = 0 := by
  unfold references
  rw [h]

theorem references_put (h : id < heap.cells.size) (new : Option Cell) :
    (heap.put id new).references k =
      if k = id then (new.map (·.references)).getD 0 else heap.references k := by
  unfold references
  rw [cell?_put h]
  by_cases hk : k = id
  · rw [if_pos hk, if_pos hk]
    cases new <;> rfl
  · rw [if_neg hk, if_neg hk]

/-- Writing one element changes a concatenation by what that element contributes. -/
private theorem count_flatMap_set {α : Type} (f : α → List Nat) (new : α) (k : Nat) :
    ∀ (l : List α) (i : Nat) (h : i < l.length),
      ((l.set i new).flatMap f).count k + (f l[i]).count k =
        (l.flatMap f).count k + (f new).count k
  | [], _, h => absurd h (Nat.not_lt_zero _)
  | a :: l, 0, _ => by
    simp only [List.set_cons_zero, List.flatMap_cons, List.count_append, List.getElem_cons_zero]
    omega
  | a :: l, i + 1, h => by
    have ih := count_flatMap_set f new k l i (Nat.lt_of_succ_lt_succ h)
    simp only [List.set_cons_succ, List.flatMap_cons, List.count_append, List.getElem_cons_succ]
    omega

theorem count_payloads_put (h : id < heap.cells.size) (new : Option Cell) :
    (heap.put id new).payloads.count k + (payload (heap.cell? id)).count k =
      heap.payloads.count k + (payload new).count k := by
  have hlength : id < heap.cells.toList.length := by simpa using h
  have hset := count_flatMap_set payload new k heap.cells.toList id hlength
  have hcell : heap.cell? id = heap.cells.toList[id] := by
    unfold cell?
    rw [Array.getElem?_eq_getElem h]
    rfl
  unfold payloads put
  rw [Array.toList_setIfInBounds, hcell]
  exact hset

theorem count_payloads_push (new : Cell) :
    (heap.push new).payloads.count k = heap.payloads.count k + (payload (some new)).count k := by
  unfold payloads push
  rw [Array.toList_push, List.flatMap_append, List.count_append]
  simp

end FloorDivision.Heap
