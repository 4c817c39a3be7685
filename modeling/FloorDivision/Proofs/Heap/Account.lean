import FloorDivision.Proofs.Heap.Cells
import FloorDivision.Proofs.Machine.Meter

/-!
# The account of a heap

* `Content.bytes`, `Heap.liveBytes` — the bytes of one content and of all that is live, without
  bound.
* `Limits.Within` — numbers that stay within both limits.
* `Heap.Accounted` — the account has counted every allocation and has exactly the live bytes, and it
  is within the limits.
* `Accounted.allocate`, `Accounted.retain`, `Accounted.releaseLoop` — every operation keeps it so, a
  release after each cell that it frees.
* `Accounted.allocate_error_iff`, `Accounted.refused_iff` — an allocation is refused if it would
  leave the limits, and only then.
-/

namespace FloorDivision

/-! ## Bytes -/

/-- The bytes that a content is estimated to take. -/
def Content.bytes : Content → Nat
  | .long value => longSize value
  | .instanceOf .. => 24

theorem Content.size_eq (content : Content) : content.size = .ofNat content.bytes := by
  cases content with
  | long | instanceOf => rfl

/-- The numbers are within both limits; a number of allocations is a machine word. -/
structure Limits.Within (limits : Limits) (allocations : UInt64) (bytes : Nat) : Prop where
  allocations : ∀ max, limits.maxAllocations = some max → allocations ≤ max
  bytes : ∀ max, limits.maxMemory = some max → bytes ≤ max.toNat

namespace Heap

variable {heap heap' : Heap} {id : Nat} {cell : Cell} {content : Content}

/-- The bytes of all live cells. -/
def liveBytes (heap : Heap) : Nat :=
  heap.live.foldr (fun cell bytes => cell.content.bytes + bytes) 0

/-- The bytes of a cell; one that is not live takes none. -/
def cellBytes : Option Cell → Nat
  | some cell => cell.content.bytes
  | none => 0

/-- The bytes of a list of cells, live or not. -/
def bytesOf (cells : List (Option Cell)) : Nat :=
  cells.foldr (fun cell bytes => cellBytes cell + bytes) 0

theorem bytesOf_cons (cell : Option Cell) (cells : List (Option Cell)) :
    bytesOf (cell :: cells) = cellBytes cell + bytesOf cells := rfl

theorem liveBytes_eq (heap : Heap) : heap.liveBytes = bytesOf heap.cells.toList := by
  unfold liveBytes live
  induction heap.cells.toList with
  | nil => rfl
  | cons cell cells ih =>
    rw [bytesOf_cons, ← ih]
    cases cell with
    | none =>
      show _ = 0 + _
      rw [Nat.zero_add]
      rfl
    | some cell => rfl

theorem bytesOf_append (cells : List (Option Cell)) (cell : Option Cell) :
    bytesOf (cells ++ [cell]) = bytesOf cells + cellBytes cell := by
  induction cells with
  | nil => simp [bytesOf]
  | cons first cells ih => rw [List.cons_append, bytesOf_cons, bytesOf_cons, ih, Nat.add_assoc]

/-- Writing one cell changes the bytes by what was there and what is there now. -/
theorem bytesOf_set (new : Option Cell) :
    ∀ (cells : List (Option Cell)) (i : Nat) (h : i < cells.length),
      bytesOf (cells.set i new) + cellBytes cells[i] = bytesOf cells + cellBytes new
  | [], _, h => absurd h (Nat.not_lt_zero _)
  | first :: cells, 0, _ => by
    simp only [List.set_cons_zero, bytesOf_cons, List.getElem_cons_zero]
    omega
  | first :: cells, i + 1, h => by
    have ih := bytesOf_set new cells i (Nat.lt_of_succ_lt_succ h)
    simp only [List.set_cons_succ, bytesOf_cons, List.getElem_cons_succ]
    omega

theorem liveBytes_put (h : id < heap.cells.size) (new : Option Cell) :
    (heap.put id new).liveBytes + cellBytes (heap.cell? id) = heap.liveBytes + cellBytes new := by
  have hlength : id < heap.cells.toList.length := by simpa using h
  have hset := bytesOf_set new heap.cells.toList id hlength
  have hcell : heap.cell? id = heap.cells.toList[id] := by
    unfold cell?
    rw [Array.getElem?_eq_getElem h]
    rfl
  rw [liveBytes_eq, liveBytes_eq, hcell]
  unfold put
  rw [Array.toList_setIfInBounds]
  exact hset

theorem liveBytes_push (new : Cell) :
    (heap.push new).liveBytes = heap.liveBytes + new.content.bytes := by
  rw [liveBytes_eq, liveBytes_eq]
  unfold push
  rw [Array.toList_push]
  exact bytesOf_append _ _

/-- Counting references anew changes no bytes. -/
theorem liveBytes_recount (h : heap.cell? id = some cell) (n : Nat) :
    (heap.put id (some { cell with references := n })).liveBytes = heap.liveBytes := by
  have hput := liveBytes_put (lt_size_of_cell? h) (some { cell with references := n })
  rw [h] at hput
  simp only [cellBytes] at hput
  omega

/-- Filling a cell that is not live adds the bytes of the content. -/
theorem liveBytes_fill (hid : id < heap.cells.size) (hdead : heap.cell? id = none)
    (content : Content) :
    (heap.put id (some ⟨1, content⟩)).liveBytes = heap.liveBytes + content.bytes := by
  have hput := liveBytes_put hid (some ⟨1, content⟩)
  rw [hdead] at hput
  exact hput

/-- The bytes of a live cell are among the live bytes. -/
theorem liveBytes_discard (h : heap.cell? id = some cell) :
    (heap.discard id cell.content).liveBytes + cell.content.bytes = heap.liveBytes := by
  have hput := liveBytes_put (lt_size_of_cell? h) none
  rw [h] at hput
  exact hput

/-! ## Exact accounts -/

/-- The account is exact after so many allocations, and within the limits. -/
structure Accounted (limits : Limits) (allocations : Nat) (heap : Heap) : Prop where
  budget : heap.budget = .counting limits (.ofNat allocations) (.ofNat heap.liveBytes)
  bytes_lt : heap.liveBytes < UInt64.size
  within : limits.Within (.ofNat allocations) heap.liveBytes
  /-- Under any limit but the greatest word the number of allocations is less than a word holds. -/
  unwrapped : ∀ max, limits.maxAllocations = some max → max.toNat + 1 < UInt64.size →
    allocations ≤ max.toNat
  free_dead : ∀ id ∈ heap.free, id < heap.cells.size ∧ heap.cell? id = none
  free_nodup : heap.free.Nodup

variable {limits : Limits} {n : Nat}

/-- An empty heap has an exact account. -/
theorem accounted_empty (limits : Limits) :
    Accounted limits 0 { budget := .counting limits 0 0 } where
  budget := rfl
  bytes_lt := show 0 < UInt64.size by decide
  within := ⟨fun _ _ => UInt64.zero_le, fun _ _ => Nat.zero_le _⟩
  unwrapped := fun _ _ _ => Nat.zero_le _
  free_dead := by simp
  free_nodup := List.nodup_nil

namespace Accounted

/-- The words that are compared with the limits stand for the numbers. -/
theorem charge_eq (h : heap.Accounted limits n) (content : Content) :
    heap.budget.charge content.size =
      (Meter.counting limits (.ofNat n) (.ofNat heap.liveBytes)).charge (.ofNat content.bytes) := by
  rw [h.budget, content.size_eq]

/-- Counting references anew keeps the account exact. -/
theorem recount (h : heap.Accounted limits n) (hcell : heap.cell? id = some cell) (k : Nat) :
    (heap.put id (some { cell with references := k })).Accounted limits n := by
  have hbytes := liveBytes_recount hcell k
  refine ⟨?_, by rw [hbytes]; exact h.bytes_lt, by rw [hbytes]; exact h.within, h.unwrapped,
    fun j hj => ?_, h.free_nodup⟩
  · rw [hbytes]
    exact h.budget
  · obtain ⟨hlt, hdead⟩ := h.free_dead j hj
    have hne : j ≠ id := by
      rintro rfl
      rw [hcell] at hdead
      cases hdead
    rw [size_put, cell?_put (lt_size_of_cell? hcell), if_neg hne]
    exact ⟨hlt, hdead⟩

theorem retain (h : heap.Accounted limits n) (id : Nat) : (heap.retain id).Accounted limits n := by
  unfold Heap.retain
  split
  · rename_i cell hcell
    exact h.recount hcell _
  · exact h

/-- The bytes of a live cell are refunded without a rest. -/
theorem refund_eq (h : heap.Accounted limits n) (hcell : heap.cell? id = some cell) :
    heap.budget.refund cell.content.size =
      .counting limits (.ofNat n) (.ofNat (heap.liveBytes - cell.content.bytes)) := by
  have hsum := liveBytes_discard hcell
  have hlt := h.bytes_lt
  have hle : UInt64.ofNat cell.content.bytes ≤ .ofNat heap.liveBytes :=
    (UInt64.ofNat_le_iff_le (by omega) hlt).mpr (by omega)
  rw [h.budget, cell.content.size_eq]
  show Meter.counting _ _ _ = _
  rw [if_pos hle, UInt64.ofNat_sub (by omega)]

/-- Freeing a cell keeps the account exact. -/
theorem discard (h : heap.Accounted limits n) (hcell : heap.cell? id = some cell) :
    (heap.discard id cell.content).Accounted limits n := by
  have hsum := liveBytes_discard hcell
  have hbytes : (heap.discard id cell.content).liveBytes = heap.liveBytes - cell.content.bytes := by
    omega
  have hlt := h.bytes_lt
  have hid := lt_size_of_cell? hcell
  have cells : ∀ k,
      (heap.discard id cell.content).cell? k = if k = id then none else heap.cell? k :=
    fun k => cell?_put hid none
  refine ⟨?_, by omega, ⟨h.within.allocations, fun max hmax => ?_⟩, h.unwrapped, fun j hj => ?_, ?_⟩
  · rw [hbytes]
    exact h.refund_eq hcell
  · have := h.within.bytes max hmax
    omega
  · rw [cells]
    show j < (heap.put id none).cells.size ∧ _
    rw [size_put]
    rcases List.mem_cons.mp hj with rfl | hj
    · exact ⟨hid, if_pos rfl⟩
    · obtain ⟨hlt, hdead⟩ := h.free_dead j hj
      refine ⟨hlt, ?_⟩
      split
      · rfl
      · exact hdead
  · refine List.nodup_cons.mpr ⟨fun hmem => ?_, h.free_nodup⟩
    have hdead := (h.free_dead id hmem).2
    rw [hcell] at hdead
    cases hdead

/-- The account is exact after every round of a release. -/
theorem releaseLoop (h : heap.Accounted limits n) (rounds id : Nat) :
    (heap.releaseLoop rounds id).Accounted limits n := by
  induction rounds generalizing heap id with
  | zero => exact h
  | succ rounds ih =>
    unfold Heap.releaseLoop
    split
    · exact h
    · rename_i cell hcell
      split
      · exact h.recount hcell _
      · split
        · exact ih (h.discard hcell) _
        · exact h.discard hcell

/-- What is charged: one allocation more and the bytes of the content. -/
theorem charge_cases (h : heap.Accounted limits n)
    (hfit : heap.liveBytes + content.bytes < UInt64.size) {budget : Meter}
    (hcharge : heap.budget.charge content.size = .ok budget) :
    budget = .counting limits (.ofNat (n + 1)) (.ofNat (heap.liveBytes + content.bytes)) ∧
      limits.Within (.ofNat (n + 1)) (heap.liveBytes + content.bytes) := by
  rw [h.charge_eq] at hcharge
  obtain ⟨hbudget, hcount, hbytes⟩ := Meter.charge_cases hcharge
  rw [← UInt64.ofNat_add] at hbudget hbytes
  refine ⟨hbudget.trans (congrArg (Meter.counting limits · _) (UInt64.ofNat_add n 1).symm), ?_, ?_⟩
  · intro max hmax
    rw [UInt64.ofNat_add]
    exact hcount max hmax
  · intro max hmax
    have hle := UInt64.le_iff_toNat_le.mp (hbytes max hmax)
    rwa [UInt64.toNat_ofNat_of_lt' hfit] at hle

/-- Under any limit but the greatest word, one allocation more does not wrap the count. -/
theorem unwrapped_succ (h : heap.Accounted limits n) {bytes : Nat}
    (hwithin : limits.Within (.ofNat (n + 1)) bytes) (max : UInt64)
    (hmax : limits.maxAllocations = some max) (hsmall : max.toNat + 1 < UInt64.size) :
    n + 1 ≤ max.toNat := by
  have hn := h.unwrapped max hmax hsmall
  have hle := UInt64.le_iff_toNat_le.mp (hwithin.allocations max hmax)
  rwa [UInt64.toNat_ofNat_of_lt' (by omega)] at hle

/-- **An allocation that is not refused keeps the account exact.** -/
theorem allocate (h : heap.Accounted limits n)
    (hfit : heap.liveBytes + content.bytes < UInt64.size)
    (ha : heap.allocate content = .ok (id, heap')) : heap'.Accounted limits (n + 1) := by
  obtain ⟨budget, hcharge, hplace⟩ := allocate_cases ha
  obtain ⟨rfl, hwithin⟩ := h.charge_cases hfit hcharge
  have hcount := h.unwrapped_succ hwithin
  rcases hplace with ⟨free, hfree, rfl⟩ | ⟨hfree, rfl, rfl⟩
  · have hmem : id ∈ heap.free := by rw [hfree]; exact List.mem_cons_self
    obtain ⟨hid, hdead⟩ := h.free_dead id hmem
    have hnodup := h.free_nodup
    rw [hfree] at hnodup
    obtain ⟨hnot, hnodup⟩ := List.nodup_cons.mp hnodup
    have hbytes := liveBytes_fill hid hdead content
    refine ⟨congrArg _ (congrArg _ hbytes.symm), hbytes ▸ hfit, hbytes ▸ hwithin, hcount,
      fun j hj => ?_, hnodup⟩
    · have hne : j ≠ id := by
        rintro rfl
        exact hnot hj
      obtain ⟨hlt, hj⟩ := h.free_dead j (by rw [hfree]; exact List.mem_cons_of_mem _ hj)
      show j < (heap.put id _).cells.size ∧ (heap.put id _).cell? j = none
      rw [size_put, cell?_put hid, if_neg hne]
      exact ⟨hlt, hj⟩
  · have hbytes : (heap.push ⟨1, content⟩).liveBytes = heap.liveBytes + content.bytes :=
      liveBytes_push _
    refine ⟨congrArg _ (congrArg _ hbytes.symm), hbytes ▸ hfit, hbytes ▸ hwithin, hcount,
      fun j hj => ?_, h.free_nodup⟩
    · replace hj : j ∈ heap.free := hj
      rw [hfree] at hj
      cases hj

/-! ## Refused allocations -/

/-- **How an allocation is refused**: the number of allocations is looked at first. -/
theorem allocate_error_iff (h : heap.Accounted limits n)
    (hfit : heap.liveBytes + content.bytes < UInt64.size) {refusal : Refusal} :
    heap.allocate content = .error refusal ↔
      (∃ max, limits.maxAllocations = some max ∧ max < .ofNat (n + 1) ∧
        refusal = .allocations max (.ofNat (n + 1))) ∨
      ((∀ max, limits.maxAllocations = some max → .ofNat (n + 1) ≤ max) ∧
        ∃ max, limits.maxMemory = some max ∧ max.toNat < heap.liveBytes + content.bytes ∧
          refusal = .memory max (.ofNat (heap.liveBytes + content.bytes))) := by
  have hcharge : heap.allocate content = .error refusal ↔
      heap.budget.charge content.size = .error refusal := by
    unfold Heap.allocate
    cases heap.budget.charge content.size with
    | error => simp
    | ok budget =>
      cases heap.free with
      | nil => simp
      | cons => simp
  have hpast : ∀ max : UInt64, max < .ofNat (heap.liveBytes + content.bytes) ↔
      max.toNat < heap.liveBytes + content.bytes := by
    intro max
    rw [UInt64.lt_iff_toNat_lt, UInt64.toNat_ofNat_of_lt' hfit]
  have hcount : UInt64.ofNat n + 1 = .ofNat (n + 1) := (UInt64.ofNat_add n 1).symm
  rw [hcharge, h.charge_eq, Meter.charge_error_iff, ← UInt64.ofNat_add, hcount]
  simp only [hpast]

/-- **An allocation is refused if it would leave the limits**, and only then. -/
theorem refused_iff (h : heap.Accounted limits n)
    (hfit : heap.liveBytes + content.bytes < UInt64.size) :
    (∃ refusal, heap.allocate content = .error refusal) ↔
      ¬limits.Within (.ofNat (n + 1)) (heap.liveBytes + content.bytes) := by
  constructor
  · rintro ⟨refusal, hrefused⟩ hwithin
    rcases (h.allocate_error_iff hfit).mp hrefused with
      ⟨max, hmax, hpast, _⟩ | ⟨_, max, hmax, hpast, _⟩
    · exact absurd hpast (UInt64.not_lt.mpr (hwithin.allocations max hmax))
    · exact absurd hpast (Nat.not_lt.mpr (hwithin.bytes max hmax))
  · intro hnot
    cases ha : heap.allocate content with
    | error refusal => exact ⟨refusal, rfl⟩
    | ok filled =>
      obtain ⟨budget, hcharge, _⟩ := allocate_cases ha
      exact absurd (h.charge_cases hfit hcharge).2 hnot

end Accounted

end Heap

end FloorDivision
