import FloorDivision.Proofs.Heap.Cells
import Mathlib.Data.List.Perm.Subperm
import Mathlib.Data.Multiset.AddSub
import Mathlib.Data.Multiset.Count

/-!
# The ledger of references

Code outside a heap holds some references to its cells, the cells hold others.

* `Heap.Balanced` — every cell counts the references that are held from outside and by cells, and
  the free cells are those that are not live.
* `Balanced.allocate`, `Balanced.retain`, `Balanced.release` — what becomes of the references held
  from outside.
* `Heap.Keeps` — what is reached from some of the references held is left as it is.
* `Heap.Releases` — a release cell by cell, each one that is met being live.
-/

namespace FloorDivision

/-- The reference that a value is, if it is one. -/
def Value.refs (value : Value) : Multiset Nat := ↑value.ref?.toList

/-- The reference that a content holds, if it has a payload that is one. -/
def Content.refs (content : Content) : Multiset Nat := ↑content.child?.toList

@[simp] theorem Value.refs_ref (id : Nat) : (Value.ref id).refs = {id} := rfl

theorem Value.refs_eq_zero {value : Value} (h : value.ref? = Option.none) : value.refs = 0 := by
  unfold refs
  rw [h]
  rfl

theorem Content.refs_eq_zero {content : Content} (h : content.child? = none) :
    content.refs = 0 := by
  unfold refs
  rw [h]
  rfl

theorem Content.refs_eq_singleton {content : Content} {child : Nat}
    (h : content.child? = some child) : content.refs = {child} := by
  unfold refs
  rw [h]
  rfl

namespace Heap

theorem count_payload (cell : Cell) (k : Nat) :
    (payload (some cell)).count k = cell.content.refs.count k := (Multiset.coe_count ..).symm

/-- The account of a heap of which code outside holds these references. -/
structure Balanced (heap : Heap) (held : Multiset Nat) : Prop where
  counted : ∀ id, heap.references id = held.count id + heap.payloads.count id
  positive : ∀ id cell, heap.cell? id = some cell → 0 < cell.references
  nodup : heap.free.Nodup
  mem_free : ∀ id, id ∈ heap.free ↔ id < heap.cells.size ∧ heap.cell? id = none

variable {heap heap' : Heap} {held kept : Multiset Nat} {id k : Nat} {cell : Cell}

/-! ## What a balanced account tells -/

theorem balanced_empty (budget : Meter) : Balanced { budget } 0 where
  counted := fun id => by
    rw [references_eq_zero (by unfold cell?; rfl)]
    rfl
  positive := fun id cell h => absurd (lt_size_of_cell? h) (Nat.not_lt_zero _)
  nodup := List.nodup_nil
  mem_free := fun id => by simp

theorem exists_cell_of_references (h : 0 < heap.references id) :
    ∃ cell, heap.cell? id = some cell := by
  cases hc : heap.cell? id with
  | some cell => exact ⟨cell, rfl⟩
  | none =>
    rw [references_eq_zero hc] at h
    cases h

/-- A reference that is held from outside or by a cell is live. -/
theorem Balanced.live (h : heap.Balanced held) (hid : id ∈ held ∨ id ∈ heap.payloads) :
    ∃ cell, heap.cell? id = some cell := by
  have hcount := h.counted id
  have hpositive : 0 < held.count id ∨ 0 < heap.payloads.count id :=
    hid.imp Multiset.count_pos.mpr List.count_pos_iff.mpr
  exact exists_cell_of_references (by omega)

theorem Balanced.live_last (h : heap.Balanced (held + {id})) : ∃ cell, heap.cell? id = some cell :=
  h.live (Or.inl (Multiset.mem_add.mpr (Or.inr (Multiset.mem_singleton_self id))))

/-- A cell that is not live is held by nobody. -/
theorem Balanced.count_of_dead (h : heap.Balanced held) (hid : heap.cell? id = none) :
    held.count id = 0 ∧ heap.payloads.count id = 0 := by
  have hcount := h.counted id
  rw [references_eq_zero hid] at hcount
  omega

/-- Where a cell is live, not all are free. -/
theorem Balanced.length_free_lt (h : heap.Balanced held) (hid : heap.cell? id = some cell) :
    heap.free.length < heap.cells.size := by
  have hfree : id ∉ heap.free := fun hmem => by
    rw [((h.mem_free id).mp hmem).2] at hid
    cases hid
  have hsub : (id :: heap.free) ⊆ List.range heap.cells.size := by
    intro k hk
    rw [List.mem_range]
    rcases List.mem_cons.mp hk with rfl | hk
    · exact lt_size_of_cell? hid
    · exact ((h.mem_free k).mp hk).1
  have := (List.subperm_of_subset (List.nodup_cons.mpr ⟨hfree, h.nodup⟩) hsub).length_le
  rwa [List.length_cons, List.length_range] at this

/-! ## What is reached from held references -/

/-- The cells that some references lead to, through payloads. -/
inductive Reaches (heap : Heap) (kept : Multiset Nat) : Nat → Prop where
  | held {id : Nat} : id ∈ kept → Reaches heap kept id
  | payload {id child : Nat} {content : Content} :
      Reaches heap kept id → heap.content? id = some content → content.child? = some child →
        Reaches heap kept child

/-- What is reached from some references holds the same as before. -/
def Keeps (heap : Heap) (kept : Multiset Nat) (heap' : Heap) : Prop :=
  ∀ id, heap.Reaches kept id → heap'.content? id = heap.content? id

theorem mem_payloads {content : Content} (h : heap.content? id = some content)
    (hk : content.child? = some k) : k ∈ heap.payloads := by
  unfold content? at h
  obtain ⟨cell, hcell, rfl⟩ := Option.map_eq_some_iff.mp h
  have hcells : heap.cells[id]? = some (some cell) := by
    unfold cell? at hcell
    exact Option.join_eq_some_iff.mp hcell
  refine List.mem_flatMap.mpr ⟨some cell, ?_, ?_⟩
  · exact Array.mem_toList_iff.mpr (Array.mem_of_getElem? hcells)
  · show k ∈ cell.content.child?.toList
    rw [hk]
    exact List.mem_singleton.mpr rfl

/-- What is reached is held from outside or by a cell. -/
theorem Reaches.mem (h : heap.Reaches kept id) : id ∈ kept ∨ id ∈ heap.payloads := by
  cases h with
  | held h => exact Or.inl h
  | payload _ hcontent hchild => exact Or.inr (mem_payloads hcontent hchild)

theorem Reaches.mono {kept' : Multiset Nat} (h : heap.Reaches kept id)
    (hsub : ∀ k ∈ kept, k ∈ kept') : heap.Reaches kept' id := by
  induction h with
  | held h => exact .held (hsub _ h)
  | payload _ hcontent hchild ih => exact .payload ih hcontent hchild

theorem Keeps.reaches (hk : heap.Keeps kept heap') (h : heap.Reaches kept id) :
    heap'.Reaches kept id := by
  induction h with
  | held h => exact .held h
  | payload h hcontent hchild ih => exact .payload ih ((hk _ h).trans hcontent) hchild

theorem Keeps.refl (heap : Heap) (kept : Multiset Nat) : heap.Keeps kept heap := fun _ _ => rfl

theorem Keeps.trans {heap'' : Heap} (h : heap.Keeps kept heap') (h' : heap'.Keeps kept heap'') :
    heap.Keeps kept heap'' := fun id hid => (h' id (h.reaches hid)).trans (h id hid)

theorem Keeps.mono {kept' : Multiset Nat} (h : heap.Keeps kept' heap')
    (hsub : ∀ k ∈ kept, k ∈ kept') : heap.Keeps kept heap' := fun id hid => h id (hid.mono hsub)

/-- Cells that are not reached may change. -/
theorem Keeps.of_cells (h : ∀ k, k ≠ id → heap'.cell? k = heap.cell? k)
    (hid : ¬heap.Reaches kept id) : heap.Keeps kept heap' := by
  intro k hk
  unfold content?
  rw [h k fun hkid => hid (hkid ▸ hk)]

/-! ## Allocation -/

/-- A cell that was not live is filled with one reference to it. -/
theorem Balanced.fill {content : Content} (h : heap.Balanced (held + content.refs))
    (hdead : heap.cell? id = none)
    (hcell : ∀ k, heap'.cell? k = if k = id then some ⟨1, content⟩ else heap.cell? k)
    (hpayloads : ∀ k, heap'.payloads.count k = heap.payloads.count k + content.refs.count k)
    (hnodup : heap'.free.Nodup)
    (hfree : ∀ k, k ∈ heap'.free ↔ k < heap'.cells.size ∧ heap'.cell? k = none) :
    heap'.Balanced (held + {id}) where
  counted := fun k => by
    have hcount := h.counted k
    have hnone := h.count_of_dead hdead
    rw [Multiset.count_add] at hcount hnone
    rw [hpayloads, Multiset.count_add, Multiset.count_singleton]
    unfold references at hcount ⊢
    rw [hcell]
    by_cases hk : k = id
    · subst hk
      rw [if_pos rfl, if_pos rfl]
      show 1 = _
      omega
    · rw [if_neg hk, if_neg hk]
      omega
  positive := fun k cell hk => by
    rw [hcell] at hk
    split at hk
    · cases hk
      exact Nat.one_pos
    · exact h.positive k cell hk
  nodup := hnodup
  mem_free := hfree

/-- The cell freed last is filled. -/
theorem Balanced.fill_free {content : Content} {free : List Nat} (budget : Meter)
    (h : heap.Balanced (held + content.refs)) (hfree : heap.free = id :: free) :
    Balanced { heap.put id (some ⟨1, content⟩) with free, budget } (held + {id}) ∧
      heap.cell? id = none ∧
      ∀ k, (heap.put id (some ⟨1, content⟩)).cell? k =
        if k = id then some ⟨1, content⟩ else heap.cell? k := by
  have hmem : id ∈ heap.free := by rw [hfree]; exact List.mem_cons_self
  obtain ⟨hsize, hdead⟩ := (h.mem_free id).mp hmem
  have hnodup := h.nodup
  rw [hfree, List.nodup_cons] at hnodup
  have hcell : ∀ k, (heap.put id (some ⟨1, content⟩)).cell? k =
      if k = id then some ⟨1, content⟩ else heap.cell? k := fun k => cell?_put hsize _
  have hpayloads : ∀ k, (heap.put id (some ⟨1, content⟩)).payloads.count k =
      heap.payloads.count k + content.refs.count k := fun k => by
    have hput := count_payloads_put hsize (some ⟨1, content⟩) (k := k)
    rwa [hdead, count_payload] at hput
  refine ⟨h.fill hdead hcell hpayloads hnodup.2 fun k => ?_, hdead, hcell⟩
  have hold := h.mem_free k
  rw [hfree, List.mem_cons] at hold
  show k ∈ free ↔ k < (heap.put id _).cells.size ∧ (heap.put id (some ⟨1, content⟩)).cell? k = none
  rw [size_put, hcell]
  by_cases hk : k = id
  · subst hk
    simp [hnodup.1]
  · rw [if_neg hk, ← hold]
    simp [hk]

/-- Where no cell is free, all are live, and one is added. -/
theorem Balanced.fill_push {content : Content} (budget : Meter)
    (h : heap.Balanced (held + content.refs)) (hfree : heap.free = []) :
    Balanced { heap.push ⟨1, content⟩ with budget } (held + {heap.cells.size}) ∧
      heap.cell? heap.cells.size = none ∧
      ∀ k, (heap.push ⟨1, content⟩).cell? k =
        if k = heap.cells.size then some ⟨1, content⟩ else heap.cell? k := by
  have hdead : heap.cell? heap.cells.size = none := by
    cases hc : heap.cell? heap.cells.size with
    | none => rfl
    | some cell => exact absurd (lt_size_of_cell? hc) (Nat.lt_irrefl _)
  have hcell : ∀ k, (heap.push ⟨1, content⟩).cell? k =
      if k = heap.cells.size then some ⟨1, content⟩ else heap.cell? k := fun k => cell?_push _
  have hpayloads : ∀ k, (heap.push ⟨1, content⟩).payloads.count k =
      heap.payloads.count k + content.refs.count k := fun k => by
    rw [count_payloads_push, count_payload]
  have hlive : ∀ k, k < heap.cells.size → heap.cell? k ≠ none := fun k hk hnone => by
    have hmem := (h.mem_free k).mpr ⟨hk, hnone⟩
    rw [hfree] at hmem
    cases hmem
  refine ⟨h.fill hdead hcell hpayloads h.nodup fun k => ?_, hdead, hcell⟩
  show k ∈ heap.free ↔ k < (heap.cells.push _).size ∧ (heap.push ⟨1, content⟩).cell? k = none
  rw [hfree, hcell, Array.size_push]
  by_cases hk : k = heap.cells.size
  · simp [hk]
  · rw [if_neg hk]
    constructor
    · intro hmem
      cases hmem
    · rintro ⟨hsize, hnone⟩
      exact absurd hnone (hlive k (by omega))

theorem Balanced.allocate {content : Content} (h : heap.Balanced (held + content.refs))
    (ha : heap.allocate content = .ok (id, heap')) :
    heap'.Balanced (held + {id}) ∧ heap.cell? id = none ∧
      ∀ k, heap'.cell? k = if k = id then some ⟨1, content⟩ else heap.cell? k := by
  obtain ⟨budget, _, ⟨free, hfree, rfl⟩ | ⟨hfree, rfl, rfl⟩⟩ := allocate_cases ha
  · exact h.fill_free budget hfree
  · exact h.fill_push budget hfree

/-- A long is put into a cell of its own, to which there is one reference more. -/
theorem Balanced.allocate_long {n : Int} (h : heap.Balanced held)
    (ha : heap.allocate (.long n) = .ok (id, heap')) :
    heap'.Balanced (held + {id}) ∧ heap'.content? id = some (.long n) ∧
      ∀ k, k ≠ id → heap'.cell? k = heap.cell? k := by
  have hlong : heap.Balanced (held + (Content.long n).refs) := by
    rwa [show (Content.long n).refs = 0 from rfl, Multiset.add_zero]
  obtain ⟨hbalanced, _, hcells⟩ := hlong.allocate ha
  have hcell := hcells id
  rw [if_pos rfl] at hcell
  exact ⟨hbalanced, content?_eq hcell, fun k hk => (hcells k).trans (if_neg hk)⟩

/-! ## One reference more, one less -/

/-- A live cell counts another number of references. -/
theorem Balanced.recount {held' : Multiset Nat} {n : Nat} (h : heap.Balanced held)
    (hcell : heap.cell? id = some cell) (hn : 0 < n)
    (hheld : ∀ k, held'.count k + (if k = id then cell.references else 0) =
      held.count k + if k = id then n else 0) :
    (heap.put id (some { cell with references := n })).Balanced held' := by
  have hsize := lt_size_of_cell? hcell
  have hcell' := fun k => cell?_put (k := k) hsize (some { cell with references := n })
  refine ⟨fun k => ?_, fun k other hk => ?_, h.nodup, fun k => ?_⟩
  · have hcount := h.counted k
    have hpayloads := count_payloads_put hsize (some { cell with references := n }) (k := k)
    have hk := hheld k
    rw [hcell, count_payload, count_payload] at hpayloads
    dsimp only at hpayloads
    rw [references_put hsize]
    by_cases hkid : k = id
    · subst hkid
      rw [references_eq hcell] at hcount
      rw [if_pos rfl] at hk ⊢
      rw [if_pos rfl] at hk
      show n = _
      omega
    · rw [if_neg hkid] at hk ⊢
      rw [if_neg hkid] at hk
      omega
  · rw [hcell'] at hk
    split at hk
    · cases hk
      exact hn
    · exact h.positive k other hk
  · show k ∈ heap.free ↔ _
    rw [size_put, hcell', h.mem_free]
    by_cases hkid : k = id
    · subst hkid
      simp [hcell]
    · rw [if_neg hkid]

theorem Balanced.retain (h : heap.Balanced held) (hid : id ∈ held) :
    (heap.retain id).Balanced (held + {id}) ∧
      ∀ k, (heap.retain id).content? k = heap.content? k := by
  obtain ⟨cell, hcell⟩ := h.live (Or.inl hid)
  refine ⟨?_, content?_retain heap id⟩
  unfold Heap.retain
  rw [hcell]
  refine h.recount hcell (Nat.succ_pos _) fun k => ?_
  rw [Multiset.count_add, Multiset.count_singleton]
  split
  · omega
  · omega

/-- A cell that counts one reference, which is held from outside, is held by nobody else. -/
theorem Balanced.count_of_last (h : heap.Balanced (held + {id})) (hcell : heap.cell? id = some cell)
    (hlast : cell.references ≤ 1) : held.count id = 0 ∧ heap.payloads.count id = 0 := by
  have hcount := h.counted id
  rw [references_eq hcell, Multiset.count_add, Multiset.count_singleton_self] at hcount
  omega

/-- The last reference to a cell goes, and what the cell held is held from outside instead. -/
theorem Balanced.discard (h : heap.Balanced (held + {id})) (hcell : heap.cell? id = some cell)
    (hlast : cell.references ≤ 1) :
    (heap.discard id cell.content).Balanced (held + cell.content.refs) ∧
      heap.Keeps held (heap.discard id cell.content) := by
  have hsize := lt_size_of_cell? hcell
  obtain ⟨hheld, hpayloads⟩ := h.count_of_last hcell hlast
  have hcell' : ∀ k, (heap.discard id cell.content).cell? k =
      if k = id then none else heap.cell? k := fun k => cell?_put hsize none
  have hchild : ∀ k, (heap.discard id cell.content).payloads.count k + cell.content.refs.count k =
      heap.payloads.count k := fun k => by
    have hput := count_payloads_put hsize none (k := k)
    rwa [hcell, count_payload] at hput
  have hfree : id ∉ heap.free := fun hmem => by
    rw [((h.mem_free id).mp hmem).2] at hcell
    cases hcell
  refine ⟨⟨fun k => ?_, fun k other hk => ?_, List.nodup_cons.mpr ⟨hfree, h.nodup⟩, fun k => ?_⟩,
    Keeps.of_cells (fun k hk => (hcell' k).trans (if_neg hk)) fun hreach => ?_⟩
  · have hk := h.counted k
    have := hchild k
    rw [Multiset.count_add, Multiset.count_singleton] at hk
    rw [Multiset.count_add]
    unfold references at hk ⊢
    rw [hcell']
    by_cases hkid : k = id
    · subst hkid
      rw [if_pos rfl]
      show 0 = _
      omega
    · rw [if_neg hkid] at hk ⊢
      omega
  · rw [hcell'] at hk
    split at hk
    · cases hk
    · exact h.positive k other hk
  · show k ∈ id :: heap.free ↔ k < (heap.put id none).cells.size ∧ _
    rw [List.mem_cons, h.mem_free, size_put, hcell']
    by_cases hkid : k = id
    · subst hkid
      simp [hsize]
    · simp [hkid]
  · rcases hreach.mem with hmem | hmem
    · have := Multiset.count_pos.mpr hmem
      omega
    · have := List.count_pos_iff.mpr hmem
      omega

/-! ## Releases -/

/-- A release, cell by cell: a cell that is shared counts one reference less, the last reference to
a cell frees it and goes on with its payload.  There is no rule for a cell that is not live. -/
inductive Releases : Heap → Nat → Heap → Prop where
  | shared {heap : Heap} {id : Nat} {cell : Cell} :
      heap.cell? id = some cell → 1 < cell.references →
        Releases heap id (heap.put id (some { cell with references := cell.references - 1 }))
  | last {heap : Heap} {id : Nat} {cell : Cell} :
      heap.cell? id = some cell → cell.references = 1 → cell.content.child? = none →
        Releases heap id (heap.discard id cell.content)
  | chain {heap heap' : Heap} {id child : Nat} {cell : Cell} :
      heap.cell? id = some cell → cell.references = 1 → cell.content.child? = some child →
        Releases (heap.discard id cell.content) child heap' → Releases heap id heap'

/-- Every round of a release but the last one adds a free cell, so there are enough rounds. -/
theorem Balanced.releaseLoop (fuel : Nat) (h : heap.Balanced (held + {id}))
    (hfuel : heap.cells.size ≤ fuel + heap.free.length) :
    heap.Releases id (heap.releaseLoop fuel id) := by
  induction fuel generalizing heap id with
  | zero =>
    obtain ⟨cell, hcell⟩ := h.live_last
    have := h.length_free_lt hcell
    omega
  | succ fuel ih =>
    obtain ⟨cell, hcell⟩ := h.live_last
    unfold Heap.releaseLoop
    rw [hcell]
    dsimp only
    split
    · rename_i hmany
      exact .shared hcell hmany
    · rename_i hlast
      have hone : cell.references = 1 := by
        have := h.positive id cell hcell
        omega
      split
      · rename_i child hchild
        refine .chain hcell hone hchild (ih ?_ ?_)
        · rw [← Content.refs_eq_singleton hchild]
          exact (h.discard hcell hone.le).1
        · show (heap.put id none).cells.size ≤ fuel + (id :: heap.free).length
          rw [size_put, List.length_cons]
          omega
      · rename_i hchild
        exact .last hcell hone hchild

/-- **A release meets live cells only, and comes to an end.** -/
theorem Balanced.releases (h : heap.Balanced (held + {id})) :
    heap.Releases id (heap.release id) :=
  h.releaseLoop heap.cells.size (Nat.le_add_right _ _)

theorem Releases.balanced (h : heap.Releases id heap') (hb : heap.Balanced (held + {id})) :
    heap'.Balanced held ∧ heap.Keeps held heap' := by
  induction h with
  | @shared _ _ cell hcell hmany =>
    refine ⟨hb.recount hcell (by omega) fun k => ?_, fun k _ => content?_recount hcell _⟩
    rw [Multiset.count_add, Multiset.count_singleton]
    split
    · omega
    · omega
  | last hcell hone hchild =>
    have hdiscard := hb.discard hcell hone.le
    rwa [Content.refs_eq_zero hchild, Multiset.add_zero] at hdiscard
  | chain hcell hone hchild _ ih =>
    obtain ⟨hbalanced, hkeeps⟩ := hb.discard hcell hone.le
    rw [Content.refs_eq_singleton hchild] at hbalanced
    obtain ⟨hrest, hkept⟩ := ih hbalanced
    exact ⟨hrest, hkeeps.trans hkept⟩

theorem Balanced.release (h : heap.Balanced (held + {id})) :
    (heap.release id).Balanced held ∧ heap.Keeps held (heap.release id) :=
  h.releases.balanced h

end Heap

end FloorDivision
