import FloorDivision.Proofs.Heap.Runs
import FloorDivision.Proofs.Machine.Run

/-!
# Instances that are refused

A new instance takes over the reference to its payload, and a refused one does not give it back, so
that nobody holds a reference which the payload's cell goes on counting.

* `Sound.exists_cell_of_last` — a cell to which nothing but one reference leads counts just this one.
* `refused_instance_keeps_payload` — what is live once all other references are given back.
-/

namespace FloorDivision

open MachineM Relation

namespace Heap

variable {heap : Heap} {id k : Nat}

/-- What is reached from one reference is named along the way. -/
theorem Reaches.names (h : heap.Reaches {id} k) : ReflTransGen heap.Names id k := by
  induction h with
  | held hmem => rw [Multiset.mem_singleton.mp hmem]
  | payload _ hcontent hchild ih => exact ih.tail ⟨_, hcontent, hchild⟩

/-- **The only reference to a heap is the only one that its cell counts**: a live cell that names it
would be reached from it. -/
theorem Sound.exists_cell_of_last (h : heap.Sound {id}) :
    ∃ content, heap.cell? id = some ⟨1, content⟩ := by
  obtain ⟨cell, hcell⟩ := h.balanced.live (Or.inl (Multiset.mem_singleton_self id))
  have hunnamed : heap.payloads.count id = 0 := by
    refine List.count_eq_zero.mpr fun hmem => ?_
    obtain ⟨parent, hnames, hlive⟩ := exists_names hmem
    exact h.acyclic id (TransGen.tail' (h.reaches hlive).names hnames)
  have hcount := h.balanced.counted id
  rw [references_eq hcell, Multiset.count_singleton_self, hunnamed, Nat.add_zero] at hcount
  exact ⟨cell.content, by rw [hcell, ← hcount]⟩

end Heap

variable {m m' : Machine} {type : ObjectType} {payload : Value} {held : Multiset Nat} {e : Failure}

/-- A refused instance leaves the machine as it is. -/
theorem eq_of_newInstance_error (h : newInstance type payload m = (.error e, m')) : m' = m := by
  unfold newInstance allocate at h
  split at h
  · cases h
  · cases h
    rfl

/--
**A refused instance keeps the reference to its payload.**

The refusal leaves the machine as it is, and with it the reference that was handed over.  Once all
the references that the code still has are given back, in any order, nothing is live if the payload
has no cell.  If it has one, that cell counts the one reference that nobody has, and what it leads to
is live and nothing else.
-/
theorem refused_instance_keeps_payload (hsound : m.heap.Sound (held + payload.refs))
    (hrun : newInstance type payload m = (.error e, m')) :
    m' = m ∧ ∀ refs : List Nat, ↑refs = held →
      let last := refs.foldl (fun heap id => heap.release id) m'.heap
      (payload.ref? = none → last.live = []) ∧
      ∀ id, payload = .ref id → (∃ content, last.cell? id = some ⟨1, content⟩) ∧
        ∀ k, (∃ cell, last.cell? k = some cell) ↔ last.Reaches {id} k := by
  obtain rfl := eq_of_newInstance_error hrun
  refine ⟨rfl, fun refs hrefs => ?_⟩
  rw [Multiset.add_comm, ← hrefs] at hsound
  have hlast := hsound.release_list
  refine ⟨fun hnone => ?_, ?_⟩
  · rw [Value.refs_eq_zero hnone] at hlast
    exact hlast.live_eq_nil
  · rintro id rfl
    exact ⟨hlast.exists_cell_of_last, fun k => hlast.live_iff⟩

/-- An instance on top of a long is refused, and the long stays. -/
theorem refused_instance_keeps_payload_long :
    let limits : Limits := { maxAllocations := some 1 }
    let heap : Heap := { cells := #[some ⟨1, .long 5⟩], budget := .counting limits 1 33 }
    let m : Machine := { config := { level := .legacy, limits }, heap }
    ∃ e, m.heap.Sound (0 + (Value.ref 0).refs) ∧
      newInstance .object (.ref 0) m = (.error e, m) ∧
      ∃ content, m.heap.cell? 0 = some ⟨1, content⟩ := by
  intro limits heap m
  have hsound : m.heap.Sound (0 + (Value.ref 0).refs) := by
    have filled : Heap.Step { budget := .counting limits 0 0 } (0 + (Content.long 5).refs) heap
      (0 + {0}) := .allocate rfl
    exact (Heap.sound_empty (.counting limits 0 0)).step filled
  have hrun : newInstance .object (.ref 0) m = (.error _, m) := rfl
  obtain ⟨-, hlast⟩ := refused_instance_keeps_payload hsound hrun
  exact ⟨_, hsound, hrun, ((hlast [] rfl).2 0 rfl).1⟩

end FloorDivision
