import FloorDivision.Proofs.Heap.Chains
import FloorDivision.Proofs.Heap.Ledger

/-!
# Runs of heap operations

Code that owns references allocates, retains and releases.  It uses, copies and gives back only the
references that it holds, and hands the one of a payload over to the instance.

* `Heap.Step`, `Heap.Run` — one such operation, and what a sequence of them makes of an empty heap.
* `Heap.Sound` — the account is balanced and no chain of payloads is a circle.  `Sound.step` says
  that every operation keeps this, `Run.sound` that every run does.
* `run_keeps_heap_sound` — what this comes to.
-/

namespace FloorDivision.Heap

open Relation

variable {heap heap' : Heap} {held held' : Multiset Nat} {id k : Nat} {cell : Cell}

/-- An operation by code that holds references, with those that it holds before and after.  A
payload that is a reference is no longer held, but by the instance; the refusal of such an instance
is left out. -/
inductive Step : Heap → Multiset Nat → Heap → Multiset Nat → Prop where
  | allocate {heap heap' : Heap} {held : Multiset Nat} {content : Content} {id : Nat} :
      heap.allocate content = .ok (id, heap') →
        Step heap (held + content.refs) heap' (held + {id})
  | refused {heap : Heap} {held : Multiset Nat} {content : Content} {refusal : Refusal} :
      heap.allocate content = .error refusal → content.refs = 0 → Step heap held heap held
  | retain {heap : Heap} {held : Multiset Nat} {id : Nat} :
      id ∈ held → Step heap held (heap.retain id) (held + {id})
  | release {heap : Heap} {held : Multiset Nat} {id : Nat} :
      Step heap (held + {id}) (heap.release id) held

/-- What operations make of an empty heap, and the references held then. -/
inductive Run (budget : Meter) : Heap → Multiset Nat → Prop where
  | empty : Run budget { budget } 0
  | step {heap heap' : Heap} {held held' : Multiset Nat} :
      Run budget heap held → Step heap held heap' held' → Run budget heap' held'

/-- The account is balanced, and no chain of payloads is a circle. -/
structure Sound (heap : Heap) (held : Multiset Nat) : Prop where
  balanced : heap.Balanced held
  acyclic : heap.Acyclic

/-! ## What an operation makes of the contents -/

theorem content?_discard (hcell : heap.cell? id = some cell) :
    (heap.discard id cell.content).content? k = if k = id then none else heap.content? k := by
  have hput : (heap.discard id cell.content).cell? k = if k = id then none else heap.cell? k :=
    cell?_put (lt_size_of_cell? hcell) none
  unfold content?
  rw [hput]
  split
  · rfl
  · rfl

/-- A release leaves the content of a cell as it is or takes it away. -/
theorem Releases.content? (h : heap.Releases id heap') (k : Nat) :
    heap'.content? k = heap.content? k ∨ heap'.content? k = none := by
  have discarded {heap : Heap} {id : Nat} {cell : Cell} (hcell : heap.cell? id = some cell) :
      (heap.discard id cell.content).content? k = heap.content? k ∨
        (heap.discard id cell.content).content? k = none := by
    rw [content?_discard hcell]
    split
    · exact Or.inr rfl
    · exact Or.inl rfl
  induction h with
  | shared hcell _ => exact Or.inl (content?_recount hcell _)
  | last hcell _ _ => exact discarded hcell
  | chain hcell _ _ _ ih =>
    rcases ih with hsame | hnone
    · rw [hsame]
      exact discarded hcell
    · exact Or.inr hnone

theorem Acyclic.releases (h : heap.Acyclic) (hreleases : heap.Releases id heap') :
    heap'.Acyclic := by
  refine h.mono fun parent child hnames => ?_
  obtain ⟨content, hcontent, hchild⟩ := hnames
  rcases hreleases.content? parent with hsame | hnone
  · exact ⟨content, hsame.symm.trans hcontent, hchild⟩
  · rw [hnone] at hcontent
    cases hcontent

/-- A reference that a cell holds is live. -/
theorem Balanced.live_of_names (h : heap.Balanced held) {parent child : Nat}
    (hnames : heap.Names parent child) : ∃ cell, heap.cell? child = some cell := by
  obtain ⟨content, hcontent, hchild⟩ := hnames
  exact h.live (Or.inr (mem_payloads hcontent hchild))

/-- A cell that is about to be filled is named by none, and does not name itself. -/
theorem Acyclic.allocate {content : Content} (h : heap.Acyclic)
    (hb : heap.Balanced (held + content.refs)) (ha : heap.allocate content = .ok (id, heap')) :
    heap'.Acyclic := by
  obtain ⟨_, hdead, hcell⟩ := hb.allocate ha
  have contents : ∀ k, heap'.content? k = if k = id then some content else heap.content? k := by
    intro k
    unfold content?
    rw [hcell]
    split
    · rfl
    · rfl
  refine h.fill contents (fun parent hnames => ?_) fun hself => ?_
  · obtain ⟨cell, hlive⟩ := hb.live_of_names hnames
    rw [hdead] at hlive
    cases hlive
  · have hheld : id ∈ held + content.refs := by
      rw [Content.refs_eq_singleton hself]
      exact Multiset.mem_add.mpr (Or.inr (Multiset.mem_singleton_self id))
    obtain ⟨cell, hlive⟩ := hb.live (Or.inl hheld)
    rw [hdead] at hlive
    cases hlive

/-! ## Every run keeps a heap sound -/

theorem sound_empty (budget : Meter) : Sound { budget } 0 :=
  ⟨balanced_empty budget, acyclic_empty budget⟩

/-- **Every operation keeps a heap sound.** -/
theorem Sound.step (h : heap.Sound held) (hstep : Step heap held heap' held') :
    heap'.Sound held' := by
  obtain ⟨hb, hacyclic⟩ := h
  cases hstep with
  | allocate ha => exact ⟨(hb.allocate ha).1, hacyclic.allocate hb ha⟩
  | refused => exact ⟨hb, hacyclic⟩
  | retain hid =>
    obtain ⟨hbalanced, hcontent⟩ := hb.retain hid
    refine ⟨hbalanced, hacyclic.mono fun parent child hnames => ?_⟩
    obtain ⟨content, hfound, hchild⟩ := hnames
    exact ⟨content, (hcontent parent).symm.trans hfound, hchild⟩
  | release => exact ⟨hb.release.1, hacyclic.releases hb.releases⟩

/-- **Every run keeps a heap sound.** -/
theorem Run.sound {budget : Meter} (h : Run budget heap held) : heap.Sound held := by
  induction h with
  | empty => exact sound_empty budget
  | step _ hstep ih => exact ih.step hstep

/-! ## What is live -/

/-- The references that cells hold to one of them are as many as the live cells that name it. -/
theorem count_payloads (heap : Heap) (id : Nat) :
    heap.payloads.count id = heap.live.countP fun cell => cell.content.child? = some id := by
  unfold payloads live
  induction heap.cells.toList with
  | nil => rfl
  | cons cell rest ih =>
    rw [List.flatMap_cons, List.count_append, ih]
    cases cell with
    | none => simp [payload]
    | some cell =>
      have kept : (some cell :: rest).filterMap (fun found => found) =
          cell :: rest.filterMap fun found => found := rfl
      rw [kept, List.countP_cons]
      cases hchild : cell.content.child? with
      | none => simp [payload, hchild]
      | some child =>
        by_cases hid : child = id
        · simp [payload, hchild, hid, Nat.add_comm]
        · simp [payload, hchild, hid]

/-- A reference that the cells hold is held by a live one. -/
theorem exists_names (h : id ∈ heap.payloads) :
    ∃ parent, heap.Names parent id ∧ ∃ cell, heap.cell? parent = some cell := by
  obtain ⟨found, hfound, hpayload⟩ := List.mem_flatMap.mp h
  obtain ⟨parent, hparent⟩ := List.mem_iff_getElem?.mp hfound
  cases found with
  | none => cases hpayload
  | some naming =>
    have hlive : heap.cell? parent = some naming := by
      unfold cell?
      rw [← Array.getElem?_toList, hparent]
      rfl
    have hchild : naming.content.child? = some id := Option.mem_toList.mp hpayload
    exact ⟨parent, ⟨_, content?_eq hlive, hchild⟩, naming, hlive⟩

/-- **What is live is reached**: a cell counts references, and if none of them is held from outside
then a live cell holds one, which is reached. -/
theorem Sound.reaches (h : heap.Sound held) (hcell : ∃ cell, heap.cell? id = some cell) :
    heap.Reaches held id := by
  refine h.acyclic.induction (P := fun id => (∃ cell, heap.cell? id = some cell) →
    heap.Reaches held id) (fun id ih hcell => ?_) hcell
  obtain ⟨cell, hcell⟩ := hcell
  have hcount := h.balanced.counted id
  have hpositive := h.balanced.positive id cell hcell
  rw [references_eq hcell] at hcount
  by_cases hheld : id ∈ held
  · exact .held hheld
  · have hnone := Multiset.count_eq_zero_of_notMem hheld
    obtain ⟨parent, hnames, hlive⟩ :=
      exists_names (List.count_pos_iff.mp (show 0 < heap.payloads.count id by omega))
    have hreach := ih parent hnames hlive
    obtain ⟨content, hcontent, hchild⟩ := hnames
    exact .payload hreach hcontent hchild

theorem Sound.live_iff (h : heap.Sound held) :
    (∃ cell, heap.cell? id = some cell) ↔ heap.Reaches held id :=
  ⟨h.reaches, fun hreach => h.balanced.live hreach.mem⟩

/-- A heap of which nothing is held has no live cells. -/
theorem Sound.live_eq_nil (h : heap.Sound 0) : heap.live = [] := by
  have unreached : ∀ id, ¬heap.Reaches 0 id := fun id hreach => by
    induction hreach with
    | held hmem => exact absurd hmem (Multiset.notMem_zero _)
    | payload _ _ _ ih => exact ih
  unfold live
  rw [List.filterMap_eq_nil_iff]
  intro found hfound
  obtain ⟨id, hid⟩ := List.mem_iff_getElem?.mp hfound
  cases found with
  | none => rfl
  | some cell =>
    have hlive : heap.cell? id = some cell := by
      unfold cell?
      rw [← Array.getElem?_toList, hid]
      rfl
    exact absurd (h.reaches ⟨cell, hlive⟩) (unreached id)

/-- References that are given back, in any order, are held no longer. -/
theorem Sound.release_list (refs : List Nat) (h : heap.Sound (held + refs)) :
    (refs.foldl (fun heap id => heap.release id) heap).Sound held := by
  induction refs generalizing heap with
  | nil => rwa [Multiset.coe_nil, Multiset.add_zero] at h
  | cons id rest ih =>
    have hrefs : held + (↑(id :: rest) : Multiset Nat) = held + ↑rest + {id} := by
      rw [← Multiset.cons_coe, ← Multiset.singleton_add, Multiset.add_comm {id}, Multiset.add_assoc]
    rw [hrefs] at h
    exact ih (h.step .release)

/-- Once all that was held has been given back, in any order, nothing is live. -/
theorem Sound.release_all (refs : List Nat) (h : heap.Sound refs) :
    (refs.foldl (fun heap id => heap.release id) heap).live = [] := by
  rw [← Multiset.zero_add (↑refs : Multiset Nat)] at h
  exact h.release_list.live_eq_nil

/-! ## Releases, reads and allocations -/

theorem Balanced.releases_of_mem (h : heap.Balanced held) (hid : id ∈ held) :
    heap.Releases id (heap.release id) := by
  obtain ⟨rest, rfl⟩ := Multiset.exists_cons_of_mem hid
  rw [← Multiset.singleton_add, Multiset.add_comm] at h
  exact h.releases

/-- **The number that a value stands for is found along live cells, and the search comes to an
end.** -/
theorem Sound.reads (h : heap.Sound held) {value : Value} (hvalue : value.refs ⊆ held) :
    heap.Reads value (heap.numeric? value) := by
  have readable : ∃ number?, heap.Reads value number? := by
    cases value with
    | none => exact ⟨_, .none⟩
    | notImplemented => exact ⟨_, .notImplemented⟩
    | bool value => exact ⟨_, .bool value⟩
    | int value => exact ⟨_, .int value⟩
    | float value => exact ⟨_, .float value⟩
    | ref id =>
      obtain ⟨cell, hcell⟩ := h.balanced.live (Or.inl (hvalue (Multiset.mem_singleton_self id)))
      refine h.acyclic.exists_reads (fun parent child hnames => ?_) ⟨_, content?_eq hcell⟩
      obtain ⟨named, hnamed⟩ := h.balanced.live_of_names hnames
      exact ⟨_, content?_eq hnamed⟩
  obtain ⟨number?, hread⟩ := readable
  rwa [hread.numeric?]

/-- The cell that an allocation hands out was not live. -/
theorem Balanced.dead_of_allocate (h : heap.Balanced held) {content : Content}
    (ha : heap.allocate content = .ok (id, heap')) : heap.cell? id = none := by
  obtain ⟨budget, _, ⟨free, hfree, _⟩ | ⟨_, rfl, _⟩⟩ := allocate_cases ha
  · have hmem : id ∈ heap.free := by
      rw [hfree]
      exact List.mem_cons_self
    exact ((h.mem_free id).mp hmem).2
  · cases hcell : heap.cell? heap.cells.size with
    | none => rfl
    | some cell => exact absurd (lt_size_of_cell? hcell) (Nat.lt_irrefl _)

/-! ## What every run comes to -/

/--
**A heap is sound after every run of operations** on an empty one.

The free cells are listed once each, and are those that are not live.  A live cell counts at least
one reference, and as many as are held from outside and by live instances.  No chain of payloads is
a circle, and the live cells are those that are reached from the references held.

So every reference that is held is live, and an allocation hands out a cell that is not.  A release
meets live cells only and comes to an end, and so does the search for the number that a value stands
for.  When all references that were held have been given back, nothing is live.
-/
theorem run_keeps_heap_sound {budget : Meter} (h : Run budget heap held) :
    heap.free.Nodup ∧
    (∀ id, id ∈ heap.free ↔ id < heap.cells.size ∧ heap.cell? id = none) ∧
    (∀ id cell, heap.cell? id = some cell → 0 < cell.references ∧
      cell.references =
        held.count id + heap.live.countP fun other => other.content.child? = some id) ∧
    heap.Acyclic ∧
    (∀ id, (∃ cell, heap.cell? id = some cell) ↔ heap.Reaches held id) ∧
    (∀ id ∈ held, ∃ cell, heap.cell? id = some cell) ∧
    (∀ content id heap', heap.allocate content = .ok (id, heap') → heap.cell? id = none) ∧
    (∀ id ∈ held, heap.Releases id (heap.release id)) ∧
    (∀ value, value.refs ⊆ held → heap.Reads value (heap.numeric? value)) ∧
    ∀ refs : List Nat, ↑refs = held →
      (refs.foldl (fun heap id => heap.release id) heap).live = [] := by
  have hsound := h.sound
  have hbalanced := hsound.balanced
  refine ⟨hbalanced.nodup, hbalanced.mem_free, fun id cell hcell => ?_, hsound.acyclic,
    fun id => hsound.live_iff, fun id hid => hbalanced.live (Or.inl hid),
    fun content id heap' ha => hbalanced.dead_of_allocate ha,
    fun id hid => hbalanced.releases_of_mem hid, fun value hvalue => hsound.reads hvalue,
    fun refs hrefs => ?_⟩
  · have hcount := hbalanced.counted id
    rw [references_eq hcell, count_payloads] at hcount
    exact ⟨hbalanced.positive id cell hcell, hcount⟩
  · subst hrefs
    exact hsound.release_all refs

/-- A cell is freed and used again for an instance, whose payload is in a cell after it. -/
theorem run_keeps_heap_sound_reused :
    let budget : Meter := .depthOnly 1000
    let heap : Heap :=
      { cells := #[some ⟨1, .instanceOf .object (.ref 1)⟩, some ⟨1, .long 7⟩], budget }
    Run budget heap {0} ∧ heap.Acyclic ∧ heap.Reaches {0} 1 ∧ heap.Releases 0 (heap.release 0) ∧
      heap.Reads (.ref 0) (heap.numeric? (.ref 0)) ∧ (heap.release 0).live = [] := by
  intro budget heap
  let one : Heap := { cells := #[some ⟨1, .long 3⟩], budget }
  let two : Heap := { cells := #[some ⟨1, .long 3⟩, some ⟨1, .long 7⟩], budget }
  let freed : Heap := { cells := #[none, some ⟨1, .long 7⟩], free := [0], budget }
  have first : Step { budget } (0 + (Content.long 3).refs) one (0 + {0}) := .allocate rfl
  have second : Step one ({0} + (Content.long 7).refs) two ({0} + {1}) := .allocate rfl
  have third : Step two ({1} + {0}) freed {1} := .release
  have fourth : Step freed (0 + (Content.instanceOf .object (.ref 1)).refs) heap (0 + {0}) :=
    .allocate rfl
  rw [Multiset.add_comm] at third
  have hrun : Run budget heap {0} := .step (.step (.step (.step .empty first) second) third) fourth
  obtain ⟨_, _, _, hacyclic, hlive, _, _, hreleases, hreads, hempty⟩ := run_keeps_heap_sound hrun
  exact ⟨hrun, hacyclic, (hlive 1).mp ⟨_, rfl⟩, hreleases 0 (Multiset.mem_singleton_self 0),
    hreads (.ref 0) fun _ h => h, hempty [0] rfl⟩

end FloorDivision.Heap
