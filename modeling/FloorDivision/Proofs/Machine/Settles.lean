import FloorDivision.Proofs.Heap.Ledger
import FloorDivision.Proofs.Machine.Meter
import FloorDivision.Proofs.Machine.Run

/-!
# Computations that settle their references

* `MachineM.Settles` — a computation leaves alone the references that are kept, uses up those that
  it is given and brings those of its result, none if it fails.
* `Settles.bind`, `Settles.releasing`, `Settles.nested` — settling computations put together.
* `settles_retain`, `settles_release`, `settles_newLong` — the steps that deal with references.
-/

namespace FloorDivision

variable {α β : Type}

/-- The limits that a meter counts against; one that counts nothing has none. -/
def Meter.limits? : Meter → Option Limits
  | .depthOnly _ => none
  | .counting limits _ _ => some limits

theorem Meter.limits?_charge {size : UInt64} {meter meter' : Meter}
    (h : meter.charge size = .ok meter') : meter'.limits? = meter.limits? := by
  cases meter with
  | depthOnly => cases h; rfl
  | counting limits allocations liveBytes =>
    obtain ⟨rfl, _⟩ := charge_cases h
    rfl

theorem Meter.limits?_refund (size : UInt64) (meter : Meter) :
    (meter.refund size).limits? = meter.limits? := by
  cases meter <;> rfl

/-- Without limits no allocation is refused. -/
theorem Heap.exists_allocate {heap : Heap} (h : heap.budget.limits? = none) (content : Content) :
    ∃ id heap', heap.allocate content = .ok (id, heap') := by
  unfold allocate
  cases hbudget : heap.budget with
  | counting limits _ _ => rw [hbudget] at h; cases h
  | depthOnly maxDepth =>
    cases heap.free with
    | nil => exact ⟨_, _, rfl⟩
    | cons id free => exact ⟨_, _, rfl⟩

namespace Heap

/-- The references held from outside are `kept` and `gained` then, and the heap is otherwise as it
was as far as `kept` leads. -/
structure Settles (kept gained : Multiset Nat) (heap heap' : Heap) : Prop where
  limits : heap'.budget.limits? = heap.budget.limits?
  balanced : heap'.Balanced (kept + gained)
  keeps : heap.Keeps kept heap'

variable {heap heap' heap'' : Heap} {kept gained gained' : Multiset Nat} {id : Nat}

theorem Settles.trans (h : heap.Settles kept gained heap')
    (h' : heap'.Settles kept gained' heap'') : heap.Settles kept gained' heap'' :=
  ⟨h'.limits.trans h.limits, h'.balanced, h.keeps.trans h'.keeps⟩

theorem Settles.refl (h : heap.Balanced (kept + gained)) : heap.Settles kept gained heap :=
  ⟨rfl, h, .refl heap kept⟩

theorem settles_allocate {content : Content} (h : heap.Balanced (kept + content.refs))
    (ha : heap.allocate content = .ok (id, heap')) : heap.Settles kept {id} heap' := by
  obtain ⟨hbalanced, hdead, hcell⟩ := h.allocate ha
  refine ⟨?_, hbalanced, Keeps.of_cells (fun k hk => (hcell k).trans (if_neg hk)) fun hreach => ?_⟩
  · obtain ⟨budget, hcharge, ⟨free, _, rfl⟩ | ⟨_, _, rfl⟩⟩ := allocate_cases ha
    · exact Meter.limits?_charge hcharge
    · exact Meter.limits?_charge hcharge
  · obtain ⟨cell, hlive⟩ :=
      h.live (hreach.mem.imp_left fun hmem => Multiset.mem_add.mpr (Or.inl hmem))
    rw [hdead] at hlive
    cases hlive

theorem settles_retain (h : heap.Balanced (kept + gained)) (hid : id ∈ kept) :
    heap.Settles kept (gained + {id}) (heap.retain id) := by
  obtain ⟨hbalanced, hcontent⟩ := h.retain (Multiset.mem_add.mpr (Or.inl hid))
  rw [Multiset.add_assoc] at hbalanced
  refine ⟨?_, hbalanced, fun k _ => hcontent k⟩
  unfold retain
  split
  · rfl
  · rfl

theorem Releases.limits? (h : heap.Releases id heap') :
    heap'.budget.limits? = heap.budget.limits? := by
  induction h with
  | shared => rfl
  | last => exact Meter.limits?_refund _ _
  | chain _ _ _ _ ih => exact ih.trans (Meter.limits?_refund _ _)

theorem settles_release (h : heap.Balanced (kept + (gained + {id}))) :
    heap.Settles kept gained (heap.release id) := by
  rw [← Multiset.add_assoc] at h
  obtain ⟨hbalanced, hkeeps⟩ := h.release
  exact ⟨h.releases.limits?, hbalanced, hkeeps.mono fun k hk => Multiset.mem_add.mpr (Or.inl hk)⟩

theorem settles_retainValue {value : Value} (h : heap.Balanced (kept + gained))
    (hv : value.refs ⊆ kept) :
    heap.Settles kept (gained + value.refs) (heap.retainValue value) := by
  cases value with
  | ref id => exact settles_retain h (hv (Multiset.mem_singleton_self id))
  | none | notImplemented | bool | int | float =>
    exact .refl (by rwa [Value.refs_eq_zero rfl, Multiset.add_zero])

theorem settles_releaseValue {value : Value} (h : heap.Balanced (kept + (gained + value.refs))) :
    heap.Settles kept gained (heap.releaseValue value) := by
  cases value with
  | ref id => exact settles_release h
  | none | notImplemented | bool | int | float =>
    exact .refl (by rwa [Value.refs_eq_zero rfl, Multiset.add_zero] at h)

end Heap

/-- The references of what may be there. -/
def optionRefs (refs : α → Multiset Nat) : Option α → Multiset Nat
  | some x => refs x
  | none => 0

def pairRefs (pair : Value × Value) : Multiset Nat := pair.1.refs + pair.2.refs

/-- The references of a result; a failure has none. -/
def resultRefs (refs : α → Multiset Nat) : Except Failure α → Multiset Nat
  | .ok x => refs x
  | .error _ => 0

namespace MachineM

/--
On every balanced machine with these limits, the computation leaves `kept` alone, uses up `gained`
and brings the references of its result.
-/
def Settles (limits? : Option Limits) (kept gained : Multiset Nat) (a : MachineM α)
    (refs : α → Multiset Nat) : Prop :=
  ∀ m : Machine, m.heap.budget.limits? = limits? → m.heap.Balanced (kept + gained) →
    m.heap.Settles kept (resultRefs refs (a m).1) (a m).2.heap

variable {limits? : Option Limits} {kept gained : Multiset Nat} {refs : α → Multiset Nat}

/-- What leaves the heap alone and has no references in its result. -/
theorem Settles.of_heap {a : MachineM α} (hheap : ∀ m, (a m).2.heap = m.heap)
    (hrefs : ∀ m, resultRefs refs (a m).1 = gained) : Settles limits? kept gained a refs := by
  intro m _ hb
  rw [hheap, hrefs]
  exact .refl hb

theorem settles_pure {x : α} (h : refs x = gained) : Settles limits? kept gained (pure x) refs :=
  .of_heap (fun _ => rfl) fun _ => h

theorem settles_throw (e : Failure) : Settles limits? kept 0 (throw e) refs :=
  .of_heap (fun _ => rfl) fun _ => rfl

theorem settles_observe (event : Event) :
    Settles limits? kept gained (observe event) fun _ => gained :=
  .of_heap (fun _ => rfl) fun _ => rfl

theorem settles_note (call : SlotCall) :
    Settles limits? kept gained (note call) fun _ => gained :=
  .of_heap (fun _ => rfl) fun _ => rfl

/-- Two computations in turn, the second of which is given what the first one brings. -/
theorem Settles.bind {mid : α → Multiset Nat} {refs : β → Multiset Nat} {a : MachineM α}
    {f : α → MachineM β} (ha : Settles limits? kept gained a mid)
    (hf : ∀ x, Settles limits? kept (mid x) (f x) refs) :
    Settles limits? kept gained (a >>= f) refs := by
  intro m hm hb
  have first := ha m hm hb
  rw [run_bind]
  rcases hrun : a m with ⟨e | x, m'⟩
  · rw [hrun] at first
    exact first
  · rw [hrun] at first
    exact first.trans (hf x m' (first.limits.trans hm) first.balanced)

theorem Settles.look {f : Machine → MachineM α} (hf : ∀ m, Settles limits? kept gained (f m) refs) :
    Settles limits? kept gained (get >>= f) refs := fun m hm hb => hf m m hm hb

theorem settles_retain {value : Value} (hv : value.refs ⊆ kept) :
    Settles limits? kept 0 (retain value) Value.refs := by
  intro m _ hb
  have := Heap.settles_retainValue hb hv
  rwa [Multiset.zero_add] at this

/-- A reference is counted once more beside those that were gained before. -/
theorem settles_retain_next {value : Value} (hv : value.refs ⊆ kept) :
    Settles limits? kept gained (retain value) fun x => gained + x.refs := fun _ _ hb =>
  Heap.settles_retainValue hb hv

/-- Giving back a reference that was brought before. -/
theorem settles_release (value : Value) :
    Settles limits? kept value.refs (release value) fun _ => 0 := by
  intro m _ hb
  have hrest : m.heap.Balanced (kept + (0 + value.refs)) := by rwa [Multiset.zero_add]
  exact Heap.settles_releaseValue hrest

theorem settles_allocate (content : Content) (hc : content.refs = 0) :
    Settles limits? kept 0 (allocate content) Value.refs := by
  intro m hm hb
  unfold allocate
  cases ha : m.heap.allocate content with
  | error refusal => exact .refl hb
  | ok filled =>
    obtain ⟨id, heap⟩ := filled
    exact Heap.settles_allocate (by rwa [hc]) ha

theorem settles_newLong (n : Int) : Settles limits? kept 0 (newLong n) Value.refs := by
  refine .look fun m => ?_
  split
  · exact settles_pure rfl
  · exact settles_allocate _ rfl

/-- A reference is kept while a computation runs and is then given back, come what may. -/
theorem Settles.releasing {value : Value} {a : MachineM α}
    (ha : Settles limits? (kept + value.refs) gained a refs) :
    Settles limits? kept (gained + value.refs) (releasing value a) refs := by
  intro m hm hb
  have inner := ha m hm (by rwa [Multiset.add_assoc, Multiset.add_comm value.refs])
  have hrest := inner.balanced
  rw [Multiset.add_assoc, Multiset.add_comm value.refs] at hrest
  have outer := Heap.settles_releaseValue hrest
  rw [run_releasing]
  exact ⟨outer.limits.trans inner.limits, outer.balanced,
    (inner.keeps.mono fun k hk => Multiset.mem_add.mpr (Or.inl hk)).trans outer.keeps⟩

theorem Settles.releasingBoth {first second : Value} {a : MachineM α}
    (ha : Settles limits? (kept + second.refs + first.refs) 0 a refs) :
    Settles limits? kept (first.refs + second.refs) (releasingBoth first second a) refs := by
  have inner : Settles limits? (kept + second.refs) first.refs (.releasing first a) refs := by
    have := Settles.releasing ha
    rwa [Multiset.zero_add] at this
  exact Settles.releasing inner

/-- A division that is entered and left. -/
theorem Settles.nested {a : Nat → MachineM α}
    (ha : ∀ depth, Settles limits? kept 0 (a depth) refs) :
    Settles limits? kept 0 (do let depth ← enter; leaving (a depth)) refs := by
  have entered : Settles limits? kept 0 enter fun _ : Nat => 0 := by
    refine .of_heap (fun m => ?_) fun m => ?_
    · unfold enter
      split
      · rfl
      · rfl
    · unfold enter
      split
      · rfl
      · rfl
  exact entered.bind fun depth => ha depth

end MachineM

end FloorDivision
