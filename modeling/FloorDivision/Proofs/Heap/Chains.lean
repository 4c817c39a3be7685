import FloorDivision.Proofs.Heap.Ledger
import Mathlib.Data.Finset.Card
import Mathlib.Order.WellFoundedSet

/-!
# Chains of payloads

An instance names the cell that its payload refers to, which may be an instance in turn.

* `Heap.Names`, `Heap.Acyclic` — the cells that payloads refer to; none is reached from itself.
* `Acyclic.fill`, `Acyclic.mono` — a new cell that nothing names closes no circle, and naming less
  opens none.
* `Heap.Reads` — the number that a value stands for, read off cell by cell, every one being live.
* `Reads.numeric?` — what is read off is what a bounded search finds: no chain is longer than the
  heap.
-/

namespace FloorDivision.Heap

open Relation

variable {heap heap' : Heap} {id parent child : Nat} {value : Value} {number? : Option Numeric}

/-- A live instance has a payload that refers to the cell. -/
def Names (heap : Heap) (parent child : Nat) : Prop :=
  ∃ content, heap.content? parent = some content ∧ content.child? = some child

/-- No chain of payloads comes back to where it began. -/
def Acyclic (heap : Heap) : Prop := ∀ id, ¬TransGen heap.Names id id

theorem Names.lt_size (h : heap.Names parent child) : parent < heap.cells.size := by
  obtain ⟨content, hcontent, _⟩ := h
  exact lt_size_of_content? hcontent

theorem not_names_of_long {n : Int} (h : heap.content? parent = some (.long n)) :
    ¬heap.Names parent child := by
  rintro ⟨content, hcontent, hchild⟩
  rw [h] at hcontent
  cases hcontent
  cases hchild

/-! ## Circles -/

theorem acyclic_empty (budget : Meter) : Acyclic { budget } := by
  intro id hcircle
  obtain ⟨child, hnames, _⟩ := TransGen.head'_iff.mp hcircle
  exact absurd hnames.lt_size (Nat.not_lt_zero _)

/-- A heap that names less has no more circles. -/
theorem Acyclic.mono (h : heap.Acyclic)
    (hnames : ∀ parent child, heap'.Names parent child → heap.Names parent child) :
    heap'.Acyclic := fun id hcircle =>
  h id (TransGen.mono hnames id id hcircle)

/-- **A new cell closes no circle**, since nothing names it. -/
theorem Acyclic.fill {content : Content} (h : heap.Acyclic)
    (hcontent : ∀ k, heap'.content? k = if k = id then some content else heap.content? k)
    (hunnamed : ∀ parent, ¬heap.Names parent id) (hself : content.child? ≠ some id) :
    heap'.Acyclic := by
  have names : ∀ {parent child}, heap'.Names parent child →
      child ≠ id ∧ (parent ≠ id → heap.Names parent child) := by
    rintro parent child ⟨found, hfound, hchild⟩
    rw [hcontent] at hfound
    by_cases hparent : parent = id
    · rw [if_pos hparent] at hfound
      cases hfound
      exact ⟨fun hid => hself (hid ▸ hchild), fun hne => absurd hparent hne⟩
    · rw [if_neg hparent] at hfound
      have hold : heap.Names parent child := ⟨found, hfound, hchild⟩
      exact ⟨fun hid => hunnamed parent (hid ▸ hold), fun _ => hold⟩
  -- A chain that begins elsewhere never comes to the new cell, so it was there before.
  have chain : ∀ {start last}, TransGen heap'.Names start last → start ≠ id →
      last ≠ id ∧ TransGen heap.Names start last := by
    intro start last hchain hstart
    induction hchain with
    | single hnames => exact ⟨(names hnames).1, .single ((names hnames).2 hstart)⟩
    | tail _ hnames ih => exact ⟨(names hnames).1, ih.2.tail ((names hnames).2 ih.1)⟩
  intro k hcircle
  obtain ⟨last, _, hnames⟩ := TransGen.tail'_iff.mp hcircle
  exact h k (chain hcircle (names hnames).1).2

theorem Acyclic.isStrictOrder (h : heap.Acyclic) : IsStrictOrder Nat (TransGen heap.Names) where
  irrefl := h
  trans := fun _ _ _ => TransGen.trans

/-- Without circles, what holds of a cell once it holds of all that name it holds of every cell. -/
theorem Acyclic.induction {P : Nat → Prop} (h : heap.Acyclic)
    (step : ∀ id, (∀ parent, heap.Names parent id → P parent) → P id) : P id := by
  have := h.isStrictOrder
  have below : ∀ id, id < heap.cells.size → P id := fun id hid =>
    (Set.finite_lt_nat heap.cells.size).wellFoundedOn.induction (r := TransGen heap.Names) hid
      fun id _ ih => step id fun parent hnames => ih parent hnames.lt_size (.single hnames)
  exact step id fun parent hnames => below parent hnames.lt_size

/-- The other way round: what holds of a cell once it holds of the one that it names. -/
theorem Acyclic.induction_child {P : Nat → Prop} (h : heap.Acyclic)
    (step : ∀ id, (∀ child, heap.Names id child → P child) → P id) : P id := by
  have := h.isStrictOrder
  have beyond : ∀ id, heap.cells.size ≤ id → P id := fun id hid =>
    step id fun child hnames => absurd hnames.lt_size (by omega)
  have below : ∀ id, id < heap.cells.size → P id := fun id hid =>
    (Set.finite_lt_nat heap.cells.size).wellFoundedOn.induction
      (r := Function.swap (TransGen heap.Names)) hid fun id _ ih => step id fun child hnames => by
        by_cases hchild : child < heap.cells.size
        · exact ih child hchild (.single hnames)
        · exact beyond child (by omega)
  rcases Nat.lt_or_ge id heap.cells.size with hid | hid
  · exact below id hid
  · exact beyond id hid

/-! ## The number that a value stands for -/

/-- A value is read off as a number, or as none.  An instance is read as its payload is, and only
live cells are met. -/
inductive Reads (heap : Heap) : Value → Option Numeric → Prop where
  | none : Reads heap .none none
  | notImplemented : Reads heap .notImplemented none
  | bool (value : Bool) : Reads heap (.bool value) (some (.int (if value then 1 else 0)))
  | int (value : Int64) : Reads heap (.int value) (some (.int value))
  | float (value : Double) : Reads heap (.float value) (some (.float value))
  | long {id : Nat} {value : Int} :
      heap.content? id = some (.long value) → Reads heap (.ref id) (some (.long value))
  | instanceOf {id : Nat} {type : ObjectType} {payload : Value} {number? : Option Numeric} :
      heap.content? id = some (.instanceOf type payload) → Reads heap payload number? →
        Reads heap (.ref id) number?

/-- A value whose references are kept is read as the same number. -/
theorem Reads.keeps {kept : Multiset Nat} (h : heap.Reads value number?)
    (hk : heap.Keeps kept heap') (hv : value.refs ⊆ kept) : heap'.Reads value number? := by
  have reached : ∀ id, value = .ref id → heap.Reaches kept id := fun id hid =>
    .held (hv (hid ▸ Multiset.mem_singleton_self id))
  clear hv
  induction h with
  | none => exact .none
  | notImplemented => exact .notImplemented
  | bool value => exact .bool value
  | int value => exact .int value
  | float value => exact .float value
  | long hcontent => exact .long ((hk _ (reached _ rfl)).trans hcontent)
  | instanceOf hcontent _ ih =>
    refine .instanceOf ((hk _ (reached _ rfl)).trans hcontent) (ih fun child hchild => ?_)
    exact .payload (reached _ rfl) hcontent (congrArg Value.ref? hchild)

/-- **Where no chain is a circle, every live reference can be read.** -/
theorem Acyclic.exists_reads (h : heap.Acyclic)
    (hlive : ∀ parent child, heap.Names parent child →
      ∃ content, heap.content? child = some content)
    (hid : ∃ content, heap.content? id = some content) :
    ∃ number?, heap.Reads (.ref id) number? := by
  refine h.induction_child (P := fun id => (∃ content, heap.content? id = some content) →
    ∃ number?, heap.Reads (.ref id) number?) (fun id ih hid => ?_) hid
  obtain ⟨content, hcontent⟩ := hid
  cases content with
  | long value => exact ⟨_, .long hcontent⟩
  | instanceOf type payload =>
    cases payload with
    | none => exact ⟨_, .instanceOf hcontent .none⟩
    | notImplemented => exact ⟨_, .instanceOf hcontent .notImplemented⟩
    | bool value => exact ⟨_, .instanceOf hcontent (.bool value)⟩
    | int value => exact ⟨_, .instanceOf hcontent (.int value)⟩
    | float value => exact ⟨_, .instanceOf hcontent (.float value)⟩
    | ref child =>
      have hnames : heap.Names id child := ⟨_, hcontent, rfl⟩
      obtain ⟨number?, hread⟩ := ih child hnames (hlive id child hnames)
      exact ⟨number?, .instanceOf hcontent hread⟩

/-- A chain that can be read to its end is no circle. -/
theorem Reads.not_circle (h : heap.Reads value number?) (hid : value = .ref id) :
    ¬TransGen heap.Names id id := by
  induction h generalizing id with
  | none | notImplemented | bool | int | float => cases hid
  | long hcontent =>
    cases hid
    intro hcircle
    obtain ⟨child, hnames, _⟩ := TransGen.head'_iff.mp hcircle
    exact not_names_of_long hcontent hnames
  | @instanceOf id type payload number? hcontent _ ih =>
    cases hid
    intro hcircle
    obtain ⟨child, hnames, hrest⟩ := TransGen.head'_iff.mp hcircle
    -- The circle goes through the payload, so it is one of the payload's as well.
    have hpayload : payload = .ref child := by
      obtain ⟨content, hfound, hchild⟩ := hnames
      rw [hcontent] at hfound
      cases hfound
      cases payload with
      | ref other => exact congrArg Value.ref (Option.some.inj hchild)
      | none | notImplemented | bool | int | float => cases hchild
    exact ih hpayload (TransGen.tail' hrest hnames)

/-- A further cell is found among all cells only while not all have been passed. -/
theorem card_insert_le {passed : Finset Nat} (hpassed : ∀ k ∈ passed, k < heap.cells.size)
    (hid : id < heap.cells.size) : (insert id passed).card ≤ heap.cells.size := by
  have hsub : insert id passed ⊆ Finset.range heap.cells.size := by
    intro k hk
    rw [Finset.mem_range]
    rcases Finset.mem_insert.mp hk with rfl | hk
    · exact hid
    · exact hpassed k hk
  have := Finset.card_le_card hsub
  rwa [Finset.card_range] at this

/-- A cell that can be read has not been passed on the way to it, so there is a round left for
it. -/
theorem Reads.exists_round (h : heap.Reads (.ref id) number?) (hid : id < heap.cells.size)
    {fuel : Nat} {passed : Finset Nat} (hpassed : ∀ k ∈ passed, k < heap.cells.size)
    (hchain : ∀ k ∈ passed, TransGen heap.Names k id)
    (hfuel : heap.cells.size ≤ fuel + passed.card) :
    ∃ rest, fuel = rest + 1 ∧ heap.cells.size ≤ rest + (insert id passed).card := by
  have hfresh : id ∉ passed := fun hmem => h.not_circle rfl (hchain id hmem)
  have hcard := card_insert_le hpassed hid
  rw [Finset.card_insert_of_notMem hfresh] at hcard ⊢
  exact ⟨fuel - 1, by omega, by omega⟩

/-- The search goes along a chain; the cells that it has passed make up for the rounds used. -/
theorem Reads.numericLoop (h : heap.Reads value number?) (fuel : Nat) (passed : Finset Nat)
    (hpassed : ∀ k ∈ passed, k < heap.cells.size)
    (hchain : ∀ id, value = .ref id → ∀ k ∈ passed, TransGen heap.Names k id)
    (hfuel : heap.cells.size ≤ fuel + passed.card) : heap.numericLoop fuel value = number? := by
  induction h generalizing fuel passed with
  | none | notImplemented | bool | int | float => cases fuel <;> rfl
  | long hcontent =>
    obtain ⟨rest, rfl, _⟩ := (Reads.long hcontent).exists_round (lt_size_of_content? hcontent)
      hpassed (hchain _ rfl) hfuel
    unfold Heap.numericLoop
    rw [hcontent]
  | @instanceOf id type payload number? hcontent hread ih =>
    have hsize := lt_size_of_content? hcontent
    obtain ⟨rest, rfl, hrest⟩ := (Reads.instanceOf hcontent hread).exists_round hsize hpassed
      (hchain id rfl) hfuel
    unfold Heap.numericLoop
    rw [hcontent]
    refine ih rest (insert id passed) (fun k hk => ?_) (fun child hchild k hk => ?_) hrest
    · rcases Finset.mem_insert.mp hk with rfl | hk
      · exact hsize
      · exact hpassed k hk
    · have hnames : heap.Names id child := ⟨_, hcontent, congrArg Value.ref? hchild⟩
      rcases Finset.mem_insert.mp hk with rfl | hk
      · exact .single hnames
      · exact (hchain id rfl k hk).tail hnames

/-- **What can be read off a value is the number that it stands for.** -/
theorem Reads.numeric? (h : heap.Reads value number?) : heap.numeric? value = number? :=
  h.numericLoop heap.cells.size ∅ (fun _ hk => absurd hk (Finset.notMem_empty _))
    (fun _ _ _ hk => absurd hk (Finset.notMem_empty _)) (Nat.le_add_right _ _)

end FloorDivision.Heap
