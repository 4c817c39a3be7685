import FloorDivision.Proofs.Division.Integers
import FloorDivision.Proofs.Heap.Runs
import FloorDivision.Proofs.Machine.Settles

/-!
# Integers are divided where nothing is refused

Without limits a machine takes in integers of any size and divides them, and knows which of them
are in cells and what is held afterwards.

* `Heap.Unlimited` — a sound heap that refuses nothing.
* `Machine.Holds`, `Machine.Gains` — a value is an integer, in a cell or directly, and a machine has
  come to hold one more.
* `Machine.Holds.repr` — the text of such a value.
* `run_divisions` — what a division of two integers and its truth come to.
-/

namespace FloorDivision

open MachineM

variable {m m' m'' : Machine} {heap : Heap} {held : Multiset Nat} {level : Level}
  {value lhs rhs : Value} {n a b : Int} {wide : Prop}

/-! ## Heaps without limits -/

/-- The account is sound and nothing is refused, nor is a first division. -/
structure Heap.Unlimited (heap : Heap) (held : Multiset Nat) : Prop where
  sound : heap.Sound held
  budget : heap.budget = .depthOnly Limits.defaultDepth

/-- A release counts nothing where nothing is counted. -/
theorem Heap.Releases.budget_depthOnly {heap' : Heap} {id : Nat} {maxDepth : UInt64}
    (h : heap.Releases id heap') (hbudget : heap.budget = .depthOnly maxDepth) :
    heap'.budget = .depthOnly maxDepth := by
  have refunded : ∀ {heap : Heap} {id : Nat} {content : Content},
      heap.budget = .depthOnly maxDepth →
        (heap.discard id content).budget = .depthOnly maxDepth := by
    intro heap id content hbudget
    show heap.budget.refund content.size = _
    rw [hbudget]
    rfl
  induction h with
  | shared => exact hbudget
  | last => exact refunded hbudget
  | chain _ _ _ _ ih => exact ih (refunded hbudget)

namespace Heap.Unlimited

theorem start {config : Config} (h : config.limits = {}) (tracer : Tracer) :
    (Machine.start config tracer).heap.Unlimited 0 := by
  refine ⟨sound_empty _, ?_⟩
  show Meter.ofLimits config.limits = _
  rw [h]
  rfl

theorem checkDepth (h : heap.Unlimited held) : heap.budget.checkDepth 0 = .ok () := by
  rw [h.budget]
  rfl

theorem release {id : Nat} (h : heap.Unlimited (held + {id})) :
    (heap.release id).Unlimited held :=
  ⟨h.sound.step .release, h.sound.balanced.releases.budget_depthOnly h.budget⟩

theorem releaseValue (h : heap.Unlimited (held + value.refs)) :
    (heap.releaseValue value).Unlimited held := by
  cases value with
  | ref id => exact h.release
  | none | notImplemented | bool | int | float =>
    rwa [Value.refs_eq_zero rfl, Multiset.add_zero] at h

/-- A long gets a cell that was not live, and the other cells stay as they were. -/
theorem allocate (h : heap.Unlimited held) (n : Int) :
    ∃ id heap', heap.allocate (.long n) = .ok (id, heap') ∧ heap'.Unlimited (held + {id}) ∧
      heap.cell? id = none ∧
      ∀ k, heap'.cell? k = if k = id then some ⟨1, .long n⟩ else heap.cell? k := by
  obtain ⟨id, heap', ha⟩ := Heap.exists_allocate (by rw [h.budget]; rfl) (.long n)
  have hsound : heap.Sound (held + (Content.long n).refs) := by
    rw [show (Content.long n).refs = 0 from rfl, Multiset.add_zero]
    exact h.sound
  obtain ⟨-, hdead, hcells⟩ := hsound.balanced.allocate ha
  refine ⟨id, heap', ha, ⟨hsound.step (.allocate ha), ?_⟩, hdead, hcells⟩
  obtain ⟨budget, hcharge, hcases⟩ := allocate_cases ha
  rw [h.budget] at hcharge
  cases hcharge
  rcases hcases with ⟨_, _, rfl⟩ | ⟨_, _, rfl⟩ <;> rfl

end Heap.Unlimited

/-! ## Integers on a machine -/

namespace Machine

/-- The integer as a value: in a cell of its own if it is `wide`, and else held directly. -/
def Holds (m : Machine) (value : Value) (n : Int) (wide : Prop) : Prop :=
  (¬wide ∧ FitsWord n ∧ value = .int (.ofInt n)) ∨
    wide ∧ ∃ id, value = .ref id ∧ m.heap.content? id = some (.long n)

theorem Holds.integer? (h : m.Holds value n wide) : m.integer? value = some n := by
  rcases h with ⟨-, hfits, rfl⟩ | ⟨-, id, rfl, hcontent⟩
  · exact congrArg some (toInt_ofInt_iff.mpr hfits)
  · simp only [Machine.integer?, hcontent]

theorem Holds.isSome_ref? (h : m.Holds value n wide) : value.ref?.isSome = true ↔ wide := by
  rcases h with ⟨hdirect, -, rfl⟩ | ⟨hwide, id, rfl, -⟩
  · simpa [Value.ref?] using hdirect
  · simpa [Value.ref?] using hwide

/-- **An integer as text**: at the legacy level a long is marked. -/
theorem Holds.repr [Decidable wide] (h : m.Holds value n wide) :
    m.repr value = toString n ++ if m.level = .legacy ∧ wide then "L" else "" := by
  unfold Machine.repr
  rcases h with ⟨hdirect, hfits, rfl⟩ | ⟨hwide, id, rfl, hcontent⟩
  · rw [if_neg fun h => hdirect h.2, String.append_empty]
    show toString (Int64.ofInt n).toInt = _
    rw [toInt_ofInt_iff.mpr hfits]
  · simp only [toObject, hcontent, longObject]
    cases m.level with
    | legacy => simp [Object.repr, hwide]
    | modern =>
      simp only [true_and, reduceCtorEq, false_and, if_false, String.append_empty]
      split
      · rename_i hfits
        exact congrArg toString hfits
      · rfl

/-- The second machine holds one integer more, and holds those that the first one held. -/
structure Gains (m m' : Machine) (held : Multiset Nat) (value : Value) (n : Int) (wide : Prop) :
    Prop where
  unlimited : m'.heap.Unlimited (held + value.refs)
  holds : m'.Holds value n wide
  keeps : ∀ {other : Value} {c : Int} {wide : Prop}, m.Holds other c wide → m'.Holds other c wide

end Machine

/-- **An integer is brought in without a refusal**, directly or in a cell. -/
theorem gains_held (h : m.heap.Unlimited held) {direct : Prop} [Decidable direct]
    (hfits : direct → FitsWord n) :
    ∃ value m', (if direct then pure (.int (.ofInt n)) else allocate (.long n)) m =
      (.ok value, m') ∧ m.Gains m' held value n ¬direct := by
  split
  · rename_i hdirect
    refine ⟨_, m, rfl, ?_, Or.inl ⟨not_not_intro hdirect, hfits hdirect, rfl⟩, id⟩
    rw [Value.refs_eq_zero rfl, Multiset.add_zero]
    exact h
  · rename_i hdirect
    obtain ⟨id, heap, ha, hunlimited, hdead, hcells⟩ := h.allocate n
    refine ⟨.ref id, { m with heap }, ?_, hunlimited, Or.inr ⟨hdirect, id, rfl, ?_⟩, ?_⟩
    · simp only [allocate, ha]
    · show heap.content? id = _
      rw [Heap.content?_eq ((hcells id).trans (if_pos rfl))]
    · rintro other c wide (hholds | ⟨hwide, k, rfl, hcontent⟩)
      · exact Or.inl hholds
      · refine Or.inr ⟨hwide, k, rfl, ?_⟩
        have hother : k ≠ id := by
          rintro rfl
          simp [Heap.content?, hdead] at hcontent
        simpa [Heap.content?, hcells, hother] using hcontent

/-! ## The quotient -/

theorem Machine.Holds.congr (h : m.Holds value n wide) (hheap : m'.heap = m.heap) :
    m'.Holds value n wide := by
  unfold Holds
  rw [hheap]
  exact h

/-- What a machine gains is a matter of the heaps. -/
theorem Machine.Gains.congr (h : m.Gains m' held value n wide) {start last : Machine}
    (hstart : start.heap = m.heap) (hlast : last.heap = m'.heap) :
    start.Gains last held value n wide := by
  obtain ⟨hunlimited, hholds, hkeeps⟩ := h
  refine ⟨hlast ▸ hunlimited, hholds.congr hlast, fun h => ?_⟩
  exact (hkeeps (h.congr hstart.symm)).congr hlast

theorem gains_exactQuotient (h : m.heap.Unlimited held) (level : Level) (wide : Bool) (a : Int)
    (hzero : b ≠ 0) :
    ∃ value m', exactQuotient level wide a b m = (.ok value, m') ∧
      m.Gains m' held value (a.fdiv b)
        ¬(FitsWord (a.fdiv b) ∧ (level = .modern ∨ wide = false)) := by
  unfold exactQuotient
  rw [if_neg hzero]
  exact gains_held h And.left

theorem fits_generic (level : Level) (m : Machine) (lhs rhs : Value) :
    (EntryPoint.generic level).Fits m lhs rhs := by
  constructor
  · rintro kind ⟨⟩
  · rintro kind ⟨⟩

theorem exists_of_outcome {α : Type} {c : MachineM α} {result : Except Failure α}
    (h : c.outcome m = (result, m')) : ∃ m'', c m = (result, m'') ∧ m''.heap = m'.heap :=
  ⟨(c m).2, Prod.ext (congrArg Prod.fst h : (c m).1 = result) rfl, congrArg (·.2.heap) h⟩

section Divisions

variable (user : UserSlots) {left right : Prop} [Decidable left] [Decidable right]

/-- The error that a zero divisor leads to. -/
def zeroDivision (level : Level) (wide : Bool) : Raised :=
  if wide then .longDivisionByZero level else .integerDivisionByZero

/-- What a division of integers comes to inside. -/
theorem divideInside_integers (h : m.heap.Unlimited held) (hlevel : m.level = level)
    (hlhs : m.Holds lhs a left) (hrhs : m.Holds rhs b right) :
    (b = 0 → ∃ m', divideInside user (.generic level) Quotient.toValue pure lhs rhs m =
        (.error (.raised (zeroDivision level (left ∨ right))), m') ∧ m'.heap = m.heap) ∧
      (b ≠ 0 → ∃ value m', divideInside user (.generic level) Quotient.toValue pure lhs rhs m =
        (.ok value, m') ∧ m.Gains m' held value (a.fdiv b)
          ¬(FitsWord (a.fdiv b) ∧ (level = .modern ∨ ¬(left ∨ right)))) := by
  have inside := outcome_divideInside_integers user hlevel (fits_generic level m lhs rhs)
    hlhs.integer? hrhs.integer?
  have hwide : (lhs.ref?.isSome || rhs.ref?.isSome) = decide (left ∨ right) := by
    rw [Bool.eq_iff_iff, Bool.or_eq_true, hlhs.isSome_ref?, hrhs.isSome_ref?, decide_eq_true_iff]
  rw [hlevel, hwide] at inside
  constructor
  · rintro rfl
    rw [exactQuotient, if_pos rfl, outcome_eq (run_throw _ m)] at inside
    obtain ⟨m', hinside, hheap⟩ := exists_of_outcome inside
    exact ⟨m', hinside, hheap⟩
  · intro hzero
    obtain ⟨value, m', hrun, hgains⟩ := gains_exactQuotient h level (decide (left ∨ right)) a hzero
    rw [outcome_eq hrun] at inside
    rw [decide_eq_false_iff_not] at hgains
    obtain ⟨m'', hinside, hheap⟩ := exists_of_outcome inside
    exact ⟨value, m'', hinside, hgains.congr rfl hheap⟩

/-- **What a division of integers comes to**, and its truth. -/
theorem run_divisions (h : m.heap.Unlimited held) (hlevel : m.level = level) (hdepth : m.depth = 0)
    (hlhs : m.Holds lhs a left) (hrhs : m.Holds rhs b right) :
    (b = 0 → ∃ m', divide user (.generic level) lhs rhs m =
        (.error (.raised (zeroDivision level (left ∨ right))), m') ∧
      divideToTruth user (.generic level) lhs rhs m =
        (.error (.raised (zeroDivision level (left ∨ right))), m') ∧ m'.heap = m.heap) ∧
      (b ≠ 0 → ∃ value m', divide user (.generic level) lhs rhs m = (.ok value, m') ∧
        m.Gains m' held value (a.fdiv b)
          (¬(FitsWord (a.fdiv b) ∧ (level = .modern ∨ ¬(left ∨ right)))) ∧
        ∃ m'', divideToTruth user (.generic level) lhs rhs m =
          (.ok (decide (a.fdiv b ≠ 0)), m'') ∧ m''.heap.Unlimited held) := by
  obtain ⟨zero, nonzero⟩ := divideInside_integers (m := m.entered (.generic level)) user h hlevel
    hlhs hrhs
  have hentry : m.level = (EntryPoint.generic level).level := hlevel
  have whole : divide user (.generic level) lhs rhs m =
      let inside := divideInside user (.generic level) Quotient.toValue pure lhs rhs
        (m.entered (.generic level))
      (inside.1, inside.2.left) := by
    unfold divide
    rw [run_divideWith, if_neg (not_not_intro hentry), hdepth, h.checkDepth]
  have ways := divideToTruth_cases user (.generic level) lhs rhs m
  constructor
  · intro hzero
    obtain ⟨m', hinside, hheap⟩ := zero hzero
    rw [hinside] at whole
    rcases ways with ⟨e, after, hobject, htruth⟩ | ⟨value, _, hcomputed, _⟩
    · obtain ⟨he, rfl⟩ := Prod.mk.inj (hobject.symm.trans whole)
      cases he
      exact ⟨_, whole, htruth, hheap⟩
    · rw [hinside] at hcomputed
      cases hcomputed
  · intro hzero
    obtain ⟨value, m', hinside, hgains⟩ := nonzero hzero
    rw [hinside] at whole
    rcases ways with ⟨e, after, hobject, _⟩ | ⟨value', last, hcomputed, _, htruth⟩
    · rw [hobject] at whole
      cases whole
    · rw [hinside] at hcomputed
      cases hcomputed
      rw [isTrue_of_integer? user hgains.holds.integer?] at htruth
      exact ⟨value, m'.left, whole, hgains.congr rfl rfl, _, htruth, hgains.unlimited.releaseValue⟩

end Divisions

end FloorDivision
