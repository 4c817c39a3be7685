import FloorDivision.Proofs.Division.Entering
import FloorDivision.Proofs.Division.Lasting
import FloorDivision.Proofs.Heap.Ledger
import FloorDivision.Proofs.Machine.Exact

/-!
# Divisions to an object and to a truth value

* `run_isTrue` — a number is true through its type's slot if it is as an object.
* `divideInside_truth` — inside a division, a truth value is that of the quotient, which is then
  given back.
* `isNumber_divideInside` — the quotient of numbers is a number.
-/

namespace FloorDivision

open MachineM

/-- A value of a builtin type of numbers. -/
def Machine.IsNumber (m : Machine) : Value → Prop
  | .bool _ | .int _ | .float _ => True
  | .ref id => ∃ n, m.heap.content? id = some (.long n)
  | .none | .notImplemented => False

variable {m m' : Machine} {value lhs rhs : Value}

/-! ## The truth of numbers -/

/-- Reading a long out as a machine integer does not change whether it is zero. -/
theorem isTrue_longObject (level : Level) (n : Int) :
    (Machine.longObject level n).isTrue = (n != 0) := by
  unfold Machine.longObject
  split
  · rename_i h
    have hzero : Int64.ofInt n = 0 ↔ n = 0 := by
      rw [← Int64.toInt_inj, h.2, Int64.toInt_zero]
    show (Int64.ofInt n != 0) = (n != 0)
    rw [Bool.eq_iff_iff, bne_iff_ne, bne_iff_ne]
    exact not_congr hzero
  · rfl

theorem exists_truthSlot (h : m.IsNumber value) :
    ∃ kind, (m.typeOf value).slots.truth = some (.builtin kind) := by
  cases value with
  | none | notImplemented => exact h.elim
  | ref id =>
    obtain ⟨n, hn⟩ := h
    refine ⟨.long, ?_⟩
    simp only [Machine.typeOf, hn]
    rfl
  | bool | int | float => exact ⟨_, rfl⟩

/-- **A number is true through its slot if it is as an object.** -/
theorem run_isTrue (user : UserSlots) (h : m.IsNumber value) :
    isTrue user value m = (.ok (m.toObject value).isTrue, m) := by
  obtain ⟨kind, hkind⟩ := exists_truthSlot h
  unfold isTrue
  rw [run_get_bind, hkind]
  show BuiltinSlot.truth value m = _
  unfold BuiltinSlot.truth
  rw [run_get_bind]
  cases value with
  | none | notImplemented => exact h.elim
  | ref id =>
    obtain ⟨n, hn⟩ := h
    rw [Heap.numeric?_long hn]
    simp only [Machine.toObject, hn]
    rw [isTrue_longObject]
    rfl
  | bool value =>
    rw [Heap.numeric?_bool]
    cases value <;> rfl
  | int n =>
    rw [Heap.numeric?_int]
    rfl
  | float x =>
    rw [Heap.numeric?_float]
    rfl

/-! ## The truth of a quotient -/

/-- A native quotient is tested unboxed with the result that it would have as a value. -/
theorem run_truthOfQuotient (user : UserSlots) (quotient : Quotient) (m : Machine) :
    truthOfQuotient user quotient m = (quotient.toValue >>= truthOfOwned user) m := by
  cases quotient with
  | long n => rfl
  | int n =>
    show _ = truthOfOwned user (.int n) m
    unfold truthOfOwned
    rw [run_releasing, run_isTrue user (show m.IsNumber (.int n) from trivial)]
    rfl
  | float x =>
    show _ = truthOfOwned user (.float x) m
    unfold truthOfOwned
    rw [run_releasing, run_isTrue user (show m.IsNumber (.float x) from trivial)]
    rfl

/-- **Inside a division, a truth value is that of the quotient**, which is then given back. -/
theorem divideInside_truth (user : UserSlots) (entry : EntryPoint) (lhs rhs : Value) (m : Machine) :
    divideInside user entry (truthOfQuotient user) (truthOfOwned user) lhs rhs m =
      (divideInside user entry Quotient.toValue pure lhs rhs >>= truthOfOwned user) m := by
  rw [run_bind, run_divideInside, run_divideInside]
  cases fastKind? entry m lhs rhs with
  | none =>
    dsimp only
    rw [bind_pure, run_bind]
  | some kind =>
    dsimp only
    rw [run_bind, run_bind]
    rcases divideNatively kind lhs rhs m with ⟨e | quotient, m'⟩
    · rfl
    · show truthOfQuotient user quotient m' = _
      rw [run_truthOfQuotient, run_bind]

/-! ## The quotient of numbers -/

/-- What the slot of a kind of number comes to: it only reads the machine before it answers. -/
inductive SlotAnswer (m : Machine) : Except Failure Value × Machine → Prop where
  | declined : SlotAnswer m (.ok .notImplemented, m)
  | failed (e : Failure) : SlotAnswer m (.error e, m)
  | int (n : Int64) : SlotAnswer m (.ok (.int n), m)
  | float (x : Double) : SlotAnswer m (.ok (.float x), m)
  | long (n : Int) : SlotAnswer m (newLong n m)

theorem slotAnswer_divideInts (lhs rhs : Value) (m : Machine) :
    SlotAnswer m (BuiltinSlot.divideInts lhs rhs m) := by
  unfold BuiltinSlot.divideInts
  rw [run_get_bind]
  generalize m.heap.numeric? lhs = a?, m.heap.numeric? rhs = b?
  split
  · rename_i a b
    cases intFloorDivide a b with
    | error => exact .failed _
    | ok quotient =>
      cases quotient with
      | none => exact .long _
      | some => exact .int _
  · exact .declined

theorem slotAnswer_divideLongs (lhs rhs : Value) (m : Machine) :
    SlotAnswer m (BuiltinSlot.divideLongs lhs rhs m) := by
  unfold BuiltinSlot.divideLongs
  rw [run_get_bind]
  generalize (m.heap.numeric? lhs).bind (·.integer?) = a?,
    (m.heap.numeric? rhs).bind (·.integer?) = b?
  split
  · rename_i a b
    cases longFloorDivide a b with
    | error => exact .failed _
    | ok => exact .long _
  · exact .declined

theorem slotAnswer_divideFloats (lhs rhs : Value) (m : Machine) :
    SlotAnswer m (BuiltinSlot.divideFloats lhs rhs m) := by
  unfold BuiltinSlot.divideFloats
  rcases run_toDouble? lhs m with ⟨a?, hlhs⟩ | ⟨e, hlhs⟩
  · rw [run_bind_ok hlhs]
    cases a? with
    | none => exact .declined
    | some a =>
      dsimp only
      rcases run_toDouble? rhs m with ⟨b?, hrhs⟩ | ⟨e, hrhs⟩
      · rw [run_bind_ok hrhs]
        cases b? with
        | none => exact .declined
        | some b =>
          dsimp only
          cases floatFloorDivide a b with
          | ok quotient => exact .float quotient
          | error => exact .failed _
      · rw [run_bind_error hrhs]
        exact .failed e
  · rw [run_bind_error hlhs]
    exact .failed e

theorem slotAnswer_divide (kind : NumberKind) (lhs rhs : Value) (m : Machine) :
    SlotAnswer m (BuiltinSlot.divide kind lhs rhs m) := by
  cases kind with
  | int => exact slotAnswer_divideInts lhs rhs m
  | long => exact slotAnswer_divideLongs lhs rhs m
  | float => exact slotAnswer_divideFloats lhs rhs m

/-- A new integer is a number on a machine whose account is balanced. -/
theorem isNumber_newLong {held : Multiset Nat} (hb : m.heap.Balanced held) {n : Int}
    (h : newLong n m = (.ok value, m')) : m'.IsNumber value := by
  rw [run_newLong] at h
  split at h
  · cases h
    trivial
  · unfold allocate at h
    cases ha : m.heap.allocate (.long n) with
    | error refusal => rw [ha] at h; cases h
    | ok filled =>
      obtain ⟨id, heap⟩ := filled
      rw [ha] at h
      cases h
      exact ⟨n, (hb.allocate_long ha).2.1⟩

/-- A builtin slot declines and leaves the machine as it is, or answers with a number. -/
theorem SlotAnswer.isNumber {held : Multiset Nat} (hb : m.heap.Balanced held)
    (h : SlotAnswer m (.ok value, m')) : (value = .notImplemented ∧ m' = m) ∨ m'.IsNumber value := by
  generalize hrun : (Except.ok value, m') = run at h
  cases h with
  | declined => cases hrun; exact Or.inl ⟨rfl, rfl⟩
  | failed => cases hrun
  | int => cases hrun; exact Or.inr trivial
  | float => cases hrun; exact Or.inr trivial
  | long n => exact Or.inr (isNumber_newLong hb hrun.symm)

/-- Among builtin slots, the first answer is a number. -/
theorem isNumber_divideByCandidates (user : UserSlots) {held : Multiset Nat}
    (slots : List (Side × DivideSlot)) (hs : ∀ slot ∈ slots, ∃ kind, slot.2 = .builtin kind)
    (hb : m.heap.Balanced held)
    (h : divideByCandidates user lhs rhs slots m = (.ok (some value), m')) : m'.IsNumber value := by
  induction slots generalizing m with
  | nil => cases h
  | cons candidate rest ih =>
    obtain ⟨side, slot⟩ := candidate
    obtain ⟨kind, rfl⟩ : ∃ kind, slot = .builtin kind := hs _ List.mem_cons_self
    have answer := slotAnswer_divide kind lhs rhs (m.observe (.slotCall side))
    rw [run_divideByCandidates_cons] at h
    rcases hrun : callDivide user (.builtin kind) lhs rhs (m.observe (.slotCall side))
      with ⟨e | result, after⟩
    · rw [hrun] at h
      cases h
    · rw [hrun] at h
      rw [show BuiltinSlot.divide kind lhs rhs _ = _ from hrun] at answer
      have observed : (m.observe (.slotCall side)).heap.Balanced held := hb
      rcases answer.isNumber observed with ⟨rfl, rfl⟩ | hnumber
      · have declined : (((m.observe (.slotCall side)).observe (.slotDeclined side)).releaseValue
            .notImplemented).heap.Balanced held := hb
        exact ih (fun slot hslot => hs slot (List.mem_cons_of_mem _ hslot)) declined h
      · have hresult : result ≠ .notImplemented := by
          rintro rfl
          exact hnumber
        simp only [Value.isNotImplemented_iff, hresult, if_false] at h
        cases h
        exact hnumber

/-- A type whose slots for division are builtin ones, and that is no classic one. -/
def ObjectType.IsNumeric (type : ObjectType) : Prop :=
  (∀ slot, type.slots.divide = some slot → ∃ kind, slot = .builtin kind) ∧ type.isClassic = false

theorem isNumeric_number (level : Level) (kind : NumberKind) :
    (ObjectType.number level kind).IsNumeric :=
  ⟨fun _ h => ⟨kind, (Option.some.inj h).symm⟩, rfl⟩

theorem isNumeric_typeOf (h : m.IsNumber value) : (m.typeOf value).IsNumeric := by
  cases value with
  | none | notImplemented => exact h.elim
  | ref id =>
    obtain ⟨n, hn⟩ := h
    simp only [Machine.typeOf, hn]
    exact isNumeric_number _ _
  | bool b => exact ⟨fun _ h => ⟨_, (Option.some.inj h).symm⟩, rfl⟩
  | int | float => exact isNumeric_number _ _

theorem divide_of_offeredSlot? {level : Level} {shape : Shape} {type : ObjectType}
    {slot : DivideSlot} (h : offeredSlot? level shape type = some slot) :
    type.slots.divide = some slot := by
  unfold offeredSlot? at h
  split at h
  · exact h
  · cases h

/-- Each slot that is tried is the slot of an operand's type. -/
theorem divide_of_mem_candidates {entry : EntryPoint} {leftType rightType : ObjectType}
    {slot : Side × DivideSlot} (h : slot ∈ candidates entry leftType rightType) :
    leftType.slots.divide = some slot.2 ∨ rightType.slots.divide = some slot.2 := by
  have of_left : slot ∈ (offeredSlot? entry.level entry.left leftType).toList.map (Side.left, ·) →
      leftType.slots.divide = some slot.2 := by
    intro hmem
    obtain ⟨left, hleft, rfl⟩ := List.mem_map.mp hmem
    exact divide_of_offeredSlot? (Option.mem_toList.mp hleft)
  have of_right : ∀ right? : Option DivideSlot,
      (∀ right, right? = some right → rightType.slots.divide = some right) →
      slot ∈ right?.toList.map (Side.right, ·) → rightType.slots.divide = some slot.2 := by
    intro right? hright hmem
    obtain ⟨right, hr, rfl⟩ := List.mem_map.mp hmem
    exact hright right (Option.mem_toList.mp hr)
  have right_own : ∀ right, (if leftType.id = rightType.id then none
      else (offeredSlot? entry.level entry.right rightType).filter fun slot =>
        offeredSlot? entry.level entry.left leftType ≠ some slot) = some right →
      rightType.slots.divide = some right := by
    intro right hr
    split at hr
    · cases hr
    · exact divide_of_offeredSlot? (Option.filter_eq_some_iff.mp hr).1
  unfold candidates at h
  dsimp only at h
  split at h
  · exact (List.mem_append.mp h).symm.imp of_left (of_right _ right_own)
  · exact (List.mem_append.mp h).imp of_left (of_right _ right_own)

/-- Slots that are tried are builtin if those of the operands' types are. -/
theorem builtin_of_mem_candidates {entry : EntryPoint} {leftType rightType : ObjectType}
    (hl : ∀ slot, leftType.slots.divide = some slot → ∃ kind, slot = .builtin kind)
    (hr : ∀ slot, rightType.slots.divide = some slot → ∃ kind, slot = .builtin kind) :
    ∀ slot ∈ candidates entry leftType rightType, ∃ kind, slot.2 = .builtin kind :=
  fun _ h => (divide_of_mem_candidates h).elim (hl _) (hr _)

/-- Types of numbers are not classic, so nothing is coerced for them. -/
theorem mayCoerce_of_isNumeric {entry : EntryPoint} {leftType rightType : ObjectType}
    (hl : leftType.IsNumeric) (hr : rightType.IsNumeric) :
    mayCoerce entry leftType rightType = false := by
  unfold mayCoerce ObjectType.isNewStyle
  rw [hl.2, hr.2]
  simp

theorem isNumber_divideBySlots (user : UserSlots) {entry : EntryPoint} {held : Multiset Nat}
    (hb : m.heap.Balanced held) (hl : m.IsNumber lhs) (hr : m.IsNumber rhs)
    (h : divideBySlots user entry lhs rhs m = (.ok value, m')) : m'.IsNumber value := by
  have hleft := Shape.typeAt_of (isNumeric_number entry.level) (isNumeric_typeOf hl) entry.left
  have hright := Shape.typeAt_of (isNumeric_number entry.level) (isNumeric_typeOf hr) entry.right
  rw [run_divideBySlots user (operandType_eq entry.left_exists m lhs)
    (operandType_eq entry.right_exists m rhs), run_bind] at h
  generalize entry.left.typeAt entry.level m lhs = leftType at hleft h
  generalize entry.right.typeAt entry.level m rhs = rightType at hright h
  rcases hrun : divideByCandidates user lhs rhs (candidates entry leftType rightType) m
    with ⟨e | _ | result, after⟩
  · rw [hrun] at h
    cases h
  · rw [hrun] at h
    unfold divideWithoutSlots at h
    dsimp only at h
    rw [mayCoerce_of_isNumeric hleft hright] at h
    cases h
  · rw [hrun] at h
    cases h
    exact isNumber_divideByCandidates user _ (builtin_of_mem_candidates hleft.1 hright.1) hb hrun

section Native

variable {β : Type} {part : Machine → β}
  (hp : ∀ (m : Machine) tracer, part { m with tracer } = part m)
include hp

theorem keeps_divideInts (a b : Int64) : (divideInts a b).Keeps part := by
  unfold divideInts
  cases intFloorDivide a b with
  | error => exact keeps_throw _
  | ok quotient =>
    cases quotient with
    | none => exact fun m => hp m _
    | some => exact keeps_pure _

theorem keeps_divideLongs (lhs rhs : Value) : (divideLongs lhs rhs).Keeps part := by
  unfold divideLongs
  refine .look fun m => ?_
  split
  · exact keeps_divideInts hp _ _
  · split
    · rename_i a b _ _
      cases longFloorDivide a b with
      | error => exact keeps_throw _
      | ok => exact keeps_pure _
    · exact keeps_throw _

/-- A native division changes nothing but the tracer. -/
theorem keeps_divideNatively (kind : NumberKind) (lhs rhs : Value) :
    (divideNatively kind lhs rhs).Keeps part := by
  unfold divideNatively
  refine .bind (fun m => hp m _) fun _ => ?_
  split
  · exact keeps_divideInts hp _ _
  · exact keeps_divideLongs hp lhs rhs
  · rename_i a b
    cases floatFloorDivide a b with
    | error => exact keeps_throw _
    | ok => exact keeps_pure _
  · exact keeps_throw _

end Native

/-- **The quotient of numbers is a number.** -/
theorem isNumber_divideInside (user : UserSlots) {entry : EntryPoint} {held : Multiset Nat}
    (hb : m.heap.Balanced held) (hl : m.IsNumber lhs) (hr : m.IsNumber rhs)
    (h : divideInside user entry Quotient.toValue pure lhs rhs m = (.ok value, m')) :
    m'.IsNumber value := by
  rw [run_divideInside] at h
  cases hkind : fastKind? entry m lhs rhs with
  | none =>
    rw [hkind] at h
    dsimp only at h
    rw [bind_pure] at h
    exact isNumber_divideBySlots user hb hl hr h
  | some kind =>
    rw [hkind] at h
    dsimp only at h
    rw [run_bind] at h
    have reads : (divideNatively kind lhs rhs).Keeps Machine.heap :=
      keeps_divideNatively (fun _ _ => rfl) kind lhs rhs
    have hheap := reads m
    rcases hrun : divideNatively kind lhs rhs m with ⟨e | quotient, after⟩
    · rw [hrun] at h
      cases h
    · rw [hrun] at h hheap
      cases quotient with
      | int | float => cases h; trivial
      | long n =>
        have hafter : after.heap.Balanced held := by rwa [show after.heap = m.heap from hheap]
        exact isNumber_newLong hafter h

/-! ## Agreement -/

/-- A division fails alike in both ways, or its quotient is tested before it is left. -/
theorem divideToTruth_cases (user : UserSlots) (entry : EntryPoint) (lhs rhs : Value) (m : Machine) :
    (∃ e after, divide user entry lhs rhs m = (.error e, after) ∧
      divideToTruth user entry lhs rhs m = (.error e, after)) ∨
    ∃ value inside,
      divideInside user entry Quotient.toValue pure lhs rhs (m.entered entry) =
        (.ok value, inside) ∧
      divide user entry lhs rhs m = (.ok value, inside.left) ∧
      divideToTruth user entry lhs rhs m = ((isTrue user value inside).1,
        ((isTrue user value inside).2.releaseValue value).left) := by
  unfold divide divideToTruth
  rw [run_divideWith, run_divideWith]
  split
  · exact Or.inl ⟨_, _, rfl, rfl⟩
  · cases m.heap.budget.checkDepth m.depth with
    | error refusal => exact Or.inl ⟨_, _, rfl, rfl⟩
    | ok =>
      dsimp only
      rw [divideInside_truth, run_bind]
      rcases hrun : divideInside user entry Quotient.toValue pure lhs rhs (m.entered entry)
        with ⟨e | value, inside⟩
      · exact Or.inl ⟨e, _, rfl, rfl⟩
      · exact Or.inr ⟨value, inside, rfl, rfl, rfl⟩

/--
**A division to a truth value agrees with the one to an object** on the same machine.

A failure of the one is the failure of the other and leaves the same machine.  Where there is a
quotient, its truth is what its type's slot says before the division is left, and it is given back
then.  A caller that only learns that there was a failure gets the truth value, or nothing for a
failure, which is kept in place of the one before.  The truth value of a quotient of numbers is that
of the object it is read out as.
-/
theorem truth_agrees_with_object (user : UserSlots) (entry : EntryPoint) (lhs rhs : Value)
    (m : Machine) :
    (∀ e after, divide user entry lhs rhs m = (.error e, after) →
      divideToTruth user entry lhs rhs m = (.error e, after)) ∧
    (∀ value after, divide user entry lhs rhs m = (.ok value, after) →
      ∃ inside, after = inside.left ∧ (user.Keeps Machine.depth → inside.depth = m.depth + 1) ∧
        divideToTruth user entry lhs rhs m = ((isTrue user value inside).1,
          ((isTrue user value inside).2.releaseValue value).left)) ∧
    (divideToPending user entry lhs rhs m = match divideToTruth user entry lhs rhs m with
      | (.ok truth, after) => (some truth, after)
      | (.error e, after) => (none, { after with pending := some e })) ∧
    (user.Keeps Machine.pending → (divideToTruth user entry lhs rhs m).2.pending = m.pending) ∧
    (∀ held, m.heap.Balanced held → m.IsNumber lhs → m.IsNumber rhs →
      ∀ value after, divide user entry lhs rhs m = (.ok value, after) →
        (divideToTruth user entry lhs rhs m).1 = .ok (after.toObject value).isTrue) := by
  have ways := divideToTruth_cases user entry lhs rhs m
  refine ⟨fun e after h => ?_, fun value after h => ?_, run_divideToPending user entry lhs rhs m,
    fun hu => (Composed.divideToTruth entry lhs rhs).keeps Machine.lasting_pending hu m,
    fun held hb hl hr value after h => ?_⟩
  · rcases ways with ⟨e', after', hobject, htruth⟩ | ⟨value, inside, _, hobject, _⟩
    · rw [hobject] at h
      cases h
      exact htruth
    · rw [hobject] at h
      cases h
  · rcases ways with ⟨e, after', hobject, _⟩ | ⟨value', inside, hinside, hobject, htruth⟩
    · rw [hobject] at h
      cases h
    · rw [hobject] at h
      cases h
      refine ⟨inside, rfl, fun hu => ?_, htruth⟩
      have := (Composed.divideInside entry lhs rhs).keeps Machine.lasting_depth hu (m.entered entry)
      rwa [hinside] at this
  · rcases ways with ⟨e, after', hobject, _⟩ | ⟨value', inside, hinside, hobject, htruth⟩
    · rw [hobject] at h
      cases h
    · rw [hobject] at h
      cases h
      have hentered : (m.entered entry).heap.Balanced held := hb
      have number := isNumber_divideInside user hentered hl hr hinside
      rw [htruth, run_isTrue user number]
      rfl

/-- Two legacy longs, whose quotient is a long of its own while it is tested. -/
theorem truth_agrees_with_object_of_longs :
    let heap : Heap :=
      { cells := #[some ⟨1, .long 7⟩, some ⟨1, .long 2⟩], budget := .depthOnly 1000 }
    let m : Machine := { config := { level := .legacy }, heap }
    let user : UserSlots :=
      { divide := fun _ _ _ => return .notImplemented
        coerce := fun _ _ _ => return none
        truth := fun _ _ => return true }
    let entry : EntryPoint := ⟨.legacy, .known .long, .known .long, rfl, rfl⟩
    m.heap.Balanced ({0} + {1}) ∧ user.Keeps Machine.pending ∧
      (divide user entry (.ref 0) (.ref 1) m).1 = .ok (.ref 2) ∧
      (divideToTruth user entry (.ref 0) (.ref 1) m).1 = .ok true ∧
      (divideToTruth user entry (.ref 0) (.ref 1) m).2.pending = m.pending := by
  intro heap m user entry
  have hb : m.heap.Balanced ({0} + {1}) := by
    have first : Heap.allocate (.long 7) { budget := .depthOnly 1000 } =
        .ok (0, { cells := #[some ⟨1, .long 7⟩], budget := .depthOnly 1000 }) := rfl
    have second : Heap.allocate (.long 2)
        { cells := #[some ⟨1, .long 7⟩], budget := .depthOnly 1000 } = .ok (1, heap) := rfl
    have empty : Heap.Balanced { budget := .depthOnly 1000 } (0 + (Content.long 7).refs) :=
      Heap.balanced_empty _
    have filled := (empty.allocate first).1
    rw [Multiset.zero_add] at filled
    have held : Heap.Balanced { cells := #[some ⟨1, .long 7⟩], budget := .depthOnly 1000 }
        ({0} + (Content.long 2).refs) := by
      rwa [show (Content.long 2).refs = 0 from rfl, Multiset.add_zero]
    exact (held.allocate second).1
  have hu : user.Keeps Machine.pending := ⟨fun _ _ _ _ => rfl, fun _ _ _ _ => rfl, fun _ _ _ => rfl⟩
  have agrees := truth_agrees_with_object user entry (.ref 0) (.ref 1) m
  have quotient : divide user entry (.ref 0) (.ref 1) m =
      (.ok (.ref 2), (divide user entry (.ref 0) (.ref 1) m).2) := by rfl
  have truth := agrees.2.2.2.2 _ hb ⟨7, rfl⟩ ⟨2, rfl⟩ _ _ quotient
  exact ⟨hb, hu, rfl, truth, agrees.2.2.2.1 hu⟩

end FloorDivision
