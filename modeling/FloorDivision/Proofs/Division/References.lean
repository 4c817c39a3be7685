import FloorDivision.Proofs.Division.Entering
import FloorDivision.Proofs.Machine.Exact
import FloorDivision.Proofs.Machine.Settles

/-!
# References in division

Division borrows its operands, owns what it makes on the way and hands over its quotient.

* `UserSlots.Neutral` — slots of user types that bring the references of what they return and
  change no others.
* `settles_divideCoerced` — a converted pair is given back once on every path.
* `Machine.Reached` — machines that code outside brings about; their accounts are balanced.
* `division_neutral` — with such slots a division brings the references of its result only.
-/

namespace FloorDivision

open MachineM

/-- The references of what an attempt at conversion led to. -/
def CoercionOutcome.refs : CoercionOutcome → Multiset Nat
  | .computed value => value.refs
  | .unsupported | .undecided => 0

/--
On machines with these limits, each slot keeps the references that are held, those to its operands
and to what it captured among them, and adds those of what it returns.
-/
structure UserSlots.Neutral (user : UserSlots) (limits? : Option Limits) (captured : Multiset Nat) :
    Prop where
  divide : ∀ definer lhs rhs kept, captured ⊆ kept → lhs.refs ⊆ kept → rhs.refs ⊆ kept →
    Settles limits? kept 0 (user.divide definer lhs rhs) Value.refs
  coerce : ∀ definer own other kept, captured ⊆ kept → own.refs ⊆ kept → other.refs ⊆ kept →
    Settles limits? kept 0 (user.coerce definer own other) (optionRefs pairRefs)
  truth : ∀ definer value kept, captured ⊆ kept → value.refs ⊆ kept →
    Settles limits? kept 0 (user.truth definer value) fun _ => 0

variable {user : UserSlots} {limits? : Option Limits} {captured kept : Multiset Nat}
  {lhs rhs : Value}

/-! ## Builtin slots -/

theorem settles_slotInts (lhs rhs : Value) :
    Settles limits? kept 0 (BuiltinSlot.divideInts lhs rhs) Value.refs := by
  unfold BuiltinSlot.divideInts
  refine .look fun m => ?_
  dsimp only
  split
  · rename_i a b _ _
    cases intFloorDivide a b with
    | error => exact settles_throw _
    | ok quotient =>
      cases quotient with
      | none => exact settles_newLong _
      | some => exact settles_pure rfl
  · exact settles_pure rfl

theorem settles_slotLongs (lhs rhs : Value) :
    Settles limits? kept 0 (BuiltinSlot.divideLongs lhs rhs) Value.refs := by
  unfold BuiltinSlot.divideLongs
  refine .look fun m => ?_
  split
  · rename_i a b _ _
    cases longFloorDivide a b with
    | error => exact settles_throw _
    | ok => exact settles_newLong _
  · exact settles_pure rfl

theorem settles_toDoubleBy (ofLong? : Int → Option Double) (level : Level)
    (number? : Option Numeric) :
    Settles limits? kept 0 (toDoubleBy ofLong? level number?) fun _ => 0 := by
  unfold toDoubleBy
  split
  · exact settles_pure rfl
  · exact settles_pure rfl
  · split
    · exact settles_pure rfl
    · exact settles_throw _
  · exact settles_pure rfl

theorem settles_toDouble? (value : Value) :
    Settles limits? kept 0 (BuiltinSlot.toDouble? value) fun _ => 0 := by
  rw [toDouble?_eq]
  exact .look fun m => settles_toDoubleBy _ _ _

theorem settles_slotFloats (lhs rhs : Value) :
    Settles limits? kept 0 (BuiltinSlot.divideFloats lhs rhs) Value.refs := by
  unfold BuiltinSlot.divideFloats
  refine (settles_toDouble? lhs).bind fun a => ?_
  cases a with
  | none => exact settles_pure rfl
  | some a =>
    refine (settles_toDouble? rhs).bind fun b => ?_
    cases b with
    | none => exact settles_pure rfl
    | some b =>
      dsimp only
      cases floatFloorDivide a b with
      | ok => exact settles_pure rfl
      | error => exact .look fun m => settles_throw _

theorem settles_builtinDivide (kind : NumberKind) (lhs rhs : Value) :
    Settles limits? kept 0 (BuiltinSlot.divide kind lhs rhs) Value.refs := by
  cases kind
  · exact settles_slotInts lhs rhs
  · exact settles_slotLongs lhs rhs
  · exact settles_slotFloats lhs rhs

variable {own other : Value}

/-- A pair of which both references are new. -/
theorem settles_answerPair {first second : Value} {gained : Multiset Nat}
    (h : gained = first.refs + second.refs) :
    Settles limits? kept gained (pure (some (first, second))) (optionRefs pairRefs) :=
  settles_pure h.symm

theorem settles_coerceInts (ho : own.refs ⊆ kept) (hr : other.refs ⊆ kept) :
    Settles limits? kept 0 (BuiltinSlot.coerceInts own other) (optionRefs pairRefs) := by
  unfold BuiltinSlot.coerceInts
  refine .look fun m => ?_
  split
  · exact (settles_retain ho).bind fun x => (settles_retain_next hr).bind fun y =>
      settles_answerPair rfl
  · exact settles_pure rfl

theorem settles_coerceLongs (ho : own.refs ⊆ kept) (hr : other.refs ⊆ kept) :
    Settles limits? kept 0 (BuiltinSlot.coerceLongs own other) (optionRefs pairRefs) := by
  unfold BuiltinSlot.coerceLongs
  refine .look fun m => ?_
  split
  · exact (settles_newLong _).bind fun x => (settles_retain_next ho).bind fun y =>
      settles_answerPair (Multiset.add_comm _ _)
  · exact (settles_retain hr).bind fun x => (settles_retain_next ho).bind fun y =>
      settles_answerPair (Multiset.add_comm _ _)
  · exact settles_pure rfl

theorem settles_coerceFloats (ho : own.refs ⊆ kept) (hr : other.refs ⊆ kept) :
    Settles limits? kept 0 (BuiltinSlot.coerceFloats own other) (optionRefs pairRefs) := by
  unfold BuiltinSlot.coerceFloats
  refine .look fun m => ?_
  split
  · exact (settles_retain hr).bind fun x => (settles_retain_next ho).bind fun y =>
      settles_answerPair (Multiset.add_comm _ _)
  · refine (settles_toDouble? other).bind fun x => ?_
    split
    · exact (settles_retain ho).bind fun y =>
        settles_answerPair (Multiset.add_zero _).symm
    · exact settles_pure rfl
  · exact settles_pure rfl

theorem settles_builtinCoerce (kind : NumberKind) (ho : own.refs ⊆ kept) (hr : other.refs ⊆ kept) :
    Settles limits? kept 0 (BuiltinSlot.coerce kind own other) (optionRefs pairRefs) := by
  cases kind
  · exact settles_coerceInts ho hr
  · exact settles_coerceLongs ho hr
  · exact settles_coerceFloats ho hr

theorem settles_builtinTruth (value : Value) :
    Settles limits? kept 0 (BuiltinSlot.truth value) fun _ => 0 := by
  unfold BuiltinSlot.truth
  refine .look fun m => ?_
  split
  · exact settles_pure rfl
  · exact settles_pure rfl
  · exact settles_pure rfl
  · exact settles_pure rfl

/-! ## Slot calls -/

/-- A pair holds the same references in either order. -/
theorem optionRefs_inOrder (side : Side) (pair? : Option (Value × Value)) :
    optionRefs pairRefs (pair?.map side.inOrder) = optionRefs pairRefs pair? := by
  cases pair? with
  | none => rfl
  | some pair =>
    cases side with
    | left => rfl
    | right => exact Multiset.add_comm _ _

section Calls

variable (hu : user.Neutral limits? captured) (hc : captured ⊆ kept)

include hu hc

theorem settles_callDivide (slot : DivideSlot) (hl : lhs.refs ⊆ kept) (hr : rhs.refs ⊆ kept) :
    Settles limits? kept 0 (callDivide user slot lhs rhs) Value.refs := by
  cases slot with
  | builtin kind => exact settles_builtinDivide kind lhs rhs
  | user definer => exact (settles_note _).bind fun _ => hu.divide definer lhs rhs kept hc hl hr

theorem settles_callCoerce (slot : CoerceSlot) (ho : own.refs ⊆ kept) (hr : other.refs ⊆ kept) :
    Settles limits? kept 0 (callCoerce user slot own other) (optionRefs pairRefs) := by
  cases slot with
  | builtin kind => exact settles_builtinCoerce kind ho hr
  | user definer => exact (settles_note _).bind fun _ => hu.coerce definer own other kept hc ho hr

theorem settles_isTrue {value : Value} (hv : value.refs ⊆ kept) :
    Settles limits? kept 0 (isTrue user value) fun _ => 0 := by
  unfold isTrue
  refine .look fun m => ?_
  split
  · rename_i slot _
    cases slot with
    | never => exact settles_pure rfl
    | builtin => exact settles_builtinTruth value
    | user definer => exact (settles_note _).bind fun _ => hu.truth definer value kept hc hv
  · exact settles_pure rfl

theorem settles_truthOfOwned (value : Value) :
    Settles limits? kept value.refs (truthOfOwned user value) fun _ => 0 := by
  have inner : Settles limits? (kept + value.refs) 0 (isTrue user value) fun _ => 0 :=
    settles_isTrue hu (fun _ h => Multiset.subset_add_left (hc h)) Multiset.subset_add_right
  have := inner.releasing
  rwa [Multiset.zero_add] at this

/-! ## Coercion -/

/--
**A converted pair is given back once on every path**: where its type has no slot, and where the
slot answers, declines or fails.
-/
theorem settles_divideCoerced (side : Side) (pair : Option (Value × Value)) :
    Settles limits? kept (optionRefs pairRefs pair) (divideCoerced user side pair)
      CoercionOutcome.refs := by
  cases pair with
  | none => exact (settles_observe _).bind fun _ => settles_pure rfl
  | some pair =>
    obtain ⟨first, second⟩ := pair
    refine (settles_observe _).bind fun _ => .releasingBoth (.look fun m => ?_)
    split
    · exact settles_pure rfl
    · rename_i slot _
      have hcaptured : captured ⊆ kept + second.refs + first.refs := fun _ h =>
        Multiset.subset_add_left (Multiset.subset_add_left (hc h))
      have hsecond : second.refs ⊆ kept + second.refs + first.refs := fun _ h =>
        Multiset.subset_add_left (Multiset.subset_add_right h)
      refine (settles_callDivide hu hcaptured slot Multiset.subset_add_right hsecond).bind
        fun result => ?_
      split
      · exact (settles_release result).bind fun _ => settles_pure rfl
      · exact settles_pure rfl

theorem settles_divideByCoercionOf (side : Side) (slot : Option CoerceSlot) (hl : lhs.refs ⊆ kept)
    (hr : rhs.refs ⊆ kept) :
    Settles limits? kept 0 (divideByCoercionOf user side slot lhs rhs) CoercionOutcome.refs := by
  cases slot with
  | none => exact settles_pure rfl
  | some slot =>
    obtain ⟨hown, hother⟩ : (side.inOrder (lhs, rhs)).1.refs ⊆ kept ∧
        (side.inOrder (lhs, rhs)).2.refs ⊆ kept := by
      cases side with
      | left => exact ⟨hl, hr⟩
      | right => exact ⟨hr, hl⟩
    refine (settles_callCoerce hu hc slot hown hother).bind fun pair => ?_
    rw [← optionRefs_inOrder side pair]
    exact settles_divideCoerced hu hc side _

theorem settles_divideByCoercion (leftType rightType : ObjectType) (hl : lhs.refs ⊆ kept)
    (hr : rhs.refs ⊆ kept) :
    Settles limits? kept 0 (divideByCoercion user leftType rightType lhs rhs)
      (optionRefs Value.refs) := by
  refine (settles_divideByCoercionOf hu hc .left _ hl hr).bind fun outcome => ?_
  cases outcome with
  | computed value => exact settles_pure rfl
  | unsupported => exact settles_pure rfl
  | undecided =>
    refine (settles_divideByCoercionOf hu hc .right _ hl hr).bind fun outcome => ?_
    cases outcome with
    | computed value => exact settles_pure rfl
    | unsupported | undecided => exact settles_pure rfl

/-! ## Division -/

/-- What a slot answers when it declines is given back before the next one is called. -/
theorem settles_divideByCandidates (slots : List (Side × DivideSlot)) (hl : lhs.refs ⊆ kept)
    (hr : rhs.refs ⊆ kept) :
    Settles limits? kept 0 (divideByCandidates user lhs rhs slots) (optionRefs Value.refs) := by
  induction slots with
  | nil => exact settles_pure rfl
  | cons candidate rest ih =>
    obtain ⟨side, slot⟩ := candidate
    refine (settles_observe _).bind fun _ =>
      (settles_callDivide hu hc slot hl hr).bind fun result => ?_
    split
    · exact (settles_observe _).bind fun _ => (settles_release result).bind fun _ => ih
    · exact settles_pure rfl

omit hu hc in
theorem settles_refuseOperands (entry : EntryPoint) (leftType rightType : ObjectType) :
    Settles limits? kept 0 (refuseOperands entry leftType rightType) Value.refs :=
  (settles_observe _).bind fun _ => settles_throw _

omit hu hc in
theorem settles_lift {α : Type} (x : Except Failure α) :
    Settles limits? kept 0 (liftM x : MachineM α) fun _ => 0 := by
  cases x with
  | ok x => exact settles_pure rfl
  | error e => exact settles_throw e

theorem settles_divideBySlots (entry : EntryPoint) (hl : lhs.refs ⊆ kept) (hr : rhs.refs ⊆ kept) :
    Settles limits? kept 0 (divideBySlots user entry lhs rhs) Value.refs := by
  unfold divideBySlots
  refine .look fun m => (settles_lift _).bind fun leftType => (settles_lift _).bind fun rightType =>
    (settles_divideByCandidates hu hc _ hl hr).bind fun value? => ?_
  split
  · exact settles_pure rfl
  · split
    · refine (settles_divideByCoercion hu hc leftType rightType hl hr).bind fun value? => ?_
      split
      · exact settles_pure rfl
      · exact settles_refuseOperands entry leftType rightType
    · exact settles_refuseOperands entry leftType rightType

omit hu hc in
theorem settles_nativeInts (a b : Int64) :
    Settles limits? kept 0 (divideInts a b) fun _ => 0 := by
  unfold divideInts
  cases intFloorDivide a b with
  | error => exact settles_throw _
  | ok quotient =>
    cases quotient with
    | none => exact (settles_observe _).bind fun _ => settles_pure rfl
    | some => exact settles_pure rfl

omit hu hc in
theorem settles_nativeLongs (lhs rhs : Value) :
    Settles limits? kept 0 (divideLongs lhs rhs) fun _ => 0 := by
  unfold divideLongs
  refine .look fun m => ?_
  split
  · exact settles_nativeInts _ _
  · split
    · rename_i a b _ _
      cases longFloorDivide a b with
      | error => exact settles_throw _
      | ok => exact settles_pure rfl
    · exact settles_throw _

omit hu hc in
/-- A native quotient is not a value yet, and the operands are only read. -/
theorem settles_divideNatively (kind : NumberKind) (lhs rhs : Value) :
    Settles limits? kept 0 (divideNatively kind lhs rhs) fun _ => 0 := by
  unfold divideNatively
  refine (settles_observe _).bind fun _ => ?_
  split
  · exact settles_nativeInts _ _
  · exact settles_nativeLongs lhs rhs
  · rename_i a b
    cases floatFloorDivide a b with
    | error => exact settles_throw _
    | ok => exact settles_pure rfl
  · exact settles_throw _

variable {α : Type} {native : Quotient → MachineM α} {generic : Value → MachineM α}
  {refs : α → Multiset Nat}

/-- Whatever is made of the quotient, as long as it settles the references of the quotient. -/
theorem settles_divideWith (entry : EntryPoint) (hl : lhs.refs ⊆ kept) (hr : rhs.refs ⊆ kept)
    (hn : ∀ quotient, Settles limits? kept 0 (native quotient) refs)
    (hg : ∀ value, Settles limits? kept value.refs (generic value) refs) :
    Settles limits? kept 0 (divideWith user entry native generic lhs rhs) refs := by
  have inside : Settles limits? kept 0 (divideInside user entry native generic lhs rhs) refs := by
    refine .look fun m => ?_
    split
    · exact (settles_divideNatively _ lhs rhs).bind hn
    · exact (settles_divideBySlots hu hc entry hl hr).bind hg
  have entered : Settles limits? kept 0 _ refs := .nested fun depth =>
    (settles_observe (.dispatch entry.left entry.right depth)).bind fun _ => inside
  unfold divideWith
  refine .look fun m => ?_
  dsimp only
  split
  · have refused : ∀ e, Settles limits? kept 0 (throw e) fun _ : PUnit => 0 := settles_throw
    exact (refused _).bind fun _ => entered
  · exact entered

theorem settles_divide (entry : EntryPoint) (hl : lhs.refs ⊆ kept) (hr : rhs.refs ⊆ kept) :
    Settles limits? kept 0 (divide user entry lhs rhs) Value.refs := by
  refine settles_divideWith hu hc entry hl hr (fun quotient => ?_) fun value => settles_pure rfl
  cases quotient with
  | int | float => exact settles_pure rfl
  | long n => exact settles_newLong n

theorem settles_divideToTruth (entry : EntryPoint) (hl : lhs.refs ⊆ kept) (hr : rhs.refs ⊆ kept) :
    Settles limits? kept 0 (divideToTruth user entry lhs rhs) fun _ => 0 := by
  refine settles_divideWith hu hc entry hl hr (fun quotient => ?_) fun value =>
    settles_truthOfOwned hu hc value
  cases quotient with
  | int | float => exact settles_pure rfl
  | long n => exact (settles_newLong n).bind fun value => settles_truthOfOwned hu hc value

end Calls

/-! ## Machines that are reached -/

/--
The machines that code outside brings about, with the references that it holds then: it starts with
none and goes on by what a machine offers, divisions under neutral slots included.  The reference to
the payload of an instance that is refused is lost, so such refusals are left out.
-/
inductive Machine.Reached : Machine → Multiset Nat → Prop where
  | start (config : Config) (tracer : Tracer) : Reached (.start config tracer) 0
  | newLong {m : Machine} {held : Multiset Nat} (n : Int) :
      Reached m held → Reached (newLong n m).2 (held + resultRefs Value.refs (newLong n m).1)
  | newInstance {m : Machine} {held : Multiset Nat} {id : Nat} {heap : Heap} (type : ObjectType)
      (payload : Value) :
      Reached m (held + payload.refs) → m.heap.allocate (.instanceOf type payload) = .ok (id, heap) →
        Reached { m with heap } (held + {id})
  | retain {m : Machine} {held : Multiset Nat} {value : Value} :
      Reached m held → value.refs ⊆ held → Reached (m.retainValue value) (held + value.refs)
  | release {m : Machine} {held : Multiset Nat} {value : Value} :
      Reached m (held + value.refs) → Reached (m.releaseValue value) held
  | divide {m : Machine} {held captured : Multiset Nat} {user : UserSlots} {lhs rhs : Value}
      (entry : EntryPoint) :
      Reached m held → user.Neutral m.heap.budget.limits? captured → captured ⊆ held →
        lhs.refs ⊆ held → rhs.refs ⊆ held →
        Reached (divide user entry lhs rhs m).2
          (held + resultRefs Value.refs (divide user entry lhs rhs m).1)
  | divideToTruth {m : Machine} {held captured : Multiset Nat} {user : UserSlots} {lhs rhs : Value}
      (entry : EntryPoint) :
      Reached m held → user.Neutral m.heap.budget.limits? captured → captured ⊆ held →
        lhs.refs ⊆ held → rhs.refs ⊆ held → Reached (divideToTruth user entry lhs rhs m).2 held
  /-- What a machine has beside its heap may change. -/
  | beside {m m' : Machine} {held : Multiset Nat} :
      Reached m held → m'.heap = m.heap → Reached m' held

theorem resultRefs_zero {α : Type} (result : Except Failure α) :
    resultRefs (fun _ => 0) result = 0 := by
  cases result <;> rfl

/-- **The account of every machine that is reached is balanced.** -/
theorem Machine.Reached.balanced {m : Machine} {held : Multiset Nat} (h : m.Reached held) :
    m.heap.Balanced held := by
  induction h with
  | start config tracer => exact Heap.balanced_empty _
  | newLong n _ ih => exact (settles_newLong n _ rfl (by rwa [Multiset.add_zero])).balanced
  | newInstance type payload _ ha ih => exact (ih.allocate ha).1
  | retain _ hv ih =>
    have := (Heap.settles_retainValue (by rwa [Multiset.add_zero]) hv).balanced
    rwa [Multiset.zero_add] at this
  | @release m held value _ ih =>
    have hrest : m.heap.Balanced (held + (0 + value.refs)) := by rwa [Multiset.zero_add]
    have := (Heap.settles_releaseValue hrest).balanced
    rwa [Multiset.add_zero] at this
  | divide entry _ hu hc hl hr ih =>
    exact (settles_divide hu hc entry hl hr _ rfl (by rwa [Multiset.add_zero])).balanced
  | divideToTruth entry _ hu hc hl hr ih =>
    have := (settles_divideToTruth hu hc entry hl hr _ rfl (by rwa [Multiset.add_zero])).balanced
    rwa [resultRefs_zero, Multiset.add_zero] at this
  | beside _ heq ih => rwa [heq]

/-! ## Neutrality -/

/--
**Division is neutral to references.**  The operands are borrowed: their references are among those
held.  If the slots of user types are neutral, a division to an object adds the reference of its
quotient and nothing else, and every division to a truth value, and every one that fails, leaves
the references held as they were.  Nothing that they lead to changes, so none of them is given back
on the way.  What declines is given back before the next slot is called, and a converted pair is
given back once, whatever becomes of it.
-/
theorem division_neutral {m : Machine} {held : Multiset Nat} (hb : m.heap.Balanced held)
    (hu : user.Neutral m.heap.budget.limits? captured) (hc : captured ⊆ held)
    (hl : lhs.refs ⊆ held) (hr : rhs.refs ⊆ held) (entry : EntryPoint) :
    m.heap.Settles held (resultRefs Value.refs (divide user entry lhs rhs m).1)
      (divide user entry lhs rhs m).2.heap ∧
    m.heap.Settles held 0 (divideToTruth user entry lhs rhs m).2.heap ∧
    m.heap.Settles held 0 (divideToPending user entry lhs rhs m).2.heap ∧
    (∀ slots, MachineM.Settles m.heap.budget.limits? held 0
      (divideByCandidates user lhs rhs slots) (optionRefs Value.refs)) ∧
    ∀ side pair, MachineM.Settles m.heap.budget.limits? held (pairRefs pair)
      (divideCoerced user side (some pair)) CoercionOutcome.refs := by
  have hbalanced : m.heap.Balanced (held + 0) := by rwa [Multiset.add_zero]
  have truth := settles_divideToTruth hu hc entry hl hr m rfl hbalanced
  rw [resultRefs_zero] at truth
  refine ⟨settles_divide hu hc entry hl hr m rfl hbalanced, truth, ?_,
    fun slots => settles_divideByCandidates hu hc slots hl hr,
    fun side pair => settles_divideCoerced hu hc side (some pair)⟩
  rw [run_divideToPending]
  rcases hrun : divideToTruth user entry lhs rhs m with ⟨e | x, m'⟩
  · rw [hrun] at truth
    exact truth
  · rw [hrun] at truth
    exact truth

/-- A classic instance, whose type's slots return new references to what they are given. -/
theorem division_neutral_of_instance :
    let type := ObjectType.declare
      { id := .user 0, name := "Wrapper", isClassic := true
        slots := { divide := some (.user 0), coerce := some (.user 0), truth := some (.user 0) } }
      (some .object)
    let heap : Heap := { cells := #[some ⟨1, .instanceOf type .none⟩], budget := .depthOnly 1000 }
    let m : Machine := { config := { level := .legacy }, heap }
    let user : UserSlots :=
      { divide := fun _ lhs _ => retain lhs
        coerce := fun _ own other => do
          let own ← retain own
          let other ← retain other
          return some (own, other)
        truth := fun _ _ => return true }
    m.heap.Balanced {0} ∧ user.Neutral none 0 ∧
      m.heap.Settles {0} (resultRefs Value.refs (divide user (.generic .legacy) (.ref 0) (.int 1) m).1)
        (divide user (.generic .legacy) (.ref 0) (.int 1) m).2.heap ∧
      m.heap.Settles {0} 0 (divideToTruth user (.generic .legacy) (.ref 0) (.int 1) m).2.heap := by
  intro type heap m user
  have hb : m.heap.Balanced {0} := by
    have empty : Heap.Balanced { budget := .depthOnly 1000 }
        (0 + (Content.instanceOf type .none).refs) := Heap.balanced_empty _
    have stored : Heap.allocate (.instanceOf type .none) { budget := .depthOnly 1000 } =
        .ok (0, heap) := rfl
    have filled := (empty.allocate stored).1
    rwa [Multiset.zero_add] at filled
  have hu : user.Neutral none 0 :=
    { divide := fun _ _ _ _ _ hl _ => settles_retain hl
      coerce := fun _ _ _ _ _ ho hr =>
        (settles_retain ho).bind fun _ => (settles_retain_next hr).bind fun _ =>
          settles_answerPair rfl
      truth := fun _ _ _ _ _ => settles_pure rfl }
  have hl : (Value.ref 0).refs ⊆ {0} := fun _ h => h
  have hr : (Value.int 1).refs ⊆ {0} := Multiset.zero_subset _
  have neutral := division_neutral hb hu (Multiset.zero_subset _) hl hr (.generic .legacy)
  exact ⟨hb, hu, neutral.1, neutral.2.1⟩

end FloorDivision
