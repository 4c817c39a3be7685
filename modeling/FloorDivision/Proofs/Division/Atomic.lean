import FloorDivision.Proofs.Division.Numbers
import FloorDivision.Proofs.Division.Truth

/-!
# A division of builtin operands fails as a whole

Operands of builtin types are divided by builtin slots, which read the machine and at most allocate
their result at the end.  So a failure, from whichever layer, leaves everything as it was, and a
success adds nothing but the result.

* `Machine.IsBuiltin` — the operands: `None`, `NotImplemented` and numbers.
* `BuiltinAnswer` — what a division of them comes to inside.
* `builtinAnswer_divideInside` — natively, by slots, or when coercion has been tried in vain.
* `builtin_division_atomic` — the whole division in every variant.
-/

namespace FloorDivision

open MachineM

/-- A value of a builtin type. -/
def Machine.IsBuiltin (m : Machine) (value : Value) : Prop :=
  value = .none ∨ value = .notImplemented ∨ m.IsNumber value

variable {m m' after : Machine} {lhs rhs value : Value}

/-! ## Answers -/

/-- The answer of a builtin slot that does not decline, on a machine that at most the tracer tells
from this one. -/
structure BuiltinAnswer (m : Machine) (run : Except Failure Value × Machine) : Prop where
  answer : ∃ m', m'.untraced = m.untraced ∧ SlotAnswer m' run
  answered : ∀ value, run.1 = .ok value → value ≠ .notImplemented

/-- Nothing is other than it was, the tracer apart, but for one new object, a long, if the result
is one. -/
def Machine.Adds (m after : Machine) (value : Value) : Prop :=
  (value.ref? = none ∧ after.untraced = m.untraced) ∨
    ∃ id n, value = .ref id ∧ m.heap.cell? id = none ∧
      after.heap.cell? id = some ⟨1, .long n⟩ ∧
      (∀ k, k ≠ id → after.heap.cell? k = m.heap.cell? k) ∧
      { after with heap := m.heap }.untraced = m.untraced

theorem run_allocate_cases (content : Content) (m : Machine) :
    (∃ refusal : Refusal, allocate content m = (.error refusal.failure, m)) ∨
      ∃ id heap, m.heap.allocate content = .ok (id, heap) ∧
        allocate content m = (.ok (.ref id), { m with heap }) := by
  unfold allocate
  cases h : m.heap.allocate content with
  | error refusal => exact Or.inl ⟨refusal, rfl⟩
  | ok filled => exact Or.inr ⟨filled.1, filled.2, rfl, rfl⟩

/-- A new long is held directly, or it is put into a cell of its own, or it is refused. -/
theorem run_newLong_cases (n : Int) (m : Machine) :
    (∃ a, newLong n m = (.ok (.int a), m)) ∨ (∃ e, newLong n m = (.error e, m)) ∨
      ∃ id heap, m.heap.allocate (.long n) = .ok (id, heap) ∧
        newLong n m = (.ok (.ref id), { m with heap }) := by
  rw [run_newLong]
  split
  · exact Or.inl ⟨_, rfl⟩
  · rcases run_allocate_cases (.long n) m with ⟨refusal, h⟩ | h
    · exact Or.inr (Or.inl ⟨_, h⟩)
    · exact Or.inr (Or.inr h)

/-- The same is added to machines that only the tracer tells apart. -/
theorem Machine.Adds.of_untraced (h : m'.Adds after value) (hm : m'.untraced = m.untraced) :
    m.Adds after value := by
  have hheap : m'.heap = m.heap := Machine.heap_eq_of_untraced hm
  rcases h with ⟨hvalue, h⟩ | ⟨id, n, hvalue, hdead, hcell, hcells, h⟩
  · exact Or.inl ⟨hvalue, h.trans hm⟩
  · rw [hheap] at hdead hcells h
    exact Or.inr ⟨id, n, hvalue, hdead, hcell, hcells, h.trans hm⟩

namespace SlotAnswer

/-- **A builtin slot that fails leaves the machine as it is.** -/
theorem eq_of_error {e : Failure} (h : SlotAnswer m (.error e, after)) : after = m := by
  generalize hrun : (Except.error e, after) = run at h
  cases h with
  | failed => exact (Prod.mk.inj hrun).2
  | declined | int | float => cases hrun
  | long n =>
    rcases run_newLong_cases n m with ⟨a, h⟩ | ⟨e', h⟩ | ⟨id, heap, _, h⟩
    · rw [h] at hrun
      cases hrun
    · rw [h] at hrun
      exact (Prod.mk.inj hrun).2
    · rw [h] at hrun
      cases hrun

theorem eq_of_declined (h : SlotAnswer m (.ok .notImplemented, after)) : after = m := by
  generalize hrun : (Except.ok Value.notImplemented, after) = run at h
  cases h with
  | declined => exact (Prod.mk.inj hrun).2
  | failed | int | float => cases hrun
  | long n =>
    rcases run_newLong_cases n m with ⟨a, h⟩ | ⟨e, h⟩ | ⟨id, heap, _, h⟩ <;> rw [h] at hrun <;>
      cases hrun

/-- **A builtin slot that answers adds its result at most.** -/
theorem adds {held : Multiset Nat} (hb : m.heap.Balanced held)
    (h : SlotAnswer m (.ok value, after)) : m.Adds after value := by
  generalize hrun : (Except.ok value, after) = run at h
  cases h with
  | failed => cases hrun
  | declined | int | float =>
    cases hrun
    exact Or.inl ⟨rfl, rfl⟩
  | long n =>
    rcases run_newLong_cases n m with ⟨a, h⟩ | ⟨e', h⟩ | ⟨id, heap, ha, h⟩
    · rw [h] at hrun
      cases hrun
      exact Or.inl ⟨rfl, rfl⟩
    · rw [h] at hrun
      cases hrun
    · rw [h] at hrun
      cases hrun
      have hlong : m.heap.Balanced (held + (Content.long n).refs) := by
        rwa [show (Content.long n).refs = 0 from rfl, Multiset.add_zero]
      obtain ⟨-, hdead, hcells⟩ := hlong.allocate ha
      exact Or.inr ⟨id, n, rfl, hdead, (hcells id).trans (if_pos rfl),
        fun k hk => (hcells k).trans (if_neg hk), rfl⟩

end SlotAnswer

namespace BuiltinAnswer

variable {run : Except Failure Value × Machine}

theorem of_untraced (h : BuiltinAnswer m' run) (hm : m'.untraced = m.untraced) :
    BuiltinAnswer m run := by
  obtain ⟨⟨m'', hm'', hanswer⟩, hanswered⟩ := h
  exact ⟨⟨m'', hm''.trans hm, hanswer⟩, hanswered⟩

theorem failed {e : Failure} (hm : m'.untraced = m.untraced) : BuiltinAnswer m (.error e, m') :=
  ⟨⟨m', hm, .failed e⟩, fun _ h => nomatch h⟩

theorem untraced_eq {e : Failure} (h : BuiltinAnswer m (.error e, after)) :
    after.untraced = m.untraced := by
  obtain ⟨⟨m', hm', hanswer⟩, -⟩ := h
  rw [hanswer.eq_of_error, hm']

theorem adds {held : Multiset Nat} (hb : m.heap.Balanced held)
    (h : BuiltinAnswer m (.ok value, after)) : m.Adds after value := by
  obtain ⟨⟨m', hm', hanswer⟩, -⟩ := h
  have hb' : m'.heap.Balanced held := by rwa [Machine.heap_eq_of_untraced hm']
  exact (hanswer.adds hb').of_untraced hm'

theorem isNumber {held : Multiset Nat} (hb : m.heap.Balanced held)
    (h : BuiltinAnswer m (.ok value, after)) : after.IsNumber value := by
  obtain ⟨⟨m', hm', hanswer⟩, hanswered⟩ := h
  have hb' : m'.heap.Balanced held := by rwa [Machine.heap_eq_of_untraced hm']
  exact (hanswer.isNumber hb').resolve_left fun h => hanswered value rfl h.1

end BuiltinAnswer

/-! ## Slots of builtin types -/

/-- What is offered for an operand to be divided and converted by is builtin; an operand of a type
that calls for conversion has no conversion itself and is no number. -/
structure BuiltinOperand (m : Machine) (value : Value) (type : ObjectType) : Prop where
  divide : ∀ slot, type.slots.divide = some slot → ∃ kind, slot = .builtin kind
  coerce : ∀ slot, type.slots.coerce = some slot → ∃ kind, slot = .builtin kind
  classic : type.isClassic = true → type.slots.coerce = none ∧ m.heap.numeric? value = none

theorem builtinOperand_number (level : Level) (kind : NumberKind) :
    BuiltinOperand m value (.number level kind) where
  divide := fun _ h => ⟨kind, (Option.some.inj h).symm⟩
  coerce := fun slot h => by
    cases level with
    | legacy => exact ⟨kind, (Option.some.inj h).symm⟩
    | modern => cases h
  classic := fun h => nomatch h

theorem numeric?_none (heap : Heap) : heap.numeric? .none = none := by
  unfold Heap.numeric?
  cases heap.cells.size <;> rfl

theorem numeric?_notImplemented (heap : Heap) : heap.numeric? .notImplemented = none := by
  unfold Heap.numeric?
  cases heap.cells.size <;> rfl

theorem builtinOperand_typeOf (h : m.IsBuiltin value) : BuiltinOperand m value (m.typeOf value) := by
  rcases h with rfl | rfl | h
  · exact ⟨fun _ h => (nomatch h), fun _ h => (nomatch h), fun _ => ⟨rfl, numeric?_none m.heap⟩⟩
  · exact ⟨fun _ h => (nomatch h), fun _ h => (nomatch h),
      fun _ => ⟨rfl, numeric?_notImplemented m.heap⟩⟩
  · rcases typeOf_of_isNumber h with htype | ⟨kind, htype⟩
    · rw [htype]
      refine ⟨fun _ h => ⟨_, (Option.some.inj h).symm⟩, fun slot h => ?_, fun h => nomatch h⟩
      cases hlevel : m.level with
      | legacy =>
        rw [hlevel] at h
        exact ⟨_, (Option.some.inj h).symm⟩
      | modern =>
        rw [hlevel] at h
        cases h
    · rw [htype]
      exact builtinOperand_number _ _

/-! ## Slots -/

/-- **Builtin slots that are tried in turn** all decline, or the first that does not answers. -/
theorem builtinAnswer_divideByCandidates (user : UserSlots) (lhs rhs : Value)
    (slots : List (Side × DivideSlot))
    (hs : ∀ slot ∈ slots, ∃ kind, slot.2 = .builtin kind) (m : Machine) :
    (∃ m', m'.untraced = m.untraced ∧ divideByCandidates user lhs rhs slots m = (.ok none, m')) ∨
      ∃ run, BuiltinAnswer m run ∧
        divideByCandidates user lhs rhs slots m = (run.1.map some, run.2) := by
  induction slots generalizing m with
  | nil => exact Or.inl ⟨m, rfl, rfl⟩
  | cons candidate rest ih =>
    obtain ⟨side, slot⟩ := candidate
    obtain ⟨kind, rfl⟩ : ∃ kind, slot = .builtin kind := hs _ List.mem_cons_self
    have hanswer := slotAnswer_divide kind lhs rhs (m.observe (.slotCall side))
    rw [run_divideByCandidates_cons]
    rcases hrun : callDivide user (.builtin kind) lhs rhs (m.observe (.slotCall side))
      with ⟨e | result, after⟩
    · rw [show BuiltinSlot.divide kind lhs rhs _ = _ from hrun] at hanswer
      refine Or.inr ⟨(.error e, after), .failed ?_, rfl⟩
      rw [hanswer.eq_of_error]
      rfl
    · rw [show BuiltinSlot.divide kind lhs rhs _ = _ from hrun] at hanswer
      by_cases hresult : result = .notImplemented
      · subst hresult
        have hafter := hanswer.eq_of_declined
        subst hafter
        rcases ih (fun slot hslot => hs slot (List.mem_cons_of_mem _ hslot))
          ((m.observe (.slotCall side)).observe (.slotDeclined side)) with
          ⟨m', hm', hrest⟩ | ⟨run, hanswer, hrest⟩
        · exact Or.inl ⟨m', hm', hrest⟩
        · exact Or.inr ⟨run, hanswer.of_untraced rfl, hrest⟩
      · refine Or.inr ⟨(.ok result, after), ⟨⟨m.observe (.slotCall side), rfl, hanswer⟩, ?_⟩, ?_⟩
        · rintro _ ⟨⟩
          exact hresult
        · simp only [Value.isNotImplemented_iff, hresult, if_false]
          rfl

/-! ## Coercion -/

/-- A builtin conversion is not for an operand that is no number. -/
theorem run_callCoerce_builtin (user : UserSlots) (kind : NumberKind) {own other : Value}
    (h : m.heap.numeric? other = none) :
    callCoerce user (.builtin kind) own other m = (.ok none, m) := by
  cases kind with
  | int =>
    show BuiltinSlot.coerceInts own other m = _
    unfold BuiltinSlot.coerceInts
    rw [run_get_bind, h]
    rfl
  | long =>
    show BuiltinSlot.coerceLongs own other m = _
    unfold BuiltinSlot.coerceLongs
    rw [run_get_bind, h]
    rfl
  | float =>
    show BuiltinSlot.coerceFloats own other m = _
    unfold BuiltinSlot.coerceFloats
    rw [run_get_bind, h]
    rfl

/-- A conversion that is there is builtin and not for the other operand. -/
def DeclinesCoercion (m : Machine) (slot? : Option CoerceSlot) (other : Value) : Prop :=
  ∀ slot, slot? = some slot → (∃ kind, slot = .builtin kind) ∧ m.heap.numeric? other = none

theorem run_divideByCoercionOf_declined (user : UserSlots) (side : Side) (lhs rhs : Value)
    {slot? : Option CoerceSlot} (h : DeclinesCoercion m slot? (side.inOrder (lhs, rhs)).2) :
    ∃ m', m'.untraced = m.untraced ∧
      divideByCoercionOf user side slot? lhs rhs m = (.ok .undecided, m') := by
  cases slot? with
  | none => exact ⟨m, rfl, rfl⟩
  | some slot =>
    obtain ⟨⟨kind, rfl⟩, hother⟩ := h slot rfl
    refine ⟨m.observe (.coerce side false), rfl, ?_⟩
    unfold divideByCoercionOf
    dsimp only
    rw [run_bind_ok (run_callCoerce_builtin user kind hother)]
    rfl

/-- Where operands may be converted one of them is no number, so that no conversion is for both. -/
theorem declinesCoercion_of_mayCoerce {entry : EntryPoint} {leftType rightType : ObjectType}
    (hl : BuiltinOperand m lhs leftType) (hr : BuiltinOperand m rhs rightType)
    (h : mayCoerce entry leftType rightType = true) :
    DeclinesCoercion m leftType.slots.coerce rhs ∧
      DeclinesCoercion m rightType.slots.coerce lhs := by
  have hclassic : leftType.isClassic = true ∨ rightType.isClassic = true := by
    unfold mayCoerce ObjectType.isNewStyle at h
    cases hleft : leftType.isClassic <;> cases hright : rightType.isClassic <;> simp_all
  rcases hclassic with hclassic | hclassic
  · obtain ⟨hnone, hnumeric⟩ := hl.classic hclassic
    refine ⟨fun slot h => ?_, fun slot h => ⟨hr.coerce slot h, hnumeric⟩⟩
    rw [hnone] at h
    cases h
  · obtain ⟨hnone, hnumeric⟩ := hr.classic hclassic
    refine ⟨fun slot h => ⟨hl.coerce slot h, hnumeric⟩, fun slot h => ?_⟩
    rw [hnone] at h
    cases h

/-- **Where no slot has taken builtin operands they are refused**, conversion being tried in vain. -/
theorem run_divideWithoutSlots_builtin (user : UserSlots) (entry : EntryPoint)
    {leftType rightType : ObjectType} (hl : BuiltinOperand m lhs leftType)
    (hr : BuiltinOperand m rhs rightType) :
    ∃ e m', m'.untraced = m.untraced ∧
      divideWithoutSlots user entry leftType rightType lhs rhs m = (.error e, m') := by
  have refused : ∀ m' : Machine, ∃ e m'', m''.untraced = m'.untraced ∧
      refuseOperands entry leftType rightType m' = (.error e, m'') :=
    fun m' => ⟨_, m'.observe (.unsupported _ _), rfl, rfl⟩
  unfold divideWithoutSlots
  cases hmay : mayCoerce entry leftType rightType with
  | false => exact refused m
  | true =>
    obtain ⟨hleft, hright⟩ := declinesCoercion_of_mayCoerce hl hr hmay
    obtain ⟨m₁, hm₁, hrun₁⟩ := run_divideByCoercionOf_declined user .left lhs rhs hleft
    have hright₁ : DeclinesCoercion m₁ rightType.slots.coerce lhs := by
      unfold DeclinesCoercion
      rw [Machine.heap_eq_of_untraced hm₁]
      exact hright
    obtain ⟨m₂, hm₂, hrun₂⟩ := run_divideByCoercionOf_declined user .right lhs rhs hright₁
    have hcoerced : divideByCoercion user leftType rightType lhs rhs m = (.ok none, m₂) := by
      unfold divideByCoercion
      rw [run_bind_ok hrun₁]
      dsimp only
      rw [run_bind_ok hrun₂]
      rfl
    obtain ⟨e, m₃, hm₃, hrun₃⟩ := refused m₂
    refine ⟨e, m₃, hm₃.trans (hm₂.trans hm₁), ?_⟩
    rw [if_pos rfl, run_bind_ok hcoerced]
    exact hrun₃

/-! ## Inside a division -/

theorem builtinAnswer_divideBySlots (user : UserSlots) {entry : EntryPoint}
    (hlhs : m.IsBuiltin lhs) (hrhs : m.IsBuiltin rhs) :
    BuiltinAnswer m (divideBySlots user entry lhs rhs m) := by
  have hl := Shape.typeAt_of (builtinOperand_number entry.level) (builtinOperand_typeOf hlhs)
    entry.left
  have hr := Shape.typeAt_of (builtinOperand_number entry.level) (builtinOperand_typeOf hrhs)
    entry.right
  rw [run_divideBySlots user (operandType_eq entry.left_exists m lhs)
    (operandType_eq entry.right_exists m rhs), run_bind]
  generalize entry.left.typeAt entry.level m lhs = leftType at hl ⊢
  generalize entry.right.typeAt entry.level m rhs = rightType at hr ⊢
  rcases builtinAnswer_divideByCandidates user lhs rhs _
    (builtin_of_mem_candidates hl.divide hr.divide) m with
    ⟨m', hm', hrun⟩ | ⟨⟨result, after⟩, hanswer, hrun⟩
  · have hheap := Machine.heap_eq_of_untraced hm'
    have hl' : BuiltinOperand m' lhs leftType := ⟨hl.divide, hl.coerce, hheap ▸ hl.classic⟩
    have hr' : BuiltinOperand m' rhs rightType := ⟨hr.divide, hr.coerce, hheap ▸ hr.classic⟩
    obtain ⟨e, m'', hm'', hrefused⟩ := run_divideWithoutSlots_builtin user entry hl' hr'
    rw [hrun]
    dsimp only
    rw [hrefused]
    exact .failed (hm''.trans hm')
  · rw [hrun]
    cases result <;> exact hanswer

theorem builtinAnswer_toValue (quotient : Quotient) (m : Machine) :
    BuiltinAnswer m (quotient.toValue m) := by
  refine ⟨⟨m, rfl, ?_⟩, fun value h => yields_toValue quotient m value h⟩
  cases quotient with
  | int a => exact .int a
  | long n => exact .long n
  | float x => exact .float x

/-- **Builtin operands are divided like by one builtin slot**, whichever way is taken. -/
theorem builtinAnswer_divideInside (user : UserSlots) (entry : EntryPoint)
    (hlhs : m.IsBuiltin lhs) (hrhs : m.IsBuiltin rhs) :
    BuiltinAnswer m (divideInside user entry Quotient.toValue pure lhs rhs m) := by
  rw [run_divideInside]
  cases fastKind? entry m lhs rhs with
  | none =>
    dsimp only
    rw [bind_pure]
    exact builtinAnswer_divideBySlots user hlhs hrhs
  | some kind =>
    dsimp only
    rw [run_bind]
    have reads : (divideNatively kind lhs rhs).Keeps Machine.untraced :=
      keeps_divideNatively (fun _ _ => rfl) kind lhs rhs
    have hm' := reads m
    rcases hrun : divideNatively kind lhs rhs m with ⟨e | quotient, m'⟩
    · rw [hrun] at hm'
      exact .failed hm'
    · rw [hrun] at hm'
      exact (builtinAnswer_toValue quotient m').of_untraced hm'

/-! ## The whole division -/

/-- What is added inside a division is added once that is left. -/
theorem Machine.Adds.left {entry : EntryPoint} {inside : Machine}
    (h : (m.entered entry).Adds inside value) : m.Adds inside.left value := by
  have hleft : (m.entered entry).untraced.left = m.untraced := rfl
  rcases h with ⟨hvalue, h⟩ | ⟨id, n, hvalue, hdead, hcell, hcells, h⟩
  · refine Or.inl ⟨hvalue, ?_⟩
    rw [← hleft, ← h]
    rfl
  · refine Or.inr ⟨id, n, hvalue, hdead, hcell, hcells, ?_⟩
    rw [← hleft, ← h]
    rfl

/-- **A division of builtin operands that fails leaves everything as it was.** -/
theorem untraced_divide_of_error (user : UserSlots) {entry : EntryPoint} {e : Failure}
    (hlhs : m.IsBuiltin lhs) (hrhs : m.IsBuiltin rhs)
    (h : divide user entry lhs rhs m = (.error e, after)) : after.untraced = m.untraced := by
  unfold divide at h
  rw [run_divideWith] at h
  split at h
  · cases h
    rfl
  · cases hdepth : m.heap.budget.checkDepth m.depth with
    | error refusal =>
      rw [hdepth] at h
      cases h
      rfl
    | ok =>
      rw [hdepth] at h
      have hanswer := builtinAnswer_divideInside (m := m.entered entry) user entry hlhs hrhs
      rcases hrun : divideInside user entry Quotient.toValue pure lhs rhs (m.entered entry)
        with ⟨e' | value, inside⟩
      · rw [hrun] at h hanswer
        cases h
        show inside.untraced.left = m.untraced
        rw [hanswer.untraced_eq]
        rfl
      · rw [hrun] at h
        cases h

/--
**A division of builtin operands happens as a whole or not at all**, whatever the limits and by
whichever entry point.

If it fails, for the operands' types, a zero, an overflow, a refused allocation or the nesting, then
the heap with its free cells and its account, the failure that is kept and the nesting are as they
were; the variants that answer with a truth value fail too, and only the failure that is kept is
another one.  If it succeeds, what was live is as it was, and nothing is live besides but the result,
with one reference, if that is a long in a cell.
-/
theorem builtin_division_atomic (user : UserSlots) (entry : EntryPoint) {held : Multiset Nat}
    (hb : m.heap.Balanced held) (hlhs : m.IsBuiltin lhs) (hrhs : m.IsBuiltin rhs) :
    (∀ e after, divide user entry lhs rhs m = (.error e, after) → after.untraced = m.untraced ∧
      divideToPending user entry lhs rhs m = (none, { after with pending := some e }) ∧
      divideTakingPending user entry lhs rhs m = (.error e, { after with pending := none })) ∧
    (∀ value after, divide user entry lhs rhs m = (.ok value, after) → m.Adds after value ∧
      ∃ truth, (divideToPending user entry lhs rhs m).1 = some truth ∧
        (divideTakingPending user entry lhs rhs m).1 = .ok truth) := by
  have ways := divideToTruth_cases user entry lhs rhs m
  constructor
  · intro e after h
    refine ⟨untraced_divide_of_error user hlhs hrhs h, ?_⟩
    rcases ways with ⟨e', after', hobject, htruth⟩ | ⟨value, _, _, hobject, _⟩
    · rw [h] at hobject
      cases hobject
      rw [run_divideToPending, run_divideTakingPending, htruth]
      exact ⟨rfl, rfl⟩
    · rw [h] at hobject
      cases hobject
  · intro value after h
    rcases ways with ⟨e, after', hobject, _⟩ | ⟨value', inside, hinside, hobject, htruth⟩
    · rw [h] at hobject
      cases hobject
    · rw [h] at hobject
      cases hobject
      have hentered : (m.entered entry).heap.Balanced held := hb
      have hanswer := builtinAnswer_divideInside (m := m.entered entry) user entry hlhs hrhs
      rw [hinside] at hanswer
      refine ⟨(hanswer.adds hentered).left, (inside.toObject value).isTrue, ?_⟩
      rw [run_divideToPending, run_divideTakingPending, htruth,
        run_isTrue user (hanswer.isNumber hentered)]
      exact ⟨rfl, rfl⟩

/-- A legacy long divided under a limit that has been reached: its quotient is refused. -/
theorem builtin_division_atomic_refused :
    let limits : Limits := { maxAllocations := some 1 }
    let heap : Heap := { cells := #[some ⟨1, .long 7⟩], budget := .counting limits 1 33 }
    let m : Machine := { config := { level := .legacy, limits }, heap }
    let user : UserSlots :=
      { divide := fun _ _ _ => return .notImplemented
        coerce := fun _ _ _ => return none
        truth := fun _ _ => return true }
    let entry : EntryPoint := ⟨.legacy, .known .long, .unknown, rfl, rfl⟩
    m.heap.Balanced (0 + {0}) ∧ m.IsBuiltin (.ref 0) ∧ m.IsBuiltin (.int 2) ∧
      ∃ e after, divide user entry (.ref 0) (.int 2) m = (.error e, after) ∧
        after.untraced = m.untraced ∧
        divideToPending user entry (.ref 0) (.int 2) m =
          (none, { after with pending := some e }) := by
  intro limits heap m user entry
  have hb : m.heap.Balanced (0 + {0}) := by
    have filled : Heap.allocate (.long 7) { budget := .counting limits 0 0 } = .ok (0, heap) := rfl
    exact ((Heap.balanced_empty (.counting limits 0 0)).allocate filled).1
  have hlhs : m.IsBuiltin (.ref 0) := Or.inr (Or.inr ⟨7, rfl⟩)
  have hrhs : m.IsBuiltin (.int 2) := Or.inr (Or.inr trivial)
  obtain ⟨e, after, hrun⟩ : ∃ e after, divide user entry (.ref 0) (.int 2) m = (.error e, after) :=
    ⟨_, _, rfl⟩
  obtain ⟨hsame, hpending, -⟩ := (builtin_division_atomic user entry hb hlhs hrhs).1 e after hrun
  exact ⟨hb, hlhs, hrhs, e, after, hrun, hsame, hpending⟩

end FloorDivision
