import FloorDivision.Proofs.Division.Numbers

/-!
# Integers are divided exactly

Truth values, machine integers and integers of any size are divided natively or by slots, in one
representation or another; each way leads to the floor of the rational quotient.

* `Machine.integer?` — the integer that a value denotes.
* `exactQuotient` — the exact quotient, held directly where that is how it is represented.
* `outcome_divideInside_integers` — every entry point comes to the exact quotient.
* `integers_divided_exactly` — the whole division, and its truth value in every variant.
-/

namespace FloorDivision

open MachineM

/-- The integer that a value of a builtin type of integers denotes. -/
def Machine.integer? (m : Machine) : Value → Option Int
  | .bool b => some (if b then 1 else 0)
  | .int n => some n.toInt
  | .ref id =>
    match m.heap.content? id with
    | some (.long n) => some n
    | _ => none
  | .none | .notImplemented | .float _ => none

/-- Whether a quotient is a value without a cell: it fits, and no legacy operand has one. -/
def Machine.HoldsDirectly (m : Machine) (lhs rhs : Value) (quotient : Int) : Prop :=
  FitsWord quotient ∧ (m.level = .modern ∨ lhs.ref? = none ∧ rhs.ref? = none)

/-- The exact quotient of two integers; `wide` tells whether one of them is of any size. -/
def exactQuotient (level : Level) (wide : Bool) (a b : Int) : MachineM Value :=
  if b = 0 then
    throw (.raised (if wide then .longDivisionByZero level else .integerDivisionByZero))
  else if FitsWord (a.fdiv b) ∧ (level = .modern ∨ wide = false) then
    return .int (.ofInt (a.fdiv b))
  else allocate (.long (a.fdiv b))

variable {m : Machine} {lhs rhs value : Value} {a b : Int}

/-! ## Operands that are integers -/

theorem isNumber_of_integer? (h : m.integer? value = some a) : m.IsNumber value := by
  cases value with
  | none | notImplemented | float => cases h
  | bool | int => trivial
  | ref id =>
    unfold Machine.integer? at h
    dsimp only at h
    split at h
    · exact ⟨_, ‹_›⟩
    · cases h

/-- The number that an integer is to the slots. -/
def Numeric.IsInteger (x : Numeric) (wide : Bool) (a : Int) : Prop :=
  (∃ n : Int64, x = .int n ∧ n.toInt = a ∧ wide = false) ∨ x = .long a ∧ wide = true

theorem Numeric.IsInteger.integer? {x : Numeric} {wide : Bool} (h : x.IsInteger wide a) :
    x.integer? = some a := by
  rcases h with ⟨n, rfl, rfl, _⟩ | ⟨rfl, _⟩ <;> rfl

/-- An integer is a machine integer to the slots if it has no cell, and its type offers the slot of
that kind. -/
theorem exists_numeric_of_integer? (h : m.integer? value = some a) :
    ∃ x : Numeric, m.heap.numeric? value = some x ∧
      offeredSlot? m.level .unknown (m.typeOf value) = some (.builtin (x.kindAt m.level)) ∧
      x.IsInteger value.ref?.isSome a := by
  cases value with
  | none | notImplemented | float => cases h
  | bool b =>
    cases h
    refine ⟨_, Heap.numeric?_bool _ b, ?_, Or.inl ⟨_, rfl, by cases b <;> rfl, rfl⟩⟩
    unfold offeredSlot?
    rw [if_pos (by simp [Machine.typeOf, ObjectType.isNewStyle, ObjectType.bool,
      ObjectType.declare])]
    rfl
  | int n =>
    cases h
    refine ⟨_, Heap.numeric?_int _ n, ?_, Or.inl ⟨_, rfl, rfl, rfl⟩⟩
    exact if_pos (isNewStyle_number _ _)
  | ref id =>
    unfold Machine.integer? at h
    dsimp only at h
    split at h
    · rename_i n hn
      cases h
      refine ⟨_, Heap.numeric?_long hn, ?_, Or.inr ⟨rfl, rfl⟩⟩
      simp only [Machine.typeOf, hn]
      exact if_pos (isNewStyle_number _ _)
    · cases h

/-! ## The exact quotient -/

theorem blind_exactQuotient (level : Level) (wide : Bool) (a b : Int) :
    (exactQuotient level wide a b).Blind := by
  unfold exactQuotient
  split
  · exact blind_throw _
  · split
    · exact blind_pure _
    · exact blind_allocate _

/-- The slot of machine integers is exact. -/
theorem run_finish_intQuotient (level : Level) (p q : Int64) :
    finish (some (Numeric.intQuotient p q)) m = exactQuotient level false p.toInt q.toInt m := by
  unfold exactQuotient Numeric.intQuotient
  rcases intFloorDivide_cases p q with
    ⟨hzero, herror⟩ | ⟨hzero, ⟨n, hn, hquotient⟩ | ⟨hnone, hfits⟩⟩
  · rw [herror, if_pos hzero]
    rfl
  · rw [hn, if_neg hzero, if_pos ⟨hquotient ▸ fitsWord_toInt n, Or.inr rfl⟩, ← hquotient,
      Int64.ofInt_toInt]
    rfl
  · rw [hnone, if_neg hzero, if_neg fun h => hfits h.1]
    show newLong (p.toInt.fdiv q.toInt) m = _
    rw [run_newLong, if_neg fun h => hfits (toInt_ofInt_iff.mp h.2)]

/-- The slot of integers of any size is exact, and decides on the representation by the level. -/
theorem run_finish_longQuotient {wide : Bool} (hw : m.level = .modern ∨ wide = true) (a b : Int) :
    finish (some (Numeric.longQuotient m.level a b)) m = exactQuotient m.level wide a b m := by
  unfold exactQuotient Numeric.longQuotient longFloorDivide
  by_cases hzero : b = 0
  · rw [if_pos hzero, if_pos hzero]
    rcases hw with hlevel | rfl
    · rw [hlevel]
      cases wide <;> rfl
    · rfl
  · rw [if_neg hzero, if_neg hzero]
    show newLong (a.fdiv b) m = _
    rw [run_newLong]
    have direct : (m.level = .modern ∧ (Int64.ofInt (a.fdiv b)).toInt = a.fdiv b) ↔
        (FitsWord (a.fdiv b) ∧ (m.level = .modern ∨ wide = false)) := by
      rw [toInt_ofInt_iff, and_comm]
      have narrow : wide = false → m.level = .modern := fun h => hw.resolve_right (by simp [h])
      exact and_congr_right fun _ => ⟨Or.inl, fun h => h.elim id narrow⟩
    by_cases hdirect : FitsWord (a.fdiv b) ∧ (m.level = .modern ∨ wide = false)
    · rw [if_pos (direct.mpr hdirect), if_pos hdirect]
      rfl
    · rw [if_neg fun h => hdirect (direct.mp h), if_neg hdirect]

/-! ## Division -/

/-- The slot of longs is exact on all integers. -/
theorem run_finish_long {x y : Numeric} {wide : Bool} (hw : m.level = .modern ∨ wide = true)
    (hx : x.integer? = some a) (hy : y.integer? = some b) :
    finish (Numeric.quotient? m.level .long x y) m = exactQuotient m.level wide a b m := by
  rw [← run_finish_longQuotient hw]
  unfold Numeric.quotient?
  rw [hx, hy]

/-- The slot of the wider kind is exact. -/
theorem run_finish_wider {x y : Numeric} {wide wide' : Bool} (hx : x.IsInteger wide a)
    (hy : y.IsInteger wide' b) (m : Machine) :
    finish (Numeric.quotient? m.level ((x.kindAt m.level).wider (y.kindAt m.level)) x y) m =
      exactQuotient m.level (wide || wide') a b m := by
  have long : m.level = .modern ∨ (wide || wide') = true →
      (x.kindAt m.level).wider (y.kindAt m.level) = .long →
      finish (Numeric.quotient? m.level ((x.kindAt m.level).wider (y.kindAt m.level)) x y) m =
        exactQuotient m.level (wide || wide') a b m := by
    intro hw hkind
    rw [hkind]
    exact run_finish_long hw hx.integer? hy.integer?
  cases hlevel : m.level with
  | modern =>
    rw [← hlevel]
    refine long (Or.inl hlevel) ?_
    rw [hlevel]
    rcases hx with ⟨p, rfl, _⟩ | ⟨rfl, _⟩ <;> rcases hy with ⟨q, rfl, _⟩ | ⟨rfl, _⟩ <;> rfl
  | legacy =>
    rcases hx with ⟨p, rfl, rfl, rfl⟩ | ⟨rfl, rfl⟩
    · rcases hy with ⟨q, rfl, rfl, rfl⟩ | ⟨rfl, rfl⟩
      · exact run_finish_intQuotient .legacy p q
      · rw [← hlevel]
        exact long (Or.inr rfl) (by rw [hlevel]; rfl)
    · rw [← hlevel]
      refine long (Or.inr rfl) ?_
      rw [hlevel]
      rcases hy with ⟨q, rfl, _⟩ | ⟨rfl, _⟩ <;> rfl

/-- Native division of integers is exact. -/
theorem outcome_native_integers {kind : NumberKind} (hl : m.isExact lhs kind = true)
    (hr : m.isExact rhs kind = true) (hlhs : m.integer? lhs = some a)
    (hrhs : m.integer? rhs = some b) :
    (divideNatively kind lhs rhs >>= Quotient.toValue).outcome m =
      (exactQuotient m.level (lhs.ref?.isSome || rhs.ref?.isSome) a b).outcome m := by
  cases kind with
  | float =>
    obtain ⟨z, rfl⟩ := exists_float_of_isExact hl
    cases hlhs
  | int =>
    obtain ⟨p, rfl⟩ := exists_int_of_isExact hl
    obtain ⟨q, rfl⟩ := exists_int_of_isExact hr
    cases hlhs
    cases hrhs
    rw [outcome_nativeInts]
    unfold outcome
    rw [run_finish_intQuotient m.level]
    rfl
  | long =>
    obtain ⟨x, hx, _, hxa⟩ := exists_numeric_of_integer? hlhs
    obtain ⟨y, hy, _, hyb⟩ := exists_numeric_of_integer? hrhs
    have wide : m.level = .modern ∨ (lhs.ref?.isSome || rhs.ref?.isSome) = true := by
      cases lhs with
      | none | notImplemented | bool | float => simp [Machine.isExact] at hl
      | int n =>
        cases hlevel : m.level with
        | modern => exact Or.inl rfl
        | legacy => simp [Machine.isExact, hlevel, Level.hasNativeInt] at hl
      | ref id => exact Or.inr rfl
    rw [(outcome_nativeLongs hl hr).1]
    unfold outcome
    rw [run_builtinDivide .long hx hy, run_finish_long wide hxa.integer? hyb.integer?]

/-- **Every entry point divides integers exactly**, natively or by slots. -/
theorem outcome_divideInside_integers (user : UserSlots) {entry : EntryPoint}
    (hl : m.level = entry.level) (hf : entry.Fits m lhs rhs) (hlhs : m.integer? lhs = some a)
    (hrhs : m.integer? rhs = some b) :
    (divideInside user entry Quotient.toValue pure lhs rhs).outcome m =
      (exactQuotient m.level (lhs.ref?.isSome || rhs.ref?.isSome) a b).outcome m := by
  cases hk : fastKind? entry m lhs rhs with
  | some kind =>
    obtain ⟨hleft, hright⟩ := isExact_of_fastKind? hf hk
    rw [← outcome_native_integers hleft hright hlhs hrhs]
    unfold outcome
    rw [run_divideInside_native user hk]
  | none =>
    obtain ⟨x, hx, hleft, hxa⟩ := exists_numeric_of_integer? hlhs
    obtain ⟨y, hy, hright, hyb⟩ := exists_numeric_of_integer? hrhs
    obtain ⟨m', hm', taken, _⟩ := run_divideBySlots_numbers user rfl hx hy
      (typeOf_eq_of_id (isNumber_of_integer? hlhs) (isNumber_of_integer? hrhs))
      (fun slot h => (Option.some.inj (hleft.symm.trans h)).symm)
      (fun slot h => (Option.some.inj (hright.symm.trans h)).symm)
    have hlevel : m'.level = m.level := by rw [← m'.untraced_level, hm', m.untraced_level]
    have slots : divideBySlots user entry lhs rhs m =
        exactQuotient m.level (lhs.ref?.isSome || rhs.ref?.isSome) a b m' := by
      rw [divideBySlots_generic user hf hl, ← hl, taken ?_, ← hlevel]
      · exact run_finish_wider hxa hyb m'
      · unfold NumberKind.wider
        split
        · exact Or.inr hright
        · exact Or.inl hleft
    rw [← (blind_exactQuotient _ _ _ _).congr hm']
    unfold outcome
    rw [run_divideInside_slots user hk, bind_pure, slots]

/-! ## The quotient as a value -/

theorem exactQuotient_zero (level : Level) (wide : Bool) (a : Int) :
    ∃ e : Raised, e.kind = .zeroDivisionError ∧
      exactQuotient level wide a 0 = throw (.raised e) := by
  unfold exactQuotient
  rw [if_pos rfl]
  refine ⟨_, ?_, rfl⟩
  cases wide with
  | true => cases level <;> rfl
  | false => rfl

/-- **The exact quotient is a value that denotes it**, if no limit refuses it a cell. -/
theorem exists_exactQuotient {held : Multiset Nat} (hb : m.heap.Balanced held) {level : Level}
    {wide : Bool} (hzero : b ≠ 0)
    (hroom : ¬(FitsWord (a.fdiv b) ∧ (level = .modern ∨ wide = false)) →
      ∃ budget, m.heap.budget.charge (Content.long (a.fdiv b)).size = .ok budget) :
    ∃ value after, exactQuotient level wide a b m = (.ok value, after) ∧
      after.integer? value = some (a.fdiv b) ∧
      ((∃ n, value = .int n) ∧ (FitsWord (a.fdiv b) ∧ (level = .modern ∨ wide = false)) ∨
        (∃ id, value = .ref id) ∧
          ¬(FitsWord (a.fdiv b) ∧ (level = .modern ∨ wide = false))) := by
  unfold exactQuotient
  rw [if_neg hzero]
  by_cases hdirect : FitsWord (a.fdiv b) ∧ (level = .modern ∨ wide = false)
  · rw [if_pos hdirect]
    exact ⟨_, m, rfl, congrArg some (toInt_ofInt_iff.mpr hdirect.1), Or.inl ⟨⟨_, rfl⟩, hdirect⟩⟩
  · rw [if_neg hdirect]
    obtain ⟨budget, hbudget⟩ := hroom hdirect
    cases ha : m.heap.allocate (.long (a.fdiv b)) with
    | error refusal =>
      unfold Heap.allocate at ha
      rw [hbudget] at ha
      dsimp only at ha
      split at ha <;> cases ha
    | ok filled =>
      obtain ⟨id, heap⟩ := filled
      refine ⟨.ref id, { m with heap }, ?_, ?_, Or.inr ⟨⟨id, rfl⟩, hdirect⟩⟩
      · unfold allocate
        rw [ha]
      · have hcontent := (hb.allocate_long ha).2.1
        unfold Machine.integer?
        dsimp only
        rw [hcontent]

theorem isTrue_toObject_integer (h : m.integer? value = some a) :
    (m.toObject value).isTrue = decide (a ≠ 0) := by
  rw [Bool.eq_iff_iff, decide_eq_true_iff]
  cases value with
  | none | notImplemented | float => cases h
  | bool b =>
    cases h
    cases b <;> simp [Machine.toObject, Object.isTrue]
  | int n =>
    cases h
    show (n != 0) = true ↔ n.toInt ≠ 0
    rw [bne_iff_ne, ← Int64.toInt_zero]
    exact not_congr Int64.toInt_inj.symm
  | ref id =>
    unfold Machine.integer? at h
    dsimp only at h
    split at h
    · rename_i n hn
      cases h
      simp only [Machine.toObject, hn]
      rw [isTrue_longObject, bne_iff_ne]
    · cases h

/-- An integer is true if it is not zero. -/
theorem isTrue_of_integer? (user : UserSlots) (h : m.integer? value = some a) :
    isTrue user value m = (.ok (decide (a ≠ 0)), m) := by
  rw [run_isTrue user (isNumber_of_integer? h), isTrue_toObject_integer h]

theorem holdsDirectly_iff {quotient : Int} :
    m.HoldsDirectly lhs rhs quotient ↔ FitsWord quotient ∧
      (m.level = .modern ∨ (lhs.ref?.isSome || rhs.ref?.isSome) = false) := by
  unfold Machine.HoldsDirectly
  cases lhs.ref? <;> cases rhs.ref? <;> simp

/-! ## The whole division -/

/--
**Integers are divided exactly in every representation.**

Two operands of builtin types of integers, divided by any entry point that takes them for what they
are and not refused by a limit: a zero divisor is an error of its kind in every variant, and else
the result denotes the floor of the rational quotient.  It is held directly if it is a machine
integer and, at the legacy level, neither operand is a long; else it is a long in a cell.  Its truth
value tells whether the floor is other than zero.
-/
theorem integers_divided_exactly (user : UserSlots) {entry : EntryPoint} {held : Multiset Nat}
    (hb : m.heap.Balanced held) (hl : m.level = entry.level) (hf : entry.Fits m lhs rhs)
    (hlhs : m.integer? lhs = some a) (hrhs : m.integer? rhs = some b)
    (hdepth : m.heap.budget.checkDepth m.depth = .ok ())
    (hroom : b ≠ 0 → ¬m.HoldsDirectly lhs rhs ⌊(a : ℚ) / b⌋ →
      ∃ budget, m.heap.budget.charge (Content.long ⌊(a : ℚ) / b⌋).size = .ok budget) :
    (b = 0 → ∃ e : Raised, e.kind = .zeroDivisionError ∧
      (divide user entry lhs rhs m).1 = .error (.raised e) ∧
      (divideToTruth user entry lhs rhs m).1 = .error (.raised e) ∧
      (divideToPending user entry lhs rhs m).1 = none ∧
      (divideToPending user entry lhs rhs m).2.pending = some (.raised e) ∧
      (divideTakingPending user entry lhs rhs m).1 = .error (.raised e)) ∧
    (b ≠ 0 → ∃ value after, divide user entry lhs rhs m = (.ok value, after) ∧
      after.integer? value = some ⌊(a : ℚ) / b⌋ ∧
      ((∃ n, value = .int n) ∧ m.HoldsDirectly lhs rhs ⌊(a : ℚ) / b⌋ ∨
        (∃ id, value = .ref id) ∧ ¬m.HoldsDirectly lhs rhs ⌊(a : ℚ) / b⌋) ∧
      (divideToTruth user entry lhs rhs m).1 = .ok (decide (⌊(a : ℚ) / b⌋ ≠ 0)) ∧
      (divideToPending user entry lhs rhs m).1 = some (decide (⌊(a : ℚ) / b⌋ ≠ 0)) ∧
      (divideTakingPending user entry lhs rhs m).1 = .ok (decide (⌊(a : ℚ) / b⌋ ≠ 0))) := by
  rw [← fdiv_eq_floor] at hroom ⊢
  have inside : (divideInside user entry Quotient.toValue pure lhs rhs).outcome (m.entered entry) =
      (exactQuotient m.level (lhs.ref?.isSome || rhs.ref?.isSome) a b).outcome (m.entered entry) :=
    outcome_divideInside_integers (m := m.entered entry) user hl hf hlhs hrhs
  have whole : (divide user entry lhs rhs).outcome m = _ := outcome_divide hl hdepth
  rw [inside] at whole
  have ways := divideToTruth_cases user entry lhs rhs m
  constructor
  · rintro rfl
    obtain ⟨e, he, hthrow⟩ := exactQuotient_zero m.level (lhs.ref?.isSome || rhs.ref?.isSome) a
    rw [hthrow] at whole
    have hresult : (divide user entry lhs rhs m).1 = .error (.raised e) := congrArg Prod.fst whole
    rcases ways with ⟨e', after, hobject, htruth⟩ | ⟨value, _, _, hobject, _⟩
    · rw [hobject] at hresult
      cases hresult
      refine ⟨e, he, by rw [hobject], by rw [htruth], ?_, ?_, ?_⟩
      · rw [run_divideToPending, htruth]
      · rw [run_divideToPending, htruth]
      · rw [run_divideTakingPending, htruth]
    · rw [hobject] at hresult
      cases hresult
  · intro hzero
    obtain ⟨value, after, hrun, hdenotes, hheld⟩ :=
      exists_exactQuotient (m := m.entered entry) (a := a) (b := b) hb hzero
        fun h => hroom hzero fun hdirect => h (holdsDirectly_iff.mp hdirect)
    rw [← holdsDirectly_iff] at hheld
    rw [outcome_eq hrun] at whole inside
    rcases ways with ⟨e, _, hobject, _⟩ | ⟨value', last, hinside, hobject, htruth⟩
    · rw [outcome_eq hobject] at whole
      cases whole
    · rw [outcome_eq hinside] at inside
      obtain ⟨hvalue, hlast⟩ := Prod.mk.inj inside
      cases hvalue
      have hdenotes' : last.integer? value = some (a.fdiv b) := by
        rw [← hdenotes]
        show last.untraced.integer? value = after.untraced.integer? value
        rw [hlast]
      rw [isTrue_of_integer? user hdenotes'] at htruth
      refine ⟨value, last.left, hobject, hdenotes', hheld, by rw [htruth], ?_, ?_⟩
      · rw [run_divideToPending, htruth]
      · rw [run_divideTakingPending, htruth]

/-- The least machine integer divided by minus one, whose quotient is in a cell. -/
theorem integers_divided_exactly_least :
    let m : Machine := { config := { level := .legacy }, heap := { budget := .depthOnly 1000 } }
    let user : UserSlots :=
      { divide := fun _ _ _ => return .notImplemented
        coerce := fun _ _ _ => return none
        truth := fun _ _ => return true }
    let entry : EntryPoint := ⟨.legacy, .known .int, .unknown, rfl, rfl⟩
    let least : Value := .int Int64.minValue
    let quotient := ⌊(Int64.minValue.toInt : ℚ) / (-1 : Int)⌋
    m.heap.Balanced 0 ∧ m.level = entry.level ∧ entry.Fits m least (.int (-1)) ∧
      m.integer? least = some Int64.minValue.toInt ∧ m.integer? (.int (-1)) = some (-1) ∧
      m.heap.budget.checkDepth m.depth = .ok () ∧ ¬m.HoldsDirectly least (.int (-1)) quotient ∧
      ∃ id after, divide user entry least (.int (-1)) m = (.ok (.ref id), after) ∧
        after.integer? (.ref id) = some quotient ∧
        (divideToTruth user entry least (.int (-1)) m).1 = .ok true := by
  intro m user entry least quotient
  have hb : m.heap.Balanced 0 := Heap.balanced_empty _
  have hf : entry.Fits m least (.int (-1)) := by
    refine ⟨fun kind h => ?_, fun kind h => ?_⟩
    · cases h
      rfl
    · cases h
  have hindirect : ¬m.HoldsDirectly least (.int (-1)) quotient := by
    refine fun h => absurd h.1 ?_
    show ¬FitsWord ⌊(Int64.minValue.toInt : ℚ) / (-1 : Int)⌋
    rw [← fdiv_eq_floor]
    decide
  have hnonzero : quotient ≠ 0 := by
    show ⌊(Int64.minValue.toInt : ℚ) / (-1 : Int)⌋ ≠ 0
    rw [← fdiv_eq_floor]
    decide
  obtain ⟨value, after, hdivide, hdenotes, ⟨_, hdirect⟩ | ⟨⟨id, rfl⟩, _⟩, htruth, _⟩ :=
    (integers_divided_exactly user hb rfl hf rfl rfl rfl fun _ _ => ⟨_, rfl⟩).2
      (by decide : (-1 : Int) ≠ 0)
  · exact absurd hdirect hindirect
  · exact ⟨hb, rfl, hf, rfl, rfl, rfl, hindirect, id, after, hdivide, hdenotes,
      htruth.trans (congrArg _ (decide_eq_true hnonzero))⟩

end FloorDivision
