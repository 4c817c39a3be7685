import FloorDivision.Proofs.Division.Untraced
import FloorDivision.Proofs.Machine.Exact
import FloorDivision.Proofs.Number.Floor

/-!
# Specialised entry points agree with the generic one

* `divideBySlots_generic` — where the shapes are true to the operands, the slot protocol decides
  nothing differently for knowing them: the same slots are tried, the same coercions, and the
  same names are in the refusal.
* `outcome_nativeLongs`, `outcome_native` — operands of one kind that only a specialised entry
  point divides natively have the same quotient through their type's slot.
* `specialised_agrees` — a division comes to the same by any entry point whose shapes are true to
  its operands, but for the words in which doubles are refused a zero.
-/

namespace FloorDivision

open MachineM

/-! ## What a known shape tells -/

section Exact

variable {m : Machine} {value : Value}

theorem operandType_of_fits {entry : EntryPoint} {shape : Shape}
    (hs : shape.existsAt entry.level = true) (hl : m.level = entry.level)
    (hf : shape.Fits m value) : operandType entry shape m value = .ok (m.typeOf value) := by
  cases shape with
  | unknown => rfl
  | known kind =>
    rw [typeOf_of_isExact (hf kind rfl), hl]
    exact operandType_known m value hs

/-- Types of numbers are new-style. -/
theorem isNewStyle_number (level : Level) (kind : NumberKind) :
    (ObjectType.number level kind).isNewStyle level = true := by
  cases level <;> cases kind <;> rfl

theorem offeredSlot?_of_fits {level : Level} {shape : Shape} (hl : m.level = level)
    (hf : shape.Fits m value) :
    offeredSlot? level shape (m.typeOf value) = offeredSlot? level .unknown (m.typeOf value) := by
  cases shape with
  | unknown => rfl
  | known kind =>
    unfold offeredSlot?
    rw [typeOf_of_isExact (hf kind rfl), hl, isNewStyle_number]
    rfl

theorem operandName_of_fits {entry : EntryPoint} {shape : Shape} (hl : m.level = entry.level)
    (hf : shape.Fits m value) :
    operandName entry shape (m.typeOf value) = (m.typeOf value).name := by
  cases shape with
  | unknown => rfl
  | known kind =>
    rw [typeOf_of_isExact (hf kind rfl), hl]
    rfl

end Exact

/-! ## The slot protocol -/

section Slots

variable {m : Machine} {entry : EntryPoint} {lhs rhs : Value}

/-- Two known shapes stand for types of numbers. -/
theorem typeOf_of_bothKnown (hf : entry.Fits m lhs rhs) (hl : m.level = entry.level)
    (hk : entry.bothKnown = true) :
    ∃ k l, m.typeOf lhs = .number entry.level k ∧ m.typeOf rhs = .number entry.level l := by
  obtain ⟨level, left, right, _, _⟩ := entry
  obtain ⟨hleft, hright⟩ := hf
  cases left with
  | unknown => cases hk
  | known k =>
    cases right with
    | unknown => cases hk
    | known l =>
      dsimp only at hl
      exact ⟨k, l, by rw [typeOf_of_isExact (hleft k rfl), hl],
        by rw [typeOf_of_isExact (hright l rfl), hl]⟩

/-- Two types of numbers are tried in the same order whether or not a subtype would go first. -/
theorem isSubtypeOf_number {level : Level} {k l : NumberKind} (h : k ≠ l) :
    (ObjectType.number level l).isSubtypeOf (.number level k) = false := by
  cases k <;> cases l <;> first | rfl | exact absurd rfl h

theorem candidates_of_fits (hf : entry.Fits m lhs rhs) (hl : m.level = entry.level) :
    candidates entry (m.typeOf lhs) (m.typeOf rhs) =
      candidates (.generic entry.level) (m.typeOf lhs) (m.typeOf rhs) := by
  unfold candidates
  rw [offeredSlot?_of_fits hl hf.1, offeredSlot?_of_fits hl hf.2]
  dsimp only [EntryPoint.generic]
  cases hk : entry.bothKnown with
  | false => rfl
  | true =>
    obtain ⟨k, l, hleft, hright⟩ := typeOf_of_bothKnown hf hl hk
    rw [hleft, hright]
    by_cases hkl : k = l
    · subst hkl
      simp
    · rw [isSubtypeOf_number hkl]
      simp

theorem mayCoerce_of_fits (hf : entry.Fits m lhs rhs) (hl : m.level = entry.level) :
    mayCoerce entry (m.typeOf lhs) (m.typeOf rhs) =
      mayCoerce (.generic entry.level) (m.typeOf lhs) (m.typeOf rhs) := by
  unfold mayCoerce
  dsimp only [EntryPoint.generic]
  cases hk : entry.bothKnown with
  | false => rfl
  | true =>
    obtain ⟨k, l, hleft, hright⟩ := typeOf_of_bothKnown hf hl hk
    rw [hleft, hright, isNewStyle_number, isNewStyle_number]
    simp

theorem refuseOperands_of_fits (hf : entry.Fits m lhs rhs) (hl : m.level = entry.level) :
    refuseOperands entry (m.typeOf lhs) (m.typeOf rhs) =
      refuseOperands (.generic entry.level) (m.typeOf lhs) (m.typeOf rhs) := by
  unfold refuseOperands
  rw [operandName_of_fits hl hf.1, operandName_of_fits hl hf.2]
  rfl

theorem divideWithoutSlots_of_fits (user : UserSlots) (hf : entry.Fits m lhs rhs)
    (hl : m.level = entry.level) :
    divideWithoutSlots user entry (m.typeOf lhs) (m.typeOf rhs) lhs rhs =
      divideWithoutSlots user (.generic entry.level) (m.typeOf lhs) (m.typeOf rhs) lhs rhs := by
  unfold divideWithoutSlots
  rw [mayCoerce_of_fits hf hl, refuseOperands_of_fits hf hl]

/-- **Known shapes make no difference to the slot protocol.** -/
theorem divideBySlots_generic (user : UserSlots) (hf : entry.Fits m lhs rhs)
    (hl : m.level = entry.level) :
    divideBySlots user entry lhs rhs m = divideBySlots user (.generic entry.level) lhs rhs m := by
  have hleft := operandType_of_fits entry.left_exists hl hf.1
  have hright := operandType_of_fits entry.right_exists hl hf.2
  rw [run_divideBySlots user hleft hright, run_divideBySlots_generic, candidates_of_fits hf hl,
    divideWithoutSlots_of_fits user hf hl]

/-! ## Which entry points divide natively -/

theorem isExact_of_fastKind? {kind : NumberKind} (hf : entry.Fits m lhs rhs)
    (hk : fastKind? entry m lhs rhs = some kind) :
    m.isExact lhs kind = true ∧ m.isExact rhs kind = true := by
  obtain ⟨hlhs, hrhs⟩ := hf
  unfold fastKind? at hk
  split at hk
  · rename_i k l hleft hright
    split at hk
    · rename_i hkl
      subst hkl
      obtain rfl := Option.some.inj hk
      exact ⟨hlhs k hleft, hrhs k hright⟩
    · cases hk
  · rename_i k hleft _
    split at hk
    · rename_i hexact
      obtain rfl := Option.some.inj hk
      exact ⟨hlhs k hleft, hexact⟩
    · cases hk
  · rename_i k _ hright
    split at hk
    · rename_i hexact
      obtain rfl := Option.some.inj hk
      exact ⟨hexact, hrhs k hright⟩
    · cases hk
  · dsimp only at hk
    split at hk
    · rename_i hexact
      obtain rfl := Option.some.inj hk
      simpa using hexact.2
    · cases hk

/-- Operands of a kind other than `int` are divided natively only where the kind is known. -/
theorem known_of_fastKind? {kind : NumberKind} (hk : fastKind? entry m lhs rhs = some kind)
    (hi : kind ≠ .int) : entry.left = .known kind ∨ entry.right = .known kind := by
  unfold fastKind? at hk
  split at hk
  · rename_i k l hleft _
    split at hk
    · exact Or.inl (by rw [hleft, Option.some.inj hk])
    · cases hk
  · rename_i k hleft _
    split at hk
    · exact Or.inl (by rw [hleft, Option.some.inj hk])
    · cases hk
  · rename_i k _ hright
    split at hk
    · exact Or.inr (by rw [hright, Option.some.inj hk])
    · cases hk
  · dsimp only at hk
    split at hk
    · exact absurd (Option.some.inj hk).symm hi
    · cases hk

/-- An operand that is a machine integer has no other kind at the level that has them. -/
theorem eq_int_of_isExact {value : Value} {kind : NumberKind} (hn : m.level.hasNativeInt = true)
    (hi : m.isExact value .int = true) (hk : m.isExact value kind = true) : kind = .int := by
  cases value with
  | int => cases kind <;> simp_all [Machine.isExact]
  | none | notImplemented | bool | float | ref => simp [Machine.isExact] at hi

/-- Legacy machine integers are divided natively by the generic entry point. -/
theorem fastKind?_generic_int (hl : m.level = entry.level) (hlhs : m.isExact lhs .int = true)
    (hrhs : m.isExact rhs .int = true) :
    fastKind? (.generic entry.level) m lhs rhs = some .int := by
  have hlevel : entry.level = .legacy := by
    rw [← hl]
    cases lhs with
    | int n =>
      cases hm : m.level with
      | legacy => rfl
      | modern => simp [Machine.isExact, hm, Level.hasNativeInt] at hlhs
    | none | notImplemented | bool | float | ref => simp [Machine.isExact] at hlhs
  exact if_pos ⟨hlevel, by rw [hlhs, hrhs]; rfl⟩

/-- What the generic entry point divides natively, every entry point does, and as `int`. -/
theorem fastKind?_of_generic {kind : NumberKind} (hf : entry.Fits m lhs rhs)
    (hl : m.level = entry.level)
    (hk : fastKind? (.generic entry.level) m lhs rhs = some kind) :
    kind = .int ∧ fastKind? entry m lhs rhs = some .int := by
  have hlegacy : entry.level = .legacy ∧ kind = .int := by
    unfold fastKind? EntryPoint.generic at hk
    dsimp only at hk
    split at hk
    · rename_i h
      exact ⟨h.1, by cases hk; rfl⟩
    · cases hk
  obtain ⟨hlevel, rfl⟩ := hlegacy
  have hn : m.level.hasNativeInt = true := by rw [hl, hlevel]; rfl
  have hgeneric : (EntryPoint.generic entry.level).Fits m lhs rhs :=
    ⟨fun _ h => (by cases h), fun _ h => (by cases h)⟩
  obtain ⟨hlhs, hrhs⟩ := isExact_of_fastKind? hgeneric hk
  refine ⟨rfl, ?_⟩
  unfold fastKind?
  split
  · rename_i k l hleft hright
    obtain rfl := eq_int_of_isExact hn hlhs (hf.1 k hleft)
    obtain rfl := eq_int_of_isExact hn hrhs (hf.2 l hright)
    rfl
  · rename_i k hleft _
    obtain rfl := eq_int_of_isExact hn hlhs (hf.1 k hleft)
    rw [if_pos hrhs]
  · rename_i l _ hright
    obtain rfl := eq_int_of_isExact hn hrhs (hf.2 l hright)
    rw [if_pos hlhs]
  · exact if_pos ⟨hlevel, by rw [hlhs, hrhs]; rfl⟩

end Slots

/-! ## Native division against the slot of the same kind -/

section Kernels

variable {user : UserSlots} {m : Machine} {lhs rhs : Value}

/-- The quotient of two integers, not yet a value. -/
def wideQuotient (level : Level) (a b : Int) : MachineM Quotient :=
  match longFloorDivide a b with
  | .ok quotient => return .long quotient
  | .error _ => throw (.raised (.longDivisionByZero level))

/-- A machine integer is a modern value as it is. -/
theorem run_newLong_toInt (h : m.level = .modern) (n : Int64) :
    newLong n.toInt m = (.ok (.int n), m) := by
  rw [run_newLong, if_pos ⟨h, by rw [Int64.ofInt_toInt]⟩, Int64.ofInt_toInt]

/-- What is observed on the way leaves the outcome as it is. -/
theorem outcome_observe_bind {α : Type} {a : MachineM α} (ha : a.Blind) (event : Event) :
    (observe event >>= fun _ => a).outcome m = a.outcome m := by
  rw [outcome_bind fun _ => ha, outcome_eq (run_observe event m)]
  exact ha.congr rfl

/-- Small modern integers are divided as machine integers and come to the same. -/
theorem outcome_divideInts (h : m.level = .modern) (a b : Int64) :
    (divideInts a b >>= Quotient.toValue).outcome m =
      (wideQuotient .modern a.toInt b.toInt >>= Quotient.toValue).outcome m := by
  unfold divideInts wideQuotient longFloorDivide
  by_cases hb : b = 0
  · subst hb
    rfl
  · rw [if_neg (toInt_ne_zero hb)]
    cases hq : intFloorDivide a b with
    | error => exact absurd hq (intFloorDivide_ne_error hb)
    | ok quotient =>
      cases quotient with
      | none => exact outcome_observe_bind (blind_newLong _) .escalate
      | some q =>
        rw [← toInt_of_intFloorDivide hq]
        exact (outcome_eq (run_newLong_toInt h q)).symm

/-- Integers that are not both small and modern are divided as integers of any size. -/
theorem divideLongs_wide {a b : Int} (ha : m.longOperand? lhs = some a)
    (hb : m.longOperand? rhs = some b)
    (hw : ∀ x y : Int64, m.level = .modern → lhs = .int x → rhs = .int y → False) :
    divideLongs lhs rhs m = wideQuotient m.level a b m := by
  unfold divideLongs
  rw [run_get_bind, ha, hb]
  dsimp only
  generalize m.level = level at hw ⊢
  split
  · rename_i x y
    exact (hw x y rfl rfl rfl).elim
  · rfl

theorem outcome_divideLongs {a b : Int} (ha : m.longOperand? lhs = some a)
    (hb : m.longOperand? rhs = some b) :
    (divideLongs lhs rhs >>= Quotient.toValue).outcome m =
      (wideQuotient m.level a b >>= Quotient.toValue).outcome m := by
  by_cases hs : ∃ x y, m.level = .modern ∧ lhs = .int x ∧ rhs = .int y
  · obtain ⟨x, y, hlevel, rfl, rfl⟩ := hs
    cases ha
    cases hb
    have small : divideLongs (.int x) (.int y) m = divideInts x y m := by
      unfold divideLongs
      rw [run_get_bind]
      simp only [hlevel]
    rw [hlevel, ← outcome_divideInts hlevel]
    unfold outcome
    rw [run_bind, run_bind, small]
  · unfold outcome
    rw [run_bind, run_bind, divideLongs_wide ha hb fun x y h hx hy => hs ⟨x, y, h, hx, hy⟩]

/-- The slot of integers comes to the same. -/
theorem run_slotLongs {a b : Int} (ha : (m.heap.numeric? lhs).bind (·.integer?) = some a)
    (hb : (m.heap.numeric? rhs).bind (·.integer?) = some b) :
    BuiltinSlot.divide .long lhs rhs m =
      (wideQuotient m.level a b >>= Quotient.toValue) m := by
  show BuiltinSlot.divideLongs lhs rhs m = _
  unfold BuiltinSlot.divideLongs wideQuotient
  rw [run_get_bind, ha, hb]
  dsimp only
  cases longFloorDivide a b with
  | ok => rfl
  | error => rfl

theorem run_slotFloats (x y : Double) :
    BuiltinSlot.divide .float (.float x) (.float y) m = match floatFloorDivide x y with
      | .ok quotient => (.ok (.float quotient), m)
      | .error _ => (.error (.raised (.floatDivisionByZero m.level)), m) := by
  show BuiltinSlot.divideFloats (.float x) (.float y) m = _
  unfold BuiltinSlot.divideFloats
  rw [run_bind_ok (run_toDouble?_float x m)]
  dsimp only
  rw [run_bind_ok (run_toDouble?_float y m)]
  dsimp only
  cases floatFloorDivide x y with
  | ok => rfl
  | error => rfl

theorem run_nativeFloats (x y : Double) (m : Machine) :
    (divideNatively .float (.float x) (.float y) >>= Quotient.toValue) m =
      match floatFloorDivide x y with
      | .ok quotient => (.ok (.float quotient), m.observe (.fastPath .float))
      | .error _ => (.error (.raised .integerDivisionByZero), m.observe (.fastPath .float)) := by
  unfold divideNatively
  rw [run_bind, run_bind_ok (run_observe _ _)]
  dsimp only
  cases floatFloorDivide x y with
  | ok => rfl
  | error => rfl

/-- **Exact integers are divided alike natively and by their slot**, and their slot answers. -/
theorem outcome_nativeLongs (hl : m.isExact lhs .long = true)
    (hr : m.isExact rhs .long = true) :
    (divideNatively .long lhs rhs >>= Quotient.toValue).outcome m =
        (BuiltinSlot.divide .long lhs rhs).outcome m ∧
      ∀ value, (BuiltinSlot.divide .long lhs rhs m).1 = .ok value →
        value ≠ .notImplemented := by
  obtain ⟨a, ha, ha'⟩ := exists_longOperand hl
  obtain ⟨b, hb, hb'⟩ := exists_longOperand hr
  have slot := run_slotLongs ha' hb'
  constructor
  · have native : (divideNatively .long lhs rhs >>= Quotient.toValue).outcome m =
        (divideLongs lhs rhs >>= Quotient.toValue).outcome m := by
      have blind : (divideLongs lhs rhs >>= Quotient.toValue).Blind := Composed.blind_of_forall
        fun user => (Composed.nativeLongs lhs rhs).bind Composed.toValue
      rw [← outcome_observe_bind blind (.fastPath .long), ← bind_assoc]
      rfl
    rw [native, outcome_divideLongs ha hb]
    unfold outcome
    rw [slot]
  · intro value h
    rw [slot] at h
    unfold wideQuotient at h
    cases hq : longFloorDivide a b with
    | ok quotient =>
      rw [hq] at h
      exact yields_newLong quotient m value h
    | error =>
      rw [hq] at h
      cases h

/-- A slot that answers for two numbers of its kind is the only one that is called. -/
theorem outcome_divideBySlots_exact (hu : user.Blind) {kind : NumberKind}
    (hl : m.isExact lhs kind = true) (hr : m.isExact rhs kind = true)
    (ha : ∀ value, (BuiltinSlot.divide kind lhs rhs m).1 = .ok value →
      value ≠ .notImplemented) :
    (divideBySlots user (.generic m.level) lhs rhs).outcome m =
      (BuiltinSlot.divide kind lhs rhs).outcome m := by
  have slots : candidates (.generic m.level) (m.typeOf lhs) (m.typeOf rhs) =
      [(.left, .builtin kind)] := by
    rw [typeOf_of_isExact hl, typeOf_of_isExact hr]
    unfold candidates offeredSlot?
    simp only [EntryPoint.generic, isNewStyle_number]
    simp [ObjectType.number, ObjectType.declare, ObjectType.numberSlots, Slots.orElse]
  obtain ⟨r, m', hrun⟩ : ∃ r m',
      callDivide user (.builtin kind) lhs rhs (m.observe (.slotCall .left)) = (r, m') :=
    ⟨_, _, rfl⟩
  have hout : (r, m'.untraced) = (BuiltinSlot.divide kind lhs rhs).outcome m := by
    rw [← outcome_eq hrun]
    exact ((Composed.builtinDivide kind lhs rhs).blind hu).congr rfl
  rw [← hout]
  refine outcome_eq ?_
  rw [run_divideBySlots_generic, slots, run_bind, run_divideByCandidates_cons, hrun]
  cases r with
  | error e => rfl
  | ok value =>
    have hvalue : value ≠ .notImplemented := ha value (Prod.mk.inj hout).1.symm
    simp [hvalue]

end Kernels

/-! ## Agreement -/

section Agreement

variable {user : UserSlots} {entry : EntryPoint} {m : Machine} {lhs rhs : Value}

/-- Two doubles, one of them known to be one, of which the divisor is a zero. -/
def EntryPoint.MeetsFloatZero (entry : EntryPoint) (lhs rhs : Value) : Prop :=
  (entry.left = .known .float ∨ entry.right = .known .float) ∧
    ∃ x y, lhs = .float x ∧ rhs = .float y ∧ y.isZero = true

theorem exists_int_of_isExact {value : Value} (h : m.isExact value .int = true) :
    ∃ n, value = .int n := by
  cases value with
  | int n => exact ⟨n, rfl⟩
  | none | notImplemented | bool | float | ref => simp [Machine.isExact] at h

theorem exists_float_of_isExact {value : Value} (h : m.isExact value .float = true) :
    ∃ x, value = .float x := by
  cases value with
  | float x => exact ⟨x, rfl⟩
  | none | notImplemented | bool | int | ref => simp [Machine.isExact] at h

theorem eq_float_of_isExact {x : Double} {kind : NumberKind}
    (h : m.isExact (.float x) kind = true) : kind = .float := by
  cases kind with
  | float => rfl
  | int | long => simp [Machine.isExact] at h

/-- A native division by no zero comes to the same as the slot of its kind, which answers. -/
theorem outcome_native (hz : ¬entry.MeetsFloatZero lhs rhs) {kind : NumberKind}
    (hk : fastKind? entry m lhs rhs = some kind) (hi : kind ≠ .int)
    (hl : m.isExact lhs kind = true) (hr : m.isExact rhs kind = true) :
    (divideNatively kind lhs rhs >>= Quotient.toValue).outcome m =
        (BuiltinSlot.divide kind lhs rhs).outcome m ∧
      ∀ value, (BuiltinSlot.divide kind lhs rhs m).1 = .ok value →
        value ≠ .notImplemented := by
  cases kind with
  | int => exact absurd rfl hi
  | long => exact outcome_nativeLongs hl hr
  | float =>
    obtain ⟨x, rfl⟩ := exists_float_of_isExact hl
    obtain ⟨y, rfl⟩ := exists_float_of_isExact hr
    have hy : y.isZero = false := by
      cases hzero : y.isZero with
      | false => rfl
      | true => exact absurd ⟨known_of_fastKind? hk (by simp), x, y, rfl, rfl, hzero⟩ hz
    obtain ⟨q, hq⟩ := exists_floatFloorDivide (a := x) hy
    have native := run_nativeFloats x y m
    have slot := run_slotFloats x y (m := m)
    rw [hq] at native slot
    constructor
    · rw [outcome_eq native, outcome_eq slot]
      rfl
    · intro value h
      rw [slot] at h
      cases h
      simp

/-- **Inside a division, knowing shapes changes nothing** but for doubles divided by zero. -/
theorem outcome_divideInside_generic (hu : user.Blind) (hf : entry.Fits m lhs rhs)
    (hl : m.level = entry.level) (hz : ¬entry.MeetsFloatZero lhs rhs) :
    (divideInside user entry Quotient.toValue pure lhs rhs).outcome m =
      (divideInside user (.generic entry.level) Quotient.toValue pure lhs rhs).outcome m := by
  cases hk : fastKind? entry m lhs rhs with
  | none =>
    have general : fastKind? (.generic entry.level) m lhs rhs = none := by
      cases hg : fastKind? (.generic entry.level) m lhs rhs with
      | none => rfl
      | some kind => rw [(fastKind?_of_generic hf hl hg).2] at hk; cases hk
    unfold outcome
    rw [run_divideInside_slots user hk, run_divideInside_slots user general, bind_pure, bind_pure,
      divideBySlots_generic user hf hl]
  | some kind =>
    cases hg : fastKind? (.generic entry.level) m lhs rhs with
    | some kind' =>
      obtain ⟨rfl, hint⟩ := fastKind?_of_generic hf hl hg
      obtain rfl := Option.some.inj (hk.symm.trans hint)
      unfold outcome
      rw [run_divideInside_native user hk, run_divideInside_native user hg]
    | none =>
      obtain ⟨hlhs, hrhs⟩ := isExact_of_fastKind? hf hk
      have hi : kind ≠ .int := by
        rintro rfl
        rw [fastKind?_generic_int hl hlhs hrhs] at hg
        cases hg
      obtain ⟨hnative, hslot⟩ := outcome_native hz hk hi hlhs hrhs
      have bySlot := outcome_divideBySlots_exact hu hlhs hrhs hslot
      rw [hl, ← hnative] at bySlot
      unfold outcome at bySlot ⊢
      rw [run_divideInside_native user hk, run_divideInside_slots user hg, bind_pure, bySlot]

/-- What a division comes to that is entered. -/
theorem outcome_divide (hl : m.level = entry.level)
    (hd : m.heap.budget.checkDepth m.depth = .ok ()) :
    (divide user entry lhs rhs).outcome m =
      let inside := (divideInside user entry Quotient.toValue pure lhs rhs).outcome (m.entered entry)
      (inside.1, inside.2.left) := by
  unfold divide outcome
  rw [run_divideWith, if_neg (not_not_intro hl), hd]
  rfl

/-- A division that is not entered comes to the same whatever is known of the operands. -/
theorem divide_refused (hl : m.level = entry.level) {refusal : Refusal}
    (hd : m.heap.budget.checkDepth m.depth = .error refusal) :
    divide user entry lhs rhs m = (.error refusal.failure, m) := by
  unfold divide
  rw [run_divideWith, if_neg (not_not_intro hl), hd]

/-- Native division by a floating zero, at a known shape. -/
theorem outcome_divideInside_zero (user : UserSlots) (hf : entry.Fits m lhs rhs)
    (hz : entry.MeetsFloatZero lhs rhs) :
    (divideInside user entry Quotient.toValue pure lhs rhs).outcome m =
      (.error (.raised .integerDivisionByZero), m.untraced) := by
  obtain ⟨hknown, x, y, rfl, rfl, hy⟩ := hz
  have hkind : fastKind? entry m (.float x) (.float y) = some .float := by
    unfold fastKind?
    split
    · rename_i k l hleft hright
      rw [eq_float_of_isExact (hf.1 k hleft), eq_float_of_isExact (hf.2 l hright)]
      rfl
    · rename_i k hleft _
      rw [eq_float_of_isExact (hf.1 k hleft)]
      rfl
    · rename_i k _ hright
      rw [eq_float_of_isExact (hf.2 k hright)]
      rfl
    · rename_i hleft hright
      rw [hleft, hright] at hknown
      rcases hknown with h | h <;> cases h
  unfold outcome
  rw [run_divideInside_native user hkind, run_nativeFloats, floatFloorDivide_of_isZero hy]
  rfl

/-- The generic entry point leaves doubles to their slot, which refuses a zero in its own words. -/
theorem outcome_generic_zero (hu : user.Blind) {x y : Double} (hy : y.isZero = true) :
    (divideInside user (.generic m.level) Quotient.toValue pure (.float x) (.float y)).outcome m =
      (.error (.raised (.floatDivisionByZero m.level)), m.untraced) := by
  have hkind : fastKind? (.generic m.level) m (.float x) (.float y) = none :=
    if_neg fun h => by cases h.2
  have slot : BuiltinSlot.divide .float (.float x) (.float y) m =
      (.error (.raised (.floatDivisionByZero m.level)), m) := by
    rw [run_slotFloats, floatFloorDivide_of_isZero hy]
  have refused : ∀ value, (BuiltinSlot.divide .float (.float x) (.float y) m).1 = .ok value →
      value ≠ .notImplemented := by
    intro value h
    rw [slot] at h
    cases h
  have exact_float : ∀ z, m.isExact (.float z) .float = true := fun z => rfl
  have bySlot := outcome_divideBySlots_exact hu (exact_float x) (exact_float y) refused
  rw [outcome_eq slot] at bySlot
  rw [← bySlot]
  unfold outcome
  rw [run_divideInside_slots user hkind, bind_pure]

/--
**Specialised entry points agree with the generic one.**  Where operands of known shapes are what
their shapes say, knowing them changes neither the result nor what becomes of the machine, its
journal of slot calls included; only the tracer may have been told other events.  The exception is
the refusal to divide doubles by zero, which a native division words differently.
-/
theorem specialised_agrees (hu : user.Blind) (hl : m.level = entry.level)
    (hf : entry.Fits m lhs rhs) :
    (¬(entry.MeetsFloatZero lhs rhs ∧ m.heap.budget.checkDepth m.depth = .ok ()) →
      (divide user entry lhs rhs).outcome m =
        (divide user (.generic entry.level) lhs rhs).outcome m) ∧
    (entry.MeetsFloatZero lhs rhs ∧ m.heap.budget.checkDepth m.depth = .ok () →
      ∃ native general : Raised,
        (divide user entry lhs rhs).outcome m = (.error (.raised native), m.untraced) ∧
        (divide user (.generic entry.level) lhs rhs).outcome m =
          (.error (.raised general), m.untraced) ∧
        native.kind = .zeroDivisionError ∧ general.kind = .zeroDivisionError ∧
        native.message ≠ general.message) := by
  have general : m.level = (EntryPoint.generic entry.level).level := hl
  constructor
  · intro hz
    cases hd : m.heap.budget.checkDepth m.depth with
    | error refusal => rw [outcome_eq (divide_refused hl hd), outcome_eq (divide_refused general hd)]
    | ok =>
      have hfits : entry.Fits (m.entered entry) lhs rhs := hf
      have blind := (Composed.divideInside (.generic entry.level) lhs rhs).blind hu
      have inside := (outcome_divideInside_generic hu hfits hl fun h => hz ⟨h, hd⟩).trans
        (blind.congr (rfl : _ = (m.entered (.generic entry.level)).untraced))
      rw [outcome_divide hl hd, outcome_divide general hd, inside]
  · rintro ⟨hz, hd⟩
    have hfits : entry.Fits (m.entered entry) lhs rhs := hf
    have native := outcome_divideInside_zero user hfits hz
    obtain ⟨_, x, y, rfl, rfl, hy⟩ := hz
    have slot := outcome_generic_zero (m := m.entered (.generic entry.level)) (x := x) hu hy
    have hlevel : (m.entered (.generic entry.level)).level = entry.level := hl
    rw [hlevel] at slot
    refine ⟨.integerDivisionByZero, .floatDivisionByZero entry.level, ?_, ?_, rfl, ?_, ?_⟩
    · rw [outcome_divide hl hd, native]
      rfl
    · rw [outcome_divide general hd, slot]
      rfl
    · cases entry.level <;> rfl
    · cases entry.level <;> decide

/-- A machine integer and an instance whose type has a slot, divided as `int` and as object. -/
theorem specialised_agrees_on_instance :
    let type := ObjectType.declare
      { id := .user 0, name := "A", slots := { divide := some (.user 0) } } (some .object)
    let heap : Heap :=
      { cells := #[some ⟨1, .instanceOf type .none⟩], budget := .depthOnly 1000 }
    let m : Machine := { config := { level := .legacy }, heap }
    let user := UserSlots.ofScripts [{ divide := some (.operand false) }] [] 1
    let entry : EntryPoint := ⟨.legacy, .known .int, .unknown, rfl, rfl⟩
    user.Blind ∧ m.level = entry.level ∧ entry.Fits m (.int 7) (.ref 0) ∧
      (divide user entry (.int 7) (.ref 0)).outcome m =
        (divide user (.generic .legacy) (.int 7) (.ref 0)).outcome m := by
  intro type heap m user entry
  have hu : user.Blind := UserSlots.ofScripts_blind _ _ _
  have hf : entry.Fits m (.int 7) (.ref 0) :=
    ⟨fun kind h => (by cases h; rfl), fun kind h => (by cases h)⟩
  refine ⟨hu, rfl, hf, (specialised_agrees hu rfl hf).1 ?_⟩
  rintro ⟨⟨h | h, _⟩, _⟩ <;> cases h

end Agreement

end FloorDivision
