import FloorDivision.Proofs.Division.BinaryOp
import FloorDivision.Proofs.Division.Specialised
import FloorDivision.Proofs.Heap.Chains

/-!
# The slots of numbers on numbers

* `Numeric.quotient?` — what the slot of a kind makes of two numbers, apart from any machine.
* `run_builtinDivide` — the slot does that to the numbers that its operands stand for.
* `quotient?_wider`, `quotient?_of_ne_wider` — of the slots of two numbers, that of the wider kind
  takes them and the other one declines.
* `run_divideByCandidates_numbers` — so it is the wider kind that divides, in whichever order the
  slots are tried.
-/

namespace FloorDivision

open MachineM

/-- Of two kinds, the one further on in the order int, long, float. -/
def NumberKind.wider (k l : NumberKind) : NumberKind := if k.rank < l.rank then l else k

namespace Numeric

/-- The kind that has a number of its own type at a level. -/
def kindAt (level : Level) : Numeric → NumberKind
  | .int _ => ObjectType.smallIntKind level
  | .long _ => .long
  | .float _ => .float

/-- The double that a number is taken for, by a conversion of longs. -/
def toDoubleBy (ofLong? : Int → Option Double) (level : Level) : Numeric → Except Failure Double
  | .int n => .ok (.ofInt n.toInt)
  | .long n =>
    match ofLong? n with
    | some x => .ok x
    | none => .error (.raised (.integerTooLargeForFloat level))
  | .float x => .ok x

def toDouble : Level → Numeric → Except Failure Double := toDoubleBy Double.ofLong?

/-- The quotient of machine integers, which may be one no longer. -/
def intQuotient (a b : Int64) : Except Failure Quotient :=
  match intFloorDivide a b with
  | .ok (some quotient) => .ok (.int quotient)
  | .ok none => .ok (.long (intFloorDivideWide a b))
  | .error _ => .error (.raised .integerDivisionByZero)

def longQuotient (level : Level) (a b : Int) : Except Failure Quotient :=
  match longFloorDivide a b with
  | .ok quotient => .ok (.long quotient)
  | .error _ => .error (.raised (.longDivisionByZero level))

def floatQuotient (level : Level) (a b : Double) : Except Failure Quotient :=
  match floatFloorDivide a b with
  | .ok quotient => .ok (.float quotient)
  | .error _ => .error (.raised (.floatDivisionByZero level))

/-- What the slot of a kind makes of two numbers; none if it declines them. -/
def quotient? (level : Level) (kind : NumberKind) (x y : Numeric) :
    Option (Except Failure Quotient) :=
  match kind with
  | .int =>
    match x, y with
    | .int a, .int b => some (intQuotient a b)
    | _, _ => none
  | .long =>
    match x.integer?, y.integer? with
    | some a, some b => some (longQuotient level a b)
    | _, _ => none
  | .float => some do
    let a ← x.toDouble level
    let b ← y.toDouble level
    floatQuotient level a b

/-- Of the slots of two numbers, the one of the wider kind takes them. -/
theorem quotient?_wider (level : Level) (x y : Numeric) :
    ∃ quotient, quotient? level ((x.kindAt level).wider (y.kindAt level)) x y = some quotient := by
  cases level <;> cases x <;> cases y <;> exact ⟨_, rfl⟩

/-- The other one declines them. -/
theorem quotient?_of_ne_wider {level : Level} {x y : Numeric} {kind : NumberKind}
    (hkind : kind = x.kindAt level ∨ kind = y.kindAt level)
    (hne : kind ≠ (x.kindAt level).wider (y.kindAt level)) : quotient? level kind x y = none := by
  rcases hkind with rfl | rfl <;> cases level <;> cases x <;> cases y <;>
    first | rfl | exact absurd rfl hne

end Numeric

theorem yields_toValue (quotient : Quotient) : quotient.toValue.Yields (· ≠ .notImplemented) := by
  cases quotient with
  | int | float => exact yields_pure (by simp)
  | long n => exact yields_newLong n

section Slots

variable {m : Machine} {lhs rhs : Value} {x y : Numeric}

theorem run_toDoubleBy_some (ofLong? : Int → Option Double) (level : Level) (x : Numeric)
    (m : Machine) :
    toDoubleBy ofLong? level (some x) m = ((x.toDoubleBy ofLong? level).map some, m) := by
  unfold toDoubleBy Numeric.toDoubleBy
  cases x with
  | int | float => rfl
  | long n =>
    dsimp only
    cases ofLong? n <;> rfl

theorem run_toDouble?_numeric {value : Value} (h : m.heap.numeric? value = some x) :
    BuiltinSlot.toDouble? value m = ((x.toDouble m.level).map some, m) := by
  rw [toDouble?_eq, run_get_bind, h]
  exact run_toDoubleBy_some Double.ofLong? m.level x m

/-- The answer of a slot that has looked at the numbers which its operands stand for. -/
def finish : Option (Except Failure Quotient) → MachineM Value
  | none => return .notImplemented
  | some (.ok quotient) => quotient.toValue
  | some (.error e) => throw e

/-- **A builtin slot divides the numbers that its operands stand for**, and decides nothing by what
else the operands are. -/
theorem run_builtinDivide (kind : NumberKind) (hx : m.heap.numeric? lhs = some x)
    (hy : m.heap.numeric? rhs = some y) :
    BuiltinSlot.divide kind lhs rhs m = finish (Numeric.quotient? m.level kind x y) m := by
  cases kind with
  | int =>
    show BuiltinSlot.divideInts lhs rhs m = _
    unfold BuiltinSlot.divideInts
    rw [run_get_bind, hx, hy]
    cases x with
    | long | float => rfl
    | int a =>
      cases y with
      | long | float => rfl
      | int b =>
        dsimp only [Numeric.quotient?, Numeric.intQuotient]
        cases intFloorDivide a b with
        | error => rfl
        | ok quotient => cases quotient <;> rfl
  | long =>
    show BuiltinSlot.divideLongs lhs rhs m = _
    unfold BuiltinSlot.divideLongs
    rw [run_get_bind, hx, hy]
    dsimp only [Option.bind_some, Numeric.quotient?]
    cases x.integer? with
    | none => rfl
    | some a =>
      cases y.integer? with
      | none => rfl
      | some b =>
        dsimp only [Numeric.longQuotient]
        cases longFloorDivide a b <;> rfl
  | float =>
    show BuiltinSlot.divideFloats lhs rhs m = _
    unfold BuiltinSlot.divideFloats
    dsimp only [Numeric.quotient?]
    rw [run_bind, run_toDouble?_numeric hx]
    generalize x.toDouble m.level = a?
    cases a? with
    | error => rfl
    | ok a =>
      dsimp only [Except.map]
      rw [run_bind, run_toDouble?_numeric hy]
      generalize y.toDouble m.level = b?
      cases b? with
      | error => rfl
      | ok b =>
        show (match floatFloorDivide a b with | .ok q => _ | .error _ => _ : MachineM Value) m =
          finish (some (Numeric.floatQuotient m.level a b)) m
        unfold Numeric.floatQuotient
        cases floatFloorDivide a b <;> rfl

/-- **Machine integers are divided natively as by their slot**; the tracer is told more. -/
theorem outcome_nativeInts (a b : Int64) :
    (divideNatively .int (.int a) (.int b) >>= Quotient.toValue).outcome m =
      (finish (some (Numeric.intQuotient a b))).outcome m := by
  have blind : (divideInts a b >>= Quotient.toValue).Blind := Composed.blind_of_forall
    fun user => (Composed.nativeInts a b).bind Composed.toValue
  have native : (divideNatively .int (.int a) (.int b) >>= Quotient.toValue).outcome m =
      (divideInts a b >>= Quotient.toValue).outcome m := outcome_observe_bind blind (.fastPath .int)
  rw [native]
  unfold divideInts Numeric.intQuotient
  cases intFloorDivide a b with
  | error => rfl
  | ok quotient =>
    cases quotient with
    | none => exact outcome_observe_bind (blind_newLong _) .escalate
    | some => rfl

end Slots

/-! ## The slots that are tried for two numbers -/

section Candidates

variable {user : UserSlots} {m : Machine} {lhs rhs : Value} {x y : Numeric}

/-- The slots that are tried are the offered ones. -/
theorem mem_candidates_generic {level : Level} {leftType rightType : ObjectType}
    (hid : leftType.id = rightType.id → leftType = rightType) (slot : DivideSlot) :
    slot ∈ (candidates (.generic level) leftType rightType).map (·.2) ↔
      offeredSlot? level .unknown leftType = some slot ∨
        offeredSlot? level .unknown rightType = some slot := by
  have ordered : slot ∈ (candidates (.generic level) leftType rightType).map (·.2) ↔
      offeredSlot? level .unknown leftType = some slot ∨
        (if leftType.id = rightType.id then none
          else (offeredSlot? level .unknown rightType).filter fun right =>
            offeredSlot? level .unknown leftType ≠ some right) = some slot := by
    unfold candidates
    rw [show (EntryPoint.generic level).bothKnown = false from rfl, Bool.not_false, Bool.true_and]
    dsimp only [EntryPoint.generic]
    cases rightType.isSubtypeOf leftType <;> simp [or_comm]
  rw [ordered]
  by_cases heq : leftType.id = rightType.id
  · rw [if_pos heq, hid heq]
    simp
  · rw [if_neg heq]
    by_cases hleft : offeredSlot? level .unknown leftType = some slot
    · simp [hleft]
    · simp [hleft, Option.filter_eq_some_iff]

/--
**Among builtin slots it is the one of a certain kind that divides two numbers**, if it is there and
the others decline them; else nothing comes of them.  All that is done besides is observed only.
-/
theorem run_divideByCandidates_numbers (user : UserSlots) {kind : NumberKind}
    {quotient : Except Failure Quotient} (slots : List (Side × DivideSlot)) (m : Machine)
    (hx : m.heap.numeric? lhs = some x) (hy : m.heap.numeric? rhs = some y)
    (htaken : Numeric.quotient? m.level kind x y = some quotient)
    (hs : ∀ slot ∈ slots.map (·.2), slot = .builtin kind ∨
      ∃ other, slot = .builtin other ∧ Numeric.quotient? m.level other x y = none) :
    ∃ m', m'.untraced = m.untraced ∧
      (DivideSlot.builtin kind ∈ slots.map (·.2) →
        divideByCandidates user lhs rhs slots m =
          (finish (some quotient) >>= fun value => pure (some value)) m') ∧
      (DivideSlot.builtin kind ∉ slots.map (·.2) →
        divideByCandidates user lhs rhs slots m = (.ok none, m')) := by
  induction slots generalizing m with
  | nil => exact ⟨m, rfl, fun h => absurd h List.not_mem_nil, fun _ => rfl⟩
  | cons candidate rest ih =>
    obtain ⟨side, slot⟩ := candidate
    rw [run_divideByCandidates_cons]
    rcases hs slot List.mem_cons_self with rfl | ⟨other, rfl, hdeclined⟩
    · refine ⟨m.observe (.slotCall side), rfl, fun _ => ?_,
        fun h => absurd List.mem_cons_self h⟩
      have run : callDivide user (.builtin kind) lhs rhs (m.observe (.slotCall side)) =
          finish (some quotient) (m.observe (.slotCall side)) := by
        rw [← htaken]
        exact run_builtinDivide kind hx hy
      have answered : (finish (some quotient)).Yields (· ≠ .notImplemented) := by
        cases quotient with
        | error e => exact yields_throw e
        | ok quotient => exact yields_toValue quotient
      rw [run, run_bind]
      rcases hrun : finish (some quotient) (m.observe (.slotCall side)) with ⟨e | value, after⟩
      · rfl
      · have hvalue : value ≠ .notImplemented :=
          answered (m.observe (.slotCall side)) value (by rw [hrun])
        simp only [Value.isNotImplemented_iff, hvalue, if_false]
        rfl
    · have run : callDivide user (.builtin other) lhs rhs (m.observe (.slotCall side)) =
          (.ok .notImplemented, m.observe (.slotCall side)) := by
        have slot := run_builtinDivide (m := m.observe (.slotCall side)) other hx hy
        rwa [show (m.observe (.slotCall side)).level = m.level from rfl, hdeclined] at slot
      rw [run]
      have hne : DivideSlot.builtin kind ≠ .builtin other := by
        intro h
        cases h
        rw [htaken] at hdeclined
        cases hdeclined
      obtain ⟨m', hm', taken, declined⟩ :=
        ih ((m.observe (.slotCall side)).observe (.slotDeclined side)) hx hy htaken
          fun slot hslot => hs slot (List.mem_cons_of_mem _ hslot)
      refine ⟨m', hm', fun h => taken ?_, fun h => declined ?_⟩
      · exact (List.mem_cons.mp h).resolve_left hne
      · exact fun hrest => h (List.mem_cons_of_mem _ hrest)

/--
**Two numbers are divided by the slot of the wider kind where it is offered**; where it is not, the
slots come to nothing.
-/
theorem run_divideBySlots_numbers (user : UserSlots) {level : Level} (hl : m.level = level)
    (hx : m.heap.numeric? lhs = some x) (hy : m.heap.numeric? rhs = some y)
    (hid : (m.typeOf lhs).id = (m.typeOf rhs).id → m.typeOf lhs = m.typeOf rhs)
    (hleft : ∀ slot, offeredSlot? level .unknown (m.typeOf lhs) = some slot →
      slot = .builtin (x.kindAt level))
    (hright : ∀ slot, offeredSlot? level .unknown (m.typeOf rhs) = some slot →
      slot = .builtin (y.kindAt level)) :
    let kind := (x.kindAt level).wider (y.kindAt level)
    let offered := offeredSlot? level .unknown (m.typeOf lhs) = some (.builtin kind) ∨
      offeredSlot? level .unknown (m.typeOf rhs) = some (.builtin kind)
    ∃ m', m'.untraced = m.untraced ∧
      (offered → divideBySlots user (.generic level) lhs rhs m =
        finish (Numeric.quotient? level kind x y) m') ∧
      (¬offered → divideBySlots user (.generic level) lhs rhs m =
        divideWithoutSlots user (.generic level) (m.typeOf lhs) (m.typeOf rhs) lhs rhs m') := by
  subst hl
  intro kind offered
  obtain ⟨quotient, htaken⟩ := Numeric.quotient?_wider m.level x y
  have others : ∀ slot ∈ (candidates (.generic m.level) (m.typeOf lhs) (m.typeOf rhs)).map (·.2),
      slot = .builtin kind ∨
        ∃ other, slot = .builtin other ∧ Numeric.quotient? m.level other x y = none := by
    intro slot hslot
    have own : ∃ other, slot = .builtin other ∧
        (other = x.kindAt m.level ∨ other = y.kindAt m.level) := by
      rcases (mem_candidates_generic hid slot).mp hslot with h | h
      · exact ⟨_, hleft slot h, Or.inl rfl⟩
      · exact ⟨_, hright slot h, Or.inr rfl⟩
    obtain ⟨other, rfl, hother⟩ := own
    by_cases hwider : other = kind
    · exact Or.inl (congrArg _ hwider)
    · exact Or.inr ⟨other, rfl, Numeric.quotient?_of_ne_wider hother hwider⟩
  obtain ⟨m', hm', taken, declined⟩ := run_divideByCandidates_numbers user _ m hx hy htaken others
  have tried : offered ↔ DivideSlot.builtin kind ∈
      (candidates (.generic m.level) (m.typeOf lhs) (m.typeOf rhs)).map (·.2) :=
    (mem_candidates_generic hid _).symm
  refine ⟨m', hm', fun h => ?_, fun h => ?_⟩
  · rw [run_divideBySlots_generic, run_bind, taken (tried.mp h), htaken, run_bind]
    rcases finish (some quotient) m' with ⟨e | value, after⟩
    · rfl
    · rfl
  · rw [run_divideBySlots_generic, run_bind_ok (declined fun hmem => h (tried.mpr hmem))]

/-! ## Builtin types -/

/-- The type of a number is that of its kind, or that of truth values. -/
theorem typeOf_of_isNumber {value : Value} (h : m.IsNumber value) :
    m.typeOf value = .bool m.level ∨ ∃ kind, m.typeOf value = .number m.level kind := by
  cases value with
  | none | notImplemented => exact h.elim
  | bool => exact Or.inl rfl
  | int | float => exact Or.inr ⟨_, rfl⟩
  | ref id =>
    obtain ⟨n, hn⟩ := h
    exact Or.inr ⟨.long, by simp only [Machine.typeOf, hn]⟩

/-- Types of numbers are told apart by what tells types apart. -/
theorem typeOf_eq_of_id (hl : m.IsNumber lhs) (hr : m.IsNumber rhs)
    (h : (m.typeOf lhs).id = (m.typeOf rhs).id) : m.typeOf lhs = m.typeOf rhs := by
  rcases typeOf_of_isNumber hl with hleft | ⟨k, hleft⟩ <;>
    rcases typeOf_of_isNumber hr with hright | ⟨l, hright⟩ <;> rw [hleft, hright] at h ⊢ <;> cases h
  rfl

end Candidates

end FloorDivision
