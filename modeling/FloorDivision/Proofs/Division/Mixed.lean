import FloorDivision.Proofs.Division.Integers
import FloorDivision.Proofs.Number.Long

/-!
# Integers and floats are divided as doubles

As soon as one of two numbers is a float the slot of floats divides them, natively or not: each
integer is converted first, and only then is the divisor looked at.

* `Machine.IsTakenFor` — the double that a number is divided as.
* `toDouble_of_integer?` — which integers are converted, and to what.
* `floatResult_divideInside` — a division comes to the quotient of the doubles, or is refused for an
  integer out of range or else for a zero.
* `mixed_divided_as_doubles` — the whole division, in every variant.
-/

namespace FloorDivision

open MachineM

variable {m : Machine} {lhs rhs value : Value}

/-! ## Conversions -/

/-- An integer that no finite double is nearest to. -/
def Machine.IsTooLarge (m : Machine) (value : Value) : Prop :=
  ∃ n, m.integer? value = some n ∧ overflowInteger ≤ n.natAbs

/-- The double that a number is divided as: a float itself, and for an integer one that depends on
nothing but the integer, the nearest wherever longs are rounded to it. -/
def Machine.IsTakenFor (m : Machine) (value : Value) (x : Double) : Prop :=
  value = .float x ∨ ∃ n, m.integer? value = some n ∧ x = .ofLong n ∧
    (Double.IsRoundedAt n → Double.IsNearest n x)

/-- A number is a float or an integer. -/
theorem float_or_integer (h : m.IsNumber value) :
    (∃ x, value = .float x) ∨ ∃ n, m.integer? value = some n := by
  cases value with
  | none | notImplemented => exact h.elim
  | float x => exact Or.inl ⟨x, rfl⟩
  | bool | int => exact Or.inr ⟨_, rfl⟩
  | ref id =>
    obtain ⟨n, hn⟩ := h
    refine Or.inr ⟨n, ?_⟩
    unfold Machine.integer?
    dsimp only
    rw [hn]

theorem natAbs_toInt_lt (n : Int64) : n.toInt.natAbs < 2 ^ 64 := by
  have hlow := n.le_toInt
  have hhigh := n.toInt_lt
  omega

theorem toDoubleBy_long {ofLong? : Int → Option Double} {n : Int} (level : Level) :
    (∀ x, ofLong? n = some x → (Numeric.long n).toDoubleBy ofLong? level = .ok x) ∧
      (ofLong? n = none → (Numeric.long n).toDoubleBy ofLong? level =
        .error (.raised (.integerTooLargeForFloat level))) := by
  unfold Numeric.toDoubleBy
  dsimp only
  cases ofLong? n <;> simp

/-- **Integers are converted alike up to a limit**, whatever represents them. -/
theorem toDouble_of_integer? {n : Int} {x : Numeric} (level : Level)
    (hn : m.integer? value = some n) (hx : m.heap.numeric? value = some x) :
    x.toDouble level = if n.natAbs < overflowInteger then .ok (.ofLong n)
      else .error (.raised (.integerTooLargeForFloat level)) := by
  obtain ⟨x', hx', _, hinteger⟩ := exists_numeric_of_integer? hn
  obtain rfl := Option.some.inj (hx.symm.trans hx')
  unfold Numeric.toDouble
  rcases hinteger with ⟨k, rfl, rfl, _⟩ | ⟨rfl, _⟩
  · have hword := natAbs_toInt_lt k
    have hlimit : k.toInt.natAbs < overflowInteger := hword.trans (by decide +kernel)
    rw [if_pos hlimit, Double.ofLong_eq_ofInt (hword.trans (by decide))]
    rfl
  · by_cases h : n.natAbs < overflowInteger
    · rw [if_pos h]
      exact (toDoubleBy_long level).1 _ (if_pos (Double.isFinite_ofLong_iff.mpr h))
    · rw [if_neg h]
      exact (toDoubleBy_long level).2 (if_neg (Double.isFinite_ofLong_iff.not.mpr h))

theorem exists_numeric_of_isNumber (h : m.IsNumber value) :
    ∃ x, m.heap.numeric? value = some x := by
  rcases float_or_integer h with ⟨z, rfl⟩ | ⟨n, hn⟩
  · exact ⟨_, Heap.numeric?_float _ z⟩
  · obtain ⟨x, hx, _⟩ := exists_numeric_of_integer? hn
    exact ⟨x, hx⟩

/-- A number is converted to the double it is taken for, or it is too large. -/
theorem toDouble_of_isNumber {x : Numeric} (level : Level) (h : m.IsNumber value)
    (hx : m.heap.numeric? value = some x) :
    (∃ a, ¬m.IsTooLarge value ∧ m.IsTakenFor value a ∧ x.toDouble level = .ok a) ∨
      m.IsTooLarge value ∧
        x.toDouble level = .error (.raised (.integerTooLargeForFloat level)) := by
  rcases float_or_integer h with ⟨a, rfl⟩ | ⟨n, hn⟩
  · rw [Heap.numeric?_float] at hx
    cases hx
    refine Or.inl ⟨a, ?_, Or.inl rfl, rfl⟩
    rintro ⟨n, hn, _⟩
    cases hn
  · have hconverted := toDouble_of_integer? level hn hx
    by_cases hlimit : n.natAbs < overflowInteger
    · rw [if_pos hlimit] at hconverted
      refine Or.inl ⟨_, ?_, Or.inr ⟨n, hn, rfl, Double.isNearest_ofLong hlimit⟩, hconverted⟩
      rintro ⟨n', hn', hlarge⟩
      obtain rfl := Option.some.inj (hn.symm.trans hn')
      exact absurd hlimit (Nat.not_lt.mpr hlarge)
    · rw [if_neg hlimit] at hconverted
      exact Or.inr ⟨⟨n, hn, Nat.not_lt.mp hlimit⟩, hconverted⟩

/-! ## Division of doubles -/

/-- What a division of two numbers comes to that are converted first, the dividend before the
divisor. -/
inductive FloatResult (x? y? : Except Failure Double) : Except Failure Double → Prop where
  | dividend {e : Failure} (hx : x? = .error e) : FloatResult x? y? (.error e)
  | divisor {x : Double} {e : Failure} (hx : x? = .ok x) (hy : y? = .error e) :
    FloatResult x? y? (.error e)
  | zero {x y : Double} (hx : x? = .ok x) (hy : y? = .ok y) (hzero : y.isZero = true) {e : Raised}
      (he : e.kind = .zeroDivisionError) : FloatResult x? y? (.error (.raised e))
  | quotient {x y q : Double} (hx : x? = .ok x) (hy : y? = .ok y)
      (hq : floatFloorDivide x y = .ok q) : FloatResult x? y? (.ok q)

namespace FloatResult

variable {x y : Double} {y? : Except Failure Double} {e : Failure} {result : Except Failure Double}

theorem of_left (h : FloatResult (.error e) y? result) : result = .error e := by
  cases h with
  | dividend hx => rw [hx]
  | divisor hx => cases hx
  | zero hx => cases hx
  | quotient hx => cases hx

theorem of_right (h : FloatResult (.ok x) (.error e) result) : result = .error e := by
  cases h with
  | dividend hx => cases hx
  | divisor _ hy => rw [hy]
  | zero _ hy => cases hy
  | quotient _ hy => cases hy

theorem of_ok (h : FloatResult (.ok x) (.ok y) result) :
    (y.isZero = true ∧ ∃ e : Raised, e.kind = .zeroDivisionError ∧ result = .error (.raised e)) ∨
      y.isZero = false ∧ ∃ q, floatFloorDivide x y = .ok q ∧ result = .ok q := by
  cases h with
  | dividend hx => cases hx
  | divisor _ hy => cases hy
  | zero hx hy hzero he =>
    cases hy
    exact Or.inl ⟨hzero, _, he, rfl⟩
  | quotient hx hy hq =>
    cases hx
    cases hy
    refine Or.inr ⟨?_, _, hq, rfl⟩
    cases hzero : y.isZero with
    | false => rfl
    | true => rw [floatFloorDivide_of_isZero hzero] at hq; cases hq

end FloatResult

theorem floatFloorDivide_cases (x y : Double) :
    (y.isZero = true ∧ floatFloorDivide x y = .error .divisionByZero) ∨
      y.isZero = false ∧ ∃ q, floatFloorDivide x y = .ok q := by
  cases hy : y.isZero with
  | true => exact Or.inl ⟨rfl, floatFloorDivide_of_isZero hy⟩
  | false => exact Or.inr ⟨rfl, exists_floatFloorDivide hy⟩

theorem kind_floatDivisionByZero (level : Level) :
    (Raised.floatDivisionByZero level).kind = .zeroDivisionError := by
  cases level <;> rfl

/-- The slot of floats. -/
theorem floatResult_slot (level : Level) (x y : Numeric) (m : Machine) :
    ∃ result, FloatResult (x.toDouble level) (y.toDouble level) result ∧
      finish (Numeric.quotient? level .float x y) m = (result.map .float, m) := by
  unfold Numeric.quotient?
  dsimp only
  generalize x.toDouble level = x?
  generalize y.toDouble level = y?
  cases x? with
  | error e => exact ⟨.error e, .dividend rfl, rfl⟩
  | ok a =>
    cases y? with
    | error e => exact ⟨.error e, .divisor rfl rfl, rfl⟩
    | ok b =>
      show ∃ result, _ ∧ finish (some (Numeric.floatQuotient level a b)) m = _
      unfold Numeric.floatQuotient
      rcases floatFloorDivide_cases a b with ⟨hb, hzero⟩ | ⟨-, q, hq⟩
      · rw [hzero]
        exact ⟨_, .zero rfl rfl hb (kind_floatDivisionByZero level), rfl⟩
      · rw [hq]
        exact ⟨.ok q, .quotient rfl rfl hq, rfl⟩

/-- Native division of floats. -/
theorem floatResult_native (x y : Double) (m : Machine) :
    ∃ result, FloatResult (.ok x) (.ok y) result ∧
      (divideNatively .float (.float x) (.float y) >>= Quotient.toValue) m =
        (result.map .float, m.observe (.fastPath .float)) := by
  rw [run_nativeFloats]
  rcases floatFloorDivide_cases x y with ⟨hy, hzero⟩ | ⟨-, q, hq⟩
  · rw [hzero]
    exact ⟨_, .zero rfl rfl hy rfl, rfl⟩
  · rw [hq]
    exact ⟨.ok q, .quotient rfl rfl hq, rfl⟩

/-- The type of a number offers the slot of its kind. -/
theorem offeredSlot?_of_isNumber {x : Numeric} (h : m.IsNumber value)
    (hx : m.heap.numeric? value = some x) :
    offeredSlot? m.level .unknown (m.typeOf value) = some (.builtin (x.kindAt m.level)) := by
  rcases float_or_integer h with ⟨z, rfl⟩ | ⟨n, hn⟩
  · rw [Heap.numeric?_float] at hx
    cases hx
    exact if_pos (isNewStyle_number _ _)
  · obtain ⟨x', hx', hoffered, _⟩ := exists_numeric_of_integer? hn
    obtain rfl := Option.some.inj (hx.symm.trans hx')
    exact hoffered

/-- Of a float and another number the float is of the wider kind. -/
theorem wider_eq_float (level : Level) {x y : Numeric}
    (h : (∃ z, x = .float z) ∨ ∃ z, y = .float z) :
    (x.kindAt level).wider (y.kindAt level) = .float := by
  rcases h with ⟨z, rfl⟩ | ⟨z, rfl⟩
  · cases level <;> cases y <;> rfl
  · cases level <;> cases x <;> rfl

/-- **Every entry point divides doubles as soon as there is a float**, and allocates nothing. -/
theorem floatResult_divideInside (user : UserSlots) {entry : EntryPoint} {x y : Numeric}
    (hl : m.level = entry.level) (hf : entry.Fits m lhs rhs) (hlhs : m.IsNumber lhs)
    (hrhs : m.IsNumber rhs) (hx : m.heap.numeric? lhs = some x) (hy : m.heap.numeric? rhs = some y)
    (hfloat : (∃ z, lhs = .float z) ∨ ∃ z, rhs = .float z) :
    ∃ result after, FloatResult (x.toDouble m.level) (y.toDouble m.level) result ∧
      after.untraced = m.untraced ∧
      divideInside user entry Quotient.toValue pure lhs rhs m = (result.map .float, after) := by
  cases hk : fastKind? entry m lhs rhs with
  | some kind =>
    obtain ⟨hleft, hright⟩ := isExact_of_fastKind? hf hk
    have hkind : kind = .float := by
      rcases hfloat with ⟨z, rfl⟩ | ⟨z, rfl⟩
      · exact eq_float_of_isExact hleft
      · exact eq_float_of_isExact hright
    subst hkind
    obtain ⟨a, rfl⟩ := exists_float_of_isExact hleft
    obtain ⟨b, rfl⟩ := exists_float_of_isExact hright
    rw [Heap.numeric?_float] at hx hy
    cases hx
    cases hy
    obtain ⟨result, hresult, hrun⟩ := floatResult_native a b m
    exact ⟨result, m.observe (.fastPath .float), hresult, rfl, by
      rw [run_divideInside_native user hk, hrun]⟩
  | none =>
    have hleft := offeredSlot?_of_isNumber hlhs hx
    have hright := offeredSlot?_of_isNumber hrhs hy
    have hnumeric : (∃ z, x = .float z) ∨ ∃ z, y = .float z := by
      rcases hfloat with ⟨z, rfl⟩ | ⟨z, rfl⟩
      · rw [Heap.numeric?_float] at hx
        exact Or.inl ⟨z, (Option.some.inj hx).symm⟩
      · rw [Heap.numeric?_float] at hy
        exact Or.inr ⟨z, (Option.some.inj hy).symm⟩
    obtain ⟨m', hm', taken, _⟩ := run_divideBySlots_numbers user rfl hx hy
      (typeOf_eq_of_id hlhs hrhs)
      (fun slot h => (Option.some.inj (hleft.symm.trans h)).symm)
      (fun slot h => (Option.some.inj (hright.symm.trans h)).symm)
    have hoffered : offeredSlot? m.level .unknown (m.typeOf lhs) = some (.builtin .float) ∨
        offeredSlot? m.level .unknown (m.typeOf rhs) = some (.builtin .float) := by
      rcases hnumeric with ⟨z, rfl⟩ | ⟨z, rfl⟩
      · exact Or.inl hleft
      · exact Or.inr hright
    rw [wider_eq_float m.level hnumeric] at taken
    obtain ⟨result, hresult, hrun⟩ := floatResult_slot m.level x y m'
    refine ⟨result, m', hresult, hm', ?_⟩
    rw [run_divideInside_slots user hk, bind_pure, divideBySlots_generic user hf hl, ← hl,
      taken hoffered, hrun]

/-! ## The whole division -/

/-- The machine that keeps a failure for a caller who only learns that there was one. -/
def Machine.keeping (m : Machine) : Except Failure Double → Machine
  | .ok _ => m
  | .error e => { m with pending := some e }

/-- Every variant of a division comes to a double or to a failure, and leaves nothing else than the
tracer other than it was. -/
def Machine.DividesTo (m : Machine) (user : UserSlots) (entry : EntryPoint) (lhs rhs : Value)
    (result : Except Failure Double) : Prop :=
  ∃ after, after.untraced = m.untraced ∧
    divide user entry lhs rhs m = (result.map .float, after) ∧
    divideToTruth user entry lhs rhs m = (result.map (!·.isZero), after) ∧
    divideToPending user entry lhs rhs m =
      (result.toOption.map (!·.isZero), after.keeping result) ∧
    (divideTakingPending user entry lhs rhs m).1 = result.map (!·.isZero)

theorem isTrue_float (user : UserSlots) (x : Double) (m : Machine) :
    isTrue user (.float x) m = (.ok !x.isZero, m) :=
  run_isTrue user (show m.IsNumber (.float x) from trivial)

/-- What a division comes to inside, the whole of it comes to. -/
theorem dividesTo_of_inside (user : UserSlots) {entry : EntryPoint} {result : Except Failure Double}
    {inside : Machine} (hl : m.level = entry.level)
    (hdepth : m.heap.budget.checkDepth m.depth = .ok ())
    (hinside : inside.untraced = (m.entered entry).untraced)
    (hrun : divideInside user entry Quotient.toValue pure lhs rhs (m.entered entry) =
      (result.map .float, inside)) : m.DividesTo user entry lhs rhs result := by
  have hobject : divide user entry lhs rhs m = (result.map .float, inside.left) := by
    unfold divide
    rw [run_divideWith, if_neg (not_not_intro hl), hdepth]
    dsimp only
    rw [hrun]
  have htruth : divideToTruth user entry lhs rhs m = (result.map (!·.isZero), inside.left) := by
    unfold divideToTruth
    rw [run_divideWith, if_neg (not_not_intro hl), hdepth]
    dsimp only
    rw [divideInside_truth, run_bind, hrun]
    cases result with
    | error e => rfl
    | ok q =>
      show (let r := truthOfOwned user (.float q) inside; (r.1, r.2.left)) = _
      unfold truthOfOwned
      rw [run_releasing, isTrue_float]
      rfl
  have hleft : inside.left.untraced = m.untraced := by
    show inside.untraced.left = m.untraced
    rw [hinside]
    rfl
  refine ⟨inside.left, hleft, hobject, htruth, ?_, ?_⟩
  · rw [run_divideToPending, htruth]
    cases result <;> rfl
  · rw [run_divideTakingPending, htruth]
    cases result <;> rfl

/--
**Integers and floats are divided as doubles.**

Two numbers of builtin types, one of them a float, divided by any entry point that takes them for
what they are.  An integer of magnitude `2 ^ 1024 - 2 ^ 970` or more is an overflow error, whatever
the other operand is.  Else a float stands for itself and an integer for its double, which is the
nearest one, ties to even, unless the integer has more than two words and is not rounded to it; a
zero divisor is an error of its kind, and there is the quotient of the two doubles where there is
none.  Nothing is allocated, and only the tracer is other than it was.
-/
theorem mixed_divided_as_doubles (user : UserSlots) {entry : EntryPoint}
    (hl : m.level = entry.level) (hf : entry.Fits m lhs rhs) (hlhs : m.IsNumber lhs)
    (hrhs : m.IsNumber rhs) (hfloat : (∃ z, lhs = .float z) ∨ ∃ z, rhs = .float z)
    (hdepth : m.heap.budget.checkDepth m.depth = .ok ()) :
    (m.IsTooLarge lhs ∨ m.IsTooLarge rhs → ∃ e : Raised, e.kind = .overflowError ∧
      m.DividesTo user entry lhs rhs (.error (.raised e))) ∧
    (¬m.IsTooLarge lhs → ¬m.IsTooLarge rhs → ∃ x y, m.IsTakenFor lhs x ∧ m.IsTakenFor rhs y ∧
      (y.isZero = true → ∃ e : Raised, e.kind = .zeroDivisionError ∧
        m.DividesTo user entry lhs rhs (.error (.raised e))) ∧
      (y.isZero = false → ∃ q, floatFloorDivide x y = .ok q ∧
        m.DividesTo user entry lhs rhs (.ok q))) := by
  obtain ⟨x, hx⟩ := exists_numeric_of_isNumber hlhs
  obtain ⟨y, hy⟩ := exists_numeric_of_isNumber hrhs
  obtain ⟨result, inside, hresult, hinside, hrun⟩ :=
    floatResult_divideInside (m := m.entered entry) user hl hf hlhs hrhs hx hy hfloat
  have hdivides := dividesTo_of_inside user hl hdepth hinside hrun
  have hlevel : (m.entered entry).level = m.level := rfl
  have hoverflow : (Raised.integerTooLargeForFloat m.level).kind = .overflowError := by
    cases m.level <;> rfl
  rw [hlevel] at hresult
  rcases toDouble_of_isNumber m.level hlhs hx with ⟨a, hfits, ha, hxa⟩ | ⟨hlarge, hxe⟩
  · rw [hxa] at hresult
    rcases toDouble_of_isNumber m.level hrhs hy with ⟨b, hfits', hb, hyb⟩ | ⟨hlarge, hye⟩
    · rw [hyb] at hresult
      refine ⟨fun h => (h.elim hfits hfits').elim, fun _ _ => ⟨a, b, ha, hb, ?_⟩⟩
      rcases hresult.of_ok with ⟨hzero, e, he, rfl⟩ | ⟨hzero, q, hq, rfl⟩
      · exact ⟨fun _ => ⟨e, he, hdivides⟩, fun h => absurd (hzero.symm.trans h) Bool.noConfusion⟩
      · exact ⟨fun h => absurd (hzero.symm.trans h) Bool.noConfusion, fun _ => ⟨q, hq, hdivides⟩⟩
    · rw [hye] at hresult
      rw [hresult.of_right] at hdivides
      exact ⟨fun _ => ⟨_, hoverflow, hdivides⟩, fun _ h => absurd hlarge h⟩
  · rw [hxe] at hresult
    rw [hresult.of_left] at hdivides
    exact ⟨fun _ => ⟨_, hoverflow, hdivides⟩, fun h _ => absurd hlarge h⟩

/-- A long of three words divided by a float. -/
theorem mixed_divided_as_doubles_long :
    let heap : Heap :=
      { cells := #[some ⟨1, .long (2 ^ 130)⟩], budget := .depthOnly 1000 }
    let m : Machine := { config := { level := .legacy }, heap }
    let user : UserSlots :=
      { divide := fun _ _ _ => return .notImplemented
        coerce := fun _ _ _ => return none
        truth := fun _ _ => return true }
    let entry : EntryPoint := ⟨.legacy, .known .long, .unknown, rfl, rfl⟩
    let divisor : Value := .float (.ofInt 2)
    m.level = entry.level ∧ entry.Fits m (.ref 0) divisor ∧ m.IsNumber (.ref 0) ∧
      m.IsNumber divisor ∧ m.heap.budget.checkDepth m.depth = .ok () ∧
      Double.IsRoundedAt (2 ^ 130) ∧ m.DividesTo user entry (.ref 0) divisor (.ok (.ofInt (2 ^ 129))) := by
  intro heap m user entry divisor
  have hf : entry.Fits m (.ref 0) divisor := by
    refine ⟨fun kind h => ?_, fun kind h => ?_⟩
    · cases h
      rfl
    · cases h
  have hinteger : m.integer? (.ref 0) = some (2 ^ 130) := rfl
  have hrounded : Double.IsRoundedAt (2 ^ 130) := fun _ => by decide +kernel
  have hlarge : ¬m.IsTooLarge (.ref 0) := by
    rintro ⟨n, hn, hlimit⟩
    obtain rfl := Option.some.inj (hinteger.symm.trans hn)
    revert hlimit
    decide +kernel
  have hlarge' : ¬m.IsTooLarge divisor := by
    rintro ⟨n, hn, _⟩
    cases hn
  obtain ⟨x, y, hx, hy, -, hdivides⟩ := (mixed_divided_as_doubles user rfl hf ⟨_, rfl⟩ trivial
    (Or.inr ⟨_, rfl⟩) rfl).2 hlarge hlarge'
  have hx' : x = .ofInt (2 ^ 130) := by
    rcases hx with h | ⟨n, hn, h, _⟩
    · cases h
    · rw [h, Option.some.inj (hn.symm.trans hinteger), hrounded (by decide +kernel)]
  have hy' : y = .ofInt 2 := by
    rcases hy with h | ⟨n, hn, _⟩
    · exact (Value.float.inj h).symm
    · cases hn
  obtain ⟨q, hq, hdivides⟩ := hdivides (by rw [hy']; decide +kernel)
  have hquotient : floatFloorDivide (.ofInt (2 ^ 130)) (.ofInt 2) = .ok (.ofInt (2 ^ 129)) := by
    decide +kernel
  have hq' : q = .ofInt (2 ^ 129) := by
    rw [hx', hy', hquotient] at hq
    exact (Except.ok.inj hq).symm
  rw [hq'] at hdivides
  exact ⟨rfl, hf, ⟨_, rfl⟩, trivial, rfl, hrounded, hdivides⟩

end FloorDivision
