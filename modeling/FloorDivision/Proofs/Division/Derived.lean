import FloorDivision.Proofs.Division.Widening

/-!
# Instances of derived types divide like numbers

* `Machine.StandsFor` — instances of types that derive from a type of numbers, and of such types
  again, down to a number.
* `readOut_divideInside` — operands that are numbers to division have the quotient of these
  numbers, by slots or by conversion.
* `derived_divide_like_numbers` — so it makes no difference to a division whether its operands are
  numbers or stand for them.
-/

namespace FloorDivision

open MachineM

/-! ## Standing for a number -/

/-- The kind of number that a number is at the level of a machine. -/
def Machine.kindOf (m : Machine) : Value → NumberKind
  | .float _ => .float
  | .ref _ => .long
  | .none | .notImplemented | .bool _ | .int _ => ObjectType.smallIntKind m.level

/-- A value is a number, or an instance of a type that derives from the number's and has a payload
which stands for it. -/
inductive Machine.StandsFor (m : Machine) : Value → Value → Prop where
  | itself (number : Value) : StandsFor m number number
  | instanceOf {id : Nat} {type : ObjectType} {payload number : Value} :
      m.heap.content? id = some (.instanceOf type payload) →
        type.Derives m.level (m.kindOf number) → StandsFor m payload number →
          StandsFor m (.ref id) number

variable {m m' : Machine} {value lhs rhs : Value} {x y : Numeric}
  {held : Multiset Nat}

theorem exists_presents_of_isNumber (h : m.IsNumber value) :
    ∃ x, m.Presents value x ∧ x.kindAt m.level = m.kindOf value := by
  cases value with
  | none | notImplemented => exact h.elim
  | bool b => exact ⟨_, ⟨.bool b, .declare .number rfl rfl⟩, rfl⟩
  | int n => exact ⟨_, ⟨.int n, .number⟩, rfl⟩
  | float d => exact ⟨_, ⟨.float d, .number⟩, rfl⟩
  | ref id =>
    obtain ⟨n, hn⟩ := h
    refine ⟨_, ⟨.long hn, ?_⟩, rfl⟩
    simp only [Machine.typeOf, hn]
    exact .number

/-- **What stands for a number is that number to division.** -/
theorem Machine.StandsFor.presents {number : Value} (h : m.StandsFor value number)
    (hx : m.Presents number x) (hkind : x.kindAt m.level = m.kindOf number) :
    m.Presents value x := by
  induction h with
  | itself => exact hx
  | instanceOf hcontent hderives _ ih =>
    refine ⟨.instanceOf hcontent (ih hx hkind).reads, ?_⟩
    rw [hkind]
    simpa only [Machine.typeOf, hcontent] using hderives

/-! ## Division -/

section Divide

variable {quotient : Except Failure Quotient}
  (hlimits : m.heap.budget.limits? = none) (hb : m.heap.Balanced held)
  (hx : m.Presents lhs x) (hy : m.Presents rhs y)
include hlimits hb hx hy

/-- Where no slot has taken the operands, conversion leads to the quotient. -/
theorem readOut_divideWithoutSlots (user : UserSlots) (hlevel : m.level = .legacy)
    (hl : lhs.refs ⊆ held) (hr : rhs.refs ⊆ held)
    (hclassic : (m.typeOf lhs).isClassic = true ∨ (m.typeOf rhs).isClassic = true)
    (hq : Numeric.quotient? .legacy ((x.kindAt .legacy).wider (y.kindAt .legacy)) x y =
      some quotient) :
    readOut (divideWithoutSlots user (.generic .legacy) (m.typeOf lhs) (m.typeOf rhs) lhs rhs m) =
      quotient.map (·.toObject .legacy) := by
  have allowed : (EntryPoint.generic .legacy).AllowsCoercion (m.typeOf lhs) (m.typeOf rhs) :=
    ⟨rfl, Or.inl rfl, hclassic⟩
  have left := hx.derives
  have right := hy.derives
  rw [hlevel] at left right
  have converted := readsOut_convertEither hlevel hlimits hb user hl hr hx hy hq
  unfold divideWithoutSlots
  rw [if_pos (mayCoerce_iff.mpr allowed), run_bind, run_divideByCoercion, left.coerce, right.coerce]
  generalize convertEither user _ _ lhs rhs m = consulted at converted
  dsimp only
  cases quotient with
  | error e =>
    rw [show consulted.answer = _ from converted]
    rfl
  | ok quotient =>
    obtain ⟨value, hvalue, hobject⟩ := converted
    rw [hvalue]
    exact congrArg Except.ok hobject

omit hlimits hb hy in
/-- Only classic types of the legacy level keep the slot of their kind back. -/
theorem classic_of_not_offered
    (h : offeredSlot? m.level .unknown (m.typeOf lhs) ≠ some (.builtin (x.kindAt m.level))) :
    m.level = .legacy ∧ (m.typeOf lhs).isClassic = true := by
  have hstyle : (m.typeOf lhs).isNewStyle m.level = false := by
    cases hnew : (m.typeOf lhs).isNewStyle m.level with
    | false => rfl
    | true =>
      refine absurd ?_ h
      unfold offeredSlot?
      rw [hnew, hx.derives.divide]
      rfl
  unfold ObjectType.isNewStyle at hstyle
  cases hlevel : m.level with
  | modern => rw [hlevel] at hstyle; cases hstyle
  | legacy =>
    rw [hlevel] at hstyle
    exact ⟨rfl, by simpa using hstyle⟩

/-- **Inside a division, operands that are numbers to it have the quotient of these numbers**,
whatever their types are. -/
theorem readOut_divideInside (user : UserSlots)
    (hid : (m.typeOf lhs).id = (m.typeOf rhs).id → m.typeOf lhs = m.typeOf rhs)
    (hheld : (m.typeOf lhs).isClassic = true ∨ (m.typeOf rhs).isClassic = true →
      lhs.refs ⊆ held ∧ rhs.refs ⊆ held)
    (hq : Numeric.quotient? m.level ((x.kindAt m.level).wider (y.kindAt m.level)) x y =
      some quotient) :
    readOut (divideInside user (.generic m.level) Quotient.toValue pure lhs rhs m) =
      quotient.map (·.toObject m.level) := by
  cases hk : fastKind? (.generic m.level) m lhs rhs with
  | some kind =>
    have fits : (EntryPoint.generic m.level).Fits m lhs rhs :=
      ⟨fun _ h => (by cases h), fun _ h => (by cases h)⟩
    obtain ⟨hleft, hright⟩ := isExact_of_fastKind? fits hk
    obtain rfl : kind = .int := by
      by_contra hne
      rcases known_of_fastKind? hk hne with h | h <;> cases h
    obtain ⟨p, rfl⟩ := exists_int_of_isExact hleft
    obtain ⟨q, rfl⟩ := exists_int_of_isExact hright
    obtain rfl : Numeric.int p = x :=
      Option.some.inj ((Heap.numeric?_int _ p).symm.trans hx.reads.numeric?)
    obtain rfl : Numeric.int q = y :=
      Option.some.inj ((Heap.numeric?_int _ q).symm.trans hy.reads.numeric?)
    have hlevel : m.level = .legacy := by
      cases hlevel : m.level with
      | legacy => rfl
      | modern => simp [Machine.isExact, hlevel, Level.hasNativeInt] at hleft
    obtain rfl : Numeric.intQuotient p q = quotient := by
      rw [hlevel] at hq
      exact Option.some.inj hq
    have native := congrArg readOut (outcome_nativeInts (m := m) p q)
    rw [run_divideInside_native user hk, ← readOut_finish hlimits hb]
    exact native
  | none =>
    obtain ⟨m', hm', taken, declined⟩ := run_divideBySlots_numbers user rfl hx.reads.numeric?
      hy.reads.numeric? hid
      (fun slot h => Option.some.inj ((divide_of_offeredSlot? h).symm.trans hx.derives.divide))
      (fun slot h => Option.some.inj ((divide_of_offeredSlot? h).symm.trans hy.derives.divide))
    have hlevel : m'.level = m.level := by rw [← m'.untraced_level, hm', m.untraced_level]
    have hheap : m'.heap = m.heap := Machine.heap_eq_of_untraced hm'
    have htypes : m'.typeOf = m.typeOf := by rw [← m'.untraced_typeOf, hm', m.untraced_typeOf]
    have hlimits' : m'.heap.budget.limits? = none := by rwa [hheap]
    have hb' : m'.heap.Balanced held := by rwa [hheap]
    rw [run_divideInside_slots user hk, bind_pure]
    by_cases offered :
        offeredSlot? m.level .unknown (m.typeOf lhs) =
            some (.builtin ((x.kindAt m.level).wider (y.kindAt m.level))) ∨
          offeredSlot? m.level .unknown (m.typeOf rhs) =
            some (.builtin ((x.kindAt m.level).wider (y.kindAt m.level)))
    · rw [taken offered, hq, readOut_finish hlimits' hb', hlevel]
    · have classic : m.level = .legacy ∧
          ((m.typeOf lhs).isClassic = true ∨ (m.typeOf rhs).isClassic = true) := by
        unfold NumberKind.wider at offered
        split at offered
        · exact (classic_of_not_offered hy fun h => offered (Or.inr h)).imp_right Or.inr
        · exact (classic_of_not_offered hx fun h => offered (Or.inl h)).imp_right Or.inl
      obtain ⟨hlegacy, hclassic⟩ := classic
      obtain ⟨hl, hr⟩ := hheld hclassic
      have left : m'.Presents lhs x := ⟨hheap ▸ hx.reads, htypes ▸ hlevel ▸ hx.derives⟩
      have right : m'.Presents rhs y := ⟨hheap ▸ hy.reads, htypes ▸ hlevel ▸ hy.derives⟩
      rw [declined offered, ← htypes, hlegacy]
      rw [← htypes] at hclassic
      rw [hlegacy] at hq
      exact readOut_divideWithoutSlots hlimits' hb' left right user (hlevel.trans hlegacy) hl hr
        hclassic hq

end Divide

/-- What a generic division of operands that are numbers to it is read out as. -/
theorem readOut_divide (user : UserSlots) (hlimits : m.heap.budget.limits? = none)
    (hb : m.heap.Balanced held) (hx : m.Presents lhs x) (hy : m.Presents rhs y)
    (hid : (m.typeOf lhs).id = (m.typeOf rhs).id → m.typeOf lhs = m.typeOf rhs)
    (hheld : (m.typeOf lhs).isClassic = true ∨ (m.typeOf rhs).isClassic = true →
      lhs.refs ⊆ held ∧ rhs.refs ⊆ held) {quotient : Except Failure Quotient}
    (hq : Numeric.quotient? m.level ((x.kindAt m.level).wider (y.kindAt m.level)) x y =
      some quotient) :
    readOut (divide user (.generic m.level) lhs rhs m) =
      match m.heap.budget.checkDepth m.depth with
      | .error refusal => .error refusal.failure
      | .ok () => quotient.map (·.toObject m.level) := by
  have hlevel : m.level = (EntryPoint.generic m.level).level := rfl
  unfold divide
  rw [run_divideWith, if_neg (not_not_intro hlevel)]
  cases m.heap.budget.checkDepth m.depth with
  | error refusal => rfl
  | ok =>
    dsimp only
    exact readOut_divideInside (m := m.entered (.generic m.level)) hlimits hb
      ⟨hx.reads, hx.derives⟩ ⟨hy.reads, hy.derives⟩ user hid hheld hq

/-- A number's own type is not classic. -/
theorem isClassic_of_isNumber (h : m.IsNumber value) : (m.typeOf value).isClassic = false :=
  (isNumeric_typeOf h).2

/--
**Instances of derived types divide like the numbers that they stand for.**

On a machine without limits on its heap, either operand or both of a generic division of two numbers
is replaced by an instance of a type, classic or not and any number of declarations away, that
derives from the number's type without a division or conversion of its own, and whose payload is the
number or again such an instance.  What the division is read out as, object or failure, stays the
same.
-/
theorem derived_divide_like_numbers (user : UserSlots) {lhs' rhs' : Value}
    (hlimits : m.heap.budget.limits? = none) (hb : m.heap.Balanced held)
    (hlhs : m.IsNumber lhs) (hrhs : m.IsNumber rhs) (hleft : m.StandsFor lhs' lhs)
    (hright : m.StandsFor rhs' rhs) (hl : lhs'.refs ⊆ held) (hr : rhs'.refs ⊆ held)
    (hid : (m.typeOf lhs').id = (m.typeOf rhs').id → m.typeOf lhs' = m.typeOf rhs') :
    readOut (divide user (.generic m.level) lhs' rhs' m) =
      readOut (divide user (.generic m.level) lhs rhs m) := by
  obtain ⟨x, hx, hxkind⟩ := exists_presents_of_isNumber hlhs
  obtain ⟨y, hy, hykind⟩ := exists_presents_of_isNumber hrhs
  obtain ⟨quotient, hq⟩ := Numeric.quotient?_wider m.level x y
  have numbers := readOut_divide user hlimits hb hx hy (typeOf_eq_of_id hlhs hrhs)
    (fun h => by simp [isClassic_of_isNumber hlhs, isClassic_of_isNumber hrhs] at h) hq
  rw [numbers]
  exact readOut_divide user hlimits hb (hleft.presents hx hxkind) (hright.presents hy hykind) hid
    (fun _ => ⟨hl, hr⟩) hq

/-- An instance of a classic type two declarations away from longs, by a machine integer: the left
side converts the right one. -/
theorem derived_divide_like_numbers_classic :
    let base : ObjectType :=
      .declare { id := .user 0, name := "L" } (some (.number .legacy .long))
    let type : ObjectType := .declare { id := .user 1, name := "M", isClassic := true } (some base)
    let heap : Heap :=
      { cells := #[some ⟨1, .long 7⟩, some ⟨1, .instanceOf type (.ref 0)⟩]
        budget := .depthOnly 1000 }
    let m : Machine := { config := { level := .legacy }, heap }
    let user : UserSlots :=
      { divide := fun _ _ _ => return .notImplemented
        coerce := fun _ _ _ => return none
        truth := fun _ _ => return true }
    m.heap.Balanced {1} ∧ m.StandsFor (.ref 1) (.ref 0) ∧ (m.typeOf (.ref 1)).isClassic = true ∧
      readOut (divide user (.generic .legacy) (.ref 0) (.int 2) m) = .ok (.long 3) ∧
      readOut (divide user (.generic .legacy) (.ref 1) (.int 2) m) =
        readOut (divide user (.generic .legacy) (.ref 0) (.int 2) m) := by
  intro base type heap m user
  have hb : m.heap.Balanced {1} := by
    have first : Heap.allocate (.long 7) { budget := .depthOnly 1000 } =
        .ok (0, { cells := #[some ⟨1, .long 7⟩], budget := .depthOnly 1000 }) := rfl
    have second : Heap.allocate (.instanceOf type (.ref 0))
        { cells := #[some ⟨1, .long 7⟩], budget := .depthOnly 1000 } = .ok (1, heap) := rfl
    have filled := ((Heap.balanced_empty (.depthOnly 1000)).allocate_long first).1
    exact (filled.allocate second).1
  have hstands : m.StandsFor (.ref 1) (.ref 0) :=
    .instanceOf rfl (.declare (.declare .number rfl rfl) rfl rfl) (.itself _)
  have hlong : m.IsNumber (.ref 0) := ⟨7, rfl⟩
  have hint : m.IsNumber (.int 2) := trivial
  have hid : (m.typeOf (.ref 1)).id ≠ (m.typeOf (.int 2)).id := by decide
  have alike := derived_divide_like_numbers user (rfl : m.heap.budget.limits? = none) hb hlong hint
    hstands (.itself _) (Multiset.Subset.refl _) (Multiset.zero_subset _) fun h => absurd h hid
  exact ⟨hb, hstands, rfl, rfl, alike⟩

end FloorDivision
