import FloorDivision.Proofs.Division.Truth
import FloorDivision.Proofs.Machine.Declared

/-!
# The host's protocol for binary operations

* `binaryOp` — which slots are called for two operands of declared types, and in which order, as
  nested cases.
* `run_divideByCandidates` — trying a list of slots is attempting one after the other until one
  answers or fails.
* `binaryOp_eq` — the slots that a division tries are those of the nested cases, in their order.
-/

namespace FloorDivision

open MachineM

/-- How far the slots of a division have been tried: those called so far, what the last one came
to, and the machine. -/
structure SlotPhase where
  calls : List DivideSlot
  answer : Except Failure Value
  machine : Machine

namespace SlotPhase

/-- No slot has been called; it is as if one had declined. -/
def start (m : Machine) : SlotPhase := ⟨[], .ok .notImplemented, m⟩

/-- Calls a slot with both operands in their places, unless one before has answered or failed. -/
def attempt (user : UserSlots) (lhs rhs : Value) (phase : SlotPhase) (side : Side)
    (slot : DivideSlot) : SlotPhase :=
  match phase.answer with
  | .ok .notImplemented =>
    match callDivide user slot lhs rhs (phase.machine.observe (.slotCall side)) with
    | (.ok .notImplemented, m) =>
      ⟨phase.calls ++ [slot], .ok .notImplemented, m.observe (.slotDeclined side)⟩
    | (answer, m) => ⟨phase.calls ++ [slot], answer, m⟩
  | _ => phase

/-- What has come of the slots: a quotient, or none as long as they decline. -/
def outcome (phase : SlotPhase) : Except Failure (Option Value) × Machine :=
  match phase.answer with
  | .ok .notImplemented => (.ok none, phase.machine)
  | .ok value => (.ok (some value), phase.machine)
  | .error e => (.error e, phase.machine)

end SlotPhase

/--
The host's protocol, case by case.  `slotv` is the slot that the left type offers and `slotw` that
of the right type, unless that is the same type or the slot is the same.  The right slot goes first
if its type derives from the left one.
-/
def binaryOp (user : UserSlots) (level : Level) (left right : Declared) (lhs rhs : Value)
    (m : Machine) : SlotPhase :=
  let attempt := SlotPhase.attempt user lhs rhs
  let slotv := left.offers level
  let slotw := left.offersBeside level right
  match slotv with
  | some v =>
    match slotw with
    | some w =>
      if right.derivesFrom left then attempt (attempt (.start m) .right w) .left v
      else attempt (attempt (.start m) .left v) .right w
    | none => attempt (.start m) .left v
  | none =>
    match slotw with
    | some w => attempt (.start m) .right w
    | none => .start m

section Attempts

variable {user : UserSlots} {lhs rhs : Value}

/-- All slots of a list, one after the other. -/
def SlotPhase.attemptAll (user : UserSlots) (lhs rhs : Value) (phase : SlotPhase)
    (slots : List (Side × DivideSlot)) : SlotPhase :=
  slots.foldl (fun phase slot => phase.attempt user lhs rhs slot.1 slot.2) phase

/-- After an answer or a failure nothing is called. -/
theorem SlotPhase.attempt_of_over {phase : SlotPhase} (h : phase.answer ≠ .ok .notImplemented)
    (side : Side) (slot : DivideSlot) : phase.attempt user lhs rhs side slot = phase := by
  unfold attempt
  split
  · rename_i hdeclined
    exact absurd hdeclined h
  · rfl

/-- As long as all have declined, a slot that is attempted is called. -/
theorem SlotPhase.calls_attempt {phase : SlotPhase} (h : phase.answer = .ok .notImplemented)
    (side : Side) (slot : DivideSlot) :
    (phase.attempt user lhs rhs side slot).calls = phase.calls ++ [slot] := by
  unfold attempt
  rw [h]
  dsimp only
  split
  · rfl
  · rfl

theorem SlotPhase.attemptAll_of_over {phase : SlotPhase} (h : phase.answer ≠ .ok .notImplemented)
    (slots : List (Side × DivideSlot)) : phase.attemptAll user lhs rhs slots = phase := by
  induction slots with
  | nil => rfl
  | cons slot rest ih =>
    show (phase.attempt user lhs rhs slot.1 slot.2).attemptAll user lhs rhs rest = phase
    rw [attempt_of_over h, ih]

/-- **Trying slots is attempting one after the other** until one answers or fails. -/
theorem run_divideByCandidates (slots : List (Side × DivideSlot)) (phase : SlotPhase)
    (h : phase.answer = .ok .notImplemented) :
    divideByCandidates user lhs rhs slots phase.machine =
      (phase.attemptAll user lhs rhs slots).outcome := by
  induction slots generalizing phase with
  | nil =>
    show _ = phase.outcome
    unfold SlotPhase.outcome
    rw [h]
    rfl
  | cons candidate rest ih =>
    obtain ⟨side, slot⟩ := candidate
    show _ = ((phase.attempt user lhs rhs side slot).attemptAll user lhs rhs rest).outcome
    rw [run_divideByCandidates_cons]
    unfold SlotPhase.attempt
    rw [h]
    dsimp only
    rcases hrun : callDivide user slot lhs rhs (phase.machine.observe (.slotCall side))
      with ⟨e | value, m⟩
    · rw [SlotPhase.attemptAll_of_over (by simp)]
      rfl
    · cases value with
      | notImplemented => exact ih ⟨phase.calls ++ [slot], .ok .notImplemented, _⟩ rfl
      | none | bool | int | float | ref =>
        rw [SlotPhase.attemptAll_of_over (by simp)]
        rfl

/-- The same from the start. -/
theorem run_divideByCandidates_start (slots : List (Side × DivideSlot)) (m : Machine) :
    divideByCandidates user lhs rhs slots m =
      (SlotPhase.attemptAll user lhs rhs (.start m) slots).outcome :=
  run_divideByCandidates slots (.start m) rfl

end Attempts

/-! ## The slots that are tried -/

section Order

variable {user : UserSlots} {level : Level} {left right : Declared} {lhs rhs : Value} {m : Machine}

theorem offeredSlot?_type (level : Level) (declared : Declared) :
    offeredSlot? level .unknown declared.type = declared.offers level :=
  Declared.offers_eq level declared

theorem offersBeside_eq (level : Level) (left right : Declared) :
    (if left.type.id = right.type.id then none
      else (offeredSlot? level .unknown right.type).filter fun slot =>
        offeredSlot? level .unknown left.type ≠ some slot) = left.offersBeside level right := by
  unfold Declared.offersBeside
  rw [offeredSlot?_type, offeredSlot?_type, show left.type.id = left.own.id from
    Declared.id_build _ _, show right.type.id = right.own.id from Declared.id_build _ _]
  split
  · rfl
  · cases right.offers level with
    | none => simp
    | some w =>
      by_cases hw : some w = left.offers level
      · simp [hw.symm]
      · rw [if_neg hw, Option.filter_some, if_pos (by simpa using Ne.symm hw)]

theorem candidates_type (level : Level) (left right : Declared) :
    candidates (.generic level) left.type right.type =
      let slotv := (left.offers level).toList.map (Side.left, ·)
      let slotw := (left.offersBeside level right).toList.map (Side.right, ·)
      if right.derivesFrom left then slotw ++ slotv else slotv ++ slotw := by
  unfold candidates
  rw [Declared.isSubtypeOf_type]
  dsimp only [EntryPoint.generic]
  rw [offersBeside_eq, offeredSlot?_type]
  rfl

/-- **The slots that are tried are those of the nested cases.** -/
theorem binaryOp_eq (user : UserSlots) (level : Level) (left right : Declared) (lhs rhs : Value)
    (m : Machine) :
    binaryOp user level left right lhs rhs m =
      SlotPhase.attemptAll user lhs rhs (.start m)
        (candidates (.generic level) left.type right.type) := by
  rw [candidates_type]
  unfold binaryOp
  dsimp only
  cases left.offers level with
  | some v =>
    cases left.offersBeside level right with
    | some w =>
      dsimp only
      split
      · rfl
      · rfl
    | none =>
      dsimp only
      split
      · rfl
      · rfl
  | none =>
    cases left.offersBeside level right with
    | some w =>
      dsimp only
      split
      · rfl
      · rfl
    | none =>
      dsimp only
      split
      · rfl
      · rfl

/-! ## Each slot once -/

/-- The slots that are called are the first ones of a list. -/
theorem calls_attemptAll (user : UserSlots) (lhs rhs : Value) (slots : List (Side × DivideSlot))
    (phase : SlotPhase) :
    (phase.attemptAll user lhs rhs slots).calls <+: phase.calls ++ slots.map (·.2) := by
  induction slots generalizing phase with
  | nil => exact List.prefix_append _ _
  | cons candidate rest ih =>
    obtain ⟨side, slot⟩ := candidate
    by_cases hdeclined : phase.answer = .ok .notImplemented
    · have called := ih (phase.attempt user lhs rhs side slot)
      rw [SlotPhase.calls_attempt hdeclined, List.append_assoc] at called
      exact called
    · rw [SlotPhase.attemptAll_of_over hdeclined]
      exact List.prefix_append _ _

/-- No slot is twice among those that are tried. -/
theorem nodup_candidates (level : Level) (left right : Declared) :
    ((candidates (.generic level) left.type right.type).map (·.2)).Nodup := by
  rw [candidates_type]
  have distinct : ∀ w, left.offersBeside level right = some w → left.offers level ≠ some w := by
    intro w hw hv
    unfold Declared.offersBeside at hw
    split at hw
    · cases hw
    · split at hw
      · cases hw
      · rename_i hne
        exact hne (hw.trans hv.symm)
  cases hv : left.offers level with
  | none =>
    cases left.offersBeside level right with
    | none => simp
    | some w => simp
  | some v =>
    cases hw : left.offersBeside level right with
    | none => simp
    | some w =>
      have hne : v ≠ w := fun h => distinct w hw (hv.trans (congrArg some h))
      dsimp only
      split
      · simpa using Ne.symm hne
      · simpa using hne

/-! ## The journal of a phase -/

/-- The entry in the journal for the call of a slot; builtin slots have none. -/
def DivideSlot.journalCall (lhs rhs : Value) : DivideSlot → Option SlotCall
  | .builtin _ => none
  | .user definer => some ⟨definer, .divide, [lhs, rhs]⟩

theorem journal_callDivide
    (hu : ∀ definer lhs rhs, (user.divide definer lhs rhs).Keeps Machine.journal) (slot : DivideSlot) (lhs rhs : Value) (m : Machine) :
    (callDivide user slot lhs rhs m).2.journal.toList =
      m.journal.toList ++ (slot.journalCall lhs rhs).toList := by
  cases slot with
  | builtin kind =>
    show (BuiltinSlot.divide kind lhs rhs m).2.journal.toList = _ ++ []
    rw [List.append_nil]
    have answer := slotAnswer_divide kind lhs rhs m
    generalize BuiltinSlot.divide kind lhs rhs m = run at answer
    cases answer with
    | declined | failed | int | float => rfl
    | long n => exact congrArg Array.toList (keeps_newLong (fun _ _ => rfl) n m)
  | user definer =>
    show (user.divide definer lhs rhs _).2.journal.toList = _
    rw [hu definer lhs rhs _, Array.toList_push]
    rfl

/-- Where the slots of user types call none themselves, the journal tells which were called. -/
theorem journal_attemptAll
    (hu : ∀ definer lhs rhs, (user.divide definer lhs rhs).Keeps Machine.journal)
    (before : List SlotCall) (slots : List (Side × DivideSlot)) (phase : SlotPhase)
    (h : phase.machine.journal.toList =
      before ++ phase.calls.filterMap (·.journalCall lhs rhs)) :
    (phase.attemptAll user lhs rhs slots).machine.journal.toList =
      before ++ (phase.attemptAll user lhs rhs slots).calls.filterMap (·.journalCall lhs rhs) := by
  induction slots generalizing phase with
  | nil => exact h
  | cons candidate rest ih =>
    obtain ⟨side, slot⟩ := candidate
    refine ih (phase.attempt user lhs rhs side slot) ?_
    have called : (callDivide user slot lhs rhs
        (phase.machine.observe (.slotCall side))).2.journal.toList =
        before ++ (phase.calls ++ [slot]).filterMap (·.journalCall lhs rhs) := by
      have entry : [slot].filterMap (·.journalCall lhs rhs) =
          (slot.journalCall lhs rhs).toList := by
        rw [List.filterMap_cons]
        cases slot.journalCall lhs rhs <;> rfl
      rw [journal_callDivide hu, List.filterMap_append, entry, ← List.append_assoc, ← h]
      rfl
    unfold SlotPhase.attempt
    split
    · rcases hrun : callDivide user slot lhs rhs (phase.machine.observe (.slotCall side))
        with ⟨answer, m⟩
      rw [hrun] at called
      split
      · rename_i heq
        cases heq
        exact called
      · rename_i heq
        cases heq
        exact called
    · exact h

/-! ## No division answers that it declines -/

theorem yields_divideByCandidates (slots : List (Side × DivideSlot)) :
    (divideByCandidates user lhs rhs slots).Yields (· ≠ some .notImplemented) := by
  intro m value? h
  rw [run_divideByCandidates_start] at h
  unfold SlotPhase.outcome at h
  split at h
  · cases h
    simp
  · rename_i value hvalue _
    cases h
    simpa using hvalue
  · cases h

theorem yields_divideCoerced (side : Side) (pair : Option (Value × Value)) :
    (divideCoerced user side pair).Yields (· ≠ .computed .notImplemented) := by
  cases pair with
  | none => exact yields_bind fun _ => yields_pure (by simp)
  | some pair =>
    obtain ⟨first, second⟩ := pair
    refine yields_bind fun _ => .andThen (.look fun m => ?_) _
    split
    · exact yields_pure (by simp)
    · refine yields_bind fun result => ?_
      split
      · exact yields_bind fun _ => yields_pure (by simp)
      · rename_i hresult
        refine yields_pure fun h => hresult ?_
        cases h
        rfl

theorem yields_divideByCoercionOf (side : Side) (slot : Option CoerceSlot) :
    (divideByCoercionOf user side slot lhs rhs).Yields (· ≠ .computed .notImplemented) := by
  cases slot with
  | none => exact yields_pure (by simp)
  | some slot => exact yields_bind fun pair => yields_divideCoerced side _

theorem yields_divideByCoercion (leftType rightType : ObjectType) :
    (divideByCoercion user leftType rightType lhs rhs).Yields (· ≠ some .notImplemented) := by
  refine (yields_divideByCoercionOf .left _).bind fun outcome houtcome => ?_
  cases outcome with
  | computed value => exact yields_pure fun h => houtcome (by cases h; rfl)
  | unsupported => exact yields_pure (by simp)
  | undecided =>
    refine (yields_divideByCoercionOf .right _).bind fun outcome houtcome => ?_
    cases outcome with
    | computed value => exact yields_pure fun h => houtcome (by cases h; rfl)
    | unsupported | undecided => exact yields_pure (by simp)

theorem yields_refuseOperands (entry : EntryPoint) (leftType rightType : ObjectType) :
    (refuseOperands entry leftType rightType).Yields (· ≠ .notImplemented) :=
  yields_bind fun _ => yields_throw _

theorem yields_divideBySlots (entry : EntryPoint) :
    (divideBySlots user entry lhs rhs).Yields (· ≠ .notImplemented) := by
  refine .look fun m => yields_bind fun leftType => yields_bind fun rightType =>
    (yields_divideByCandidates _).bind fun value? hvalue => ?_
  split
  · exact yields_pure fun h => hvalue (congrArg some h)
  · split
    · refine (yields_divideByCoercion leftType rightType).bind fun value? hvalue => ?_
      split
      · exact yields_pure fun h => hvalue (congrArg some h)
      · exact yields_refuseOperands entry leftType rightType
    · exact yields_refuseOperands entry leftType rightType

/-- **A division never answers that it declines its operands.** -/
theorem yields_divide (entry : EntryPoint) :
    (divide user entry lhs rhs).Yields (· ≠ .notImplemented) := by
  have native : ∀ quotient : Quotient, quotient.toValue.Yields (· ≠ .notImplemented) := by
    intro quotient
    cases quotient with
    | int | float => exact yields_pure (by simp)
    | long n => exact yields_newLong n
  have inside : ∀ depth, (do
      observe (.dispatch entry.left entry.right depth)
      divideInside user entry Quotient.toValue pure lhs rhs : MachineM Value).Yields
        (· ≠ .notImplemented) := by
    refine fun depth => yields_bind fun _ => .look fun m => ?_
    split
    · exact yields_bind native
    · exact (yields_divideBySlots entry).bind fun value hvalue => yields_pure hvalue
  have entered := yields_bind (a := enter) fun depth => (inside depth).andThen fun m => m.left
  unfold divide divideWith
  refine .look fun m => ?_
  dsimp only
  split
  · exact yields_bind fun _ => entered
  · exact entered

/-! ## The whole division -/

/-- What a generic division makes of its slot phase. -/
theorem run_divideBySlots_phase (hleft : m.typeOf lhs = left.type)
    (hright : m.typeOf rhs = right.type) :
    divideBySlots user (.generic level) lhs rhs m =
      match (binaryOp user level left right lhs rhs m).outcome with
      | (.ok (some value), m') => (.ok value, m')
      | (.ok none, m') =>
        divideWithoutSlots user (.generic level) left.type right.type lhs rhs m'
      | (.error e, m') => (.error e, m') := by
  rw [run_divideBySlots_generic, hleft, hright, binaryOp_eq, ← run_divideByCandidates_start, run_bind]
  rcases divideByCandidates user lhs rhs (candidates (.generic level) left.type right.type) m
    with ⟨_ | _ | _, _⟩
  · rfl
  · rfl
  · rfl

/-- A division that is entered and not native is its slot phase, and what is left to do then. -/
theorem run_divide_phase (user : UserSlots) (hlevel : m.level = level)
    (hleft : m.typeOf lhs = left.type) (hright : m.typeOf rhs = right.type)
    (hdepth : m.heap.budget.checkDepth m.depth = .ok ())
    (hnative : fastKind? (.generic level) m lhs rhs = none) :
    let phase := binaryOp user level left right lhs rhs (m.entered (.generic level))
    divide user (.generic level) lhs rhs m = match phase.answer with
      | .error e => (.error e, phase.machine.left)
      | .ok .notImplemented =>
        let rest :=
          divideWithoutSlots user (.generic level) left.type right.type lhs rhs phase.machine
        (rest.1, rest.2.left)
      | .ok value => (.ok value, phase.machine.left) := by
  intro phase
  have hgeneric : m.level = (EntryPoint.generic level).level := hlevel
  have entered : fastKind? (.generic level) (m.entered (.generic level)) lhs rhs = none := hnative
  unfold divide
  rw [run_divideWith, if_neg (not_not_intro hgeneric), hdepth]
  dsimp only
  rw [run_divideInside_slots user entered, bind_pure,
    run_divideBySlots_phase (m := m.entered (.generic level)) hleft hright]
  show (let inside : Except Failure Value × Machine := match phase.outcome with
      | (.ok (some value), m') => (.ok value, m')
      | (.ok none, m') =>
        divideWithoutSlots user (.generic level) left.type right.type lhs rhs m'
      | (.error e, m') => (.error e, m')
    (inside.1, inside.2.left)) = _
  unfold SlotPhase.outcome
  rcases phase.answer with e | value
  · rfl
  · cases value <;> rfl

/--
**Division calls slots in the order of the host's protocol.**

Two operands whose types are declared on any chains of bases are divided by the entry point that
knows nothing of them, and not natively.  The first answer of the phase that does not decline is the
quotient, the first failure is the failure of the division, also of one to a truth value, and ends
it there and then; only when all have declined is there more to do.  No slot is called twice, and
each one is called with both operands in their places, as the journal tells where slots call no
others.  No entry point ever answers that it declines.
-/
theorem slots_called_in_host_order (user : UserSlots) (level : Level) (left right : Declared)
    (lhs rhs : Value) (m : Machine) (hlevel : m.level = level) (hleft : m.typeOf lhs = left.type)
    (hright : m.typeOf rhs = right.type)
    (hdepth : m.heap.budget.checkDepth m.depth = .ok ())
    (hnative : fastKind? (.generic level) m lhs rhs = none) :
    let phase := binaryOp user level left right lhs rhs (m.entered (.generic level))
    (divide user (.generic level) lhs rhs m = match phase.answer with
      | .error e => (.error e, phase.machine.left)
      | .ok .notImplemented =>
        let rest :=
          divideWithoutSlots user (.generic level) left.type right.type lhs rhs phase.machine
        (rest.1, rest.2.left)
      | .ok value => (.ok value, phase.machine.left)) ∧
    (∀ e, phase.answer = .error e →
      divideToTruth user (.generic level) lhs rhs m = (.error e, phase.machine.left)) ∧
    phase.calls.Nodup ∧
    ((∀ definer lhs rhs, (user.divide definer lhs rhs).Keeps Machine.journal) →
      phase.machine.journal.toList =
        m.journal.toList ++ phase.calls.filterMap (·.journalCall lhs rhs)) ∧
    ∀ (entry : EntryPoint) (lhs rhs : Value) (m : Machine),
      (divide user entry lhs rhs m).1 ≠ .ok .notImplemented := by
  intro phase
  have hphase := run_divide_phase user hlevel hleft hright hdepth hnative
  have tried : phase = SlotPhase.attemptAll user lhs rhs (.start (m.entered (.generic level)))
      (candidates (.generic level) left.type right.type) := binaryOp_eq _ _ _ _ _ _ _
  refine ⟨hphase, fun e he => ?_, ?_, fun hu => ?_, fun entry lhs rhs m h => ?_⟩
  · rcases divideToTruth_cases user (.generic level) lhs rhs m with
      ⟨e', after, hobject, htruth⟩ | ⟨value, inside, _, hobject, _⟩
    · rw [hphase, he] at hobject
      cases hobject
      exact htruth
    · rw [hphase, he] at hobject
      cases hobject
  · have hprefix := calls_attemptAll user lhs rhs (candidates (.generic level) left.type right.type)
      (.start (m.entered (.generic level)))
    rw [← tried] at hprefix
    exact hprefix.sublist.nodup (nodup_candidates level left right)
  · rw [tried]
    exact journal_attemptAll hu m.journal.toList _ (.start (m.entered (.generic level)))
      (List.append_nil _).symm
  · exact yields_divide entry m _ h rfl

/-- The slot of a derived type declines, and then that of its base answers. -/
theorem slots_called_in_host_order_derived :
    let object : TypeEntry := { id := .object, name := "object", isClassic := true }
    let base : TypeEntry := { id := .user 0, name := "A", slots := { divide := some (.user 0) } }
    let derived : TypeEntry := { id := .user 1, name := "B", slots := { divide := some (.user 1) } }
    let left : Declared := ⟨base, [object]⟩
    let right : Declared := ⟨derived, [base, object]⟩
    let heap : Heap :=
      { cells := #[some ⟨1, .instanceOf left.type .none⟩, some ⟨1, .instanceOf right.type .none⟩]
        budget := .depthOnly 1000 }
    let m : Machine := { config := { level := .legacy }, heap }
    let user : UserSlots :=
      { divide := fun definer _ _ => return if definer = 0 then .int 5 else .notImplemented
        coerce := fun _ _ _ => return none
        truth := fun _ _ => return true }
    let phase := binaryOp user .legacy left right (.ref 0) (.ref 1) (m.entered (.generic .legacy))
    m.typeOf (.ref 0) = left.type ∧ m.typeOf (.ref 1) = right.type ∧
      phase.calls = [.user 1, .user 0] ∧ phase.calls.Nodup ∧
      divide user (.generic .legacy) (.ref 0) (.ref 1) m = (.ok (.int 5), phase.machine.left) := by
  intro object base derived left right heap m user phase
  have order := slots_called_in_host_order user .legacy left right (.ref 0) (.ref 1) m rfl rfl rfl
    rfl rfl
  exact ⟨rfl, rfl, rfl, order.2.2.1, order.1⟩

end Order

end FloorDivision
