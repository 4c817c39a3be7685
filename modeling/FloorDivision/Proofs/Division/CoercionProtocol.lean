import FloorDivision.Proofs.Division.BinaryOp

/-!
# The coercion protocol

* `Consultation`, `Consulted` — the slots that a division calls and with which operands, and what
  came of it.
* `dividePair`, `convert`, `convertEither` — one converted pair, one side's conversion, the left
  side's and then the right side's, case by case.
* `consult` — the slots for division, and conversion where all of them have declined.
* `run_divideBySlots_consult` — a division by slots is that protocol, and a refusal that names the
  types of the original operands if nothing comes of it.
* `coercion_calls_consult`, `journal_consult` — whose conversion is asked for and in which order,
  and that the journal shows it.
-/

namespace FloorDivision

open MachineM

/-- A slot that a division calls, with the operands in the order in which it gets them. -/
inductive Consultation where
  | divide (slot : DivideSlot) (lhs rhs : Value)
  | coerce (slot : CoerceSlot) (own other : Value)
deriving DecidableEq

namespace Consultation

/-- The conversion that is asked for. -/
def coercion? : Consultation → Option (CoerceSlot × Value × Value)
  | .divide .. => none
  | .coerce slot own other => some (slot, own, other)

/-- The entry in the journal; builtin slots have none. -/
def journalCall : Consultation → Option SlotCall
  | .divide slot lhs rhs => slot.journalCall lhs rhs
  | .coerce (.builtin _) _ _ => none
  | .coerce (.user definer) own other => some ⟨definer, .coerce, [own, other]⟩

end Consultation

/-- What came of some slots: those that were called, in order, the answer, and the machine. -/
structure Consulted (α : Type) where
  calls : List Consultation
  answer : Except Failure α
  machine : Machine

/-- The quotient among the outcomes of a conversion. -/
def CoercionOutcome.quotient? : CoercionOutcome → Option Value
  | .computed value => some value
  | .unsupported | .undecided => none

/-- Conversion is for legacy operands that are not both known and not both of new-style types. -/
def EntryPoint.AllowsCoercion (entry : EntryPoint) (leftType rightType : ObjectType) : Prop :=
  entry.level = .legacy ∧ (entry.left = .unknown ∨ entry.right = .unknown) ∧
    (leftType.isClassic = true ∨ rightType.isClassic = true)

instance (entry : EntryPoint) (leftType rightType : ObjectType) :
    Decidable (entry.AllowsCoercion leftType rightType) :=
  inferInstanceAs (Decidable (_ ∧ _ ∧ _))

/-- The division is entered and is not a native one. -/
def Machine.ReachesSlots (m : Machine) (entry : EntryPoint) (lhs rhs : Value) : Prop :=
  m.level = entry.level ∧ m.heap.budget.checkDepth m.depth = .ok () ∧
    fastKind? entry m lhs rhs = none

/-! ## The protocol -/

section Protocol

variable (user : UserSlots)

/-- A converted pair is divided through the slot of its left value's type, new-style or classic,
and given back. -/
def dividePair (lhs rhs : Value) (m : Machine) : Consulted CoercionOutcome :=
  let givenBack (m : Machine) := (m.releaseValue lhs).releaseValue rhs
  match (m.typeOf lhs).slots.divide with
  | none => ⟨[], .ok .undecided, givenBack m⟩
  | some slot =>
    match callDivide user slot lhs rhs m with
    | (.error e, m) => ⟨[.divide slot lhs rhs], .error e, givenBack m⟩
    | (.ok .notImplemented, m) => ⟨[.divide slot lhs rhs], .ok .unsupported, givenBack m⟩
    | (.ok value, m) => ⟨[.divide slot lhs rhs], .ok (.computed value), givenBack m⟩

/-- One side's conversion: its slot gets its own operand first, and so does its answer. -/
def convert (side : Side) (slot? : Option CoerceSlot) (lhs rhs : Value) (m : Machine) :
    Consulted CoercionOutcome :=
  match slot? with
  | none => ⟨[], .ok .undecided, m⟩
  | some slot =>
    let asked := side.inOrder (lhs, rhs)
    let call := Consultation.coerce slot asked.1 asked.2
    match callCoerce user slot asked.1 asked.2 m with
    | (.error e, m) => ⟨[call], .error e, m⟩
    | (.ok none, m) => ⟨[call], .ok .undecided, m.observe (.coerce side false)⟩
    | (.ok (some answer), m) =>
      let pair := side.inOrder answer
      let division := dividePair user pair.1 pair.2 (m.observe (.coerce side true))
      { division with calls := call :: division.calls }

/-- The left side's conversion, and only if that decides nothing the right side's. -/
def convertEither (left? right? : Option CoerceSlot) (lhs rhs : Value) (m : Machine) :
    Consulted CoercionOutcome :=
  let first := convert user .left left? lhs rhs m
  match first.answer with
  | .ok .undecided =>
    let second := convert user .right right? lhs rhs first.machine
    { second with calls := first.calls ++ second.calls }
  | _ => first

/-- The slots for division, in order, and where all of them decline the conversions. -/
def consult (entry : EntryPoint) (lhs rhs : Value) (m : Machine) : Consulted (Option Value) :=
  let leftType := entry.left.typeAt entry.level m lhs
  let rightType := entry.right.typeAt entry.level m rhs
  let tried := SlotPhase.attemptAll user lhs rhs (.start m) (candidates entry leftType rightType)
  let calls := tried.calls.map (Consultation.divide · lhs rhs)
  match tried.answer with
  | .error e => ⟨calls, .error e, tried.machine⟩
  | .ok .notImplemented =>
    if entry.AllowsCoercion leftType rightType then
      let converted :=
        convertEither user leftType.slots.coerce rightType.slots.coerce lhs rhs tried.machine
      ⟨calls ++ converted.calls, converted.answer.map (·.quotient?), converted.machine⟩
    else ⟨calls, .ok none, tried.machine⟩
  | .ok value => ⟨calls, .ok (some value), tried.machine⟩

end Protocol

variable {user : UserSlots} {entry : EntryPoint} {lhs rhs : Value} {m : Machine}

/-! ## Division follows the protocol -/

theorem run_divideCoerced (side : Side) (lhs rhs : Value) (m : Machine) :
    divideCoerced user side (some (lhs, rhs)) m =
      let division := dividePair user lhs rhs (m.observe (.coerce side true))
      (division.answer, division.machine) := by
  unfold divideCoerced dividePair
  dsimp only
  rw [run_bind_ok (run_observe _ _)]
  unfold releasingBoth
  rw [run_andThen, run_get_bind]
  cases ((m.observe (.coerce side true)).typeOf lhs).slots.divide with
  | none => rfl
  | some slot =>
    dsimp only
    rw [run_bind]
    rcases callDivide user slot lhs rhs (m.observe (.coerce side true)) with ⟨e | value, after⟩
    · rfl
    · cases value with
      | notImplemented | none | bool | int | float | ref => rfl

theorem run_divideByCoercionOf (side : Side) (slot? : Option CoerceSlot) (lhs rhs : Value)
    (m : Machine) :
    divideByCoercionOf user side slot? lhs rhs m =
      let converted := convert user side slot? lhs rhs m
      (converted.answer, converted.machine) := by
  cases slot? with
  | none => rfl
  | some slot =>
    show (callCoerce user slot (side.inOrder (lhs, rhs)).1 (side.inOrder (lhs, rhs)).2 >>=
      fun pair => divideCoerced user side (pair.map side.inOrder)) m = _
    unfold convert
    dsimp only
    rw [run_bind]
    rcases callCoerce user slot (side.inOrder (lhs, rhs)).1 (side.inOrder (lhs, rhs)).2 m
      with ⟨e | _ | pair, after⟩
    · rfl
    · rfl
    · exact run_divideCoerced side (side.inOrder pair).1 (side.inOrder pair).2 after

/-- **Division by coercion asks the left side and then, if need be, the right side.** -/
theorem run_divideByCoercion (leftType rightType : ObjectType) (lhs rhs : Value) (m : Machine) :
    divideByCoercion user leftType rightType lhs rhs m =
      let converted := convertEither user leftType.slots.coerce rightType.slots.coerce lhs rhs m
      (converted.answer.map (·.quotient?), converted.machine) := by
  unfold divideByCoercion convertEither
  rw [run_bind, run_divideByCoercionOf]
  rcases convert user .left leftType.slots.coerce lhs rhs m with ⟨calls, e | outcome, after⟩
  · rfl
  · cases outcome with
    | computed | unsupported => rfl
    | undecided =>
      dsimp only
      rw [run_bind, run_divideByCoercionOf]
      rcases convert user .right rightType.slots.coerce lhs rhs after with ⟨_, e | outcome, _⟩
      · rfl
      · cases outcome <;> rfl

theorem operandName_eq (entry : EntryPoint) (shape : Shape) (m : Machine) (value : Value) :
    operandName entry shape (shape.typeAt entry.level m value) =
      (shape.typeAt entry.level m value).name := by
  cases shape <;> rfl

theorem mayCoerce_iff {leftType rightType : ObjectType} :
    mayCoerce entry leftType rightType = true ↔ entry.AllowsCoercion leftType rightType := by
  obtain ⟨level, left, right, _, _⟩ := entry
  unfold mayCoerce EntryPoint.AllowsCoercion EntryPoint.bothKnown ObjectType.isNewStyle
  cases level
  · cases left <;> cases right <;> simp [Level.hasCoercion, Shape.kind?]
  · simp [Level.hasCoercion]

/-- **A division by slots is the protocol**, and a refusal that names the types of the original
operands if nothing comes of it. -/
theorem run_divideBySlots_consult (user : UserSlots) (entry : EntryPoint) (lhs rhs : Value)
    (m : Machine) :
    divideBySlots user entry lhs rhs m =
      let consulted := consult user entry lhs rhs m
      let left := (entry.left.typeAt entry.level m lhs).name
      let right := (entry.right.typeAt entry.level m rhs).name
      match consulted.answer with
      | .error e => (.error e, consulted.machine)
      | .ok (some value) => (.ok value, consulted.machine)
      | .ok none => (.error (.raised (.unsupportedOperands "//" left right)),
          consulted.machine.observe (.unsupported left right)) := by
  rw [run_divideBySlots user (operandType_eq entry.left_exists m lhs)
    (operandType_eq entry.right_exists m rhs), run_bind, run_divideByCandidates_start]
  unfold consult SlotPhase.outcome
  dsimp only
  generalize SlotPhase.attemptAll user lhs rhs (.start m) (candidates entry
    (entry.left.typeAt entry.level m lhs) (entry.right.typeAt entry.level m rhs)) = tried
  have refused : ∀ after : Machine, refuseOperands entry (entry.left.typeAt entry.level m lhs)
      (entry.right.typeAt entry.level m rhs) after =
        (.error (.raised (.unsupportedOperands "//" (entry.left.typeAt entry.level m lhs).name
          (entry.right.typeAt entry.level m rhs).name)),
        after.observe (.unsupported (entry.left.typeAt entry.level m lhs).name
          (entry.right.typeAt entry.level m rhs).name)) := by
    intro after
    unfold refuseOperands
    rw [operandName_eq, operandName_eq]
    rfl
  rcases tried with ⟨calls, e | value, after⟩
  · rfl
  · cases value with
    | none | bool | int | float | ref => rfl
    | notImplemented =>
      dsimp only
      unfold divideWithoutSlots
      by_cases hcoerce : entry.AllowsCoercion (entry.left.typeAt entry.level m lhs)
          (entry.right.typeAt entry.level m rhs)
      · rw [if_pos (mayCoerce_iff.mpr hcoerce), if_pos hcoerce, run_bind, run_divideByCoercion]
        generalize convertEither user _ _ lhs rhs after = converted
        rcases converted with ⟨_, e | outcome, last⟩
        · rfl
        · cases outcome with
          | computed => rfl
          | unsupported | undecided => exact refused last
      · rw [if_neg fun h => hcoerce (mayCoerce_iff.mp h), if_neg hcoerce]
        exact refused after

/-- A division that is not a native one is the protocol between entering and leaving it. -/
theorem run_divideWith_consult {α : Type} (user : UserSlots) (native : Quotient → MachineM α)
    (generic : Value → MachineM α) (h : m.ReachesSlots entry lhs rhs) :
    divideWith user entry native generic lhs rhs m =
      let consulted := consult user entry lhs rhs (m.entered entry)
      let left := (entry.left.typeAt entry.level m lhs).name
      let right := (entry.right.typeAt entry.level m rhs).name
      match consulted.answer with
      | .error e => (.error e, consulted.machine.left)
      | .ok (some value) =>
        ((generic value consulted.machine).1, (generic value consulted.machine).2.left)
      | .ok none => (.error (.raised (.unsupportedOperands "//" left right)),
          (consulted.machine.observe (.unsupported left right)).left) := by
  obtain ⟨hlevel, hdepth, hnative⟩ := h
  have inside : fastKind? entry (m.entered entry) lhs rhs = none := hnative
  rw [run_divideWith, if_neg (not_not_intro hlevel), hdepth]
  dsimp only
  rw [run_divideInside_slots user inside, run_bind, run_divideBySlots_consult]
  show (let whole : Except Failure α × Machine := _; (whole.1, whole.2.left)) = _
  dsimp only
  rcases consult user entry lhs rhs (m.entered entry) with ⟨_, e | value?, after⟩
  · rfl
  · cases value? with
    | none => cases entry.left <;> cases entry.right <;> rfl
    | some value => rfl

/-! ## Whose conversion is asked for -/

/-- Where all slots of a list have declined, all of them were called. -/
theorem calls_of_declined (slots : List (Side × DivideSlot)) (phase : SlotPhase)
    (h : (phase.attemptAll user lhs rhs slots).answer = .ok .notImplemented) :
    (phase.attemptAll user lhs rhs slots).calls = phase.calls ++ slots.map (·.2) := by
  induction slots generalizing phase with
  | nil => exact (List.append_nil _).symm
  | cons candidate rest ih =>
    obtain ⟨side, slot⟩ := candidate
    by_cases hdeclined : phase.answer = .ok .notImplemented
    · have called := ih (phase.attempt user lhs rhs side slot) h
      rw [SlotPhase.calls_attempt hdeclined, List.append_assoc] at called
      exact called
    · rw [SlotPhase.attemptAll_of_over hdeclined] at h
      exact absurd h hdeclined

theorem coercion_calls_dividePair (lhs rhs : Value) (m : Machine) :
    (dividePair user lhs rhs m).calls.filterMap (·.coercion?) = [] := by
  unfold dividePair
  dsimp only
  split
  · rfl
  · split <;> rfl

/-- A side that has a conversion is asked once, with its own operand first. -/
theorem coercion_calls_convert (side : Side) (slot? : Option CoerceSlot) (lhs rhs : Value)
    (m : Machine) :
    (convert user side slot? lhs rhs m).calls.filterMap (·.coercion?) =
      slot?.toList.map (·, side.inOrder (lhs, rhs)) := by
  unfold convert
  cases slot? with
  | none => rfl
  | some slot =>
    dsimp only
    split
    · rfl
    · rfl
    · rw [List.filterMap_cons, coercion_calls_dividePair]
      rfl

/-- The left side is asked first, the right side after it or not at all. -/
theorem coercion_calls_convertEither (left? right? : Option CoerceSlot) (lhs rhs : Value)
    (m : Machine) :
    (convertEither user left? right? lhs rhs m).calls.filterMap (·.coercion?) <+:
      left?.toList.map (·, lhs, rhs) ++ right?.toList.map (·, rhs, lhs) := by
  unfold convertEither
  dsimp only
  split
  · rw [List.filterMap_append, coercion_calls_convert, coercion_calls_convert]
    exact List.prefix_rfl
  · rw [coercion_calls_convert]
    exact List.prefix_append _ _

theorem coercion_calls_divide (slots : List DivideSlot) (lhs rhs : Value) :
    (slots.map (Consultation.divide · lhs rhs)).filterMap (·.coercion?) = [] := by
  rw [List.filterMap_map]
  exact List.filterMap_eq_nil_iff.mpr fun _ _ => rfl

/-- **Conversions are asked for from left to right**, and only where all slots for division have
declined operands that allow it. -/
theorem coercion_calls_consult (user : UserSlots) (entry : EntryPoint) (lhs rhs : Value)
    (m : Machine) :
    let leftType := entry.left.typeAt entry.level m lhs
    let rightType := entry.right.typeAt entry.level m rhs
    let tried := SlotPhase.attemptAll user lhs rhs (.start m) (candidates entry leftType rightType)
    let asked := (consult user entry lhs rhs m).calls.filterMap (·.coercion?)
    (asked ≠ [] →
      tried.answer = .ok .notImplemented ∧ entry.AllowsCoercion leftType rightType) ∧
    asked <+: leftType.slots.coerce.toList.map (·, lhs, rhs) ++
      rightType.slots.coerce.toList.map (·, rhs, lhs) := by
  unfold consult
  dsimp only
  generalize SlotPhase.attemptAll user lhs rhs (.start m) (candidates entry
    (entry.left.typeAt entry.level m lhs) (entry.right.typeAt entry.level m rhs)) = tried
  rcases tried with ⟨calls, e | value, after⟩
  · dsimp only
    rw [coercion_calls_divide]
    exact ⟨fun h => absurd rfl h, List.nil_prefix⟩
  · cases value with
    | none | bool | int | float | ref =>
      dsimp only
      rw [coercion_calls_divide]
      exact ⟨fun h => absurd rfl h, List.nil_prefix⟩
    | notImplemented =>
      dsimp only
      split
      · rename_i hcoerce
        rw [List.filterMap_append, coercion_calls_divide, List.nil_append]
        exact ⟨fun _ => ⟨rfl, hcoerce⟩, coercion_calls_convertEither _ _ lhs rhs _⟩
      · rw [coercion_calls_divide]
        exact ⟨fun h => absurd rfl h, List.nil_prefix⟩

/-! ## The journal of the protocol -/

theorem keeps_builtinCoerce (kind : NumberKind) (own other : Value) :
    (BuiltinSlot.coerce kind own other).Keeps Machine.journal := by
  have newLong : ∀ n, (newLong n).Keeps Machine.journal := keeps_newLong fun _ _ => rfl
  have retain : ∀ value, (retain value).Keeps Machine.journal := fun _ _ => rfl
  cases kind with
  | int =>
    refine .look fun m => ?_
    split
    · exact (retain _).bind fun _ => (retain _).bind fun _ => keeps_pure _
    · exact keeps_pure _
  | long =>
    refine .look fun m => ?_
    split
    · exact (newLong _).bind fun _ => (retain _).bind fun _ => keeps_pure _
    · exact (retain _).bind fun _ => (retain _).bind fun _ => keeps_pure _
    · exact keeps_pure _
  | float =>
    refine .look fun m => ?_
    split
    · exact (retain _).bind fun _ => (retain _).bind fun _ => keeps_pure _
    · refine Keeps.bind (fun m => ?_) fun x => ?_
      · rcases run_toDouble? other m with ⟨_, h⟩ | ⟨_, h⟩ <;> rw [h]
      · split
        · exact (retain _).bind fun _ => keeps_pure _
        · exact keeps_pure _
    · exact keeps_pure _

theorem journal_callCoerce (hu : user.Keeps Machine.journal) (slot : CoerceSlot)
    (own other : Value) (m : Machine) :
    (callCoerce user slot own other m).2.journal.toList =
      m.journal.toList ++ [Consultation.coerce slot own other].filterMap (·.journalCall) := by
  cases slot with
  | builtin kind =>
    exact (congrArg Array.toList (keeps_builtinCoerce kind own other m)).trans
      (List.append_nil _).symm
  | user definer =>
    show (user.coerce definer own other _).2.journal.toList = _
    rw [hu.coerce definer own other _, Array.toList_push]
    rfl

/-- The journal of the machine tells the calls since another machine. -/
def Consulted.Journalled {α : Type} (consulted : Consulted α) (m : Machine) : Prop :=
  consulted.machine.journal.toList =
    m.journal.toList ++ consulted.calls.filterMap (·.journalCall)

theorem journal_dividePair (hu : user.Keeps Machine.journal) (lhs rhs : Value) (m : Machine) :
    (dividePair user lhs rhs m).Journalled m := by
  unfold dividePair Consulted.Journalled
  dsimp only
  cases (m.typeOf lhs).slots.divide with
  | none => exact (List.append_nil _).symm
  | some slot =>
    have called := journal_callDivide hu.divide slot lhs rhs m
    have entry : [Consultation.divide slot lhs rhs].filterMap (·.journalCall) =
        (slot.journalCall lhs rhs).toList := by
      cases slot <;> rfl
    rw [← entry] at called
    dsimp only
    rcases hrun : callDivide user slot lhs rhs m with ⟨e | value, after⟩
    · rw [hrun] at called
      exact called
    · rw [hrun] at called
      cases value with
      | none | notImplemented | bool | int | float | ref => exact called

theorem journal_convert (hu : user.Keeps Machine.journal) (side : Side)
    (slot? : Option CoerceSlot) (lhs rhs : Value) (m : Machine) :
    (convert user side slot? lhs rhs m).Journalled m := by
  unfold convert Consulted.Journalled
  cases slot? with
  | none => exact (List.append_nil _).symm
  | some slot =>
    dsimp only
    have called :=
      journal_callCoerce hu slot (side.inOrder (lhs, rhs)).1 (side.inOrder (lhs, rhs)).2 m
    rcases hrun : callCoerce user slot (side.inOrder (lhs, rhs)).1 (side.inOrder (lhs, rhs)).2 m
      with ⟨e | _ | answer, after⟩
    · rw [hrun] at called
      exact called
    · rw [hrun] at called
      exact called
    · rw [hrun] at called
      have division := journal_dividePair hu (side.inOrder answer).1 (side.inOrder answer).2
        (after.observe (.coerce side true))
      refine division.trans ?_
      show after.journal.toList ++ _ = _
      rw [show after.journal.toList = _ from called, List.append_assoc, ← List.filterMap_append]
      rfl

theorem journal_convertEither (hu : user.Keeps Machine.journal) (left? right? : Option CoerceSlot)
    (lhs rhs : Value) (m : Machine) :
    (convertEither user left? right? lhs rhs m).Journalled m := by
  have first := journal_convert hu .left left? lhs rhs m
  unfold convertEither
  dsimp only
  split
  · have second :=
      journal_convert hu .right right? lhs rhs (convert user .left left? lhs rhs m).machine
    unfold Consulted.Journalled at first second ⊢
    rw [second, first, List.filterMap_append, List.append_assoc]
  · exact first

/-- **The journal tells which slots of user types were called**, where these call none. -/
theorem journal_consult (hu : user.Keeps Machine.journal) (entry : EntryPoint) (lhs rhs : Value)
    (m : Machine) : (consult user entry lhs rhs m).Journalled m := by
  have started : m.journal.toList =
      m.journal.toList ++ [].filterMap (DivideSlot.journalCall lhs rhs) := (List.append_nil _).symm
  have tried := journal_attemptAll hu.divide m.journal.toList (candidates entry
    (entry.left.typeAt entry.level m lhs) (entry.right.typeAt entry.level m rhs)) (.start m) started
  unfold consult Consulted.Journalled
  dsimp only
  generalize SlotPhase.attemptAll user lhs rhs (.start m) (candidates entry
    (entry.left.typeAt entry.level m lhs) (entry.right.typeAt entry.level m rhs)) = phase at tried
  have entries : (phase.calls.map (Consultation.divide · lhs rhs)).filterMap (·.journalCall) =
      phase.calls.filterMap (·.journalCall lhs rhs) := List.filterMap_map
  split
  · rw [entries]
    exact tried
  · split
    · have converted := journal_convertEither hu
        (entry.left.typeAt entry.level m lhs).slots.coerce
        (entry.right.typeAt entry.level m rhs).slots.coerce lhs rhs phase.machine
      refine converted.trans ?_
      rw [tried, List.append_assoc, List.filterMap_append, entries]
    · rw [entries]
      exact tried
  · rw [entries]
    exact tried

/-- A division that is refused or a native one calls no slot of a user type. -/
theorem journal_divideWith {α : Type} (user : UserSlots) {native : Quotient → MachineM α}
    (hn : ∀ quotient, (native quotient).Keeps Machine.journal) (generic : Value → MachineM α)
    (h : ¬m.ReachesSlots entry lhs rhs) :
    (divideWith user entry native generic lhs rhs m).2.journal = m.journal := by
  rw [run_divideWith]
  split
  · rfl
  · rename_i hlevel
    cases hdepth : m.heap.budget.checkDepth m.depth with
    | error => rfl
    | ok =>
      cases hkind : fastKind? entry m lhs rhs with
      | none => exact absurd ⟨not_not.mp hlevel, hdepth, hkind⟩ h
      | some kind =>
        have inside : fastKind? entry (m.entered entry) lhs rhs = some kind := hkind
        dsimp only
        rw [run_divideInside_native user inside]
        exact (keeps_divideNatively (fun _ _ => rfl) kind lhs rhs).bind hn (m.entered entry)

/-! ## The whole division -/

/--
**Legacy operands are converted by the coercion protocol.**

A division that is entered and not native calls the slots of `consult` and nothing else: its first
answer is handed on, whatever becomes of it, the first failure ends the call unchanged, and where
nothing is computed the error names the types of the original operands in their order, those of
known shapes without a look at the operand.  Conversions are asked for only where every slot for
division has been called and has declined, at the legacy level, for operands that are not both known
and of which one has a classic type; the left type's takes the operands in order, the right type's
comes after it and takes its own operand first.  The journal tells the calls where slots call no
others.  A division that does not come to its slots calls none.
-/
theorem operands_converted_by_protocol (user : UserSlots) (entry : EntryPoint) (lhs rhs : Value)
    (m : Machine) :
    let leftType := entry.left.typeAt entry.level m lhs
    let rightType := entry.right.typeAt entry.level m rhs
    let slots := candidates entry leftType rightType
    let tried := SlotPhase.attemptAll user lhs rhs (.start (m.entered entry)) slots
    let consulted := consult user entry lhs rhs (m.entered entry)
    let asked := consulted.calls.filterMap (·.coercion?)
    (m.ReachesSlots entry lhs rhs →
      ∀ {α : Type} (native : Quotient → MachineM α) (generic : Value → MachineM α),
        divideWith user entry native generic lhs rhs m =
          match consulted.answer with
          | .error e => (.error e, consulted.machine.left)
          | .ok (some value) =>
            ((generic value consulted.machine).1, (generic value consulted.machine).2.left)
          | .ok none =>
            (.error (.raised (.unsupportedOperands "//" leftType.name rightType.name)),
              (consulted.machine.observe (.unsupported leftType.name rightType.name)).left)) ∧
    (¬m.ReachesSlots entry lhs rhs →
      ∀ {α : Type} (native : Quotient → MachineM α) (generic : Value → MachineM α),
        (∀ quotient, (native quotient).Keeps Machine.journal) →
          (divideWith user entry native generic lhs rhs m).2.journal = m.journal) ∧
    (asked ≠ [] → entry.AllowsCoercion leftType rightType ∧
      tried.answer = .ok .notImplemented ∧ tried.calls = slots.map (·.2)) ∧
    asked <+: leftType.slots.coerce.toList.map (·, lhs, rhs) ++
      rightType.slots.coerce.toList.map (·, rhs, lhs) ∧
    (user.Keeps Machine.journal → consulted.machine.journal.toList =
      m.journal.toList ++ consulted.calls.filterMap (·.journalCall)) := by
  intro leftType rightType slots tried consulted asked
  have order := coercion_calls_consult user entry lhs rhs (m.entered entry)
  refine ⟨fun h _ native generic => run_divideWith_consult user native generic h,
    fun h _ _ generic hn => journal_divideWith user hn generic h, fun hasked => ?_, order.2,
    fun hu => journal_consult hu entry lhs rhs (m.entered entry)⟩
  obtain ⟨hdeclined, hcoerce⟩ := order.1 hasked
  exact ⟨hcoerce, hdeclined, calls_of_declined slots (.start (m.entered entry)) hdeclined⟩

/-- The left type's conversion declines, and the right type's answers with a pair that is swapped
back: seven by two. -/
theorem operands_converted_by_protocol_swapped :
    let slots (index : Nat) : Slots := { coerce := some (.user index) }
    let convertible (index : Nat) : ObjectType :=
      .declare { id := .user index, name := "C", isClassic := true, slots := slots index } none
    let heap : Heap :=
      { cells := #[some ⟨1, .instanceOf (convertible 0) .none⟩,
          some ⟨1, .instanceOf (convertible 1) .none⟩]
        budget := .depthOnly 1000 }
    let m : Machine := { config := { level := .legacy }, heap }
    let user : UserSlots :=
      { divide := fun _ _ _ => return .notImplemented
        coerce := fun definer _ _ => return if definer = 0 then none else some (.int 2, .int 7)
        truth := fun _ _ => return true }
    let consulted :=
      consult user (.generic .legacy) (.ref 0) (.ref 1) (m.entered (.generic .legacy))
    m.ReachesSlots (.generic .legacy) (.ref 0) (.ref 1) ∧
      consulted.calls = [.coerce (.user 0) (.ref 0) (.ref 1), .coerce (.user 1) (.ref 1) (.ref 0),
        .divide (.builtin .int) (.int 7) (.int 2)] ∧
      divide user (.generic .legacy) (.ref 0) (.ref 1) m =
        (.ok (.int 3), consulted.machine.left) := by
  intro slots convertible heap m user consulted
  have reaches : m.ReachesSlots (.generic .legacy) (.ref 0) (.ref 1) := ⟨rfl, rfl, rfl⟩
  have protocol := operands_converted_by_protocol user (.generic .legacy) (.ref 0) (.ref 1) m
  exact ⟨reaches, rfl, protocol.1 reaches Quotient.toValue pure⟩

end FloorDivision
