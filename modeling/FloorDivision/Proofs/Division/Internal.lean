import FloorDivision.Proofs.Division.Specialised

/-!
# Internal failures

An internal failure says that the library broke a promise to itself.  Slots of user types may fail
in this way too, and division passes such a failure on.

* `MachineM.replacing` — a computation with its internal failures replaced by other ones.
* `Replaces.of_parallel` — replacing the internal failures of slots replaces those of what calls
  them, by one induction over what a division is put together from without internal failures.
* `noInternal_divideNatively` — operands that are exactly of one kind are never mismatched.
* `internal_only_from_slots` — every internal failure of a division is one of its slots'.
-/

namespace FloorDivision

open MachineM

/-- Another failure in place of an internal one. -/
def Failure.replaceInternal (replace : String → Failure) : Failure → Failure
  | .internal message => replace message
  | .raised exception => .raised exception
  | .uncatchable exception => .uncatchable exception

/-- The computation with other failures in place of its internal ones. -/
def MachineM.replacing {α : Type} (replace : String → Failure) (a : MachineM α) : MachineM α :=
  fun m => ((a m).1.mapError (·.replaceInternal replace), (a m).2)

/-- Slots with other failures in place of their internal ones. -/
def UserSlots.replacing (replace : String → Failure) (user : UserSlots) : UserSlots where
  divide definer lhs rhs := (user.divide definer lhs rhs).replacing replace
  coerce definer own other := (user.coerce definer own other).replacing replace
  truth definer value := (user.truth definer value).replacing replace

/-- One of the slots, on some operands and some machine, fails internally with the message. -/
def UserSlots.Reports (user : UserSlots) (message : String) : Prop :=
  (∃ definer lhs rhs m, (user.divide definer lhs rhs m).1 = .error (.internal message)) ∨
    (∃ definer own other m, (user.coerce definer own other m).1 = .error (.internal message)) ∨
      ∃ definer value m, (user.truth definer value m).1 = .error (.internal message)

/-- The second computation is the first one with its internal failures replaced. -/
def Replaces (replace : String → Failure) {α : Type} (a a' : MachineM α) : Prop :=
  a.replacing replace = a'

variable {replace : String → Failure} {user : UserSlots} {α β : Type}

theorem Failure.replaceInternal_of_not_isInternal {failure : Failure}
    (h : ¬ failure.IsInternal) : failure.replaceInternal replace = failure := by
  cases failure with
  | internal => exact absurd trivial h
  | raised | uncatchable => rfl

/-- What is refused for a limit breaks no promise. -/
theorem Refusal.replaceInternal_failure (refusal : Refusal) :
    refusal.failure.replaceInternal replace = refusal.failure :=
  Failure.replaceInternal_of_not_isInternal (by cases refusal <;> exact id)

/-! ## Putting computations together -/

namespace Replaces

theorem answer (x : α) : Replaces replace (pure x) (pure x) := rfl

/-- A failure of the computation itself stays, so it must not be an internal one. -/
theorem fail {e : Failure} (h : ¬ e.IsInternal) :
    Replaces replace (throw e : MachineM α) (throw e) := by
  funext m
  show (Except.error (e.replaceInternal replace), m) = (.error e, m)
  rw [Failure.replaceInternal_of_not_isInternal h]

theorem bind {a a' : MachineM α} {f f' : α → MachineM β} (ha : Replaces replace a a')
    (hf : ∀ x, Replaces replace (f x) (f' x)) : Replaces replace (a >>= f) (a' >>= f') := by
  funext m
  have first : a' m = ((a m).1.mapError (·.replaceInternal replace), (a m).2) :=
    (congrFun ha m).symm
  unfold MachineM.replacing
  rw [run_bind, run_bind, first]
  rcases a m with ⟨e | x, after⟩
  · rfl
  · exact congrFun (hf x) after

theorem look {f f' : Machine → MachineM α} (hf : ∀ m, Replaces replace (f m) (f' m)) :
    Replaces replace (get >>= f) (get >>= f') := by
  funext m
  exact congrFun (hf m) m

theorem andThen {a a' : MachineM α} (ha : Replaces replace a a') (cleanUp : Machine → Machine) :
    Replaces replace (a.andThen cleanUp) (a'.andThen cleanUp) := by
  subst ha
  rfl

theorem releasing (value : Value) {a a' : MachineM α} (ha : Replaces replace a a') :
    Replaces replace (releasing value a) (releasing value a') := ha.andThen _

theorem releasingBoth (first second : Value) {a a' : MachineM α} (ha : Replaces replace a a') :
    Replaces replace (releasingBoth first second a) (releasingBoth first second a') := ha.andThen _

theorem nested {a a' : Nat → MachineM α} (ha : ∀ depth, Replaces replace (a depth) (a' depth)) :
    Replaces replace (do let depth ← enter; leaving (a depth))
      (do let depth ← enter; leaving (a' depth)) := by
  refine bind ?_ fun depth => (ha depth).andThen _
  funext m
  unfold MachineM.replacing enter
  cases m.heap.budget.checkDepth m.depth with
  | ok => rfl
  | error refusal => exact congrArg (Except.error ·, m) refusal.replaceInternal_failure

theorem allocate (content : Content) : Replaces replace (allocate content) (allocate content) := by
  funext m
  unfold MachineM.replacing MachineM.allocate
  cases m.heap.allocate content with
  | ok stored => rfl
  | error refusal => exact congrArg (Except.error ·, m) refusal.replaceInternal_failure

theorem newLong (n : Int) : Replaces replace (newLong n) (newLong n) := by
  unfold MachineM.newLong
  refine look fun m => ?_
  split
  · exact answer _
  · exact allocate _

/-! ## What raises no internal failure of its own -/

/-- What calls no slot of a user type has no internal failure to be replaced. -/
theorem same {a : MachineM α} (h : ∀ user, Composed (¬ ·.IsInternal) user a) :
    Replaces replace a a := by
  have composed := h .declining
  clear h
  induction composed with
  | answer x => exact answer x
  | fail h => exact fail h
  | bind _ _ iha ihf => exact iha.bind ihf
  | look _ _ ih => exact look ih
  | observe | note | retain | release => rfl
  | newLong n => exact newLong n
  | releasing value _ ih => exact ih.releasing value
  | releasingBoth first second _ ih => exact ih.releasingBoth first second
  | nested _ ih => exact nested ih
  | slotDivide | slotCoerce | slotTruth => rfl

/-- **Replacing the internal failures of slots replaces those of what calls them**, which has none
of its own. -/
theorem of_parallel {a a' : MachineM α}
    (h : Parallel (¬ ·.IsInternal) user (user.replacing replace) a a') : Replaces replace a a' := by
  induction h with
  | same ha => exact same ha
  | bind _ _ iha ihf => exact iha.bind ihf
  | look _ _ ih => exact look ih
  | releasing value _ ih => exact ih.releasing value
  | releasingBoth first second _ ih => exact ih.releasingBoth first second
  | nested _ ih => exact nested ih
  | slotDivide | slotCoerce | slotTruth => rfl

end Replaces

/-! ## Divisions -/

variable {m : Machine} {lhs rhs : Value} {kind : NumberKind}

/-- The failure that a computation ended with, if any, is not internal. -/
def NoInternal (result : Except Failure α) : Prop :=
  ∀ failure, result = .error failure → ¬ failure.IsInternal

theorem noInternal_ok (x : α) : NoInternal (.ok x) := nofun

theorem noInternal_error {e : Failure} (h : ¬ e.IsInternal) :
    NoInternal (.error e : Except Failure α) := by
  rintro _ ⟨⟩
  exact h

theorem noInternal_divideInts (a b : Int64) (m : Machine) : NoInternal (divideInts a b m).1 := by
  unfold divideInts
  cases intFloorDivide a b with
  | error => exact noInternal_error id
  | ok quotient =>
    cases quotient with
    | none => exact noInternal_ok _
    | some => exact noInternal_ok _

/-- Small modern integers and those of the heap are integers of any size alike. -/
theorem noInternal_divideLongs (hl : m.isExact lhs .long = true)
    (hr : m.isExact rhs .long = true) : NoInternal (divideLongs lhs rhs m).1 := by
  obtain ⟨a, ha, _⟩ := exists_longOperand hl
  obtain ⟨b, hb, _⟩ := exists_longOperand hr
  unfold divideLongs
  rw [run_get_bind, ha, hb]
  dsimp only
  generalize m.level = level
  split
  · exact noInternal_divideInts _ _ m
  · cases longFloorDivide a b with
    | ok => exact noInternal_ok _
    | error => cases level <;> exact noInternal_error id

/-- **Operands that are exactly of one kind are never mismatched.** -/
theorem noInternal_divideNatively (hl : m.isExact lhs kind = true)
    (hr : m.isExact rhs kind = true) : NoInternal (divideNatively kind lhs rhs m).1 := by
  unfold divideNatively
  rw [run_bind_ok (run_observe _ _)]
  cases kind with
  | int =>
    cases lhs with
    | int a =>
      cases rhs with
      | int b => exact noInternal_divideInts a b _
      | none | notImplemented | bool | float | ref => cases hr
    | none | notImplemented | bool | float | ref => cases hl
  | long =>
    have hlhs : (m.observe (.fastPath .long)).isExact lhs .long = true := hl
    exact noInternal_divideLongs hlhs hr
  | float =>
    cases lhs with
    | float x =>
      cases rhs with
      | float y =>
        dsimp only
        cases floatFloorDivide x y with
        | ok => exact noInternal_ok _
        | error => exact noInternal_error id
      | none | notImplemented | bool | int | ref => cases hr
    | none | notImplemented | bool | int | ref => cases hl

variable {entry : EntryPoint} {native native' : Quotient → MachineM α}
  {generic generic' : Value → MachineM α}

/-- Inside a division whose operands are what the entry point takes them for. -/
theorem replacing_divideInside (hf : entry.Fits m lhs rhs)
    (hn : ∀ quotient, Replaces replace (native quotient) (native' quotient))
    (hg : ∀ value, Replaces replace (generic value) (generic' value)) :
    (divideInside user entry native generic lhs rhs).replacing replace m =
      divideInside (user.replacing replace) entry native' generic' lhs rhs m := by
  unfold MachineM.replacing
  rw [run_divideInside, run_divideInside]
  cases hk : fastKind? entry m lhs rhs with
  | none =>
    exact congrFun (Replaces.bind (.of_parallel (.divideBySlots entry lhs rhs)) hg) m
  | some kind =>
    obtain ⟨hl, hr⟩ := isExact_of_fastKind? hf hk
    have clean := noInternal_divideNatively hl hr
    dsimp only
    rw [run_bind, run_bind]
    rcases hrun : divideNatively kind lhs rhs m with ⟨e | quotient, after⟩
    · rw [hrun] at clean
      exact congrArg (Except.error ·, after)
        (Failure.replaceInternal_of_not_isInternal (clean e rfl))
    · exact congrFun (hn quotient) after

theorem replacing_divideWith (hl : m.level = entry.level) (hf : entry.Fits m lhs rhs)
    (hn : ∀ quotient, Replaces replace (native quotient) (native' quotient))
    (hg : ∀ value, Replaces replace (generic value) (generic' value)) :
    (divideWith user entry native generic lhs rhs).replacing replace m =
      divideWith (user.replacing replace) entry native' generic' lhs rhs m := by
  have fits : entry.Fits (m.entered entry) lhs rhs := hf
  have inside : (divideInside user entry native generic lhs rhs).replacing replace _ = _ :=
    replacing_divideInside fits hn hg
  unfold MachineM.replacing at inside ⊢
  rw [run_divideWith, run_divideWith, if_neg (not_not_intro hl), if_neg (not_not_intro hl),
    ← inside]
  cases m.heap.budget.checkDepth m.depth with
  | ok => rfl
  | error refusal => exact congrArg (Except.error ·, m) refusal.replaceInternal_failure

theorem replacing_divide (user : UserSlots) (replace : String → Failure)
    (hl : m.level = entry.level) (hf : entry.Fits m lhs rhs) :
    (divide user entry lhs rhs).replacing replace m =
      divide (user.replacing replace) entry lhs rhs m :=
  replacing_divideWith hl hf (fun quotient => .same fun _ => .toValue quotient) Replaces.answer

theorem replacing_divideToTruth (user : UserSlots) (replace : String → Failure)
    (hl : m.level = entry.level) (hf : entry.Fits m lhs rhs) :
    (divideToTruth user entry lhs rhs).replacing replace m =
      divideToTruth (user.replacing replace) entry lhs rhs m :=
  replacing_divideWith hl hf (fun quotient => .of_parallel (.truthOfQuotient quotient))
    fun value => .of_parallel (.truthOfOwned value)

theorem replacing_divideTakingPending (user : UserSlots) (replace : String → Failure)
    (hl : m.level = entry.level) (hf : entry.Fits m lhs rhs) :
    (divideTakingPending user entry lhs rhs).replacing replace m =
      divideTakingPending (user.replacing replace) entry lhs rhs m := by
  rw [run_divideTakingPending, ← replacing_divideToTruth user replace hl hf]
  unfold MachineM.replacing
  rw [run_divideTakingPending]
  rcases divideToTruth user entry lhs rhs m with ⟨e | truth, after⟩
  · rfl
  · rfl

/-! ## Where an internal failure comes from -/

/-- Another failure in place of the internal one with a certain message. -/
def Failure.insteadOf (message : String) (other : Failure) (text : String) : Failure :=
  if text = message then other else .internal text

/-- A computation that never fails with a message stays when that failure is replaced. -/
theorem MachineM.replacing_eq_self {message : String} {other : Failure} {a : MachineM α}
    (h : ∀ m, (a m).1 ≠ .error (.internal message)) :
    a.replacing (.insteadOf message other) = a := by
  funext m
  have never := h m
  unfold MachineM.replacing
  rcases hrun : a m with ⟨e | x, after⟩
  · cases e with
    | internal text =>
      have differs : text ≠ message := fun heq => never (by rw [hrun, heq])
      have kept : Failure.insteadOf message other text = .internal text := if_neg differs
      exact congrArg (Except.error ·, after) kept
    | raised | uncatchable => rfl
  · rfl

theorem UserSlots.replacing_eq_self {message : String} {other : Failure}
    (h : ¬ user.Reports message) : user.replacing (.insteadOf message other) = user := by
  have hdivide : ∀ definer lhs rhs,
      (user.divide definer lhs rhs).replacing (.insteadOf message other) =
        user.divide definer lhs rhs := fun definer lhs rhs =>
    MachineM.replacing_eq_self fun m hm => h (Or.inl ⟨definer, lhs, rhs, m, hm⟩)
  have hcoerce : ∀ definer own rest,
      (user.coerce definer own rest).replacing (.insteadOf message other) =
        user.coerce definer own rest := fun definer own rest =>
    MachineM.replacing_eq_self fun m hm => h (Or.inr (Or.inl ⟨definer, own, rest, m, hm⟩))
  have htruth : ∀ definer value,
      (user.truth definer value).replacing (.insteadOf message other) =
        user.truth definer value := fun definer value =>
    MachineM.replacing_eq_self fun m hm => h (Or.inr (Or.inr ⟨definer, value, m, hm⟩))
  unfold UserSlots.replacing
  simp only [hdivide, hcoerce, htruth]

/--
What is computed with slots is internal only by a message of theirs, if replacing the internal
failures of the slots replaces those of the result.
-/
theorem reports_of_replacing {a : UserSlots → MachineM α} {message : String}
    (ha : ∀ replace, (a user).replacing replace m = a (user.replacing replace) m)
    (h : (a user m).1 = .error (.internal message)) : user.Reports message := by
  by_contra hnone
  have replaced := ha (.insteadOf message (.raised .integerDivisionByZero))
  rw [UserSlots.replacing_eq_self hnone] at replaced
  have first := congrArg Prod.fst replaced
  unfold MachineM.replacing at first
  rw [h] at first
  have same : Failure.insteadOf message (.raised .integerDivisionByZero) message =
    .internal message := Except.error.inj first
  rw [Failure.insteadOf, if_pos rfl] at same
  cases same

/--
**Internal failures come from slots only.**  On a machine of the entry point's level, with operands
that are exactly what the known shapes take them for:

* whenever a kind is chosen for native division, by a known shape or by a look at an unknown
  operand, both operands are exactly of it and the native division does not fail internally;
* there is a type for each shape of the entry point, whatever the machine and the value;
* a division whose slots fail with other failures in place of internal ones ends with the other
  failure in place of the internal one and leaves the same machine, so that none is its own;
* the message of an internal failure is one that a slot failed with.
-/
theorem internal_only_from_slots (user : UserSlots) (hl : m.level = entry.level)
    (hf : entry.Fits m lhs rhs) :
    (∀ kind, fastKind? entry m lhs rhs = some kind →
      m.isExact lhs kind = true ∧ m.isExact rhs kind = true ∧
        NoInternal (divideNatively kind lhs rhs m).1) ∧
    (∀ shape, shape = entry.left ∨ shape = entry.right →
      ∀ m' value, ∃ type, operandType entry shape m' value = .ok type) ∧
    (∀ replace,
      (divide user entry lhs rhs).replacing replace m =
        divide (user.replacing replace) entry lhs rhs m ∧
      (divideToTruth user entry lhs rhs).replacing replace m =
        divideToTruth (user.replacing replace) entry lhs rhs m ∧
      (divideTakingPending user entry lhs rhs).replacing replace m =
        divideTakingPending (user.replacing replace) entry lhs rhs m) ∧
    ∀ message, (divide user entry lhs rhs m).1 = .error (.internal message) ∨
        (divideToTruth user entry lhs rhs m).1 = .error (.internal message) ∨
          (divideTakingPending user entry lhs rhs m).1 = .error (.internal message) →
      user.Reports message := by
  refine ⟨fun kind hk => ?_, fun shape hs m' value => ?_, fun replace => ?_, fun message h => ?_⟩
  · obtain ⟨hlhs, hrhs⟩ := isExact_of_fastKind? hf hk
    exact ⟨hlhs, hrhs, noInternal_divideNatively hlhs hrhs⟩
  · obtain rfl | rfl := hs
    · exact ⟨_, operandType_eq entry.left_exists m' value⟩
    · exact ⟨_, operandType_eq entry.right_exists m' value⟩
  · exact ⟨replacing_divide user replace hl hf, replacing_divideToTruth user replace hl hf,
      replacing_divideTakingPending user replace hl hf⟩
  · obtain h | h | h := h
    · exact reports_of_replacing (a := fun user => divide user entry lhs rhs)
        (fun replace => replacing_divide user replace hl hf) h
    · exact reports_of_replacing (a := fun user => divideToTruth user entry lhs rhs)
        (fun replace => replacing_divideToTruth user replace hl hf) h
    · exact reports_of_replacing (a := fun user => divideTakingPending user entry lhs rhs)
        (fun replace => replacing_divideTakingPending user replace hl hf) h

/-- A small integer known to be one of any size, divided by a long of the heap and by an
instance. -/
theorem internal_only_from_slots_modern :
    let type := ObjectType.declare
      { id := .user 0, name := "Wrapper", slots := { divide := some (.user 0) } } (some .object)
    let heap : Heap :=
      { cells := #[some ⟨1, .long (1 <<< 64)⟩, some ⟨1, .instanceOf type .none⟩]
        budget := .depthOnly 1000 }
    let m : Machine := { config := { level := .modern }, heap }
    let entry : EntryPoint := { level := .modern, left := .known .long, right := .unknown }
    let user : UserSlots :=
      { divide := fun _ _ _ => throw (.internal "broken")
        coerce := fun _ _ _ => return none
        truth := fun _ _ => return true }
    entry.Fits m (.int 3) (.ref 0) ∧ fastKind? entry m (.int 3) (.ref 0) = some .long ∧
      NoInternal (divideNatively .long (.int 3) (.ref 0) m).1 ∧
      (divide user entry (.int 3) (.ref 1) m).1 = .error (.internal "broken") ∧
      user.Reports "broken" := by
  intro type heap m entry user
  have left : (Shape.known .long).Fits m (.int 3) := by
    rintro _ ⟨⟩
    rfl
  have fits : ∀ rhs, entry.Fits m (.int 3) rhs := fun rhs => ⟨left, nofun⟩
  have chosen : fastKind? entry m (.int 3) (.ref 0) = some .long := by decide
  have failed : (divide user entry (.int 3) (.ref 1) m).1 = .error (.internal "broken") := rfl
  have native := (internal_only_from_slots user (show m.level = entry.level from rfl)
    (fits (.ref 0))).1 .long chosen
  have slots := (internal_only_from_slots user (show m.level = entry.level from rfl)
    (fits (.ref 1))).2.2.2 "broken" (Or.inl failed)
  exact ⟨fits _, chosen, native.2.2, failed, slots⟩

end FloorDivision
