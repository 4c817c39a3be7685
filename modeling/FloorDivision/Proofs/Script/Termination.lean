import Mathlib.Logic.ExistsUnique
import FloorDivision.Proofs.Division.Program

/-!
# Scripts that divide again come to an end

Slots of scripts are defined by the number of slot calls that may be nested.  Each division takes
one from the room that is left for nested divisions, and between two nested divisions only one slot
call is nested in another, so there is a number that always suffices.

* `Machine.room` — how many more divisions may be nested.
* `MachineM.AgreeWithin` — two computations come to the same where no more room is left.
* `UserSlots.DivideAlike` — divisions with two families of slots agree so far.  `divideAlike_zero`
  and `divideAlike_succ` are the start and the step of an induction over the room; `Parallel.agree`
  and `Script.compatible_agree` are those over divisions and over scripts.
* `UserSlots.layers` — layers of scripts over slots that may do anything; divisions do not reach
  beneath as many layers as there is room (`divideAlike_layers`).
* `UserSlots.asDeepAsRoom` — slots that evaluate scripts with themselves as the slots inside.
* `scripts_terminate` — there are no other such slots, and what they do is settled by finitely many
  layers.
-/

namespace FloorDivision

open MachineM

variable {α β : Type} {n : Nat} {user user' : UserSlots} {m m' m'' : Machine}

/-! ## Room for nested divisions -/

/-- How many more divisions may be nested. -/
def Machine.room (m : Machine) : Nat := m.heap.budget.maxDepth.toNat - m.depth

/-- Divisions are nested as deep in both machines, under the same limit. -/
structure Machine.SameNesting (m m' : Machine) : Prop where
  depth : m'.depth = m.depth
  maxDepth : m'.heap.budget.maxDepth = m.heap.budget.maxDepth

namespace Machine.SameNesting

theorem refl (m : Machine) : m.SameNesting m := ⟨rfl, rfl⟩

theorem trans (h : m.SameNesting m') (h' : m'.SameNesting m'') : m.SameNesting m'' :=
  ⟨h'.depth.trans h.depth, h'.maxDepth.trans h.maxDepth⟩

theorem room (h : m.SameNesting m') : m'.room = m.room := by
  unfold Machine.room
  rw [h.depth, h.maxDepth]

/-- What happens inside a division that is left again. -/
theorem left {entry : EntryPoint} (h : (m.entered entry).SameNesting m') :
    m.SameNesting m'.left where
  depth := by
    show m'.depth - 1 = m.depth
    rw [h.depth]
    rfl
  maxDepth := h.maxDepth

end Machine.SameNesting

/-- Inside a division there is room for one less. -/
theorem Machine.room_entered (m : Machine) (entry : EntryPoint) :
    (m.entered entry).room = m.room - 1 := by
  show m.heap.budget.maxDepth.toNat - (m.depth + 1) = m.heap.budget.maxDepth.toNat - m.depth - 1
  omega

/-! ## Computations that agree where little room is left -/

/-- Where no more than `n` divisions may be nested, both computations come to the same and leave the
nesting as it was. -/
def MachineM.AgreeWithin (n : Nat) (α : Type) (a a' : MachineM α) : Prop :=
  ∀ m : Machine, m.room ≤ n → a m = a' m ∧ m.SameNesting (a m).2

namespace MachineM

theorem Runs.sameNesting {a : MachineM α} {operations : List Operation} (h : Runs a m operations) :
    m.SameNesting (a m).2 := by
  refine ⟨h.depth_eq, ?_⟩
  rw [h.after, Meter.fixed_maxDepth.after]

/-- A program agrees with itself. -/
theorem agree_program {a : MachineM α} (h : Program (· = ·) a) : AgreeWithin n α a a := by
  intro m _
  obtain ⟨operations, hrun⟩ := h.exists_runs Machine.simulation_eq m
  exact ⟨rfl, hrun.sameNesting⟩

theorem AgreeWithin.resume {a a' : MachineM α} {next next' : Except Failure α → MachineM β}
    (ha : AgreeWithin n α a a') (hn : ∀ r, AgreeWithin n β (next r) (next' r)) :
    AgreeWithin n β (a.resume next) (a'.resume next') := by
  intro m hm
  obtain ⟨hsame, hfirst⟩ := ha m hm
  obtain ⟨hrest, hsecond⟩ := hn (a m).1 (a m).2 (Nat.le_trans (Nat.le_of_eq hfirst.room) hm)
  unfold MachineM.resume
  rw [← hsame]
  exact ⟨hrest, hfirst.trans hsecond⟩

theorem AgreeWithin.bind {a a' : MachineM α} {f f' : α → MachineM β} (ha : AgreeWithin n α a a')
    (hf : ∀ x, AgreeWithin n β (f x) (f' x)) : AgreeWithin n β (a >>= f) (a' >>= f') := by
  rw [bind_eq_resume, bind_eq_resume]
  refine ha.resume fun r => ?_
  cases r with
  | ok x => exact hf x
  | error e => exact agree_program (.fail e)

theorem AgreeWithin.tryCatch {a a' : MachineM α} {handler handler' : Failure → MachineM α}
    (ha : AgreeWithin n α a a') (hh : ∀ e, AgreeWithin n α (handler e) (handler' e)) :
    AgreeWithin n α (tryCatch a handler) (tryCatch a' handler') := by
  rw [tryCatch_eq_resume, tryCatch_eq_resume]
  refine ha.resume fun r => ?_
  cases r with
  | ok x => exact agree_program (.answer x)
  | error e => exact hh e

theorem AgreeWithin.look {f f' : Machine → MachineM α} (hf : ∀ m, AgreeWithin n α (f m) (f' m)) :
    AgreeWithin n α (get >>= f) (get >>= f') := fun m hm => hf m m hm

theorem AgreeWithin.releasing (value : Value) {a a' : MachineM α} (ha : AgreeWithin n α a a') :
    AgreeWithin n α (releasing value a) (releasing value a') := by
  rw [releasing_eq, releasing_eq]
  refine (ha.tryCatch fun e => ?_).bind fun x => ?_
  · exact (agree_program (.release value)).bind fun _ => agree_program (.fail e)
  · exact (agree_program (.release value)).bind fun _ => agree_program (.answer x)

/-- A division that is entered and left, with whatever is done inside. -/
theorem AgreeWithin.nested {a a' : Nat → MachineM α}
    (ha : ∀ depth, AgreeWithin n α (a depth) (a' depth)) :
    AgreeWithin n α (do let depth ← enter; leaving (a depth))
      (do let depth ← enter; leaving (a' depth)) := by
  intro m hm
  cases hdepth : m.heap.budget.checkDepth m.depth with
  | error refusal =>
    rw [run_nested_error hdepth, run_nested_error hdepth]
    exact ⟨rfl, .refl m⟩
  | ok =>
    have hinside : (Operation.enter.perform m).room ≤ n := by
      have := m.room_entered (.generic m.level)
      exact Nat.le_trans (Nat.le_of_eq this) (by omega)
    obtain ⟨hsame, hnesting⟩ := ha (m.depth + 1) _ hinside
    rw [run_nested hdepth, run_nested hdepth, ← hsame]
    refine ⟨rfl, ?_, hnesting.maxDepth⟩
    show (a (m.depth + 1) (Operation.enter.perform m)).2.depth - 1 = m.depth
    rw [hnesting.depth]
    rfl

end MachineM

/-! ## Divisions -/

/-- What is done without slots of user types agrees with itself. -/
theorem Composed.agree {raises : Failure → Prop} {a : MachineM α}
    (h : ∀ user, Composed raises user a) : AgreeWithin n α a a := by
  intro m _
  have hslots : (UserSlots.ofScripts [] [] 0).Programmed (· = ·) :=
    UserSlots.ofScripts_program Machine.simulation_eq [] [] 0
  obtain ⟨operations, _, hrun, _, _⟩ := (h (.ofScripts [] [] 0)).follows Machine.simulation_eq
    (fun offered => (hslots offered).follows Machine.simulation_eq) m m rfl
  exact ⟨rfl, hrun.sameNesting⟩

/-- Computations put together in the same way agree where the slots do. -/
theorem Parallel.agree {raises : Failure → Prop}
    (hs : UserSlots.Related (AgreeWithin n) user user') {a a' : MachineM α}
    (h : Parallel raises user user' a a') : AgreeWithin n α a a' := by
  induction h with
  | same ha => exact Composed.agree ha
  | bind _ _ iha ihf => exact iha.bind ihf
  | look _ _ ih => exact .look ih
  | releasing value _ ih => exact ih.releasing value
  | releasingBoth first second _ ih => exact (ih.releasing first).releasing second
  | nested _ ih => exact .nested ih
  | slotDivide definer lhs rhs => exact hs.divide definer lhs rhs
  | slotCoerce definer own other => exact hs.coerce definer own other
  | slotTruth definer value => exact hs.truth definer value

/-- Divisions with two families of slots agree where no more than `n` divisions may be nested. -/
structure UserSlots.DivideAlike (n : Nat) (user user' : UserSlots) : Prop where
  divide : ∀ entry lhs rhs, AgreeWithin n Value (FloorDivision.divide user entry lhs rhs)
    (FloorDivision.divide user' entry lhs rhs)
  divideToTruth : ∀ entry lhs rhs, AgreeWithin n Bool
    (FloorDivision.divideToTruth user entry lhs rhs)
    (FloorDivision.divideToTruth user' entry lhs rhs)

variable {native native' : Quotient → MachineM α} {generic generic' : Value → MachineM α}

/-- Without room for a division nothing matters. -/
theorem agree_divideWith_zero (user user' : UserSlots) (entry : EntryPoint) (lhs rhs : Value) :
    AgreeWithin 0 α (divideWith user entry native generic lhs rhs)
      (divideWith user' entry native' generic' lhs rhs) := by
  intro m hm
  have hdepth : m.heap.budget.checkDepth m.depth = .error .depth := by
    refine if_neg (Nat.not_lt.mpr ?_)
    exact Nat.le_of_sub_eq_zero (Nat.le_zero.mp hm)
  rw [run_divideWith, run_divideWith, hdepth]
  split
  · exact ⟨rfl, .refl m⟩
  · exact ⟨rfl, .refl m⟩

/-- **Divisions agree where there is room for one more** than there is for the slots to agree. -/
theorem agree_divideWith (hs : UserSlots.Related (AgreeWithin n) user user') (entry : EntryPoint)
    (hn : ∀ quotient, Parallel (¬ ·.IsInternal) user user' (native quotient) (native' quotient))
    (hg : ∀ value, Parallel (¬ ·.IsInternal) user user' (generic value) (generic' value))
    (lhs rhs : Value) :
    AgreeWithin (n + 1) α (divideWith user entry native generic lhs rhs)
      (divideWith user' entry native' generic' lhs rhs) := by
  intro m hm
  have hroom : (m.entered entry).room ≤ n := by
    rw [m.room_entered]
    omega
  obtain ⟨hsame, hnesting⟩ :=
    (Parallel.divideInside entry hn hg lhs rhs).agree hs (m.entered entry) hroom
  rw [run_divideWith, run_divideWith]
  split
  · exact ⟨rfl, .refl m⟩
  · cases m.heap.budget.checkDepth m.depth with
    | error => exact ⟨rfl, .refl m⟩
    | ok =>
      dsimp only
      rw [← hsame]
      exact ⟨rfl, hnesting.left⟩

namespace UserSlots

theorem divideAlike_zero (user user' : UserSlots) : DivideAlike 0 user user' :=
  ⟨agree_divideWith_zero user user', agree_divideWith_zero user user'⟩

theorem divideAlike_succ (hs : Related (AgreeWithin n) user user') :
    DivideAlike (n + 1) user user' where
  divide := fun entry =>
    agree_divideWith hs entry (fun quotient => .same fun _ => .toValue quotient) .answer
  divideToTruth := fun entry =>
    agree_divideWith hs entry Parallel.truthOfQuotient Parallel.truthOfOwned

end UserSlots

/-! ## Scripts -/

theorem UserSlots.DivideAlike.divideTakingPending (h : DivideAlike n user user')
    (entry : EntryPoint) (lhs rhs : Value) :
    AgreeWithin n Bool (FloorDivision.divideTakingPending user entry lhs rhs)
      (FloorDivision.divideTakingPending user' entry lhs rhs) := by
  intro m hm
  obtain ⟨hsame, hnesting⟩ := h.divideToTruth entry lhs rhs m hm
  rw [run_divideTakingPending, run_divideTakingPending, ← hsame]
  rcases hrun : FloorDivision.divideToTruth user entry lhs rhs m with ⟨e | truth, m'⟩
  · rw [hrun] at hnesting
    exact ⟨rfl, hnesting.depth, hnesting.maxDepth⟩
  · rw [hrun] at hnesting
    exact ⟨rfl, hnesting⟩

/-- Evaluation keeps computations in agreement. -/
theorem Script.compatible_agree (h : UserSlots.DivideAlike n user user') :
    Script.Compatible user user' (AgreeWithin n) where
  answer := fun x => agree_program (.answer x)
  fail := fun e => agree_program (.fail e)
  bind := .bind
  handle := .tryCatch
  look := fun hf _ => .look hf
  retain := fun value => agree_program (.retain value)
  release := fun value => agree_program (.release value)
  ofObject := fun object => agree_program (.ofObject object)
  newInstance := fun type payload => agree_program (.newInstance type payload)
  divide := h.divide
  divideTakingPending := h.divideTakingPending

/-- The value is a reference to an instance of a user type. -/
def Machine.IsInstance (m : Machine) (value : Value) : Prop :=
  ∃ id type payload, value = .ref id ∧ m.heap.content? id = some (.instanceOf type payload)

/-- The truth of what is no instance has nothing to do with slots of user types. -/
theorem run_isTrue_builtin {value : Value} (h : ¬m.IsInstance value) :
    ∃ truth, ∀ user, isTrue user value m = (.ok truth, m) := by
  have builtin : (m.typeOf value).slots.truth = none ∨ (m.typeOf value).slots.truth = some .never ∨
      ∃ kind, (m.typeOf value).slots.truth = some (.builtin kind) := by
    cases value with
    | none => exact Or.inr (Or.inl rfl)
    | notImplemented => exact Or.inl rfl
    | bool | int | float => exact Or.inr (Or.inr ⟨_, rfl⟩)
    | ref id =>
      simp only [Machine.typeOf]
      cases hcontent : m.heap.content? id with
      | none => exact Or.inl rfl
      | some content =>
        cases content with
        | long => exact Or.inr (Or.inr ⟨_, rfl⟩)
        | instanceOf type payload => exact absurd ⟨id, type, payload, rfl, hcontent⟩ h
  have answers : ∃ truth, BuiltinSlot.truth value m = (.ok truth, m) := by
    unfold BuiltinSlot.truth
    rw [run_get_bind]
    rcases m.heap.numeric? value with _ | (_ | _ | _) <;> exact ⟨_, rfl⟩
  obtain ⟨truth, htruth⟩ := answers
  unfold isTrue
  simp only [run_get_bind]
  rcases builtin with hnone | hnever | ⟨kind, hkind⟩
  · rw [hnone]
    exact ⟨true, fun _ => rfl⟩
  · rw [hnever]
    exact ⟨false, fun _ => rfl⟩
  · rw [hkind]
    exact ⟨truth, fun _ => htruth⟩

/-- Truth scripts answer with builtin values, however they are called. -/
def Script.TruthsBuiltin (scripts : List SlotScripts) (bindings : List (String × Value)) : Prop :=
  ∀ definer script, scriptOf scripts (·.truth) definer = some script →
    ∀ nesting value m answer m',
      script.eval (.ofScripts scripts bindings nesting) ⟨some (value, value), bindings⟩ m =
        (.ok answer, m') → ¬m'.IsInstance answer

variable {scripts : List SlotScripts} {bindings : List (String × Value)}

/-- **Slots over which divisions agree are slots that agree**: the truth of what a truth script
answers calls no slot again. -/
theorem UserSlots.related_overScripts (ht : Script.TruthsBuiltin scripts bindings)
    {inner : UserSlots} {nesting : Nat}
    (h : DivideAlike n inner (ofScripts scripts bindings nesting)) :
    Related (AgreeWithin n) (overScripts scripts bindings inner)
      (ofScripts scripts bindings (nesting + 1)) := by
  have compatible := Script.compatible_agree h
  refine compatible.related_overScripts scripts bindings fun definer script value hscript m hm => ?_
  obtain ⟨hsame, hnesting⟩ :=
    Expr.eval_related compatible ⟨some (value, value), bindings⟩ script m hm
  rw [run_bind, run_bind, ← hsame]
  rcases hrun : script.eval inner ⟨some (value, value), bindings⟩ m with ⟨e | answer, m'⟩
  · rw [hrun] at hnesting
    exact ⟨rfl, hnesting⟩
  · rw [hrun] at hnesting hsame
    obtain ⟨truth, htruth⟩ := run_isTrue_builtin
      (ht definer script hscript nesting value m answer m' hsame.symm)
    unfold truthOfOwned
    dsimp only
    rw [run_releasing, run_releasing, htruth, htruth]
    refine ⟨rfl, hnesting.trans ⟨rfl, ?_⟩⟩
    exact Meter.fixed_maxDepth.perform m' (.release answer)

/-- Layers of scripts, one for each nested slot call, over slots that may do anything. -/
def UserSlots.layers (scripts : List SlotScripts) (bindings : List (String × Value))
    (beneath : UserSlots) : Nat → UserSlots
  | 0 => beneath
  | nesting + 1 => overScripts scripts bindings (layers scripts bindings beneath nesting)

/-- **Divisions do not reach beneath as many layers as there is room**, by induction over the
room. -/
theorem UserSlots.divideAlike_layers (ht : Script.TruthsBuiltin scripts bindings)
    (beneath : UserSlots) (n : Nat) :
    ∀ nesting nesting', n ≤ nesting → n ≤ nesting' →
      DivideAlike n (layers scripts bindings beneath nesting)
        (ofScripts scripts bindings nesting') := by
  induction n with
  | zero => exact fun _ _ _ _ => divideAlike_zero _ _
  | succ n ih =>
    intro nesting nesting' h h'
    obtain ⟨nesting, rfl⟩ := Nat.exists_eq_add_of_le' (Nat.le_trans (Nat.le_add_left 1 n) h)
    obtain ⟨nesting', rfl⟩ := Nat.exists_eq_add_of_le' (Nat.le_trans (Nat.le_add_left 1 n) h')
    have inner := ih nesting nesting' (Nat.le_of_succ_le_succ h) (Nat.le_of_succ_le_succ h')
    exact divideAlike_succ (related_overScripts ht inner)

/-- Slots agree where there are more layers of them than there is room. -/
theorem UserSlots.related_layers (ht : Script.TruthsBuiltin scripts bindings) (beneath : UserSlots)
    {nesting nesting' : Nat} (h : n < nesting) (h' : n < nesting') :
    Related (AgreeWithin n) (layers scripts bindings beneath nesting)
      (ofScripts scripts bindings nesting') := by
  obtain ⟨nesting, rfl⟩ := Nat.exists_eq_add_of_le' (Nat.le_trans (Nat.le_add_left 1 n) h)
  obtain ⟨nesting', rfl⟩ := Nat.exists_eq_add_of_le' (Nat.le_trans (Nat.le_add_left 1 n) h')
  exact related_overScripts ht
    (divideAlike_layers ht beneath n nesting nesting' (Nat.le_of_lt_succ h) (Nat.le_of_lt_succ h'))

/-! ## Slots that run inside themselves -/

theorem UserSlots.layers_ofScripts (scripts : List SlotScripts) (bindings : List (String × Value)) :
    ∀ nesting, layers scripts bindings (ofScripts scripts bindings 0) nesting =
      ofScripts scripts bindings nesting
  | 0 => rfl
  | nesting + 1 =>
    congrArg (overScripts scripts bindings) (layers_ofScripts scripts bindings nesting)

theorem UserSlots.layers_eq_self (h : overScripts scripts bindings user = user) :
    ∀ nesting, layers scripts bindings user nesting = user
  | 0 => rfl
  | nesting + 1 => (congrArg _ (layers_eq_self h nesting)).trans h

/-- Layers of scripts, one more of them than there is room, do what the slots do. -/
def UserSlots.Approximated (scripts : List SlotScripts) (bindings : List (String × Value))
    (user : UserSlots) : Prop :=
  ∀ n, Related (AgreeWithin n) user (ofScripts scripts bindings (n + 1))

namespace UserSlots.Approximated

/-- Slots that layers of scripts do the work of are the same. -/
theorem eq (h : Approximated scripts bindings user) (h' : Approximated scripts bindings user') :
    user = user' := by
  have same {α : Type} {a a' common : Nat → MachineM α} (ha : ∀ n, AgreeWithin n α (a n) (common n))
      (ha' : ∀ n, AgreeWithin n α (a' n) (common n)) (m : Machine) : a m.room m = a' m.room m :=
    (ha m.room m (Nat.le_refl _)).1.trans (ha' m.room m (Nat.le_refl _)).1.symm
  cases user
  cases user'
  congr
  · funext definer lhs rhs m
    exact same (fun n => (h n).divide definer lhs rhs) (fun n => (h' n).divide definer lhs rhs) m
  · funext definer own other m
    exact same (fun n => (h n).coerce definer own other)
      (fun n => (h' n).coerce definer own other) m
  · funext definer value m
    exact same (fun n => (h n).truth definer value) (fun n => (h' n).truth definer value) m

/-- Slots that run inside themselves are such slots. -/
theorem of_overScripts_eq (ht : Script.TruthsBuiltin scripts bindings)
    (h : overScripts scripts bindings user = user) : Approximated scripts bindings user := by
  intro n
  have related := related_layers ht user (Nat.lt_succ_self n) (Nat.lt_succ_self n)
  rwa [layers_eq_self h] at related

/-- Evaluating scripts over such slots gives such slots. -/
theorem overScripts (ht : Script.TruthsBuiltin scripts bindings)
    (h : Approximated scripts bindings user) :
    Approximated scripts bindings (UserSlots.overScripts scripts bindings user) := by
  intro n
  refine related_overScripts ht ?_
  cases n with
  | zero => exact divideAlike_zero _ _
  | succ n => exact divideAlike_succ (h n)

end UserSlots.Approximated

/-- Slots with as many layers of scripts as the machine that they run on has room for, and one
more. -/
def UserSlots.asDeepAsRoom (scripts : List SlotScripts) (bindings : List (String × Value)) :
    UserSlots where
  divide definer lhs rhs := fun m =>
    (ofScripts scripts bindings (m.room + 1)).divide definer lhs rhs m
  coerce definer own other := fun m =>
    (ofScripts scripts bindings (m.room + 1)).coerce definer own other m
  truth definer value := fun m => (ofScripts scripts bindings (m.room + 1)).truth definer value m

theorem UserSlots.approximated_asDeepAsRoom (ht : Script.TruthsBuiltin scripts bindings) :
    Approximated scripts bindings (asDeepAsRoom scripts bindings) := by
  intro n
  have related (m : Machine) (hm : m.room ≤ n) : Related (AgreeWithin m.room)
      (ofScripts scripts bindings (m.room + 1)) (ofScripts scripts bindings (n + 1)) := by
    have := related_layers ht (ofScripts scripts bindings 0) (Nat.lt_succ_self m.room)
      (Nat.lt_succ_of_le hm)
    rwa [layers_ofScripts] at this
  refine ⟨fun definer lhs rhs m hm => ?_, fun definer own other m hm => ?_,
    fun definer value m hm => ?_⟩
  · exact (related m hm).divide definer lhs rhs m (Nat.le_refl _)
  · exact (related m hm).coerce definer own other m (Nat.le_refl _)
  · exact (related m hm).truth definer value m (Nat.le_refl _)

/--
**Scripts that divide again come to an end.**  Let the truth scripts of user types answer with
builtin values.  Then there are slots that evaluate the scripts with themselves as the slots inside,
and they are the only ones.  What divisions and truth tests come to is settled by one layer of
scripts more than there is room for nested divisions: whatever lies beneath so many layers is never
reached, though scripts divide again and again, in one another and after each recursion error that
they catch.
-/
theorem scripts_terminate (ht : Script.TruthsBuiltin scripts bindings) :
    (∃! user, UserSlots.overScripts scripts bindings user = user) ∧
    ∀ (beneath : UserSlots) (m : Machine) (nesting : Nat), m.room < nesting →
      let user := UserSlots.layers scripts bindings beneath nesting
      let enough := UserSlots.ofScripts scripts bindings (m.room + 1)
      (∀ entry lhs rhs, divide user entry lhs rhs m = divide enough entry lhs rhs m ∧
        divideToTruth user entry lhs rhs m = divideToTruth enough entry lhs rhs m ∧
        divideToPending user entry lhs rhs m = divideToPending enough entry lhs rhs m) ∧
      ∀ value, isTrue user value m = isTrue enough value m := by
  constructor
  · have hroom := UserSlots.approximated_asDeepAsRoom ht
    refine ⟨UserSlots.asDeepAsRoom scripts bindings, (hroom.overScripts ht).eq hroom, ?_⟩
    intro user huser
    exact (UserSlots.Approximated.of_overScripts_eq ht huser).eq hroom
  · intro beneath m nesting hn user enough
    have divisions : UserSlots.DivideAlike m.room user enough :=
      UserSlots.divideAlike_layers ht beneath m.room nesting (m.room + 1) (Nat.le_of_lt hn)
        (Nat.le_succ _)
    have slots : UserSlots.Related (AgreeWithin m.room) user enough :=
      UserSlots.related_layers ht beneath hn (Nat.lt_succ_self _)
    refine ⟨fun entry lhs rhs => ?_, fun value => ?_⟩
    · have htruth := (divisions.divideToTruth entry lhs rhs m (Nat.le_refl _)).1
      refine ⟨(divisions.divide entry lhs rhs m (Nat.le_refl _)).1, htruth, ?_⟩
      rw [run_divideToPending, run_divideToPending, htruth]
    · exact ((Parallel.isTrue value).agree slots m (Nat.le_refl _)).1

/-- A type whose slot divides the same operands again and, if that raises, once more before it
answers 7, under a limit of one: what lies beneath two layers of its scripts would be noticed. -/
theorem scripts_terminate_again :
    let type := ObjectType.declare
      { id := .user 0, name := "Again",
        slots := { divide := some (.user 0), truth := some (.user 0) } } (some .object)
    let again : Expr := .divide (.generic .modern) (.operand false) (.operand true)
    let script : SlotScripts :=
      { divide := some (.attempt again .recursionError
          (.attempt again .runtimeError (.object (.int 7))))
        truth := some (.object (.bool true)) }
    let beneath : UserSlots :=
      { divide := fun _ _ _ => throw (.internal "reached")
        coerce := fun _ _ _ => throw (.internal "reached")
        truth := fun _ _ => throw (.internal "reached") }
    let user := UserSlots.layers [script] [] beneath 2
    let m := (newInstance type .none (.start { limits := { maxDepth := some 1 } })).2
    m.room = 1 ∧
      (divide user (.generic .modern) (.ref 0) (.ref 0) m).1.toOption = some (.int 7) ∧
      (divideToTruth user (.generic .modern) (.ref 0) (.ref 0) m).1.toOption = some true ∧
      (isTrue user (.ref 0) m).1.toOption = some true := by
  intro type again script beneath user m
  have ht : Script.TruthsBuiltin [script] [] := by
    intro definer truth htruth nesting value m answer m' hanswer hinstance
    obtain ⟨id, kind, payload, rfl, -⟩ := hinstance
    cases definer with
    | zero =>
      cases htruth
      unfold Expr.eval at hanswer
      cases hanswer
    | succ definer => cases htruth
  obtain ⟨-, hsettled⟩ := scripts_terminate ht
  obtain ⟨hdivide, hvalue⟩ := hsettled beneath m 2 (by decide)
  have htrue := hvalue (.ref 0)
  obtain ⟨hquotient, htruth, -⟩ := hdivide (.generic .modern) (.ref 0) (.ref 0)
  have hroom : m.room = 1 := rfl
  rw [hroom] at hquotient htruth htrue
  refine ⟨hroom, ?_, ?_, ?_⟩
  · rw [hquotient]
    decide +kernel
  · rw [htruth]
    decide +kernel
  · rw [htrue]
    decide +kernel

end FloorDivision
