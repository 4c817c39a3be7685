import FloorDivision.Proofs.Division.Parallel
import FloorDivision.Proofs.Division.Entering
import FloorDivision.Proofs.Script.Evaluation

/-!
# Computations that take no notice of the tracer

* `MachineM.outcome` — the result of a computation and the machine after it, tracer left out.
* `MachineM.Blind` — the outcome is the same whatever tracer there is.
* `Composed.blind` — a division is blind if the slots of user types are, in every division that
  runs inside them too.
* `UserSlots.ofScripts_blind` — slots that run scripts are blind.
-/

namespace FloorDivision

open MachineM

variable {α β : Type}

@[simp] theorem Machine.untraced_depth (m : Machine) : m.untraced.depth = m.depth := rfl

/-- What a computation comes to, the tracer left out. -/
def MachineM.outcome (a : MachineM α) (m : Machine) : Except Failure α × Machine :=
  ((a m).1, (a m).2.untraced)

/-- The tracer has no influence on what the computation comes to. -/
def MachineM.Blind (a : MachineM α) : Prop := ∀ m, a.outcome m.untraced = a.outcome m

/-- The slots of user types take no notice of the tracer. -/
structure UserSlots.Blind (user : UserSlots) : Prop where
  divide : ∀ definer lhs rhs, (user.divide definer lhs rhs).Blind
  coerce : ∀ definer own other, (user.coerce definer own other).Blind
  truth : ∀ definer value, (user.truth definer value).Blind

namespace MachineM

theorem outcome_eq {a : MachineM α} {m m' : Machine} {r : Except Failure α} (h : a m = (r, m')) :
    a.outcome m = (r, m'.untraced) := by
  unfold outcome
  rw [h]

theorem Blind.congr {a : MachineM α} (h : a.Blind) {m n : Machine} (hmn : m.untraced = n.untraced) :
    a.outcome m = a.outcome n := by
  rw [← h m, hmn, h n]

/-- The outcome of two computations in turn depends on the outcome of the first only. -/
theorem outcome_bind {a : MachineM α} {f : α → MachineM β} (hf : ∀ x, (f x).Blind) (m : Machine) :
    (a >>= f).outcome m = match a.outcome m with
      | (.ok x, m') => (f x).outcome m'
      | (.error e, m') => (.error e, m') := by
  unfold outcome
  rw [run_bind]
  rcases a m with ⟨e | x, m'⟩
  · rfl
  · exact (hf x m').symm

theorem blind_pure (x : α) : (pure x : MachineM α).Blind := fun _ => rfl

theorem blind_throw (e : Failure) : (throw e : MachineM α).Blind := fun _ => rfl

theorem Blind.bind {a : MachineM α} {f : α → MachineM β} (ha : a.Blind) (hf : ∀ x, (f x).Blind) :
    (a >>= f).Blind := by
  intro m
  rw [outcome_bind hf, outcome_bind hf, ha m]

theorem Blind.look {f : Machine → MachineM α} (hf : ∀ m, (f m).Blind)
    (hu : ∀ m, f m.untraced = f m) : (get >>= f).Blind := by
  intro m
  show (f m.untraced).outcome m.untraced = (f m).outcome m
  rw [hu, hf m m]

theorem blind_observe (event : Event) : (observe event).Blind := fun _ => rfl

theorem blind_note (call : SlotCall) : (note call).Blind := fun _ => rfl

theorem blind_retain (value : Value) : (retain value).Blind := fun _ => rfl

theorem blind_release (value : Value) : (release value).Blind := fun _ => rfl

theorem blind_allocate (content : Content) : (allocate content).Blind := by
  intro m
  unfold outcome allocate
  rw [Machine.untraced_heap]
  split
  · rfl
  · rfl

theorem blind_newLong (n : Int) : (newLong n).Blind := by
  refine Blind.look (fun m => ?_) fun m => by rw [Machine.untraced_level]
  split
  · exact blind_pure _
  · exact blind_allocate _

/-- Tidying up is blind if it treats machines alike that differ in their tracers only. -/
theorem Blind.andThen {a : MachineM α} {cleanUp : Machine → Machine} (ha : a.Blind)
    (hc : ∀ m, (cleanUp m.untraced).untraced = (cleanUp m).untraced) :
    (a.andThen cleanUp).Blind := by
  intro m
  have h := ha m
  unfold outcome at h ⊢
  obtain ⟨hr, hm⟩ := Prod.mk.inj h
  rw [run_andThen, run_andThen]
  refine Prod.ext hr ?_
  show (cleanUp (a m.untraced).2).untraced = (cleanUp (a m).2).untraced
  rw [← hc, hm, hc]

theorem blind_enter : enter.Blind := by
  intro m
  unfold outcome enter
  rw [Machine.untraced_heap, Machine.untraced_depth]
  split
  · rfl
  · rfl

theorem blind_tryCatch {a : MachineM α} {handler : Failure → MachineM α} (ha : a.Blind)
    (hh : ∀ e, (handler e).Blind) : (tryCatch a handler).Blind := by
  have run : ∀ m, (tryCatch a handler).outcome m = match a.outcome m with
      | (.ok x, m') => (.ok x, m')
      | (.error e, m') => (handler e).outcome m' := by
    intro m
    unfold outcome
    rw [run_tryCatch]
    rcases a m with ⟨e | x, m'⟩
    · exact (hh e m').symm
    · rfl
  intro m
  rw [run, run, ha m]

end MachineM

/-! ## Divisions -/

namespace Composed

variable {raises : Failure → Prop} {user : UserSlots}

/-- **A division takes no notice of the tracer if the slots of user types do not.** -/
theorem blind (hu : user.Blind) {a : MachineM α} (h : Composed raises user a) : a.Blind := by
  induction h with
  | answer x => exact blind_pure x
  | fail => exact blind_throw _
  | bind _ _ iha ihf => exact iha.bind ihf
  | look _ hl ih => exact Blind.look ih fun m => hl _ _ m.alike_untraced
  | observe event => exact blind_observe event
  | note call => exact blind_note call
  | retain value => exact blind_retain value
  | release value => exact blind_release value
  | newLong n => exact blind_newLong n
  | releasing value _ ih => exact ih.andThen fun _ => rfl
  | releasingBoth first second _ ih => exact ih.andThen fun _ => rfl
  | nested _ ih => exact blind_enter.bind fun depth => (ih depth).andThen fun _ => rfl
  | slotDivide definer lhs rhs => exact hu.divide definer lhs rhs
  | slotCoerce definer own other => exact hu.coerce definer own other
  | slotTruth definer value => exact hu.truth definer value

/-- What calls no slots of user types takes no notice of the tracer. -/
theorem blind_of_forall {a : MachineM α} (h : ∀ user, Composed raises user a) : a.Blind := by
  have declining : UserSlots.declining.Blind :=
    ⟨fun _ _ _ => blind_pure _, fun _ _ _ => blind_pure _, fun _ _ => blind_pure _⟩
  exact (h .declining).blind declining

end Composed

/-! ## Scripts -/

section Scripts

variable {user : UserSlots}

theorem blind_divideTakingPending (hu : user.Blind) (entry : EntryPoint) (lhs rhs : Value) :
    (divideTakingPending user entry lhs rhs).Blind := by
  have run : ∀ m, (divideTakingPending user entry lhs rhs).outcome m =
      match (divideToTruth user entry lhs rhs).outcome m with
      | (.ok truth, m') => (.ok truth, m')
      | (.error e, m') => (.error e, { m' with pending := none }) := by
    intro m
    unfold outcome
    rw [run_divideTakingPending]
    rcases divideToTruth user entry lhs rhs m with ⟨_ | _, m'⟩
    · rfl
    · rfl
  intro m
  rw [run, run, (Composed.divideToTruth entry lhs rhs).blind hu m]

theorem blind_ofObject (object : Object) : (ofObject object).Blind := by
  cases object with
  | long n => exact blind_newLong n
  | instanceOf typeName => exact blind_throw _
  | none | notImplemented | bool | int | float => exact blind_pure _

/-- Evaluation keeps computations blind. -/
theorem Script.compatible_blind (hu : user.Blind) :
    Script.Compatible user user fun _ a _ => a.Blind where
  answer := blind_pure
  fail := blind_throw
  bind := Blind.bind
  handle := blind_tryCatch
  look := fun hf hl => .look hf fun m => hl _ _ m.alike_untraced
  retain := blind_retain
  release := blind_release
  ofObject := blind_ofObject
  newInstance := fun _ _ => blind_allocate _
  divide := fun entry lhs rhs => (Composed.divide entry lhs rhs).blind hu
  divideTakingPending := blind_divideTakingPending hu

end Scripts

/-- **Slots that run scripts take no notice of the tracer**, however deep they nest. -/
theorem UserSlots.ofScripts_blind (scripts : List SlotScripts) (bindings : List (String × Value))
    (nesting : Nat) : (UserSlots.ofScripts scripts bindings nesting).Blind := by
  have slots : ∀ {user : UserSlots}, user.Related (fun _ a _ => a.Blind) user → user.Blind :=
    fun h => ⟨h.divide, h.coerce, h.truth⟩
  exact slots (related_ofScripts blind_throw (fun h => Script.compatible_blind (slots h))
    (fun h value => (Composed.truthOfOwned value).blind (slots h)) scripts bindings nesting)

end FloorDivision
