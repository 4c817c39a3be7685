import FloorDivision.Proofs.Division.Parallel
import FloorDivision.Proofs.Machine.Together
import FloorDivision.Proofs.Script.Evaluation

/-!
# Programs that use a machine

* `Program` — what is done with a machine from outside: values are brought in, counted and given
  back, divided and tested, failures are raised and caught, in any order.  Divisions run slots that
  are such programs themselves, so they may divide again.
* `Program.follows` — a program does the same on machines that it cannot tell apart, up to a refused
  allocation, by one induction over the program and one over the divisions in it.
* `Program.exists_runs` — a program comes to an end after finitely many operations.
* `UserSlots.offered_ofScripts` — what evaluations of scripts have is had by slots that run scripts;
  `UserSlots.ofScripts_program`: scripts are programs.
-/

namespace FloorDivision

open MachineM

variable {α β : Type}

/-- The computation is a slot of the family, called on some operands. -/
inductive UserSlots.Offers (user : UserSlots) : {α : Type} → MachineM α → Prop where
  | divide (definer : Nat) (lhs rhs : Value) : Offers user (user.divide definer lhs rhs)
  | coerce (definer : Nat) (own other : Value) : Offers user (user.coerce definer own other)
  | truth (definer : Nat) (value : Value) : Offers user (user.truth definer value)

/-- What each slot of a family has is had by whatever the family offers. -/
theorem UserSlots.Related.offered {user : UserSlots} {P : (α : Type) → MachineM α → Prop}
    (h : user.Related (fun α a _ => P α a) user) {slot : MachineM α} (hs : user.Offers slot) :
    P α slot := by
  cases hs with
  | divide definer lhs rhs => exact h.divide definer lhs rhs
  | coerce definer own other => exact h.coerce definer own other
  | truth definer value => exact h.truth definer value

/-- **What evaluations of scripts have is had by the slots that scripts offer**, however deep they
nest. -/
theorem UserSlots.offered_ofScripts {P : (α : Type) → MachineM α → Prop}
    (fail : ∀ {α : Type} (e : Failure), P α (throw e))
    (compatible : ∀ {user : UserSlots},
      (∀ {α : Type} {slot : MachineM α}, user.Offers slot → P α slot) →
        Script.Compatible user user fun α a _ => P α a)
    (tested : ∀ {user : UserSlots},
      (∀ {α : Type} {slot : MachineM α}, user.Offers slot → P α slot) →
        ∀ value, P Bool (truthOfOwned user value))
    (scripts : List SlotScripts) (bindings : List (String × Value)) (nesting : Nat)
    {slot : MachineM α} (offered : (ofScripts scripts bindings nesting).Offers slot) :
    P α slot := by
  have related : (ofScripts scripts bindings nesting).Related (fun α a _ => P α a)
      (ofScripts scripts bindings nesting) :=
    related_ofScripts fail (fun h => compatible h.offered) (fun h => tested h.offered) scripts
      bindings nesting
  exact related.offered offered

/-- Programs that look at a machine only for what is the same in machines that are related. -/
inductive Program (Same : Machine → Machine → Prop) : {α : Type} → MachineM α → Prop where
  | answer {α : Type} (x : α) : Program Same (pure x)
  | fail {α : Type} (e : Failure) : Program Same (throw e : MachineM α)
  | bind {α β : Type} {a : MachineM α} {f : α → MachineM β} :
      Program Same a → (∀ x, Program Same (f x)) → Program Same (a >>= f)
  | handle {α : Type} {a : MachineM α} {handler : Failure → MachineM α} :
      Program Same a → (∀ e, Program Same (handler e)) → Program Same (tryCatch a handler)
  | look {α : Type} {f : Machine → MachineM α} :
      (∀ m, Program Same (f m)) → (∀ m m', Same m m' → f m = f m') → Program Same (get >>= f)
  | ofObject (object : Object) : Program Same (ofObject object)
  | newInstance (type : ObjectType) (payload : Value) : Program Same (newInstance type payload)
  | retain (value : Value) : Program Same (retain value)
  | release (value : Value) : Program Same (release value)
  | setPending (failure? : Option Failure) : Program Same (setPending failure?)
  | setTracer (tracer : Tracer) : Program Same (setTracer tracer)
  | divide {user : UserSlots} (entry : EntryPoint) (lhs rhs : Value) :
      (∀ {α : Type} {slot : MachineM α}, user.Offers slot → Program Same slot) →
        Program Same (divide user entry lhs rhs)
  | divideToTruth {user : UserSlots} (entry : EntryPoint) (lhs rhs : Value) :
      (∀ {α : Type} {slot : MachineM α}, user.Offers slot → Program Same slot) →
        Program Same (divideToTruth user entry lhs rhs)
  | isTrue {user : UserSlots} (value : Value) :
      (∀ {α : Type} {slot : MachineM α}, user.Offers slot → Program Same slot) →
        Program Same (isTrue user value)

/-- The slots of user types are programs. -/
def UserSlots.Programmed (Same : Machine → Machine → Prop) (user : UserSlots) : Prop :=
  ∀ {α : Type} {slot : MachineM α}, user.Offers slot → Program Same slot

/-! ## What is done on machines that a program cannot tell apart -/

variable {R : Machine → Machine → Prop}

/-- Divisions run together on related machines if the slots of user types do. -/
theorem Composed.follows (hR : Machine.Simulation R) {raises : Failure → Prop} {user : UserSlots}
    (hu : ∀ {α : Type} {slot : MachineM α}, user.Offers slot → Follows R slot) {a : MachineM α}
    (h : Composed raises user a) : Follows R a := by
  induction h with
  | answer x => exact follows_pure x
  | fail => exact follows_throw _
  | bind _ _ iha ihf => exact iha.bind hR ihf
  | look _ hl ih => exact .look ih fun m m' h => hl m m' (hR.alike h)
  | observe event => exact follows_observe hR event
  | note call => exact follows_note hR call
  | retain value => exact follows_retain hR value
  | release value => exact follows_release hR value
  | newLong n => exact follows_newLong hR n
  | releasing value _ ih => exact ih.releasing hR value
  | releasingBoth first second _ ih => exact ih.releasingBoth hR first second
  | nested _ ih => exact .nested hR ih
  | slotDivide definer lhs rhs => exact hu (.divide definer lhs rhs)
  | slotCoerce definer own other => exact hu (.coerce definer own other)
  | slotTruth definer value => exact hu (.truth definer value)

theorem follows_ofObject (hR : Machine.Simulation R) (object : Object) :
    Follows R (ofObject object) := by
  cases object with
  | long n => exact follows_newLong hR n
  | instanceOf typeName => exact follows_throw _
  | none | notImplemented | bool | int | float => exact follows_pure _

/-- **A program does the same on machines that it cannot tell apart**, up to a refusal. -/
theorem Program.follows (hR : Machine.Simulation R) {a : MachineM α} (h : Program R a) :
    Follows R a := by
  induction h with
  | answer x => exact follows_pure x
  | fail e => exact follows_throw e
  | bind _ _ iha ihf => exact iha.bind hR ihf
  | handle _ _ iha ihh => exact iha.tryCatch hR ihh
  | look _ hl ih => exact .look ih hl
  | ofObject object => exact follows_ofObject hR object
  | newInstance type payload => exact follows_allocate hR _
  | retain value => exact follows_retain hR value
  | release value => exact follows_release hR value
  | setPending failure? => exact follows_setPending hR failure?
  | setTracer tracer => exact follows_setTracer hR tracer
  | divide entry lhs rhs _ ih => exact (Composed.divide entry lhs rhs).follows hR ih
  | divideToTruth entry lhs rhs _ ih => exact (Composed.divideToTruth entry lhs rhs).follows hR ih
  | isTrue value _ ih => exact (Composed.isTrue value).follows hR ih

/-- **A program comes to an end on every machine**, after operations that can be listed. -/
theorem Program.exists_runs (hR : Machine.Simulation R) {a : MachineM α} (h : Program R a)
    (m : Machine) : ∃ operations, Runs a m operations := by
  obtain ⟨operations, _, hrun, _, _⟩ := h.follows hR m m (hR.refl m)
  exact ⟨operations, hrun⟩

/-! ## The failure that is kept -/

namespace Program

variable {Same : Machine → Machine → Prop} {user : UserSlots}

/-- A value that is given back once its truth is known. -/
theorem truthOfOwned (hu : user.Programmed Same) (value : Value) :
    Program Same (truthOfOwned user value) := by
  unfold FloorDivision.truthOfOwned
  rw [releasing_eq]
  refine ((isTrue value hu).handle fun e => ?_).bind fun truth => ?_
  · exact (release value).bind fun _ => fail e
  · exact (release value).bind fun _ => answer truth

theorem map {a : MachineM α} (h : Program Same a) (f : α → β) : Program Same (f <$> a) := by
  rw [map_eq_pure_bind]
  exact h.bind fun x => answer (f x)

/-- A division whose failure is kept for later is one whose failure is caught. -/
theorem divideToPending (hu : user.Programmed Same) (entry : EntryPoint) (lhs rhs : Value) :
    Program Same (liftM (divideToPending user entry lhs rhs) : MachineM (Option Bool)) := by
  have caught :
      (liftM (FloorDivision.divideToPending user entry lhs rhs) : MachineM (Option Bool)) =
      tryCatch (some <$> FloorDivision.divideToTruth user entry lhs rhs) fun e => do
        MachineM.setPending (some e)
        return none := by
    funext m
    show (Except.ok (FloorDivision.divideToPending user entry lhs rhs m).1,
      (FloorDivision.divideToPending user entry lhs rhs m).2) = _
    rw [run_divideToPending, run_tryCatch, map_eq_pure_bind, run_bind]
    rcases FloorDivision.divideToTruth user entry lhs rhs m with ⟨_ | _, _⟩
    · rfl
    · rfl
  rw [caught]
  exact ((divideToTruth entry lhs rhs hu).map some).handle fun e =>
    (setPending _).bind fun _ => answer none

theorem takePending (hS : Machine.Simulation Same) :
    Program Same (liftM takePending : MachineM (Option Failure)) := by
  have taken : (liftM FloorDivision.takePending : MachineM (Option Failure)) =
      get >>= fun m => MachineM.setPending none >>= fun _ => pure m.pending := rfl
  rw [taken]
  exact look (fun m => (setPending none).bind fun _ => answer _) fun m m' h => by
    rw [(hS.alike h).pending]

theorem divideTakingPending (hS : Machine.Simulation Same) (hu : user.Programmed Same)
    (entry : EntryPoint) (lhs rhs : Value) :
    Program Same (divideTakingPending user entry lhs rhs) := by
  refine bind (divideToPending hu entry lhs rhs) fun truth? => ?_
  cases truth? with
  | some truth => exact answer truth
  | none =>
    refine bind (takePending hS) fun failure? => ?_
    cases failure? with
    | some failure => exact fail failure
    | none => exact fail _

end Program

/-! ## Scripts -/

/-- What evaluation puts together are programs. -/
theorem Script.compatible_program {Same : Machine → Machine → Prop} (hS : Machine.Simulation Same)
    {user : UserSlots} (hu : user.Programmed Same) :
    Script.Compatible user user fun _ a _ => Program Same a where
  answer := .answer
  fail := .fail
  bind := .bind
  handle := .handle
  look := fun hf hl => .look hf fun m m' h => hl m m' (hS.alike h)
  retain := .retain
  release := .release
  ofObject := .ofObject
  newInstance := .newInstance
  divide := fun entry lhs rhs => .divide entry lhs rhs hu
  divideTakingPending := fun entry lhs rhs => .divideTakingPending hS hu entry lhs rhs

/-- **Slots that run scripts are programs**, however deep they nest. -/
theorem UserSlots.ofScripts_program {Same : Machine → Machine → Prop}
    (hS : Machine.Simulation Same) (scripts : List SlotScripts) (bindings : List (String × Value))
    (nesting : Nat) : (UserSlots.ofScripts scripts bindings nesting).Programmed Same := by
  intro _ _ offered
  exact offered_ofScripts .fail (fun hu => Script.compatible_program hS hu)
    (fun hu value => .truthOfOwned hu value) scripts bindings nesting offered

end FloorDivision
