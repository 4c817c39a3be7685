import FloorDivision.Proofs.Division.Parallel

/-!
# What divisions leave as it is

* `Machine.Lasting` — a part of a machine that no step of a division changes: how deep it is
  nested, the failure that is kept for later.
* `Composed.keeps` — a division keeps such a part if the slots of user types do.
-/

namespace FloorDivision

open MachineM

variable {α β : Type}

/-- A part of the machine that has to do with neither heap, tracer nor journal, and that is the same
again once a nested division is left. -/
structure Machine.Lasting (part : Machine → β) : Prop where
  heap : ∀ (m : Machine) heap, part { m with heap } = part m
  tracer : ∀ (m : Machine) tracer, part { m with tracer } = part m
  journal : ∀ (m : Machine) journal, part { m with journal } = part m
  nested : ∀ m m' : Machine, part m' = part { m with depth := m.depth + 1 } → part m'.left = part m

theorem Machine.lasting_depth : Machine.Lasting Machine.depth where
  heap := fun _ _ => rfl
  tracer := fun _ _ => rfl
  journal := fun _ _ => rfl
  nested := fun m m' h => by
    show m'.depth - 1 = m.depth
    rw [h]
    rfl

theorem Machine.lasting_pending : Machine.Lasting Machine.pending where
  heap := fun _ _ => rfl
  tracer := fun _ _ => rfl
  journal := fun _ _ => rfl
  nested := fun _ _ h => h

/-- A computation leaves a part of the machine as it is. -/
def MachineM.Keeps (part : Machine → β) (a : MachineM α) : Prop := ∀ m, part (a m).2 = part m

/-- The slots of user types leave a part of the machine as it is. -/
structure UserSlots.Keeps (user : UserSlots) (part : Machine → β) : Prop where
  divide : ∀ definer lhs rhs, (user.divide definer lhs rhs).Keeps part
  coerce : ∀ definer own other, (user.coerce definer own other).Keeps part
  truth : ∀ definer value, (user.truth definer value).Keeps part

namespace MachineM

variable {γ : Type} {part : Machine → γ}

theorem keeps_pure (x : α) : (pure x : MachineM α).Keeps part := fun _ => rfl

theorem keeps_throw (e : Failure) : (throw e : MachineM α).Keeps part := fun _ => rfl

theorem Keeps.bind {a : MachineM α} {f : α → MachineM β} (ha : a.Keeps part)
    (hf : ∀ x, (f x).Keeps part) : (a >>= f).Keeps part := by
  intro m
  have first := ha m
  rw [run_bind]
  rcases hrun : a m with ⟨e | x, m'⟩
  · rwa [hrun] at first
  · rw [hrun] at first
    exact (hf x m').trans first

theorem Keeps.look {f : Machine → MachineM α} (hf : ∀ m, (f m).Keeps part) :
    (get >>= f).Keeps part := fun m => hf m m

theorem keeps_newLong (hp : ∀ (m : Machine) heap, part { m with heap } = part m) (n : Int) :
    (newLong n).Keeps part := by
  intro m
  rw [run_newLong]
  split
  · rfl
  · unfold allocate
    split
    · exact hp m _
    · rfl

end MachineM

/-- **A division keeps what its steps and the slots keep.** -/
theorem Composed.keeps {raises : Failure → Prop} {user : UserSlots} {part : Machine → β}
    (hp : Machine.Lasting part) (hu : user.Keeps part) {a : MachineM α}
    (h : Composed raises user a) : a.Keeps part := by
  induction h with
  | answer x => exact keeps_pure x
  | fail => exact keeps_throw _
  | bind _ _ iha ihf => exact iha.bind ihf
  | look _ _ ih => exact .look ih
  | observe event => exact fun m => hp.tracer m _
  | note call => exact fun m => hp.journal m _
  | retain value => exact fun m => hp.heap m _
  | release value => exact fun m => hp.heap m _
  | newLong n => exact keeps_newLong hp.heap n
  | releasing value _ ih => exact fun m => (hp.heap _ _).trans (ih m)
  | releasingBoth first second _ ih =>
    exact fun m => (hp.heap _ _).trans ((hp.heap _ _).trans (ih m))
  | @nested _ a _ ih =>
    intro m
    rw [run_bind]
    unfold enter
    cases m.heap.budget.checkDepth m.depth with
    | error => rfl
    | ok => exact hp.nested m _ (ih _ _)
  | slotDivide definer lhs rhs => exact hu.divide definer lhs rhs
  | slotCoerce definer own other => exact hu.coerce definer own other
  | slotTruth definer value => exact hu.truth definer value

end FloorDivision
