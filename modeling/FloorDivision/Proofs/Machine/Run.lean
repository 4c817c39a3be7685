import FloorDivision.Machine.Basic

/-!
# Running computations on a machine

What a computation makes of a machine, one equation for each way to put one together.

* `run_bind` — a failure ends a computation and leaves the machine as it has become;
  `run_bind_ok`, `run_bind_error` are its two halves.
* `run_observe`, `run_release`, `run_newLong` and the like — the steps that a computation is
  made of.
* `Yields` — a property of all results that a computation has, whatever the machine.
-/

namespace FloorDivision

@[simp] theorem Value.isNotImplemented_iff (value : Value) :
    value.isNotImplemented = true ↔ value = .notImplemented := by
  cases value <;> simp [isNotImplemented]

namespace MachineM

variable {α β : Type}

@[simp] theorem run_pure (x : α) (m : Machine) : (pure x : MachineM α) m = (.ok x, m) := rfl

@[simp] theorem run_throw (e : Failure) (m : Machine) :
    (throw e : MachineM α) m = (.error e, m) := rfl

theorem run_bind (a : MachineM α) (f : α → MachineM β) (m : Machine) :
    (a >>= f) m = match a m with
      | (.ok x, m') => f x m'
      | (.error e, m') => (.error e, m') := by
  unfold bind
  simp only [Monad.toBind, ExceptT.instMonad, ExceptT.bind, ExceptT.mk, StateT.bind, bind]
  rcases a m with ⟨_ | _, _⟩ <;> rfl

theorem run_bind_ok {a : MachineM α} {f : α → MachineM β} {m m' : Machine} {x : α}
    (h : a m = (.ok x, m')) : (a >>= f) m = f x m' := by
  rw [run_bind, h]

theorem run_bind_error {a : MachineM α} {f : α → MachineM β} {m m' : Machine} {e : Failure}
    (h : a m = (.error e, m')) : (a >>= f) m = (.error e, m') := by
  rw [run_bind, h]

theorem run_tryCatch (a : MachineM α) (handler : Failure → MachineM α) (m : Machine) :
    (tryCatch a handler) m = match a m with
      | (.ok x, m') => (.ok x, m')
      | (.error e, m') => handler e m' := by
  show ExceptT.tryCatch a handler m = _
  simp only [ExceptT.tryCatch, ExceptT.mk, StateT.bind, bind]
  rcases a m with ⟨_ | _, _⟩ <;> rfl

/-- A computation that looks at the machine. -/
theorem run_get_bind (f : Machine → MachineM β) (m : Machine) :
    ((get : MachineM Machine) >>= f) m = f m m := rfl

@[simp] theorem run_observe (event : Event) (m : Machine) :
    observe event m = (.ok (), m.observe event) := rfl

@[simp] theorem run_release (value : Value) (m : Machine) :
    release value m = (.ok (), m.releaseValue value) := rfl

@[simp] theorem run_retain (value : Value) (m : Machine) :
    retain value m = (.ok value, m.retainValue value) := rfl

@[simp] theorem run_note (call : SlotCall) (m : Machine) :
    note call m = (.ok (), { m with journal := m.journal.push call }) := rfl

theorem run_andThen (a : MachineM α) (cleanUp : Machine → Machine) (m : Machine) :
    a.andThen cleanUp m = ((a m).1, cleanUp (a m).2) := rfl

theorem run_releasing (value : Value) (a : MachineM α) (m : Machine) :
    releasing value a m = ((a m).1, (a m).2.releaseValue value) := rfl

/-- A reference given back in the end is given back before a failure passes and before a result. -/
theorem releasing_eq (value : Value) (a : MachineM α) :
    releasing value a =
      (tryCatch a fun e => release value >>= fun _ => throw e) >>= fun x =>
        release value >>= fun _ => pure x := by
  funext m
  rw [run_releasing, run_bind, run_tryCatch]
  rcases a m with ⟨_ | _, _⟩ <;> rfl

theorem releasingOnFailure_eq (value : Value) (a : MachineM α) :
    releasingOnFailure value a = tryCatch a fun e => release value >>= fun _ => throw e := by
  funext m
  rw [run_tryCatch]
  unfold releasingOnFailure
  rcases a m with ⟨_ | _, _⟩ <;> rfl

theorem run_newLong (n : Int) (m : Machine) :
    newLong n m =
      if m.level = .modern ∧ (Int64.ofInt n).toInt = n then (.ok (.int (.ofInt n)), m)
      else allocate (.long n) m := by
  unfold newLong
  rw [run_get_bind]
  split <;> rfl

/-! ## Results -/

/-- Whenever the computation has a result, the result has the property. -/
def Yields (a : MachineM α) (P : α → Prop) : Prop := ∀ m x, (a m).1 = .ok x → P x

variable {P : α → Prop} {Q : β → Prop}

theorem yields_pure {x : α} (h : P x) : (pure x : MachineM α).Yields P := by
  intro m y hy
  cases hy
  exact h

theorem yields_throw (e : Failure) : (throw e : MachineM α).Yields P := by
  intro m x hx
  cases hx

theorem Yields.bind {a : MachineM α} {f : α → MachineM β} (ha : a.Yields P)
    (hf : ∀ x, P x → (f x).Yields Q) : (a >>= f).Yields Q := by
  intro m y hy
  have first := ha m
  rw [run_bind] at hy
  rcases hrun : a m with ⟨e | x, m'⟩
  · rw [hrun] at hy
    cases hy
  · rw [hrun] at hy first
    exact hf x (first x rfl) m' y hy

/-- Nothing need be known of a first result that the property does not depend on. -/
theorem yields_bind {a : MachineM α} {f : α → MachineM β} (hf : ∀ x, (f x).Yields Q) :
    (a >>= f).Yields Q :=
  Yields.bind (P := fun _ => True) (fun _ _ _ => trivial) fun x _ => hf x

theorem Yields.look {f : Machine → MachineM α} (hf : ∀ m, (f m).Yields P) : (get >>= f).Yields P :=
  fun m => hf m m

theorem Yields.andThen {a : MachineM α} (ha : a.Yields P) (cleanUp : Machine → Machine) :
    (a.andThen cleanUp).Yields P := fun m => ha m

/-- A new integer is never the answer that declines. -/
theorem yields_newLong (n : Int) : (newLong n).Yields (· ≠ .notImplemented) := by
  refine .look fun m => ?_
  split
  · exact yields_pure (by simp)
  · intro m value h
    unfold allocate at h
    split at h
    · cases h
      simp
    · cases h

end MachineM

end FloorDivision
