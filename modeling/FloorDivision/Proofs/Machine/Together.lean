import FloorDivision.Proofs.Machine.Alike
import FloorDivision.Proofs.Machine.Operation

/-!
# Two machines on which the same is done

* `Machine.Simulation` — a relation between machines that every operation keeps, unless it is an
  allocation that one of them refuses.
* `Machine.Together` — the operations on two machines are the same, one by one, up to such a refusal
  if there is one.
* `MachineM.Follows` — a computation runs together on related machines.  `Follows.resume` and
  `Follows.nested` put such computations together.
-/

namespace FloorDivision

variable {α β : Type}

/-! ## Relations that operations keep -/

/-- A relation between machines that are alike, kept by operations that neither machine refuses. -/
structure Machine.Simulation (R : Machine → Machine → Prop) : Prop where
  refl : ∀ m, R m m
  alike : ∀ {m m' : Machine}, R m m' → m.Alike m'
  perform : ∀ {m m' : Machine} {operation : Operation}, R m m' →
    ¬operation.Refused m → ¬operation.Refused m' → R (operation.perform m) (operation.perform m')

namespace Operation

variable {m : Machine} {content : Content}

/-- An allocation that is not refused fills a cell. -/
theorem exists_allocate (h : ¬(allocate content).Refused m) :
    ∃ id heap, m.heap.allocate content = .ok (id, heap) := by
  cases ha : m.heap.allocate content with
  | error refusal => exact absurd ⟨refusal, ha⟩ h
  | ok filled => exact ⟨filled.1, filled.2, rfl⟩

end Operation

theorem MachineM.run_allocate_ok {m : Machine} {content : Content} {id : Nat} {heap : Heap}
    (h : m.heap.allocate content = .ok (id, heap)) :
    allocate content m = (.ok (.ref id), { m with heap }) := by
  unfold allocate
  rw [h]

theorem MachineM.run_allocate_error {m : Machine} {content : Content} {refusal : Refusal}
    (h : m.heap.allocate content = .error refusal) :
    allocate content m = (.error refusal.failure, m) := by
  unfold allocate
  rw [h]

namespace Machine

theorem simulation_eq : Simulation (· = ·) where
  refl := fun _ => rfl
  alike := fun {m _} h => h ▸ .refl m
  perform := fun {_ _ operation} h _ _ => congrArg operation.perform h

/-- **Operations keep machines alike** as long as neither machine refuses one. -/
theorem simulation_alike : Simulation Alike where
  refl := .refl
  alike := id
  perform := fun {m m' operation} h hm hm' => by
    cases operation with
    | allocate content =>
      obtain ⟨id, heap, ha⟩ := Operation.exists_allocate hm
      obtain ⟨id', heap', ha'⟩ := Operation.exists_allocate hm'
      show Alike (MachineM.allocate content m).2 (MachineM.allocate content m').2
      rw [MachineM.run_allocate_ok ha, MachineM.run_allocate_ok ha']
      exact ⟨h.level, (h.heap.allocate ha ha').2, h.pending, h.depth, h.journal⟩
    | retain value => exact ⟨h.level, h.heap.retainValue value, h.pending, h.depth, h.journal⟩
    | release value => exact ⟨h.level, h.heap.releaseValue value, h.pending, h.depth, h.journal⟩
    | observe | setTracer => exact ⟨h.level, h.heap, h.pending, h.depth, h.journal⟩
    | note call =>
      exact ⟨h.level, h.heap, h.pending, h.depth, congrArg (Array.push · call) h.journal⟩
    | setPending => exact ⟨h.level, h.heap, rfl, h.depth, h.journal⟩
    | enter => exact ⟨h.level, h.heap, h.pending, congrArg (· + 1) h.depth, h.journal⟩
    | leave => exact ⟨h.level, h.heap, h.pending, congrArg (· - 1) h.depth, h.journal⟩

/-! ## The same operations on two machines -/

/-- The same is done on two machines, after which something holds of them; or it is the same up to
an allocation that one of them refuses. -/
inductive Together (End : Machine → Machine → Prop) :
    Machine → Machine → List Operation → List Operation → Prop where
  | done {m m' : Machine} : End m m' → Together End m m' [] []
  | step {m m' : Machine} {operation : Operation} {rest rest' : List Operation} :
      ¬operation.Refused m → ¬operation.Refused m' →
        Together End (operation.perform m) (operation.perform m') rest rest' →
        Together End m m' (operation :: rest) (operation :: rest')
  | refused {m m' : Machine} {operation : Operation} {rest rest' : List Operation} :
      operation.Refused m ∨ operation.Refused m' →
        Together End m m' (operation :: rest) (operation :: rest')

variable {R End End' : Machine → Machine → Prop} {m m' : Machine}
  {first first' rest rest' operations operations' : List Operation}

theorem Together.append (h : Together End m m' first first')
    (hrest : End (m.after first) (m'.after first') →
      Together End' (m.after first) (m'.after first') rest rest') :
    Together End' m m' (first ++ rest) (first' ++ rest') := by
  induction h with
  | done hend => exact hrest hend
  | step hm hm' _ ih => exact .step hm hm' (ih hrest)
  | refused hrefused => exact .refused hrefused

/-- One operation more at the end. -/
theorem Together.single {operation : Operation}
    (h : ¬operation.Refused m → ¬operation.Refused m' →
      End (operation.perform m) (operation.perform m')) :
    Together End m m' [operation] [operation] := by
  by_cases hm : operation.Refused m
  · exact .refused (Or.inl hm)
  by_cases hm' : operation.Refused m'
  · exact .refused (Or.inr hm')
  exact .step hm hm' (.done (h hm hm'))

/-- **Up to the first refusal the same has been done**, and the machines are still related. -/
theorem Together.take (h : Together End m m' operations operations') (hR : Simulation R)
    (hm : R m m') (k : Nat) (hk : m.Unrefused (operations.take k))
    (hk' : m'.Unrefused (operations'.take k)) :
    operations.take k = operations'.take k ∧
      R (m.after (operations.take k)) (m'.after (operations'.take k)) := by
  induction h generalizing k with
  | done =>
    rw [List.take_nil]
    exact ⟨rfl, hm⟩
  | step hop hop' _ ih =>
    cases k with
    | zero => exact ⟨rfl, hm⟩
    | succ k =>
      obtain ⟨htake, hafter⟩ := ih (hR.perform hm hop hop') k hk.2 hk'.2
      exact ⟨congrArg (List.cons _) htake, hafter⟩
  | refused hrefused =>
    cases k with
    | zero => exact ⟨rfl, hm⟩
    | succ k =>
      rcases hrefused with hrefused | hrefused
      · exact absurd hrefused hk.1
      · exact absurd hrefused hk'.1

/-- Without a refusal the same is done to the end. -/
theorem Together.whole (h : Together End m m' operations operations')
    (hm : m.Unrefused operations) (hm' : m'.Unrefused operations') :
    operations = operations' ∧ End (m.after operations) (m'.after operations') := by
  induction h with
  | done hend => exact ⟨rfl, hend⟩
  | step _ _ _ ih =>
    obtain ⟨hrest, hend⟩ := ih hm.2 hm'.2
    exact ⟨congrArg _ hrest, hend⟩
  | refused hrefused =>
    rcases hrefused with hrefused | hrefused
    · exact absurd hrefused hm.1
    · exact absurd hrefused hm'.1

end Machine

/-! ## Computations that run together -/

namespace MachineM

variable {R : Machine → Machine → Prop}

/-- On related machines the computation does the same and comes to the same, up to a refusal; the
machines are related again then. -/
def Follows (R : Machine → Machine → Prop) (a : MachineM α) : Prop :=
  ∀ m m', R m m' → ∃ operations operations', Runs a m operations ∧ Runs a m' operations' ∧
    Machine.Together (fun e e' => (a m).1 = (a m').1 ∧ R e e') m m' operations operations'

theorem follows_pure (x : α) : Follows R (pure x) := fun m m' h =>
  ⟨[], [], .answer x m, .answer x m', .done ⟨rfl, h⟩⟩

theorem follows_throw (e : Failure) : Follows R (throw e : MachineM α) := fun m m' h =>
  ⟨[], [], .fail e m, .fail e m', .done ⟨rfl, h⟩⟩

/-- What is looked for is the same in both machines. -/
theorem Follows.look {f : Machine → MachineM α} (hf : ∀ m, Follows R (f m))
    (hsame : ∀ m m', R m m' → f m = f m') : Follows R (get >>= f) := by
  intro m m' h
  obtain ⟨operations, operations', hrun, hrun', htogether⟩ := hf m m m' h
  have hf' := hsame m m' h
  refine ⟨operations, operations', .look hrun, .look (hf' ▸ hrun'), ?_⟩
  rw [run_get_bind, run_get_bind, ← hf']
  exact htogether

theorem Follows.resume (hR : Machine.Simulation R) {a : MachineM α}
    {next : Except Failure α → MachineM β} (ha : Follows R a) (hn : ∀ r, Follows R (next r)) :
    Follows R (a.resume next) := by
  intro m m' h
  obtain ⟨first, first', hrun, hrun', htogether⟩ := ha m m' h
  by_cases hend : (a m).1 = (a m').1 ∧ R (a m).2 (a m').2
  · obtain ⟨rest, rest', hrest, hrest', hafter⟩ := hn (a m).1 (a m).2 (a m').2 hend.2
    refine ⟨first ++ rest, first' ++ rest', .resume hrun hrest, .resume hrun' (hend.1 ▸ hrest'), ?_⟩
    refine htogether.append fun _ => ?_
    unfold MachineM.resume
    rw [← hrun.after, ← hrun'.after, ← hend.1]
    exact hafter
  -- After a refusal the rest is whatever it is on either machine.
  · obtain ⟨rest, _, hrest, _⟩ := hn (a m).1 (a m).2 (a m).2 (hR.refl _)
    obtain ⟨rest', _, hrest', _⟩ := hn (a m').1 (a m').2 (a m').2 (hR.refl _)
    refine ⟨first ++ rest, first' ++ rest', .resume hrun hrest, .resume hrun' hrest', ?_⟩
    refine htogether.append fun hsame => absurd ?_ hend
    rwa [hrun.after, hrun'.after]

/-- Both machines let a division in or neither does. -/
theorem Follows.nested (hR : Machine.Simulation R) {a : Nat → MachineM α}
    (ha : ∀ depth, Follows R (a depth)) :
    Follows R (do let depth ← enter; leaving (a depth)) := by
  intro m m' h
  have hcheck := (hR.alike h).checkDepth
  cases hdepth : m.heap.budget.checkDepth m.depth with
  | error refusal =>
    rw [hdepth] at hcheck
    refine ⟨[], [], .tooDeep hdepth, .tooDeep hcheck.symm, .done ⟨?_, h⟩⟩
    rw [run_nested_error hdepth, run_nested_error hcheck.symm]
  | ok =>
    rw [hdepth] at hcheck
    have hin : R (Operation.enter.perform m) (Operation.enter.perform m') := hR.perform h id id
    have hsame : m.depth = m'.depth := (hR.alike h).depth
    obtain ⟨inner, inner', hrun, hrun', htogether⟩ := ha (m.depth + 1) _ _ hin
    refine ⟨.enter :: inner ++ [.leave], .enter :: inner' ++ [.leave], .nested hdepth hrun,
      .nested hcheck.symm (hsame ▸ hrun'), .step id id (htogether.append fun hend => ?_)⟩
    rw [run_nested hdepth, run_nested hcheck.symm, ← hsame]
    exact Machine.Together.single fun hm hm' => ⟨hend.1, hR.perform hend.2 hm hm'⟩

/-! ## Single operations -/

theorem follows_allocate (hR : Machine.Simulation R) (content : Content) :
    Follows R (allocate content) := by
  intro m m' h
  refine ⟨_, _, .single m (.allocate content), .single m' (.allocate content),
    .single fun hm hm' => ?_⟩
  refine ⟨?_, hR.perform h hm hm'⟩
  obtain ⟨id, heap, ha⟩ := Operation.exists_allocate hm
  obtain ⟨id', heap', ha'⟩ := Operation.exists_allocate hm'
  rw [run_allocate_ok ha, run_allocate_ok ha', ((hR.alike h).heap.allocate ha ha').1]

/-- An operation that is never refused and always comes to the same. -/
theorem Performs.follows (hR : Machine.Simulation R) {a : MachineM α} {operation : Operation}
    {result : Except Failure α} (ha : Performs a operation) (hresult : ∀ m, (a m).1 = result) :
    Follows R a := fun m m' h =>
  ⟨[operation], [operation], .single m ha, .single m' ha, .single fun hm hm' =>
    ⟨(hresult m).trans (hresult m').symm, hR.perform h hm hm'⟩⟩

theorem follows_retain (hR : Machine.Simulation R) (value : Value) : Follows R (retain value) :=
  Performs.follows hR (.retain value) fun _ => rfl

theorem follows_release (hR : Machine.Simulation R) (value : Value) : Follows R (release value) :=
  Performs.follows hR (.release value) fun _ => rfl

theorem follows_observe (hR : Machine.Simulation R) (event : Event) : Follows R (observe event) :=
  Performs.follows hR (.observe event) fun _ => rfl

theorem follows_note (hR : Machine.Simulation R) (call : SlotCall) : Follows R (note call) :=
  Performs.follows hR (.note call) fun _ => rfl

theorem follows_setPending (hR : Machine.Simulation R) (failure? : Option Failure) :
    Follows R (setPending failure?) :=
  Performs.follows hR (.setPending failure?) fun _ => rfl

theorem follows_setTracer (hR : Machine.Simulation R) (tracer : Tracer) :
    Follows R (setTracer tracer) :=
  Performs.follows hR (.setTracer tracer) fun _ => rfl

theorem follows_newLong (hR : Machine.Simulation R) (n : Int) : Follows R (newLong n) := by
  refine .look (fun m => ?_) fun _ _ h => by rw [(hR.alike h).level]
  split
  · exact follows_pure _
  · exact follows_allocate hR _

/-! ## One computation after another -/

theorem bind_eq_resume (a : MachineM α) (f : α → MachineM β) :
    a >>= f = a.resume fun r => match r with
      | .ok x => f x
      | .error e => throw e := by
  funext m
  rw [run_bind]
  unfold resume
  rcases a m with ⟨_ | _, _⟩ <;> rfl

theorem tryCatch_eq_resume (a : MachineM α) (handler : Failure → MachineM α) :
    tryCatch a handler = a.resume fun r => match r with
      | .ok x => pure x
      | .error e => handler e := by
  funext m
  rw [run_tryCatch]
  unfold resume
  rcases a m with ⟨_ | _, _⟩ <;> rfl

theorem Follows.bind (hR : Machine.Simulation R) {a : MachineM α} {f : α → MachineM β}
    (ha : Follows R a) (hf : ∀ x, Follows R (f x)) : Follows R (a >>= f) := by
  rw [bind_eq_resume]
  refine ha.resume hR fun r => ?_
  cases r with
  | ok x => exact hf x
  | error e => exact follows_throw e

theorem Follows.tryCatch (hR : Machine.Simulation R) {a : MachineM α}
    {handler : Failure → MachineM α} (ha : Follows R a) (hh : ∀ e, Follows R (handler e)) :
    Follows R (tryCatch a handler) := by
  rw [tryCatch_eq_resume]
  refine ha.resume hR fun r => ?_
  cases r with
  | ok x => exact follows_pure x
  | error e => exact hh e

theorem Follows.releasing (hR : Machine.Simulation R) (value : Value) {a : MachineM α}
    (ha : Follows R a) : Follows R (releasing value a) := by
  rw [releasing_eq]
  refine (ha.tryCatch hR fun e => ?_).bind hR fun x => ?_
  · exact (follows_release hR value).bind hR fun _ => follows_throw e
  · exact (follows_release hR value).bind hR fun _ => follows_pure x

theorem Follows.releasingBoth (hR : Machine.Simulation R) (first second : Value) {a : MachineM α}
    (ha : Follows R a) : Follows R (releasingBoth first second a) :=
  (ha.releasing hR first).releasing hR second

end MachineM

end FloorDivision
