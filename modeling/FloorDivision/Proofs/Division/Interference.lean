import FloorDivision.Proofs.Division.Program
import FloorDivision.Proofs.Machine.Settles

/-!
# Limits on the heap and tracers do not interfere

* `Machine.alike_start` — new machines of one level and one bound on nesting are alike, whatever
  their limits on the heap and their tracers.
* `Limits.Boundless`, `Machine.unrefused_of_boundless` — limits that no word passes refuse nothing.
* `limits_and_tracing_do_not_interfere` — a program does the same on machines that are alike, as
  long as neither refuses an allocation.
-/

namespace FloorDivision

open MachineM

/-! ## Machines that are alike -/

/-- New machines may differ in their limits on the heap and in their tracers. -/
theorem Machine.alike_start {config config' : Config} (hlevel : config.level = config'.level)
    (hdepth : config.limits.depth = config'.limits.depth) (tracer tracer' : Tracer) :
    (start config tracer).Alike (start config' tracer') where
  level := hlevel
  heap := ⟨rfl, rfl, by
    show (Meter.ofLimits _).maxDepth = (Meter.ofLimits _).maxDepth
    rw [Meter.maxDepth_ofLimits, Meter.maxDepth_ofLimits, hdepth]⟩
  pending := rfl
  depth := rfl
  journal := rfl

/-! ## Machines that refuse nothing -/

theorem Meter.fixed_limits? : Meter.Fixed Meter.limits? := ⟨limits?_charge, limits?_refund⟩

/-- No word passes the limits on the heap. -/
structure Limits.Boundless (limits : Limits) : Prop where
  allocations : ∀ max, limits.maxAllocations = some max → ∀ n, n ≤ max
  memory : ∀ max, limits.maxMemory = some max → ∀ n, n ≤ max

theorem Limits.Boundless.charge_ne_error {limits : Limits} (h : limits.Boundless)
    (allocations liveBytes size : UInt64) (refusal : Refusal) :
    (Meter.counting limits allocations liveBytes).charge size ≠ .error refusal := by
  intro hcharge
  rcases Meter.charge_error_iff.mp hcharge with
    ⟨max, hmax, hpast, _⟩ | ⟨_, max, hmax, hpast, _⟩
  · exact absurd hpast (UInt64.not_lt.mpr (h.allocations max hmax _))
  · exact absurd hpast (UInt64.not_lt.mpr (h.memory max hmax _))

theorem Heap.allocate_ne_error {heap : Heap}
    (h : ∀ limits, heap.budget.limits? = some limits → limits.Boundless) (content : Content)
    (refusal : Refusal) : heap.allocate content ≠ .error refusal := by
  intro hrefused
  cases hbudget : heap.budget with
  | depthOnly =>
    obtain ⟨id, heap', hfilled⟩ := exists_allocate (by rw [hbudget]; rfl) content
    rw [hrefused] at hfilled
    cases hfilled
  | counting limits allocations liveBytes =>
    unfold allocate at hrefused
    split at hrefused
    · rename_i hcharge
      rw [hbudget] at hcharge
      exact (h limits (by rw [hbudget]; rfl)).charge_ne_error _ _ _ _ hcharge
    · split at hrefused
      · cases hrefused
      · cases hrefused

/-- **A machine whose limits no word passes refuses nothing.** -/
theorem Machine.unrefused_of_boundless {m : Machine}
    (h : ∀ limits, m.heap.budget.limits? = some limits → limits.Boundless)
    (operations : List Operation) : m.Unrefused operations := by
  induction operations generalizing m with
  | nil => trivial
  | cons operation rest ih =>
    refine ⟨fun hrefused => ?_, ih ?_⟩
    · cases operation with
      | allocate content =>
        obtain ⟨refusal, hrefused⟩ := hrefused
        exact Heap.allocate_ne_error h content refusal hrefused
      | retain | release | observe | note | setPending | setTracer | enter | leave => exact hrefused
    · rwa [Meter.fixed_limits?.perform]

/-! ## Programs -/

/--
**Limits on the heap and tracers do not interfere.**  New machines of one level and one bound on
nesting are alike.  On machines that are alike a program does the same operations, slots of user
types being called in the same order, and the machines are alike after each of them, as long as
neither has refused an allocation.  If neither does to the end, the program comes to the same.  A
machine without limits refuses nothing.
-/
theorem limits_and_tracing_do_not_interfere {α : Type} {a : MachineM α}
    (ha : Program Machine.Alike a) :
    (∀ (config config' : Config) (tracer tracer' : Tracer), config.level = config'.level →
      config.limits.depth = config'.limits.depth →
        (Machine.start config tracer).Alike (.start config' tracer')) ∧
    ∀ m m' : Machine, m.Alike m' → ∃ operations operations', Runs a m operations ∧
      Runs a m' operations' ∧
      (∀ k, m.Unrefused (operations.take k) → m'.Unrefused (operations'.take k) →
        operations.take k = operations'.take k ∧
          (m.after (operations.take k)).Alike (m'.after (operations'.take k))) ∧
      (m.Unrefused operations → m'.Unrefused operations' →
        operations = operations' ∧ (a m).1 = (a m').1 ∧ (a m).2.Alike (a m').2) ∧
      (m'.heap.budget.limits? = none → m'.Unrefused operations') := by
  refine ⟨fun config config' tracer tracer' hlevel hdepth =>
    Machine.alike_start hlevel hdepth tracer tracer', fun m m' h => ?_⟩
  obtain ⟨operations, operations', hrun, hrun', htogether⟩ :=
    ha.follows Machine.simulation_alike m m' h
  refine ⟨operations, operations', hrun, hrun', ?_, ?_, ?_⟩
  · exact fun k => htogether.take Machine.simulation_alike h k
  · intro hm hm'
    rw [hrun.after, hrun'.after]
    exact htogether.whole hm hm'
  · intro hnone
    refine Machine.unrefused_of_boundless (fun limits hlimits => ?_) operations'
    rw [hnone] at hlimits
    cases hlimits

/-- A type whose slot divides the same operands again and answers 7 if that raises, with an account
and a recording of the last events on one machine and neither on the other. -/
theorem limits_and_tracing_do_not_interfere_recorded :
    let type := ObjectType.declare
      { id := .user 0, name := "Again", slots := { divide := some (.user 0) } } (some .object)
    let again : Expr := .attempt (.divide (.generic .modern) (.operand false) (.operand true))
      .runtimeError (.object (.int 7))
    let user := UserSlots.ofScripts [{ divide := some again }] [] 2
    let a : MachineM Value := do
      let value ← newInstance type .none
      divide user (.generic .modern) value value
    let m := Machine.start { limits := { maxAllocations := some (-1), maxDepth := some 1 } }
      (.recording {})
    let m' := Machine.start { limits := { maxDepth := some 1 } }
    (a m).1 = .ok (.int 7) ∧ (a m').1 = .ok (.int 7) ∧ (a m).2.Alike (a m').2 := by
  intro type again user a m m'
  have hu : user.Programmed Machine.Alike :=
    UserSlots.ofScripts_program Machine.simulation_alike _ _ _
  obtain ⟨hstart, hsame⟩ := limits_and_tracing_do_not_interfere (a := a)
    ((Program.newInstance type .none).bind fun value => .divide _ value value hu)
  obtain ⟨operations, operations', -, -, -, hwhole, hunlimited⟩ :=
    hsame m m' (hstart _ _ _ _ rfl rfl)
  have hm : m.Unrefused operations := by
    refine Machine.unrefused_of_boundless (fun limits hlimits => ?_) operations
    cases hlimits
    refine ⟨fun max hmax n => ?_, fun max hmax => ?_⟩
    · cases hmax
      exact UInt64.le_iff_toNat_le.mpr (Nat.le_of_lt_succ n.toNat_lt)
    · cases hmax
  obtain ⟨-, hresult, halike⟩ := hwhole hm (hunlimited rfl)
  have h : (a m').1 = .ok (.int 7) := rfl
  exact ⟨hresult.trans h, h, halike⟩

end FloorDivision
