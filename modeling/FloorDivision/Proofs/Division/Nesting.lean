import FloorDivision.Proofs.Division.Program

/-!
# How deep divisions nest

* `Machine.Refuses` — no form of a division does anything on a machine but report a failure.
* `depth_divide`, `depth_divideToTruth`, `depth_divideToPending` — a division leaves the nesting as
  deep as it was, whatever the slots of user types do.
* `Machine.refuses_level`, `Machine.refuses_depth` — a machine of another level is refused, and one
  in which divisions are nested to the limit.
* `divisions_nest_within_limit` — what this comes to.
-/

namespace FloorDivision

open MachineM

variable {α : Type} {user : UserSlots} {m : Machine}

/-- Every form of the division reports the failure and leaves the machine as it is; the form that
keeps failures keeps this one. -/
structure Machine.Refuses (m : Machine) (user : UserSlots) (entry : EntryPoint) (lhs rhs : Value)
    (failure : Failure) : Prop where
  divide : divide user entry lhs rhs m = (.error failure, m)
  divideToTruth : divideToTruth user entry lhs rhs m = (.error failure, m)
  divideToPending :
    divideToPending user entry lhs rhs m = (none, { m with pending := some failure })

/-! ## The nesting after a division -/

/-- A program leaves the nesting as deep as it was. -/
theorem Program.depth_eq {R : Machine → Machine → Prop} (hR : Machine.Simulation R)
    {a : MachineM α} (h : Program R a) (m : Machine) : (a m).2.depth = m.depth := by
  obtain ⟨operations, hrun⟩ := h.exists_runs hR m
  exact hrun.depth_eq

theorem depth_divide (hu : user.Programmed (· = ·)) (entry : EntryPoint) (lhs rhs : Value)
    (m : Machine) : (divide user entry lhs rhs m).2.depth = m.depth :=
  Program.depth_eq Machine.simulation_eq (.divide entry lhs rhs hu) m

theorem depth_divideToTruth (hu : user.Programmed (· = ·)) (entry : EntryPoint) (lhs rhs : Value)
    (m : Machine) : (divideToTruth user entry lhs rhs m).2.depth = m.depth :=
  Program.depth_eq Machine.simulation_eq (.divideToTruth entry lhs rhs hu) m

theorem depth_divideToPending (hu : user.Programmed (· = ·)) (entry : EntryPoint)
    (lhs rhs : Value) (m : Machine) : (divideToPending user entry lhs rhs m).2.depth = m.depth := by
  have htruth := depth_divideToTruth hu entry lhs rhs m
  rw [run_divideToPending]
  rcases hrun : divideToTruth user entry lhs rhs m with ⟨e | truth, m'⟩
  · rw [hrun] at htruth
    exact htruth
  · rw [hrun] at htruth
    exact htruth

/-! ## Divisions that are refused -/

/-- What `divideWith` refuses, every form of the division refuses. -/
theorem Machine.Refuses.of_divideWith {entry : EntryPoint} {lhs rhs : Value} {failure : Failure}
    (h : ∀ {α : Type} (native : Quotient → MachineM α) (generic : Value → MachineM α),
      divideWith user entry native generic lhs rhs m = (.error failure, m)) :
    m.Refuses user entry lhs rhs failure := by
  have htruth : FloorDivision.divideToTruth user entry lhs rhs m = (.error failure, m) := h _ _
  refine ⟨h _ _, htruth, ?_⟩
  rw [run_divideToPending, htruth]

/-- A machine of another level is refused. -/
theorem Machine.refuses_level {entry : EntryPoint} (hlevel : m.level ≠ entry.level)
    (user : UserSlots) (lhs rhs : Value) :
    m.Refuses user entry lhs rhs (levelMismatch entry.level m.level) := by
  refine .of_divideWith fun native generic => ?_
  rw [run_divideWith, if_pos hlevel]

/-- A machine in which divisions are nested to the limit is refused. -/
theorem Machine.refuses_depth {entry : EntryPoint} (hlevel : m.level = entry.level)
    (hdepth : m.heap.budget.maxDepth.toNat ≤ m.depth) (user : UserSlots) (lhs rhs : Value) :
    m.Refuses user entry lhs rhs Refusal.depth.failure := by
  have hcheck : m.heap.budget.checkDepth m.depth = .error .depth := if_neg (by omega)
  refine .of_divideWith fun native generic => ?_
  rw [run_divideWith, if_neg (by simp [hlevel]), hcheck]

/-! ## Programs -/

/--
**Divisions nest within the limit.**  Whatever slots of user types do, dividing again and catching
failures included, a division leaves the nesting as deep as it was.  While a program runs on a new
machine, divisions are never nested beyond the limit, whether the heap is counted or not.  A machine
of another level is refused by an internal failure, and one in which divisions are nested to the
limit by a recursion error; either is left as it is.
-/
theorem divisions_nest_within_limit (hu : user.Programmed (· = ·)) (entry : EntryPoint)
    (lhs rhs : Value) :
    (∀ m, (divide user entry lhs rhs m).2.depth = m.depth ∧
      (divideToTruth user entry lhs rhs m).2.depth = m.depth ∧
      (divideToPending user entry lhs rhs m).2.depth = m.depth) ∧
    (∀ {α : Type} {a : MachineM α}, Program (· = ·) a → ∀ (config : Config) (tracer : Tracer),
      (∃ operations, Runs a (.start config tracer) operations) ∧
        ∀ operations, Runs a (.start config tracer) operations →
          (Machine.start config tracer).Throughout
            (fun m => m.heap.budget.maxDepth = config.limits.maxDepth.getD 1000 ∧
              m.depth ≤ (config.limits.maxDepth.getD 1000).toNat) operations) ∧
    (∀ m : Machine, m.level ≠ entry.level →
      ∃ message, m.Refuses user entry lhs rhs (.internal message)) ∧
    ∀ m : Machine, m.level = entry.level → m.depth = m.heap.budget.maxDepth.toNat →
      ∃ raised : Raised, raised.kind = .recursionError ∧
        (Failure.raised raised).isCaughtBy .runtimeError = true ∧
        m.Refuses user entry lhs rhs (.raised raised) := by
  refine ⟨fun m => ?_, fun {α a} ha config tracer => ?_, fun m hlevel => ?_,
    fun m hlevel hdepth => ?_⟩
  · exact ⟨depth_divide hu entry lhs rhs m, depth_divideToTruth hu entry lhs rhs m,
      depth_divideToPending hu entry lhs rhs m⟩
  · refine ⟨ha.exists_runs Machine.simulation_eq _, fun operations hrun before hbefore => ?_⟩
    have hlimit : (Machine.start config tracer).heap.budget.maxDepth =
        config.limits.maxDepth.getD 1000 := Meter.maxDepth_ofLimits config.limits
    refine ⟨?_, hrun.depth_le hlimit (Nat.zero_le _) before hbefore⟩
    rw [Meter.fixed_maxDepth.after, hlimit]
  · exact ⟨_, Machine.refuses_level hlevel user lhs rhs⟩
  · exact ⟨Refusal.depth.exception, rfl, by decide,
      Machine.refuses_depth hlevel (Nat.le_of_eq hdepth.symm) user lhs rhs⟩

/-- A type whose slot divides the same operands again and answers 7 if that raises: under a limit of
one the inner division is refused. -/
theorem divisions_nest_within_limit_caught :
    let type := ObjectType.declare
      { id := .user 0, name := "Again", slots := { divide := some (.user 0) } } (some .object)
    let again : Expr := .attempt (.divide (.generic .modern) (.operand false) (.operand true))
      .runtimeError (.object (.int 7))
    let user := UserSlots.ofScripts [{ divide := some again }] [] 2
    let m := (newInstance type .none (.start { limits := { maxDepth := some 1 } })).2
    user.Programmed (· = ·) ∧
      (divide user (.generic .modern) (.ref 0) (.ref 0) m).1 = .ok (.int 7) ∧
      (divide user (.generic .modern) (.ref 0) (.ref 0) m).2.depth = 0 ∧
      ∃ raised, (m.entered (.generic .modern)).Refuses user (.generic .modern) (.ref 0) (.ref 0)
        (.raised raised) := by
  intro type again user m
  have hu : user.Programmed (· = ·) :=
    UserSlots.ofScripts_program Machine.simulation_eq _ _ _
  obtain ⟨hdepth, -, -, hlimit⟩ :=
    divisions_nest_within_limit hu (.generic .modern) (.ref 0) (.ref 0)
  obtain ⟨raised, -, -, hrefused⟩ := hlimit (m.entered (.generic .modern)) rfl rfl
  exact ⟨hu, rfl, (hdepth m).1, raised, hrefused⟩

end FloorDivision
