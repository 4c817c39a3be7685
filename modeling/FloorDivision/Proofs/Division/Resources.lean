import FloorDivision.Proofs.Division.Program
import FloorDivision.Proofs.Heap.Account

/-!
# Accounts of machines that divide

* `Machine.BytesFit` — the bytes that are asked for never pass what a machine word holds.
* `Machine.accounted_perform`, `Machine.accounted_after` — one operation keeps an exact account, and
  so do any number of them.
* `resources_accounted_exactly` — what this comes to for programs that start on a new machine.
-/

namespace FloorDivision

open MachineM

namespace Machine

variable {m : Machine} {operation : Operation} {operations rest : List Operation}
  {limits : Limits} {n : Nat}

/-- Whenever an allocation is tried, a machine word holds the live bytes and those of the
content. -/
def BytesFit (m : Machine) (operations : List Operation) : Prop :=
  ∀ before content, before ++ [.allocate content] <+: operations →
    (m.after before).heap.liveBytes + content.bytes < UInt64.size

theorem BytesFit.of_prefix {before : List Operation} (h : m.BytesFit operations)
    (hbefore : before <+: operations) : m.BytesFit before :=
  fun first content hfirst => h first content (hfirst.trans hbefore)

theorem bytesFit_nil (m : Machine) : m.BytesFit [] := by
  intro before content hbefore
  simp at hbefore

theorem bytesFit_cons :
    m.BytesFit (operation :: rest) ↔
      (∀ content, operation = .allocate content →
        m.heap.liveBytes + content.bytes < UInt64.size) ∧ (operation.perform m).BytesFit rest := by
  constructor
  · intro h
    refine ⟨?_, fun before content hbefore => ?_⟩
    · rintro content rfl
      exact h [] content (List.prefix_append [Operation.allocate content] rest)
    · exact h (operation :: before) content (List.prefix_cons_inj operation |>.mpr hbefore)
  · rintro ⟨hfirst, hrest⟩ before content hbefore
    cases before with
    | nil =>
      obtain ⟨hsame, _⟩ := List.cons_prefix_cons.mp hbefore
      exact hfirst content hsame.symm
    | cons first before =>
      obtain ⟨rfl, hlater⟩ := List.cons_prefix_cons.mp hbefore
      exact hrest before content hlater

/-- **One operation keeps the account exact.** -/
theorem accounted_perform (h : m.heap.Accounted limits n)
    (hfit : ∀ content, operation = .allocate content →
      m.heap.liveBytes + content.bytes < UInt64.size) :
    (operation.perform m).heap.Accounted limits (n + (operation.fills m).toNat) := by
  cases operation with
  | allocate content =>
    rw [show (Operation.allocate content).fills m = (m.heap.allocate content).isOk from rfl]
    cases ha : m.heap.allocate content with
    | error refusal =>
      show (allocate content m).2.heap.Accounted limits n
      rw [run_allocate_error ha]
      exact h
    | ok filled =>
      obtain ⟨id, heap⟩ := filled
      show (allocate content m).2.heap.Accounted limits (n + 1)
      rw [run_allocate_ok ha]
      exact h.allocate (hfit content rfl) ha
  | retain value =>
    cases value with
    | ref id => exact h.retain id
    | none | notImplemented | bool | int | float => exact h
  | release value =>
    cases value with
    | ref id => exact h.releaseLoop _ id
    | none | notImplemented | bool | int | float => exact h
  | observe | note | setPending | setTracer | enter | leave => exact h

/-- **Any number of operations keep the account exact.** -/
theorem accounted_after (h : m.heap.Accounted limits n) (hfit : m.BytesFit operations) :
    (m.after operations).heap.Accounted limits (n + m.allocations operations) := by
  induction operations generalizing m n with
  | nil => exact h
  | cons operation rest ih =>
    obtain ⟨hfirst, hrest⟩ := bytesFit_cons.mp hfit
    rw [after_cons, allocations, ← Nat.add_assoc]
    exact ih (accounted_perform h hfirst) hrest

/-- A new machine with a limit on its heap has an exact account. -/
theorem accounted_start {config : Config} (tracer : Tracer)
    (hlimits : config.limits.boundHeap = true) :
    (start config tracer).heap.Accounted config.limits 0 := by
  have hmeter : Meter.ofLimits config.limits = .counting config.limits 0 0 := if_pos hlimits
  unfold start
  rw [hmeter]
  exact Heap.accounted_empty config.limits

end Machine

/-! ## Programs -/

/--
**The account of a machine with a limit on its heap is exact** while a program runs on it, at every
point between two operations and after each cell that a release frees.  It counts the allocations so
far and the bytes of the live cells, and both are within the limits.  An allocation is refused if it
would leave the limits, the number being looked at first, and then the machine stays as it was.
-/
theorem resources_accounted_exactly {α : Type} (config : Config) (tracer : Tracer)
    (hlimits : config.limits.boundHeap = true) {a : MachineM α} (ha : Program (· = ·) a) :
    (∃ operations, Runs a (.start config tracer) operations) ∧
      ∀ operations, Runs a (.start config tracer) operations →
        (Machine.start config tracer).BytesFit operations → ∀ before, before <+: operations →
          let m := (Machine.start config tracer).after before
          let count := (Machine.start config tracer).allocations before
          (∀ rounds id, (m.heap.releaseLoop rounds id).Accounted config.limits count ∧
            ∀ freed cell, (m.heap.releaseLoop rounds id).cell? freed = some cell →
              cell.content.bytes ≤ (m.heap.releaseLoop rounds id).liveBytes) ∧
          ∀ content, m.heap.liveBytes + content.bytes < UInt64.size →
            ((∃ refusal, m.heap.allocate content = .error refusal) ↔
              ¬config.limits.Within (.ofNat (count + 1)) (m.heap.liveBytes + content.bytes)) ∧
            ((∃ max tried, m.heap.allocate content = .error (.allocations max tried)) ↔
              ∃ max, config.limits.maxAllocations = some max ∧ max < .ofNat (count + 1)) ∧
            ∀ refusal, m.heap.allocate content = .error refusal →
              allocate content m = (.error refusal.failure, m) := by
  refine ⟨ha.exists_runs Machine.simulation_eq _, fun operations _ hfit before hbefore => ?_⟩
  have hexact := Machine.accounted_after (Machine.accounted_start tracer hlimits)
    (hfit.of_prefix hbefore)
  rw [Nat.zero_add] at hexact
  refine ⟨fun rounds id => ⟨hexact.releaseLoop rounds id, fun freed cell hcell => ?_⟩,
    fun content hcontent => ⟨hexact.refused_iff hcontent, ?_, fun refusal hrefused =>
      run_allocate_error hrefused⟩⟩
  · have hsum := Heap.liveBytes_discard hcell
    omega
  · constructor
    · rintro ⟨max, tried, hrefused⟩
      rcases (hexact.allocate_error_iff hcontent).mp hrefused with
        ⟨limit, hlimit, hpast, _⟩ | ⟨_, _, _, _, hother⟩
      · exact ⟨limit, hlimit, hpast⟩
      · cases hother
    · rintro ⟨max, hmax, hpast⟩
      exact ⟨max, _, (hexact.allocate_error_iff hcontent).mpr (Or.inl ⟨max, hmax, hpast, rfl⟩)⟩

/-- Of two instances under a limit of one the second is refused, and the first one's bytes stay. -/
theorem resources_accounted_exactly_refused :
    let content : Content := .instanceOf .object .none
    let m := (Machine.start { limits := { maxAllocations := some 1 } }).after [.allocate content]
    m.heap.Accounted { maxAllocations := some 1 } 1 ∧ m.heap.liveBytes = 24 ∧
      ∃ refusal, m.heap.allocate content = .error refusal ∧
        allocate content m = (.error refusal.failure, m) := by
  intro content m
  have hrun : Runs (newInstance .object .none >>= fun _ => newInstance .object .none)
      (.start { limits := { maxAllocations := some 1 } })
      [.allocate content, .allocate content] := by
    rw [bind_eq_resume]
    exact .resume (.single _ (.allocate content)) (.single _ (.allocate content))
  have hfit : (Machine.start { limits := { maxAllocations := some 1 } }).BytesFit
      [.allocate content, .allocate content] := by
    refine Machine.bytesFit_cons.mpr ⟨?_, Machine.bytesFit_cons.mpr ⟨?_, Machine.bytesFit_nil _⟩⟩
    · rintro tried ⟨⟩
      decide
    · rintro tried ⟨⟩
      decide
  obtain ⟨-, hexact⟩ := resources_accounted_exactly { limits := { maxAllocations := some 1 } }
    .silent rfl ((Program.newInstance .object .none).bind fun _ => .newInstance .object .none)
  obtain ⟨hrounds, hnext⟩ := hexact _ hrun hfit [.allocate content] (List.prefix_append _ _)
  obtain ⟨hrefused, -, hsame⟩ := hnext content (by decide)
  obtain ⟨refusal, h⟩ := hrefused.mpr fun hwithin => absurd (hwithin.allocations 1 rfl) (by decide)
  exact ⟨(hrounds 0 0).1, by decide, refusal, h, hsame refusal h⟩

end FloorDivision
