import FloorDivision.Budget

/-!
# What a meter does

* `charge_cases` — a charge that is not refused adds to both counts and stays within both bounds.
* `charge_error_iff` — when a charge is refused and how; the number of allocations is looked at
  first.
* `maxDepth_ofLimits`, `maxDepth_charge`, `maxDepth_refund` — the bound on nesting is the one of the
  limits and stays the same.
-/

namespace FloorDivision.Meter

variable {limits : Limits} {allocations liveBytes size : UInt64} {meter meter' : Meter}

theorem filter_lt_eq_none {limit? : Option UInt64} {n : UInt64}
    (h : limit?.filter (· < n) = none) : ∀ max, limit? = some max → n ≤ max := by
  rintro max rfl
  rw [Option.filter_some] at h
  split at h
  · cases h
  · rename_i hlt
    simpa using hlt

theorem filter_lt_eq_some {limit? : Option UInt64} {n limit : UInt64}
    (h : limit?.filter (· < n) = some limit) : limit? = some limit ∧ limit < n := by
  obtain ⟨hsome, hlt⟩ := Option.filter_eq_some_iff.mp h
  exact ⟨hsome, of_decide_eq_true hlt⟩

/-- A charge that is not refused is counted, and neither bound is passed then. -/
theorem charge_cases (h : (counting limits allocations liveBytes).charge size = .ok meter') :
    meter' = .counting limits (allocations + 1) (liveBytes + size) ∧
      (∀ max, limits.maxAllocations = some max → allocations + 1 ≤ max) ∧
      ∀ max, limits.maxMemory = some max → liveBytes + size ≤ max := by
  unfold charge at h
  dsimp only at h
  split at h
  · cases h
  · cases h
  · rename_i hcount hused
    cases h
    exact ⟨rfl, filter_lt_eq_none hcount, filter_lt_eq_none hused⟩

/-- **When a charge is refused**: the allocation would be one too many or, if it would not, the
bytes would be too many. -/
theorem charge_error_iff {refusal : Refusal} :
    (counting limits allocations liveBytes).charge size = .error refusal ↔
      (∃ max, limits.maxAllocations = some max ∧ max < allocations + 1 ∧
        refusal = .allocations max (allocations + 1)) ∨
      ((∀ max, limits.maxAllocations = some max → allocations + 1 ≤ max) ∧
        ∃ max, limits.maxMemory = some max ∧ max < liveBytes + size ∧
          refusal = .memory max (liveBytes + size)) := by
  unfold charge
  dsimp only
  split
  · rename_i limit hcount
    obtain ⟨hsome, hlt⟩ := filter_lt_eq_some hcount
    constructor
    · intro h
      cases h
      exact Or.inl ⟨limit, hsome, hlt, rfl⟩
    · rintro (⟨max, hmax, _, rfl⟩ | ⟨hwithin, _⟩)
      · rw [hsome] at hmax
        cases hmax
        rfl
      · exact absurd hlt (UInt64.not_lt.mpr (hwithin limit hsome))
  · rename_i limit hcount hused
    obtain ⟨hsome, hlt⟩ := filter_lt_eq_some hused
    have hwithin := filter_lt_eq_none hcount
    constructor
    · intro h
      cases h
      exact Or.inr ⟨hwithin, limit, hsome, hlt, rfl⟩
    · rintro (⟨max, hmax, hpast, _⟩ | ⟨_, max, hmax, _, rfl⟩)
      · exact absurd hpast (UInt64.not_lt.mpr (hwithin max hmax))
      · rw [hsome] at hmax
        cases hmax
        rfl
  · rename_i hcount hused
    constructor
    · intro h
      cases h
    · rintro (⟨max, hmax, hpast, _⟩ | ⟨_, max, hmax, hpast, _⟩)
      · exact absurd hpast (UInt64.not_lt.mpr (filter_lt_eq_none hcount max hmax))
      · exact absurd hpast (UInt64.not_lt.mpr (filter_lt_eq_none hused max hmax))

/-- The bound on nesting is the same whether the heap is counted or not. -/
theorem maxDepth_ofLimits (limits : Limits) : (ofLimits limits).maxDepth = limits.depth := by
  unfold ofLimits
  split
  · rfl
  · rfl

theorem maxDepth_charge (h : meter.charge size = .ok meter') :
    meter'.maxDepth = meter.maxDepth := by
  cases meter with
  | depthOnly =>
    cases h
    rfl
  | counting limits allocations liveBytes =>
    obtain ⟨rfl, _⟩ := charge_cases h
    rfl

@[simp] theorem maxDepth_refund (size : UInt64) (meter : Meter) :
    (meter.refund size).maxDepth = meter.maxDepth := by
  cases meter <;> rfl

end FloorDivision.Meter
