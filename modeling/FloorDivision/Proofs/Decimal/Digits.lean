import FloorDivision.Proofs.Decimal.Value
import FloorDivision.Proofs.Number.Nearest

/-!
# Seventeen digits are enough

* `roundQuanta_eq_of_abs_sub_lt` — what is nearer to a magnitude than half a step rounds to it; a
  power of two has finer steps below it.
* `readsBack_seventeen` — on the grid of seventeen digits every magnitude is read back.
* `Decimal.exists_first_grid` — the shortest digits are those of the first grid that has any.
* `Decimal.shortest_digits_le` — the shortest digits of a magnitude are at most seventeen, so the
  exact decimal is never called for.
-/

namespace FloorDivision

/-! ## What rounds to a magnitude -/

theorem roundDiv_eq_of_abs_sub_lt {n d m : Nat} (hd : 0 < d)
    (h : |(m : ℚ) - n / d| < 1 / 2) : roundDiv n d = m := by
  by_contra hne
  have hapart := one_le_abs_sub_add_abs_sub (x := (n : ℚ) / d) hne
  have := abs_roundDiv_sub_le n hd
  linarith

/-- A multiple of the step at a fraction is what the fraction rounds to, if it is near enough. -/
theorem roundQuanta_eq_of_step {n d m s : Nat} (hd : 0 < d) (hs : spacing (n / d) = s)
    (h : |((m <<< s : Nat) : ℚ) - n / d| < 2 ^ s / 2) : roundQuanta n d = m <<< s := by
  have hstep : (0 : ℚ) < 2 ^ s := by positivity
  rw [abs_shiftLeft_sub n _ _ hd] at h
  have hnear : |(m : ℚ) - n / (d <<< s : Nat)| < 1 / 2 := by
    rw [show (2 : ℚ) ^ s / 2 = 1 / 2 * 2 ^ s by ring] at h
    exact lt_of_mul_lt_mul_right h hstep.le
  simp only [roundQuanta, hs, roundDiv_eq_of_abs_sub_lt (shiftLeft_pos s hd) hnear]

theorem spacing_eq {q s : Nat} (hlow : s = 0 ∨ 2 ^ (s + 52) ≤ q) (hhigh : q < 2 ^ (s + 53)) :
    spacing q = s := by
  have hle : s ≤ spacing q := by
    rcases hlow with rfl | hlow
    · omega
    · exact le_spacing hlow
  by_contra hne
  have hreach := two_pow_spacing_le (q := q) (by omega)
  have hpow : 2 ^ (s + 53) ≤ 2 ^ (spacing q + 52) := Nat.pow_le_pow_right (by omega) (by omega)
  omega

/-- How many steps a magnitude is. -/
theorem exists_steps {q : Nat} (hq : Representable q) :
    ∃ m, q = m * 2 ^ spacing q ∧ m < 2 ^ 53 ∧ (spacing q = 0 ∨ 2 ^ 52 ≤ m) := by
  have hreach : spacing q = 0 ∨ 2 ^ (spacing q + 52) ≤ q := by
    by_cases h : spacing q = 0
    · exact Or.inl h
    · exact Or.inr (two_pow_spacing_le h)
  obtain ⟨m, hm⟩ := exists_eq_shiftLeft hq hreach
  have hless := lt_two_pow_spacing q
  generalize spacing q = s at *
  subst hm
  rw [Nat.shiftLeft_eq] at *
  rw [Nat.add_comm, Nat.pow_add] at hless
  refine ⟨m, rfl, Nat.lt_of_mul_lt_mul_right hless, hreach.imp_right fun hle => ?_⟩
  rw [Nat.add_comm, Nat.pow_add] at hle
  exact Nat.le_of_mul_le_mul_right hle (Nat.two_pow_pos s)

theorem div_lt_of_cast {n d k : Nat} (hd : 0 < d) (h : (n : ℚ) / d < k) : n / d < k := by
  have hd' : (0 : ℚ) < d := by exact_mod_cast hd
  rw [div_lt_iff₀ hd'] at h
  exact (Nat.div_lt_iff_lt_mul hd).mpr (by exact_mod_cast h)

theorem le_div_of_cast {n d k : Nat} (hd : 0 < d) (h : (k : ℚ) ≤ (n : ℚ) / d) : k ≤ n / d := by
  have hd' : (0 : ℚ) < d := by exact_mod_cast hd
  rw [le_div_iff₀ hd'] at h
  exact (Nat.le_div_iff_mul_le hd).mpr (by exact_mod_cast h)

/-- What is within half a step of so many steps is as many when it is rounded; from below, `2 ^ 52`
steps have to be within a quarter of one, the next finer step. -/
theorem roundQuanta_of_steps {n d m s : Nat} (hd : 0 < d) (hm53 : m < 2 ^ 53)
    (hm52 : s = 0 ∨ 2 ^ 52 ≤ m) (h : |(m : ℚ) * 2 ^ s - n / d| < 2 ^ s / 2)
    (hpower : m = 2 ^ 52 → (m : ℚ) * 2 ^ s - n / d < 2 ^ s / 4) : roundQuanta n d = m <<< s := by
  have hstep : (0 : ℚ) < 2 ^ s := by positivity
  have hnear := abs_lt.mp h
  have habove : n / d < 2 ^ (s + 53) := by
    have hm' : (m : ℚ) + 1 ≤ 2 ^ 53 := by exact_mod_cast hm53
    have hscaled := mul_le_mul_of_nonneg_right hm' hstep.le
    apply div_lt_of_cast hd
    push_cast
    rw [pow_add]
    linarith
  by_cases hbelow : s = 0 ∨ 2 ^ (s + 52) ≤ n / d
  · -- the fraction has the step of the magnitude
    exact roundQuanta_eq_of_step hd (spacing_eq hbelow habove) (by rwa [cast_shiftLeft])
  · -- the magnitude is a power of two and the fraction has the finer step below it
    obtain ⟨h0, hlow⟩ := not_or.mp hbelow
    have hmeq : m = 2 ^ 52 := by
      by_contra hne
      have hm' : (2 : ℚ) ^ 52 + 1 ≤ m := by
        exact_mod_cast (show 2 ^ 52 + 1 ≤ m by omega)
      have hscaled := mul_le_mul_of_nonneg_right hm' hstep.le
      apply hlow
      apply le_div_of_cast hd
      push_cast
      rw [pow_add]
      linarith
    obtain ⟨t, rfl⟩ : ∃ t, s = t + 1 := ⟨s - 1, by omega⟩
    have hquarter := hpower hmeq
    have hcast : (m : ℚ) = 2 ^ 52 := by rw [hmeq]; norm_num
    have hpos : (0 : ℚ) < 2 ^ t := by positivity
    rw [hcast, pow_succ (2 : ℚ) t] at hquarter
    have hq : m <<< (t + 1) = 2 ^ 53 <<< t := by
      rw [hmeq, Nat.add_comm, Nat.shiftLeft_add]
      rfl
    have hless : (n : ℚ) / d < 2 ^ 53 * 2 ^ t := by
      have hceil : (n : ℚ) / d < (2 ^ (t + 1 + 52) : Nat) := by
        by_contra hge
        exact hlow (le_div_of_cast hd (not_lt.mp hge))
      push_cast at hceil
      calc (n : ℚ) / d < 2 ^ (t + 1 + 52) := hceil
        _ = 2 ^ 53 * 2 ^ t := by ring
    have hspacing : spacing (n / d) = t := by
      refine spacing_eq (Or.inr (le_div_of_cast hd ?_)) (div_lt_of_cast hd ?_)
      · push_cast
        rw [pow_add]
        linarith
      · push_cast
        rw [pow_add]
        linarith
    rw [hq]
    refine roundQuanta_eq_of_step hd hspacing ?_
    rw [cast_shiftLeft, abs_lt]
    push_cast
    constructor <;> linarith

/-- **What is nearer to a magnitude than half a step rounds to it**; below a power of two it has to
be nearer than a quarter of one. -/
theorem roundQuanta_eq_of_abs_sub_lt {n d q : Nat} (hd : 0 < d) (hq : Representable q)
    (h : |(q : ℚ) - n / d| < 2 ^ spacing q / 2)
    (hpower : q = 2 ^ (spacing q + 52) → (q : ℚ) - n / d < 2 ^ spacing q / 4) :
    roundQuanta n d = q := by
  obtain ⟨m, hm, hm53, hm52⟩ := exists_steps hq
  generalize spacing q = s at *
  subst hm
  push_cast at h hpower
  rw [← Nat.shiftLeft_eq]
  refine roundQuanta_of_steps hd hm53 hm52 h fun hmeq => hpower ?_
  rw [hmeq, Nat.add_comm, Nat.pow_add]

namespace Decimal

/-! ## The number of digits -/

variable {q : Nat}

theorem lt_ten_pow_digitCount (n : Nat) : n < 10 ^ digitCount n :=
  (Nat.length_repr_le_iff Nat.length_repr_pos).mp (Nat.le_refl _)

theorem digitCount_eq {n k : Nat} (hk : 0 < k) (hlow : 10 ^ k ≤ n) (hhigh : n < 10 ^ (k + 1)) :
    digitCount n = k + 1 :=
  Nat.le_antisymm ((Nat.length_repr_le_iff (Nat.succ_pos k)).mpr hhigh)
    (Nat.lt_of_not_le fun hle => Nat.not_lt.mpr hlow ((Nat.length_repr_le_iff hk).mp hle))

theorem quantumScale_pos : 0 < quantumScale := by
  rw [quantumScale_eq]
  exact Nat.pow_pos (by omega)

/-- Counted in `10 ^ -1074`, the least magnitude has more than seventeen digits. -/
theorem seventeen_le_digitCount (h0 : q ≠ 0) : 17 ≤ digitCount (q * quantumScale) := by
  by_contra hless
  have hsmall : q * quantumScale < 10 ^ 16 :=
    (Nat.length_repr_le_iff (by omega)).mp (show digitCount (q * quantumScale) ≤ 16 by omega)
  have hscale : 10 ^ 16 ≤ quantumScale := by
    rw [quantumScale_eq]
    calc 10 ^ 16 ≤ 5 ^ 23 := by norm_num
      _ ≤ 5 ^ quantumPlaces := Nat.pow_le_pow_right (by omega) (by decide)
  have := Nat.le_mul_of_pos_left quantumScale (Nat.pos_of_ne_zero h0)
  omega

/-- The step of the grid of seventeen digits. -/
theorem step_mul_le (h0 : q ≠ 0) :
    10 ^ (digitCount (q * quantumScale) - 17) * 10 ^ 16 ≤ q * quantumScale := by
  have hsize := seventeen_le_digitCount h0
  rw [← Nat.pow_add]
  by_contra hless
  have : digitCount (q * quantumScale) ≤ digitCount (q * quantumScale) - 17 + 16 :=
    (Nat.length_repr_le_iff (by omega)).mpr (Nat.lt_of_not_le hless)
  omega

/-- On the grid of seventeen digits the nearest neighbour is off by one part in `2 * 10 ^ 16`. -/
theorem abs_sub_seventeen_le {step : Nat} (hstep : 0 < step)
    (h : step * 10 ^ 16 ≤ q * quantumScale) :
    |(q : ℚ) - (roundDiv (q * quantumScale) step * step : Nat) / quantumScale| ≤
      q / (2 * 10 ^ 16) := by
  have hscale : (0 : ℚ) < quantumScale := by exact_mod_cast quantumScale_pos
  have hstep' : (0 : ℚ) < step := by exact_mod_cast hstep
  have hround := abs_roundDiv_sub_le (q * quantumScale) hstep
  have hfine : (step : ℚ) * 10 ^ 16 ≤ q * quantumScale := by exact_mod_cast h
  generalize roundDiv (q * quantumScale) step = digits at *
  generalize quantumScale = scale at *
  have hscaled : (q : ℚ) - (digits * step : Nat) / scale =
      -(digits - (q * scale : Nat) / step) * (step / scale) := by
    push_cast
    field_simp
    ring
  rw [hscaled, abs_mul, abs_neg, abs_of_pos (div_pos hstep' hscale)]
  calc |(digits : ℚ) - (q * scale : Nat) / step| * (step / scale) ≤ 1 / 2 * (step / scale) := by
        gcongr
    _ ≤ 1 / 2 * (q / 10 ^ 16) := by
        have hpart : (step : ℚ) / scale ≤ q / 10 ^ 16 := by
          rw [div_le_div_iff₀ hscale (by norm_num)]
          exact hfine
        gcongr
    _ = q / (2 * 10 ^ 16) := by ring

/-- **On the grid of seventeen digits every magnitude is read back.** -/
theorem readsBack_seventeen (hq : Representable q) {step : Nat} (hstep : 0 < step)
    (h : step * 10 ^ 16 ≤ q * quantumScale) :
    readsBack q step (roundDiv (q * quantumScale) step) = true := by
  have hnear := abs_sub_seventeen_le hstep h
  have hless : (q : ℚ) < 2 ^ spacing q * 2 ^ 53 := by
    rw [← pow_add]
    exact_mod_cast lt_two_pow_spacing q
  have hstep2 : (0 : ℚ) < 2 ^ spacing q := by positivity
  refine beq_iff_eq.mpr (roundQuanta_eq_of_abs_sub_lt quantumScale_pos hq ?_ ?_)
  · refine lt_of_le_of_lt hnear ?_
    rw [div_lt_div_iff₀ (by norm_num) (by norm_num)]
    linarith
  · intro hpower
    have hq' : (q : ℚ) = 2 ^ spacing q * 2 ^ 52 := by
      rw [← pow_add]
      exact_mod_cast hpower
    refine lt_of_le_of_lt ((le_abs_self _).trans hnear) ?_
    rw [div_lt_div_iff₀ (by norm_num) (by norm_num)]
    linarith

theorem onGrid?_seventeen (hq : Representable q) {places : Nat}
    (h : 10 ^ places * 10 ^ 16 ≤ q * quantumScale) : onGrid? q places ≠ none := by
  have hback := readsBack_seventeen hq (Nat.pow_pos (by omega)) h
  have hdigits : gridDigits? q (10 ^ places) =
      some (roundDiv (q * quantumScale) (10 ^ places)) := by
    simp only [gridDigits?, hback, if_true]
  simp only [onGrid?, Nat.pow_eq, hdigits, Option.map_some]
  exact Option.some_ne_none _

/-- The digits on a grid are at most as many as its steps below the magnitude, and one. -/
theorem gridDigits?_le {step digits k : Nat} (hstep : 0 < step)
    (h : gridDigits? q step = some digits) (hk : q * quantumScale < k * step) : digits ≤ k := by
  have hfloor : q * quantumScale / step < k := (Nat.div_lt_iff_lt_mul hstep).mpr hk
  have hround := roundDiv_le_succ (q * quantumScale) step
  simp only [gridDigits?] at h
  split_ifs at h with hnearest hside hother hother
  all_goals cases h
  · omega
  · have := (Nat.le_div_iff_mul_le hstep).mpr hside
    omega
  · omega

theorem trimZeros_digits_le (fuel : Nat) (d : Decimal) : (trimZeros fuel d).digits ≤ d.digits := by
  induction fuel generalizing d with
  | zero => exact Nat.le_refl _
  | succ fuel ih =>
    unfold trimZeros
    split
    · exact (ih _).trans (Nat.div_le_self _ _)
    · exact Nat.le_refl _

/-- What the grids of one digit to seventeen give for a magnitude of the given size. -/
def onGrids (q size : Nat) : Decimal :=
  ((List.range 17).findSome? fun i => onGrid? q (size - (i + 1))).getD (exact q)

theorem shortest_eq (h0 : q ≠ 0) : shortest q = onGrids q (digitCount (q * quantumScale)) := by
  simp only [shortest, h0, if_false, onGrids]

theorem exists_first {α : Type} {f : Nat → Option α} {n : Nat} {x : α}
    (h : (List.range n).findSome? f = some x) : ∃ i < n, f i = some x ∧ ∀ j < i, f j = none := by
  obtain ⟨before, i, after, hsplit, hi, hbefore⟩ := List.findSome?_eq_some_iff.mp h
  have hlength : before.length < n := by
    have := congrArg List.length hsplit
    simp at this
    omega
  have hnth : ∀ j < n, (before ++ i :: after)[j]? = some j := by
    intro j hj
    rw [← hsplit]
    simp [hj]
  have hplace : i = before.length := by
    have := hnth before.length hlength
    simp at this
    exact this
  refine ⟨i, by omega, hi, fun j hj => hbefore j ?_⟩
  have hj := hnth j (by omega)
  rw [List.getElem?_append_left (by omega)] at hj
  exact List.mem_of_getElem? hj

/-- **The shortest digits are found on the first grid that has a point which reads back**, at most
the seventeenth, and are no more than the digits of that grid. -/
theorem exists_first_grid (hq : Representable q) (h0 : q ≠ 0) :
    ∃ i < 17, ∃ g,
      gridDigits? q (10 ^ (digitCount (q * quantumScale) - (i + 1))) = some g ∧
      g ≤ 10 ^ (i + 1) ∧
      shortest q = trimZeros 17
        ⟨g, ((digitCount (q * quantumScale) - (i + 1) : Nat) : Int) - 1074⟩ ∧
      ∀ j < i, gridDigits? q (10 ^ (digitCount (q * quantumScale) - (j + 1))) = none := by
  rw [shortest_eq h0]
  have hfine := step_mul_le h0
  have hsize := seventeen_le_digitCount h0
  have hbelow := lt_ten_pow_digitCount (q * quantumScale)
  generalize digitCount (q * quantumScale) = size at *
  unfold onGrids
  cases hfound : (List.range 17).findSome? fun i => onGrid? q (size - (i + 1)) with
  | none =>
    have hlast : onGrid? q (size - 17) = none :=
      List.findSome?_eq_none_iff.mp hfound 16 (List.mem_range.mpr (Nat.lt_succ_self 16))
    exact absurd hlast (onGrid?_seventeen hq hfine)
  | some d =>
    obtain ⟨i, hi, hgrid, hbefore⟩ := exists_first hfound
    obtain ⟨g, hg, rfl⟩ := Option.map_eq_some_iff.mp hgrid
    rw [Nat.pow_eq] at hg
    have hsplit : 10 ^ size = 10 ^ (i + 1) * 10 ^ (size - (i + 1)) := by
      rw [← Nat.pow_add, Nat.add_sub_cancel' (by omega)]
    rw [hsplit] at hbelow
    refine ⟨i, hi, g, hg, gridDigits?_le (Nat.pow_pos (by omega)) hg hbelow, rfl, fun j hj => ?_⟩
    exact Option.map_eq_none_iff.mp (hbefore j hj)

/-- **The shortest digits of a magnitude are at most seventeen.** -/
theorem shortest_digits_le (hq : Representable q) : (shortest q).digits ≤ 10 ^ 17 := by
  by_cases h0 : q = 0
  · simp [shortest, h0]
  · obtain ⟨i, hi, g, -, hg, hshortest, -⟩ := exists_first_grid hq h0
    rw [hshortest]
    exact (trimZeros_digits_le _ _).trans (hg.trans (Nat.pow_le_pow_right (by omega) hi))

end Decimal

end FloorDivision
