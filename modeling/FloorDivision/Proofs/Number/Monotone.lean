import FloorDivision.Proofs.Number.Nearest

/-!
# Rounding keeps the order

* `roundDiv_mono`, `roundQuanta_mono` — a greater fraction is not rounded to a lesser magnitude.
* `roundQuanta_le`, `le_roundQuanta` — rounding does not pass a magnitude that a finite double has.
* `roundQuanta_eq_of_between` — what lies between a magnitude and a fraction that rounds to it
  rounds to it as well.
-/

namespace FloorDivision

variable {n d n' d' q : Nat}

/-- Fractions in order have whole parts in order. -/
theorem div_le_div_of_cast (hd' : 0 < d') (h : (n : ℚ) / d ≤ n' / d') :
    n / d ≤ n' / d' := by
  have hfloor : ((n / d : Nat) : ℚ) ≤ (n : ℚ) / d := Nat.cast_div_le
  have hreach := hfloor.trans h
  rw [le_div_iff₀ (by exact_mod_cast hd')] at hreach
  rw [Nat.le_div_iff_mul_le hd']
  exact_mod_cast hreach

/-- **The nearest natural number keeps the order**, and ties do not break it. -/
theorem roundDiv_mono (hd : 0 < d) (hd' : 0 < d') (h : (n : ℚ) / d ≤ n' / d') :
    roundDiv n d ≤ roundDiv n' d' := by
  by_contra hless
  have hstep : (roundDiv n' d' : ℚ) + 1 ≤ roundDiv n d := by
    exact_mod_cast (Nat.lt_of_not_le hless)
  -- the two are less than one apart, unless both are ties and so both even
  rcases abs_roundDiv_sub_cases n hd with hnear | ⟨htie, heven⟩
  · have hnear' := abs_roundDiv_sub_le n' hd'
    have := (abs_lt.mp hnear).2
    have := (abs_le.mp hnear').1
    linarith
  · rcases abs_roundDiv_sub_cases n' hd' with hnear' | ⟨htie', heven'⟩
    · have := (abs_le.mp htie.le).2
      have := (abs_lt.mp hnear').1
      linarith
    · have hupper := (abs_le.mp htie.le).2
      have hlower := (abs_le.mp htie'.le).1
      have hnext : (roundDiv n d : ℚ) = roundDiv n' d' + 1 := by linarith
      have : roundDiv n d = roundDiv n' d' + 1 := by exact_mod_cast hnext
      omega

theorem spacing_mono (h : n ≤ n') : spacing n ≤ spacing n' := by
  unfold spacing
  by_cases hn : n = 0
  · subst hn
    simp
  · have := Nat.log2_self_le hn
    have := (Nat.le_log2 (by omega)).mpr (this.trans h)
    omega

/-- **Rounding keeps the order.** -/
theorem roundQuanta_mono (hd : 0 < d) (hd' : 0 < d') (h : (n : ℚ) / d ≤ n' / d') :
    roundQuanta n d ≤ roundQuanta n' d' := by
  have hspacing := spacing_mono (div_le_div_of_cast hd' h)
  rcases Nat.lt_or_eq_of_le hspacing with hfiner | hsame
  · -- the finer grid ends where the coarser one begins
    have hreach : 1 <<< (spacing (n' / d') + 52) ≤ n' / d' := shiftLeft_spacing_le (by omega)
    calc roundQuanta n d ≤ (1 <<< 53) <<< spacing (n / d) := by
          unfold roundQuanta
          dsimp only
          rw [Nat.shiftLeft_eq, Nat.shiftLeft_eq (1 <<< 53)]
          exact Nat.mul_le_mul_right _ (roundDiv_grid_le n d)
      _ = 1 <<< (53 + spacing (n / d)) := (Nat.shiftLeft_add _ _ _).symm
      _ ≤ 1 <<< (spacing (n' / d') + 52) := by
          rw [Nat.one_shiftLeft, Nat.one_shiftLeft]
          exact Nat.pow_le_pow_right (by omega) (by omega)
      _ ≤ roundQuanta n' d' := one_shiftLeft_le_roundQuanta hreach
  · unfold roundQuanta
    dsimp only
    rw [hsame, Nat.shiftLeft_eq, Nat.shiftLeft_eq (roundDiv n' _)]
    apply Nat.mul_le_mul_right
    apply roundDiv_mono (shiftLeft_pos _ hd) (shiftLeft_pos _ hd')
    have hstep : (0 : ℚ) < 2 ^ spacing (n' / d') := by positivity
    rw [cast_shiftLeft, cast_shiftLeft, ← div_div, ← div_div]
    exact div_le_div_of_nonneg_right h hstep.le

/-- Rounding depends on the number that a fraction stands for. -/
theorem roundQuanta_congr (hd : 0 < d) (hd' : 0 < d') (h : (n : ℚ) / d = n' / d') :
    roundQuanta n d = roundQuanta n' d' :=
  Nat.le_antisymm (roundQuanta_mono hd hd' h.le) (roundQuanta_mono hd' hd h.ge)

/-- Rounding up does not pass a magnitude. -/
theorem roundQuanta_le (hd : 0 < d) (hq : Representable q) (h : (n : ℚ) / d ≤ q) :
    roundQuanta n d ≤ q := by
  rw [← roundQuanta_of_representable hq]
  apply roundQuanta_mono hd Nat.one_pos
  simpa [roundQuanta_of_representable hq] using h

/-- Rounding down does not pass a magnitude. -/
theorem le_roundQuanta (hd : 0 < d) (hq : Representable q) (h : (q : ℚ) ≤ n / d) :
    q ≤ roundQuanta n d := by
  rw [← roundQuanta_of_representable hq]
  apply roundQuanta_mono Nat.one_pos hd
  simpa [roundQuanta_of_representable hq] using h

/-- **What lies between a magnitude and a fraction that rounds to it rounds to it as well.** -/
theorem roundQuanta_eq_of_between (hd : 0 < d) (hd' : 0 < d') (hq : Representable q)
    (hround : roundQuanta n' d' = q)
    (h : (q : ℚ) ≤ n / d ∧ (n : ℚ) / d ≤ n' / d' ∨ (n' : ℚ) / d' ≤ n / d ∧ (n : ℚ) / d ≤ q) :
    roundQuanta n d = q := by
  rcases h with ⟨hlow, hhigh⟩ | ⟨hlow, hhigh⟩
  · exact Nat.le_antisymm (hround ▸ roundQuanta_mono hd hd' hhigh) (le_roundQuanta hd hq hlow)
  · exact Nat.le_antisymm (roundQuanta_le hd hq hhigh) (hround ▸ roundQuanta_mono hd' hd hlow)

end FloorDivision
