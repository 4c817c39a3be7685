import FloorDivision.Proofs.Decimal.Digits
import FloorDivision.Proofs.Number.Monotone
import Mathlib.Algebra.Order.Field.Power

/-!
# The shortest digits are the fewest, and of these the nearest

* `IsShortest` — what is meant by the shortest digits of a magnitude.
* `exists_gridDigits?` — a grid that has any point which reads back is found to have one, and none
  that is nearer to the magnitude.
* `exists_multiple` — for a decimal that reads back there is a point of the grid of as many digits
  that reads back and is no farther away.
* `isShortest_shortest` — so the first grid that is found to have a point gives the shortest digits.
-/

namespace FloorDivision.Decimal

open Double (cast_unit_pos unit)

variable {q : Nat}

/-- The number that a decimal stands for. -/
def value (d : Decimal) : ℚ := d.digits * 10 ^ d.exponent

/-- The fewest digits that read back as a magnitude, none of them a zero at the end, and of all
decimals with so many digits that read back one that is nearest to the magnitude. -/
structure IsShortest {q : Nat} (hq : Representable q) (d : Decimal) : Prop where
  last : d.digits % 10 ≠ 0
  readsBack : ∀ negative, d.toDouble negative = .finite negative q hq
  fewest : ∀ d' negative, toDouble negative d' = .finite negative q hq →
    digitCount d.digits ≤ digitCount d'.digits
  nearest : ∀ d' negative, toDouble negative d' = .finite negative q hq →
    digitCount d'.digits = digitCount d.digits → |d.value - q / unit| ≤ |d'.value - q / unit|

/-! ## Decimals in quanta -/

theorem cast_quantumScale_pos : (0 : ℚ) < quantumScale := by exact_mod_cast quantumScale_pos

/-- A decimal in quanta. -/
theorem numerator_div_denominator (d : Decimal) :
    (d.numerator : ℚ) / d.denominator = d.value * unit := by
  have hpow : (10 : ℚ) ^ d.exponent * 10 ^ (-d.exponent).toNat = 10 ^ d.exponent.toNat := by
    rw [← zpow_natCast, ← zpow_natCast, ← zpow_add₀ (by norm_num)]
    congr 1
    omega
  have hden : (0 : ℚ) < 10 ^ (-d.exponent).toNat := by positivity
  unfold numerator denominator value
  push_cast
  rw [div_eq_iff hden.ne', ← hpow]
  ring

/-! ## The points of a grid -/

section Grid

variable {step m g : Nat}

/-- A point between the magnitude and one that reads back reads back, and is no farther away. -/
theorem reads_of_between (hq : Representable q) (hm : roundQuanta (m * step) quantumScale = q)
    (h : m ≤ g ∧ g * step ≤ q * quantumScale ∨ q * quantumScale ≤ g * step ∧ g ≤ m) :
    readsBack q step g = true ∧
      |(q : ℚ) - (g * step : Nat) / quantumScale| ≤
        |(q : ℚ) - (m * step : Nat) / quantumScale| := by
  have hscale := cast_quantumScale_pos
  have order {a b : Nat} (hab : a ≤ b) : ((a * step : Nat) : ℚ) / quantumScale ≤
      (b * step : Nat) / quantumScale := by
    have : ((a * step : Nat) : ℚ) ≤ (b * step : Nat) := by
      exact_mod_cast Nat.mul_le_mul_right step hab
    exact div_le_div_of_nonneg_right this hscale.le
  rcases h with ⟨hmg, hg⟩ | ⟨hg, hgm⟩
  · have hbelow : ((g * step : Nat) : ℚ) / quantumScale ≤ q := by
      rw [div_le_iff₀ hscale]
      exact_mod_cast hg
    have hpoints := order hmg
    refine ⟨beq_iff_eq.mpr (roundQuanta_eq_of_between quantumScale_pos quantumScale_pos hq hm
      (Or.inr ⟨hpoints, hbelow⟩)), ?_⟩
    rw [abs_of_nonneg (by linarith), abs_of_nonneg (by linarith)]
    linarith
  · have habove : (q : ℚ) ≤ (g * step : Nat) / quantumScale := by
      rw [le_div_iff₀ hscale]
      exact_mod_cast hg
    have hpoints := order hgm
    refine ⟨beq_iff_eq.mpr (roundQuanta_eq_of_between quantumScale_pos quantumScale_pos hq hm
      (Or.inl ⟨habove, hpoints⟩)), ?_⟩
    rw [abs_of_nonpos (by linarith), abs_of_nonpos (by linarith)]
    linarith

/-- No point of the grid is nearer to the magnitude than the rounded one. -/
theorem abs_sub_roundDiv_le (hstep : 0 < step) (m : Nat) :
    |(q : ℚ) - (roundDiv (q * quantumScale) step * step : Nat) / quantumScale| ≤
      |(q : ℚ) - (m * step : Nat) / quantumScale| := by
  have hscale := cast_quantumScale_pos
  have hstep' : (0 : ℚ) < step := by exact_mod_cast hstep
  have hnear := abs_roundDiv_sub_le_abs_sub (q * quantumScale) hstep m
  generalize quantumScale = scale at *
  have hsize : (0 : ℚ) < step / scale := div_pos hstep' hscale
  have scaled (k : Nat) : |(q : ℚ) - (k * step : Nat) / scale| =
      |(k : ℚ) - (q * scale : Nat) / step| * (step / scale) := by
    calc |(q : ℚ) - (k * step : Nat) / scale|
        = |-((k : ℚ) - (q * scale : Nat) / step) * (step / scale)| := by
          congr 1
          push_cast
          field_simp
          ring
      _ = |(k : ℚ) - (q * scale : Nat) / step| * (step / scale) := by
          rw [abs_mul, abs_neg, abs_of_pos hsize]
  rw [scaled, scaled]
  exact mul_le_mul_of_nonneg_right hnear hsize.le

/-- **A grid that has a point which reads back is found to have one**, and none that reads back is
nearer to the magnitude. -/
theorem exists_gridDigits? (hq : Representable q) (hstep : 0 < step)
    (hm : roundQuanta (m * step) quantumScale = q) :
    ∃ g, gridDigits? q step = some g ∧
      |(q : ℚ) - (g * step : Nat) / quantumScale| ≤
        |(q : ℚ) - (m * step : Nat) / quantumScale| := by
  have hfloor := Nat.div_mul_le_self (q * quantumScale) step
  have hceil : q * quantumScale < (q * quantumScale / step + 1) * step :=
    Nat.lt_mul_of_div_lt (Nat.lt_succ_self _) hstep
  have hlow := div_le_roundDiv (q * quantumScale) step
  have hhigh := roundDiv_le_succ (q * quantumScale) step
  have hnearest := abs_sub_roundDiv_le (q := q) hstep m
  unfold gridDigits?
  dsimp only
  generalize roundDiv (q * quantumScale) step = nearest at *
  generalize q * quantumScale / step = below at *
  by_cases hback : readsBack q step nearest = true
  · rw [if_pos hback]
    exact ⟨nearest, rfl, hnearest⟩
  rw [if_neg hback]
  -- the nearest point does not read back, so the one that does lies on the other side
  by_cases hside : nearest * step ≤ q * quantumScale
  · rw [if_pos hside]
    have hbeyond : nearest < m := by
      by_contra hle
      exact hback (reads_of_between hq hm (Or.inl ⟨by omega, hside⟩)).1
    have habove : q * quantumScale ≤ (nearest + 1) * step :=
      hceil.le.trans (Nat.mul_le_mul_right step (by omega))
    obtain ⟨hother, hnear⟩ := reads_of_between hq hm (Or.inr ⟨habove, hbeyond⟩)
    exact ⟨nearest + 1, if_pos hother, hnear⟩
  · rw [if_neg hside]
    have hbeyond : m < nearest := by
      by_contra hle
      exact hback (reads_of_between hq hm (Or.inr ⟨by omega, by omega⟩)).1
    have hbelow : (nearest - 1) * step ≤ q * quantumScale :=
      (Nat.mul_le_mul_right step (by omega)).trans hfloor
    obtain ⟨hother, hnear⟩ := reads_of_between hq hm (Or.inl ⟨by omega, hbelow⟩)
    exact ⟨nearest - 1, if_pos hother, hnear⟩

end Grid

/-! ## Decimals of few digits lie on coarse grids -/

theorem digitCount_pos (n : Nat) : 0 < digitCount n := Nat.length_repr_pos

theorem ten_pow_digitCount_le {n : Nat} (h0 : n ≠ 0) : 10 ^ (digitCount n - 1) ≤ n := by
  have hpos := digitCount_pos n
  by_cases hone : digitCount n = 1
  · rw [hone]
    omega
  · by_contra hless
    have : digitCount n ≤ digitCount n - 1 :=
      (Nat.length_repr_le_iff (by omega)).mpr (Nat.lt_of_not_le hless)
    omega

/-- A decimal counted in the decimal places of a quantum. -/
theorem value_mul_unit (d : Decimal) :
    d.value * unit * quantumScale = d.digits * 10 ^ (d.exponent + quantumPlaces) := by
  have hten : (10 : ℚ) ^ (quantumPlaces : ℤ) = unit * quantumScale := by
    rw [unit_eq, quantumScale_eq, zpow_natCast]
    push_cast
    rw [← mul_pow]
    norm_num
  unfold value
  rw [zpow_add₀ (by norm_num), hten]
  ring

/-- The power of ten below a magnitude of so many digits is on the grid of fewer ones. -/
theorem ten_pow_steps {k size : Nat} (hk : 0 < k) (hsize : k ≤ size) :
    10 ^ (k - 1) * 10 ^ (size - k) = 10 ^ (size - 1) := by
  rw [← Nat.pow_add]
  exact congrArg (10 ^ ·) (by omega)

theorem cast_mul_ten_pow_le {n k size : Nat} {e : Int} (hn : n < 10 ^ k)
    (he : e + k ≤ size) : (n : ℚ) * 10 ^ e ≤ (10 ^ size : Nat) := by
  have hcast : (n : ℚ) ≤ 10 ^ (k : Int) := by
    rw [zpow_natCast]
    exact_mod_cast hn.le
  calc (n : ℚ) * 10 ^ e ≤ 10 ^ (k : Int) * 10 ^ e :=
        mul_le_mul_of_nonneg_right hcast (by positivity)
    _ = 10 ^ (e + k) := by rw [← zpow_add₀ (by norm_num), add_comm]
    _ ≤ 10 ^ (size : Int) := zpow_le_zpow_right₀ (by norm_num) he
    _ = (10 ^ size : Nat) := by
        rw [zpow_natCast]
        push_cast
        rfl

variable {d : Decimal} {size : Nat}

/-- **For a decimal that reads back there is a point of the grid of as many digits** that reads back
and is no farther away: the decimal itself, or the power of ten below the magnitude. -/
theorem exists_multiple (hq : Representable q)
    (hread : roundQuanta d.numerator d.denominator = q) (hsize : digitCount d.digits ≤ size)
    (hlow : 10 ^ (size - 1) ≤ q * quantumScale) :
    ∃ m, roundQuanta (m * 10 ^ (size - digitCount d.digits)) quantumScale = q ∧
      |(q : ℚ) - (m * 10 ^ (size - digitCount d.digits) : Nat) / quantumScale| ≤
        |(q : ℚ) - d.numerator / d.denominator| := by
  have hscale := cast_quantumScale_pos
  have hdigits := lt_ten_pow_digitCount d.digits
  have hpos := digitCount_pos d.digits
  have hvalue := value_mul_unit d
  rw [numerator_div_denominator]
  generalize digitCount d.digits = k at *
  by_cases hfine : ((size - k : Nat) : Int) ≤ d.exponent + quantumPlaces
  · -- the decimal is a multiple of the step
    obtain ⟨e, he⟩ := Int.eq_ofNat_of_zero_le (Int.sub_nonneg.mpr hfine)
    have hsame : ((d.digits * 10 ^ e * 10 ^ (size - k) : Nat) : ℚ) / quantumScale =
        d.value * unit := by
      rw [div_eq_iff hscale.ne', hvalue, show d.exponent + (quantumPlaces : Int) =
        ((e + (size - k) : Nat) : Int) by push_cast; omega, zpow_natCast, pow_add]
      push_cast
      ring
    refine ⟨d.digits * 10 ^ e, ?_, by rw [hsame]⟩
    rw [← hread]
    exact roundQuanta_congr quantumScale_pos d.denominator_pos
      (hsame.trans (numerator_div_denominator d).symm)
  · -- the decimal lies below the power of ten
    have hstep := ten_pow_steps hpos hsize
    have hsmall : d.value * unit ≤ ((10 ^ (size - 1) : Nat) : ℚ) / quantumScale := by
      rw [le_div_iff₀ hscale, hvalue]
      exact cast_mul_ten_pow_le hdigits (by omega)
    have hbelow : ((10 ^ (size - 1) : Nat) : ℚ) / quantumScale ≤ q := by
      rw [div_le_iff₀ hscale]
      exact_mod_cast hlow
    refine ⟨10 ^ (k - 1), ?_, ?_⟩
    · rw [hstep]
      refine roundQuanta_eq_of_between quantumScale_pos d.denominator_pos hq hread (Or.inr ⟨?_, ?_⟩)
      · rw [numerator_div_denominator]
        exact hsmall
      · exact hbelow
    · rw [hstep, abs_of_nonneg (by linarith), abs_of_nonneg (by linarith)]
      linarith

/-! ## Zeros at the end -/

theorem value_mul_ten (digits : Nat) (exponent : Int) :
    value ⟨digits * 10, exponent⟩ = value ⟨digits, exponent + 1⟩ := by
  unfold value
  rw [zpow_add₀ (by norm_num)]
  push_cast
  ring

/-- Zeros at the end stand for nothing. -/
theorem value_trimZeros (fuel : Nat) (d : Decimal) : (trimZeros fuel d).value = d.value := by
  induction fuel generalizing d with
  | zero => rfl
  | succ fuel ih =>
    unfold trimZeros
    split
    · rename_i h
      rw [ih, ← value_mul_ten, Nat.div_mul_cancel (Nat.dvd_of_mod_eq_zero h.2)]
    · rfl

/-- No zero is left at the end of so many digits. -/
theorem trimZeros_last (fuel : Nat) (d : Decimal) (h0 : d.digits ≠ 0) (h : d.digits ≤ 10 ^ fuel) :
    (trimZeros fuel d).digits % 10 ≠ 0 := by
  induction fuel generalizing d with
  | zero =>
    unfold trimZeros
    omega
  | succ fuel ih =>
    unfold trimZeros
    split
    · rename_i hlast
      rw [Nat.pow_succ] at h
      apply ih
      · show d.digits / 10 ≠ 0
        omega
      · show d.digits / 10 ≤ 10 ^ fuel
        omega
    · rename_i hlast
      intro hzero
      exact hlast ⟨h0, hzero⟩

/-- One more than the greatest number of so many digits is one digit and zeros. -/
theorem digitCount_trimZeros_le (fuel k : Nat) (d : Decimal) (hk : 0 < k) (hfuel : k ≤ fuel)
    (h : d.digits ≤ 10 ^ k) : digitCount (trimZeros fuel d).digits ≤ k := by
  rcases Nat.lt_or_eq_of_le h with hless | heq
  · exact (Nat.length_repr_le_iff hk).mpr ((trimZeros_digits_le fuel d).trans_lt hless)
  · obtain ⟨k, rfl⟩ : ∃ j, k = j + 1 := ⟨k - 1, by omega⟩
    obtain ⟨fuel, rfl⟩ : ∃ j, fuel = j + 1 := ⟨fuel - 1, by omega⟩
    have hten : 10 ^ (k + 1) / 10 = 10 ^ k := by
      rw [Nat.pow_succ]
      exact Nat.mul_div_cancel _ (by omega)
    have hpos : 0 < 10 ^ k := Nat.pow_pos (by omega)
    have htrim : trimZeros (fuel + 1) d = trimZeros fuel ⟨10 ^ k, d.exponent + 1⟩ := by
      rw [trimZeros, if_pos, heq, hten]
      rw [heq, Nat.pow_succ]
      omega
    rw [htrim]
    refine (Nat.length_repr_le_iff (by omega)).mpr ((trimZeros_digits_le fuel _).trans_lt ?_)
    exact Nat.pow_lt_pow_right (by omega) (by omega)

/-! ## Values and distances -/

/-- A point of a grid as a decimal. -/
theorem value_point (g places : Nat) :
    value ⟨g, (places : Int) - 1074⟩ * unit = ((g * 10 ^ places : Nat) : ℚ) / quantumScale := by
  rw [eq_div_iff cast_quantumScale_pos.ne', value_mul_unit]
  show (g : ℚ) * 10 ^ ((places : Int) - quantumPlaces + quantumPlaces) = _
  rw [sub_add_cancel, zpow_natCast]
  push_cast
  rfl

/-- Distances in quanta are distances. -/
theorem abs_value_sub (d : Decimal) :
    |d.value - q / unit| = |(q : ℚ) - d.value * unit| / unit := by
  have hunit := cast_unit_pos
  rw [eq_div_iff hunit.ne', ← abs_of_pos hunit, ← abs_mul, abs_of_pos hunit, abs_sub_comm]
  congr 1
  rw [sub_mul, div_mul_cancel₀ _ hunit.ne']

/-- **The shortest digits are the fewest that read back, and nearest among so many.** -/
theorem isShortest_shortest (hq : Representable q) (h0 : q ≠ 0) : IsShortest hq (shortest q) := by
  obtain ⟨i, hi, g, hg, hgle, hshortest, hnone⟩ := exists_first_grid hq h0
  have hsize := seventeen_le_digitCount h0
  have hlow := ten_pow_digitCount_le (Nat.mul_ne_zero h0 quantumScale_pos.ne')
  generalize digitCount (q * quantumScale) = size at *
  have hstep : ∀ k, 0 < 10 ^ k := fun k => Nat.pow_pos (by omega)
  have hread := readsBack_of_gridDigits? hg
  have hg0 : g ≠ 0 := by
    rintro rfl
    rw [Nat.zero_mul, roundQuanta_eq_zero (by rw [Nat.mul_zero]; exact quantumScale_pos)] at hread
    exact h0 hread.symm
  have hcount : digitCount (shortest q).digits ≤ i + 1 := by
    rw [hshortest]
    exact digitCount_trimZeros_le 17 (i + 1) _ (by omega) (by omega) hgle
  -- whatever reads back has a point on the grid of as many digits
  have hpoint : ∀ d' : Decimal, roundQuanta d'.numerator d'.denominator = q →
      digitCount d'.digits ≤ i + 1 →
      ∃ g', gridDigits? q (10 ^ (size - digitCount d'.digits)) = some g' ∧
        |(q : ℚ) - (g' * 10 ^ (size - digitCount d'.digits) : Nat) / quantumScale| ≤
          |(q : ℚ) - d'.value * unit| := by
    intro d' hd' hk
    obtain ⟨m, hm, hnear⟩ := exists_multiple hq hd' (hk.trans (by omega)) hlow
    obtain ⟨g', hg', hnearer⟩ := exists_gridDigits? hq (hstep _) hm
    rw [← numerator_div_denominator]
    exact ⟨g', hg', hnearer.trans hnear⟩
  have hfewest : ∀ d' : Decimal, roundQuanta d'.numerator d'.denominator = q →
      i + 1 ≤ digitCount d'.digits := by
    intro d' hd'
    by_contra hless
    have hpos := digitCount_pos d'.digits
    obtain ⟨g', hg', -⟩ := hpoint d' hd' (by omega)
    have hempty := hnone (digitCount d'.digits - 1) (by omega)
    rw [Nat.sub_add_cancel hpos, hg'] at hempty
    cases hempty
  constructor
  · rw [hshortest]
    refine trimZeros_last 17 _ hg0 (hgle.trans ?_)
    exact Nat.pow_le_pow_right (by omega) hi
  · exact fun negative => toDouble_shortest negative hq
  · intro d' negative hd'
    exact hcount.trans (hfewest d' ((toDouble_eq_finite_iff hq).mp hd'))
  · intro d' negative hd' hsame
    have hd' := (toDouble_eq_finite_iff hq).mp hd'
    have hk : digitCount d'.digits = i + 1 := by
      have := hfewest d' hd'
      omega
    obtain ⟨g', hg', hnear⟩ := hpoint d' hd' hk.le
    rw [hk, hg] at hg'
    cases hg'
    rw [hk, ← value_point, ← value_trimZeros 17, ← hshortest] at hnear
    rw [abs_value_sub, abs_value_sub]
    exact div_le_div_of_nonneg_right hnear cast_unit_pos.le

end FloorDivision.Decimal
