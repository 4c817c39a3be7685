import FloorDivision.Json.Reader
import FloorDivision.Proofs.Decimal.Digits

/-!
# How near a scaled significand is

A significand is rounded, a power of ten is rounded, and their product or quotient is rounded once
more, so a decimal is not always read as the nearest double.

* `scaledQuanta`, `scaled_eq` — the magnitude that a significand is scaled to.
* `abs_scaledQuanta_sub_le` — it is at most four units in the last place off the nearest one.
* `scaledQuanta_exact` — it is the nearest one if the significand has at most 53 bits and the power
  of ten at most 22 zeros.
-/

namespace FloorDivision

open Decimal (denominator_pos)
open Double (cast_unit_pos unit unit_pos)

/-! ## Relative errors -/

section Relative

variable {a b x y ε δ : ℚ}

theorem abs_mul_sub_mul_le (hx : 0 ≤ x) (hy : 0 ≤ y) (ha : |a - x| ≤ ε * x)
    (hb : |b - y| ≤ δ * y) : |a * b - x * y| ≤ (ε + δ + ε * δ) * (x * y) := by
  have hsplit : a * b - x * y = (a - x) * (b - y) + (a - x) * y + x * (b - y) := by ring
  rw [hsplit]
  calc |(a - x) * (b - y) + (a - x) * y + x * (b - y)|
      ≤ |a - x| * |b - y| + |a - x| * y + x * |b - y| := by
        refine (abs_add_three _ _ _).trans_eq ?_
        rw [abs_mul, abs_mul, abs_mul, abs_of_nonneg hx, abs_of_nonneg hy]
    _ ≤ ε * x * (δ * y) + ε * x * y + x * (δ * y) := by
        have hεx : 0 ≤ ε * x := (abs_nonneg _).trans ha
        gcongr
    _ = (ε + δ + ε * δ) * (x * y) := by ring

theorem abs_div_sub_div_le (hx : 0 ≤ x) (hy : 0 < y) (hδ : δ < 1) (ha : |a - x| ≤ ε * x)
    (hb : |b - y| ≤ δ * y) : |a / b - x / y| ≤ (ε + δ) / (1 - δ) * (x / y) := by
  have hleast : (1 - δ) * y ≤ b := by
    have := (abs_le.mp hb).1
    linarith
  have hleast0 : 0 < (1 - δ) * y := mul_pos (by linarith) hy
  have hb0 : 0 < b := hleast0.trans_le hleast
  have hsplit : a / b - x / y = ((a - x) * y - x * (b - y)) / (b * y) := by
    field_simp
    ring
  rw [hsplit, abs_div, abs_of_pos (mul_pos hb0 hy)]
  have hsum : 0 ≤ ε * x * y + x * (δ * y) :=
    add_nonneg (mul_nonneg ((abs_nonneg _).trans ha) hy.le)
      (mul_nonneg hx ((abs_nonneg _).trans hb))
  calc |(a - x) * y - x * (b - y)| / (b * y) ≤ (|a - x| * y + x * |b - y|) / (b * y) := by
        gcongr
        refine (abs_sub _ _).trans_eq ?_
        rw [abs_mul, abs_mul, abs_of_pos hy, abs_of_nonneg hx]
    _ ≤ (ε * x * y + x * (δ * y)) / (b * y) := by gcongr
    _ ≤ (ε * x * y + x * (δ * y)) / ((1 - δ) * y * y) := by gcongr
    _ = (ε + δ) / (1 - δ) * (x / y) := by
        have : 1 - δ ≠ 0 := by linarith
        field_simp

/-- What is near to something near. -/
theorem abs_sub_le_of_near (hδ : 0 ≤ δ) (hb : |b - x| ≤ ε * x) (ha : |a - b| ≤ δ * b) :
    |a - x| ≤ (ε + δ + ε * δ) * x := by
  have hle := (abs_le.mp hb).2
  calc |a - x| ≤ |a - b| + |b - x| := abs_sub_le a b x
    _ ≤ δ * (x + ε * x) + ε * x := by
        have : δ * b ≤ δ * (x + ε * x) := mul_le_mul_of_nonneg_left (by linarith) hδ
        linarith
    _ = (ε + δ + ε * δ) * x := by ring

/-- A product of two numbers counted in the same unit. -/
theorem abs_mul_div_sub_le {u : ℚ} (hu : 0 < u) (hx : 0 ≤ x) (hy : 0 ≤ y)
    (ha : |a - x * u| ≤ ε * (x * u)) (hb : |b - y * u| ≤ δ * (y * u)) :
    |a * b / u - x * y * u| ≤ (ε + δ + ε * δ) * (x * y * u) := by
  have hproduct := abs_mul_sub_mul_le (mul_nonneg hx hu.le) (mul_nonneg hy hu.le) ha hb
  have hsplit : a * b / u - x * y * u = (a * b - x * u * (y * u)) / u := by
    field_simp
  rw [hsplit, abs_div, abs_of_pos hu, div_le_iff₀ hu]
  calc |a * b - x * u * (y * u)| ≤ (ε + δ + ε * δ) * (x * u * (y * u)) := hproduct
    _ = (ε + δ + ε * δ) * (x * y * u) * u := by ring

/-- A quotient of two numbers counted in the same unit. -/
theorem abs_mul_div_sub_mul_div_le {u : ℚ} (hu : 0 < u) (hx : 0 ≤ x) (hy : 0 < y) (hδ : δ < 1)
    (ha : |a - x * u| ≤ ε * (x * u)) (hb : |b - y * u| ≤ δ * (y * u)) :
    |a * u / b - x * u / y| ≤ (ε + δ) / (1 - δ) * (x * u / y) := by
  have hquotient := abs_div_sub_div_le (mul_nonneg hx hu.le) (mul_pos hy hu) hδ ha hb
  have hsplit : a * u / b - x * u / y = (a / b - x * u / (y * u)) * u := by
    field_simp
  rw [hsplit, abs_mul, abs_of_pos hu]
  calc |a / b - x * u / (y * u)| * u ≤ (ε + δ) / (1 - δ) * (x * u / (y * u)) * u := by gcongr
    _ = (ε + δ) / (1 - δ) * (x * u / y) := by
        field_simp

end Relative

/-! ## Whole numbers -/

namespace Json.Reader

/-- The magnitude of the double nearest to a natural number. -/
def wholeQuanta (n : Nat) : Nat := roundQuanta (n * unit) 1

theorem two_pow_le_unit : (2 : ℚ) ^ 64 ≤ unit := by
  rw [Decimal.unit_eq]
  exact_mod_cast Nat.pow_le_pow_right (by omega) (by decide : 64 ≤ Decimal.quantumPlaces)

/-- A natural number is rounded by at most one part in `2 ^ 53`. -/
theorem abs_wholeQuanta_sub_le (n : Nat) :
    |(wholeQuanta n : ℚ) - n * unit| ≤ 1 / 2 ^ 53 * (n * unit) := by
  by_cases h0 : n = 0
  · have hzero : wholeQuanta 0 = 0 := by
      rw [wholeQuanta, Nat.zero_mul]
      exact roundQuanta_eq_zero (by omega)
    simp [h0, hzero]
  · have hn : (1 : ℚ) ≤ n := by exact_mod_cast Nat.pos_of_ne_zero h0
    have hle := abs_roundQuanta_sub_le_max (n * unit) Nat.one_pos
    have hlarge : (2 : ℚ) ^ 64 ≤ n * unit := by
      calc (2 : ℚ) ^ 64 ≤ unit := two_pow_le_unit
        _ ≤ n * unit := le_mul_of_one_le_left cast_unit_pos.le hn
    push_cast at hle
    rw [div_one, max_eq_right (by linarith)] at hle
    calc |(wholeQuanta n : ℚ) - n * unit| ≤ n * unit / 2 ^ 53 := hle
      _ = 1 / 2 ^ 53 * (n * unit) := by ring

theorem wholeQuanta_of_lt {n : Nat} (hn : n < 2 ^ 53) : wholeQuanta n = n * unit :=
  roundQuanta_of_representable (representable_whole hn)

/-- Powers of ten are exact as long as their odd part fits. -/
theorem wholeQuanta_ten_pow {k : Nat} (hk : k ≤ 22) : wholeQuanta (10 ^ k) = 10 ^ k * unit := by
  refine roundQuanta_of_representable ⟨5 ^ k, 1074 + k, ?_, by omega, ?_⟩
  · exact (Nat.pow_le_pow_right (by omega) hk).trans_lt (by decide)
  · rw [Nat.shiftLeft_eq, Decimal.unit_eq, Decimal.quantumPlaces_eq, Nat.add_comm, Nat.pow_add,
      ← Nat.mul_assoc, ← Nat.mul_pow]

theorem roundQuanta_lt {n d m : Nat} (hd : 0 < d) (h : n ≤ m * d)
    (hm : m * (2 ^ 53 + 1) + 2 ^ 53 < overflowQuanta * 2 ^ 53) :
    roundQuanta n d < overflowQuanta := by
  have hle := (abs_le.mp (abs_roundQuanta_sub_le_max n hd)).2
  have hd' : (0 : ℚ) < d := by exact_mod_cast hd
  have hquotient : (n : ℚ) / d ≤ m := by
    rw [div_le_iff₀ hd']
    exact_mod_cast h
  have hpart : (n : ℚ) / d / 2 ^ 53 ≤ (m : ℚ) / 2 ^ 53 := by gcongr
  have hpart0 : (0 : ℚ) ≤ (m : ℚ) / 2 ^ 53 := by positivity
  have hmax : max (1 / 2) ((n : ℚ) / d / 2 ^ 53) ≤ 1 + (m : ℚ) / 2 ^ 53 :=
    max_le (by linarith) (by linarith)
  have hless : (roundQuanta n d : ℚ) * 2 ^ 53 < (overflowQuanta : ℚ) * 2 ^ 53 := by
    calc (roundQuanta n d : ℚ) * 2 ^ 53 ≤ ((m : ℚ) + (1 + (m : ℚ) / 2 ^ 53)) * 2 ^ 53 := by
          gcongr
          linarith
      _ = (m : ℚ) * (2 ^ 53 + 1) + 2 ^ 53 := by ring
      _ < (overflowQuanta : ℚ) * 2 ^ 53 := by exact_mod_cast hm
  exact_mod_cast lt_of_mul_lt_mul_right hless (by positivity)

/-- The greatest power of ten that is in range: a smaller decimal is divided by it first. -/
def greatestPower : Nat := 10 ^ 308

theorem greatestPower_pos : 0 < greatestPower := pow_pos (by omega) 308

theorem cast_greatestPower_pos : (0 : ℚ) < greatestPower := by exact_mod_cast greatestPower_pos

theorem ten_pow_eq {k : Nat} (hk : 308 ≤ k) : 10 ^ k = greatestPower * 10 ^ (k - 308) := by
  rw [greatestPower, ← Nat.pow_add, Nat.add_sub_cancel' hk]

/-- Neither a significand nor a power of ten that is used is out of range. -/
theorem wholeQuanta_lt {n : Nat} (hn : n ≤ greatestPower) : wholeQuanta n < overflowQuanta := by
  refine roundQuanta_lt Nat.one_pos (m := greatestPower * unit) ?_ (by decide +kernel)
  rw [Nat.mul_one]
  exact Nat.mul_le_mul_right unit hn

theorem ofInt_natCast (n : Nat) :
    Double.ofInt n = .round false (n * unit) 1 := by
  have hsign : decide ((n : Int) < 0) = false := decide_eq_false (by omega)
  simp only [Double.ofInt, hsign, Int.natAbs_natCast]

theorem ofInt_of_lt {n : Nat} (hn : n < 2 ^ 53) :
    Double.ofInt n = .finite false (n * unit) (representable_whole hn) := by
  rw [ofInt_natCast]
  exact Double.round_quanta false (representable_whole hn)

/-! ## Scaled significands -/

/-- The magnitude that a significand is scaled to, if it is in range. -/
def scaledQuanta (n : Nat) (exponent : Int) : Nat :=
  let k := exponent.natAbs
  if exponent < 0 then
    if k ≤ 308 then roundQuanta (wholeQuanta n * unit) (wholeQuanta (10 ^ k))
    else
      roundQuanta (roundQuanta (wholeQuanta n * unit) (wholeQuanta greatestPower) * unit)
        (wholeQuanta (10 ^ (k - 308)))
  else roundQuanta (wholeQuanta n * wholeQuanta (10 ^ k)) unit

theorem unit_le_wholeQuanta {n : Nat} (hn : n ≠ 0) : unit ≤ wholeQuanta n := by
  have hreach : 1 <<< 1074 ≤ n * unit / 1 := by
    rw [Nat.div_one]
    exact Nat.le_mul_of_pos_left unit (Nat.pos_of_ne_zero hn)
  exact one_shiftLeft_le_roundQuanta hreach

theorem wholeQuanta_pos {n : Nat} (hn : n ≠ 0) : 0 < wholeQuanta n :=
  unit_pos.trans_le (unit_le_wholeQuanta hn)

theorem powerOfTen_eq {k : Nat} (hk : k ≤ 308) :
    ∃ hq, powerOfTen k = .finite false (wholeQuanta (10 ^ k)) hq := by
  have hpow : 10 ^ k ≤ greatestPower := pow_le_pow_right₀ (by omega) hk
  have hlt := wholeQuanta_lt hpow
  refine ⟨representable_roundQuanta _ _ hlt, ?_⟩
  unfold powerOfTen
  rw [ofInt_natCast]
  exact Double.round_of_eq rfl _

theorem wholeQuanta_le {n : Nat} (hn : n < 2 ^ 64) : wholeQuanta n ≤ 2 ^ 65 * unit := by
  have hle := (abs_le.mp (abs_wholeQuanta_sub_le n)).2
  have hn' : (n : ℚ) ≤ 2 ^ 64 := by exact_mod_cast hn.le
  have hunit := cast_unit_pos
  have : (wholeQuanta n : ℚ) ≤ 2 ^ 65 * unit := by nlinarith
  exact_mod_cast this

/-- A quotient is in range, as the dividend is. -/
theorem quotient_lt {n k : Nat} (hn : n < 2 ^ 64) (hk : 0 < k) :
    roundQuanta (wholeQuanta n * unit) (wholeQuanta k) < overflowQuanta :=
  roundQuanta_lt (wholeQuanta_pos hk.ne') (m := 2 ^ 65 * unit)
    (Nat.mul_le_mul (wholeQuanta_le hn) (unit_le_wholeQuanta hk.ne')) (by decide +kernel)

theorem div_finite {p q : Nat} (hp : Representable p) (hq : Representable q) (h0 : q ≠ 0) :
    Double.finite false p hp / Double.finite false q hq = .round false (p * unit) q := by
  show (if q = 0 then _ else _) = _
  rw [if_neg h0]
  rfl

/-- **What a significand is scaled to.** -/
theorem scaled_eq {n : Nat} {exponent : Int} (hn : n < 2 ^ 64) (hlow : -616 ≤ exponent)
    (hhigh : exponent ≤ 308) (h : scaledQuanta n exponent < overflowQuanta) :
    ∃ hq, scaled n exponent = .ok (.finite false (scaledQuanta n exponent) hq) := by
  have hpow (k : Nat) : wholeQuanta (10 ^ k) ≠ 0 :=
    (wholeQuanta_pos (Nat.pow_pos (by omega)).ne').ne'
  have hlt : wholeQuanta n < overflowQuanta := by
    have : 2 ^ 65 * unit < overflowQuanta := by decide +kernel
    exact (wholeQuanta_le hn).trans_lt this
  obtain ⟨hr, hx⟩ : ∃ hr, Double.ofInt n = .finite false (wholeQuanta n) hr := by
    refine ⟨representable_roundQuanta _ _ hlt, ?_⟩
    rw [ofInt_natCast]
    exact Double.round_of_eq rfl _
  unfold scaledQuanta at h ⊢
  unfold scaled
  simp only [hx] at h ⊢
  split
  · rename_i hneg
    simp only [hneg, if_true] at h ⊢
    split
    · rename_i hk
      obtain ⟨hp, hpower⟩ := powerOfTen_eq hk
      simp only [hk, if_true] at h ⊢
      refine ⟨representable_roundQuanta _ _ h, ?_⟩
      rw [hpower, div_finite _ _ (hpow _), Double.round_of_eq rfl]
    · rename_i hk
      obtain ⟨hp, hpower⟩ : ∃ hq, powerOfTen 308 = .finite false (wholeQuanta greatestPower) hq :=
        powerOfTen_eq (Nat.le_refl 308)
      obtain ⟨hp', hpower'⟩ := powerOfTen_eq (k := exponent.natAbs - 308) (by omega)
      simp only [hk, if_false] at h ⊢
      refine ⟨representable_roundQuanta _ _ h, ?_⟩
      rw [if_pos (by omega), hpower, hpower',
        div_finite _ _ (wholeQuanta_pos greatestPower_pos.ne').ne',
        Double.round_of_eq rfl (representable_roundQuanta _ _ (quotient_lt hn greatestPower_pos)),
        div_finite _ _ (hpow _), Double.round_of_eq rfl]
  · rename_i hneg
    have hk : exponent.toNat = exponent.natAbs := by omega
    obtain ⟨hp, hpower⟩ := powerOfTen_eq (k := exponent.natAbs) (by omega)
    simp only [hneg, if_false] at h ⊢
    refine ⟨representable_roundQuanta _ _ h, ?_⟩
    split
    · rename_i h0
      subst h0
      have hzero : wholeQuanta 0 = 0 := wholeQuanta_of_lt (by omega)
      have hzero' : roundQuanta (0 * wholeQuanta (10 ^ exponent.natAbs)) unit = 0 := by
        rw [Nat.zero_mul]
        exact roundQuanta_eq_zero unit_pos
      simp only [hzero, hzero']
    · have hproduct : Double.finite false (wholeQuanta n) hr *
          .finite false (wholeQuanta (10 ^ exponent.natAbs)) hp =
            .finite false (roundQuanta (wholeQuanta n * wholeQuanta (10 ^ exponent.natAbs)) unit)
              (representable_roundQuanta _ _ h) := Double.round_of_eq rfl _
      rw [hk, hpower, hproduct]
      rfl

/-! ## The error -/

/-- The value of a decimal in quanta. -/
def value (n : Nat) (exponent : Int) : ℚ :=
  (Decimal.numerator ⟨n, exponent⟩ : ℚ) / Decimal.denominator ⟨n, exponent⟩

/-- The nearest magnitude to a decimal. -/
def nearestQuanta (n : Nat) (exponent : Int) : Nat :=
  roundQuanta (Decimal.numerator ⟨n, exponent⟩) (Decimal.denominator ⟨n, exponent⟩)

/-- What is close to a fraction is rounded to a close magnitude. -/
theorem abs_roundQuanta_sub_roundQuanta_le {n d n' d' : Nat} (hd : 0 < d) (hd' : 0 < d')
    (h : |(n' : ℚ) / d' - n / d| ≤ 49 / 20 * 2 ^ spacing (roundQuanta n d)) :
    |(roundQuanta n' d' : ℚ) - roundQuanta n d| ≤ 4 * 2 ^ spacing (roundQuanta n d) := by
  have hround := abs_roundQuanta_sub_le n hd
  have hround' := abs_roundQuanta_sub_le_max n' hd'
  have hfiner : (2 : ℚ) ^ spacing (n / d) ≤ 2 ^ spacing (roundQuanta n d) :=
    pow_le_pow_right₀ (by norm_num) (spacing_le_roundQuanta n d)
  have hstep : (1 : ℚ) ≤ 2 ^ spacing (roundQuanta n d) := one_le_pow₀ (by norm_num)
  have hless : (roundQuanta n d : ℚ) < 2 ^ spacing (roundQuanta n d) * 2 ^ 53 := by
    rw [← pow_add]
    exact_mod_cast lt_two_pow_spacing (roundQuanta n d)
  generalize (2 : ℚ) ^ spacing (roundQuanta n d) = u at *
  have hlast : max (1 / 2) ((n' : ℚ) / d' / 2 ^ 53) ≤ 41 / 40 * u := by
    refine max_le (by linarith) ?_
    rw [div_le_iff₀ (by norm_num)]
    have := (abs_le.mp h).2
    have := (abs_le.mp hround).1
    linarith
  calc |(roundQuanta n' d' : ℚ) - roundQuanta n d|
      = |((roundQuanta n' d' : ℚ) - n' / d') + ((n' : ℚ) / d' - n / d) +
          -((roundQuanta n d : ℚ) - n / d)| := by
        congr 1
        ring
    _ ≤ |(roundQuanta n' d' : ℚ) - n' / d'| + |(n' : ℚ) / d' - n / d| +
          |(roundQuanta n d : ℚ) - n / d| := by
        refine (abs_add_three _ _ _).trans_eq ?_
        rw [abs_neg]
    _ ≤ 4 * u := by linarith

/-- A small part of a fraction is a small number of steps. -/
theorem close_of_relative {n d : Nat} (hd : 0 < d) {v : ℚ}
    (h : |v - n / d| ≤ 12 / 5 / 2 ^ 53 * (n / d)) :
    |v - n / d| ≤ 49 / 20 * 2 ^ spacing (roundQuanta n d) := by
  have hround := (abs_le.mp (abs_roundQuanta_sub_le n hd)).1
  have hfiner : (2 : ℚ) ^ spacing (n / d) ≤ 2 ^ spacing (roundQuanta n d) :=
    pow_le_pow_right₀ (by norm_num) (spacing_le_roundQuanta n d)
  have hless : (roundQuanta n d : ℚ) < 2 ^ spacing (roundQuanta n d) * 2 ^ 53 := by
    rw [← pow_add]
    exact_mod_cast lt_two_pow_spacing (roundQuanta n d)
  have hstep : (0 : ℚ) < 2 ^ spacing (roundQuanta n d) := by positivity
  linarith

theorem value_of_nonneg {n : Nat} {exponent : Int} (h : 0 ≤ exponent) :
    value n exponent = n * 10 ^ exponent.natAbs * unit := by
  have hnum : exponent.toNat = exponent.natAbs := by omega
  have hden : (-exponent).toNat = 0 := by omega
  simp [value, Decimal.numerator, Decimal.denominator, hnum, hden]

theorem value_of_neg {n : Nat} {exponent : Int} (h : exponent < 0) :
    value n exponent = n * unit / 10 ^ exponent.natAbs := by
  have hnum : exponent.toNat = 0 := by omega
  have hden : (-exponent).toNat = exponent.natAbs := by omega
  simp [value, Decimal.numerator, Decimal.denominator, hnum, hden]

theorem abs_wholeQuanta_ten_pow_sub_le (k : Nat) :
    |(wholeQuanta (10 ^ k) : ℚ) - 10 ^ k * unit| ≤ 1 / 2 ^ 53 * (10 ^ k * unit) := by
  have h := abs_wholeQuanta_sub_le (10 ^ k)
  push_cast at h
  exact h

theorem value_nonneg (n : Nat) (exponent : Int) : 0 ≤ value n exponent :=
  div_nonneg (Nat.cast_nonneg _) (Nat.cast_nonneg _)

/-- A product of two rounded numbers. -/
theorem product_close (n : Nat) {exponent : Int} (h : 0 ≤ exponent) :
    |((wholeQuanta n * wholeQuanta (10 ^ exponent.natAbs) : Nat) : ℚ) / unit - value n exponent| ≤
      12 / 5 / 2 ^ 53 * value n exponent := by
  have hproduct := abs_mul_div_sub_le cast_unit_pos (Nat.cast_nonneg n)
    (pow_nonneg (by norm_num) _) (abs_wholeQuanta_sub_le n)
    (abs_wholeQuanta_ten_pow_sub_le exponent.natAbs)
  rw [← value_of_nonneg h] at hproduct
  rw [Nat.cast_mul]
  exact hproduct.trans (mul_le_mul_of_nonneg_right (by norm_num) (value_nonneg _ _))

/-- A quotient of two rounded numbers. -/
theorem quotient_close (n : Nat) {exponent : Int} (h : exponent < 0) :
    |((wholeQuanta n * unit : Nat) : ℚ) / wholeQuanta (10 ^ exponent.natAbs) - value n exponent| ≤
      12 / 5 / 2 ^ 53 * value n exponent := by
  have hquotient := abs_mul_div_sub_mul_div_le cast_unit_pos (Nat.cast_nonneg n)
    (pow_pos (by norm_num) _) (by norm_num) (abs_wholeQuanta_sub_le n)
    (abs_wholeQuanta_ten_pow_sub_le exponent.natAbs)
  rw [← value_of_neg h] at hquotient
  rw [Nat.cast_mul]
  exact hquotient.trans (mul_le_mul_of_nonneg_right (by norm_num) (value_nonneg _ _))

/-! ### Two quotients -/

theorem abs_cast_sub_le {p q k : Nat} (hk : 0 < k) (hle : k * p ≤ (k + 1) * q)
    (hge : k * q ≤ k * p + q) : |(p : ℚ) - q| ≤ 1 / k * q := by
  have hk' : (0 : ℚ) < k := by exact_mod_cast hk
  have hle' : (k : ℚ) * p ≤ (k + 1) * q := by exact_mod_cast hle
  have hge' : (k : ℚ) * q ≤ k * p + q := by exact_mod_cast hge
  have hpart : 1 / (k : ℚ) * q * k = q := by field_simp
  rw [← mul_le_mul_iff_of_pos_right hk', hpart, ← abs_of_pos hk', ← abs_mul,
    abs_le]
  constructor <;> linarith

/-- The power of ten that is divided by first is rounded by little. -/
theorem abs_wholeQuanta_greatest_sub_le :
    |(wholeQuanta greatestPower : ℚ) - greatestPower * unit| ≤
      (1 / (10 * 2 ^ 53) : ℚ) * (greatestPower * unit) := by
  have h := abs_cast_sub_le (p := wholeQuanta greatestPower) (q := greatestPower * unit)
    (k := 10 * 2 ^ 53) (by omega) (by decide +kernel) (by decide +kernel)
  simpa only [Nat.cast_mul, Nat.cast_pow, Nat.cast_ofNat] using h

/-- A significand that is rounded is large. -/
theorem two_pow_mul_unit_le {n : Nat} (hn : 2 ^ 53 ≤ n) : 2 ^ 52 * unit ≤ wholeQuanta n := by
  have hle := (abs_le.mp (abs_wholeQuanta_sub_le n)).1
  have hn' : (2 : ℚ) ^ 53 ≤ n := by exact_mod_cast hn
  have hscaled := mul_le_mul_of_nonneg_right hn' cast_unit_pos.le
  have : (2 : ℚ) ^ 52 * unit ≤ wholeQuanta n := by linarith
  exact_mod_cast this

/-- The first quotient when the dividend is at least so many ones. -/
theorem first_quotient_ge {n m : Nat} (h : m * unit ≤ wholeQuanta n) :
    (m : ℚ) * (2 ^ 54 / 9) ≤ (wholeQuanta n * unit : Nat) / wholeQuanta greatestPower := by
  have hpos : (0 : ℚ) < wholeQuanta greatestPower := by
    exact_mod_cast wholeQuanta_pos greatestPower_pos.ne'
  have hunit : 2 ^ 54 * wholeQuanta greatestPower ≤ unit * unit * 9 := by decide +kernel
  have hscaled : m * 2 ^ 54 * wholeQuanta greatestPower ≤ wholeQuanta n * unit * 9 :=
    calc m * 2 ^ 54 * wholeQuanta greatestPower = m * (2 ^ 54 * wholeQuanta greatestPower) := by ring
      _ ≤ m * (unit * unit * 9) := Nat.mul_le_mul_left m hunit
      _ = m * unit * unit * 9 := by ring
      _ ≤ wholeQuanta n * unit * 9 := Nat.mul_le_mul_right 9 (Nat.mul_le_mul_right unit h)
  rw [← mul_div_assoc, div_le_div_iff₀ (by norm_num) hpos]
  exact_mod_cast hscaled

/-- **The first quotient is near, whatever the significand**: one that is rounded is so large that
the quotient loses little, and a small one is not rounded. -/
theorem first_quotient_close {n : Nat} (h0 : n ≠ 0) :
    |(roundQuanta (wholeQuanta n * unit) (wholeQuanta greatestPower) : ℚ) - n * unit / greatestPower| ≤
      (12 / 5 / 2 ^ 53 : ℚ) * (n * unit / greatestPower) := by
  have hround := abs_roundQuanta_sub_le_max (wholeQuanta n * unit)
    (wholeQuanta_pos greatestPower_pos.ne')
  have hnonneg : (0 : ℚ) ≤ n * unit / greatestPower :=
    div_nonneg (mul_nonneg (Nat.cast_nonneg n) cast_unit_pos.le) cast_greatestPower_pos.le
  have hquotient {ε : ℚ} (hn : |(wholeQuanta n : ℚ) - n * unit| ≤ ε * (n * unit)) :=
    abs_mul_div_sub_mul_div_le cast_unit_pos (Nat.cast_nonneg n) cast_greatestPower_pos
      (by norm_num) hn abs_wholeQuanta_greatest_sub_le
  rcases Nat.lt_or_ge n (2 ^ 53) with hsmall | hlarge
  · have hexact : |(wholeQuanta n : ℚ) - n * unit| ≤ 0 * (n * unit) := by
      rw [wholeQuanta_of_lt hsmall]
      simp
    have hnear := hquotient hexact
    have hge := first_quotient_ge (n := n) (m := 1) (by
      rw [Nat.one_mul]
      exact unit_le_wholeQuanta h0)
    rw [Nat.cast_one, one_mul] at hge
    rw [← Nat.cast_mul] at hnear
    refine (abs_sub_le_of_near (by norm_num : (0 : ℚ) ≤ 9 / 4 / 2 ^ 53) hnear
      (hround.trans (max_le ?_ ?_))).trans (mul_le_mul_of_nonneg_right (by norm_num) hnonneg)
    · linarith only [hge]
    · linarith only [hge]
  · have hnear := hquotient (abs_wholeQuanta_sub_le n)
    have hge := first_quotient_ge (n := n) (m := 2 ^ 52) (two_pow_mul_unit_le hlarge)
    rw [Nat.cast_pow, Nat.cast_ofNat] at hge
    rw [← Nat.cast_mul] at hnear
    refine (abs_sub_le_of_near (by norm_num : (0 : ℚ) ≤ 1 / 2 ^ 53) hnear
      (hround.trans (max_le ?_ ?_))).trans (mul_le_mul_of_nonneg_right (by norm_num) hnonneg)
    · linarith only [hge]
    · linarith only [hge]

/-! ### All scalings -/

theorem value_eq_of_lt {n : Nat} {exponent : Int} (h : exponent < -308) :
    value n exponent = n / greatestPower * unit / 10 ^ (exponent.natAbs - 308) := by
  have hgreatest := cast_greatestPower_pos
  have hpow : (10 : ℚ) ^ exponent.natAbs = greatestPower * 10 ^ (exponent.natAbs - 308) := by
    exact_mod_cast ten_pow_eq (k := exponent.natAbs) (by omega)
  rw [value_of_neg (by omega), hpow]
  field_simp

/-- The second quotient, its divisor being rounded by some part. -/
theorem second_quotient_close {n : Nat} {exponent : Int} {δ : ℚ} (h0 : n ≠ 0)
    (h : exponent < -308) (hδ : δ < 1)
    (hpower : |(wholeQuanta (10 ^ (exponent.natAbs - 308)) : ℚ) -
      10 ^ (exponent.natAbs - 308) * unit| ≤ δ * (10 ^ (exponent.natAbs - 308) * unit)) :
    |((roundQuanta (wholeQuanta n * unit) (wholeQuanta greatestPower) * unit : Nat) : ℚ) /
        wholeQuanta (10 ^ (exponent.natAbs - 308)) - value n exponent| ≤
      (12 / 5 / 2 ^ 53 + δ) / (1 - δ) * value n exponent := by
  have hfirst := first_quotient_close h0
  rw [mul_div_right_comm] at hfirst
  rw [value_eq_of_lt h, Nat.cast_mul]
  exact abs_mul_div_sub_mul_div_le cast_unit_pos
    (div_nonneg (Nat.cast_nonneg n) cast_greatestPower_pos.le) (pow_pos (by norm_num) _) hδ hfirst
    hpower

/-- Far below the least normal magnitude a relative error is less than a quantum. -/
theorem value_le_of_lt {n : Nat} {exponent : Int} (hn : n < 2 ^ 64) (h : exponent < -330) :
    value n exponent ≤ 2 ^ 43 := by
  have hunit : 2 ^ 64 * unit ≤ 2 ^ 43 * (greatestPower * 10 ^ 23) := by decide +kernel
  have hpow : 10 ^ 23 ≤ 10 ^ (exponent.natAbs - 308) :=
    pow_le_pow_right₀ (by omega) (by omega)
  rw [value_of_neg (by omega), div_le_iff₀ (by positivity)]
  have hnat : n * unit ≤ 2 ^ 43 * 10 ^ exponent.natAbs := by
    rw [ten_pow_eq (by omega)]
    calc n * unit ≤ 2 ^ 64 * unit := Nat.mul_le_mul_right unit hn.le
      _ ≤ 2 ^ 43 * (greatestPower * 10 ^ 23) := hunit
      _ ≤ 2 ^ 43 * (greatestPower * 10 ^ (exponent.natAbs - 308)) :=
        Nat.mul_le_mul_left _ (Nat.mul_le_mul_left _ hpow)
  exact_mod_cast hnat

/-- What is scaled close to a decimal is rounded close to its nearest magnitude. -/
theorem abs_sub_nearestQuanta_le {n p q : Nat} {exponent : Int} (hq : 0 < q)
    (h : |(p : ℚ) / q - value n exponent| ≤ 12 / 5 / 2 ^ 53 * value n exponent) :
    |(roundQuanta p q : ℚ) - nearestQuanta n exponent| ≤
      4 * 2 ^ spacing (nearestQuanta n exponent) :=
  abs_roundQuanta_sub_roundQuanta_le (denominator_pos _) hq
    (close_of_relative (denominator_pos _) h)

/-- **A scaled significand is at most four units in the last place off the nearest magnitude.** -/
theorem abs_scaledQuanta_sub_le {n : Nat} (hn : n < 2 ^ 64) (h0 : n ≠ 0) (exponent : Int) :
    |(scaledQuanta n exponent : ℚ) - nearestQuanta n exponent| ≤
      4 * 2 ^ spacing (nearestQuanta n exponent) := by
  have hpower (k : Nat) : 0 < wholeQuanta (10 ^ k) :=
    wholeQuanta_pos (Nat.pow_pos (by omega)).ne'
  unfold scaledQuanta
  dsimp only
  split
  · rename_i hneg
    split
    · exact abs_sub_nearestQuanta_le (hpower _) (quotient_close n hneg)
    · rename_i hk
      by_cases hfew : -330 ≤ exponent
      · -- the second power of ten is not rounded
        have hexact : |(wholeQuanta (10 ^ (exponent.natAbs - 308)) : ℚ) -
            10 ^ (exponent.natAbs - 308) * unit| ≤
              0 * (10 ^ (exponent.natAbs - 308) * unit) := by
          rw [wholeQuanta_ten_pow (by omega), zero_mul]
          push_cast
          rw [sub_self, abs_zero]
        have hclose := second_quotient_close h0 (by omega) (by norm_num) hexact
        rw [add_zero, sub_zero, div_one] at hclose
        exact abs_sub_nearestQuanta_le (hpower _) hclose
      · -- the second power of ten is rounded, and little is left to lose
        have hclose := second_quotient_close h0 (show exponent < -308 by omega) (by norm_num)
          (abs_wholeQuanta_ten_pow_sub_le _)
        have hsmall := value_le_of_lt hn (show exponent < -330 by omega)
        have hstep : (1 : ℚ) ≤ 2 ^ spacing (nearestQuanta n exponent) :=
          one_le_pow₀ (by norm_num)
        refine abs_roundQuanta_sub_roundQuanta_le (denominator_pos _) (hpower _)
          (hclose.trans ?_)
        calc (12 / 5 / 2 ^ 53 + 1 / 2 ^ 53) / (1 - 1 / 2 ^ 53) * value n exponent
            ≤ (12 / 5 / 2 ^ 53 + 1 / 2 ^ 53) / (1 - 1 / 2 ^ 53) * 2 ^ 43 :=
              mul_le_mul_of_nonneg_left hsmall (by norm_num)
          _ ≤ 49 / 20 * 1 := by norm_num
          _ ≤ 49 / 20 * 2 ^ spacing (nearestQuanta n exponent) :=
              mul_le_mul_of_nonneg_left hstep (by norm_num)
  · rename_i hneg
    exact abs_sub_nearestQuanta_le unit_pos (product_close n (by omega))

/-! ## Exact scaling -/

/-- **Few digits and a short power of ten are read exactly.** -/
theorem scaledQuanta_exact {n : Nat} (hn : n < 2 ^ 53) {exponent : Int} (h : exponent.natAbs ≤ 22) :
    scaledQuanta n exponent = nearestQuanta n exponent := by
  have hpower := wholeQuanta_ten_pow h
  unfold scaledQuanta nearestQuanta Decimal.numerator Decimal.denominator
  simp only [hpower, wholeQuanta_of_lt hn]
  split
  · rename_i hneg
    rw [if_pos (by omega), show exponent.toNat = 0 by omega,
      show (-exponent).toNat = exponent.natAbs by omega, Nat.pow_zero, Nat.mul_one,
      roundQuanta_mul _ _ unit_pos]
  · rename_i hneg
    rw [show exponent.toNat = exponent.natAbs by omega, show (-exponent).toNat = 0 by omega,
      Nat.pow_zero, ← roundQuanta_mul _ 1 unit_pos, Nat.one_mul, Nat.mul_mul_mul_comm,
      ← Nat.mul_assoc]

end Json.Reader

end FloorDivision
