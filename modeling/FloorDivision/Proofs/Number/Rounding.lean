import FloorDivision.Number.Double
import Mathlib.Tactic.Ring

/-!
# What rounding depends on

* `roundQuanta_mul` — rounding depends on a fraction only, not on how it is written.
* `roundQuanta_of_representable` — a magnitude with few enough bits is left as it is.
* `roundQuanta_eq_zero`, `overflowQuanta_le_roundQuanta` — fractions below half a quantum and
  magnitudes out of range.
* `Double.round_mul`, `Double.round_quanta` and the like — the same for signed doubles.
-/

namespace FloorDivision

/-! ## Magnitudes -/

theorem one_shiftLeft_pos (k : Nat) : 0 < 1 <<< k := by
  rw [Nat.one_shiftLeft]
  exact Nat.two_pow_pos k

theorem roundDiv_mul (n d : Nat) {c : Nat} (hc : 0 < c) :
    roundDiv (n * c) (d * c) = roundDiv n d := by
  have hrest : n * c % (d * c) = n % d * c := Nat.mul_mod_mul_right c n d
  have hless : 2 * (n % d * c) < d * c ↔ 2 * (n % d) < d := by
    rw [← Nat.mul_assoc]
    exact Nat.mul_lt_mul_right hc
  have htie : 2 * (n % d * c) = d * c ↔ 2 * (n % d) = d := by
    rw [← Nat.mul_assoc]
    exact Nat.mul_left_inj (by omega)
  simp only [roundDiv, Nat.mul_div_mul_right n d hc, hrest, hless, htie]

/-- Rounding depends on a fraction only. -/
theorem roundQuanta_mul (n d : Nat) {c : Nat} (hc : 0 < c) :
    roundQuanta (n * c) (d * c) = roundQuanta n d := by
  have hgrid : ∀ s, (d * c) <<< s = d <<< s * c := by
    intro s
    simp only [Nat.shiftLeft_eq]
    ring
  simp only [roundQuanta, Nat.mul_div_mul_right n d hc, hgrid, roundDiv_mul n _ hc]

theorem roundDiv_of_dvd {n d : Nat} (hd : 0 < d) (h : d ∣ n) : roundDiv n d = n / d := by
  simp [roundDiv, Nat.mod_eq_zero_of_dvd h, hd]

theorem spacing_le {m e : Nat} (hm : m < 1 <<< 53) : spacing (m <<< e) ≤ e := by
  have hlt : m <<< e < 2 ^ (e + 53) := by
    rw [Nat.shiftLeft_eq, Nat.add_comm, Nat.pow_add]
    rw [Nat.one_shiftLeft] at hm
    exact Nat.mul_lt_mul_of_pos_right hm (Nat.two_pow_pos e)
  unfold spacing
  by_cases h0 : m <<< e = 0
  · simp [h0]
  · have hlog := (Nat.log2_lt h0).mpr hlt
    omega

/-- **A magnitude that a finite double has is left as it is.** -/
theorem roundQuanta_of_representable {q : Nat} (h : Representable q) : roundQuanta q 1 = q := by
  obtain ⟨m, e, hm, -, rfl⟩ := h
  have hs := spacing_le hm (e := e)
  simp only [roundQuanta, Nat.div_one]
  generalize spacing (m <<< e) = s at hs ⊢
  have hdvd : 2 ^ s ∣ m <<< e := by
    rw [Nat.shiftLeft_eq]
    exact Dvd.dvd.mul_left (Nat.pow_dvd_pow 2 hs) m
  rw [Nat.one_shiftLeft, roundDiv_of_dvd (Nat.two_pow_pos s) hdvd, Nat.shiftLeft_eq _ s,
    Nat.div_mul_cancel hdvd]

theorem lt_overflowQuanta {q : Nat} (h : Representable q) : q < overflowQuanta := by
  obtain ⟨m, e, hm, he, rfl⟩ := h
  unfold overflowQuanta quantaBits
  rw [Nat.one_shiftLeft] at hm ⊢
  calc m <<< e = m * 2 ^ e := Nat.shiftLeft_eq m e
    _ < 2 ^ 53 * 2 ^ e := Nat.mul_lt_mul_of_pos_right hm (Nat.two_pow_pos e)
    _ = 2 ^ (53 + e) := (Nat.pow_add 2 53 e).symm
    _ ≤ 2 ^ 2098 := Nat.pow_le_pow_right (by omega) (by omega)

theorem representable_mul_two_pow {m e : Nat} (hm : m < 2 ^ 53) (he : e ≤ 2045) :
    Representable (m * 2 ^ e) :=
  ⟨m, e, by rwa [Nat.one_shiftLeft], he, (Nat.shiftLeft_eq m e).symm⟩

theorem mul_one_shiftLeft (n k : Nat) : n * 1 <<< k = n <<< k := by
  rw [Nat.one_shiftLeft, Nat.shiftLeft_eq]

/-- Whole numbers of few enough bits are doubles. -/
theorem representable_whole {n : Nat} (hn : n < 2 ^ 53) : Representable (n * Double.unit) :=
  ⟨n, 1074, by rwa [Nat.one_shiftLeft], by decide, mul_one_shiftLeft n 1074⟩

/-- Less than half a quantum is rounded to nothing. -/
theorem roundQuanta_eq_zero {n d : Nat} (h : 2 * n < d) : roundQuanta n d = 0 := by
  have hdiv : n / d = 0 := Nat.div_eq_of_lt (by omega)
  have hmod : n % d = n := Nat.mod_eq_of_lt (by omega)
  simp [roundQuanta, roundDiv, hdiv, hmod, h, show spacing 0 = 0 from rfl]

/-- Rounding does not fall below a power of two that a magnitude has reached. -/
theorem one_shiftLeft_le_roundQuanta {n d j : Nat} (h : 1 <<< j ≤ n / d) :
    1 <<< j ≤ roundQuanta n d := by
  have hq : n / d ≠ 0 := by
    intro h0
    rw [h0, Nat.one_shiftLeft] at h
    have := Nat.two_pow_pos j
    omega
  have hspacing : spacing (n / d) ≤ (n / d).log2 := by
    unfold spacing
    omega
  have hlead : 2 ^ ((n / d).log2 - spacing (n / d)) ≤ n / d / 2 ^ spacing (n / d) := by
    rw [Nat.le_div_iff_mul_le (Nat.two_pow_pos _), ← Nat.pow_add, Nat.sub_add_cancel hspacing]
    exact Nat.log2_self_le hq
  have hround := div_le_roundDiv n (d <<< spacing (n / d))
  rw [div_shiftLeft, Nat.shiftRight_eq_div_pow] at hround
  have hj : j ≤ (n / d).log2 := by
    rw [Nat.one_shiftLeft] at h
    exact (Nat.le_log2 hq).mpr h
  unfold roundQuanta
  calc 1 <<< j = 2 ^ j := Nat.one_shiftLeft j
    _ ≤ 2 ^ (n / d).log2 := Nat.pow_le_pow_right (by omega) hj
    _ = 2 ^ ((n / d).log2 - spacing (n / d)) * 2 ^ spacing (n / d) := by
      rw [← Nat.pow_add, Nat.sub_add_cancel hspacing]
    _ ≤ roundDiv n (d <<< spacing (n / d)) * 2 ^ spacing (n / d) :=
      Nat.mul_le_mul_right _ (hlead.trans hround)
    _ = _ := (Nat.shiftLeft_eq _ _).symm

theorem overflowQuanta_le_roundQuanta {n d : Nat} (h : overflowQuanta ≤ n / d) :
    overflowQuanta ≤ roundQuanta n d := one_shiftLeft_le_roundQuanta h

/-! ## Signed doubles -/

namespace Double

variable {negative : Bool} {n d q : Nat}

theorem unit_pos : 0 < unit := one_shiftLeft_pos _

theorem isFinite_round : (round negative n d).isFinite = true ↔ roundQuanta n d < overflowQuanta := by
  unfold round
  split <;> simp_all [isFinite]

theorem round_of_eq (h : roundQuanta n d = q) (hq : Representable q) :
    round negative n d = .finite negative q hq := by
  subst h
  exact dif_pos (lt_overflowQuanta hq)

theorem round_mul (negative : Bool) (n d : Nat) {c : Nat} (hc : 0 < c) :
    round negative (n * c) (d * c) = round negative n d := by
  simp only [round, roundQuanta_mul n d hc]

/-- A whole number of quanta that a finite double has is left as it is. -/
theorem round_quanta (negative : Bool) (hq : Representable q) :
    round negative q 1 = .finite negative q hq :=
  round_of_eq (roundQuanta_of_representable hq) hq

theorem round_of_small (negative : Bool) (h : 2 * n < d) : round negative n d = .zero negative :=
  round_of_eq (roundQuanta_eq_zero h) representable_zero

theorem round_of_large (negative : Bool) (h : overflowQuanta ≤ n / d) :
    round negative n d = .infinite negative :=
  dif_neg (Nat.not_lt.mpr (overflowQuanta_le_roundQuanta h))

end Double

end FloorDivision
