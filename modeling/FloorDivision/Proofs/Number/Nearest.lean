import FloorDivision.Proofs.Number.Rounding
import Mathlib.Algebra.Order.Field.Basic
import Mathlib.Algebra.Order.Ring.Abs
import Mathlib.Data.Nat.Cast.Order.Field
import Mathlib.Data.Rat.Cast.Order
import Mathlib.Tactic.FieldSimp
import Mathlib.Tactic.Linarith
import Mathlib.Tactic.NormNum
import Mathlib.Tactic.Positivity

/-!
# How near a rounded magnitude is

* `abs_roundDiv_sub_le`, `abs_roundQuanta_sub_le` — rounding to a grid is off by at most half a
  step of it.
* `Nearest`, `nearest_roundQuanta` — no magnitude of a finite double is nearer to a fraction than
  the rounded one, and of two equally near ones it has the even last place.
* `spacing_le_roundQuanta` — the step at the fraction is at most the one at what it is rounded to.
* `abs_roundQuanta_sub_le_max` — the error against the magnitude itself.
-/

namespace FloorDivision

theorem Double.cast_unit_pos : (0 : ℚ) < Double.unit := by exact_mod_cast Double.unit_pos

/-! ## The nearest natural number -/

section RoundDiv

variable (n : Nat) {d : Nat}

/-- A fraction in two parts, the second below one. -/
theorem cast_div_eq (hd : 0 < d) : (n : ℚ) / d = (n / d : Nat) + ((n % d : Nat) : ℚ) / d := by
  have hd' : (d : ℚ) ≠ 0 := by exact_mod_cast hd.ne'
  have hn : (n : ℚ) = d * (n / d : Nat) + (n % d : Nat) := by
    exact_mod_cast (Nat.div_add_mod n d).symm
  field_simp
  linarith

/-- What rounding leaves out or adds is less than half a step, or half of one and the result
even. -/
theorem abs_roundDiv_sub_cases (hd : 0 < d) :
    |(roundDiv n d : ℚ) - n / d| < 1 / 2 ∨
      (|(roundDiv n d : ℚ) - n / d| = 1 / 2 ∧ roundDiv n d % 2 = 0) := by
  have hd' : (0 : ℚ) < d := by exact_mod_cast hd
  have hrest : (0 : ℚ) ≤ ((n % d : Nat) : ℚ) / d := by positivity
  have hless : ((n % d : Nat) : ℚ) / d < 1 := by
    rw [div_lt_one hd']
    exact_mod_cast Nat.mod_lt n hd
  have hbelow : 2 * (n % d) < d → ((n % d : Nat) : ℚ) / d < 1 / 2 := by
    intro h
    rw [div_lt_div_iff₀ hd' (by norm_num)]
    exact_mod_cast (by omega : n % d * 2 < 1 * d)
  have hhalf : 2 * (n % d) = d → ((n % d : Nat) : ℚ) / d = 1 / 2 := by
    intro h
    rw [div_eq_div_iff hd'.ne' (by norm_num)]
    exact_mod_cast (by omega : n % d * 2 = 1 * d)
  have habove : d < 2 * (n % d) → 1 / 2 < ((n % d : Nat) : ℚ) / d := by
    intro h
    rw [div_lt_div_iff₀ (by norm_num) hd']
    exact_mod_cast (by omega : 1 * d < n % d * 2)
  rw [cast_div_eq n hd]
  unfold roundDiv
  dsimp only
  split
  · rename_i h
    rw [show ∀ w t : ℚ, w - (w + t) = -t from fun w t => by ring, abs_neg, abs_of_nonneg hrest]
    rcases h with h | ⟨h, heven⟩
    · exact Or.inl (hbelow h)
    · exact Or.inr ⟨hhalf h, heven⟩
  · rename_i h
    push_cast
    rw [show ∀ w t : ℚ, w + 1 - (w + t) = 1 - t from fun w t => by ring,
      abs_of_nonneg (by linarith)]
    by_cases htie : 2 * (n % d) = d
    · have := hhalf htie
      exact Or.inr ⟨by linarith, by omega⟩
    · have := habove (by omega)
      exact Or.inl (by linarith)

theorem abs_roundDiv_sub_le (hd : 0 < d) : |(roundDiv n d : ℚ) - n / d| ≤ 1 / 2 := by
  rcases abs_roundDiv_sub_cases n hd with h | h
  · exact h.le
  · exact h.1.le

/-- Two natural numbers are not both within less than half of a third one. -/
theorem one_le_abs_sub_add_abs_sub {x : ℚ} {p q : Nat} (h : p ≠ q) :
    1 ≤ |(p : ℚ) - x| + |(q : ℚ) - x| := by
  have hstep : (1 : ℚ) ≤ |(p : ℚ) - q| := by
    exact_mod_cast Int.one_le_abs (show (p : ℤ) - q ≠ 0 by omega)
  calc (1 : ℚ) ≤ |(p : ℚ) - q| := hstep
    _ ≤ |(p : ℚ) - x| + |x - q| := abs_sub_le _ _ _
    _ = |(p : ℚ) - x| + |(q : ℚ) - x| := by rw [abs_sub_comm x]

theorem abs_roundDiv_sub_le_abs_sub (hd : 0 < d) (p : Nat) :
    |(roundDiv n d : ℚ) - n / d| ≤ |(p : ℚ) - n / d| := by
  by_cases h : p = roundDiv n d
  · rw [h]
  · have := one_le_abs_sub_add_abs_sub (x := n / d) h
    have := abs_roundDiv_sub_le n hd
    linarith

/-- Of two equally near natural numbers the even one is taken. -/
theorem roundDiv_even_of_tie (hd : 0 < d) {p : Nat} (h : p ≠ roundDiv n d)
    (htie : |(roundDiv n d : ℚ) - n / d| = |(p : ℚ) - n / d|) : roundDiv n d % 2 = 0 := by
  have hapart := one_le_abs_sub_add_abs_sub (x := n / d) h
  rcases abs_roundDiv_sub_cases n hd with hless | ⟨-, heven⟩
  · linarith
  · exact heven

end RoundDiv

/-! ## The nearest magnitude -/

section RoundQuanta

variable (n : Nat) {d : Nat}

theorem cast_shiftLeft (m s : Nat) : ((m <<< s : Nat) : ℚ) = m * 2 ^ s := by
  rw [Nat.shiftLeft_eq]
  push_cast
  rfl

/-- The distance between a multiple of a step and a fraction, counted in steps. -/
theorem abs_shiftLeft_sub (m s : Nat) (hd : 0 < d) :
    |((m <<< s : Nat) : ℚ) - n / d| = |(m : ℚ) - n / (d <<< s : Nat)| * 2 ^ s := by
  have hd' : (d : ℚ) ≠ 0 := by exact_mod_cast hd.ne'
  have hstep : (0 : ℚ) < 2 ^ s := by positivity
  have hscale : ((m <<< s : Nat) : ℚ) - n / d = ((m : ℚ) - n / (d <<< s : Nat)) * 2 ^ s := by
    rw [cast_shiftLeft, cast_shiftLeft]
    field_simp
  rw [hscale, abs_mul, abs_of_pos hstep]

theorem shiftLeft_pos (s : Nat) (hd : 0 < d) : 0 < d <<< s := by
  rw [Nat.shiftLeft_eq]
  exact Nat.mul_pos hd (Nat.two_pow_pos s)

/-- **Rounding is off by at most half a step.** -/
theorem abs_roundQuanta_sub_le (hd : 0 < d) :
    |(roundQuanta n d : ℚ) - n / d| ≤ 2 ^ spacing (n / d) / 2 := by
  unfold roundQuanta
  dsimp only
  rw [abs_shiftLeft_sub n _ _ hd]
  have := abs_roundDiv_sub_le n (shiftLeft_pos (spacing (n / d)) hd)
  have hstep : (0 : ℚ) < 2 ^ spacing (n / d) := by positivity
  nlinarith

end RoundQuanta

/-! ## Steps -/

theorem two_pow_spacing_le {q : Nat} (h : spacing q ≠ 0) : 2 ^ (spacing q + 52) ≤ q := by
  rw [← Nat.one_shiftLeft]
  exact shiftLeft_spacing_le h

theorem lt_two_pow_spacing (q : Nat) : q < 2 ^ (spacing q + 53) := by
  rw [← Nat.one_shiftLeft]
  exact lt_shiftLeft_spacing q

/-- A magnitude of enough bits has at least the step that they call for. -/
theorem le_spacing {q s : Nat} (h : 2 ^ (s + 52) ≤ q) : s ≤ spacing q := by
  have hq : q ≠ 0 := by
    have := Nat.two_pow_pos (s + 52)
    omega
  have := (Nat.le_log2 hq).mpr h
  unfold spacing
  omega

/-- **Rounding does not make a step finer.** -/
theorem spacing_le_roundQuanta (n d : Nat) : spacing (n / d) ≤ spacing (roundQuanta n d) := by
  by_cases h0 : spacing (n / d) = 0
  · omega
  · have hreach := one_shiftLeft_le_roundQuanta (shiftLeft_spacing_le h0)
    rw [Nat.one_shiftLeft] at hreach
    exact le_spacing hreach

/-- A step is one quantum or a small part of the magnitude. -/
theorem two_pow_spacing_le_max (q : Nat) : (2 : ℚ) ^ spacing q ≤ max 1 ((q : ℚ) / 2 ^ 52) := by
  by_cases h0 : spacing q = 0
  · simp [h0]
  · apply le_max_of_le_right
    rw [le_div_iff₀ (by positivity), ← pow_add]
    exact_mod_cast two_pow_spacing_le h0

/-- The error against the magnitude: half a quantum, or one part in `2 ^ 53`. -/
theorem abs_roundQuanta_sub_le_max (n : Nat) {d : Nat} (hd : 0 < d) :
    |(roundQuanta n d : ℚ) - n / d| ≤ max (1 / 2) ((n : ℚ) / d / 2 ^ 53) := by
  have hfloor : ((n / d : Nat) : ℚ) ≤ (n : ℚ) / d := Nat.cast_div_le
  have hstep := two_pow_spacing_le_max (n / d)
  refine (abs_roundQuanta_sub_le n hd).trans ?_
  rcases le_max_iff.mp hstep with h | h
  · exact le_max_of_le_left (by linarith)
  · apply le_max_of_le_right
    have hpart : ((n / d : Nat) : ℚ) / 2 ^ 52 ≤ (n : ℚ) / d / 2 ^ 52 := by gcongr
    calc (2 : ℚ) ^ spacing (n / d) / 2 ≤ (n : ℚ) / d / 2 ^ 52 / 2 := by linarith
      _ = (n : ℚ) / d / 2 ^ 53 := by ring

/-! ## The nearest magnitude, ties to even -/

/-- No magnitude that a finite double has, or would have if the exponent were not bounded, is nearer
to `n / d` quanta than `q`, and another one is as near only if the last place of `q` is even. -/
structure Nearest (n d q : Nat) : Prop where
  nearest : ∀ p, Representable p → |(q : ℚ) - n / d| ≤ |(p : ℚ) - n / d|
  even : ∀ p, Representable p → p ≠ q → |(q : ℚ) - n / d| = |(p : ℚ) - n / d| →
    (q >>> spacing q) % 2 = 0

/-- A magnitude that a finite double has is a multiple of every step that is not beyond it. -/
theorem exists_eq_shiftLeft {p s : Nat} (hp : Representable p) (hs : s = 0 ∨ 2 ^ (s + 52) ≤ p) :
    ∃ m, p = m <<< s := by
  obtain ⟨m, e, hm, -, rfl⟩ := hp
  have hle : s ≤ e := by
    rcases hs with rfl | hs
    · omega
    · by_contra hlt
      have hless : m <<< e < 2 ^ (e + 53) := by
        rw [Nat.shiftLeft_eq, Nat.add_comm, Nat.pow_add, ← Nat.one_shiftLeft 53]
        exact Nat.mul_lt_mul_of_pos_right hm (Nat.two_pow_pos e)
      have hpow : 2 ^ (e + 53) ≤ 2 ^ (s + 52) := Nat.pow_le_pow_right (by omega) (by omega)
      omega
  exact ⟨m <<< (e - s), by rw [← Nat.shiftLeft_add, Nat.sub_add_cancel hle]⟩

/-- A magnitude below the multiples of the step is farther away than the rounded one. -/
theorem abs_roundQuanta_sub_lt {n d p : Nat} (hd : 0 < d) (hs : spacing (n / d) ≠ 0)
    (hp : p < 2 ^ (spacing (n / d) + 52)) :
    |(roundQuanta n d : ℚ) - n / d| < |(p : ℚ) - n / d| := by
  have hfloor : ((n / d : Nat) : ℚ) ≤ (n : ℚ) / d := Nat.cast_div_le
  have hleast : ((1 <<< 52 : Nat) <<< spacing (n / d)) = 2 ^ (spacing (n / d) + 52) := by
    rw [← Nat.shiftLeft_add, Nat.one_shiftLeft, Nat.add_comm]
  have hreached : ((2 ^ (spacing (n / d) + 52) : Nat) : ℚ) ≤ (n : ℚ) / d :=
    le_trans (by exact_mod_cast two_pow_spacing_le hs) hfloor
  have hbelow : (p : ℚ) < (2 ^ (spacing (n / d) + 52) : Nat) := by exact_mod_cast hp
  have hstep : (0 : ℚ) < 2 ^ spacing (n / d) := by positivity
  calc |(roundQuanta n d : ℚ) - n / d|
      ≤ |((1 <<< 52 : Nat) <<< spacing (n / d) : Nat) - (n : ℚ) / d| := by
        unfold roundQuanta
        dsimp only
        rw [abs_shiftLeft_sub n _ _ hd, abs_shiftLeft_sub n _ _ hd]
        have := abs_roundDiv_sub_le_abs_sub n (shiftLeft_pos (spacing (n / d)) hd) (1 <<< 52)
        gcongr
    _ = n / d - (2 ^ (spacing (n / d) + 52) : Nat) := by
        rw [hleast, abs_of_nonpos (by linarith), neg_sub]
    _ < n / d - p := by linarith
    _ = |(p : ℚ) - n / d| := by rw [abs_of_neg (by linarith), neg_sub]

/-- The last place of a rounded magnitude is that of the rounded number of steps, unless the
rounding has reached the next power of two. -/
theorem roundQuanta_shiftRight_even {n d : Nat}
    (h : roundDiv n (d <<< spacing (n / d)) % 2 = 0) :
    (roundQuanta n d >>> spacing (roundQuanta n d)) % 2 = 0 := by
  have hle := roundDiv_grid_le n d
  have hspacing := spacing_le_roundQuanta n d
  have hround : roundQuanta n d = roundDiv n (d <<< spacing (n / d)) <<< spacing (n / d) := rfl
  rw [hround] at hspacing ⊢
  generalize roundDiv n (d <<< spacing (n / d)) = r at *
  generalize spacing (n / d) = s at *
  rcases Nat.lt_or_ge r (1 <<< 53) with hr | hr
  · have hs : spacing (r <<< s) = s := Nat.le_antisymm (spacing_le hr) hspacing
    rw [hs, Nat.shiftLeft_shiftRight]
    exact h
  · have hr : r = 1 <<< 52 <<< 1 := Nat.le_antisymm hle hr
    have hq : r <<< s = 1 <<< (s + 53) := by
      rw [hr, ← Nat.shiftLeft_add, ← Nat.shiftLeft_add]
      congr 1
      omega
    have hs : spacing (r <<< s) = s + 1 := by
      rw [hq, Nat.one_shiftLeft, spacing, Nat.log2_two_pow]
      omega
    rw [hs, hr, ← Nat.shiftLeft_add, Nat.add_comm 1 s, Nat.shiftLeft_shiftRight]
    rfl

/-- **A rounded magnitude is the nearest one, ties to even.** -/
theorem nearest_roundQuanta (n : Nat) {d : Nat} (hd : 0 < d) : Nearest n d (roundQuanta n d) := by
  have hgrid := shiftLeft_pos (spacing (n / d)) hd
  -- a magnitude is a multiple of the step, or else it is strictly farther away
  have hcases : ∀ p, Representable p →
      (∃ m, p = m <<< spacing (n / d)) ∨ |(roundQuanta n d : ℚ) - n / d| < |(p : ℚ) - n / d| := by
    intro p hp
    by_cases hs : spacing (n / d) = 0 ∨ 2 ^ (spacing (n / d) + 52) ≤ p
    · exact Or.inl (exists_eq_shiftLeft hp hs)
    · exact Or.inr (abs_roundQuanta_sub_lt hd (by omega) (by omega))
  constructor
  · intro p hp
    rcases hcases p hp with ⟨m, rfl⟩ | hless
    · unfold roundQuanta
      dsimp only
      rw [abs_shiftLeft_sub n _ _ hd, abs_shiftLeft_sub n _ _ hd]
      have := abs_roundDiv_sub_le_abs_sub n hgrid m
      gcongr
    · exact hless.le
  · intro p hp hne htie
    rcases hcases p hp with ⟨m, rfl⟩ | hless
    · apply roundQuanta_shiftRight_even
      have hstep : (2 : ℚ) ^ spacing (n / d) ≠ 0 := by positivity
      unfold roundQuanta at htie hne
      dsimp only at htie hne
      rw [abs_shiftLeft_sub n _ _ hd, abs_shiftLeft_sub n _ _ hd] at htie
      exact roundDiv_even_of_tie n hgrid (fun h => hne (by rw [h])) (mul_right_cancel₀ hstep htie)
    · linarith

end FloorDivision
