/-!
# Rounding to fifty-three significant bits

Every finite double is a whole number of *quanta* of `2 ^ -1074`, so a magnitude is a natural
number here and an exact result is a fraction `n / d` of quanta.

* `roundDiv` — the nearest natural number to a fraction, ties to the even neighbour.
* `roundQuanta` — the nearest magnitude with at most 53 significant bits, by one call of
  `roundDiv` on the grid that the magnitude's leading bit selects.
* `Representable` — the magnitudes a finite double may have.
* `representable_roundQuanta` — rounding yields such a magnitude unless it overflows.
-/

namespace FloorDivision

/-- The natural number nearest to `n / d`, of two equally near ones the even one. -/
def roundDiv (n d : Nat) : Nat :=
  let whole := n / d
  let rest := n % d
  if 2 * rest < d ∨ (2 * rest = d ∧ whole % 2 = 0) then whole else whole + 1

/-- Next to `q` quanta the doubles are `2 ^ spacing q` quanta apart. -/
def spacing (q : Nat) : Nat := q.log2 - 52

/-- The magnitude of 53 significant bits nearest to `n / d` quanta, ties to even. -/
def roundQuanta (n d : Nat) : Nat :=
  let s := spacing (n / d)
  roundDiv n (d <<< s) <<< s

/-- Finite magnitudes need at most this many bits when counted in quanta. -/
def quantaBits : Nat := 2098

/-- The least magnitude that no finite double has. -/
def overflowQuanta : Nat := 1 <<< quantaBits

/-- The magnitudes of finite doubles: 53 significant bits, shifted by at most 2045 places. -/
def Representable (q : Nat) : Prop :=
  ∃ m e, m < 1 <<< 53 ∧ e ≤ 2045 ∧ q = m <<< e

theorem roundDiv_le_succ (n d : Nat) : roundDiv n d ≤ n / d + 1 := by
  unfold roundDiv
  dsimp only
  split <;> omega

theorem div_le_roundDiv (n d : Nat) : n / d ≤ roundDiv n d := by
  unfold roundDiv
  dsimp only
  split <;> omega

theorem one_shiftLeft_lt_iff {a b : Nat} : 1 <<< a < 1 <<< b ↔ a < b := by
  rw [Nat.one_shiftLeft, Nat.one_shiftLeft]
  exact Nat.pow_lt_pow_iff_right Nat.one_lt_two

theorem lt_shiftLeft_spacing (q : Nat) : q < 1 <<< (spacing q + 53) := by
  rw [Nat.one_shiftLeft]
  exact Nat.lt_of_lt_of_le Nat.lt_log2_self
    (Nat.pow_le_pow_right (by omega) (by unfold spacing; omega))

theorem shiftLeft_spacing_le {q : Nat} (h : spacing q ≠ 0) : 1 <<< (spacing q + 52) ≤ q := by
  have hq : q ≠ 0 := by
    intro hq
    subst hq
    exact h (by decide)
  have hs : spacing q + 52 = q.log2 := by unfold spacing at h ⊢; omega
  rw [hs, Nat.one_shiftLeft]
  exact Nat.log2_self_le hq

/-- Grids of a denominator are those of the quotient. -/
theorem div_shiftLeft (n d s : Nat) : n / (d <<< s) = (n / d) >>> s := by
  rw [Nat.shiftLeft_eq, Nat.shiftRight_eq_div_pow, Nat.div_div_eq_div_mul]

/-- On its own grid a magnitude rounds to at most `2 ^ 53`. -/
theorem roundDiv_grid_le (n d : Nat) : roundDiv n (d <<< spacing (n / d)) ≤ 1 <<< 53 := by
  have hlt : n / (d <<< spacing (n / d)) < 1 <<< 53 := by
    rw [div_shiftLeft, Nat.shiftRight_eq_div_pow]
    apply Nat.div_lt_of_lt_mul
    rw [Nat.one_shiftLeft, ← Nat.pow_add, ← Nat.one_shiftLeft]
    exact lt_shiftLeft_spacing _
  have hle := roundDiv_le_succ n (d <<< spacing (n / d))
  omega

/-- Beyond the finest grid a magnitude keeps all of its 53 bits. -/
theorem le_roundDiv_grid (n d : Nat) (h : spacing (n / d) ≠ 0) :
    1 <<< 52 ≤ roundDiv n (d <<< spacing (n / d)) := by
  have hle : 1 <<< 52 ≤ n / (d <<< spacing (n / d)) := by
    rw [div_shiftLeft, Nat.shiftRight_eq_div_pow, Nat.le_div_iff_mul_le (Nat.two_pow_pos _),
      Nat.one_shiftLeft, ← Nat.pow_add, Nat.add_comm, ← Nat.one_shiftLeft]
    exact shiftLeft_spacing_le h
  exact Nat.le_trans hle (div_le_roundDiv _ _)

/-- A rounded magnitude below the overflow threshold is one a finite double has. -/
theorem representable_roundQuanta (n d : Nat) (h : roundQuanta n d < overflowQuanta) :
    Representable (roundQuanta n d) := by
  have hle := roundDiv_grid_le n d
  have hge := le_roundDiv_grid n d
  have hround : roundQuanta n d = roundDiv n (d <<< spacing (n / d)) <<< spacing (n / d) := rfl
  rw [hround] at h ⊢
  generalize hs : spacing (n / d) = s at *
  generalize roundDiv n (d <<< s) = r at *
  have hbound : s ≠ 0 → s + 52 < quantaBits := by
    intro h0
    have hlt : 1 <<< (s + 52) < overflowQuanta := by
      refine Nat.lt_of_le_of_lt ?_ h
      rw [Nat.add_comm, Nat.shiftLeft_add]
      rw [Nat.shiftLeft_eq, Nat.shiftLeft_eq r]
      exact Nat.mul_le_mul_right _ (hge h0)
    exact one_shiftLeft_lt_iff.1 hlt
  by_cases hr : r = 1 <<< 53
  · subst hr
    have hlt : 53 + s < quantaBits := one_shiftLeft_lt_iff.1 (by rw [Nat.shiftLeft_add]; exact h)
    unfold quantaBits at hlt
    refine ⟨1 <<< 52, s + 1, by decide, by omega, ?_⟩
    rw [← Nat.shiftLeft_add, ← Nat.shiftLeft_add]
    congr 1
    omega
  · refine ⟨r, s, by omega, ?_, rfl⟩
    by_cases h0 : s = 0
    · omega
    · have := hbound h0
      unfold quantaBits at this
      omega

end FloorDivision
