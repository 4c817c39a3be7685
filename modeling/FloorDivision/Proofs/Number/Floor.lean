import FloorDivision.Number.Floor
import Mathlib.Data.Rat.Floor

/-!
# The quotient of machine integers

* `fdiv_eq_of_remainder` — a quotient whose remainder is smaller than the divisor and has its
  sign is the floored one.
* `toInt_quotient`, `toInt_remainder`, `toInt_stepped` — truncating machine division, its remainder
  and the step down stay in range, but for the least integer divided by minus one.
* `toInt_of_intFloorDivide` — machine integers are divided like integers of any size.
* `FitsWord`, `intFloorDivide_cases` — which quotients are machine integers again.
* `fdiv_eq_floor` — the quotient is the floor of the rational one.
-/

namespace FloorDivision

/-- The floored quotient is the one whose remainder lies between zero and the divisor. -/
theorem fdiv_eq_of_remainder {a b q r : Int} (h : a = b * q + r)
    (hr : (0 ≤ r ∧ r < b) ∨ (b < r ∧ r ≤ 0)) : a.fdiv b = q := by
  rcases hr with ⟨h0, hb⟩ | ⟨hb, h0⟩
  · rw [Int.fdiv_eq_ediv_of_nonneg a (by omega)]
    exact (Int.ediv_emod_unique (by omega)).mpr ⟨by omega, h0, hb⟩ |>.1
  · rw [← Int.neg_fdiv_neg, Int.fdiv_eq_ediv_of_nonneg (-a) (by omega)]
    refine ((Int.ediv_emod_unique (by omega)).mpr ⟨?_, ?_, ?_⟩ : _ ∧ -a % -b = -r).1
    · rw [h, Int.neg_mul]; omega
    · omega
    · omega

theorem natAbs_tmod_lt {b : Int} (a : Int) (hb : b ≠ 0) : (a.tmod b).natAbs < b.natAbs := by
  rw [Int.natAbs_tmod]
  exact Nat.mod_lt _ (by omega)

/-- Truncation stands one above the floor where the remainder's sign is not the divisor's. -/
theorem fdiv_of_sign_ne {a b : Int} (hb : b ≠ 0) (hr : a.tmod b ≠ 0)
    (hs : a.tmod b < 0 ↔ ¬b < 0) : a.fdiv b = a.tdiv b - 1 := by
  have hdef := Int.mul_tdiv_add_tmod a b
  have hlt := natAbs_tmod_lt a hb
  exact fdiv_eq_of_remainder (r := a.tmod b + b) (by rw [Int.mul_sub]; omega) (by omega)

theorem fdiv_of_sign_eq {a b : Int} (hb : b ≠ 0) (hs : a.tmod b = 0 ∨ (a.tmod b < 0 ↔ b < 0)) :
    a.fdiv b = a.tdiv b := by
  have hdef := Int.mul_tdiv_add_tmod a b
  have hlt := natAbs_tmod_lt a hb
  exact fdiv_eq_of_remainder (r := a.tmod b) (by omega) (by omega)

section Machine

variable {a b : Int64}

/-- Truncating division is exact but for the least integer divided by minus one. -/
theorem toInt_quotient (hx : ¬(b = -1 ∧ a = Int64.minValue)) :
    (a / b).toInt = a.toInt.tdiv b.toInt := by
  by_cases hb : b = -1
  · exact Int64.toInt_div_of_ne_left a b fun ha => hx ⟨hb, ha⟩
  · exact Int64.toInt_div_of_ne_right a b hb

theorem toInt_ne_zero (hb : b ≠ 0) : b.toInt ≠ 0 := fun h =>
  hb (Int64.toInt_inj.mp (by rw [h, Int64.toInt_zero]))

/-- The remainder does not leave the machine integers on its way. -/
theorem toInt_remainder (hb : b ≠ 0) (hx : ¬(b = -1 ∧ a = Int64.minValue)) :
    (a - a / b * b).toInt = a.toInt.tmod b.toInt := by
  have hlo := b.le_toInt
  have hhi := b.toInt_lt
  have hlt := natAbs_tmod_lt a.toInt (toInt_ne_zero hb)
  rw [Int64.toInt_sub, Int64.toInt_mul, toInt_quotient hx, Int.sub_bmod_bmod, Int.mul_comm,
    ← Int.tmod_def]
  exact Int.bmod_eq_of_le (by omega) (by omega)

/-- A quotient that leaves a remainder is far from the ends of the machine integers. -/
theorem natAbs_tdiv_le_half {a b : Int} (hr : a.tmod b ≠ 0) (hb : b ≠ 0) :
    2 * (a.tdiv b).natAbs ≤ a.natAbs := by
  have hlt := natAbs_tmod_lt a hb
  have htwo : 2 ≤ b.natAbs := by omega
  rw [Int.natAbs_tdiv]
  calc 2 * (a.natAbs / b.natAbs) ≤ b.natAbs * (a.natAbs / b.natAbs) :=
        Nat.mul_le_mul_right _ htwo
    _ ≤ a.natAbs := Nat.mul_div_le _ _

/-- The step down from a quotient that leaves a remainder stays in range. -/
theorem toInt_stepped (hb : b ≠ 0) (hx : ¬(b = -1 ∧ a = Int64.minValue))
    (hr : a.toInt.tmod b.toInt ≠ 0) : (a / b - 1).toInt = a.toInt.tdiv b.toInt - 1 := by
  have hhalf := natAbs_tdiv_le_half hr (toInt_ne_zero hb)
  have hlo := a.le_toInt
  have hhi := a.toInt_lt
  rw [Int64.toInt_sub, toInt_quotient hx, Int64.toInt_one]
  exact Int.bmod_eq_of_le (by omega) (by omega)

theorem isNegative_eq (x : Int64) : decide (x < 0) = decide (x.toInt < 0) :=
  decide_eq_decide.mpr (by rw [Int64.lt_iff_toInt_lt, Int64.toInt_zero])

theorem floatFloorDivide_of_isZero {a b : Double} (h : b.isZero = true) :
    floatFloorDivide a b = .error .divisionByZero := by
  unfold floatFloorDivide
  rw [if_pos h]

theorem exists_floatFloorDivide {a b : Double} (h : b.isZero = false) :
    ∃ q, floatFloorDivide a b = .ok q := by
  unfold floatFloorDivide
  rw [if_neg (by simp [h])]
  exact ⟨_, (apply_ite Except.ok _ _ _).symm⟩

theorem intFloorDivide_ne_error (hb : b ≠ 0) {e : DivisionByZero} :
    intFloorDivide a b ≠ .error e := by
  unfold intFloorDivide
  rw [if_neg hb]
  intro h
  split at h
  · cases h
  · dsimp only at h
    split at h
    · cases h
    · cases h

/-- **Machine integers are divided like integers of any size.** -/
theorem toInt_of_intFloorDivide {q : Int64} (h : intFloorDivide a b = .ok (some q)) :
    q.toInt = a.toInt.fdiv b.toInt := by
  unfold intFloorDivide at h
  split at h
  · cases h
  rename_i hb
  split at h
  · cases h
  rename_i hx
  have hb0 := toInt_ne_zero hb
  have hquotient := toInt_quotient hx
  have hremainder := toInt_remainder hb hx
  dsimp only at h
  rw [isNegative_eq, isNegative_eq, hremainder] at h
  split at h
  · rename_i hs
    cases h
    obtain ⟨hr, hsign⟩ := hs
    have hr0 : a.toInt.tmod b.toInt ≠ 0 := hremainder ▸ toInt_ne_zero hr
    have hne : ¬(a.toInt.tmod b.toInt < 0 ↔ b.toInt < 0) := fun h => hsign (decide_eq_decide.mpr h)
    rw [fdiv_of_sign_ne hb0 hr0 (by omega), toInt_stepped hb hx hr0]
  · rename_i hs
    cases h
    rw [hquotient]
    refine (fdiv_of_sign_eq hb0 ?_).symm
    by_cases hr : a - a / b * b = 0
    · exact Or.inl (by rw [← hremainder, hr, Int64.toInt_zero])
    · exact Or.inr (by simpa [hr] using hs)

/-! ## Quotients that are machine integers again -/

/-- The integers that a machine word holds. -/
def FitsWord (n : Int) : Prop := Int64.minValue.toInt ≤ n ∧ n ≤ Int64.maxValue.toInt

instance (n : Int) : Decidable (FitsWord n) := inferInstanceAs (Decidable (_ ∧ _))

theorem fitsWord_toInt (a : Int64) : FitsWord a.toInt :=
  ⟨a.minValue_le_toInt, a.toInt_le⟩

theorem toInt_ofInt_iff {n : Int} : (Int64.ofInt n).toInt = n ↔ FitsWord n := by
  constructor
  · intro h
    exact h ▸ fitsWord_toInt _
  · rintro ⟨hlo, hhi⟩
    exact Int64.toInt_ofInt_of_le hlo (Int.lt_add_one_of_le hhi)

/-- The one quotient that leaves the machine integers. -/
theorem not_fitsWord_of_none (h : intFloorDivide a b = .ok none) :
    ¬FitsWord (a.toInt.fdiv b.toInt) := by
  unfold intFloorDivide at h
  split at h
  · cases h
  · split at h
    · rename_i hx
      obtain ⟨rfl, rfl⟩ := hx
      decide
    · dsimp only at h
      split at h
      · cases h
      · cases h

/-- **Machine integers are refused a zero**, and else their quotient is a machine integer if it
fits. -/
theorem intFloorDivide_cases (a b : Int64) :
    (b.toInt = 0 ∧ intFloorDivide a b = .error .divisionByZero) ∨
      b.toInt ≠ 0 ∧ ((∃ q, intFloorDivide a b = .ok (some q) ∧ q.toInt = a.toInt.fdiv b.toInt) ∨
        intFloorDivide a b = .ok none ∧ ¬FitsWord (a.toInt.fdiv b.toInt)) := by
  by_cases hb : b = 0
  · subst hb
    exact Or.inl ⟨Int64.toInt_zero, rfl⟩
  · refine Or.inr ⟨toInt_ne_zero hb, ?_⟩
    cases h : intFloorDivide a b with
    | error => exact absurd h (intFloorDivide_ne_error hb)
    | ok quotient =>
      cases quotient with
      | none => exact Or.inr ⟨rfl, not_fitsWord_of_none h⟩
      | some q => exact Or.inl ⟨q, rfl, toInt_of_intFloorDivide h⟩

end Machine

/-- **The quotient is the floor of the rational one.** -/
theorem fdiv_eq_floor (a b : Int) : a.fdiv b = ⌊(a : ℚ) / b⌋ := by
  have nonneg : ∀ (a : Int) (d : Nat), a.fdiv d = ⌊(a : ℚ) / d⌋ := fun a d => by
    rw [Int.fdiv_eq_ediv_of_nonneg a (Int.natCast_nonneg d), Rat.floor_intCast_div_natCast]
  obtain ⟨d, rfl | rfl⟩ := b.eq_nat_or_neg
  · exact nonneg a d
  · calc a.fdiv (-d) = (-a).fdiv d := by rw [← Int.neg_fdiv_neg, Int.neg_neg]
      _ = ⌊((-a : Int) : ℚ) / d⌋ := nonneg (-a) d
      _ = ⌊(a : ℚ) / (-d : Int)⌋ := by push_cast; rw [neg_div, div_neg]

end FloorDivision
