import FloorDivision.Decimal.Basic
import FloorDivision.Proofs.Number.Rounding

/-!
# The double that a decimal stands for

* `Decimal.toDouble_eq` — the double of a decimal is its value as a fraction of quanta, rounded;
  nothing is lost by answering extreme exponents first.
* `Decimal.toDouble_shift` — zeros after the digits stand for nothing.
* `Decimal.toDouble_shortest` — the shortest digits of a magnitude read back as that magnitude.
-/

namespace FloorDivision.Decimal

open Double (unit)

/-! ## The value as a fraction -/

/-- A decimal in quanta, but for the powers of ten below one. -/
def numerator (d : Decimal) : Nat := d.digits * 10 ^ d.exponent.toNat * unit

def denominator (d : Decimal) : Nat := 10 ^ (-d.exponent).toNat

theorem denominator_pos (d : Decimal) : 0 < d.denominator := Nat.pow_pos (by omega)

/-- A quantum is two to the minus this power, and has so many decimal places. -/
def quantumPlaces : Nat := 1074

theorem quantumPlaces_eq : quantumPlaces = 1074 := rfl

theorem unit_eq : unit = 2 ^ quantumPlaces := Nat.one_shiftLeft quantumPlaces

theorem overflowQuanta_eq : overflowQuanta = 2 ^ quantaBits := Nat.one_shiftLeft quantaBits

theorem quantumScale_eq : quantumScale = 5 ^ quantumPlaces := by
  unfold quantumScale
  rw [← quantumPlaces_eq, Nat.pow_eq]

theorem eight_pow_le_ten_pow (k : Nat) : 2 ^ (3 * k) ≤ 10 ^ k := by
  rw [Nat.pow_mul]
  exact Nat.pow_le_pow_left (by omega) k

/-- A decimal of at least ten to the 401st is out of range. -/
theorem overflowQuanta_le_numerator {d : Decimal} (h0 : d.digits ≠ 0)
    (h : 400 < d.exponent.toNat) : overflowQuanta ≤ d.numerator / 1 := by
  have hdigits : 1 ≤ d.digits := by omega
  have hbits : quantaBits ≤ 3 * d.exponent.toNat + quantumPlaces := by
    rw [quantumPlaces_eq, quantaBits]
    omega
  rw [Nat.div_one, numerator, unit_eq, overflowQuanta_eq]
  calc 2 ^ quantaBits ≤ 2 ^ (3 * d.exponent.toNat + quantumPlaces) :=
        Nat.pow_le_pow_right (by omega) hbits
    _ = 2 ^ (3 * d.exponent.toNat) * 2 ^ quantumPlaces := Nat.pow_add 2 _ _
    _ ≤ 10 ^ d.exponent.toNat * 2 ^ quantumPlaces :=
      Nat.mul_le_mul_right _ (eight_pow_le_ten_pow _)
    _ ≤ d.digits * 10 ^ d.exponent.toNat * 2 ^ quantumPlaces :=
      Nat.mul_le_mul_right _ (Nat.le_mul_of_pos_left _ hdigits)

/-- Digits that are too few for their exponent make less than half a quantum. -/
theorem two_mul_lt_of_log2 {digits k : Nat} (h : digits.log2 + 1080 < 3 * (k + 1)) :
    2 * (digits * unit) < 10 ^ (k + 1) := by
  have hdigits : digits < 2 ^ (digits.log2 + 1) := Nat.lt_log2_self
  have hbits : digits.log2 + 1 + (quantumPlaces + 1) ≤ 3 * (k + 1) := by
    rw [quantumPlaces_eq]
    omega
  rw [unit_eq]
  calc 2 * (digits * 2 ^ quantumPlaces) = digits * 2 ^ (quantumPlaces + 1) := by
        rw [Nat.pow_succ]
        ring
    _ < 2 ^ (digits.log2 + 1) * 2 ^ (quantumPlaces + 1) :=
      Nat.mul_lt_mul_of_pos_right hdigits (Nat.two_pow_pos _)
    _ = 2 ^ (digits.log2 + 1 + (quantumPlaces + 1)) := (Nat.pow_add 2 _ _).symm
    _ ≤ 2 ^ (3 * (k + 1)) := Nat.pow_le_pow_right (by omega) hbits
    _ ≤ 10 ^ (k + 1) := eight_pow_le_ten_pow _

/-- **The double of a decimal is its value, rounded once.** -/
theorem toDouble_eq (negative : Bool) (d : Decimal) :
    d.toDouble negative = .round negative d.numerator d.denominator := by
  obtain ⟨digits, exponent⟩ := d
  cases exponent with
  | ofNat k =>
    have hfraction : denominator ⟨digits, Int.ofNat k⟩ = 1 := by simp [denominator]
    have hk : (Int.ofNat k).toNat = k := rfl
    simp only [toDouble, hfraction]
    split
    · rename_i h0
      subst h0
      exact (Double.round_of_small negative (by simp [numerator])).symm
    · rename_i h0
      split
      · rename_i hlarge
        exact (Double.round_of_large negative
          (overflowQuanta_le_numerator (d := ⟨digits, Int.ofNat k⟩) h0 hlarge)).symm
      · rfl
  | negSucc k =>
    have hnumerator : numerator ⟨digits, Int.negSucc k⟩ = digits * unit := by simp [numerator]
    have hdenominator : denominator ⟨digits, Int.negSucc k⟩ = 10 ^ (k + 1) := by
      simp [denominator]
    simp only [toDouble, hnumerator, hdenominator]
    split
    · rename_i hsmall
      exact (Double.round_of_small negative (two_mul_lt_of_log2 hsmall)).symm
    · rfl

/-- What reads back is what rounds to the magnitude. -/
theorem toDouble_eq_finite_iff {negative : Bool} {d : Decimal} {q : Nat} (hq : Representable q) :
    d.toDouble negative = .finite negative q hq ↔
      roundQuanta d.numerator d.denominator = q := by
  rw [toDouble_eq]
  constructor
  · intro h
    unfold Double.round at h
    split at h
    · injection h
    · cases h
  · intro h
    exact Double.round_of_eq h hq

/-! ## Zeros after the digits -/

theorem toDouble_mul_ten (negative : Bool) (digits : Nat) (exponent : Int) :
    toDouble negative ⟨digits * 10, exponent - 1⟩ = toDouble negative ⟨digits, exponent⟩ := by
  rw [toDouble_eq, toDouble_eq]
  by_cases h : 0 < exponent
  · have hexp : exponent.toNat = (exponent - 1).toNat + 1 := by omega
    have hnum : numerator ⟨digits * 10, exponent - 1⟩ = numerator ⟨digits, exponent⟩ := by
      simp only [numerator, hexp]
      ring
    have hden : denominator ⟨digits * 10, exponent - 1⟩ = denominator ⟨digits, exponent⟩ := by
      simp only [denominator]
      congr 1
      omega
    rw [hnum, hden]
  · have hnum : numerator ⟨digits * 10, exponent - 1⟩ = numerator ⟨digits, exponent⟩ * 10 := by
      simp only [numerator, show (exponent - 1).toNat = 0 by omega,
        show exponent.toNat = 0 by omega]
      ring
    have hden : denominator ⟨digits * 10, exponent - 1⟩ = denominator ⟨digits, exponent⟩ * 10 := by
      simp only [denominator, show (-(exponent - 1)).toNat = (-exponent).toNat + 1 by omega,
        Nat.pow_succ]
    rw [hnum, hden, Double.round_mul negative _ _ (by omega)]

/-- **Zeros after the digits stand for nothing** if the exponent makes up for them. -/
theorem toDouble_shift (negative : Bool) (digits j : Nat) (exponent : Int) :
    toDouble negative ⟨digits * 10 ^ j, exponent - j⟩ =
      toDouble negative ⟨digits, exponent⟩ := by
  induction j with
  | zero => simp
  | succ j ih =>
    rw [← ih, ← toDouble_mul_ten negative (digits * 10 ^ j), Nat.pow_succ, Nat.mul_assoc]
    congr 2
    omega

theorem toDouble_trimZeros (negative : Bool) (fuel : Nat) (d : Decimal) :
    (trimZeros fuel d).toDouble negative = d.toDouble negative := by
  induction fuel generalizing d with
  | zero => rfl
  | succ fuel ih =>
    unfold trimZeros
    split
    · rename_i h
      rw [ih, ← toDouble_mul_ten, Nat.div_mul_cancel (Nat.dvd_of_mod_eq_zero h.2),
        Int.add_sub_cancel]
    · rfl

/-! ## The shortest digits -/

/-- Digits counted in `10 ^ -1074` make so many quanta and parts of them. -/
theorem toDouble_grid (negative : Bool) (n : Nat) :
    toDouble negative ⟨n, -1074⟩ = .round negative n quantumScale := by
  have hden : denominator ⟨n, -1074⟩ = quantumScale * 2 ^ quantumPlaces := by
    rw [quantumScale_eq, ← Nat.mul_pow]
    rfl
  have hnum : numerator ⟨n, -1074⟩ = n * 2 ^ quantumPlaces := by simp [numerator, unit_eq]
  rw [toDouble_eq, hden, hnum, Double.round_mul negative _ _ (Nat.two_pow_pos _)]

theorem toDouble_exact (negative : Bool) {q : Nat} (hq : Representable q) :
    (exact q).toDouble negative = .finite negative q hq := by
  have hscale : 0 < quantumScale := by
    rw [quantumScale_eq]
    exact Nat.pow_pos (by omega)
  rw [← Double.round_quanta negative hq, ← Double.round_mul negative q 1 hscale, Nat.one_mul]
  exact toDouble_grid negative (q * quantumScale)

theorem readsBack_of_gridDigits? {q step digits : Nat} (h : gridDigits? q step = some digits) :
    roundQuanta (digits * step) quantumScale = q := by
  have hback : ∀ n, readsBack q step n = true → roundQuanta (n * step) quantumScale = q :=
    fun n hn => beq_iff_eq.mp hn
  simp only [gridDigits?] at h
  generalize q * quantumScale = magnitude at h
  split_ifs at h with hnearest hside hother hother
  all_goals cases h
  · exact hback _ hnearest
  · exact hback _ hother
  · exact hback _ hother

theorem toDouble_of_onGrid? (negative : Bool) {q places : Nat} (hq : Representable q)
    {d : Decimal} (h : onGrid? q places = some d) :
    d.toDouble negative = .finite negative q hq := by
  unfold onGrid? at h
  obtain ⟨digits, hdigits, rfl⟩ := Option.map_eq_some_iff.mp h
  have hback := readsBack_of_gridDigits? hdigits
  rw [toDouble_trimZeros, ← toDouble_shift negative digits places,
    show (places : Int) - 1074 - places = -1074 by omega, toDouble_grid]
  exact Double.round_of_eq hback hq

/-- **The shortest digits of a magnitude read back as that magnitude**, and so do the exact ones
that stand in for them where no grid has any. -/
theorem toDouble_shortest (negative : Bool) {q : Nat} (hq : Representable q) :
    (shortest q).toDouble negative = .finite negative q hq := by
  unfold shortest
  split
  · rename_i h0
    subst h0
    rfl
  · dsimp only
    cases hfound : (List.range 17).findSome? fun i =>
        onGrid? q (digitCount (q * quantumScale) - (i + 1)) with
    | none => exact toDouble_exact negative hq
    | some d =>
      obtain ⟨i, -, hi⟩ := List.exists_of_findSome?_eq_some hfound
      exact toDouble_of_onGrid? negative hq hi

end FloorDivision.Decimal
