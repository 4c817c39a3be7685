import FloorDivision.Json.Decoder
import FloorDivision.Proofs.Json.Numbers

/-!
# Floats of a document are read

* `scaled_shown` — the digits that are shown of a finite magnitude are scaled to a finite one at
  most four units in the last place away, and to the magnitude itself if they are few enough.
* `double_text` — the text of a finite double is read as its sign and that magnitude.
-/

namespace FloorDivision

open Decimal (denominator_pos shortest)
open Double (unit)

variable {q : Nat}

namespace Json.Reader

/-! ## The digits that are shown -/

theorem nearestQuanta_shown (hq : Representable q) :
    nearestQuanta (shortest q).shown.digits (shortest q).shown.exponent = q := by
  have hround := Decimal.toDouble_shortest false hq
  rw [← Decimal.toDouble_shown] at hround
  exact (Decimal.toDouble_eq_finite_iff hq).mp hround

/-- The digits of a magnitude that is not zero are not. -/
theorem shown_digits_ne_zero (hq : Representable q) (h0 : q ≠ 0) :
    (shortest q).shown.digits ≠ 0 := by
  intro hdigits
  have hnearest := nearestQuanta_shown hq
  rw [hdigits] at hnearest
  unfold nearestQuanta Decimal.numerator at hnearest
  rw [Nat.zero_mul, Nat.zero_mul, roundQuanta_eq_zero (denominator_pos _)] at hnearest
  exact h0 hnearest.symm

/-- No power of ten that is shown is out of the range that scaling knows. -/
theorem shown_exponent_bounds (hq : Representable q) (h0 : q ≠ 0) :
    -616 ≤ (shortest q).shown.exponent ∧ (shortest q).shown.exponent ≤ 308 := by
  have hdigits := shown_digits_ne_zero hq h0
  have hword := Decimal.shown_digits_lt (Decimal.shortest_digits_le hq)
  have hnearest := nearestQuanta_shown hq
  have hrange := lt_overflowQuanta hq
  generalize (shortest q).shown.digits = n at *
  generalize (shortest q).shown.exponent = exponent at *
  unfold nearestQuanta Decimal.numerator Decimal.denominator at hnearest
  by_contra hout
  rcases (by omega : 308 < exponent ∨ exponent < -616) with hlarge | hsmall
  · have hden : (-exponent).toNat = 0 := by omega
    have hpow : 10 ^ 309 ≤ 10 ^ exponent.toNat := pow_le_pow_right₀ (by omega) (by omega)
    have hreach : overflowQuanta ≤ n * 10 ^ exponent.toNat * unit / 1 := by
      rw [Nat.div_one]
      calc overflowQuanta ≤ 10 ^ 309 * unit := by decide +kernel
        _ ≤ 10 ^ exponent.toNat * unit := Nat.mul_le_mul_right _ hpow
        _ ≤ n * 10 ^ exponent.toNat * unit :=
          Nat.mul_le_mul_right _ (Nat.le_mul_of_pos_left _ (Nat.pos_of_ne_zero hdigits))
    have hover := overflowQuanta_le_roundQuanta hreach
    rw [hden, Nat.pow_zero] at hnearest
    exact absurd hrange (Nat.not_lt.mpr (hnearest ▸ hover))
  · have hnum : exponent.toNat = 0 := by omega
    have hpow : 10 ^ 617 ≤ 10 ^ (-exponent).toNat := pow_le_pow_right₀ (by omega) (by omega)
    have hless : 2 * (n * 10 ^ exponent.toNat * unit) < 10 ^ (-exponent).toNat := by
      rw [hnum, Nat.pow_zero, Nat.mul_one]
      calc 2 * (n * unit) ≤ 2 * (2 ^ 64 * unit) :=
            Nat.mul_le_mul_left 2 (Nat.mul_le_mul_right _ hword.le)
        _ < 10 ^ 617 := by decide +kernel
        _ ≤ 10 ^ (-exponent).toNat := hpow
    rw [roundQuanta_eq_zero hless] at hnearest
    exact h0 hnearest.symm

/-! ## The range -/

/-- The four greatest magnitudes, one by one. -/
theorem scaledQuanta_greatest_lt : ∀ i < 4,
    let d := (Decimal.onGrids ((2 ^ 53 - 1 - i) * 2 ^ 2045) (1382 + 1)).shown
    scaledQuanta d.digits d.exponent < overflowQuanta := by
  decide +kernel

theorem digitCount_greatest : ∀ i < 4,
    10 ^ 1382 ≤ (2 ^ 53 - 1 - i) * 2 ^ 2045 * Decimal.quantumScale ∧
      (2 ^ 53 - 1 - i) * 2 ^ 2045 * Decimal.quantumScale < 10 ^ (1382 + 1) := by
  decide +kernel

/-- The greatest magnitudes would overflow if they were four units in the last place off; they are
not. -/
theorem scaledQuanta_shown_greatest {i : Nat} (hi : i < 4)
    (h0 : (2 ^ 53 - 1 - i) * 2 ^ 2045 ≠ 0) :
    scaledQuanta (shortest ((2 ^ 53 - 1 - i) * 2 ^ 2045)).shown.digits
      (shortest ((2 ^ 53 - 1 - i) * 2 ^ 2045)).shown.exponent < overflowQuanta := by
  obtain ⟨hlow, hhigh⟩ := digitCount_greatest i hi
  rw [Decimal.shortest_eq h0, Decimal.digitCount_eq (by omega) hlow hhigh]
  exact scaledQuanta_greatest_lt i hi

/-- **What is shown of a finite magnitude is not scaled out of range.** -/
theorem scaledQuanta_shown_lt (hq : Representable q) (h0 : q ≠ 0) :
    scaledQuanta (shortest q).shown.digits (shortest q).shown.exponent < overflowQuanta := by
  have hnear := abs_scaledQuanta_sub_le
    (Decimal.shown_digits_lt (Decimal.shortest_digits_le hq)) (shown_digits_ne_zero hq h0)
    (shortest q).shown.exponent
  rw [nearestQuanta_shown hq] at hnear
  obtain ⟨m, hm, hm53, hm52⟩ := exists_steps hq
  have hrange := lt_overflowQuanta hq
  rw [Decimal.overflowQuanta_eq] at hrange ⊢
  generalize hs : spacing q = s at *
  have hs45 : s ≤ 2045 := by
    by_contra hlarge
    have hreach : 2 ^ quantaBits ≤ 2 ^ 52 * 2 ^ s := by
      rw [← Nat.pow_add]
      exact Nat.pow_le_pow_right (by omega) (by unfold quantaBits; omega)
    have := Nat.mul_le_mul_right (2 ^ s) (hm52.resolve_left (by omega))
    omega
  by_cases hroom : (m + 4) * 2 ^ s < 2 ^ quantaBits
  · have hle : (scaledQuanta (shortest q).shown.digits (shortest q).shown.exponent : ℚ) ≤
        ((m + 4) * 2 ^ s : Nat) := by
      have hcast : (q : ℚ) = m * 2 ^ s := by
        rw [hm]
        push_cast
        rfl
      have := (abs_le.mp hnear).2
      push_cast
      linarith
    have : scaledQuanta (shortest q).shown.digits (shortest q).shown.exponent ≤ (m + 4) * 2 ^ s := by
      exact_mod_cast hle
    omega
  · have hstep := Nat.two_pow_pos s
    have hs' : s = 2045 := by
      by_contra hne
      have hless : (m + 4) * 2 ^ s < 2 ^ 54 * 2 ^ s := Nat.mul_lt_mul_of_pos_right (by omega) hstep
      rw [← Nat.pow_add] at hless
      exact hroom (hless.trans_le (Nat.pow_le_pow_right (by omega) (by unfold quantaBits; omega)))
    have hm4 : 2 ^ 53 ≤ m + 4 := by
      by_contra hless
      have hless : (m + 4) * 2 ^ s < 2 ^ 53 * 2 ^ s :=
        Nat.mul_lt_mul_of_pos_right (Nat.lt_of_not_le hless) hstep
      rw [← Nat.pow_add] at hless
      exact hroom (hless.trans_le (Nat.pow_le_pow_right (by omega) (by unfold quantaBits; omega)))
    have hq' : q = (2 ^ 53 - 1 - (2 ^ 53 - 1 - m)) * 2 ^ 2045 := by
      rw [hm, hs', show 2 ^ 53 - 1 - (2 ^ 53 - 1 - m) = m by omega]
    have hgreatest := scaledQuanta_shown_greatest (i := 2 ^ 53 - 1 - m) (by omega) (hq' ▸ h0)
    rwa [← hq', Decimal.overflowQuanta_eq] at hgreatest

/-- **What is shown of a finite magnitude is scaled to a finite one near it**, and to the magnitude
itself if few digits and a short power of ten are shown. -/
theorem scaled_shown (hq : Representable q) :
    ∃ p hp, scaled (shortest q).shown.digits (shortest q).shown.exponent = .ok (.finite false p hp) ∧
      |(p : ℚ) - q| ≤ 4 * 2 ^ spacing q ∧
      ((shortest q).shown.digits < 2 ^ 53 ∧ (shortest q).shown.exponent.natAbs ≤ 22 → p = q) := by
  have hword := Decimal.shown_digits_lt (Decimal.shortest_digits_le hq)
  have hnearest := nearestQuanta_shown hq
  by_cases h0 : q = 0
  · subst h0
    have hshown : (shortest 0).shown = ⟨0, -1⟩ := by decide
    rw [hshown] at hnearest ⊢
    have hexact : scaledQuanta 0 (-1) = 0 :=
      (scaledQuanta_exact (by omega) (by decide)).trans hnearest
    have hrange : scaledQuanta 0 (-1) < overflowQuanta := by
      rw [hexact]
      decide
    obtain ⟨hp, hscaled⟩ := scaled_eq (by omega) (by omega) (by omega) hrange
    refine ⟨_, hp, hscaled, ?_, fun _ => hexact⟩
    rw [hexact]
    simp
  · obtain ⟨hlow, hhigh⟩ := shown_exponent_bounds hq h0
    obtain ⟨hp, hscaled⟩ := scaled_eq hword hlow hhigh (scaledQuanta_shown_lt hq h0)
    have hnear := abs_scaledQuanta_sub_le hword (shown_digits_ne_zero hq h0)
      (shortest q).shown.exponent
    rw [hnearest] at hnear
    exact ⟨_, hp, hscaled, hnear, fun ⟨hn, he⟩ => (scaledQuanta_exact hn he).trans hnearest⟩

end Json.Reader

/-! ## Doubles -/

namespace Double

/-- Finite doubles of one sign, at most so many units in the last place of the first one apart. -/
def WithinUnits (k : Nat) : Double → Double → Prop
  | .finite a p _, .finite b q _ => a = b ∧ |(q : Int) - p| ≤ k * 2 ^ spacing p
  | _, _ => False

/-- A finite double of which a document shows a whole number that fits 53 bits, scaled by at most 22
places to one side or the other. -/
def IsShownShort : Double → Prop
  | .finite _ q _ =>
    (Decimal.shortest q).shown.digits < 2 ^ 53 ∧ (Decimal.shortest q).shown.exponent.natAbs ≤ 22
  | _ => False

end Double

namespace Json.Reader

variable {rest : List Char}

theorem number_text {negative : Bool} (hq : Representable q) {y : Double}
    (hy : scaled (shortest q).shown.digits (shortest q).shown.exponent = .ok y) (h : Ends rest) :
    numberOr "f64" ((Layout.document.text (.finite negative q hq)).toList ++ rest) =
      .ok (.float (signed negative y), rest) := by
  obtain ⟨first, digits, hmagnitude, hfirst⟩ :=
    Layout.document.magnitude_eq_cons (Decimal.shortest q)
  have h0 : (shortest q).digits ≠ 0 ∨ (shortest q).exponent = 0 := by
    by_cases h0 : q = 0
    · subst h0
      exact Or.inr rfl
    · left
      intro hdigits
      have hround := Decimal.toDouble_shortest false hq
      rw [Decimal.toDouble_eq, Decimal.numerator, hdigits, Nat.zero_mul, Nat.zero_mul,
        Double.round_of_small false (denominator_pos _)] at hround
      injection hround with _ hzero
      exact h0 hzero.symm
  have hnumber : number negative (Layout.document.magnitude (shortest q) ++ rest) = _ :=
    number_magnitude h0 (Decimal.shortest_digits_le hq) h Layout.document
  rw [Layout.toList_text, List.append_assoc]
  rw [hmagnitude] at hnumber ⊢
  rw [List.cons_append] at hnumber ⊢
  rw [numberOr_sign hfirst, hnumber]
  simp only [finish, hy]

/-- The text of a finite double is read as what its digits are scaled to. -/
theorem double_scaled {negative : Bool} (hq : Representable q) {y : Double}
    (hy : scaled (shortest q).shown.digits (shortest q).shown.exponent = .ok y) (h : Ends rest) :
    double ((Layout.document.text (.finite negative q hq)).toList ++ rest) =
      .ok (signed negative y, rest) := by
  unfold double
  rw [run_bind_ok (number_text hq hy h)]
  rfl

/-- **The text of a finite double is read as a finite double near it.** -/
theorem double_text {x : Double} (hx : x.isFinite = true) :
    ∃ y, (∀ rest, Ends rest →
        double ((Layout.document.text x).toList ++ rest) = .ok (y, rest)) ∧
      x.WithinUnits 4 y ∧ (x.IsShownShort → y = x) := by
  cases x with
  | nan => cases hx
  | infinite negative => cases hx
  | finite negative q hq =>
    obtain ⟨p, hp, hscaled, hnear, hexact⟩ := scaled_shown hq
    have hsigned : signed negative (.finite false p hp) = .finite negative p hp := by
      cases negative <;> rfl
    refine ⟨.finite negative p hp, fun rest h => ?_, ⟨rfl, ?_⟩, fun hshort => ?_⟩
    · rw [double_scaled hq hscaled h, hsigned]
    · exact_mod_cast hnear
    · simp only [hexact hshort]

end Json.Reader

end FloorDivision
