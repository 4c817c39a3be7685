import FloorDivision.Proofs.Number.Floor
import FloorDivision.Proofs.Number.Monotone
import Mathlib.Order.Monotone.Odd

/-!
# Doubles as rational numbers

* `Double.toRat?` — the number that a finite double stands for, `Double.IsValue` for all of those.
* `Double.nearest` — the nearest number of 53 significant bits: it keeps the order and leaves the
  values of finite doubles as they are.
* `Double.toRat?_sub`, `Double.toRat?_add`, `Double.toRat?_div` — the operations round their exact
  results once.
* `Double.toRat?_rem`, `Double.toRat?_floor` — the remainder and the whole part are exact.
-/

namespace FloorDivision.Double

variable {x y : Double} {a b c v w : ℚ}

/-- The number that a finite double stands for. -/
def toRat? : Double → Option ℚ
  | .finite negative q _ => some (signedQuanta negative q / unit)
  | _ => none

/-- The numbers that finite doubles stand for. -/
def IsValue (v : ℚ) : Prop := ∃ x : Double, x.toRat? = some v

/-- The number of 53 significant bits nearest to a number, ties to even. -/
def nearest (v : ℚ) : ℚ :=
  signedQuanta (v < 0) (roundQuanta (|v| * unit).num.natAbs (|v| * unit).den) / unit

/-! ## Signed quanta -/

@[simp] theorem signedQuanta_zero (negative : Bool) : signedQuanta negative 0 = 0 := by
  cases negative <;> rfl

theorem natAbs_signedQuanta (negative : Bool) (q : Nat) : (signedQuanta negative q).natAbs = q := by
  cases negative <;> simp [signedQuanta]

theorem signedQuanta_natAbs_mul (k : Int) (m : Nat) :
    signedQuanta (k < 0) (k.natAbs * m) = k * m := by
  unfold signedQuanta
  by_cases h : k < 0
  · have habs : (k.natAbs : Int) = -k := Int.ofNat_natAbs_of_nonpos h.le
    simp only [h, decide_true, if_true]
    rw [Int.natCast_mul, habs, Int.neg_mul, Int.neg_neg]
  · have habs : (k.natAbs : Int) = k := Int.natAbs_of_nonneg (by omega)
    simp only [h, decide_false, Bool.false_eq_true, if_false]
    rw [Int.natCast_mul, habs]

theorem exists_quanta (hx : x.toRat? = some a) :
    ∃ negative q hq, x = .finite negative q hq ∧ a = signedQuanta negative q / unit := by
  cases x with
  | nan => cases hx
  | infinite negative => cases hx
  | finite negative q hq =>
    cases hx
    exact ⟨negative, q, hq, rfl, rfl⟩

theorem abs_cast_int (k : Int) : |(k : ℚ)| = k.natAbs := by
  rw [← Int.cast_abs, Int.abs_eq_natAbs, Int.cast_natCast]

theorem abs_cast_signedQuanta (negative : Bool) (q : Nat) :
    |(signedQuanta negative q : ℚ)| = q := by
  rw [abs_cast_int, natAbs_signedQuanta]

/-! ## The nearest number -/

/-- A number that is not negative, as a fraction of natural numbers. -/
theorem natAbs_num_div_den (h : 0 ≤ v) : (v.num.natAbs : ℚ) / v.den = v := by
  have hnum : ((v.num.natAbs : Int) : ℚ) = v.num := by
    rw [Int.natAbs_of_nonneg (Rat.num_nonneg.mpr h)]
  rw [← Int.cast_natCast, hnum, Rat.num_div_den]

/-- The nearest magnitude does not depend on the fraction that a number is written as. -/
theorem nearest_eq {n d : Nat} (hd : 0 < d) (h : |v| * unit = n / d) :
    nearest v = signedQuanta (v < 0) (roundQuanta n d) / unit := by
  have hmagnitude : 0 ≤ |v| * unit := mul_nonneg (abs_nonneg v) cast_unit_pos.le
  unfold nearest
  rw [roundQuanta_congr (Rat.den_pos _) hd ((natAbs_num_div_den hmagnitude).trans h)]

theorem nearest_of_nonneg {n d : Nat} (hd : 0 < d) (hv : 0 ≤ v) (h : v * unit = n / d) :
    nearest v = roundQuanta n d / unit := by
  have hsign : decide (v < 0) = false := decide_eq_false (not_lt.mpr hv)
  rw [nearest_eq hd (by rwa [abs_of_nonneg hv]), hsign]
  simp [signedQuanta]

theorem nearest_zero : nearest 0 = 0 := by
  rw [nearest_of_nonneg Nat.one_pos le_rfl (n := 0) (by simp), roundQuanta_eq_zero (by omega)]
  simp

theorem nearest_neg (v : ℚ) : nearest (-v) = -nearest v := by
  unfold nearest
  rw [abs_neg]
  rcases lt_trichotomy v 0 with hneg | rfl | hpos
  · have hnot : ¬ -v < 0 := by linarith
    simp [signedQuanta, hneg, hnot, neg_div]
  · have hzero := nearest_zero
    unfold nearest at hzero
    rw [neg_zero, hzero, neg_zero]
  · have hnot : ¬ v < 0 := by linarith
    have hneg : -v < 0 := by linarith
    simp [signedQuanta, hpos, hnot, neg_div]

/-- **The nearest number keeps the order.** -/
theorem nearest_mono : Monotone nearest := by
  apply monotone_of_odd_of_monotoneOn_nonneg nearest_neg
  intro v hv w hw hle
  have hv : 0 ≤ v := hv
  have hw : 0 ≤ w := hw
  have hunit := cast_unit_pos
  have hv' := natAbs_num_div_den (mul_nonneg hv hunit.le)
  have hw' := natAbs_num_div_den (mul_nonneg hw hunit.le)
  rw [nearest_of_nonneg (Rat.den_pos _) hv hv'.symm, nearest_of_nonneg (Rat.den_pos _) hw hw'.symm]
  have horder : roundQuanta (v * unit).num.natAbs (v * unit).den ≤
      roundQuanta (w * unit).num.natAbs (w * unit).den := by
    apply roundQuanta_mono (Rat.den_pos _) (Rat.den_pos _)
    rw [hv', hw']
    exact mul_le_mul_of_nonneg_right hle hunit.le
  exact div_le_div_of_nonneg_right (by exact_mod_cast horder) hunit.le

/-! ## The values of finite doubles -/

theorem isValue_quanta (negative : Bool) {q : Nat} (hq : Representable q) :
    IsValue (signedQuanta negative q / unit) := ⟨.finite negative q hq, rfl⟩

theorem isValue_neg (h : IsValue v) : IsValue (-v) := by
  obtain ⟨x, hx⟩ := h
  obtain ⟨negative, q, hq, rfl, rfl⟩ := exists_quanta hx
  have hvalue : -((signedQuanta negative q : ℚ) / unit) = signedQuanta (!negative) q / unit := by
    cases negative <;> simp [signedQuanta, neg_div]
  rw [hvalue]
  exact isValue_quanta _ hq

theorem isValue_abs (h : IsValue v) : IsValue |v| := by
  rcases abs_choice v with habs | habs
  · rwa [habs]
  · rw [habs]
    exact isValue_neg h

/-- A value is as many quanta as a finite double has. -/
theorem exists_representable (h : IsValue c) (hc : 0 ≤ c) :
    ∃ q, Representable q ∧ c = (q : ℚ) / unit := by
  obtain ⟨x, hx⟩ := h
  obtain ⟨negative, q, hq, rfl, rfl⟩ := exists_quanta hx
  refine ⟨q, hq, ?_⟩
  rw [← abs_of_nonneg hc, abs_div, abs_cast_signedQuanta, abs_of_pos cast_unit_pos]

/-- **What a finite double stands for is left as it is.** -/
theorem nearest_of_isValue (h : IsValue v) : nearest v = v := by
  have nonneg : ∀ {v : ℚ}, IsValue v → 0 ≤ v → nearest v = v := by
    intro v h hv
    obtain ⟨q, hq, rfl⟩ := exists_representable h hv
    rw [nearest_of_nonneg Nat.one_pos hv (n := q) (by simp [cast_unit_pos.ne']),
      roundQuanta_of_representable hq]
  rcases le_total 0 v with hv | hv
  · exact nonneg h hv
  · have hneg := nonneg (isValue_neg h) (by linarith)
    rw [nearest_neg] at hneg
    linarith

theorem cast_one_shiftLeft {j n : Nat} (h : j ≤ n) :
    ((1 <<< n : Nat) : ℚ) = 2 ^ j * 2 ^ (n - j) := by
  rw [cast_shiftLeft, Nat.cast_one, one_mul, ← pow_add, Nat.add_sub_cancel' h]

/-- Few enough bits, shifted by not too many places. -/
theorem isValue_scaled {k : Int} {j : Nat} (hk : k.natAbs < 2 ^ 53) (hj : j ≤ 1074) :
    IsValue (k / 2 ^ j) := by
  have hunit : (unit : ℚ) = 2 ^ j * 2 ^ (1074 - j) := cast_one_shiftLeft hj
  have hstep : (2 : ℚ) ^ (1074 - j) ≠ 0 := by positivity
  have hvalue : (k : ℚ) / 2 ^ j = signedQuanta (k < 0) (k.natAbs * 2 ^ (1074 - j)) / unit := by
    rw [signedQuanta_natAbs_mul, hunit, Int.cast_mul, Int.cast_natCast, Nat.cast_pow,
      Nat.cast_ofNat, mul_div_mul_right _ _ hstep]
  rw [hvalue]
  exact isValue_quanta _ (representable_mul_two_pow hk (by omega))

theorem isValue_int {k : Int} (hk : k.natAbs < 2 ^ 53) : IsValue k := by
  have h := isValue_scaled hk (Nat.zero_le 1074)
  rwa [pow_zero, div_one] at h

/-! ## Rounded operations -/

/-- A rounded fraction stands for the nearest number, unless that is out of range. -/
theorem toRat?_round {negative : Bool} {n d : Nat} (hd : 0 < d)
    (hsign : if negative then v ≤ 0 else 0 ≤ v) (h : |v| * unit = n / d) (hc : IsValue c)
    (hrange : |v| ≤ c) : (round negative n d).toRat? = some (nearest v) := by
  obtain ⟨q, hq, rfl⟩ := exists_representable hc ((abs_nonneg v).trans hrange)
  have hle : roundQuanta n d ≤ q := by
    apply roundQuanta_le hd hq
    rw [← h]
    exact (le_div_iff₀ cast_unit_pos).mp hrange
  have hless : roundQuanta n d < overflowQuanta := hle.trans_lt (lt_overflowQuanta hq)
  have hvalue : (round negative n d).toRat? =
      some ((signedQuanta negative (roundQuanta n d) : ℚ) / unit) := by
    unfold round
    rw [dif_pos hless]
    rfl
  rw [hvalue, nearest_eq hd h]
  -- a zero may have either sign, any other number has its own
  by_cases h0 : v = 0
  · have hzero : (n : ℚ) / d = (0 : Nat) / (1 : Nat) := by
      rw [← h, h0]
      simp
    rw [roundQuanta_congr hd Nat.one_pos hzero, roundQuanta_eq_zero (by omega), signedQuanta_zero,
      signedQuanta_zero]
  · have hsame : negative = decide (v < 0) := by
      cases negative with
      | false => exact (decide_eq_false (not_lt.mpr hsign)).symm
      | true => exact (decide_eq_true (lt_of_le_of_ne hsign h0)).symm
    rw [hsame]

/-- **A difference is rounded once.** -/
theorem toRat?_sub (hx : x.toRat? = some a) (hy : y.toRat? = some b) (hc : IsValue c)
    (hrange : |a - b| ≤ c) : (x - y).toRat? = some (nearest (a - b)) := by
  obtain ⟨s, p, hp, rfl, rfl⟩ := exists_quanta hx
  obtain ⟨t, q, hq, rfl, rfl⟩ := exists_quanta hy
  have hunit := cast_unit_pos
  have hdifference : (signedQuanta s p : ℚ) / unit - signedQuanta t q / unit =
      (signedQuanta s p - signedQuanta t q : Int) / unit := by
    push_cast
    ring
  rw [hdifference] at hrange ⊢
  show (sub (.finite s p hp) (.finite t q hq)).toRat? = _
  unfold sub
  dsimp only
  generalize signedQuanta s p - signedQuanta t q = difference at *
  by_cases h0 : difference = 0
  · rw [if_pos h0, h0, Int.cast_zero, zero_div, nearest_zero]
    cases s <;> cases t <;> simp [zero, toRat?]
  · rw [if_neg h0]
    apply toRat?_round Nat.one_pos ?_ ?_ hc hrange
    · by_cases hneg : difference < 0
      · have hcast : (difference : ℚ) ≤ 0 := by exact_mod_cast hneg.le
        simpa [hneg] using div_nonpos_of_nonpos_of_nonneg hcast hunit.le
      · have hcast : (0 : ℚ) ≤ difference := by exact_mod_cast not_lt.mp hneg
        simpa [hneg] using div_nonneg hcast hunit.le
    · rw [abs_div, abs_of_pos hunit, div_mul_cancel₀ _ hunit.ne', Nat.cast_one, div_one,
        abs_cast_int]

theorem toRat?_neg (hx : x.toRat? = some a) : (-x).toRat? = some (-a) := by
  obtain ⟨s, p, hp, rfl, rfl⟩ := exists_quanta hx
  show (neg (.finite s p hp)).toRat? = _
  cases s <;> simp [neg, toRat?, signedQuanta, neg_div]

/-- **A sum is rounded once.** -/
theorem toRat?_add (hx : x.toRat? = some a) (hy : y.toRat? = some b) (hc : IsValue c)
    (hrange : |a + b| ≤ c) : (x + y).toRat? = some (nearest (a + b)) := by
  rw [← sub_neg_eq_add] at hrange ⊢
  exact toRat?_sub hx (toRat?_neg hy) hc hrange

/-- **A quotient is rounded once.** -/
theorem toRat?_div (hx : x.toRat? = some a) (hy : y.toRat? = some b) (hb : b ≠ 0) (hc : IsValue c)
    (hrange : |a / b| ≤ c) : (x / y).toRat? = some (nearest (a / b)) := by
  obtain ⟨s, p, hp, rfl, rfl⟩ := exists_quanta hx
  obtain ⟨t, q, hq, rfl, rfl⟩ := exists_quanta hy
  have hunit := cast_unit_pos
  have hq0 : q ≠ 0 := by
    rintro rfl
    simp at hb
  have hquotient : (signedQuanta s p : ℚ) / unit / (signedQuanta t q / unit) =
      signedQuanta s p / signedQuanta t q := div_div_div_cancel_right₀ hunit.ne' _ _
  rw [hquotient] at hrange ⊢
  show (div (.finite s p hp) (.finite t q hq)).toRat? = _
  unfold div
  dsimp only
  rw [if_neg hq0]
  apply toRat?_round (Nat.pos_of_ne_zero hq0) ?_ ?_ hc hrange
  · have hp' : (0 : ℚ) ≤ p := Nat.cast_nonneg p
    have hq' : (0 : ℚ) ≤ q := Nat.cast_nonneg q
    have hfraction := div_nonneg hp' hq'
    cases s <;> cases t <;> simpa [signedQuanta, neg_div, div_neg] using hfraction
  · rw [abs_div, abs_cast_signedQuanta, abs_cast_signedQuanta]
    push_cast
    ring

/-- A whole number of quanta is rounded by at most one part in `2 ^ 53`: if it has few bits, it is
not rounded at all. -/
theorem abs_roundQuanta_one_sub_le (n : Nat) :
    |(roundQuanta n 1 : ℚ) - n| ≤ n / 2 ^ 53 := by
  by_cases h0 : spacing n = 0
  · have hsmall := lt_two_pow_spacing n
    rw [h0] at hsmall
    have hn : Representable (n * 2 ^ 0) := representable_mul_two_pow hsmall (by omega)
    rw [Nat.pow_zero, Nat.mul_one] at hn
    rw [roundQuanta_of_representable hn, sub_self, abs_zero]
    positivity
  · have hround := abs_roundQuanta_sub_le n Nat.one_pos
    rw [Nat.div_one, Nat.cast_one, div_one] at hround
    have hreach : (2 : ℚ) ^ spacing n * 2 ^ 52 ≤ n := by
      rw [← pow_add]
      exact_mod_cast two_pow_spacing_le h0
    apply hround.trans
    rw [div_le_div_iff₀ (by norm_num) (by norm_num)]
    linarith

/-- **The error of a sum or difference** is at most one part in `2 ^ 53`, below the normal range as
well. -/
theorem abs_nearest_sub_le {k : Int} (hv : v = k / unit) : |nearest v - v| ≤ |v| / 2 ^ 53 := by
  have hunit := cast_unit_pos
  have nonneg : ∀ n : Nat, |nearest (n / unit) - n / unit| ≤ |(n : ℚ) / unit| / 2 ^ 53 := by
    intro n
    have hn : (0 : ℚ) ≤ (n : ℚ) / unit := div_nonneg (Nat.cast_nonneg n) hunit.le
    rw [nearest_of_nonneg Nat.one_pos hn (n := n) (by simp [hunit.ne']), ← sub_div, abs_div,
      abs_of_pos hunit, abs_of_nonneg hn, div_right_comm]
    exact div_le_div_of_nonneg_right (abs_roundQuanta_one_sub_le n) hunit.le
  obtain ⟨n, rfl | rfl⟩ := k.eq_nat_or_neg
  · rw [hv, Int.cast_natCast]
    exact nonneg n
  · have hsame : v = -((n : ℚ) / unit) := by
      rw [hv, Int.cast_neg, Int.cast_natCast, neg_div]
    rw [hsame, nearest_neg, ← neg_sub', abs_neg, abs_neg]
    exact nonneg n

/-! ## Exact operations -/

/-- A remainder is a multiple of the finer step, and less than the operand that has it. -/
theorem representable_mod {p q : Nat} (hp : Representable p) (hq : Representable q) (h0 : q ≠ 0) :
    Representable (p % q) := by
  obtain ⟨m, e, hm, he, rfl⟩ := hp
  obtain ⟨n, f, hn, hf, rfl⟩ := hq
  rw [Nat.one_shiftLeft] at hm hn
  rw [Nat.shiftLeft_eq, Nat.shiftLeft_eq] at *
  have hn0 : 0 < n := Nat.pos_of_ne_zero (by rintro rfl; simp at h0)
  rcases Nat.le_total f e with hle | hle
  · have hsplit : m * 2 ^ e = m * 2 ^ (e - f) * 2 ^ f := by
      rw [Nat.mul_assoc, ← Nat.pow_add, Nat.sub_add_cancel hle]
    rw [hsplit, Nat.mul_mod_mul_right]
    exact representable_mul_two_pow ((Nat.mod_lt _ hn0).trans hn) hf
  · have hsplit : n * 2 ^ f = n * 2 ^ (f - e) * 2 ^ e := by
      rw [Nat.mul_assoc, ← Nat.pow_add, Nat.sub_add_cancel hle]
    rw [hsplit, Nat.mul_mod_mul_right]
    exact representable_mul_two_pow ((Nat.mod_le _ _).trans_lt hm) he

theorem tmod_signedQuanta (s t : Bool) (p q : Nat) :
    (signedQuanta s p).tmod (signedQuanta t q) = signedQuanta s (p % q) := by
  have hnat : (p : Int).tmod q = (p % q : Nat) := (Int.ofNat_tmod p q).symm
  cases s <;> cases t <;> simp only [signedQuanta, Bool.false_eq_true, if_true, if_false,
    Int.neg_tmod, Int.tmod_neg, hnat]

/-- **The remainder is exact**, and has the sign of the dividend. -/
theorem toRat?_rem (s t : Bool) {p q : Nat} (hp : Representable p) (hq : Representable q)
    (h0 : q ≠ 0) : (Double.finite s p hp % Double.finite t q hq).toRat? =
      some ((((signedQuanta s p).tmod (signedQuanta t q) : Int) : ℚ) / unit) := by
  show (rem (.finite s p hp) (.finite t q hq)).toRat? = _
  unfold rem
  dsimp only
  rw [if_neg h0, round_quanta s (representable_mod hp hq h0), tmod_signedQuanta]
  rfl

/-- A magnitude with places after the point has few bits before it. -/
theorem shiftLeft_div_lt {m e n : Nat} (hm : m < 2 ^ 53) (h : m <<< e % 1 <<< n ≠ 0) :
    m <<< e / 1 <<< n + 1 < 2 ^ 53 := by
  rw [Nat.one_shiftLeft, Nat.shiftLeft_eq] at *
  have he : e < n := by
    by_contra hle
    apply h
    exact Nat.mod_eq_zero_of_dvd (Dvd.dvd.mul_left (Nat.pow_dvd_pow 2 (by omega)) m)
  have hstep : 2 ^ (e + 1) ≤ 2 ^ n := Nat.pow_le_pow_right (by omega) (by omega)
  have hless : m * 2 ^ e < 2 ^ 52 * 2 ^ n := by
    calc m * 2 ^ e < 2 ^ 53 * 2 ^ e := Nat.mul_lt_mul_of_pos_right hm (Nat.two_pow_pos e)
      _ = 2 ^ 52 * 2 ^ (e + 1) := by
        rw [Nat.pow_succ 2 e]
        ring
      _ ≤ 2 ^ 52 * 2 ^ n := Nat.mul_le_mul_left _ hstep
  have hwhole : m * 2 ^ e / 2 ^ n < 2 ^ 52 := (Nat.div_lt_iff_lt_mul (Nat.two_pow_pos n)).mpr hless
  omega

/-- So many units stand for a whole number. -/
theorem signedQuanta_units (negative : Bool) (k : Nat) :
    (signedQuanta negative (k * unit) : ℚ) / unit = signedQuanta negative k := by
  have hunit := cast_unit_pos
  cases negative <;> simp [signedQuanta, neg_div, hunit.ne']

/-- The floor of a number of quanta by its remainder. -/
theorem floor_div_unit {n k : Int} {r : Nat} (h : n = unit * k + r) (hr : r < unit) :
    ⌊(n : ℚ) / unit⌋ = k := by
  rw [← Int.cast_natCast unit, ← fdiv_eq_floor]
  exact fdiv_eq_of_remainder h (Or.inl ⟨Int.natCast_nonneg r, by exact_mod_cast hr⟩)

/-- **The whole part is exact.** -/
theorem toRat?_floor (hx : x.toRat? = some a) : x.floor.toRat? = some (⌊a⌋ : ℚ) := by
  obtain ⟨s, q, hq, rfl, rfl⟩ := exists_quanta hx
  have hdivision := Nat.div_add_mod q unit
  have hless := Nat.mod_lt q unit_pos
  unfold floor
  dsimp only
  by_cases h0 : q % unit = 0
  · have hfloor : ⌊(signedQuanta s q : ℚ) / unit⌋ = signedQuanta s (q / unit) := by
      apply floor_div_unit (r := 0) ?_ unit_pos
      cases s <;> simp [signedQuanta] <;> exact_mod_cast (by omega : q = unit * (q / unit))
    have hvalue := signedQuanta_units s (q / unit)
    rw [Nat.div_mul_cancel (Nat.dvd_of_mod_eq_zero h0)] at hvalue
    rw [if_pos h0, hfloor, ← hvalue]
    rfl
  · have hwhole : q / unit + 1 < 2 ^ 53 := by
      obtain ⟨m, e, hm, -, rfl⟩ := hq
      exact shiftLeft_div_lt hm h0
    rw [if_neg h0]
    cases s with
    | false =>
      have hfloor : ⌊(signedQuanta false q : ℚ) / unit⌋ = signedQuanta false (q / unit) := by
        apply floor_div_unit (r := q % unit) ?_ hless
        simp only [signedQuanta, Bool.false_eq_true, if_false]
        exact_mod_cast hdivision.symm
      rw [hfloor, if_neg Bool.false_ne_true, round_quanta false (representable_whole (by omega)),
        ← signedQuanta_units]
      rfl
    | true =>
      have hfloor : ⌊(signedQuanta true q : ℚ) / unit⌋ = signedQuanta true (q / unit + 1) := by
        apply floor_div_unit (r := unit - q % unit) ?_ (by omega)
        simp only [signedQuanta, if_true]
        rw [Int.natCast_sub hless.le]
        have hcast : (unit : Int) * (q / unit : Nat) + (q % unit : Nat) = q := by
          exact_mod_cast hdivision
        push_cast at hcast ⊢
        linarith
      rw [hfloor, if_pos rfl, round_quanta true (representable_whole hwhole),
        ← signedQuanta_units]
      rfl

/-! ## Comparisons -/

theorem isZero_iff (hx : x.toRat? = some a) : x.isZero = true ↔ a = 0 := by
  obtain ⟨s, q, hq, rfl, rfl⟩ := exists_quanta hx
  have hunit := cast_unit_pos
  cases s <;> simp [isZero, signedQuanta, hunit.ne']

theorem isLess_iff (hx : x.toRat? = some a) (hy : y.toRat? = some b) :
    x.isLess y = true ↔ a < b := by
  obtain ⟨s, p, hp, rfl, rfl⟩ := exists_quanta hx
  obtain ⟨t, q, hq, rfl, rfl⟩ := exists_quanta hy
  rw [div_lt_div_iff_of_pos_right cast_unit_pos, Int.cast_lt]
  simp [isLess, order?, signedQuanta]

theorem toRat?_zero (negative : Bool) : (zero negative).toRat? = some 0 := by
  cases negative <;> simp [zero, toRat?]

theorem isBelowZero_iff (hx : x.toRat? = some a) : x.isBelowZero = true ↔ a < 0 :=
  isLess_iff hx (toRat?_zero false)

theorem isZero_quanta {n : Int} (hx : x.toRat? = some ((n : ℚ) / unit)) :
    x.isZero = decide (n = 0) := by
  have hunit := cast_unit_pos
  rw [Bool.eq_iff_iff, isZero_iff hx, decide_eq_true_iff, div_eq_zero_iff, Int.cast_eq_zero]
  exact or_iff_left hunit.ne'

theorem isBelowZero_quanta {n : Int} (hx : x.toRat? = some ((n : ℚ) / unit)) :
    x.isBelowZero = decide (n < 0) := by
  have hunit := cast_unit_pos
  rw [Bool.eq_iff_iff, isBelowZero_iff hx, decide_eq_true_iff, div_lt_iff₀ hunit, zero_mul,
    Int.cast_lt_zero]

/-! ## Signs -/

theorem isNegative_round (negative : Bool) (n d : Nat) :
    (round negative n d).isNegative = negative := by
  unfold round
  split <;> rfl

/-- A quotient is negative, zeros and infinities included, if the signs differ. -/
theorem isNegative_div (hx : x.toRat? = some a) (hy : y.toRat? = some b) (hb : b ≠ 0) :
    (x / y).isNegative = (x.isNegative != y.isNegative) := by
  obtain ⟨s, p, hp, rfl, rfl⟩ := exists_quanta hx
  obtain ⟨t, q, hq, rfl, rfl⟩ := exists_quanta hy
  have hq0 : q ≠ 0 := by
    rintro rfl
    simp at hb
  show (div (.finite s p hp) (.finite t q hq)).isNegative = _
  unfold div
  dsimp only
  rw [if_neg hq0, isNegative_round]
  rfl

end FloorDivision.Double
