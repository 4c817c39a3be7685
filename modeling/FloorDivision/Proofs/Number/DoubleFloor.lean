import FloorDivision.Proofs.Number.Arithmetic

/-!
# Floor division of doubles is exact

While the quotient of two finite doubles lies below `2 ^ 51`, the steps on the way to its floor are
off by a quarter at most.

* `Double.abs_nearest_sub_le_quarter` — what is within a quarter of a whole number is rounded to
  something that is.
* `exists_multiple_near`, `exists_quotient_near` — the rebuilt quotient is that near to the
  truncated one, and after the step for mixed signs to the floored one.
* `toRat?_repaired` — so the repair finds that whole number.
* `floatFloorDivide_eq_floor` — the quotient is the floor of the rational one, and a zero has the
  sign of the rational one.
-/

namespace FloorDivision

namespace Double

variable {x : Double} {v w : ℚ} {N : Int}

/-! ## Near a whole number -/

theorem isValue_quarter {k : Int} (hk : k.natAbs < 2 ^ 53) : IsValue (k / 4) := by
  have h := isValue_scaled hk (show 2 ≤ 1074 by omega)
  norm_num at h
  exact h

/-- One quarter beyond `2 ^ 51` is a tie, which goes to `2 ^ 51`. -/
theorem nearest_least : nearest (-2 ^ 51 - 1 / 4) = -2 ^ 51 := by
  have hunit : (unit : ℚ) = 2 ^ 2 * 2 ^ (1074 - 2) := cast_one_shiftLeft (by omega)
  have hround : roundQuanta ((2 ^ 53 + 1) <<< 1072) 1 = 2 ^ 53 <<< 1072 := by decide +kernel
  have hsplit : (1074 - 2 : Nat) = 1072 := rfl
  have hpos : (0 : ℚ) < 2 ^ 1072 := by positivity
  rw [hsplit] at hunit
  have hfraction : (2 ^ 51 + 1 / 4 : ℚ) * unit = ((2 ^ 53 + 1) <<< 1072 : Nat) / (1 : Nat) := by
    rw [hunit, cast_shiftLeft]
    generalize (2 : ℚ) ^ 1072 = step
    push_cast
    ring
  rw [show (-2 ^ 51 - 1 / 4 : ℚ) = -(2 ^ 51 + 1 / 4) by ring, nearest_neg,
    nearest_of_nonneg Nat.one_pos (by positivity) hfraction, hround, hunit, cast_shiftLeft]
  generalize (2 : ℚ) ^ 1072 = step at hpos
  push_cast
  field_simp
  norm_num

/-- **What is within a quarter of a whole number is rounded to something that is.** -/
theorem abs_nearest_sub_le_quarter (hlow : -2 ^ 51 ≤ N) (hhigh : N < 2 ^ 51)
    (h : |v - N| ≤ 1 / 4) : |nearest v - N| ≤ 1 / 4 := by
  obtain ⟨hbelow, habove⟩ := abs_le.mp h
  apply abs_le.mpr
  constructor
  · have hmono := nearest_mono (show (N : ℚ) - 1 / 4 ≤ v by linarith)
    by_cases hleast : N = -2 ^ 51
    · have hcast : (N : ℚ) = -2 ^ 51 := by
        rw [hleast]
        norm_num
      rw [hcast, nearest_least] at hmono
      linarith
    · have hvalue : (N : ℚ) - 1 / 4 = (4 * N - 1 : Int) / 4 := by
        push_cast
        ring
      rw [hvalue, nearest_of_isValue (isValue_quarter (by omega)), ← hvalue] at hmono
      linarith
  · have hmono := nearest_mono (show v ≤ (N : ℚ) + 1 / 4 by linarith)
    have hvalue : (N : ℚ) + 1 / 4 = (4 * N + 1 : Int) / 4 := by
      push_cast
      ring
    rw [hvalue, nearest_of_isValue (isValue_quarter (by omega)), ← hvalue] at hmono
    linarith

theorem toRat?_ofInt {k : Int} (hk : k.natAbs < 2 ^ 53) : (ofInt k).toRat? = some (k : ℚ) := by
  have hsigned : signedQuanta (k < 0) (k.natAbs * unit) = k * unit := signedQuanta_natAbs_mul k unit
  unfold ofInt
  rw [round_quanta _ (representable_whole hk)]
  show some ((signedQuanta (k < 0) (k.natAbs * unit) : ℚ) / unit) = some (k : ℚ)
  rw [hsigned, Int.cast_mul, Int.cast_natCast, mul_div_cancel_right₀ _ cast_unit_pos.ne']

theorem toRat?_one : (1 : Double).toRat? = some 1 := by
  have h := toRat?_ofInt (k := 1) (by decide)
  rwa [Int.cast_one] at h

theorem toRat?_half : half.toRat? = some (1 / 2) := by
  have hhalf : IsValue (1 / 2) := by
    have h := isValue_scaled (k := 1) (j := 1) (by decide) (by omega)
    norm_num at h ⊢
    exact h
  have hfraction : |(1 / 2 : ℚ)| * unit = unit / (2 : Nat) := by
    rw [abs_of_pos (by norm_num)]
    push_cast
    ring
  have hsign : if false then (1 / 2 : ℚ) ≤ 0 else 0 ≤ (1 / 2 : ℚ) := by norm_num
  have h := toRat?_round (by omega) hsign hfraction hhalf (by norm_num)
  rwa [nearest_of_isValue hhalf] at h

theorem isValue_large : IsValue (2 ^ 52) := by
  have h := isValue_int (k := 2 ^ 52) (by decide)
  push_cast at h
  exact h

/-- Whether the part after the point is more than a half, once it is rounded. -/
theorem half_isLess_iff (hx : x.toRat? = some w) :
    half.isLess (x - x.floor) = true ↔ 1 / 2 < nearest (w - ⌊w⌋) := by
  have hbelow := Int.floor_le w
  have habove := Int.lt_floor_add_one w
  apply isLess_iff toRat?_half
  apply toRat?_sub hx (toRat?_floor hx) isValue_large
  exact abs_le.mpr ⟨by linarith, by linarith⟩

/-- **The repair finds the whole number** that a quotient is within a quarter of. -/
theorem toRat?_repaired (hx : x.toRat? = some w) (hN : N.natAbs ≤ 2 ^ 51)
    (h : |w - N| ≤ 1 / 4) :
    (if half.isLess (x - x.floor) then x.floor + 1 else x.floor).toRat? = some (N : ℚ) := by
  obtain ⟨hbelow, habove⟩ := abs_le.mp h
  have hhalf := half_isLess_iff hx
  have hfloor := toRat?_floor hx
  rcases le_or_gt (N : ℚ) w with hle | hlt
  · -- the floor is the whole number, and at most a quarter is left
    have hwhole : ⌊w⌋ = N := Int.floor_eq_iff.mpr ⟨hle, by linarith⟩
    have hquarter : IsValue (1 / 4) := by simpa using isValue_quarter (k := 1) (by decide)
    have hsmall := nearest_mono (show w - N ≤ 1 / 4 by linarith)
    rw [nearest_of_isValue hquarter] at hsmall
    rw [hwhole] at hhalf hfloor
    rw [if_neg (by rw [hhalf]; linarith)]
    exact hfloor
  · -- the floor is one below it, and at least three quarters are left
    have hwhole : ⌊w⌋ = N - 1 := by
      apply Int.floor_eq_iff.mpr
      push_cast
      exact ⟨by linarith, by linarith⟩
    have hquarters : IsValue (3 / 4) := by simpa using isValue_quarter (k := 3) (by decide)
    have hlarge := nearest_mono (show 3 / 4 ≤ w - ((N : ℚ) - 1) by linarith)
    rw [nearest_of_isValue hquarters] at hlarge
    rw [hwhole, Int.cast_sub, Int.cast_one] at hhalf hfloor
    have hrange : |(N : ℚ) - 1 + 1| ≤ 2 ^ 52 := by
      rw [sub_add_cancel, abs_cast_int]
      exact_mod_cast hN.trans (by omega)
    have hsum := toRat?_add hfloor toRat?_one isValue_large hrange
    rw [sub_add_cancel, nearest_of_isValue (isValue_int (by omega))] at hsum
    rw [if_pos (by rw [hhalf]; linarith)]
    exact hsum

end Double

/-! ## Near the truncated and the floored quotient -/

section Quotient

open Double

variable {x y r : Double} {n m : Int}

theorem natAbs_mul_tdiv_le (n m : Int) : (m * n.tdiv m).natAbs ≤ n.natAbs := by
  rw [Int.natAbs_mul, Int.natAbs_tdiv]
  exact Nat.mul_div_le _ _

/-- A part in `2 ^ 53` of less than `2 ^ 51` is less than a quarter, also after a division. -/
theorem abs_div_sub_le_quarter {z b : ℚ} {k : Int} (hb : b ≠ 0) (hk : k.natAbs < 2 ^ 51)
    (h : |z - b * k| ≤ |b * k| / 2 ^ 53) : |z / b - k| ≤ 1 / 4 := by
  have hb' : 0 < |b| := abs_pos.mpr hb
  have hsize : |(k : ℚ)| ≤ 2 ^ 51 := by
    rw [abs_cast_int]
    exact_mod_cast hk.le
  calc |z / b - k| = |z - b * k| / |b| := by
        rw [← abs_div, sub_div, mul_div_cancel_left₀ _ hb]
    _ ≤ |b * k| / 2 ^ 53 / |b| := div_le_div_of_nonneg_right h hb'.le
    _ = |(k : ℚ)| / 2 ^ 53 := by
        rw [abs_mul]
        field_simp
    _ ≤ 1 / 4 := by
        rw [div_le_div_iff₀ (by norm_num) (by norm_num)]
        linarith

/-- **The rebuilt quotient is near the truncated one.** -/
theorem exists_multiple_near (hx : x.toRat? = some ((n : ℚ) / unit))
    (hy : y.toRat? = some ((m : ℚ) / unit)) (hr : r.toRat? = some ((n.tmod m : Int) / unit : ℚ))
    (hm : m ≠ 0) (hquotient : (n.tdiv m).natAbs < 2 ^ 51) :
    ∃ v, ((x - r) / y).toRat? = some v ∧ |v - n.tdiv m| ≤ 1 / 4 ∧ (n.tdiv m = 0 → v = 0) := by
  have hunit := cast_unit_pos
  have hb : (m : ℚ) / unit ≠ 0 := div_ne_zero (Int.cast_ne_zero.mpr hm) hunit.ne'
  have hsplit := Int.mul_tdiv_add_tmod n m
  have hmultiple := natAbs_mul_tdiv_le n m
  have hsize : |((n.tdiv m : Int) : ℚ)| ≤ 2 ^ 51 := by
    rw [abs_cast_int]
    exact_mod_cast hquotient.le
  generalize n.tdiv m = k at *
  have hexact : (n : ℚ) / unit - (n.tmod m : Int) / unit = (m * k : Int) / unit := by
    have hleft : n - n.tmod m = m * k := by linarith
    rw [← sub_div, ← Int.cast_sub, hleft]
  have hrange : |(n : ℚ) / unit - (n.tmod m : Int) / unit| ≤ |(n : ℚ) / unit| := by
    rw [hexact, abs_div, abs_div]
    apply div_le_div_of_nonneg_right _ (abs_nonneg _)
    rw [abs_cast_int, abs_cast_int]
    exact_mod_cast hmultiple
  have hdifference := toRat?_sub hx hr (isValue_abs ⟨x, hx⟩) hrange
  have herror := abs_nearest_sub_le (k := m * k) rfl
  rw [hexact] at hdifference
  have hproduct : ((m * k : Int) : ℚ) / unit = m / unit * k := by
    push_cast
    ring
  rw [hproduct] at hdifference herror
  have hnear := abs_div_sub_le_quarter hb hquotient herror
  have hrange' : |nearest (m / unit * k) / (m / unit)| ≤ 2 ^ 52 := by
    have htriangle := abs_sub_abs_le_abs_sub (nearest (m / unit * k) / (m / unit)) k
    linarith
  refine ⟨_, toRat?_div hdifference hy hb isValue_large hrange', ?_, ?_⟩
  · exact abs_nearest_sub_le_quarter (by omega) (by omega) hnear
  · rintro rfl
    simp [nearest_zero]

/-- Where the remainder's sign is not the divisor's, the truncated quotient is not positive. -/
theorem tdiv_ne_one_of_sign_ne (hm : m ≠ 0) (hr : n.tmod m ≠ 0) (hs : n.tmod m < 0 ↔ ¬m < 0) :
    n.tdiv m ≠ 1 := by
  intro hone
  have hsplit := Int.mul_tdiv_add_tmod n m
  have hless := natAbs_tmod_lt n hm
  rw [hone, Int.mul_one] at hsplit
  by_cases hneg : m < 0
  · have hsign := Int.tmod_nonneg m (show 0 ≤ -n by omega)
    rw [Int.neg_tmod] at hsign
    omega
  · have hsign := Int.tmod_nonneg m (show 0 ≤ n by omega)
    omega

/-- **After the step for mixed signs the quotient is near the floored one**, and nothing is left of
it if that is zero. -/
theorem exists_quotient_near (hx : x.toRat? = some ((n : ℚ) / unit))
    (hy : y.toRat? = some ((m : ℚ) / unit)) (hr : r.toRat? = some ((n.tmod m : Int) / unit : ℚ))
    (hm : m ≠ 0) (hquotient : (n.tdiv m).natAbs < 2 ^ 51) (hlow : -2 ^ 51 ≤ n.fdiv m)
    (hhigh : n.fdiv m < 2 ^ 51) :
    ∃ v, (if !r.isZero && y.isBelowZero != r.isBelowZero then (x - r) / y - 1
        else (x - r) / y).toRat? = some v ∧
      |v - n.fdiv m| ≤ 1 / 4 ∧ (n.fdiv m = 0 → v = 0) := by
  obtain ⟨v, hv, hnear, hzero⟩ := exists_multiple_near hx hy hr hm hquotient
  have hcondition : (!r.isZero && y.isBelowZero != r.isBelowZero) = true ↔
      n.tmod m ≠ 0 ∧ (n.tmod m < 0 ↔ ¬m < 0) := by
    rw [isZero_quanta hr, isBelowZero_quanta hy, isBelowZero_quanta hr]
    by_cases hneg : m < 0 <;> by_cases hneg' : n.tmod m < 0 <;> simp [hneg, hneg']
  by_cases hs : n.tmod m ≠ 0 ∧ (n.tmod m < 0 ↔ ¬m < 0)
  · have hfloor := fdiv_of_sign_ne hm hs.1 hs.2
    have hone := tdiv_ne_one_of_sign_ne hm hs.1 hs.2
    have hdistance : v - 1 - n.fdiv m = v - n.tdiv m := by
      rw [hfloor]
      push_cast
      ring
    have hrange : |v - 1| ≤ 2 ^ 52 := by
      have hlow' : (-2 ^ 51 : ℚ) ≤ n.fdiv m := by exact_mod_cast hlow
      have hhigh' : (n.fdiv m : ℚ) < 2 ^ 51 := by exact_mod_cast hhigh
      have hsides := abs_le.mp (hdistance ▸ hnear)
      exact abs_le.mpr ⟨by linarith, by linarith⟩
    rw [if_pos (hcondition.mpr hs)]
    refine ⟨nearest (v - 1), toRat?_sub hv toRat?_one isValue_large hrange, ?_, ?_⟩
    · exact abs_nearest_sub_le_quarter hlow hhigh (hdistance ▸ hnear)
    · intro hfloor0
      omega
  · have hfloor : n.fdiv m = n.tdiv m := by
      apply fdiv_of_sign_eq hm
      by_cases h0 : n.tmod m = 0
      · exact Or.inl h0
      · right
        by_contra hne
        exact hs ⟨h0, by tauto⟩
    rw [if_neg (fun h => hs (hcondition.mp h)), hfloor]
    exact ⟨v, hv, hnear, hzero⟩

/-- The bounds of a rational quotient are those of its whole parts. -/
theorem quotient_bounds (hm : m ≠ 0) (h : |(n : ℚ) / m| < 2 ^ 51) :
    (n.tdiv m).natAbs < 2 ^ 51 ∧ -2 ^ 51 ≤ n.fdiv m ∧ n.fdiv m < 2 ^ 51 := by
  obtain ⟨hlow, hhigh⟩ := abs_lt.mp h
  rw [fdiv_eq_floor]
  refine ⟨?_, ?_, ?_⟩
  · have hm' : (0 : ℚ) < |(m : ℚ)| := abs_pos.mpr (Int.cast_ne_zero.mpr hm)
    rw [abs_div, div_lt_iff₀ hm', abs_cast_int, abs_cast_int] at h
    rw [Int.natAbs_tdiv]
    show n.natAbs / m.natAbs < 2 ^ 51
    rw [Nat.div_lt_iff_lt_mul (by omega)]
    exact_mod_cast h
  · rw [Int.le_floor]
    push_cast
    exact hlow.le
  · rw [Int.floor_lt]
    push_cast
    exact hhigh

/-- What comes of a quotient that is near a whole number: a zero of the given sign, or else that
number. -/
theorem exists_result {quotient : Double} {v : ℚ} {N : Int} (negative : Bool)
    (hv : quotient.toRat? = some v) (hN : N.natAbs ≤ 2 ^ 51) (hnear : |v - N| ≤ 1 / 4)
    (hzero : N = 0 → v = 0) :
    ∃ result, (if quotient.isZero then .ok (.zero negative)
        else .ok (if half.isLess (quotient - quotient.floor) then quotient.floor + 1
          else quotient.floor) : Except DivisionByZero Double) = .ok result ∧
      result.toRat? = some (N : ℚ) ∧ (N = 0 → result.isNegative = negative) := by
  by_cases h0 : quotient.isZero = true
  · have hv0 : v = 0 := (isZero_iff hv).mp h0
    have hwhole : N.natAbs < 1 := by
      rw [hv0, zero_sub, abs_neg, abs_cast_int] at hnear
      have hless : (N.natAbs : ℚ) < 1 := by linarith
      exact_mod_cast hless
    rw [if_pos h0]
    refine ⟨.zero negative, rfl, ?_, fun _ => rfl⟩
    rw [toRat?_zero, show N = 0 by omega, Int.cast_zero]
  · rw [if_neg h0]
    refine ⟨_, rfl, toRat?_repaired hv hN hnear, ?_⟩
    intro hwhole
    exact absurd ((isZero_iff hv).mpr (hzero hwhole)) h0

/-! ## The quotient -/

/-- **Doubles are divided exactly**: while the rational quotient of two finite doubles lies below
`2 ^ 51`, their quotient is its floor, and a zero is negative exactly when the signs differ. -/
theorem floatFloorDivide_eq_floor {x y : Double} {a b : ℚ} (hx : x.toRat? = some a)
    (hy : y.toRat? = some b) (hb : b ≠ 0) (h : |a / b| < 2 ^ 51) :
    ∃ q, floatFloorDivide x y = .ok q ∧ q.toRat? = some (⌊a / b⌋ : ℚ) ∧
      (⌊a / b⌋ = 0 → q.isNegative = (x.isNegative != y.isNegative)) := by
  have hy0 : y.isZero ≠ true := fun hzero => hb ((isZero_iff hy).mp hzero)
  have hsign := isNegative_div hx hy hb
  obtain ⟨s, p, hp, rfl, rfl⟩ := exists_quanta hx
  obtain ⟨t, q, hq, rfl, rfl⟩ := exists_quanta hy
  have hunit := cast_unit_pos
  have hm : signedQuanta t q ≠ 0 := by
    intro hzero
    rw [hzero] at hb
    simp at hb
  have hq0 : q ≠ 0 := by
    rintro rfl
    exact hm (signedQuanta_zero t)
  have hrem := toRat?_rem s t hp hq hq0
  rw [div_div_div_cancel_right₀ hunit.ne'] at h ⊢
  obtain ⟨hquotient, hlow, hhigh⟩ := quotient_bounds hm h
  obtain ⟨v, hv, hnear, hzero⟩ := exists_quotient_near hx hy hrem hm hquotient hlow hhigh
  obtain ⟨result, hresult, hvalue, hnegative⟩ := exists_result _ hv (by omega) hnear hzero
  rw [← fdiv_eq_floor, ← hsign]
  refine ⟨result, ?_, hvalue, hnegative⟩
  unfold floatFloorDivide
  rw [if_neg hy0]
  exact hresult

/-- Minus one quantum by three of them. -/
theorem floatFloorDivide_eq_floor_subnormal :
    ∃ hone : Representable 1, ∃ hthree : Representable 3, ∃ q,
      floatFloorDivide (.finite true 1 hone) (.finite false 3 hthree) = .ok q ∧
        q.toRat? = some (-1) := by
  have hone : Representable 1 := ⟨1, 0, by decide, by decide, rfl⟩
  have hthree : Representable 3 := ⟨3, 0, by decide, by decide, rfl⟩
  have hunit := Double.cast_unit_pos
  have hquotient : ((-1 : Int) / Double.unit : ℚ) / ((3 : Int) / Double.unit) = -1 / 3 := by
    rw [div_div_div_cancel_right₀ hunit.ne']
    norm_num
  have hfloor : ⌊(-1 / 3 : ℚ)⌋ = -1 := by
    rw [Int.floor_eq_iff]
    norm_num
  obtain ⟨q, hq, hvalue, -⟩ := floatFloorDivide_eq_floor
    (x := .finite true 1 hone) (y := .finite false 3 hthree)
    (a := (-1 : Int) / Double.unit) (b := (3 : Int) / Double.unit) rfl rfl
    (div_ne_zero (by norm_num) hunit.ne') (by rw [hquotient, abs_lt]; norm_num)
  rw [hquotient, hfloor] at hvalue
  exact ⟨hone, hthree, q, hq, by simpa using hvalue⟩

end Quotient

end FloorDivision
