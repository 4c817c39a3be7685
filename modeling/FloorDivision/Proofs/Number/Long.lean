import FloorDivision.Number.Long
import FloorDivision.Proofs.Number.Nearest

/-!
# Longs as doubles

* `keptMagnitude_lt_iff` — the leading bits in their place are below the same multiples of a power
  of two above them as the whole magnitude.
* `roundQuanta_keptMagnitude` — where no low bit goes unseen they are rounded to the same double.
* `roundQuanta_lt_overflowQuanta_iff` — which magnitudes are rounded to a finite one.
* `Double.isFinite_ofLong_iff` — longs have a finite double below `2 ^ 1024 - 2 ^ 970`.
* `Double.ofLong_eq_ofInt` — a long of at most two words has the double of the integer.
* `Double.isNearest_ofLong` — where longs are rounded as integers are, to the nearest double.
-/

namespace FloorDivision

open Double (unit unit_pos)

/-- The magnitude that a long's double is rounded from, its leading bits in their place. -/
def keptMagnitude (n : Nat) : Nat := leadingBits n <<< cutBits n

/-- No bit below the leading ones goes unseen. -/
def SeesLowBits (n : Nat) : Prop := hasLowBits n = decide (n % 2 ^ cutBits n ≠ 0)

/-! ## Leading bits -/

/-- Setting the last bit. -/
theorem or_one_eq (x : Nat) : x ||| 1 = 2 * (x / 2) + 1 := by
  have hhalf : (x ||| 1) / 2 = x / 2 := by simp [Nat.or_div_two]
  have hlast : (x ||| 1) % 2 = 1 := by simp [Nat.or_mod_two_eq_one]
  omega

section Leading

variable {n : Nat}

theorem leadingBits_cases (n : Nat) :
    (hasLowBits n = false ∧ leadingBits n = n / 2 ^ cutBits n) ∨
      (hasLowBits n = true ∧ leadingBits n = 2 * (n / 2 ^ cutBits n / 2) + 1) := by
  unfold leadingBits
  rw [Nat.shiftRight_eq_div_pow]
  cases hasLowBits n with
  | false => exact Or.inl ⟨rfl, Nat.or_zero _⟩
  | true => exact Or.inr ⟨rfl, or_one_eq _⟩

/-- A multiple of a power of two above the last place of the leading bits, counted in that. -/
theorem exists_even_multiple {p k : Nat} (hp : cutBits n < p) (hk : 2 ^ p ∣ k) :
    ∃ j, k = 2 * j * 2 ^ cutBits n := by
  obtain ⟨c, rfl⟩ := hk
  refine ⟨c * 2 ^ (p - cutBits n - 1), ?_⟩
  have hpow : 2 ^ p = 2 ^ (p - cutBits n - 1) * 2 * 2 ^ cutBits n := by
    rw [← Nat.pow_succ, ← Nat.pow_add]
    congr 1
    omega
  rw [hpow]
  ring

/-- **The leading bits stand on the same side of what lies above their last place.** -/
theorem keptMagnitude_lt_iff {p k : Nat} (hp : cutBits n < p) (hk : 2 ^ p ∣ k) :
    keptMagnitude n < k ↔ n < k := by
  obtain ⟨j, rfl⟩ := exists_even_multiple hp hk
  have hpos := Nat.two_pow_pos (cutBits n)
  unfold keptMagnitude
  rw [Nat.shiftLeft_eq, Nat.mul_lt_mul_right hpos, ← Nat.div_lt_iff_lt_mul hpos]
  rcases leadingBits_cases n with ⟨-, h⟩ | ⟨-, h⟩ <;> omega

theorem keptMagnitude_le_iff (hsees : SeesLowBits n) {p k : Nat} (hp : cutBits n < p)
    (hk : 2 ^ p ∣ k) : keptMagnitude n ≤ k ↔ n ≤ k := by
  obtain ⟨j, rfl⟩ := exists_even_multiple hp hk
  have hpos := Nat.two_pow_pos (cutBits n)
  have hbits := leadingBits_cases n
  unfold SeesLowBits at hsees
  unfold keptMagnitude
  rw [Nat.shiftLeft_eq, Nat.mul_le_mul_right_iff hpos]
  clear hk
  generalize 2 ^ cutBits n = c at *
  have hparts := Nat.div_add_mod' n c
  rcases hbits with ⟨hlow, h⟩ | ⟨hlow, h⟩
  · have hzero : n % c = 0 := by simpa [hlow] using hsees
    rw [hzero, Nat.add_zero] at hparts
    rw [h, ← Nat.mul_le_mul_right_iff hpos, hparts]
  · have hne : n % c ≠ 0 := by simpa [hlow] using hsees
    have hlt : n ≤ 2 * j * c ↔ n / c < 2 * j := by
      rw [Nat.div_lt_iff_lt_mul hpos]
      refine ⟨fun hle => Nat.lt_of_le_of_ne hle fun heq => hne ?_, Nat.le_of_lt⟩
      rw [heq]
      exact Nat.mul_mod_left _ _
    rw [hlt]
    omega

theorem keptMagnitude_of_lt (h : n < 2 ^ 64) : keptMagnitude n = n := by
  have hcut : cutBits n = 0 := by
    by_cases h0 : n = 0
    · subst h0
      decide
    · have := (Nat.log2_lt h0).mpr h
      unfold cutBits longWordSize
      omega
  unfold keptMagnitude
  rw [leadingBits_of_lt h, hcut]
  rfl

theorem log2_keptMagnitude (n : Nat) : (keptMagnitude n).log2 = n.log2 := by
  rcases Nat.lt_or_ge n (2 ^ 64) with hsmall | hlarge
  · rw [keptMagnitude_of_lt hsmall]
  · have hn : n ≠ 0 := by omega
    have hlog : 64 ≤ n.log2 := (Nat.le_log2 hn).mpr hlarge
    have hcut : cutBits n < n.log2 := by
      unfold cutBits longWordSize
      omega
    have hbelow := keptMagnitude_lt_iff (n := n) (by omega) (dvd_refl (2 ^ (n.log2 + 1)))
    have habove := keptMagnitude_lt_iff hcut (dvd_refl (2 ^ n.log2))
    have hreached : 2 ^ n.log2 ≤ keptMagnitude n :=
      Nat.not_lt.mp fun h => Nat.not_lt.mpr (Nat.log2_self_le hn) (habove.mp h)
    have hless : keptMagnitude n < 2 ^ (n.log2 + 1) := hbelow.mpr Nat.lt_log2_self
    have hkept : keptMagnitude n ≠ 0 := by
      have := Nat.two_pow_pos n.log2
      omega
    exact (Nat.log2_eq_iff hkept).mpr ⟨hreached, hless⟩

/-- With two words there is one below the leading bits, and all of what is cut off is looked at. -/
theorem seesLowBits_of_lt (h : n < 2 ^ 128) (hlarge : 2 ^ 64 ≤ n) : SeesLowBits n := by
  have hn : n ≠ 0 := by omega
  have hlog := (Nat.le_log2 hn).mpr hlarge
  have hless := (Nat.log2_lt hn).mpr h
  have htop : topBits n = cutBits n := by
    unfold topBits cutBits longWordSize
    omega
  have hrest : n % 2 ^ cutBits n < 2 ^ cutBits n := Nat.mod_lt _ (Nat.two_pow_pos _)
  have hword : n % 2 ^ cutBits n < 1 <<< longWordSize := by
    refine hrest.trans_le ?_
    rw [Nat.one_shiftLeft]
    refine Nat.pow_le_pow_right (by omega) ?_
    unfold cutBits longWordSize
    omega
  unfold SeesLowBits hasLowBits
  rw [htop, Nat.one_shiftLeft]
  generalize n % 2 ^ cutBits n = rest at hrest hword ⊢
  unfold words wordsLoop
  by_cases h0 : rest = 0
  · simp [h0]
  · have hshift : rest >>> longWordSize = 0 := by
      rw [Nat.shiftRight_eq_div_pow]
      exact Nat.div_eq_of_lt (by rwa [Nat.one_shiftLeft] at hword)
    have hnone : wordsLoop longWordSize rest.log2 0 = [] := by
      cases rest.log2 <;> simp [wordsLoop]
    rw [if_neg h0, Nat.mod_eq_of_lt hword, hshift, hnone]
    simp [Nat.mod_eq_of_lt hrest, bne, h0]

end Leading

/-! ## Rounding what is kept -/

/-- Rounding depends on nothing but where a number stands among the multiples of half a step. -/
theorem roundDiv_eq_of_halves {n m h : Nat} (hh : 0 < h) (hlt : ∀ k, n < k * h ↔ m < k * h)
    (hle : ∀ k, n ≤ k * h ↔ m ≤ k * h) : roundDiv n (2 * h) = roundDiv m (2 * h) := by
  have hparts := Nat.div_add_mod n (2 * h)
  have hrest := Nat.mod_lt n (show 0 < 2 * h by omega)
  generalize hw : n / (2 * h) = w at hparts
  -- the step that a number is in, and the halves of it
  have hbottom : 2 * w * h = 2 * h * w := by ring
  have hmiddle : (2 * w + 1) * h = 2 * h * w + h := by ring
  have htop : (2 * w + 2) * h = 2 * h * w + 2 * h := by ring
  have below := hlt (2 * w)
  have above := hlt (2 * w + 2)
  have less := hlt (2 * w + 1)
  have most := hle (2 * w + 1)
  rw [hbottom] at below
  rw [htop] at above
  rw [hmiddle] at less most
  have hw' : m / (2 * h) = w := by
    rw [Nat.div_eq_iff (show 0 < 2 * h by omega), Nat.mul_comm w]
    omega
  have hparts' := Nat.div_add_mod m (2 * h)
  unfold roundDiv
  rw [hw, hw']
  rw [hw'] at hparts'
  generalize 2 * h * w = base at *
  have hless : 2 * (n % (2 * h)) < 2 * h ↔ 2 * (m % (2 * h)) < 2 * h := by omega
  have htie : 2 * (n % (2 * h)) = 2 * h ↔ 2 * (m % (2 * h)) = 2 * h := by omega
  simp only [hless, htie]

theorem lt_two_pow_of_log2_lt {n k : Nat} (h : n.log2 < k) : n < 2 ^ k :=
  Nat.lt_log2_self.trans_le (Nat.pow_le_pow_right (by omega) h)

theorem two_pow_le_of_le_log2 {n k : Nat} (hk : 0 < k) (h : k ≤ n.log2) : 2 ^ k ≤ n := by
  have hn : n ≠ 0 := by
    rintro rfl
    rw [Nat.log2_zero] at h
    omega
  exact (Nat.le_log2 hn).mp h

theorem shiftLeft_lt_shiftLeft_iff (a b k : Nat) : a <<< k < b <<< k ↔ a < b := by
  rw [Nat.shiftLeft_eq, Nat.shiftLeft_eq]
  exact Nat.mul_lt_mul_right (Nat.two_pow_pos k)

theorem log2_mul_one_shiftLeft {n : Nat} (hn : n ≠ 0) (k : Nat) :
    (n * 1 <<< k).log2 = n.log2 + k := by
  have hpos := Nat.two_pow_pos k
  have hlow := Nat.log2_self_le hn
  have hhigh := Nat.lt_log2_self (n := n)
  rw [Nat.one_shiftLeft, Nat.log2_eq_iff (by positivity), Nat.add_right_comm, Nat.pow_add,
    Nat.pow_add _ _ k]
  exact ⟨Nat.mul_le_mul_right _ hlow, Nat.mul_lt_mul_of_pos_right hhigh hpos⟩

/-- A whole number of enough bits is rounded to a multiple of a power of two. -/
theorem roundQuanta_whole {n : Nat} (hlog : 53 ≤ n.log2) :
    roundQuanta (n * unit) 1 = roundDiv n (2 * 2 ^ (n.log2 - 53)) <<< (n.log2 + 1022) := by
  have hn : n ≠ 0 := by
    rintro rfl
    simp at hlog
  have hspacing : spacing (n * unit) = n.log2 + 1022 := by
    unfold spacing unit
    rw [log2_mul_one_shiftLeft hn]
    omega
  have hstep : 1 <<< (n.log2 + 1022) = 2 * 2 ^ (n.log2 - 53) * unit := by
    unfold unit
    rw [show n.log2 + 1022 = n.log2 - 52 + 1074 by omega, Nat.shiftLeft_add, Nat.one_shiftLeft,
      ← Nat.pow_succ', show (n.log2 - 53).succ = n.log2 - 52 by omega]
    exact (mul_one_shiftLeft _ _).symm
  unfold roundQuanta
  simp only [Nat.div_one, hspacing]
  rw [hstep, roundDiv_mul n _ unit_pos]

/-- **What is kept is rounded like the whole** if no low bit goes unseen. -/
theorem roundQuanta_keptMagnitude {n : Nat} (hsees : SeesLowBits n) :
    roundQuanta (keptMagnitude n * unit) 1 = roundQuanta (n * unit) 1 := by
  rcases Nat.lt_or_ge n (2 ^ 64) with hsmall | hlarge
  · rw [keptMagnitude_of_lt hsmall]
  · have hn : n ≠ 0 := by omega
    have hlog : 64 ≤ n.log2 := (Nat.le_log2 hn).mpr hlarge
    have hkept : 53 ≤ (keptMagnitude n).log2 := by
      rw [log2_keptMagnitude]
      omega
    have hcut : cutBits n < n.log2 - 53 := by
      unfold cutBits longWordSize
      omega
    rw [roundQuanta_whole hkept, roundQuanta_whole (by omega), log2_keptMagnitude,
      roundDiv_eq_of_halves (Nat.two_pow_pos _)
        (fun k => keptMagnitude_lt_iff hcut (Nat.dvd_mul_left _ k))
        fun k => keptMagnitude_le_iff hsees hcut (Nat.dvd_mul_left _ k)]

/-! ## Overflow -/

/-- A tie below an even number is rounded up to it. -/
theorem roundDiv_lt_iff {n h k : Nat} (hh : 0 < h) (heven : k % 2 = 0) (hk : 0 < k) :
    roundDiv n (2 * h) < k ↔ n < (2 * k - 1) * h := by
  have hparts := Nat.div_add_mod n (2 * h)
  have hrest := Nat.mod_lt n (show 0 < 2 * h by omega)
  unfold roundDiv
  dsimp only
  generalize n / (2 * h) = w at hparts ⊢
  generalize n % (2 * h) = r at *
  have hbound : (2 * k - 1) * h + h = 2 * h * k := by
    obtain ⟨j, rfl⟩ : ∃ j, k = j + 1 := ⟨k - 1, by omega⟩
    rw [show 2 * (j + 1) - 1 = 2 * j + 1 by omega]
    ring
  rcases Nat.lt_trichotomy w (k - 1) with hw | rfl | hw
  · have hle : 2 * h * (w + 2) ≤ 2 * h * k := Nat.mul_le_mul_left _ (by omega)
    rw [Nat.mul_add] at hle
    constructor
    · intro
      omega
    · intro
      split <;> omega
  · have hlast : 2 * h * (k - 1) + 2 * h = 2 * h * k := by
      rw [← Nat.mul_succ]
      congr 1
      omega
    split <;> omega
  · have hle : 2 * h * k ≤ 2 * h * w := Nat.mul_le_mul_left _ (by omega)
    constructor
    · intro
      split at * <;> omega
    · intro
      omega

/-- The least magnitude of an integer that is not rounded to a finite double. -/
@[irreducible] def overflowInteger : Nat := 2 ^ 1024 - 2 ^ 970

/-- The limit is the greatest finite double and half a step. -/
theorem overflowInteger_eq {k : Nat} (hk : k = 970) :
    overflowInteger = (2 * 2 ^ 53 - 1) * 2 ^ k := by
  subst hk
  decide +kernel

theorem two_pow_dvd_overflowInteger : 2 ^ 970 ∣ overflowInteger := by decide +kernel

theorem two_pow_le_overflowInteger : 2 ^ 1023 ≤ overflowInteger := by decide +kernel

theorem overflowInteger_le : overflowInteger ≤ 2 ^ 1024 := by decide +kernel

theorem overflowQuanta_le_mul_unit {n k : Nat} (hk : quantaBits = k + 1074) (hn : 2 ^ k ≤ n) :
    overflowQuanta ≤ n * unit := by
  unfold overflowQuanta unit
  rwa [hk, mul_one_shiftLeft, Nat.shiftLeft_add, ← Nat.not_lt, shiftLeft_lt_shiftLeft_iff,
    Nat.one_shiftLeft, Nat.not_lt]

/-- **The magnitudes of integers that are rounded to finite doubles.** -/
theorem roundQuanta_lt_overflowQuanta_iff (n : Nat) :
    roundQuanta (n * unit) 1 < overflowQuanta ↔ n < overflowInteger := by
  rcases Nat.lt_trichotomy n.log2 1023 with hlog | hlog | hlog
  · refine iff_of_true ?_ ((lt_two_pow_of_log2_lt hlog).trans_le two_pow_le_overflowInteger)
    have hspacing : spacing (n * unit) ≤ 2044 := by
      by_cases h0 : n = 0
      · rw [h0, Nat.zero_mul]
        decide
      · unfold spacing unit
        rw [log2_mul_one_shiftLeft h0]
        omega
    have hgrid := roundDiv_grid_le (n * unit) 1
    rw [Nat.div_one] at hgrid
    have hround : roundQuanta (n * unit) 1 =
        roundDiv (n * unit) (1 <<< spacing (n * unit)) <<< spacing (n * unit) := by
      simp only [roundQuanta, Nat.div_one]
    generalize spacing (n * unit) = s at *
    calc roundQuanta (n * unit) 1 = roundDiv (n * unit) (1 <<< s) <<< s := hround
      _ ≤ 1 <<< 53 <<< s := by
        rw [Nat.shiftLeft_eq _ s, Nat.shiftLeft_eq (1 <<< 53)]
        exact Nat.mul_le_mul_right _ hgrid
      _ = 1 <<< (53 + s) := (Nat.shiftLeft_add _ _ _).symm
      _ < overflowQuanta := one_shiftLeft_lt_iff.mpr (by unfold quantaBits; omega)
  · have hplace : n.log2 + 1022 = 2045 := by omega
    have hlimit : overflowQuanta = 2 ^ 53 <<< 2045 := by
      rw [← Nat.one_shiftLeft, ← Nat.shiftLeft_add]
      rfl
    rw [roundQuanta_whole (by omega), hplace, hlimit, shiftLeft_lt_shiftLeft_iff,
      roundDiv_lt_iff (Nat.two_pow_pos _) (by decide) (by decide),
      overflowInteger_eq (show n.log2 - 53 = 970 by omega)]
  · have hreached := two_pow_le_of_le_log2 (k := 1024) (by omega) hlog
    refine iff_of_false (Nat.not_lt.mpr (overflowQuanta_le_roundQuanta ?_))
      (Nat.not_lt.mpr (overflowInteger_le.trans hreached))
    rw [Nat.div_one]
    exact overflowQuanta_le_mul_unit rfl hreached

/-- What is kept reaches the limit exactly where the whole does, seen or not. -/
theorem keptMagnitude_lt_overflowInteger_iff (n : Nat) :
    keptMagnitude n < overflowInteger ↔ n < overflowInteger := by
  rcases Nat.lt_or_ge n.log2 1024 with hlog | hlog
  · have hcut : cutBits n < 970 := by
      unfold cutBits longWordSize
      omega
    exact keptMagnitude_lt_iff hcut two_pow_dvd_overflowInteger
  · have hreached : ∀ m : Nat, 1024 ≤ m.log2 → ¬m < overflowInteger := by
      intro m hm
      have hlarge := two_pow_le_of_le_log2 (by omega) hm
      exact Nat.not_lt.mpr (overflowInteger_le.trans hlarge)
    exact iff_of_false (hreached _ (by rwa [log2_keptMagnitude])) (hreached n hlog)

/-! ## Conversions -/

namespace Double

variable {n : Int}

/-- **A long has a finite double below the limit.** -/
theorem isFinite_ofLong_iff : (ofLong n).isFinite = true ↔ n.natAbs < overflowInteger :=
  (isFinite_round.trans (roundQuanta_lt_overflowQuanta_iff (keptMagnitude n.natAbs))).trans
    (keptMagnitude_lt_overflowInteger_iff n.natAbs)

/-- **A long of at most two words has the double of the integer.** -/
theorem ofLong_eq_ofInt (h : n.natAbs < 2 ^ 128) : ofLong n = ofInt n := by
  have hround : roundQuanta (keptMagnitude n.natAbs * unit) 1 = roundQuanta (n.natAbs * unit) 1 := by
    rcases Nat.lt_or_ge n.natAbs (2 ^ 64) with hsmall | hlarge
    · rw [keptMagnitude_of_lt hsmall]
    · exact roundQuanta_keptMagnitude (seesLowBits_of_lt h hlarge)
  show round _ (keptMagnitude n.natAbs * unit) 1 = round _ (n.natAbs * unit) 1
  simp only [round, hround]

/-- The double is the nearest one to an integer, ties to even. -/
def IsNearest (n : Int) (x : Double) : Prop :=
  ∃ q h, x = .finite (n < 0) q h ∧ Nearest (n.natAbs * unit) 1 q

theorem isNearest_ofInt (h : n.natAbs < overflowInteger) : IsNearest n (ofInt n) := by
  have hfinite := (roundQuanta_lt_overflowQuanta_iff n.natAbs).mpr h
  exact ⟨_, representable_roundQuanta _ _ hfinite, dif_pos hfinite, nearest_roundQuanta _ Nat.one_pos⟩

/-- A long is rounded as an integer is, which only one of more than two words may fail to be. -/
def IsRoundedAt (n : Int) : Prop := 2 ^ 128 ≤ n.natAbs → ofLong n = ofInt n

/-- Of a long of three words a bit of the lowest one may go unseen. -/
theorem exists_not_isRoundedAt : ∃ n, ¬IsRoundedAt n := by
  refine ⟨456390592501379285284527005793328824322, fun h => ?_⟩
  exact absurd (h (by decide)) (by decide +kernel)

theorem isNearest_ofLong (h : n.natAbs < overflowInteger) (hr : IsRoundedAt n) :
    IsNearest n (ofLong n) := by
  rcases Nat.lt_or_ge n.natAbs (2 ^ 128) with hwords | hwords
  · rw [ofLong_eq_ofInt hwords]
    exact isNearest_ofInt h
  · rw [hr hwords]
    exact isNearest_ofInt h

end Double

end FloorDivision
