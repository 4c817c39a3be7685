import FloorDivision.Proofs.Number.Floor

/-!
# The division of machine integers, operation by operation

* `word?` — an integer as a machine integer, if it is one.
* `trappingFloorDivide` — the division of machine integers with every operation stopped where its
  exact result is no machine integer.
* `trappingFloorDivide_eq` — none is ever stopped.
* `doubleWordFloorDivide`, `toInt_doubleWordFloorDivide` — words of twice the size hold every
  quotient.
* `native_division_exact` — when machine integers have a quotient, and that it is the floored one by
  each of the three ways to compute it.
-/

namespace FloorDivision

/-! ## Operations that stop -/

/-- The machine integer that an integer is, if it is in their range. -/
def word? (n : Int) : Option Int64 := if FitsWord n then some (.ofInt n) else none

/-- The division of machine integers.  Each operation is done exactly and stops the division if no
machine integer is the result. -/
def trappingFloorDivide (a b : Int64) : Option (Except DivisionByZero (Option Int64)) :=
  if b = 0 then some (.error .divisionByZero)
  else if b = -1 ∧ a = Int64.minValue then some (.ok none)
  else do
    let truncated ← word? (a.toInt.tdiv b.toInt)
    let multiple ← word? (truncated.toInt * b.toInt)
    let remainder ← word? (a.toInt - multiple.toInt)
    if remainder ≠ 0 ∧ decide (remainder < 0) ≠ decide (b < 0) then
      let stepped ← word? (truncated.toInt - 1)
      return .ok (some stepped)
    else return .ok (some truncated)

theorem word?_of_eq {n : Int} {x : Int64} (h : x.toInt = n) : word? n = some x := by
  subst h
  unfold word?
  rw [if_pos (fitsWord_toInt x), Int64.ofInt_toInt]

/-- The remainder of a truncated quotient lies between zero and what is divided. -/
theorem tmod_between (a b : Int) : 0 ≤ a.tmod b ∧ a.tmod b ≤ a ∨ a ≤ a.tmod b ∧ a.tmod b ≤ 0 := by
  have hle : (a.tmod b).natAbs ≤ a.natAbs := by
    rw [Int.natAbs_tmod]
    exact Nat.mod_le _ _
  rcases Int.le_total 0 a with h | h
  · have hsign := Int.tmod_nonneg b h
    omega
  · have hsign := Int.tmod_nonneg b (Int.neg_nonneg_of_nonpos h)
    rw [Int.neg_tmod] at hsign
    omega

section Machine

variable {a b : Int64}

/-- The multiple of the divisor next to what is divided is a machine integer. -/
theorem toInt_multiple (hx : ¬(b = -1 ∧ a = Int64.minValue)) :
    (a / b * b).toInt = a.toInt.tdiv b.toInt * b.toInt := by
  have hdef := Int.tdiv_mul_add_tmod a.toInt b.toInt
  have hbetween := tmod_between a.toInt b.toInt
  have hlo := a.le_toInt
  have hhi := a.toInt_lt
  rw [Int64.toInt_mul, toInt_quotient hx]
  exact Int.bmod_eq_of_le (by omega) (by omega)

/-- **No operation of the division leaves the machine integers.** -/
theorem trappingFloorDivide_eq (a b : Int64) :
    trappingFloorDivide a b = some (intFloorDivide a b) := by
  unfold trappingFloorDivide intFloorDivide
  split
  · rfl
  rename_i hb
  split
  · rfl
  rename_i hx
  have hquotient : word? (a.toInt.tdiv b.toInt) = some (a / b) := word?_of_eq (toInt_quotient hx)
  have hmultiple : word? ((a / b).toInt * b.toInt) = some (a / b * b) :=
    word?_of_eq (by rw [toInt_multiple hx, toInt_quotient hx])
  have hremainder : word? (a.toInt - (a / b * b).toInt) = some (a - a / b * b) :=
    word?_of_eq (by rw [toInt_remainder hb hx, toInt_multiple hx, Int.mul_comm, ← Int.tmod_def])
  simp only [hquotient, hmultiple, hremainder, Option.bind_eq_bind, Option.bind_some]
  split
  · rename_i hs
    have hr : a.toInt.tmod b.toInt ≠ 0 := toInt_remainder hb hx ▸ toInt_ne_zero hs.1
    have hstepped : word? ((a / b).toInt - 1) = some (a / b - 1) :=
      word?_of_eq (by rw [toInt_stepped hb hx hr, toInt_quotient hx])
    rw [hstepped]
    rfl
  · rfl

end Machine

/-! ## Words of twice the size -/

/-- The same number in a word of twice the size. -/
def doubleWord (a : Int64) : BitVec 128 := a.toBitVec.signExtend 128

/-- Floor division of words of twice the size: the truncated quotient, stepped down where divisor and
remainder have different signs. -/
def doubleWordFloorDivide (a b : BitVec 128) : BitVec 128 :=
  let remainder := a.srem b
  if 0 < remainder.toInt ∧ b.toInt < 0 ∨ remainder.toInt < 0 ∧ 0 < b.toInt then a.sdiv b - 1
  else a.sdiv b

theorem toInt_doubleWord (a : Int64) : (doubleWord a).toInt = a.toInt := by
  unfold doubleWord
  rw [BitVec.toInt_signExtend_of_le (by decide), Int64.toInt_toBitVec]

theorem toInt_doubleWord_sdiv (a b : Int64) :
    ((doubleWord a).sdiv (doubleWord b)).toInt = a.toInt.tdiv b.toInt := by
  have hmin : doubleWord a ≠ BitVec.intMin 128 := by
    intro h
    have hlo := a.le_toInt
    rw [← toInt_doubleWord, h, BitVec.toInt_intMin] at hlo
    revert hlo
    decide
  rw [BitVec.toInt_sdiv_of_ne_or_ne _ _ (Or.inl hmin), toInt_doubleWord, toInt_doubleWord]

/-- **The quotient of machine integers never leaves words of twice the size.** -/
theorem toInt_doubleWordFloorDivide {b : Int64} (a : Int64) (hb : b ≠ 0) :
    (doubleWordFloorDivide (doubleWord a) (doubleWord b)).toInt = intFloorDivideWide a b := by
  have hb0 := toInt_ne_zero hb
  unfold doubleWordFloorDivide intFloorDivideWide
  simp only [BitVec.toInt_srem, toInt_doubleWord]
  split
  · rename_i hs
    have hle := Int.natAbs_tdiv_le_natAbs a.toInt b.toInt
    have hlo := a.le_toInt
    have hhi := a.toInt_lt
    rw [fdiv_of_sign_ne hb0 (by omega) (by omega), BitVec.toInt_sub, toInt_doubleWord_sdiv]
    exact Int.bmod_eq_of_le (by simp; omega) (by simp; omega)
  · rename_i hs
    rw [fdiv_of_sign_eq hb0 (by omega), toInt_doubleWord_sdiv]

/-! ## The three quotients -/

/--
**Machine integers are divided exactly.**

Only a zero divisor is refused.  There is no quotient precisely if the floor of the rational one is
no machine integer, and else the quotient is that floor; on the way there no operation leaves the
machine integers.  The quotient without their bound is the one of integers of any size, it does not
need more than words of twice the size, and it is the native one where there is one.
-/
theorem native_division_exact (a b : Int64) :
    ((∃ e, intFloorDivide a b = .error e) ↔ b = 0) ∧
    (intFloorDivide a b = .ok none ↔ b ≠ 0 ∧ ¬FitsWord ⌊(a.toInt : ℚ) / b.toInt⌋) ∧
    (b ≠ 0 → FitsWord ⌊(a.toInt : ℚ) / b.toInt⌋ →
      ∃ q, intFloorDivide a b = .ok (some q) ∧ q.toInt = ⌊(a.toInt : ℚ) / b.toInt⌋) ∧
    trappingFloorDivide a b = some (intFloorDivide a b) ∧
    (b ≠ 0 →
      longFloorDivide a.toInt b.toInt = .ok (intFloorDivideWide a b) ∧
      intFloorDivideWide a b = ⌊(a.toInt : ℚ) / b.toInt⌋ ∧
      (doubleWordFloorDivide (doubleWord a) (doubleWord b)).toInt = intFloorDivideWide a b ∧
      ∀ q, intFloorDivide a b = .ok (some q) → q.toInt = intFloorDivideWide a b) := by
  rw [← fdiv_eq_floor]
  refine ⟨?_, ?_, ?_, trappingFloorDivide_eq a b, ?_⟩
  · constructor
    · rintro ⟨e, h⟩
      by_contra hb
      exact intFloorDivide_ne_error hb h
    · rintro rfl
      exact ⟨_, rfl⟩
  · rcases intFloorDivide_cases a b with ⟨hb, h⟩ | ⟨hb, ⟨q, h, hq⟩ | ⟨h, hfit⟩⟩
    · have hb0 : b = 0 := Int64.toInt_inj.mp (hb.trans Int64.toInt_zero.symm)
      subst hb0
      simp [h]
    · simp [h, ← hq, fitsWord_toInt]
    · have hb0 : b ≠ 0 := fun h0 => hb (h0 ▸ Int64.toInt_zero)
      simp [h, hb0, hfit]
  · intro hb hfit
    rcases intFloorDivide_cases a b with ⟨h0, -⟩ | ⟨-, h | ⟨-, hout⟩⟩
    · exact absurd h0 (toInt_ne_zero hb)
    · exact h
    · exact absurd hfit hout
  · intro hb
    refine ⟨if_neg (toInt_ne_zero hb), rfl, toInt_doubleWordFloorDivide a hb, ?_⟩
    intro q h
    exact toInt_of_intFloorDivide h

/-- The least machine integer has a quotient by one, none by minus one. -/
theorem native_division_exact_least :
    (∃ q, intFloorDivide Int64.minValue 1 = .ok (some q) ∧ q.toInt = Int64.minValue.toInt) ∧
      intFloorDivide Int64.minValue (-1) = .ok none := by
  obtain ⟨-, -, hone, -⟩ := native_division_exact Int64.minValue 1
  obtain ⟨-, hnone, -⟩ := native_division_exact Int64.minValue (-1)
  have hfloor : ⌊(Int64.minValue.toInt : ℚ) / (1 : Int64).toInt⌋ = Int64.minValue.toInt := by
    rw [← fdiv_eq_floor]
    decide
  refine ⟨?_, hnone.mpr ⟨by decide, ?_⟩⟩
  · rw [hfloor] at hone
    exact hone (by decide) (by decide)
  · rw [← fdiv_eq_floor]
    decide

end FloorDivision
