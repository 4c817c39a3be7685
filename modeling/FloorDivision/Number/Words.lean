/-!
# Numbers as words of a fixed size

* `words` — the words of a natural number, the least significant first, no word for zero.
* `ofWords` — the number that words stand for, also when some of them exceed their size.
* `ofWords_words` — the words of a number stand for it.
-/

namespace FloorDivision

/-- The words of `size` bits of a number, at most `fuel` of them. -/
def wordsLoop (size : Nat) : Nat → Nat → List Nat
  | 0, _ => []
  | fuel + 1, n => if n = 0 then [] else n % (1 <<< size) :: wordsLoop size fuel (n >>> size)

/-- The words of `size` bits of a number, the least significant first. -/
def words (size n : Nat) : List Nat := wordsLoop size n.log2.succ n

/-- The number that words of `size` bits stand for. -/
def ofWords (size : Nat) (all : List Nat) : Nat := all.foldr (fun w n => w + n <<< size) 0

theorem ofWords_cons (size w : Nat) (all : List Nat) :
    ofWords size (w :: all) = w + ofWords size all <<< size := rfl

theorem mod_add_shiftRight (size n : Nat) : n % (1 <<< size) + n >>> size <<< size = n := by
  rw [Nat.one_shiftLeft, Nat.shiftLeft_eq, Nat.shiftRight_eq_div_pow, Nat.mul_comm]
  exact Nat.mod_add_div n _

theorem shiftRight_lt_half {size n fuel : Nat} (hs : 0 < size) (hn : n < 1 <<< (fuel + 1)) :
    n >>> size < 1 <<< fuel := by
  rw [Nat.shiftRight_eq_div_pow]
  refine Nat.div_lt_of_lt_mul (Nat.lt_of_lt_of_le hn ?_)
  rw [Nat.one_shiftLeft, Nat.one_shiftLeft, ← Nat.pow_add]
  exact Nat.pow_le_pow_right (by omega) (by omega)

theorem ofWords_wordsLoop {size : Nat} (hs : 0 < size) (fuel n : Nat) (hn : n < 1 <<< fuel) :
    ofWords size (wordsLoop size fuel n) = n := by
  induction fuel generalizing n with
  | zero =>
    have h0 : n = 0 := by simpa using hn
    subst h0
    rfl
  | succ fuel ih =>
    unfold wordsLoop
    split
    next h0 => exact h0.symm
    next =>
      rw [ofWords_cons, ih _ (shiftRight_lt_half hs hn)]
      exact mod_add_shiftRight size n

/-- The words of a number stand for it. -/
theorem ofWords_words {size : Nat} (hs : 0 < size) (n : Nat) : ofWords size (words size n) = n :=
  ofWords_wordsLoop hs _ n (by rw [Nat.one_shiftLeft]; exact Nat.lt_log2_self)

end FloorDivision
