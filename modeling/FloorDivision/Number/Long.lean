import FloorDivision.Number.Double
import FloorDivision.Number.Words

/-!
# Doubles from long integers

A long is a magnitude in words of 64 bits.  For a double its leading 64 bits are taken, the last
of which is also set when a bit is found below them.  With `k` bits in the top word, only the
lowest `k` bits of each word are looked at: below the leading bits of two words there are no
others, so the double of such a long is the nearest one, but a longer long may have bits that go
unseen.

* `leadingBits` — the 64 bits that stand for a magnitude.
* `Double.ofLong?` — the nearest double to them in their place, if one is finite.
* `leadingBits_of_lt` — a magnitude of one word stands for itself.
-/

namespace FloorDivision

/-- The bits in the machine words that make up a long. -/
def longWordSize : Nat := 64

/-- How many bits a magnitude has below its leading ones. -/
def cutBits (n : Nat) : Nat := n.log2 + 1 - longWordSize

/-- How many bits of a magnitude are in its top word. -/
def topBits (n : Nat) : Nat := n.log2 % longWordSize + 1

/-- Whether a word below the leading bits has a bit among its lowest, as many as in the top word. -/
def hasLowBits (n : Nat) : Bool :=
  (words longWordSize (n % (1 <<< cutBits n))).any fun w => w % (1 <<< topBits n) != 0

/-- The leading bits, one word of them, the last one set if there are low bits below. -/
def leadingBits (n : Nat) : Nat := n >>> cutBits n ||| (hasLowBits n).toNat

theorem leadingBits_of_lt {n : Nat} (h : n < 1 <<< longWordSize) : leadingBits n = n := by
  have hcut : cutBits n = 0 := by
    have hlog : n.log2 < 64 := by
      by_cases h0 : n = 0
      · subst h0
        decide
      · exact (Nat.log2_lt h0).2 (by rwa [Nat.one_shiftLeft] at h)
    unfold cutBits longWordSize
    omega
  have hlow : hasLowBits n = false := by
    unfold hasLowBits
    rw [hcut, Nat.shiftLeft_zero, Nat.mod_one]
    rfl
  unfold leadingBits
  rw [hcut, hlow]
  simp

/-- The double that a long is taken for, infinite past the range. -/
def Double.ofLong (n : Int) : Double :=
  round (n < 0) ((leadingBits n.natAbs <<< cutBits n.natAbs) * unit) 1

/-- The double that a long is taken for, if it is finite. -/
def Double.ofLong? (n : Int) : Option Double :=
  if (ofLong n).isFinite then some (ofLong n) else none

end FloorDivision
