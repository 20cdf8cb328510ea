import Mathlib

/-!
# A 64-bit word as a set of bits

Bit `j` of a word is set with `w ||| 1 <<< j` and read with `testBit`. Setting it
adds `j` to the set and nothing else (`testBit_or_one_shiftLeft`), and the word
changes exactly when the bit was clear (`bne_or_one_shiftLeft`).
-/

namespace Bitmap

/-- `1 <<< j` for a shift below the width. -/
theorem toNat_one_shiftLeft {j : UInt64} (hj : j.toNat < 64) :
    ((1 : UInt64) <<< j).toNat = 2 ^ j.toNat := by
  rw [UInt64.toNat_shiftLeft, Nat.mod_eq_of_lt hj, UInt64.toNat_one, Nat.one_shiftLeft]
  exact Nat.mod_eq_of_lt (Nat.pow_lt_pow_right (by decide) hj)

theorem testBit_or_one_shiftLeft (w : UInt64) {j : UInt64} (hj : j.toNat < 64) (n : Nat) :
    (w ||| 1 <<< j).toNat.testBit n = (w.toNat.testBit n || decide (j.toNat = n)) := by
  rw [UInt64.toNat_or, Nat.testBit_or, toNat_one_shiftLeft hj, Nat.testBit_two_pow]

/-- Setting a bit changes the word exactly when the bit was clear. -/
theorem bne_or_one_shiftLeft (w : UInt64) {j : UInt64} (hj : j.toNat < 64) :
    (w != (w ||| 1 <<< j)) = !w.toNat.testBit j.toNat := by
  cases hbit : w.toNat.testBit j.toNat
  · have hne : w ≠ w ||| 1 <<< j := by
      intro heq
      have hset : (w ||| 1 <<< j).toNat.testBit j.toNat = true := by
        rw [testBit_or_one_shiftLeft w hj]
        simp
      rw [← heq, hbit] at hset
      cases hset
    simpa using hne
  · have heq : w ||| 1 <<< j = w := by
      apply UInt64.toNat_inj.mp
      apply Nat.eq_of_testBit_eq
      intro n
      rw [testBit_or_one_shiftLeft w hj]
      by_cases hn : j.toNat = n
      · subst hn
        simp [hbit]
      · simp [hn]
    simp [heq]

end Bitmap
