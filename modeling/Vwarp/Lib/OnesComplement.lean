import Mathlib

/-!
# Ones'-complement arithmetic

Ones'-complement addition of `w`-bit words adds the carry out of the top bit
back at the bottom. Its value is pinned down by a residue: a sum is `0` only
for words that are all zero, and otherwise the representative of the plain sum
modulo `2 ^ w - 1` in `[1, 2 ^ w - 1]` (`reduce`). So a sum can be taken in
any order, with the carries folded in at once or at the end, and a complement
added to what it complements gives the all-ones word.
-/

namespace OnesComplement

variable (w : Nat)

/-- Ones'-complement addition of two `w`-bit words. -/
def add (a b : Nat) : Nat := if a + b < 2 ^ w then a + b else a + b - 2 ^ w + 1

/-- The ones'-complement sum of a list of `w`-bit words. -/
def sum (xs : List Nat) : Nat := xs.foldl (add w) 0

/-- What the end-around carry leaves of a plain sum `s`. -/
def reduce (s : Nat) : Nat := if s = 0 then 0 else (s - 1) % (2 ^ w - 1) + 1

section Reduce

variable {w}

theorem reduce_pos_iff {s : Nat} : 0 < reduce w s ↔ 0 < s := by
  unfold reduce
  split <;> omega

theorem reduce_modEq (s : Nat) : reduce w s ≡ s [MOD 2 ^ w - 1] := by
  unfold reduce
  split
  · next hs => rw [hs]
  · next hs =>
    have hmod : (s - 1) % (2 ^ w - 1) ≡ s - 1 [MOD 2 ^ w - 1] := Nat.mod_modEq _ _
    have hadd := hmod.add_right 1
    rwa [Nat.sub_add_cancel (Nat.pos_of_ne_zero hs)] at hadd

/-- Two sums with the same residue, both zero or both not, reduce alike. -/
theorem reduce_congr {s t : Nat} (hpos : 0 < s ↔ 0 < t) (h : s ≡ t [MOD 2 ^ w - 1]) :
    reduce w s = reduce w t := by
  unfold reduce
  by_cases hs : s = 0
  · have ht : t = 0 := by omega
    rw [if_pos hs, if_pos ht]
  have ht : t ≠ 0 := by omega
  rw [if_neg hs, if_neg ht]
  have hs1 : s - 1 + 1 = s := Nat.sub_add_cancel (Nat.pos_of_ne_zero hs)
  have ht1 : t - 1 + 1 = t := Nat.sub_add_cancel (Nat.pos_of_ne_zero ht)
  have hpred : s - 1 ≡ t - 1 [MOD 2 ^ w - 1] := by
    apply Nat.ModEq.add_right_cancel' 1
    rwa [hs1, ht1]
  rw [hpred]

theorem reduce_of_lt {s : Nat} (h : s < 2 ^ w) : reduce w s = s := by
  unfold reduce
  split
  · next hs => exact hs.symm
  · next hs =>
    have hlt : s - 1 < 2 ^ w - 1 := by omega
    rw [Nat.mod_eq_of_lt hlt]
    omega

theorem reduce_lt (hw : 0 < w) (s : Nat) : reduce w s < 2 ^ w := by
  have hpow : 1 < 2 ^ w := Nat.one_lt_two_pow (by omega)
  unfold reduce
  split
  · omega
  · have hmod : (s - 1) % (2 ^ w - 1) < 2 ^ w - 1 := Nat.mod_lt _ (by omega)
    omega

@[simp] theorem reduce_reduce (s : Nat) : reduce w (reduce w s) = reduce w s :=
  reduce_congr reduce_pos_iff (reduce_modEq s)

/-- The carries of a partial sum can be folded in before the rest is added. -/
theorem reduce_reduce_add (a b : Nat) : reduce w (reduce w a + b) = reduce w (a + b) := by
  apply reduce_congr
  · have := (reduce_pos_iff (w := w) (s := a))
    omega
  · exact (reduce_modEq a).add_right b

/-- One round of the end-around fold: the bits above `w` added to the low ones. -/
theorem reduce_fold (s : Nat) : reduce w (s % 2 ^ w + s / 2 ^ w) = reduce w s := by
  apply reduce_congr
  · constructor
    · intro h
      rcases Nat.eq_zero_or_pos s with hs | hs
      · simp [hs] at h
      · exact hs
    · intro hs
      by_cases hlt : s < 2 ^ w
      · rw [Nat.mod_eq_of_lt hlt]
        exact Nat.lt_of_lt_of_le hs (Nat.le_add_right _ _)
      · have hq : 0 < s / 2 ^ w := Nat.div_pos (Nat.le_of_not_lt hlt) (Nat.two_pow_pos w)
        exact Nat.lt_of_lt_of_le hq (Nat.le_add_left _ _)
  · have hone : 2 ^ w ≡ 1 [MOD 2 ^ w - 1] := by
      rcases Nat.eq_zero_or_pos (2 ^ w - 1) with h0 | hpos
      · rw [h0]
        have : 2 ^ w = 1 := by have := Nat.two_pow_pos w; omega
        rw [this]
      · exact (Nat.modEq_iff_dvd' (Nat.one_le_two_pow)).mpr (dvd_refl _) |>.symm
    calc s % 2 ^ w + s / 2 ^ w
        ≡ s % 2 ^ w + 2 ^ w * (s / 2 ^ w) [MOD 2 ^ w - 1] := by
          apply Nat.ModEq.add_left
          simpa using (hone.mul_right (s / 2 ^ w)).symm
      _ = s := by rw [Nat.add_comm, Nat.div_add_mod]

end Reduce

section Sum

variable {w}

/-- The end-around-carry addition of two words is the reduction of their sum: one
carry brings the sum minus `2 ^ w - 1` below `2 ^ w`. -/
theorem add_eq_reduce {a b : Nat} (ha : a < 2 ^ w) (hb : b < 2 ^ w) :
    add w a b = reduce w (a + b) := by
  unfold add
  split
  · next h => exact (reduce_of_lt h).symm
  · next h =>
    have hstep : reduce w (a + b) = reduce w (a + b - 2 ^ w + 1) := by
      rw [← reduce_fold (a + b)]
      have hmod : (a + b) % 2 ^ w = a + b - 2 ^ w := by
        rw [Nat.mod_eq_sub_mod (by omega), Nat.mod_eq_of_lt (by omega)]
      have hdiv : (a + b) / 2 ^ w = 1 := by
        apply Nat.div_eq_of_lt_le <;> omega
      rw [hmod, hdiv]
    rw [hstep, reduce_of_lt (by omega)]

theorem foldl_add_eq_reduce (hw : 0 < w) (acc : Nat) (hacc : acc < 2 ^ w) (xs : List Nat)
    (h : ∀ x ∈ xs, x < 2 ^ w) : xs.foldl (add w) acc = reduce w (acc + xs.sum) := by
  induction xs generalizing acc with
  | nil => simp [reduce_of_lt hacc]
  | cons x xs ih =>
    have hx : x < 2 ^ w := h x List.mem_cons_self
    have hrest : ∀ y ∈ xs, y < 2 ^ w := fun y hy => h y (List.mem_cons_of_mem x hy)
    rw [List.foldl_cons, add_eq_reduce hacc hx,
      ih _ (reduce_lt hw _) hrest, reduce_reduce_add, List.sum_cons, Nat.add_assoc]

/-- The ones'-complement sum of words is the reduced plain sum. -/
theorem sum_eq_reduce (hw : 0 < w) (xs : List Nat) (h : ∀ x ∈ xs, x < 2 ^ w) :
    sum w xs = reduce w xs.sum := by
  rw [sum, foldl_add_eq_reduce hw 0 (Nat.two_pow_pos w) xs h, Nat.zero_add]

/-- Adding the complement of a sum's reduction gives the all-ones word. -/
theorem reduce_add_complement (hw : 0 < w) (s : Nat) :
    reduce w (s + (2 ^ w - 1 - reduce w s)) = 2 ^ w - 1 := by
  have hlt := reduce_lt hw s
  calc reduce w (s + (2 ^ w - 1 - reduce w s))
      = reduce w (reduce w s + (2 ^ w - 1 - reduce w s)) := (reduce_reduce_add _ _).symm
    _ = reduce w (2 ^ w - 1) := by rw [Nat.add_sub_cancel' (by omega)]
    _ = 2 ^ w - 1 := reduce_of_lt (by omega)

end Sum

end OnesComplement
