import Vwarp.Lib.BigEndian

/-!
# Byte strings read as strings of bits

Network addresses and their prefixes are written most significant bit first: bit `0`
of a byte string is the top bit of its first byte. `bit b i` is bit `i` of `b`, and
`prefixBits b c` its first `c` bits, the key of the prefix of length `c`.

Code compares two such strings through words: the leading zeros of the xor of their
big-endian values count the bits they share. `le_leadingZeros_xor_iff` says this for
any two words and `testBit_ofBytes` puts the bits of a big-endian value in this order;
together (`le_leadingZeros_ofBytes_iff`) a comparison of words is one of prefixes.
-/

namespace BitString

open BigEndian

/-- Bit `i` of `b`, counted from the top bit of the first byte; `false` past the end. -/
def bit (b : List UInt8) (i : Nat) : Bool :=
  (b.getD (i / 8) 0).toNat.testBit (7 - i % 8)

/-- The first `c` bits of `b`. -/
def prefixBits (b : List UInt8) (c : Nat) : List Bool :=
  (List.range c).map (bit b)

/-- Go's `bits.LeadingZeros32` and `bits.LeadingZeros64` at `w = 32` and `w = 64`:
the zeros above the top set bit of a `w`-bit word. -/
def leadingZeros (w x : Nat) : Nat := w - x.size

section Bits

variable {b b' : List UInt8} {c d i : Nat}

@[simp] theorem length_prefixBits : (prefixBits b c).length = c := by
  simp [prefixBits]

@[simp] theorem getElem_prefixBits (h : i < (prefixBits b c).length) :
    (prefixBits b c)[i] = bit b i := by
  simp [prefixBits]

theorem prefixBits_succ : prefixBits b (c + 1) = prefixBits b c ++ [bit b c] := by
  simp [prefixBits, List.range_succ]

theorem take_prefixBits (h : c ≤ d) : (prefixBits b d).take c = prefixBits b c := by
  rw [prefixBits, ← List.map_take, List.take_range, Nat.min_eq_left h, prefixBits]

theorem prefixBits_prefix (h : c ≤ d) : prefixBits b c <+: prefixBits b d := by
  rw [← take_prefixBits h]
  exact List.take_prefix _ _

/-- A list of bits is a prefix of `b`'s first `d` bits when it is the first bits of `b`
of its own length. -/
theorem prefix_prefixBits_iff {q : List Bool} :
    q <+: prefixBits b d ↔ q.length ≤ d ∧ q = prefixBits b q.length := by
  constructor
  · intro h
    have hle : q.length ≤ d := by simpa using h.length_le
    exact ⟨hle, (List.prefix_iff_eq_take.mp h).trans (take_prefixBits hle)⟩
  · rintro ⟨hle, hq⟩
    rw [hq]
    exact prefixBits_prefix hle

theorem prefixBits_eq_iff : prefixBits b c = prefixBits b' c ↔ ∀ i < c, bit b i = bit b' i := by
  constructor
  · intro h i hi
    have := congrArg (fun l => l[i]?) h
    simpa [prefixBits, hi] using this
  · intro h
    apply List.map_congr_left
    intro i hi
    exact h i (List.mem_range.mp hi)

theorem prefixBits_congr (h : c ≤ d) (hbd : prefixBits b d = prefixBits b' d) :
    prefixBits b c = prefixBits b' c := by
  rw [← take_prefixBits h, hbd, take_prefixBits h]

theorem bit_cons (x : UInt8) :
    bit (x :: b) i = if i < 8 then x.toNat.testBit (7 - i) else bit b (i - 8) := by
  unfold bit
  split
  · rename_i hi
    rw [Nat.div_eq_of_lt hi, Nat.mod_eq_of_lt hi, List.getD_cons_zero]
  · rename_i hi
    obtain ⟨k, rfl⟩ : ∃ k, i = k + 8 := ⟨i - 8, by omega⟩
    rw [Nat.add_div_right _ (by decide), List.getD_cons_succ, Nat.add_mod_right, Nat.add_sub_cancel]

theorem bit_take {n : Nat} (hi : i < 8 * n) : bit (b.take n) i = bit b i := by
  have : i / 8 < n := by omega
  simp [bit, List.getD_eq_getElem?_getD, this]

theorem bit_drop (n : Nat) : bit (b.drop n) i = bit b (8 * n + i) := by
  have hdiv : (8 * n + i) / 8 = n + i / 8 := by omega
  have hmod : (8 * n + i) % 8 = i % 8 := by omega
  simp [bit, List.getD_eq_getElem?_getD, List.getElem?_drop, hdiv, hmod]

end Bits

/-! ## Big-endian values -/

/-- The bits of a big-endian value, from the top: bit `i` of the string is bit
`8 * length - 1 - i` of the number. -/
theorem testBit_ofBytes {b : List UInt8} {i : Nat} (hi : i < 8 * b.length) :
    (ofBytes b).testBit (8 * b.length - 1 - i) = bit b i := by
  induction b generalizing i with
  | nil => simp at hi
  | cons x b ih =>
    have hlow : ofBytes b < 2 ^ (8 * b.length) := by
      simpa [pow_mul] using ofBytes_lt b
    have hval : ofBytes (x :: b) = 2 ^ (8 * b.length) * x.toNat + ofBytes b := by
      rw [ofBytes_cons, pow_mul]
      norm_num
      ring
    rw [hval, Nat.testBit_two_pow_mul_add _ hlow, bit_cons]
    simp only [List.length_cons] at hi ⊢
    by_cases h8 : i < 8
    · rw [if_neg (by omega), if_pos h8]
      congr 1
      omega
    · rw [if_pos (by omega), if_neg h8, ← ih (by omega)]
      congr 1
      omega

/-- Two `w`-bit words share their top `c` bits exactly when `c` is at most the
leading zeros of their xor. -/
theorem le_leadingZeros_xor_iff {w x y c : Nat} (hx : x < 2 ^ w) (hy : y < 2 ^ w) (hc : c ≤ w) :
    c ≤ leadingZeros w (x ^^^ y) ↔ ∀ i < c, x.testBit (w - 1 - i) = y.testBit (w - 1 - i) := by
  have hsize : (x ^^^ y).size ≤ w := Nat.size_le.mpr (Nat.xor_lt_two_pow hx hy)
  have hlz : c ≤ leadingZeros w (x ^^^ y) ↔ x ^^^ y < 2 ^ (w - c) := by
    rw [leadingZeros, ← Nat.size_le]
    omega
  rw [hlz]
  constructor
  · intro hlt i hi
    have hbit := Nat.testBit_lt_two_pow (lt_of_lt_of_le hlt
      (Nat.pow_le_pow_right (by decide) (show w - c ≤ w - 1 - i by omega)))
    rw [Nat.testBit_xor] at hbit
    simpa using hbit
  · intro hagree
    apply Nat.lt_pow_two_of_testBit
    intro j hj
    rw [Nat.testBit_xor]
    by_cases hjw : j < w
    · have := hagree (w - 1 - j) (by omega)
      rw [show w - 1 - (w - 1 - j) = j by omega] at this
      simp [this]
    · rw [Nat.testBit_lt_two_pow (lt_of_lt_of_le hx (Nat.pow_le_pow_right (by decide) (by omega))),
        Nat.testBit_lt_two_pow (lt_of_lt_of_le hy (Nat.pow_le_pow_right (by decide) (by omega)))]
      rfl

/-- Two byte strings of one length share their first `c` bits exactly when `c` is at
most the leading zeros of the xor of their big-endian values. -/
theorem le_leadingZeros_ofBytes_iff {u v : List UInt8} {c : Nat} (hlen : u.length = v.length)
    (hc : c ≤ 8 * u.length) :
    c ≤ leadingZeros (8 * u.length) (ofBytes u ^^^ ofBytes v) ↔ prefixBits u c = prefixBits v c := by
  have hu : ofBytes u < 2 ^ (8 * u.length) := by simpa [pow_mul] using ofBytes_lt u
  have hv : ofBytes v < 2 ^ (8 * u.length) := by simpa [pow_mul, hlen] using ofBytes_lt v
  rw [le_leadingZeros_xor_iff hu hv hc, prefixBits_eq_iff]
  refine forall₂_congr fun i hi => ?_
  rw [testBit_ofBytes (by omega), hlen, testBit_ofBytes (by omega)]

theorem leadingZeros_le (w x : Nat) : leadingZeros w x ≤ w := Nat.sub_le _ _

/-- A nonzero word has fewer than `w` leading zeros. -/
theorem leadingZeros_lt {w x : Nat} (hw : 0 < w) (hx : x ≠ 0) : leadingZeros w x < w := by
  have := Nat.size_pos.mpr (Nat.pos_of_ne_zero hx)
  unfold leadingZeros
  omega

@[simp] theorem leadingZeros_zero (w : Nat) : leadingZeros w 0 = w := by
  simp [leadingZeros]

end BitString
