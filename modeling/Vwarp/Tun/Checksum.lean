import Mathlib
import Vwarp.Lib.BigEndian
import Vwarp.Lib.OnesComplement
import Vwarp.Ping.Checksum

/-!
# The checksum of the TUN offload path

`checksumNoFold` adds the bytes of a packet into a `uint64` as big-endian 32-bit
words, 32 of them a round while at least 128 bytes are left, then in blocks of
16, 8, 4, 2 and 1 words, a 16-bit word and a last byte; `checksum` folds the
carries back in four times and keeps the low 16 bits. Whatever the stages,
the accumulator keeps the residue of the plain sum of the 16-bit words modulo
`0xffff` (`Partial`), and four folds bring any `uint64` down to its end-around
reduction, so `checksum` is the ones'-complement sum of RFC 1071 with the
initial value added in (`checksum_eq_reduce`), as long as the `uint64` does
not wrap. From `0` it does not wrap below `2 ^ 34` bytes, and there `~checksum`
is the Internet checksum the ICMP pinger computes its own way
(`checksum_complement_eq_internetChecksum`).
-/

namespace Tun

open BigEndian OnesComplement

/-- `uint64(binary.BigEndian.Uint32(b))`. -/
def load32 (b : List UInt8) : UInt64 := UInt64.ofNat (ofBytes (b.take 4))

/-- `uint64(binary.BigEndian.Uint16(b))`. -/
def load16 (b : List UInt8) : UInt64 := UInt64.ofNat (ofBytes (b.take 2))

/-- `n` of the unrolled lines `ac += uint64(binary.BigEndian.Uint32(b[4*i:4*i+4]))`. -/
def addWords (ac : UInt64) (b : List UInt8) : Nat → UInt64
  | 0 => ac
  | n + 1 => addWords (ac + load32 b) (b.drop 4) n

/-- The `for len(b) >= 128` loop, 32 words a round; `fuel` bounds the rounds. -/
def loop128 : Nat → UInt64 × List UInt8 → UInt64 × List UInt8
  | 0, p => p
  | fuel + 1, p =>
    if 128 ≤ p.2.length then loop128 fuel (addWords p.1 p.2 32, p.2.drop 128) else p

/-- A block after the loop: `if len(b) >= 4 * n`, `n` words, then `b = b[4*n:]`. -/
def words32 (n : Nat) (p : UInt64 × List UInt8) : UInt64 × List UInt8 :=
  if 4 * n ≤ p.2.length then (addWords p.1 p.2 n, p.2.drop (4 * n)) else p

/-- `if len(b) >= 2 { ac += uint64(binary.BigEndian.Uint16(b)); b = b[2:] }`. -/
def word16 (p : UInt64 × List UInt8) : UInt64 × List UInt8 :=
  if 2 ≤ p.2.length then (p.1 + load16 p.2, p.2.drop 2) else p

/-- `if len(b) == 1 { ac += uint64(b[0]) << 8 }`. -/
def lastByte (p : UInt64 × List UInt8) : UInt64 :=
  match p.2 with
  | [x] => p.1 + (x.toUInt64 <<< 8)
  | _ => p.1

/-- `checksumNoFold`: the loop runs at most `len(b)` rounds. -/
def checksumNoFold (b : List UInt8) (initial : UInt64) : UInt64 :=
  lastByte (word16 (words32 1 (words32 2 (words32 4 (words32 8 (words32 16
    (loop128 b.length (initial, b))))))))

/-- One line `ac = (ac >> 16) + (ac & 0xffff)` of `checksum`. -/
def fold (ac : UInt64) : UInt64 := (ac >>> 16) + (ac &&& 0xffff)

/-- `checksum`. -/
def checksum (b : List UInt8) (initial : UInt64) : UInt16 :=
  (fold (fold (fold (fold (checksumNoFold b initial))))).toUInt16

/-- `pseudoHeaderChecksumNoFold`: the addresses, the protocol as the word
`[0, protocol]` and the length written with `PutUint16`. -/
def pseudoHeaderChecksumNoFold (protocol : UInt8) (srcAddr dstAddr : List UInt8)
    (totalLen : UInt16) : UInt64 :=
  let sum := checksumNoFold srcAddr 0
  let sum := checksumNoFold dstAddr sum
  let sum := checksumNoFold [0, protocol] sum
  checksumNoFold (toBytes 2 totalLen.toNat) sum

/-! ## What the accumulator holds -/

/-- Cutting a byte string after an even number of bytes cuts its words. -/
theorem words_append {pre : List UInt8} (hpre : Even pre.length) (c : List UInt8) :
    Ping.words (pre ++ c) = Ping.words pre ++ Ping.words c := by
  induction pre using Ping.words.induct with
  | case1 a b rest ih =>
    have hrest : Even rest.length := by
      simpa [Nat.even_add_one, parity_simps] using hpre
    simp only [List.cons_append, Ping.words, ih hrest]
  | case2 a => simp at hpre
  | case3 => rfl

/-- After the bytes `pre` were added to `initial`, `ac` has the residue of their
word sum modulo `0xffff`, is zero only with it, and grew by `2 ^ 30` a byte at
most. -/
structure Partial (initial : Nat) (pre : List UInt8) (ac : UInt64) : Prop where
  residue : ac.toNat ≡ initial + (Ping.words pre).sum [MOD 2 ^ 16 - 1]
  pos_iff : 0 < ac.toNat ↔ 0 < initial + (Ping.words pre).sum
  bound : ac.toNat ≤ initial + pre.length * 2 ^ 30

/-- A value `v` that may stand for the bytes `c` in the sum. -/
structure Chunk (c : List UInt8) (v : Nat) : Prop where
  residue : v ≡ (Ping.words c).sum [MOD 2 ^ 16 - 1]
  pos_iff : 0 < v ↔ 0 < (Ping.words c).sum
  bound : v ≤ c.length * 2 ^ 30

theorem partial_nil (initial : UInt64) : Partial initial.toNat [] initial where
  residue := by simp [Ping.words, Nat.ModEq]
  pos_iff := by simp [Ping.words]
  bound := by simp

/-- Adding a chunk after an even prefix, while the sum fits in 64 bits. -/
theorem Partial.add {initial : Nat} {pre c : List UInt8} {ac v : UInt64}
    (h : Partial initial pre ac) (hpre : Even pre.length) (hc : Chunk c v.toNat)
    (hfit : initial + (pre.length + c.length) * 2 ^ 30 < 2 ^ 64) :
    Partial initial (pre ++ c) (ac + v) := by
  have hac := h.bound
  have hv := hc.bound
  have hsum : (ac + v).toNat = ac.toNat + v.toNat := by
    rw [UInt64.toNat_add]
    apply Nat.mod_eq_of_lt
    rw [Nat.add_mul] at hfit
    omega
  have hwords : (Ping.words (pre ++ c)).sum = (Ping.words pre).sum + (Ping.words c).sum := by
    rw [words_append hpre, List.sum_append]
  refine ⟨?_, ?_, ?_⟩
  · rw [hsum, hwords, ← Nat.add_assoc]
    exact h.residue.add hc.residue
  · rw [hsum, hwords]
    have := h.pos_iff
    have := hc.pos_iff
    omega
  · rw [hsum, List.length_append]
    rw [Nat.add_mul]
    omega

/-- Sums taken one after the other: what `pre` left is the initial value of `c`. -/
theorem Partial.trans {initial : Nat} {pre c : List UInt8} {ac ac' : UInt64}
    (h : Partial initial pre ac) (hpre : Even pre.length) (h' : Partial ac.toNat c ac') :
    Partial initial (pre ++ c) ac' := by
  have hwords : (Ping.words (pre ++ c)).sum = (Ping.words pre).sum + (Ping.words c).sum := by
    rw [words_append hpre, List.sum_append]
  refine ⟨?_, ?_, ?_⟩
  · rw [hwords, ← Nat.add_assoc]
    exact h'.residue.trans (h.residue.add_right _)
  · rw [hwords]
    have := h.pos_iff
    have := h'.pos_iff
    omega
  · have := h.bound
    have := h'.bound
    rw [List.length_append, Nat.add_mul]
    omega

/-- A 32-bit load counts as its two 16-bit words: the high word counts `2 ^ 16`
times, which is once modulo `0xffff`. -/
theorem chunk_load32 {b : List UInt8} (hb : 4 ≤ b.length) :
    Chunk (b.take 4) (load32 b).toNat := by
  match b, hb with
  | x0 :: x1 :: x2 :: x3 :: rest, _ =>
    have h0 := x0.toNat_lt
    have h1 := x1.toNat_lt
    have h2 := x2.toNat_lt
    have h3 := x3.toNat_lt
    have hval : (load32 (x0 :: x1 :: x2 :: x3 :: rest)).toNat =
        x0.toNat * 256 ^ 3 + x1.toNat * 256 ^ 2 + x2.toNat * 256 + x3.toNat := by
      simp only [load32, List.take_succ_cons, List.take_zero, ofBytes_cons, List.length_cons,
        List.length_nil, ofBytes_nil, UInt64.toNat_ofNat']
      omega
    refine ⟨?_, ?_, ?_⟩ <;>
      simp only [hval, List.take_succ_cons, List.take_zero, Ping.words, List.sum_cons,
        List.sum_nil, List.length_cons, List.length_nil, Nat.ModEq] <;>
      omega

theorem chunk_load16 {b : List UInt8} (hb : 2 ≤ b.length) :
    Chunk (b.take 2) (load16 b).toNat := by
  match b, hb with
  | x0 :: x1 :: rest, _ =>
    have h0 := x0.toNat_lt
    have h1 := x1.toNat_lt
    have hval : (load16 (x0 :: x1 :: rest)).toNat = x0.toNat * 256 + x1.toNat := by
      simp only [load16, List.take_succ_cons, List.take_zero, ofBytes_cons, List.length_cons,
        List.length_nil, ofBytes_nil, UInt64.toNat_ofNat']
      omega
    refine ⟨?_, ?_, ?_⟩ <;>
      simp only [hval, List.take_succ_cons, List.take_zero, Ping.words, List.sum_cons,
        List.sum_nil, List.length_cons, List.length_nil, Nat.ModEq] <;>
      omega

theorem chunk_lastByte (x : UInt8) : Chunk [x] (x.toUInt64 <<< 8).toNat := by
  have hx := x.toNat_lt
  have hval : (x.toUInt64 <<< 8).toNat = x.toNat * 256 := by
    rw [UInt64.toNat_shiftLeft, UInt8.toNat_toUInt64, Nat.shiftLeft_eq]
    simp only [UInt64.reduceToNat, Nat.reduceMod]
    omega
  refine ⟨?_, ?_, ?_⟩ <;>
    simp only [hval, Ping.words, List.sum_cons, List.sum_nil, List.length_cons,
      List.length_nil, Nat.ModEq] <;>
    omega

/-! ## The stages of `checksumNoFold` -/

section Stages

variable {initial : Nat} {b : List UInt8}

/-- The state `(ac, rest)` of `checksumNoFold` over `b`: the bytes before `rest`
are an even prefix of `b`, and `ac` holds their sum. -/
def Consumed (initial : Nat) (b : List UInt8) (p : UInt64 × List UInt8) : Prop :=
  ∃ pre, pre ++ p.2 = b ∧ Even pre.length ∧ Partial initial pre p.1

/-- One even chunk taken off the front of what is left. -/
theorem Consumed.add (hfit : initial + b.length * 2 ^ 30 < 2 ^ 64) {ac v : UInt64}
    {rest : List UInt8} (h : Consumed initial b (ac, rest)) {k : Nat} (hk : k ≤ rest.length)
    (heven : Even k) (hc : Chunk (rest.take k) v.toNat) :
    Consumed initial b (ac + v, rest.drop k) := by
  obtain ⟨pre, hb, hpre, hpart⟩ := h
  have hlen : pre.length + rest.length = b.length := by
    rw [← hb, List.length_append]
  have htake : (rest.take k).length = k := List.length_take_of_le hk
  refine ⟨pre ++ rest.take k, ?_, ?_, ?_⟩
  · rw [List.append_assoc, List.take_append_drop]
    exact hb
  · rw [List.length_append, htake]
    exact hpre.add heven
  · apply hpart.add hpre hc
    rw [htake]
    calc initial + (pre.length + k) * 2 ^ 30 ≤ initial + b.length * 2 ^ 30 := by
          apply Nat.add_le_add_left
          exact Nat.mul_le_mul_right _ (by omega)
      _ < 2 ^ 64 := hfit

theorem Consumed.addWords (hfit : initial + b.length * 2 ^ 30 < 2 ^ 64) (n : Nat) :
    ∀ {ac : UInt64} {rest : List UInt8}, Consumed initial b (ac, rest) →
      4 * n ≤ rest.length → Consumed initial b (addWords ac rest n, rest.drop (4 * n)) := by
  induction n with
  | zero =>
    intro ac rest h _
    simpa [Tun.addWords] using h
  | succ n ih =>
    intro ac rest h hn
    have h4 : Consumed initial b (ac + load32 rest, rest.drop 4) :=
      h.add hfit (by omega) (by decide) (chunk_load32 (by omega))
    have hrest := ih h4 (by rw [List.length_drop]; omega)
    rw [List.drop_drop, show 4 + 4 * n = 4 * (n + 1) by omega] at hrest
    exact hrest

theorem Consumed.loop128 (hfit : initial + b.length * 2 ^ 30 < 2 ^ 64) (fuel : Nat) :
    ∀ {p : UInt64 × List UInt8}, Consumed initial b p → Consumed initial b (loop128 fuel p) := by
  induction fuel with
  | zero => exact fun h => h
  | succ fuel ih =>
    intro p h
    rw [Tun.loop128]
    split
    · next hlen => exact ih (h.addWords hfit 32 hlen)
    · exact h

/-- With a round of fuel for every byte, the loop leaves fewer than 128 bytes. -/
theorem length_loop128_lt (fuel : Nat) :
    ∀ {p : UInt64 × List UInt8}, p.2.length ≤ fuel → (loop128 fuel p).2.length < 128 := by
  induction fuel with
  | zero => intro p h; simp only [Tun.loop128]; omega
  | succ fuel ih =>
    intro p h
    rw [Tun.loop128]
    split
    · next hlen =>
      apply ih
      rw [List.length_drop]
      omega
    · next hlen => omega

theorem Consumed.words32 (hfit : initial + b.length * 2 ^ 30 < 2 ^ 64) (n : Nat)
    {p : UInt64 × List UInt8} (h : Consumed initial b p) : Consumed initial b (words32 n p) := by
  rw [Tun.words32]
  split
  · next hlen => exact h.addWords hfit n hlen
  · exact h

/-- A block of `n` words leaves fewer than `4 * n` bytes of fewer than `8 * n`. -/
theorem length_words32_lt (n : Nat) {p : UInt64 × List UInt8} (h : p.2.length < 8 * n) :
    (words32 n p).2.length < 4 * n := by
  rw [Tun.words32]
  split
  · rw [List.length_drop]
    omega
  · omega

theorem Consumed.word16 (hfit : initial + b.length * 2 ^ 30 < 2 ^ 64)
    {p : UInt64 × List UInt8} (h : Consumed initial b p) : Consumed initial b (word16 p) := by
  rw [Tun.word16]
  split
  · next hlen => exact h.add hfit hlen (by decide) (chunk_load16 hlen)
  · exact h

theorem length_word16_lt {p : UInt64 × List UInt8} (h : p.2.length < 4) :
    (word16 p).2.length < 2 := by
  rw [Tun.word16]
  split
  · rw [List.length_drop]
    omega
  · omega

/-- With at most one byte left, the last line finishes the sum of all of `b`. -/
theorem Consumed.lastByte (hfit : initial + b.length * 2 ^ 30 < 2 ^ 64)
    {p : UInt64 × List UInt8} (h : Consumed initial b p) (hlen : p.2.length < 2) :
    Partial initial b (lastByte p) := by
  obtain ⟨ac, rest⟩ := p
  obtain ⟨pre, hb, hpre, hpart⟩ := h
  match rest, hb, hlen with
  | [], hb, _ =>
    rw [List.append_nil] at hb
    subst hb
    exact hpart
  | [x], hb, _ =>
    subst hb
    apply hpart.add hpre (chunk_lastByte x)
    simpa using hfit

end Stages

/-- `checksumNoFold` holds the sum of all the words of `b` and `initial`. -/
theorem partial_checksumNoFold {b : List UInt8} {initial : UInt64}
    (hfit : initial.toNat + b.length * 2 ^ 30 < 2 ^ 64) :
    Partial initial.toNat b (checksumNoFold b initial) := by
  have hstart : Consumed initial.toNat b (initial, b) := ⟨[], rfl, Even.zero, partial_nil initial⟩
  have hloop := length_loop128_lt b.length (p := (initial, b)) le_rfl
  apply Consumed.lastByte hfit
  · exact (((((hstart.loop128 hfit _).words32 hfit 16).words32 hfit 8).words32 hfit 4).words32
      hfit 2).words32 hfit 1 |>.word16 hfit
  · apply length_word16_lt
    apply length_words32_lt 1
    apply length_words32_lt 2
    apply length_words32_lt 4
    apply length_words32_lt 8
    apply length_words32_lt 16
    exact hloop

/-! ## Folding -/

theorem toNat_fold (ac : UInt64) : (fold ac).toNat = ac.toNat % 2 ^ 16 + ac.toNat / 2 ^ 16 := by
  have hac := ac.toNat_lt
  have hlow : (ac &&& 0xffff).toNat = ac.toNat % 2 ^ 16 := by
    rw [UInt64.toNat_and]
    exact Nat.and_two_pow_sub_one_eq_mod _ 16
  have hhigh : (ac >>> 16).toNat = ac.toNat / 2 ^ 16 := by
    simp [UInt64.toNat_shiftRight, Nat.shiftRight_eq_div_pow]
  rw [fold, UInt64.toNat_add, hlow, hhigh]
  omega

/-- Four folds bring any `uint64` below `2 ^ 16`, so `checksum` is the end-around
reduction of `checksumNoFold`, whatever it holds. -/
theorem toNat_checksum (b : List UInt8) (initial : UInt64) :
    (checksum b initial).toNat = reduce 16 (checksumNoFold b initial).toNat := by
  set ac := checksumNoFold b initial
  have h0 := ac.toNat_lt
  have h1 := toNat_fold ac
  have h2 := toNat_fold (fold ac)
  have h3 := toNat_fold (fold (fold ac))
  have h4 := toNat_fold (fold (fold (fold ac)))
  have hlt : (fold (fold (fold (fold ac)))).toNat < 2 ^ 16 := by
    omega
  calc (checksum b initial).toNat = (fold (fold (fold (fold ac)))).toNat := by
        rw [checksum, UInt64.toNat_toUInt16, Nat.mod_eq_of_lt hlt]
    _ = reduce 16 (fold (fold (fold (fold ac)))).toNat := (reduce_of_lt hlt).symm
    _ = reduce 16 ac.toNat := by
        rw [h4, reduce_fold, h3, reduce_fold, h2, reduce_fold, h1, reduce_fold]

/-- A sum continued over `c` from what the even prefix `pre` left. -/
theorem Partial.checksumNoFold {initial : Nat} {pre : List UInt8} {ac : UInt64}
    (h : Partial initial pre ac) (hpre : Even pre.length) (c : List UInt8)
    (hfit : initial + (pre.length + c.length) * 2 ^ 30 < 2 ^ 64) :
    Partial initial (pre ++ c) (checksumNoFold c ac) := by
  apply h.trans hpre
  apply partial_checksumNoFold
  have := h.bound
  rw [Nat.add_mul] at hfit
  omega

/-- The pseudo-header sum is the sum of the words of the pseudo-header: the two
addresses, the protocol and the length. -/
theorem partial_pseudoHeaderChecksumNoFold (protocol : UInt8) {srcAddr dstAddr : List UInt8}
    (hsrc : Even srcAddr.length) (hdst : Even dstAddr.length)
    (hlen : srcAddr.length + dstAddr.length ≤ 32) (totalLen : UInt16) :
    Partial 0 (srcAddr ++ dstAddr ++ [0, protocol] ++ toBytes 2 totalLen.toNat)
      (pseudoHeaderChecksumNoFold protocol srcAddr dstAddr totalLen) := by
  have h1 : Partial 0 srcAddr (checksumNoFold srcAddr 0) := by
    simpa using partial_checksumNoFold
      (show (0 : UInt64).toNat + srcAddr.length * 2 ^ 30 < 2 ^ 64 by simp; omega)
  have h2 := h1.checksumNoFold hsrc dstAddr (by omega)
  have h3 := h2.checksumNoFold (by simpa [Nat.even_add] using hsrc.add hdst) [0, protocol]
    (by simp; omega)
  have h4 := h3.checksumNoFold (by simpa [Nat.even_add] using (hsrc.add hdst).add even_two)
    (toBytes 2 totalLen.toNat) (by simp; omega)
  exact h4

/-- `checksum` is the ones'-complement sum of the words of `b` with `initial`
added in, while the 64-bit accumulator cannot wrap. -/
theorem checksum_eq_reduce (b : List UInt8) (initial : UInt64)
    (hfit : initial.toNat + b.length * 2 ^ 30 < 2 ^ 64) :
    (checksum b initial).toNat = reduce 16 (initial.toNat + (Ping.words b).sum) := by
  have h := partial_checksumNoFold hfit
  rw [toNat_checksum]
  exact reduce_congr h.pos_iff h.residue

/-- The checksum `gsoSplit` and the offloads write, `~checksum`, is the Internet
checksum of RFC 1071, as the ICMP pinger's `internetChecksum` states it, for every
buffer of fewer than `2 ^ 34` bytes. -/
theorem checksum_complement_eq_internetChecksum (b : List UInt8) (hlen : b.length < 2 ^ 34) :
    ~~~(checksum b 0) = Ping.internetChecksum b := by
  apply UInt16.toNat_inj.mp
  have hfit : (0 : UInt64).toNat + b.length * 2 ^ 30 < 2 ^ 64 := by
    rw [UInt64.toNat_zero, Nat.zero_add]
    calc b.length * 2 ^ 30 < 2 ^ 34 * 2 ^ 30 := Nat.mul_lt_mul_of_pos_right hlen (by positivity)
      _ = 2 ^ 64 := by norm_num
  rw [UInt16.toNat_not, checksum_eq_reduce b 0 hfit, UInt64.toNat_zero, Nat.zero_add,
    Ping.internetChecksum_toNat]
  rfl

/-- The five bytes `1 2 3 4 5`, the last one odd. -/
theorem checksum_complement_odd :
    [(1 : UInt8), 2, 3, 4, 5].length < 2 ^ 34 ∧
      ~~~(checksum [1, 2, 3, 4, 5] 0) = Ping.internetChecksum [1, 2, 3, 4, 5] :=
  ⟨by decide, checksum_complement_eq_internetChecksum [1, 2, 3, 4, 5] (by decide)⟩

/-- `checksum` from what the even prefix `pre` left: the reduced sum of the words
of `pre ++ b`. -/
theorem toNat_checksum_of_partial {initial : Nat} {pre : List UInt8} {ac : UInt64}
    (h : Partial initial pre ac) (hpre : Even pre.length) (b : List UInt8)
    (hfit : initial + (pre.length + b.length) * 2 ^ 30 < 2 ^ 64) :
    (checksum b ac).toNat = reduce 16 (initial + (Ping.words (pre ++ b)).sum) := by
  have h' := h.checksumNoFold hpre b hfit
  rw [toNat_checksum]
  exact reduce_congr h'.pos_iff h'.residue

end Tun
