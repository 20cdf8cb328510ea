import Mathlib
import Vwarp.Lib.OnesComplement

/-!
# The ICMP echo checksum

`checksum` of the ICMP pinger, and the echo request `PingContext` writes. The
loop adds the big-endian 16-bit words of the message, an odd last byte as the
high byte of a word, into a `uint32`, and folds the carries back in only after
the loop. That is the Internet checksum of RFC 1071, the complement of the
ones'-complement sum of the words, as long as the `uint32` does not wrap,
which holds for messages of up to 131074 bytes (65537 words of at most
`0xffff`). A message of 131076 bytes `0xff` wraps it, and its checksum is off
by one.
-/

namespace Ping

open OnesComplement

/-- The word loop of `checksum`, with the odd last byte added as a high byte. -/
def sumWords (sum : UInt32) : List UInt8 → UInt32
  | a :: b :: rest => sumWords (sum + (a.toUInt32 <<< 8 ||| b.toUInt32)) rest
  | [a] => sum + (a.toUInt32 <<< 8)
  | [] => sum

theorem shiftRight_16_toNat (s : UInt32) : (s >>> (16 : UInt32)).toNat = s.toNat / 2 ^ 16 := by
  simp [UInt32.toNat_shiftRight, Nat.shiftRight_eq_div_pow]

theorem foldStep_toNat (s : UInt32) :
    ((s &&& (0xffff : UInt32)) + (s >>> (16 : UInt32))).toNat =
      s.toNat % 2 ^ 16 + s.toNat / 2 ^ 16 := by
  have hs := s.toNat_lt
  have hlow : (s &&& (0xffff : UInt32)).toNat = s.toNat % 2 ^ 16 := by
    rw [UInt32.toNat_and]
    exact Nat.and_two_pow_sub_one_eq_mod _ 16
  rw [UInt32.toNat_add, hlow, shiftRight_16_toNat]
  omega

/-- The folding loop of `checksum`: it ends, since every round with bits above
the low 16 lowers the sum. -/
def foldCarries (sum : UInt32) : UInt32 :=
  if sum >>> (16 : UInt32) > 0 then
    foldCarries ((sum &&& (0xffff : UInt32)) + (sum >>> (16 : UInt32)))
  else sum
termination_by sum.toNat
decreasing_by
  rw [foldStep_toNat]
  have hhigh : 0 < (sum >>> 16).toNat := by assumption
  rw [shiftRight_16_toNat] at hhigh
  omega

/-- `checksum`. -/
def checksum (data : List UInt8) : UInt16 := (~~~(foldCarries (sumWords 0 data))).toUInt16

/-- The message with its checksum written big-endian over bytes 2 and 3. -/
def withChecksum (msg : List UInt8) : List UInt8 :=
  let cs := checksum msg
  (msg.set 2 (cs >>> 8).toUInt8).set 3 (cs &&& 0xff).toUInt8

/-- The echo request of `PingContext`: type 8 (128 for IPv6), code 0, the checksum,
the low 16 bits of the process id and sequence number 1. -/
def echoRequest (msgType : UInt8) (pid : Nat) : List UInt8 :=
  let id := pid &&& 0xffff
  withChecksum [msgType, 0, 0, 0, UInt8.ofNat (id >>> 8), UInt8.ofNat (id &&& 0xff), 0, 1]

/-! ## RFC 1071 -/

/-- The big-endian 16-bit words of a message, an odd last byte padded with a
zero low byte. -/
def words : List UInt8 → List Nat
  | a :: b :: rest => (a.toNat * 256 + b.toNat) :: words rest
  | [a] => [a.toNat * 256]
  | [] => []

/-- The Internet checksum of RFC 1071: the complement of the ones'-complement
sum of the words. -/
def internetChecksum (m : List UInt8) : UInt16 := UInt16.ofNat (2 ^ 16 - 1 - sum 16 (words m))

/-- A byte shifted into the high half of a word. -/
theorem highByte_toNat (a : UInt8) : (a.toUInt32 <<< 8).toNat = a.toNat * 256 := by
  have ha := a.toNat_lt
  rw [UInt32.toNat_shiftLeft, UInt8.toNat_toUInt32, Nat.shiftLeft_eq]
  simp only [UInt32.reduceToNat, Nat.reduceMod]
  omega

/-- The big-endian word of two bytes: the low byte fills the bits the shift left
clear, so the `or` is a sum. -/
theorem word_toNat (a b : UInt8) :
    (a.toUInt32 <<< 8 ||| b.toUInt32).toNat = a.toNat * 256 + b.toNat := by
  have hb : b.toNat < 2 ^ 8 := b.toNat_lt
  rw [UInt32.toNat_or, highByte_toNat, UInt8.toNat_toUInt32, Nat.mul_comm,
    ← Nat.two_pow_add_eq_or_of_lt hb]

theorem words_lt (m : List UInt8) : ∀ x ∈ words m, x < 2 ^ 16 := by
  induction m using words.induct with
  | case1 a b rest ih =>
    intro x hx
    rcases List.mem_cons.mp hx with rfl | hx
    · have ha := a.toNat_lt
      have hb := b.toNat_lt
      omega
    · exact ih x hx
  | case2 a =>
    intro x hx
    rw [List.mem_singleton.mp hx]
    have ha := a.toNat_lt
    omega
  | case3 => simp [words]

theorem length_words (m : List UInt8) : (words m).length = (m.length + 1) / 2 := by
  induction m using words.induct with
  | case1 a b rest ih =>
    simp only [words, List.length_cons, ih]
    omega
  | case2 a => simp [words]
  | case3 => rfl

/-- The word loop adds the words, modulo `2 ^ 32`. -/
theorem sumWords_toNat (s : UInt32) (m : List UInt8) :
    (sumWords s m).toNat = (s.toNat + (words m).sum) % 2 ^ 32 := by
  induction s, m using sumWords.induct with
  | case1 s a b rest ih =>
    rw [sumWords, ih, UInt32.toNat_add, word_toNat, words, List.sum_cons]
    omega
  | case2 s a =>
    rw [sumWords, UInt32.toNat_add, highByte_toNat, words, List.sum_singleton]
  | case3 s =>
    rw [sumWords, words, List.sum_nil, Nat.add_zero, Nat.mod_eq_of_lt s.toNat_lt]

/-- The folding loop returns the end-around reduction of any sum. -/
theorem foldCarries_toNat (s : UInt32) : (foldCarries s).toNat = reduce 16 s.toNat := by
  induction s using foldCarries.induct with
  | case1 s hhigh ih =>
    rw [foldCarries, if_pos hhigh, ih, foldStep_toNat, reduce_fold]
  | case2 s hlow =>
    have hlt : s.toNat < 2 ^ 16 := by
      have hz : (s >>> 16).toNat = 0 := by
        simp only [gt_iff_lt, UInt32.lt_iff_toNat_lt, UInt32.reduceToNat, Nat.not_lt] at hlow
        omega
      rw [shiftRight_16_toNat] at hz
      omega
    rw [foldCarries, if_neg hlow, reduce_of_lt hlt]

theorem checksum_toNat (m : List UInt8) :
    (checksum m).toNat = 2 ^ 16 - 1 - reduce 16 ((words m).sum % 2 ^ 32) := by
  have hfold := foldCarries_toNat (sumWords 0 m)
  rw [sumWords_toNat, UInt32.toNat_zero, Nat.zero_add] at hfold
  have hlt := reduce_lt (w := 16) (by decide) ((words m).sum % 2 ^ 32)
  have hsize : UInt32.size = 2 ^ 32 := rfl
  rw [checksum, UInt32.toNat_toUInt16, UInt32.toNat_not, hfold, hsize]
  omega

theorem internetChecksum_toNat (m : List UInt8) :
    (internetChecksum m).toNat = 2 ^ 16 - 1 - reduce 16 (words m).sum := by
  rw [internetChecksum, sum_eq_reduce (by decide) _ (words_lt m), UInt16.toNat_ofNat']
  omega

/-- Up to 131074 bytes, the word sum stays below `2 ^ 32`. -/
theorem words_sum_lt {m : List UInt8} (hm : m.length ≤ 131074) : (words m).sum < 2 ^ 32 := by
  have hle : (words m).sum ≤ (words m).length * (2 ^ 16 - 1) := by
    have hsum := List.sum_le_card_nsmul (words m) (2 ^ 16 - 1)
      (fun x hx => Nat.le_sub_one_of_lt (words_lt m x hx))
    rwa [Nat.nsmul_eq_mul] at hsum
  rw [length_words] at hle
  have hlen : (m.length + 1) / 2 ≤ 65537 := by omega
  calc (words m).sum ≤ (m.length + 1) / 2 * (2 ^ 16 - 1) := hle
    _ ≤ 65537 * (2 ^ 16 - 1) := Nat.mul_le_mul_right _ hlen
    _ < 2 ^ 32 := by decide

theorem checksum_eq_internetChecksum {m : List UInt8} (hm : m.length ≤ 131074) :
    checksum m = internetChecksum m := by
  apply UInt16.toNat_inj.mp
  rw [checksum_toNat, internetChecksum_toNat, Nat.mod_eq_of_lt (words_sum_lt hm)]

/-! ## Writing the checksum into the message -/

theorem eq_of_checksum_field_zero {m : List UInt8} (h2 : m[2]? = some 0) (h3 : m[3]? = some 0) :
    ∃ a b rest, m = a :: b :: 0 :: 0 :: rest := by
  match m, h2, h3 with
  | [], h2, _ | [_], h2, _ | [_, _], h2, _ => simp at h2
  | [_, _, _], _, h3 => simp at h3
  | a :: b :: c :: d :: rest, h2, h3 =>
    have hc : c = 0 := by simpa using h2
    have hd : d = 0 := by simpa using h3
    exact ⟨a, b, rest, by rw [hc, hd]⟩

/-- The two bytes written back make up the checksum word. -/
theorem checksumBytes_toNat (cs : UInt16) :
    (cs >>> 8).toUInt8.toNat * 256 + (cs &&& 0xff).toUInt8.toNat = cs.toNat := by
  have hcs := cs.toNat_lt
  have hlow : (cs.toNat &&& 255) = cs.toNat % 2 ^ 8 := Nat.and_two_pow_sub_one_eq_mod _ 8
  simp only [UInt16.toNat_toUInt8, UInt16.toNat_shiftRight, UInt16.toNat_and,
    Nat.shiftRight_eq_div_pow, UInt16.reduceToNat, Nat.reduceMod, hlow]
  omega

/-- Writing the checksum over a zero checksum field adds it to the word sum. -/
theorem words_withChecksum (a b : UInt8) (rest : List UInt8) :
    (words (withChecksum (a :: b :: 0 :: 0 :: rest))).sum =
      (words (a :: b :: 0 :: 0 :: rest)).sum + (checksum (a :: b :: 0 :: 0 :: rest)).toNat := by
  simp only [withChecksum, List.set_cons_succ, List.set_cons_zero, words, List.sum_cons,
    checksumBytes_toNat]
  simp only [UInt8.toNat_zero, Nat.zero_mul, Nat.add_zero, Nat.zero_add]
  omega

/-- A message whose checksum field is zero verifies once `PingContext` has
written its checksum into it. -/
theorem checksum_withChecksum {m : List UInt8} (hm : m.length ≤ 131074) (h2 : m[2]? = some 0)
    (h3 : m[3]? = some 0) : checksum (withChecksum m) = 0 := by
  obtain ⟨a, b, rest, rfl⟩ := eq_of_checksum_field_zero h2 h3
  have hlen : (withChecksum (a :: b :: 0 :: 0 :: rest)).length ≤ 131074 := by
    simpa [withChecksum] using hm
  have hcs := checksum_toNat (a :: b :: 0 :: 0 :: rest)
  rw [Nat.mod_eq_of_lt (words_sum_lt hm)] at hcs
  apply UInt16.toNat_inj.mp
  rw [checksum_toNat, Nat.mod_eq_of_lt (words_sum_lt hlen), words_withChecksum, hcs,
    reduce_add_complement (by decide)]
  rfl

/-- The echo request verifies, whatever its type and the process id. -/
theorem checksum_echoRequest (msgType : UInt8) (pid : Nat) :
    checksum (echoRequest msgType pid) = 0 :=
  checksum_withChecksum (by simp) rfl rfl

/-- For a message of up to 131074 bytes, `checksum` is the Internet checksum of
RFC 1071, and a message whose checksum field is zero verifies once its checksum
is written into it; the folding loop returns, for every sum, its end-around
reduction. -/
theorem checksum_rfc1071 (m : List UInt8) (hm : m.length ≤ 131074) :
    checksum m = internetChecksum m ∧
      (m[2]? = some 0 → m[3]? = some 0 → checksum (withChecksum m) = 0) ∧
      ∀ s : UInt32, (foldCarries s).toNat = reduce 16 s.toNat := by
  refine ⟨checksum_eq_internetChecksum hm, ?_, foldCarries_toNat⟩
  intro h2 h3
  exact checksum_withChecksum hm h2 h3

/-- An echo request of `PingContext` before and after its checksum is written. -/
theorem checksum_rfc1071_echo :
    checksum [8, 0, 0, 0, 0x12, 0x34, 0, 1] = internetChecksum [8, 0, 0, 0, 0x12, 0x34, 0, 1] ∧
      checksum (withChecksum [8, 0, 0, 0, 0x12, 0x34, 0, 1]) = 0 := by
  obtain ⟨heq, hverify, -⟩ := checksum_rfc1071 [8, 0, 0, 0, 0x12, 0x34, 0, 1] (by decide)
  exact ⟨heq, hverify rfl rfl⟩

/-! ## Past the bound -/

theorem words_replicate_ff (k : Nat) :
    words (List.replicate (2 * k) 0xff) = List.replicate k 0xffff := by
  induction k with
  | zero => rfl
  | succ k ih =>
    show words (List.replicate (2 * k + 1 + 1) 0xff) = List.replicate (k + 1) 0xffff
    rw [List.replicate_succ, List.replicate_succ, words, ih, List.replicate_succ]
    rfl

/-- 65538 words `0xffff` wrap the `uint32` sum: the checksum is `1` where RFC 1071
gives `0`. -/
theorem checksum_wraps_long_message :
    checksum (List.replicate 131076 0xff) = 1 ∧
      internetChecksum (List.replicate 131076 0xff) = 0 := by
  have hsum : (words (List.replicate 131076 0xff)).sum = 65538 * 0xffff := by
    rw [show (131076 : Nat) = 2 * 65538 from rfl, words_replicate_ff, List.sum_replicate,
      Nat.nsmul_eq_mul]
  have hwrapped : reduce 16 (65538 * 0xffff % 2 ^ 32) = 65534 := by
    rw [show 65538 * 0xffff % 2 ^ 32 = 65534 from rfl]
    exact reduce_of_lt (by decide)
  have hones : reduce 16 (65538 * 0xffff) = 0xffff := by
    unfold reduce
    decide
  constructor
  · apply UInt16.toNat_inj.mp
    rw [checksum_toNat, hsum, hwrapped]
    rfl
  · apply UInt16.toNat_inj.mp
    rw [internetChecksum_toNat, hsum, hones]
    rfl

end Ping
