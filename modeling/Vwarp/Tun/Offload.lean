import Mathlib
import Vwarp.Tun.Checksum

/-!
# Checksum offload between the TUN device and the kernel

With checksum offload a packet crosses the TUN device with its transport
checksum only begun: the field holds the folded pseudo-header sum, and whoever
takes the packet adds in the transport header and data. The device does both
halves of that contract: the coalescing code places the pseudo-header sum for
the kernel to complete, and `gsoNoneChecksum` completes what the kernel left.
`checksumValid` is the check the device makes of a whole packet. The lemmas
here say what writing a 16-bit field does to the checksum of the bytes around it
(`checksum_putUint16_complement`), and a packet whose partial checksum was placed
this way and completed this way passes `checksumValid`.

Byte slices are lists; a Go slice expression out of range would panic, and the
lemmas take the packets long enough for none to be.
-/

namespace Tun

open BigEndian OnesComplement

/-- `binary.BigEndian.Uint16(b[i:])`. -/
def getUint16 (b : List UInt8) (i : Nat) : UInt16 := UInt16.ofNat (ofBytes ((b.drop i).take 2))

/-- `binary.BigEndian.Uint32(b[i:])`. -/
def getUint32 (b : List UInt8) (i : Nat) : UInt32 := UInt32.ofNat (ofBytes ((b.drop i).take 4))

/-- `binary.BigEndian.PutUint16(b[i:], v)`. -/
def putUint16 (b : List UInt8) (i : Nat) (v : UInt16) : List UInt8 :=
  (b.set i (v >>> 8).toUInt8).set (i + 1) v.toUInt8

/-- `binary.BigEndian.PutUint32(b[i:], v)`. -/
def putUint32 (b : List UInt8) (i : Nat) (v : UInt32) : List UInt8 :=
  (((b.set i (v >>> 24).toUInt8).set (i + 1) (v >>> 16).toUInt8).set (i + 2)
    (v >>> 8).toUInt8).set (i + 3) v.toUInt8

/-- `ipv4SrcAddrOffset`. -/
def ipv4SrcAddrOffset : Nat := 12

/-- `ipv6SrcAddrOffset`. -/
def ipv6SrcAddrOffset : Nat := 8

/-- `srcAddrAt` of the offload code: where the source address starts. -/
def srcAddrAt (isV6 : Bool) : Nat := if isV6 then ipv6SrcAddrOffset else ipv4SrcAddrOffset

/-- `addrSize` of the offload code: 16 bytes for IPv6, 4 for IPv4. -/
def addrSize (isV6 : Bool) : Nat := if isV6 then 16 else 4

/-- Where the destination address ends: the shortest IP header the offload code reads. -/
def ipHeaderMin (isV6 : Bool) : Nat := srcAddrAt isV6 + 2 * addrSize isV6

/-- `pseudoHeaderChecksumNoFold(proto, pkt[srcAddrAt:srcAddrAt+addrSize],
pkt[srcAddrAt+addrSize:srcAddrAt+addrSize*2], len)`, the pseudo-header sum every
caller forms from the addresses of a packet. -/
def addrPseudoHeaderSum (proto : UInt8) (pkt : List UInt8) (isV6 : Bool) (len : UInt16) : UInt64 :=
  pseudoHeaderChecksumNoFold proto ((pkt.drop (srcAddrAt isV6)).take (addrSize isV6))
    ((pkt.drop (srcAddrAt isV6 + addrSize isV6)).take (addrSize isV6)) len

/-- `checksumValid`: the transport checksum of `pkt` verifies against the
pseudo-header of its addresses and transport length. -/
def checksumValid (pkt : List UInt8) (iphLen proto : UInt8) (isV6 : Bool) : Bool :=
  let lenForPseudo := UInt16.ofNat (pkt.length - iphLen.toNat)
  let cSum := addrPseudoHeaderSum proto pkt isV6 lenForPseudo
  ~~~(checksum (pkt.drop iphLen.toNat) cSum) == 0

/-- `gsoNoneChecksum`: the value in the field at `cSumStart + cSumOffset` is the
initial value of the checksum from `cSumStart` on, which replaces it. -/
def gsoNoneChecksum (inBuf : List UInt8) (cSumStart cSumOffset : UInt16) : List UInt8 :=
  let cSumAt := (cSumStart + cSumOffset).toNat
  let initial := getUint16 inBuf cSumAt
  let inBuf := (inBuf.set cSumAt 0).set (cSumAt + 1) 0
  putUint16 inBuf cSumAt (~~~(checksum (inBuf.drop cSumStart.toNat) initial.toUInt64))

/-- The end of `applyTCPCoalesceAccounting` and `applyUDPCoalesceAccounting` for a
coalesced packet: the folded pseudo-header sum `checksum([]byte{}, psum)`, placed
at `csumStart + csumOffset`, `csumStart` being the IP header length, for the
kernel to complete. -/
def placePseudoHeaderChecksum (pkt : List UInt8) (iphLen proto : UInt8) (isV6 : Bool)
    (csumOffset : UInt16) : List UInt8 :=
  let psum := addrPseudoHeaderSum proto pkt isV6 (UInt16.ofNat (pkt.length - iphLen.toNat))
  putUint16 pkt (iphLen.toUInt16 + csumOffset).toNat (checksum [] psum)

/-! ## Writing a field -/

section Put

variable {b : List UInt8} {i : Nat} {v : UInt16}

@[simp] theorem length_putUint16 : (putUint16 b i v).length = b.length := by
  simp [putUint16]

@[simp] theorem length_putUint32 {w : UInt32} : (putUint32 b i w).length = b.length := by
  simp [putUint32]

theorem putUint16_zero_eq : putUint16 b i 0 = (b.set i 0).set (i + 1) 0 := rfl

theorem take_putUint16_of_le {n : Nat} (h : n ≤ i) : (putUint16 b i v).take n = b.take n := by
  rw [putUint16, List.take_set_of_le (by omega), List.take_set_of_le h]

/-- Bytes after the field: the field moves with the cut. -/
theorem drop_putUint16_of_le {n : Nat} (h : n ≤ i) :
    (putUint16 b i v).drop n = putUint16 (b.drop n) (i - n) v := by
  rw [putUint16, putUint16, List.drop_set, if_neg (by omega), List.drop_set, if_neg (by omega),
    show i + 1 - n = i - n + 1 by omega]

theorem drop_putUint16_of_lt {n : Nat} (h : i + 2 ≤ n) : (putUint16 b i v).drop n = b.drop n := by
  rw [putUint16, List.drop_set_of_lt (by omega), List.drop_set_of_lt (by omega)]

theorem getElem?_putUint16_self (h : i + 2 ≤ b.length) :
    (putUint16 b i v)[i]? = some (v >>> 8).toUInt8 := by
  rw [putUint16, List.getElem?_set_ne (by omega), List.getElem?_set_self (by omega)]

theorem getElem?_putUint16_succ (h : i + 2 ≤ b.length) :
    (putUint16 b i v)[i + 1]? = some v.toUInt8 := by
  rw [putUint16, List.getElem?_set_self (by simp; omega)]

theorem getElem?_putUint16_of_ne {j : Nat} (h0 : i ≠ j) (h1 : i + 1 ≠ j) :
    (putUint16 b i v)[j]? = b[j]? := by
  rw [putUint16, List.getElem?_set_ne h1, List.getElem?_set_ne h0]

theorem getElem?_putUint32_of_ne {j : Nat} {w : UInt32} (h : j < i ∨ i + 4 ≤ j) :
    (putUint32 b i w)[j]? = b[j]? := by
  rw [putUint32, List.getElem?_set_ne (by omega), List.getElem?_set_ne (by omega),
    List.getElem?_set_ne (by omega), List.getElem?_set_ne (by omega)]

theorem putUint16_append_right {c : List UInt8} (h : b.length ≤ i) :
    putUint16 (b ++ c) i v = b ++ putUint16 c (i - b.length) v := by
  rw [putUint16, List.set_append_right _ _ h, List.set_append_right _ _ (by omega), putUint16,
    show i + 1 - b.length = i - b.length + 1 by omega]

/-- The two bytes `PutUint16` writes make up the value. -/
theorem highLow_toNat (v : UInt16) : (v >>> 8).toUInt8.toNat * 256 + v.toUInt8.toNat = v.toNat := by
  have hv := v.toNat_lt
  simp only [UInt16.toNat_toUInt8, UInt16.toNat_shiftRight, Nat.shiftRight_eq_div_pow,
    UInt16.reduceToNat, Nat.reduceMod]
  omega

theorem getUint16_putUint16 (h : i + 2 ≤ b.length) : getUint16 (putUint16 b i v) i = v := by
  obtain ⟨pre, x, y, rest, rfl, hpre⟩ : ∃ pre x y rest, b = pre ++ x :: y :: rest ∧ pre.length = i := by
    refine ⟨b.take i, b[i], b[i + 1], b.drop (i + 2), ?_, List.length_take_of_le (by omega)⟩
    simp
  have hput : putUint16 (pre ++ x :: y :: rest) i v =
      pre ++ (v >>> 8).toUInt8 :: v.toUInt8 :: rest := by
    rw [putUint16_append_right (by omega), hpre, Nat.sub_self]
    rfl
  apply UInt16.toNat_inj.mp
  rw [getUint16, hput, ← hpre, List.drop_append_of_le_length le_rfl, List.drop_length]
  simp only [List.nil_append, List.take_succ_cons, List.take_zero, ofBytes_cons,
    List.length_cons, List.length_nil, ofBytes_nil, UInt16.toNat_ofNat']
  have := highLow_toNat v
  have := v.toNat_lt
  omega

/-- Over a zero field at an even offset, the value written adds to the word sum. -/
theorem words_putUint16_of_zero (hi : Even i) (h0 : b[i]? = some 0) (h1 : b[i + 1]? = some 0) :
    (Ping.words (putUint16 b i v)).sum = (Ping.words b).sum + v.toNat := by
  induction b using Ping.words.induct generalizing i with
  | case1 x y rest ih =>
    rcases i with _ | _ | i
    · have hx : x = 0 := by simpa using h0
      have hy : y = 0 := by simpa using h1
      subst hx hy
      simp only [putUint16, List.set_cons_zero, List.set_cons_succ, Ping.words, List.sum_cons,
        highLow_toNat, UInt8.toNat_zero]
      omega
    · simp at hi
    · have hi' : Even i := by simpa [Nat.even_add, parity_simps] using hi
      have hput : putUint16 (x :: y :: rest) (i + 2) v = x :: y :: putUint16 rest i v := by
        simp [putUint16]
      rw [hput, Ping.words, Ping.words, List.sum_cons, List.sum_cons,
        ih hi' (by simpa using h0) (by simpa using h1)]
      omega
  | case2 x => rcases i with _ | i <;> simp at h1
  | case3 => simp at h0

end Put

/-! ## Completing a checksum -/

/-- Over a region whose field at an even offset is zero, writing there the
complement of the region's checksum from `w` makes the region's checksum from
any `v` with the same end-around reduction the all-ones word. -/
theorem checksum_putUint16_complement {T : List UInt8} {k : Nat} (hk : Even k)
    (h0 : T[k]? = some 0) (h1 : T[k + 1]? = some 0) {w v : UInt64}
    (hw : w.toNat + T.length * 2 ^ 30 < 2 ^ 64) (hv : v.toNat + T.length * 2 ^ 30 < 2 ^ 64)
    (hwv : reduce 16 w.toNat = reduce 16 v.toNat) :
    checksum (putUint16 T k (~~~(checksum T w))) v = 0xffff := by
  have hsum := words_putUint16_of_zero (v := ~~~(checksum T w)) hk h0 h1
  have hc : (~~~(checksum T w)).toNat = 2 ^ 16 - 1 - reduce 16 (v.toNat + (Ping.words T).sum) := by
    rw [UInt16.toNat_not, checksum_eq_reduce T w hw, ← reduce_reduce_add, hwv, reduce_reduce_add]
    rfl
  apply UInt16.toNat_inj.mp
  rw [checksum_eq_reduce _ _ (by simpa using hv), hsum, hc, ← Nat.add_assoc,
    reduce_add_complement (by decide)]
  rfl

theorem not_eq_zero_iff (c : UInt16) : ~~~c = 0 ↔ c = 0xffff := by
  rw [← UInt16.toNat_inj, ← UInt16.toNat_inj, UInt16.toNat_not]
  have := c.toNat_lt
  simp only [UInt16.toNat_zero, UInt16.reduceToNat, UInt16.size]
  omega

/-- What `checksumValid` asks of the checksum. -/
theorem checksumValid_iff (pkt : List UInt8) (iphLen proto : UInt8) (isV6 : Bool) :
    checksumValid pkt iphLen proto isV6 = true ↔
      checksum (pkt.drop iphLen.toNat)
        (addrPseudoHeaderSum proto pkt isV6 (UInt16.ofNat (pkt.length - iphLen.toNat))) = 0xffff := by
  rw [checksumValid, beq_iff_eq, not_eq_zero_iff]

/-! ## The addresses of a packet -/

/-- `pkt[srcAddrAt:srcAddrAt+addrSize*2]`: the two addresses. -/
def addrBytes (pkt : List UInt8) (isV6 : Bool) : List UInt8 :=
  (pkt.drop (srcAddrAt isV6)).take (2 * addrSize isV6)

section Addr

variable {isV6 : Bool}

/-- The pseudo-header sum reads the packet only through its addresses. -/
theorem addrPseudoHeaderSum_congr {p q : List UInt8} (h : addrBytes p isV6 = addrBytes q isV6)
    (proto : UInt8) (len : UInt16) :
    addrPseudoHeaderSum proto p isV6 len = addrPseudoHeaderSum proto q isV6 len := by
  have hsrc : ∀ r : List UInt8, (r.drop (srcAddrAt isV6)).take (addrSize isV6) =
      (addrBytes r isV6).take (addrSize isV6) := by
    intro r
    rw [addrBytes, List.take_take]
    congr 1
    omega
  have hdst : ∀ r : List UInt8, (r.drop (srcAddrAt isV6 + addrSize isV6)).take (addrSize isV6) =
      (addrBytes r isV6).drop (addrSize isV6) := by
    intro r
    rw [addrBytes, List.drop_take, List.drop_drop]
    congr 1
    omega
  simp only [addrPseudoHeaderSum, hsrc, hdst, h]

theorem addrBytes_putUint16_of_lt {b : List UInt8} {i : Nat} {v : UInt16}
    (h : i + 2 ≤ srcAddrAt isV6) : addrBytes (putUint16 b i v) isV6 = addrBytes b isV6 := by
  rw [addrBytes, drop_putUint16_of_lt h, addrBytes]

theorem addrBytes_putUint16_of_ge {b : List UInt8} {i : Nat} {v : UInt16}
    (h : ipHeaderMin isV6 ≤ i) : addrBytes (putUint16 b i v) isV6 = addrBytes b isV6 := by
  unfold ipHeaderMin at h
  rw [addrBytes, drop_putUint16_of_le (by omega), take_putUint16_of_le (by omega), addrBytes]

theorem addrBytes_append_of_le {a c : List UInt8} (h : ipHeaderMin isV6 ≤ a.length) :
    addrBytes (a ++ c) isV6 = addrBytes a isV6 := by
  unfold ipHeaderMin at h
  rw [addrBytes, List.drop_append_of_le_length (by omega),
    List.take_append_of_le_length (by simp; omega), addrBytes]

theorem addrBytes_take_of_le {b : List UInt8} {n : Nat} (h : ipHeaderMin isV6 ≤ n) :
    addrBytes (b.take n) isV6 = addrBytes b isV6 := by
  unfold ipHeaderMin at h
  rw [addrBytes, List.drop_take, List.take_take, addrBytes]
  congr 1
  omega

/-- The two slices of the addresses, side by side. -/
theorem addrBytes_eq (pkt : List UInt8) :
    (pkt.drop (srcAddrAt isV6)).take (addrSize isV6) ++
      (pkt.drop (srcAddrAt isV6 + addrSize isV6)).take (addrSize isV6) = addrBytes pkt isV6 := by
  rw [addrBytes, two_mul, List.take_add, List.drop_drop]

theorem length_addrBytes {pkt : List UInt8} (h : ipHeaderMin isV6 ≤ pkt.length) :
    (addrBytes pkt isV6).length = 2 * addrSize isV6 := by
  unfold ipHeaderMin at h
  rw [addrBytes, List.length_take, List.length_drop]
  omega

/-- The pseudo-header sum of a packet that holds both addresses: the words of the
addresses, the protocol and the length. -/
theorem partial_addrPseudoHeaderSum (proto : UInt8) {pkt : List UInt8}
    (h : ipHeaderMin isV6 ≤ pkt.length) (len : UInt16) :
    Partial 0 (addrBytes pkt isV6 ++ [0, proto] ++ toBytes 2 len.toNat)
      (addrPseudoHeaderSum proto pkt isV6 len) := by
  have hsize : addrSize isV6 = 4 ∨ addrSize isV6 = 16 := by
    unfold addrSize
    split <;> simp
  have hslice : ∀ n, n + addrSize isV6 ≤ pkt.length →
      ((pkt.drop n).take (addrSize isV6)).length = addrSize isV6 := by
    intro n hn
    rw [List.length_take, List.length_drop]
    omega
  have hlen := h
  unfold ipHeaderMin at hlen
  have heven : Even (addrSize isV6) := by
    rcases hsize with h4 | h16 <;> simp [*, parity_simps]
  have hp := partial_pseudoHeaderChecksumNoFold proto
    (show Even ((pkt.drop (srcAddrAt isV6)).take (addrSize isV6)).length by
      rw [hslice _ (by omega)]; exact heven)
    (show Even ((pkt.drop (srcAddrAt isV6 + addrSize isV6)).take (addrSize isV6)).length by
      rw [hslice _ (by omega)]; exact heven)
    (by rw [hslice _ (by omega), hslice _ (by omega)]; omega) len
  rwa [addrBytes_eq] at hp

theorem addrPseudoHeaderSum_le (proto : UInt8) {pkt : List UInt8}
    (h : ipHeaderMin isV6 ≤ pkt.length) (len : UInt16) :
    (addrPseudoHeaderSum proto pkt isV6 len).toNat ≤ 36 * 2 ^ 30 := by
  have hb := (partial_addrPseudoHeaderSum proto h len).bound
  have hsize : addrSize isV6 ≤ 16 := by
    unfold addrSize
    split <;> simp
  simp only [List.length_append, length_addrBytes h, List.length_cons, List.length_nil,
    length_toBytes] at hb
  omega

end Addr

/-! ## Checking a packet -/

/-- `checksumValid` checks the condition of RFC 768 and RFC 793: the
ones'-complement sum of the words of the pseudo-header (the addresses, the
protocol and the transport length) and of the transport segment is all ones. -/
theorem checksumValid_iff_reduce (pkt : List UInt8) (iphLen proto : UInt8) (isV6 : Bool)
    (hhdr : ipHeaderMin isV6 ≤ iphLen.toNat) (hiph : iphLen.toNat ≤ pkt.length)
    (hlen : pkt.length < 2 ^ 32) :
    checksumValid pkt iphLen proto isV6 = true ↔
      reduce 16 (Ping.words (addrBytes pkt isV6 ++ [0, proto] ++
        toBytes 2 (pkt.length - iphLen.toNat) ++ pkt.drop iphLen.toNat)).sum = 2 ^ 16 - 1 := by
  have hp := partial_addrPseudoHeaderSum proto (show ipHeaderMin isV6 ≤ pkt.length by omega)
    (UInt16.ofNat (pkt.length - iphLen.toNat))
  have hsize : addrSize isV6 = 4 ∨ addrSize isV6 = 16 := by
    unfold addrSize
    split <;> simp
  have hpre : Even (addrBytes pkt isV6 ++ [0, proto] ++
      toBytes 2 (UInt16.ofNat (pkt.length - iphLen.toNat)).toNat).length := by
    simp only [List.length_append, length_addrBytes (show ipHeaderMin isV6 ≤ pkt.length by omega),
      List.length_cons, List.length_nil, length_toBytes]
    rcases hsize with h4 | h16 <;> simp [*, parity_simps]
  have hsum := toNat_checksum_of_partial hp hpre (pkt.drop iphLen.toNat) (by
    simp only [List.length_append, length_addrBytes (show ipHeaderMin isV6 ≤ pkt.length by omega),
      List.length_cons, List.length_nil, length_toBytes, List.length_drop]
    rcases hsize with h4 | h16 <;> omega)
  have hbytes : toBytes 2 (UInt16.ofNat (pkt.length - iphLen.toNat)).toNat =
      toBytes 2 (pkt.length - iphLen.toNat) := by
    rw [UInt16.toNat_ofNat', show (2 : Nat) ^ 16 = 256 ^ 2 by norm_num, toBytes_mod]
  rw [checksumValid_iff, ← UInt16.toNat_inj, hsum, hbytes, Nat.zero_add]
  rfl

/-- An IPv4 packet with a UDP header of eight bytes and no data. -/
theorem checksumValid_iff_reduce_udp :
    ipHeaderMin false ≤ (20 : UInt8).toNat ∧ (20 : UInt8).toNat ≤ 28 ∧ 28 < 2 ^ 32 ∧
      (checksumValid [0x45, 0, 0, 28, 0, 1, 0, 0, 0x40, 0x11, 0, 0, 10, 0, 0, 1, 10, 0, 0, 2,
          0x30, 0x39, 0, 0x35, 0, 8, 0, 0] 20 17 false = true ↔
        reduce 16 (Ping.words (addrBytes [0x45, 0, 0, 28, 0, 1, 0, 0, 0x40, 0x11, 0, 0, 10, 0, 0, 1,
            10, 0, 0, 2, 0x30, 0x39, 0, 0x35, 0, 8, 0, 0] false ++ [0, 17] ++ toBytes 2 (28 - 20) ++
          [0x30, 0x39, 0, 0x35, 0, 8, 0, 0])).sum = 2 ^ 16 - 1) :=
  ⟨by decide, by decide, by decide,
    checksumValid_iff_reduce [0x45, 0, 0, 28, 0, 1, 0, 0, 0x40, 0x11, 0, 0, 10, 0, 0, 1, 10, 0, 0, 2,
      0x30, 0x39, 0, 0x35, 0, 8, 0, 0] 20 17 false (by decide) (by decide) (by decide)⟩

/-! ## Placing and completing a partial checksum -/

/-- A packet whose pseudo-header sum the coalescing code placed in its transport
checksum field, completed as `gsoNoneChecksum` completes it, passes
`checksumValid`: the two halves of checksum offload fit together. -/
theorem checksumValid_gsoNoneChecksum (pkt : List UInt8) (iphLen proto : UInt8) (isV6 : Bool)
    (csumOffset : UInt16) (hhdr : ipHeaderMin isV6 ≤ iphLen.toNat) (hoff : Even csumOffset.toNat)
    (hfield : iphLen.toNat + csumOffset.toNat + 2 ≤ pkt.length) (hlen : pkt.length < 2 ^ 16) :
    checksumValid (gsoNoneChecksum (placePseudoHeaderChecksum pkt iphLen proto isV6 csumOffset)
      iphLen.toUInt16 csumOffset) iphLen proto isV6 = true := by
  have hat : (iphLen.toUInt16 + csumOffset).toNat = iphLen.toNat + csumOffset.toNat := by
    rw [UInt16.toNat_add, UInt8.toNat_toUInt16]
    have := iphLen.toNat_lt
    omega
  set psum := addrPseudoHeaderSum proto pkt isV6 (UInt16.ofNat (pkt.length - iphLen.toNat))
  set pkt₁ := putUint16 pkt (iphLen.toNat + csumOffset.toNat) (checksum [] psum) with hpkt₁
  set T := (putUint16 pkt₁ (iphLen.toNat + csumOffset.toNat) 0).drop iphLen.toNat with hT
  have hTput : T = putUint16 (pkt₁.drop iphLen.toNat) csumOffset.toNat 0 := by
    rw [hT, drop_putUint16_of_le (by omega), Nat.add_sub_cancel_left]
  have hTlen : T.length = pkt.length - iphLen.toNat := by
    rw [hT, List.length_drop, length_putUint16, length_putUint16]
  have hgso : gsoNoneChecksum pkt₁ iphLen.toUInt16 csumOffset =
      putUint16 (putUint16 pkt₁ (iphLen.toNat + csumOffset.toNat) 0)
        (iphLen.toNat + csumOffset.toNat) (~~~(checksum T (checksum [] psum).toUInt64)) := by
    rw [gsoNoneChecksum, hat, getUint16_putUint16 (by omega), UInt8.toNat_toUInt16,
      ← putUint16_zero_eq]
  have hpsum : psum.toNat ≤ 36 * 2 ^ 30 :=
    addrPseudoHeaderSum_le proto (show ipHeaderMin isV6 ≤ pkt.length by omega)
      (UInt16.ofNat (pkt.length - iphLen.toNat))
  have hfold : (checksum [] psum).toNat = reduce 16 psum.toNat := by
    have h := checksum_eq_reduce [] psum
      (by rw [List.length_nil, Nat.zero_mul, Nat.add_zero]; exact psum.toNat_lt)
    rwa [Ping.words, List.sum_nil, Nat.add_zero] at h
  have hplace : placePseudoHeaderChecksum pkt iphLen proto isV6 csumOffset = pkt₁ := by
    rw [placePseudoHeaderChecksum, hat]
  rw [hplace, hgso, checksumValid_iff]
  have haddr : addrPseudoHeaderSum proto (putUint16 (putUint16 pkt₁ (iphLen.toNat + csumOffset.toNat) 0)
      (iphLen.toNat + csumOffset.toNat) (~~~(checksum T (checksum [] psum).toUInt64))) isV6
      (UInt16.ofNat (pkt.length - iphLen.toNat)) = psum := by
    apply addrPseudoHeaderSum_congr
    rw [addrBytes_putUint16_of_ge (by omega), addrBytes_putUint16_of_ge (by omega), hpkt₁,
      addrBytes_putUint16_of_ge (by omega)]
  have hlen₁ : pkt₁.length = pkt.length := length_putUint16
  simp only [length_putUint16, hlen₁]
  rw [haddr, drop_putUint16_of_le (by omega), Nat.add_sub_cancel_left, ← hT]
  apply checksum_putUint16_complement hoff
  · rw [hTput, getElem?_putUint16_self (by simp; omega)]
    rfl
  · rw [hTput, getElem?_putUint16_succ (by simp; omega)]
    rfl
  · rw [hTlen, UInt16.toNat_toUInt64]
    have := (checksum [] psum).toNat_lt
    omega
  · rw [hTlen]
    omega
  · rw [UInt16.toNat_toUInt64, hfold, reduce_reduce]

/-- A UDP datagram over IPv4 whose pseudo-header sum is placed and then completed. -/
theorem checksumValid_gsoNoneChecksum_udp :
    ipHeaderMin false ≤ (20 : UInt8).toNat ∧ Even (6 : UInt16).toNat ∧
      (20 : UInt8).toNat + (6 : UInt16).toNat + 2 ≤ 32 ∧ 32 < 2 ^ 16 ∧
      checksumValid (gsoNoneChecksum (placePseudoHeaderChecksum [0x45, 0, 0, 32, 0, 1, 0, 0,
          0x40, 0x11, 0, 0, 10, 0, 0, 1, 10, 0, 0, 2, 0x30, 0x39, 0, 0x35, 0, 12, 0, 0, 1, 2, 3, 4]
          20 17 false 6) (20 : UInt8).toUInt16 6) 20 17 false = true :=
  ⟨by decide, by decide, by decide, by decide,
    checksumValid_gsoNoneChecksum [0x45, 0, 0, 32, 0, 1, 0, 0, 0x40, 0x11, 0, 0, 10, 0, 0, 1,
      10, 0, 0, 2, 0x30, 0x39, 0, 0x35, 0, 12, 0, 0, 1, 2, 3, 4] 20 17 false 6
      (by decide) (by decide) (by decide) (by decide)⟩

end Tun
