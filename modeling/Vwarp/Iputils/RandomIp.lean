import Vwarp.NetText
import Vwarp.GoRuntime

/-!
# Random addresses of a prefix

`iputils.RandomIPFromPrefix`, which `RandomWarpEndpoint` calls on a WARP
prefix. It adds a random number below `2 ^ (BitLen - Bits)` to the masked
start address in its 16-byte form, reads the sum back as an IPv6 address and
unmaps it. The sum never needs more than 16 bytes. For an IPv4 prefix it stays
in `::ffff:0:0/96` and unmaps to an address of the prefix, and so does it for
an IPv6 prefix as long as it avoids that block; an IPv6 prefix that covers part
of the block, such as `::/64`, can give a sum inside it, which unmaps to an
IPv4 address the prefix does not contain. The random number is `big.Int.Rand`
of a draw.
-/

namespace Iputils

open Netip NetText BigEndian GoRuntime

/-- `RandomIPFromPrefix`: a panic, or Go's address and error; `draw` is the value
`big.Int.Rand` reduces below its bound. -/
def randomIPFromPrefix (cidr : Prefix) (draw : Nat) : Except Panic (Except String Addr) :=
  let startingAddress := cidr.masked.ip
  if startingAddress.is4In6 then .ok (.error "mapped v4 addresses not supported")
  else
    let prefixLen := cidr.bits
    if prefixLen = -1 then .ok (.error ("invalid cidr: " ++ String.ofList (prefixString cidr)))
    else
      let hostLen := (startingAddress.bitLen : Int) - prefixLen
      let randInt := draw % 2 ^ hostLen.toNat
      -- `As16` and `SetBytes` give the 128-bit value of the start
      let randomAddressInt := startingAddress.u128 + randInt
      -- `FillBytes` panics on a value longer than its 16 bytes
      if 2 ^ 128 ≤ randomAddressInt then .error .bufferTooSmall
      else
        match addrFromSlice (toBytes 16 randomAddressInt) with
        | some randomAddress => .ok (.ok randomAddress.unmap)
        | none =>
          .ok (.error ("failed to generate random IP from CIDR: " ++
            String.ofList (prefixString cidr)))

/-- A valid prefix as Go's constructors build it: an address without a zone,
and at most as many bits as the address has. -/
structure ValidPrefix (p : Prefix) : Prop where
  valid : p.isValid = true
  addr : p.ip ≠ .invalid
  zone : p.ip.zone = ""
  bits_le : p.bitsPlusOne - 1 ≤ p.ip.bitLen

theorem ValidPrefix.pos {p : Prefix} (hp : ValidPrefix p) : 0 < p.bitsPlusOne := by
  simpa [Prefix.isValid] using hp.valid

/-! ## Masks -/

theorem masked_eq (v s : Nat) : v >>> s <<< s = v / 2 ^ s * 2 ^ s := by
  rw [Nat.shiftLeft_eq, Nat.shiftRight_eq_div_pow]

/-- A masked `w`-bit value plus a number below the host part stays below `2 ^ w`. -/
theorem masked_add_lt {v w s r : Nat} (hv : v < 2 ^ w) (hs : s ≤ w) (hr : r < 2 ^ s) :
    v >>> s <<< s + r < 2 ^ w := by
  have hsplit : 2 ^ w = 2 ^ (w - s) * 2 ^ s := by rw [← Nat.pow_add, Nat.sub_add_cancel hs]
  have hq : v / 2 ^ s < 2 ^ (w - s) := Nat.div_lt_of_lt_mul (by rwa [Nat.mul_comm, ← hsplit])
  rw [masked_eq]
  calc v / 2 ^ s * 2 ^ s + r < v / 2 ^ s * 2 ^ s + 2 ^ s := by omega
    _ = (v / 2 ^ s + 1) * 2 ^ s := by rw [Nat.add_mul, Nat.one_mul]
    _ ≤ 2 ^ (w - s) * 2 ^ s := Nat.mul_le_mul_right _ hq
    _ = 2 ^ w := hsplit.symm

/-- The network part of a masked value plus a host number is the original one. -/
theorem shiftRight_masked_add (v s : Nat) {r : Nat} (hr : r < 2 ^ s) :
    (v >>> s <<< s + r) >>> s = v >>> s := by
  rw [masked_eq, Nat.shiftRight_eq_div_pow, Nat.shiftRight_eq_div_pow, Nat.add_comm,
    Nat.add_mul_div_right _ _ (Nat.two_pow_pos s), Nat.div_eq_of_lt hr, Nat.zero_add]

theorem xor_masked_add (v s : Nat) {r : Nat} (hr : r < 2 ^ s) :
    (v ^^^ (v >>> s <<< s + r)) >>> s = 0 := by
  rw [Nat.shiftRight_xor_distrib, shiftRight_masked_add v s hr, Nat.xor_self]

/-- Sixteen bytes always read back as an IPv6 address without a zone. -/
theorem addrFromSlice_toBytes {v : Nat} (h : v < 2 ^ 128) :
    addrFromSlice (toBytes 16 v) = some (.v6 ⟨v, h⟩ "") := by
  have hv : ofBytes (toBytes 16 v) % 2 ^ 128 = v := by
    rw [ofBytes_toBytes, show (256 : Nat) ^ 16 = 2 ^ 128 by norm_num, Nat.mod_mod,
      Nat.mod_eq_of_lt h]
  simp only [addrFromSlice, length_toBytes, addrFrom16, hv]
  rfl

/-! ## The two families -/

theorem masked_lt {v w : Nat} (hv : v < 2 ^ w) (s : Nat) (hs : s ≤ w) : v >>> s <<< s < 2 ^ w := by
  have h := masked_add_lt hv hs (Nat.two_pow_pos s)
  omega

/-- The masked start of an IPv4 prefix. -/
theorem masked_v4 (a : Fin (2 ^ 32)) {n : Nat} (hn : 0 < n) :
    (Prefix.masked ⟨.v4 a, n⟩).ip =
      .v4 ⟨a.val >>> (32 - (n - 1)) <<< (32 - (n - 1)), masked_lt a.isLt _ (Nat.sub_le _ _)⟩ := by
  have hmod := Nat.mod_eq_of_lt (masked_lt a.isLt (32 - (n - 1)) (Nat.sub_le _ _))
  simp only [Prefix.masked, Prefix.isValid, hn, decide_true, if_true, hmod]

/-- The masked start of an IPv6 prefix, without its zone. -/
theorem masked_v6 (a : Fin (2 ^ 128)) (z : String) {n : Nat} (hn : 0 < n) :
    (Prefix.masked ⟨.v6 a z, n⟩).ip =
      .v6 ⟨a.val >>> (128 - (n - 1)) <<< (128 - (n - 1)),
        masked_lt a.isLt _ (Nat.sub_le _ _)⟩ "" := by
  have hmod := Nat.mod_eq_of_lt (masked_lt a.isLt (128 - (n - 1)) (Nat.sub_le _ _))
  simp only [Prefix.masked, Prefix.isValid, hn, decide_true, if_true, hmod]

/-- On an accepted prefix, a draw below the bound is added to the start and the
sum is unmapped. -/
theorem randomIPFromPrefix_eq {p : Prefix} (hp : ValidPrefix p)
    (hmapped : p.masked.ip.is4In6 = false) (hbits : p.masked.ip.bitLen = p.ip.bitLen)
    {r : Nat} (hr : r < 2 ^ (p.ip.bitLen - (p.bitsPlusOne - 1)))
    (hsum : p.masked.ip.u128 + r < 2 ^ 128) :
    randomIPFromPrefix p r = .ok (.ok (Addr.v6 ⟨p.masked.ip.u128 + r, hsum⟩ "").unmap) := by
  have hpos := hp.pos
  have hbitsNe : p.bits ≠ -1 := by simp only [Prefix.bits]; omega
  have hle := hp.bits_le
  have hhost : ((p.masked.ip.bitLen : Int) - p.bits).toNat = p.ip.bitLen - (p.bitsPlusOne - 1) := by
    rw [hbits, Prefix.bits]
    omega
  unfold randomIPFromPrefix
  simp only [hmapped, Bool.false_eq_true, if_false, hbitsNe, hhost, Nat.mod_eq_of_lt hr,
    if_neg (Nat.not_le.mpr hsum), addrFromSlice_toBytes hsum]

theorem mapped_add_div {y : Nat} (hy : y < 2 ^ 32) : (mappedBase + y) / 2 ^ 32 = 0xffff := by
  unfold mappedBase
  omega

theorem mapped_add_mod {y : Nat} (hy : y < 2 ^ 32) : (mappedBase + y) % 2 ^ 32 = y := by
  unfold mappedBase
  omega

/-- An IPv4 prefix: the sum stays in `::ffff:0:0/96` and unmaps to the masked
start plus the draw. -/
theorem randomIPFromPrefix_v4 (a : Fin (2 ^ 32)) {n : Nat} (hp : ValidPrefix ⟨.v4 a, n⟩) {r : Nat}
    (hr : r < 2 ^ (32 - (n - 1))) :
    ∃ h, randomIPFromPrefix ⟨.v4 a, n⟩ r =
      .ok (.ok (.v4 ⟨a.val >>> (32 - (n - 1)) <<< (32 - (n - 1)) + r, h⟩)) := by
  have hpos : 0 < n := hp.pos
  have hx := masked_add_lt a.isLt (Nat.sub_le 32 (n - 1)) hr
  have hsum : (Prefix.masked ⟨.v4 a, n⟩).ip.u128 + r < 2 ^ 128 := by
    rw [masked_v4 a hpos]
    simp only [Addr.u128, mappedBase]
    omega
  refine ⟨hx, ?_⟩
  rw [randomIPFromPrefix_eq hp (by rw [masked_v4 a hpos]; rfl) (by rw [masked_v4 a hpos]; rfl) hr hsum]
  simp only [masked_v4 a hpos, Addr.u128, Addr.unmap, Nat.add_assoc, mapped_add_div hx, if_true,
    mapped_add_mod hx]

/-- An IPv6 prefix: the sum is read back as IPv6, and unmapped. -/
theorem randomIPFromPrefix_v6 (a : Fin (2 ^ 128)) (z : String) {n : Nat}
    (hp : ValidPrefix ⟨.v6 a z, n⟩) (hmapped : (Prefix.masked ⟨.v6 a z, n⟩).ip.is4In6 = false)
    {r : Nat} (hr : r < 2 ^ (128 - (n - 1))) :
    ∃ h, randomIPFromPrefix ⟨.v6 a z, n⟩ r =
      .ok (.ok (Addr.v6 ⟨a.val >>> (128 - (n - 1)) <<< (128 - (n - 1)) + r, h⟩ "").unmap) := by
  have hpos : 0 < n := hp.pos
  have hx := masked_add_lt a.isLt (Nat.sub_le 128 (n - 1)) hr
  have hsum : (Prefix.masked ⟨.v6 a z, n⟩).ip.u128 + r < 2 ^ 128 := by
    rw [masked_v6 a z hpos]
    exact hx
  refine ⟨hx, ?_⟩
  rw [randomIPFromPrefix_eq hp hmapped (by rw [masked_v6 a z hpos]; rfl) hr hsum]
  simp only [masked_v6 a z hpos, Addr.u128]

/-- A masked start plus a host number lies in the prefix. -/
theorem contains_masked_add_v4 (a : Fin (2 ^ 32)) {n : Nat} (hpos : 0 < n) {r : Nat}
    (hr : r < 2 ^ (32 - (n - 1))) (h : a.val >>> (32 - (n - 1)) <<< (32 - (n - 1)) + r < 2 ^ 32) :
    Prefix.contains ⟨.v4 a, n⟩ (.v4 ⟨a.val >>> (32 - (n - 1)) <<< (32 - (n - 1)) + r, h⟩) = true := by
  simp [Prefix.contains, Prefix.isValid, Addr.zone, Addr.bitLen, Prefix.famValue, hpos,
    xor_masked_add a.val _ hr]

theorem contains_masked_add_v6 (a : Fin (2 ^ 128)) {n : Nat} (hpos : 0 < n) {r : Nat}
    (hr : r < 2 ^ (128 - (n - 1)))
    (h : a.val >>> (128 - (n - 1)) <<< (128 - (n - 1)) + r < 2 ^ 128) :
    Prefix.contains ⟨.v6 a "", n⟩
      (.v6 ⟨a.val >>> (128 - (n - 1)) <<< (128 - (n - 1)) + r, h⟩ "") = true := by
  simp [Prefix.contains, Prefix.isValid, Addr.zone, Addr.bitLen, Prefix.famValue, Addr.u128, hpos,
    xor_masked_add a.val _ hr]

/-- On a prefix `RandomIPFromPrefix` accepts, a draw below `2 ^ (BitLen - Bits)`
never makes the sum overflow 128 bits. The address returned is the masked start
plus the draw, valid and inside the prefix, for an IPv4 prefix and for an IPv6
prefix whose sum avoids `::ffff:0:0/96`; an IPv6 prefix whose sum falls in that
block gives an IPv4 address, which the prefix does not contain. -/
theorem random_ip_in_prefix (p : Prefix) (hp : ValidPrefix p)
    (hmapped : p.masked.ip.is4In6 = false) (r : Nat)
    (hr : r < 2 ^ (p.ip.bitLen - (p.bitsPlusOne - 1))) :
    p.masked.ip.u128 + r < 2 ^ 128 ∧ ∃ ip, randomIPFromPrefix p r = .ok (.ok ip) ∧
      (p.ip.is4 = true ∨ (p.masked.ip.u128 + r) / 2 ^ 32 ≠ 0xffff →
        ip.isValid = true ∧ p.contains ip = true ∧ ip.u128 = p.masked.ip.u128 + r) ∧
      (p.ip.is6 = true → (p.masked.ip.u128 + r) / 2 ^ 32 = 0xffff →
        ip.is4 = true ∧ p.contains ip = false) := by
  obtain ⟨ip, n⟩ := p
  have hpos : 0 < n := hp.pos
  cases ip with
  | invalid => exact absurd rfl hp.addr
  | v4 a =>
    obtain ⟨hx, hrun⟩ := randomIPFromPrefix_v4 a hp hr
    rw [masked_v4 a hpos]
    refine ⟨?_, _, hrun, fun _ => ⟨rfl, contains_masked_add_v4 a hpos hr hx, ?_⟩, ?_⟩
    · simp only [Addr.u128, mappedBase]
      omega
    · simp only [Addr.u128]
      omega
    · intro h6
      simp [Addr.is6] at h6
  | v6 a z =>
    have hz : z = "" := hp.zone
    subst hz
    obtain ⟨hx, hrun⟩ := randomIPFromPrefix_v6 a "" hp hmapped hr
    rw [masked_v6 a "" hpos]
    simp only [Addr.u128]
    refine ⟨hx, _, hrun, ?_, ?_⟩
    · intro hfam
      have hne := hfam.resolve_left (by simp [Addr.is4])
      simp only [Addr.unmap, hne, if_false]
      exact ⟨rfl, contains_masked_add_v6 a hpos hr hx, trivial⟩
    · intro _ hin
      simp only [Addr.unmap, hin, if_true]
      exact ⟨rfl, by simp [Prefix.contains, Addr.bitLen]⟩

/-- The IPv6 prefix `::/64` covers `::ffff:0:0/96`: the draw `0xffff01020304`
gives the IPv4 address `1.2.3.4`, outside the prefix. -/
theorem wide_v6_prefix_yields_ipv4 :
    ValidPrefix ⟨.v6 0 "", 65⟩ ∧ (Prefix.masked ⟨.v6 0 "", 65⟩).ip.is4In6 = false ∧
      (0xffff01020304 : Nat) < 2 ^ ((Addr.v6 0 "").bitLen - (65 - 1)) ∧
      randomIPFromPrefix ⟨.v6 0 "", 65⟩ 0xffff01020304 = .ok (.ok (.v4 0x01020304)) ∧
      (Addr.v4 0x01020304).is4 = true ∧ Prefix.contains ⟨.v6 0 "", 65⟩ (.v4 0x01020304) = false := by
  have hp : ValidPrefix ⟨.v6 0 "", 65⟩ := ⟨rfl, by decide, rfl, by decide⟩
  obtain ⟨-, ip, hrun, -, hmapped⟩ :=
    random_ip_in_prefix ⟨.v6 0 "", 65⟩ hp (by decide) 0xffff01020304 (by decide)
  have hval : randomIPFromPrefix ⟨.v6 0 "", 65⟩ 0xffff01020304 = .ok (.ok (.v4 0x01020304)) := by
    decide
  have hip : ip = .v4 0x01020304 := by
    rw [hval] at hrun
    exact (Except.ok.inj (Except.ok.inj hrun)).symm
  subst hip
  exact ⟨hp, by decide, by decide, hval, hmapped rfl (by decide)⟩

end Iputils
