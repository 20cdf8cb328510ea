import Vwarp.Lib.BigEndian

/-!
# Addresses of Go's `net/netip` and `net.IP`

An `Addr` of `net/netip` is invalid, IPv4, or IPv6 with a zone. Go stores an
IPv4 address as its IPv4-mapped 128-bit value and tells the families apart by
the zone pointer; here the family is the constructor and the mapped value is
`u128`. `AddrFromSlice` keeps the family the slice length says, so 16 bytes
give an IPv6 address even when they are IPv4-mapped, and only `Unmap` turns
those back into IPv4.

A `net.IP` is a byte slice: 4 bytes, or 16 bytes of which IPv4 addresses
use the mapped form (what `net.IPv4` returns).
-/

namespace Netip

open BigEndian

/-- The 96-bit prefix `::ffff:0:0` of IPv4-mapped addresses. -/
def mappedBase : Nat := 0xffff * 2 ^ 32

/-- `netip.Addr`; the zone of an IPv6 address is `""` when it has none. -/
inductive Addr where
  | invalid
  | v4 (a : Fin (2 ^ 32))
  | v6 (a : Fin (2 ^ 128)) (zone : String)
  deriving DecidableEq, Repr

/-- The bounds of the two families are positive, so a numeral is an address
word; named, a literal carries this proof rather than a copy of its own. -/
instance neZero_pow_32 : NeZero (2 ^ 32 : Nat) := ⟨by decide⟩

instance neZero_pow_128 : NeZero (2 ^ 128 : Nat) := ⟨by decide⟩

namespace Addr

/-- The 128-bit value Go keeps in the `addr` field. -/
def u128 : Addr → Nat
  | invalid => 0
  | v4 a => mappedBase + a.val
  | v6 a _ => a.val

def isValid : Addr → Bool
  | invalid => false
  | _ => true

def is4 : Addr → Bool
  | v4 _ => true
  | _ => false

def is6 : Addr → Bool
  | v6 _ _ => true
  | _ => false

/-- An IPv6 address inside `::ffff:0:0/96`. -/
def is4In6 : Addr → Bool
  | v6 a _ => a.val / 2 ^ 32 = 0xffff
  | _ => false

def bitLen : Addr → Nat
  | invalid => 0
  | v4 _ => 32
  | v6 _ _ => 128

def zone : Addr → String
  | v6 _ z => z
  | _ => ""

/-- `Unmap`: an IPv4-mapped IPv6 address becomes IPv4, its zone dropped. -/
def unmap : Addr → Addr
  | v6 a z => if a.val / 2 ^ 32 = 0xffff then v4 ⟨a.val % 2 ^ 32, Nat.mod_lt _ (by decide)⟩ else v6 a z
  | ip => ip

/-- `As16`: the 16 bytes of the 128-bit value. -/
def as16 (ip : Addr) : List UInt8 := toBytes 16 ip.u128

/-- `As4` on an IPv4 or IPv4-mapped address: its low four bytes. -/
def as4 (ip : Addr) : List UInt8 := toBytes 4 ip.u128

/-- `AsSlice`: nothing, four or sixteen bytes by family. -/
def asSlice : Addr → List UInt8
  | invalid => []
  | v4 a => toBytes 4 a.val
  | v6 a _ => toBytes 16 a.val

end Addr

/-- `AddrFrom4`. -/
def addrFrom4 (bs : List UInt8) : Addr :=
  .v4 ⟨ofBytes bs % 2 ^ 32, Nat.mod_lt _ (by decide)⟩

/-- The 128-bit value of a byte slice, as `AddrFrom16` and `ParseAddr` keep it. -/
theorem ofBytes_mod_lt_v6 (bs : List UInt8) : ofBytes bs % 2 ^ 128 < 2 ^ 128 :=
  Nat.mod_lt _ (by decide)

/-- `AddrFrom16`: always IPv6, without a zone. -/
def addrFrom16 (bs : List UInt8) : Addr :=
  .v6 ⟨ofBytes bs % 2 ^ 128, ofBytes_mod_lt_v6 bs⟩ ""

/-- `AddrFromSlice`: the family follows the length; other lengths fail. -/
def addrFromSlice (bs : List UInt8) : Option Addr :=
  if bs.length = 4 then some (addrFrom4 bs)
  else if bs.length = 16 then some (addrFrom16 bs)
  else none

/-- `netip.AddrPort`. -/
structure AddrPort where
  ip : Addr
  port : UInt16
  deriving DecidableEq, Repr

/-- `Compare`: by family size, then by value, then by zone. -/
def Addr.compare (a b : Addr) : Ordering :=
  (Ord.compare a.bitLen b.bitLen).then
    ((Ord.compare a.u128 b.u128).then (if a.is6 then Ord.compare a.zone b.zone else .eq))

/-- `netip.Prefix`: the address and `bits + 1`, `0` for an invalid prefix. -/
structure Prefix where
  ip : Addr
  bitsPlusOne : Nat
  deriving DecidableEq, Repr

/-- `withoutZone`: an IPv6 address loses its zone. -/
def Addr.withoutZone : Addr → Addr
  | .v6 a _ => .v6 a ""
  | ip => ip

/-- `PrefixFrom`: the address keeps its host bits and loses its zone; the prefix is
invalid (`bitsPlusOne = 0`) for the zero `Addr` and for bits outside
`0 ≤ bits ≤ BitLen`. -/
def prefixFrom (ip : Addr) (bits : Int) : Prefix :=
  ⟨ip.withoutZone, if ip ≠ .invalid ∧ 0 ≤ bits ∧ bits ≤ ip.bitLen then bits.toNat + 1 else 0⟩

namespace Prefix

def isValid (p : Prefix) : Bool := 0 < p.bitsPlusOne

def bits (p : Prefix) : Int := (p.bitsPlusOne : Int) - 1

/-- The address value inside its family: 32 or 128 bits. -/
def famValue : Addr → Nat
  | .v4 a => a.val
  | ip => ip.u128

/-- `Contains`: same family, no zone, and the first `bits` bits agree. -/
def contains (p : Prefix) (ip : Addr) : Bool :=
  p.isValid && ip.zone == "" && p.ip.bitLen != 0 && p.ip.bitLen == ip.bitLen &&
    (famValue p.ip ^^^ famValue ip) >>> (ip.bitLen - (p.bitsPlusOne - 1)) == 0

/-- `Masked`: the host bits of the address cleared. -/
def masked (p : Prefix) : Prefix :=
  if p.isValid then
    match p.ip with
    | .v4 a =>
      let s := 32 - (p.bitsPlusOne - 1)
      ⟨.v4 ⟨a.val >>> s <<< s % 2 ^ 32, Nat.mod_lt _ (by decide)⟩, p.bitsPlusOne⟩
    | .v6 a _ =>
      let s := 128 - (p.bitsPlusOne - 1)
      ⟨.v6 ⟨a.val >>> s <<< s % 2 ^ 128, Nat.mod_lt _ (by decide)⟩ "", p.bitsPlusOne⟩
    | .invalid => ⟨.invalid, 0⟩
  else ⟨.invalid, 0⟩

end Prefix

/-! ## `net.IP` -/

/-- The twelve bytes before an IPv4 address in its mapped form. -/
def v4InV6Prefix : List UInt8 := [0, 0, 0, 0, 0, 0, 0, 0, 0, 0, 0xff, 0xff]

/-- `net.IPv4(a, b, c, d)`: the 16-byte mapped form. -/
def ipv4 (a b c d : UInt8) : List UInt8 := v4InV6Prefix ++ [a, b, c, d]

/-- `IP.To4`: a 4-byte IP, or the last four bytes of a mapped 16-byte one. -/
def to4 (ip : List UInt8) : Option (List UInt8) :=
  if ip.length = 4 then some ip
  else if ip.length = 16 ∧ ip.take 12 = v4InV6Prefix then some (ip.drop 12)
  else none

/-- `IP.To16`. -/
def to16 (ip : List UInt8) : Option (List UInt8) :=
  if ip.length = 4 then some (v4InV6Prefix ++ ip)
  else if ip.length = 16 then some ip
  else none

/-- `IP.Equal`: equal bytes, or equal after mapping a 4-byte side. -/
def ipEqual (x y : List UInt8) : Bool :=
  if x.length = y.length then x == y
  else if x.length = 4 ∧ y.length = 16 then y == v4InV6Prefix ++ x
  else if x.length = 16 ∧ y.length = 4 then x == v4InV6Prefix ++ y
  else false

theorem ofBytes_v4InV6Prefix_append {bs : List UInt8} (h : bs.length = 4) :
    ofBytes (v4InV6Prefix ++ bs) = mappedBase + ofBytes bs := by
  have hbase : ofBytes v4InV6Prefix * 256 ^ 4 = mappedBase := by decide
  rw [ofBytes_append, h, hbase]

/-- The IPv4 header bytes of `net.IPv4` give a mapped IPv6 address. -/
theorem addrFromSlice_ipv4 (a b c d : UInt8) :
    addrFromSlice (ipv4 a b c d) =
      some (.v6 ⟨mappedBase + ofBytes [a, b, c, d], by
        have := ofBytes_lt [a, b, c, d]
        simp only [List.length_cons, List.length_nil] at this
        unfold mappedBase; omega⟩ "") := by
  have hlen : (ipv4 a b c d).length = 16 := rfl
  have hv : ofBytes (ipv4 a b c d) = mappedBase + ofBytes [a, b, c, d] :=
    ofBytes_v4InV6Prefix_append rfl
  have hlt : mappedBase + ofBytes [a, b, c, d] < 2 ^ 128 := by
    have := ofBytes_lt [a, b, c, d]
    simp only [List.length_cons, List.length_nil] at this
    unfold mappedBase; omega
  simp only [addrFromSlice, hlen, addrFrom16, hv, Nat.mod_eq_of_lt hlt]
  rfl

/-- The sixteen bytes of an IPv4-mapped value. -/
theorem toBytes_mapped (a : Fin (2 ^ 32)) :
    toBytes 16 (mappedBase + a.val) = v4InV6Prefix ++ toBytes 4 a.val := by
  have ha := a.isLt
  have hhi : (mappedBase + a.val) / 256 ^ 4 = 0xffff := by unfold mappedBase; omega
  have hlo : (mappedBase + a.val) % 256 ^ 4 = a.val := by unfold mappedBase; omega
  rw [show 16 = 12 + 4 from rfl, toBytes_add, hhi, ← toBytes_mod 4 (mappedBase + a.val), hlo]
  rfl

end Netip
