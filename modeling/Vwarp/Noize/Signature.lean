import Vwarp.Lib.BigEndian
import Vwarp.Lib.ExceptStep
import Vwarp.Lib.GoText
import Vwarp.Cps

/-!
# The MASQUE signature packets

`parseCPSPacket` of the MASQUE obfuscator. It reads the tag language of the
AtomicNoize preflight with two more tags: `<n>`, the nanosecond clock in
8 bytes, and `<x k>`, which XORs every byte produced so far with `byte(k)`.
The error of `strconv.Atoi` is dropped: `<r>` and `<x>` use the value Atoi
returns with it, `0` for text that is not a number and the nearest 64-bit
bound for a number out of range. A `<b>` tag strips a leading `0x` and then a
leading `0X`. The clocks and the random source are arguments, as in the
preflight model; `rand.Read` does not fail.
-/

namespace MasqueNoize

open BigEndian ExceptStep GoText

inductive CpsError where
  | invalidHex (e : HexError)
  deriving DecidableEq, Repr

/-- The clock readings and the random bytes of one call: the k-th tag draws
from `bytes k`. -/
structure CpsDraws where
  unix : Int := 0
  unixNano : Int := 0
  bytes : Nat → Nat → UInt8 := fun _ _ => 0

/-- The hex text of a `<b>` tag: `strings.TrimPrefix` of `0x`, then of `0X`,
then without spaces. -/
def hexData (tagData : List Char) : List Char :=
  let data :=
    match tagData with
    | '0' :: 'x' :: rest => rest
    | _ => tagData
  let data :=
    match data with
    | '0' :: 'X' :: rest => rest
    | _ => data
  data.filter (· ≠ ' ')

/-- The length of an `<r>` tag: Atoi's value, whatever its error, capped at 1000. -/
def randomLength (tagData : List Char) : Int :=
  if tagData = [] then 0 else min (atoi tagData).1 1000

/-- One tag applied to the bytes produced so far; `k` numbers the tag. -/
def tagStep (d : CpsDraws) (k : Nat) (result : List UInt8) (tagType : Char)
    (tagData : List Char) : Except CpsError (List UInt8) :=
  if tagType = 'b' then
    if tagData = [] then .ok result
    else ((hexDecode (hexData tagData)).mapError .invalidHex).map (result ++ ·)
  else if tagType = 'c' then .ok (result ++ toBytes 4 (d.unix.tmod 0xFFFFFFFF % 2 ^ 32).toNat)
  else if tagType = 't' then .ok (result ++ toBytes 4 (d.unix % 2 ^ 32).toNat)
  else if tagType = 'r' then
    let length := randomLength tagData
    .ok (if 0 < length then result ++ (List.range length.toNat).map (d.bytes k) else result)
  else if tagType = 'n' then .ok (result ++ toBytes 8 (d.unixNano % 2 ^ 64).toNat)
  else if tagType = 'x' then
    if tagData = [] then .ok result
    else
      -- byte(key): the low eight bits of the two's complement
      let key := UInt8.ofNat ((atoi tagData).1 % 256).toNat
      .ok (result.map (· ^^^ key))
  else .ok result

/-- The loop over the matches, threading the bytes produced so far. -/
def parseTags (d : CpsDraws) : Nat → List UInt8 → List (Char × List Char) →
    Except CpsError (List UInt8)
  | _, result, [] => .ok result
  | k, result, (tagType, data) :: rest =>
    (tagStep d k result tagType (trimSpace data)).bind fun result => parseTags d (k + 1) result rest

/-- `noize.parseCPSPacket`. -/
def parseCPSPacket (d : CpsDraws) (cps : String) : Except CpsError (List UInt8) :=
  if cps = "" then .ok []
  else parseTags d 0 [] (Cps.findTags ['b', 't', 'c', 'r', 'n', 'x'] cps.toList)

/-- Every tag but `<x>` appends its own bytes to what came before. -/
theorem tagStep_append (d : CpsDraws) (k : Nat) (result : List UInt8) {t : Char} (ht : t ≠ 'x')
    (data : List Char) : tagStep d k result t data = (tagStep d k [] t data).map (result ++ ·) := by
  unfold tagStep
  split_ifs
  all_goals simp_all [Except.map]
  all_goals split <;> simp

/-- Without an `<x>` tag, the bytes already produced are a prefix of the result. -/
theorem parseTags_append (d : CpsDraws) (k : Nat) (result : List UInt8)
    (tags : List (Char × List Char)) (ht : ∀ m ∈ tags, m.1 ≠ 'x') :
    parseTags d k result tags = (parseTags d k [] tags).map (result ++ ·) := by
  induction tags generalizing k result with
  | nil => simp [parseTags]
  | cons m tags ih =>
    obtain ⟨t, data⟩ := m
    obtain ⟨hx, hrest⟩ := List.forall_mem_cons.mp ht
    rw [parseTags, parseTags, tagStep_append d k result hx]
    cases tagStep d k [] t (trimSpace data) with
    | error e => rfl
    | ok bytes =>
      rw [map_ok, bind_ok, bind_ok, ih _ _ hrest, ih _ bytes hrest]
      cases parseTags d (k + 1) [] tags <;> simp [Except.map]

theorem tagStep_r (d : CpsDraws) (k : Nat) (result : List UInt8) (data : List Char) :
    tagStep d k result 'r' data =
      .ok (if 0 < randomLength data then
        result ++ (List.range (randomLength data).toNat).map (d.bytes k) else result) := by
  simp [tagStep]

end MasqueNoize
