import Vwarp.Lib.BigEndian
import Vwarp.Lib.ExceptStep
import Vwarp.Lib.GoText
import Vwarp.GoRuntime
import Vwarp.Cps
import Vwarp.Preflight.Config

/-!
# The packets of the AtomicNoize preflight

`parseCPSPacket`, `wrapInIKEv2Header` and `generateJunkPacket` of
`preflightbind`. The clock and the random sources are arguments: a clock tag
reads `unix`, the k-th random tag takes its bytes from `bytes k`, the junk
generator takes one `rng.Intn` draw and a byte source. `rand.Read` does not
fail, so its error paths are not modelled.
-/

namespace Preflight

open BigEndian ExceptStep GoRuntime GoText

inductive CpsError where
  | invalidHex (e : HexError)
  | invalidLength (e : NumError)
  deriving DecidableEq, Repr

structure CpsDraws where
  unix : Int := 0
  bytes : Nat → Nat → UInt8 := fun _ _ => 0

/-- The hex text of a `<b>` tag: without a leading `0x` or `0X`, without spaces. -/
def hexData (tagData : List Char) : List Char :=
  let data :=
    match tagData with
    | '0' :: 'x' :: rest => rest
    | '0' :: 'X' :: rest => rest
    | _ => tagData
  data.filter (· ≠ ' ')

/-- The bytes one tag contributes; `k` numbers the tag. -/
def tagBytes (d : CpsDraws) (k : Nat) (tagType : Char) (tagData : List Char) :
    Except CpsError (List UInt8) :=
  if tagType = 'b' then
    if tagData = [] then .ok [] else (hexDecode (hexData tagData)).mapError .invalidHex
  else if tagType = 'c' then .ok (toBytes 4 (d.unix.tmod 0xFFFFFFFF % 2 ^ 32).toNat)
  else if tagType = 't' then .ok (toBytes 4 (d.unix % 2 ^ 32).toNat)
  else if tagType = 'r' then
    let length : Except CpsError Int :=
      if tagData = [] then .ok 0
      else match atoi tagData with
        | (_, some e) => .error (.invalidLength e)
        | (n, none) => .ok (min n 1000)
    length.map fun length => if 0 < length then (List.range length.toNat).map (d.bytes k) else []
  else .ok []

def parseTags (d : CpsDraws) : Nat → List (Char × List Char) → Except CpsError (List UInt8)
  | _, [] => .ok []
  | k, (tagType, data) :: rest =>
    (tagBytes d k tagType (trimSpace data)).bind fun bytes =>
      (parseTags d (k + 1) rest).map (bytes ++ ·)

/-- `preflightbind.parseCPSPacket`. -/
def parseCPSPacket (d : CpsDraws) (cps : String) : Except CpsError (List UInt8) :=
  if cps = "" then .ok [] else parseTags d 0 (Cps.findTags ['b', 't', 'c', 'r'] cps.toList)

/-- `wrapInIKEv2Header`: the SPIs not taken from the payload come from `spi`. -/
def wrapInIKEv2Header (payload : List UInt8) (spi : Nat → UInt8) : List UInt8 :=
  if payload = [] then payload
  else
    let initiatorSPI := if 8 ≤ payload.length then payload.take 8 else (List.range 8).map spi
    let responderSPI := (List.range 8).map fun i => spi (8 + i)
    initiatorSPI ++ responderSPI ++ [0x21, 0x20, 0x22, 0x08, 0, 0, 0, 0] ++
      toBytes 4 (28 + 24 + payload.length) ++
      [0, 0] ++ toBytes 2 (24 + payload.length) ++
      [0, 0, 0, 0x14, 0x01, 0x01, 0, 0x04] ++
      [0x03, 0, 0, 0x08, 0x01, 0, 0, 0x0c] ++ [0, 0, 0, 0] ++ payload

structure JunkDraw where
  size : Nat := 0
  bytes : Nat → UInt8 := fun _ => 0

/-- The size bounds `generateJunkPacket` settles on when `Jmin` and `Jmax`
are not both zero. -/
def junkBounds (c : AtomicNoizeConfig) : Int × Int :=
  let minSize : Int := if c.jmin = 0 ∧ !c.allowZeroSize then 1 else c.jmin
  let maxSize : Int := if c.jmin = 0 ∧ c.jmax = 0 ∧ !c.allowZeroSize then 1 else c.jmax
  let minSize := if !c.allowZeroSize ∧ minSize < 1 then 1 else minSize
  let maxSize := if !c.allowZeroSize ∧ maxSize < minSize then minSize else maxSize
  (minSize, maxSize)

/-- The size drawn between the bounds. -/
def junkSize (minSize maxSize : Int) (r : Nat) : Except Panic Int :=
  if maxSize = minSize then .ok minSize
  else if minSize < maxSize then
    (intn (wrap64 (wrap64 (maxSize - minSize) + 1)) r).map fun v => wrap64 (minSize + v)
  else .ok minSize

/-- `Bind.generateJunkPacket` for a bind with a configuration. -/
def generateJunkPacket (c : AtomicNoizeConfig) (j : JunkDraw) : Except Panic (List UInt8) :=
  if c.jmin = 0 ∧ c.jmax = 0 then .ok (if c.allowZeroSize then [] else [0])
  else
    (junkSize (junkBounds c).1 (junkBounds c).2 j.size).bind fun size =>
      if size = 0 then .ok (if c.allowZeroSize then [] else [0]) else makeRandom size j.bytes

/-- The framing is a 52-byte header in front of a non-empty payload. -/
theorem wrapInIKEv2Header_eq (payload : List UInt8) (h : payload ≠ []) (spi : Nat → UInt8) :
    ∃ header : List UInt8, header.length = 52 ∧ wrapInIKEv2Header payload spi = header ++ payload := by
  have hspi : (if 8 ≤ payload.length then payload.take 8 else (List.range 8).map spi).length = 8 := by
    split
    · simp [List.length_take]; omega
    · simp
  simp only [wrapInIKEv2Header, if_neg h]
  refine ⟨_, ?_, rfl⟩
  simp [hspi]

theorem junkBounds_nonneg (c : AtomicNoizeConfig) (h0 : 0 ≤ c.jmin) (h1 : c.jmin ≤ c.jmax)
    (h2 : c.jmax ≤ 1400) :
    0 ≤ (junkBounds c).1 ∧ (junkBounds c).2 ≤ 1400 := by
  unfold junkBounds
  constructor <;> split_ifs <;> simp_all <;> omega

theorem junkSize_nonneg {lo hi : Int} (h0 : 0 ≤ lo) (h1 : hi ≤ 1400) (r : Nat) :
    ∃ n, junkSize lo hi r = .ok n ∧ 0 ≤ n := by
  unfold junkSize
  split
  · exact ⟨lo, rfl, h0⟩
  · split
    · next hlt =>
      have hw : wrap64 (hi - lo) = hi - lo := wrap64_of_bounds (by omega) (by omega)
      have hw1 : wrap64 (hi - lo + 1) = hi - lo + 1 := wrap64_of_bounds (by omega) (by omega)
      rw [hw, hw1, intn_ok (by omega)]
      have hv := Int.emod_nonneg (r : Int) (show hi - lo + 1 ≠ 0 by omega)
      have hv' := Int.emod_lt_of_pos (r : Int) (show 0 < hi - lo + 1 by omega)
      refine ⟨_, rfl, ?_⟩
      dsimp only
      rw [wrap64_of_bounds (by omega) (by omega)]
      omega
    · exact ⟨lo, rfl, h0⟩

/-- Junk sizes inside a validated range never reach a panicking call. -/
theorem generateJunkPacket_ok (c : AtomicNoizeConfig) (h0 : 0 ≤ c.jmin) (h1 : c.jmin ≤ c.jmax)
    (h2 : c.jmax ≤ 1400) (j : JunkDraw) : ∃ p, generateJunkPacket c j = .ok p := by
  unfold generateJunkPacket
  split
  · exact ⟨_, rfl⟩
  · obtain ⟨hlo, hhi⟩ := junkBounds_nonneg c h0 h1 h2
    obtain ⟨n, hn, hpos⟩ := junkSize_nonneg hlo hhi j.size
    rw [hn, bind_ok]
    split
    · exact ⟨_, rfl⟩
    · exact ⟨_, makeRandom_ok hpos j.bytes⟩

end Preflight
