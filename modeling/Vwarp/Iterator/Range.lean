import Vwarp.GoRuntime
import Vwarp.Netip

/-!
# Address ranges of the IP iterator

`addIP`, `ipRangeSize` and `generateIPsFromRange` of `ipscanner/iterator`.
Big integers are natural numbers. `crypto/rand.Int` does not fail for a
positive bound, so the error paths it guards are not modelled; the draws are
arguments, `draw i k` the raw value behind attempt `k` in segment `i`.
-/

namespace Iterator

open Netip GoRuntime ExceptStep

/-- `addIP`: the 16-byte form plus `num`, which must fit in 16 bytes, read
back and unmapped. -/
def addIP (ip : Addr) (num : Nat) : Except Panic Addr :=
  let sum := ip.u128 + num
  if h : 2 ^ 128 ≤ sum then .error .bufferTooSmall
  else .ok (Addr.v6 ⟨sum, by omega⟩ "").unmap

/-- `ipRangeSize`: `2 ^ (totalBits - bits)`, IPv6 unless the address is IPv4. -/
def ipRangeSize (p : Prefix) : Nat :=
  let totalBits : Int := if p.ip.is4 then 32 else 128
  2 ^ (totalBits - p.bits).toNat

/-- The retry loop of one segment: up to `attempts` draws, the first valid
candidate wins, and IPv4 candidates ending in `.0` or `.255` are refused. -/
def tryAttempts (start : Addr) (segStart segSize : Nat) (draw : Nat → Nat) :
    Nat → Nat → Except Panic (Option Addr)
  | 0, _ => .ok none
  | attempts + 1, k =>
    (addIP start (segStart + draw k % segSize)).bind fun candidateIP =>
      if !candidateIP.isValid then tryAttempts start segStart segSize draw attempts (k + 1)
      else
        match candidateIP with
        | .v4 a =>
          if a.val % 256 ≠ 0 ∧ a.val % 256 ≠ 255 then .ok (some candidateIP)
          else tryAttempts start segStart segSize draw attempts (k + 1)
        | _ => .ok (some candidateIP)

def maxRetries : Nat := 10

/-- The segment loop from segment `i` on; `remaining` segments are left. -/
def segmentLoop (start : Addr) (size count segmentSize : Nat) (draw : Nat → Nat → Nat) :
    Nat → Nat → Except Panic (List Addr)
  | 0, _ => .ok []
  | remaining + 1, i =>
    let segStart := i * segmentSize
    let segEnd := if i = count - 1 then size else segStart + segmentSize
    let rest := segmentLoop start size count segmentSize draw remaining (i + 1)
    if segEnd ≤ segStart then rest
    else
      (tryAttempts start segStart (segEnd - segStart) (draw i) maxRetries 0).bind fun found =>
        rest.map fun ips => found.toList ++ ips

/-- `generateIPsFromRange` on a range with start address `start` and `size`
addresses. -/
def generateIPsFromRange (start : Addr) (size : Nat) (count : Int) (draw : Nat → Nat → Nat) :
    Except Panic (List Addr) :=
  let count : Int := if (size : Int) < count then size else count
  if count = 0 then .ok []
  else segmentLoop start size count.toNat (size / count.toNat) draw count.toNat 0

end Iterator
