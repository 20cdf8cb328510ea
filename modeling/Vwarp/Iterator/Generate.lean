import Vwarp.Iterator.Range

/-!
# Candidate generation of the IP iterator

`NewIterator` and `IpGenerator.Generate`. A configured prefix keeps the
address it was parsed with: `netip.ParsePrefix` does not mask host bits, and
neither `newIPRange` nor `Generate` does. An IPv4 prefix shorter than /24 is
walked /24 by /24 from its address; an IPv6 prefix shorter than /120 is
sampled at 100 random /120 offsets. The walk's loop runs on fuel `2 ^ 24`,
the number of /24 blocks of the IPv4 space. The LCG each range carries is
not read by `Generate` and is not modelled.
-/

namespace Iterator

open Netip GoRuntime ExceptStep

structure IPRange where
  ipPrefix : Prefix
  start : Addr
  size : Nat
  deriving DecidableEq, Repr

def newIPRange (cidr : Prefix) : IPRange :=
  { ipPrefix := cidr, start := cidr.ip, size := ipRangeSize cidr }

structure ScannerOptions where
  useIPv4 : Bool := true
  useIPv6 : Bool := true
  cidrList : List Prefix := []
  bucketSize : Int := 1
  deriving DecidableEq, Repr

structure IpGenerator where
  ipRanges : List IPRange
  opts : ScannerOptions

/-- The swap of positions `i` and `j`. -/
def swap {α : Type} (l : List α) (i j : Nat) : List α :=
  match l[i]?, l[j]? with
  | some a, some b => (l.set i b).set j a
  | _, _ => l

/-- `shuffleSubnetsIpRange`: position `i` is swapped with `draw i mod n`. -/
def shuffleSubnetsIpRange {α : Type} (subnets : List α) (draw : Nat → Nat) : List α :=
  (List.range subnets.length).foldl (fun l i => swap l i (draw i % subnets.length)) subnets

def NewIterator (opts : ScannerOptions) (draw : Nat → Nat) : IpGenerator :=
  let admitted := opts.cidrList.filter fun cidr =>
    !(!opts.useIPv6 && cidr.ip.is6) && !(!opts.useIPv4 && cidr.ip.is4)
  let ipRanges := admitted.map newIPRange
  { ipRanges := if 1 < ipRanges.length then shuffleSubnetsIpRange ipRanges draw else ipRanges,
    opts }

/-- The /24 walk over an IPv4 prefix shorter than /24, from `current`; subnet
`k` draws from `draws k`. Each visited subnet is returned with its addresses. -/
def walk24 (p : Prefix) (subnetSize : Nat) (bucket : Int) (draws : Nat → Nat → Nat → Nat) :
    Nat → Nat → Addr → Except Panic (List (Prefix × List Addr))
  | 0, _, _ => .ok []
  | fuel + 1, k, current =>
    if !p.contains current then .ok []
    else
      let subnet := prefixFrom current 24
      (generateIPsFromRange subnet.ip (ipRangeSize subnet) bucket (draws k)).bind fun ips =>
        (addIP current subnetSize).bind fun nextAddr =>
          if !nextAddr.isValid || nextAddr.compare current != .gt then .ok [(subnet, ips)]
          else (walk24 p subnetSize bucket draws fuel (k + 1) nextAddr).map ((subnet, ips) :: ·)

def sampleSubnetsCount : Nat := 100

/-- The sampling of /120 subnets of an IPv6 prefix shorter than /120; sample
`i` takes its subnet index from `index i` and its offsets from `draws i`. -/
def sampleSubnets (p : Prefix) (bucket : Int) (draws : Nat → Nat → Nat → Nat)
    (index : Nat → Nat) : Nat → Nat → Except Panic (List (Prefix × List Addr))
  | 0, _ => .ok []
  | n + 1, i =>
    let numSubnets := 2 ^ (120 - p.bits).toNat
    let randomIndex := index i % numSubnets
    (addIP p.ip (randomIndex * 2 ^ (128 - 120))).bind fun subnetStartAddr =>
      let subnetPrefix := prefixFrom subnetStartAddr 120
      (generateIPsFromRange subnetPrefix.ip (ipRangeSize subnetPrefix) bucket (draws i)).bind
        fun ips => (sampleSubnets p bucket draws index n (i + 1)).map ((subnetPrefix, ips) :: ·)

/-- The draws of one `Generate`: `offsets r j` for subnet `j` of range `r`,
`subnets r i` for the index of IPv6 sample `i` of range `r`. -/
structure GenerateDraws where
  offsets : Nat → Nat → Nat → Nat → Nat := fun _ _ _ _ => 0
  subnets : Nat → Nat → Nat := fun _ _ => 0

/-- One range of `Generate`, with the subnets it visited. -/
def IPRange.generate (r : IPRange) (bucket : Int) (offsets : Nat → Nat → Nat → Nat)
    (subnets : Nat → Nat) : Except Panic (List (Prefix × List Addr)) :=
  let p := r.ipPrefix
  if p.ip.is4 then
    if 24 ≤ p.bits then (generateIPsFromRange r.start r.size bucket (offsets 0)).map fun ips => [(p, ips)]
    else walk24 p (ipRangeSize (prefixFrom p.ip 24)) bucket offsets (2 ^ 24) 0 p.ip
  else if 120 ≤ p.bits then
    (generateIPsFromRange r.start r.size bucket (offsets 0)).map fun ips => [(p, ips)]
  else sampleSubnets p bucket offsets subnets sampleSubnetsCount 0

def rangesLoop (bucket : Int) (d : GenerateDraws) : Nat → List IPRange → Except Panic (List Addr)
  | _, [] => .ok []
  | ri, r :: rest =>
    (r.generate bucket (d.offsets ri) (d.subnets ri)).bind fun visited =>
      (rangesLoop bucket d (ri + 1) rest).map (visited.flatMap Prod.snd ++ ·)

/-- `IpGenerator.Generate`: a panic, or Go's result and error. -/
def IpGenerator.Generate (g : IpGenerator) (d : GenerateDraws) : Except Panic (Except String (List Addr)) :=
  (rangesLoop g.opts.bucketSize d 0 g.ipRanges).map fun results =>
    if results = [] then .error "no IP ranges configured or no IPs generated" else .ok results

/-- Prefixes with host bits set, as `netip.ParsePrefix` returns them for
`10.0.0.200/24`, `10.0.1.0/23` and `ffff:...:ff01/120`, with one address per
subnet: the first yields `10.0.1.44`, outside the prefix; the /23 walk
visits one /24 where an aligned /23 has two; the last overflows 128 bits in
`addIP`. -/
theorem unmasked_prefix_generate :
    (NewIterator { cidrList := [⟨.v4 0x0a0000c8, 25⟩] } fun _ => 0).Generate
        { offsets := fun _ _ _ _ => 100 } = .ok (.ok [.v4 0x0a00012c]) ∧
      Prefix.contains ⟨.v4 0x0a0000c8, 25⟩ (.v4 0x0a00012c) = false ∧
      ((NewIterator { cidrList := [⟨.v4 0x0a000100, 24⟩] } fun _ => 0).Generate
        { offsets := fun _ _ _ _ => 100 }).map (fun r => r.map List.length) = .ok (.ok 1) ∧
      (NewIterator { cidrList := [⟨.v6 (2 ^ 128 - 255) "", 121⟩] } fun _ => 0).Generate
        { offsets := fun _ _ _ _ => 255 } = .error .bufferTooSmall := by
  refine ⟨?_, ?_, ?_, ?_⟩ <;> decide +kernel

end Iterator
