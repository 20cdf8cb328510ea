import Mathlib
import Vwarp.GoRuntime
import Vwarp.Tun.Offload

/-!
# Segmentation of GSO packets read from the TUN device

A read from the TUN device starts with a virtio-net header. For a packet the
kernel left unsegmented (`gsoType` other than `VIRTIO_NET_HDR_GSO_NONE`),
`handleVirtioRead` checks the header against the packet, recomputes the header
length from the transport header, and `gsoSplit` cuts the data into segments of
`gsoSize` bytes, each behind a copy of the headers with its lengths, IPv4 id
and header checksum, TCP sequence number and flags or UDP length rewritten, and
its transport checksum computed. Every segment passes `checksumValid` and, for
IPv4, its header verifies; and the data of the segments, in order, is the data
of the packet.

The Go code indexes the packet without checking its length in three places, and
the model returns those runtime panics: `in[0]` of an empty GSO packet,
`in[10], in[11] = 0, 0` in `gsoSplit` on an IPv4 packet shorter than 12 bytes, and
the slice expressions of `gsoNoneChecksum` and of the pseudo-header's addresses on a
packet too short for them.

The decoding of the virtio-net header, which copies the bytes of the struct in
host order, is not modelled: `handleVirtioRead` takes the header decoded. The
output buffers are taken large enough for every segment.
-/

namespace Tun

open GoRuntime

/-- `virtioNetHdr`. -/
structure VirtioNetHdr where
  flags : UInt8
  gsoType : UInt8
  hdrLen : UInt16
  gsoSize : UInt16
  csumStart : UInt16
  csumOffset : UInt16
  deriving DecidableEq, Repr

/-- `unix.VIRTIO_NET_HDR_F_NEEDS_CSUM`. -/
def virtioNetHdrFNeedsCsum : UInt8 := 1

/-- `unix.VIRTIO_NET_HDR_GSO_NONE`. -/
def virtioNetHdrGsoNone : UInt8 := 0

/-- `unix.VIRTIO_NET_HDR_GSO_TCPV4`. -/
def virtioNetHdrGsoTcpv4 : UInt8 := 1

/-- `unix.VIRTIO_NET_HDR_GSO_TCPV6`. -/
def virtioNetHdrGsoTcpv6 : UInt8 := 4

/-- `unix.VIRTIO_NET_HDR_GSO_UDP_L4`. -/
def virtioNetHdrGsoUdpL4 : UInt8 := 5

/-- `unix.IPPROTO_TCP`. -/
def ipprotoTCP : UInt8 := 6

/-- `unix.IPPROTO_UDP`. -/
def ipprotoUDP : UInt8 := 17

/-- `tcpFlagsOffset`. -/
def tcpFlagsOffset : Nat := 13

/-- `tcpFlagFIN`. -/
def tcpFlagFIN : UInt8 := 0x01

/-- `tcpFlagPSH`. -/
def tcpFlagPSH : UInt8 := 0x08

/-- The transport protocol `gsoSplit` takes from the GSO type. -/
def gsoProtocol (hdr : VirtioNetHdr) : UInt8 :=
  if hdr.gsoType = virtioNetHdrGsoTcpv4 ∨ hdr.gsoType = virtioNetHdrGsoTcpv6 then ipprotoTCP
  else ipprotoUDP

/-- The IP header of segment `i` of `gsoSplit`, after `copy(out, in[:iphLen])`:
IPv6 gets its payload length; IPv4 its id advanced by `i`, its total length and
its header checksum. -/
def segmentIPHeader (ipHdr : List UInt8) (isV6 : Bool) (i iphLen totalLen : Nat) : List UInt8 :=
  if isV6 then putUint16 ipHdr 4 (UInt16.ofNat (totalLen - iphLen))
  else
    let ipHdr := if i > 0 then putUint16 ipHdr 4 (getUint16 ipHdr 4 + UInt16.ofNat i) else ipHdr
    let ipHdr := putUint16 ipHdr 2 (UInt16.ofNat totalLen)
    putUint16 ipHdr 10 (~~~(checksum ipHdr 0))

/-- The transport header of segment `i` of `gsoSplit`, after
`copy(out[hdr.csumStart:hdr.hdrLen], in[hdr.csumStart:hdr.hdrLen])`: TCP gets its
sequence number advanced by `gsoSize * i`, and FIN and PSH cleared but on the last
segment; UDP gets its length. -/
def segmentTransportHeader (tHdr : List UInt8) (hdr : VirtioNetHdr) (protocol : UInt8)
    (firstTCPSeqNum : UInt32) (i segmentDataLen : Nat) (isLast : Bool) : List UInt8 :=
  if protocol = ipprotoTCP then
    let tHdr := putUint32 tHdr 4 (firstTCPSeqNum + (hdr.gsoSize * UInt16.ofNat i).toUInt32)
    if isLast then tHdr
    else tHdr.set tcpFlagsOffset (tHdr.getD tcpFlagsOffset 0 &&& ~~~(tcpFlagFIN ||| tcpFlagPSH))
  else putUint16 tHdr 4 (UInt16.ofNat segmentDataLen + (hdr.hdrLen - hdr.csumStart))

/-- Segment `i` of `gsoSplit`, whose data starts at `nextSegmentDataAt`: the two
headers, the data, and the transport checksum over all but the IP header. -/
def splitSegment (inBuf : List UInt8) (hdr : VirtioNetHdr) (isV6 : Bool) (protocol : UInt8)
    (firstTCPSeqNum : UInt32) (i nextSegmentDataAt : Nat) : List UInt8 :=
  let iphLen := hdr.csumStart.toNat
  let nextSegmentEnd := min (nextSegmentDataAt + hdr.gsoSize.toNat) inBuf.length
  let segmentDataLen := nextSegmentEnd - nextSegmentDataAt
  let totalLen := hdr.hdrLen.toNat + segmentDataLen
  let ipHdr := segmentIPHeader (inBuf.take iphLen) isV6 i iphLen totalLen
  let tHdr := segmentTransportHeader ((inBuf.drop iphLen).take (hdr.hdrLen.toNat - iphLen)) hdr
    protocol firstTCPSeqNum i segmentDataLen (nextSegmentEnd = inBuf.length)
  let out := ipHdr ++ tHdr ++ (inBuf.drop nextSegmentDataAt).take segmentDataLen
  let lenForPseudo := UInt16.ofNat ((hdr.hdrLen - hdr.csumStart).toNat + segmentDataLen)
  let transportCSumNoFold := addrPseudoHeaderSum protocol inBuf isV6 lenForPseudo
  putUint16 out (hdr.csumStart + hdr.csumOffset).toNat
    (~~~(checksum ((out.take totalLen).drop iphLen) transportCSumNoFold))

/-- What `gsoSplit` leaves: the segments written to the output buffers, the count
it returns, and whether it returned `ErrTooManySegments`. -/
structure SplitResult where
  segments : List (List UInt8)
  count : Int
  tooManySegments : Bool
  deriving DecidableEq, Repr

/-- The loop of `gsoSplit` from segment `i` on, with `left` output buffers unused. -/
def splitLoop (inBuf : List UInt8) (hdr : VirtioNetHdr) (isV6 : Bool) (protocol : UInt8)
    (firstTCPSeqNum : UInt32) (i nextSegmentDataAt : Nat) : Nat → SplitResult
  | 0 =>
    if nextSegmentDataAt < inBuf.length then ⟨[], (i : Int) - 1, true⟩ else ⟨[], i, false⟩
  | left + 1 =>
    if nextSegmentDataAt < inBuf.length then
      let rest := splitLoop inBuf hdr isV6 protocol firstTCPSeqNum (i + 1)
        (nextSegmentDataAt + hdr.gsoSize.toNat) left
      { rest with
        segments := splitSegment inBuf hdr isV6 protocol firstTCPSeqNum i nextSegmentDataAt ::
          rest.segments }
    else ⟨[], i, false⟩

/-- `in` with the IPv4 header checksum and the transport checksum cleared, as
`gsoSplit` clears them before it starts. -/
def clearChecksums (inBuf : List UInt8) (hdr : VirtioNetHdr) (isV6 : Bool) : List UInt8 :=
  let inBuf := if isV6 then inBuf else (inBuf.set 10 0).set 11 0
  let transportCsumAt := (hdr.csumStart + hdr.csumOffset).toNat
  (inBuf.set transportCsumAt 0).set (transportCsumAt + 1) 0

/-- `gsoSplit`, into `numOutBuffs` output buffers. It panics at `in[10], in[11] = 0, 0`
on an IPv4 packet shorter than 12 bytes, and, once it has started a segment, at the
slice of the pseudo-header's addresses on a packet shorter than them. Its other index
expressions are in range after the checks `handleVirtioRead` makes. -/
def gsoSplit (inBuf : List UInt8) (hdr : VirtioNetHdr) (numOutBuffs : Nat) (isV6 : Bool) :
    Except Panic SplitResult :=
  if isV6 = false ∧ inBuf.length < 12 then .error .indexOutOfRange
  else if hdr.hdrLen.toNat < inBuf.length ∧ 0 < numOutBuffs ∧ inBuf.length < ipHeaderMin isV6 then
    .error .sliceBoundsOutOfRange
  else
    let inBuf := clearChecksums inBuf hdr isV6
    let firstTCPSeqNum :=
      if gsoProtocol hdr = ipprotoTCP then getUint32 inBuf (hdr.csumStart + 4).toNat else 0
    .ok (splitLoop inBuf hdr isV6 (gsoProtocol hdr) firstTCPSeqNum 0 hdr.hdrLen.toNat numOutBuffs)

/-! ## `handleVirtioRead` -/

/-- The errors of `handleVirtioRead` after the header is decoded. -/
inductive ReadError
  | overflowsBuf (readLen bufLen : Nat)
  | unsupportedGSOType (gsoType : UInt8)
  | ipHeaderVersion (ipVersion gsoType : UInt8)
  | invalidIPVersion (ipVersion : UInt8)
  | packetTooShort
  | tcpHeaderLen (tcpHLen : UInt16)
  | lengthBelowHdrLen (len : Nat) (hdrLen : UInt16)
  | hdrLenBelowCsumStart (hdrLen csumStart : UInt16)
  | csumOffsetBeyond (csumEnd len : Nat)
  deriving DecidableEq, Repr

/-- The text of each error. -/
def ReadError.message : ReadError → String
  | .overflowsBuf readLen bufLen => s!"read len {readLen} overflows bufs element len {bufLen}"
  | .unsupportedGSOType gsoType => s!"unsupported virtio GSO type: {gsoType}"
  | .ipHeaderVersion ipVersion gsoType => s!"ip header version: {ipVersion}, GSO type: {gsoType}"
  | .invalidIPVersion ipVersion => s!"invalid ip header version: {ipVersion}"
  | .packetTooShort => "packet is too short"
  | .tcpHeaderLen tcpHLen => s!"tcp header len is invalid: {tcpHLen}"
  | .lengthBelowHdrLen len hdrLen => s!"length of packet ({len}) < virtioNetHdr.hdrLen ({hdrLen})"
  | .hdrLenBelowCsumStart hdrLen csumStart =>
    s!"virtioNetHdr.hdrLen ({hdrLen}) < virtioNetHdr.csumStart ({csumStart})"
  | .csumOffsetBeyond csumEnd len =>
    s!"end of checksum offset ({csumEnd}) exceeds packet length ({len})"

/-- `in[0] >> 4`, the IP version of a packet that is not empty. -/
def ipVersion (inBuf : List UInt8) : UInt8 := inBuf.headD 0 >>> 4

/-- The `switch ipVersion` of `handleVirtioRead`: the GSO type must fit the version. -/
def checkIPVersion (hdr : VirtioNetHdr) (v : UInt8) : Option ReadError :=
  if v = 4 then
    if hdr.gsoType ≠ virtioNetHdrGsoTcpv4 ∧ hdr.gsoType ≠ virtioNetHdrGsoUdpL4 then
      some (.ipHeaderVersion v hdr.gsoType)
    else none
  else if v = 6 then
    if hdr.gsoType ≠ virtioNetHdrGsoTcpv6 ∧ hdr.gsoType ≠ virtioNetHdrGsoUdpL4 then
      some (.ipHeaderVersion v hdr.gsoType)
    else none
  else some (.invalidIPVersion v)

/-- The header length `handleVirtioRead` computes instead of trusting the kernel's:
`csumStart + 8` for UDP, `csumStart` and the TCP data offset for TCP. -/
def parseHdrLen (hdr : VirtioNetHdr) (inBuf : List UInt8) : Except ReadError UInt16 :=
  if hdr.gsoType = virtioNetHdrGsoUdpL4 then .ok (hdr.csumStart + 8)
  else if inBuf.length ≤ (hdr.csumStart + 12).toNat then .error .packetTooShort
  else
    let tcpHLen := ((inBuf.getD (hdr.csumStart + 12).toNat 0 >>> 4) * 4).toUInt16
    if tcpHLen < 20 ∨ tcpHLen > 60 then .error (.tcpHeaderLen tcpHLen)
    else .ok (hdr.csumStart + tcpHLen)

/-- The checks `handleVirtioRead` makes of a GSO packet; on success the header
with its length recomputed, and whether the packet is IPv6. Reading the version,
`in[0]` panics on an empty packet. -/
def checkGSO (hdr : VirtioNetHdr) (inBuf : List UInt8) :
    Except Panic (Except ReadError (VirtioNetHdr × Bool)) :=
  if hdr.gsoType ≠ virtioNetHdrGsoTcpv4 ∧ hdr.gsoType ≠ virtioNetHdrGsoTcpv6 ∧
      hdr.gsoType ≠ virtioNetHdrGsoUdpL4 then .ok (.error (.unsupportedGSOType hdr.gsoType))
  else if inBuf = [] then .error .indexOutOfRange
  else .ok <|
    match checkIPVersion hdr (ipVersion inBuf) with
    | some e => .error e
    | none =>
      match parseHdrLen hdr inBuf with
      | .error e => .error e
      | .ok hdrLen =>
        let hdr := { hdr with hdrLen := hdrLen }
        if inBuf.length < hdr.hdrLen.toNat then .error (.lengthBelowHdrLen inBuf.length hdr.hdrLen)
        else if hdr.hdrLen < hdr.csumStart then .error (.hdrLenBelowCsumStart hdr.hdrLen hdr.csumStart)
        else
          let cSumAt := (hdr.csumStart + hdr.csumOffset).toNat
          if cSumAt + 1 ≥ inBuf.length then .error (.csumOffsetBeyond (cSumAt + 1) inBuf.length)
          else .ok (hdr, ipVersion inBuf = 6)

/-- `gsoNoneChecksum` with the panics of its slice expressions: `in[cSumAt:]` past the
end of the packet, `binary.BigEndian.Uint16` on fewer than two bytes, and
`in[cSumStart:]` past the end. -/
def gsoNoneChecksumOrPanic (inBuf : List UInt8) (cSumStart cSumOffset : UInt16) :
    Except Panic (List UInt8) :=
  let cSumAt := (cSumStart + cSumOffset).toNat
  if inBuf.length < cSumAt then .error .sliceBoundsOutOfRange
  else if inBuf.length < cSumAt + 2 then .error .indexOutOfRange
  else if inBuf.length < cSumStart.toNat then .error .sliceBoundsOutOfRange
  else .ok (gsoNoneChecksum inBuf cSumStart cSumOffset)

/-- `handleVirtioRead` after the header is decoded, reading into `numBufs` buffers
of which the first has room for `bufLen` bytes: a runtime panic, or what it returns. -/
def handleVirtioRead (hdr : VirtioNetHdr) (inBuf : List UInt8) (numBufs bufLen : Nat) :
    Except Panic (Except ReadError SplitResult) :=
  if hdr.gsoType = virtioNetHdrGsoNone then do
    let inBuf ← if hdr.flags &&& virtioNetHdrFNeedsCsum ≠ 0 then
        gsoNoneChecksumOrPanic inBuf hdr.csumStart hdr.csumOffset
      else pure inBuf
    pure (if inBuf.length > bufLen then .error (.overflowsBuf inBuf.length bufLen)
      else .ok ⟨[inBuf], 1, false⟩)
  else match checkGSO hdr inBuf with
  | .error p => .error p
  | .ok (.error e) => .ok (.error e)
  | .ok (.ok (hdr, isV6)) => (gsoSplit inBuf hdr numBufs isV6).map .ok

/-! ## The headers of a segment -/

@[simp] theorem length_segmentIPHeader (ipHdr : List UInt8) (isV6 : Bool) (i iphLen totalLen : Nat) :
    (segmentIPHeader ipHdr isV6 i iphLen totalLen).length = ipHdr.length := by
  unfold segmentIPHeader
  split
  · simp
  · split <;> simp

@[simp] theorem length_segmentTransportHeader (tHdr : List UInt8) (hdr : VirtioNetHdr)
    (protocol : UInt8) (firstTCPSeqNum : UInt32) (i segmentDataLen : Nat) (isLast : Bool) :
    (segmentTransportHeader tHdr hdr protocol firstTCPSeqNum i segmentDataLen isLast).length =
      tHdr.length := by
  unfold segmentTransportHeader
  split
  · split <;> simp
  · simp

/-- Rewriting the IP header leaves the addresses alone. -/
theorem addrBytes_segmentIPHeader (ipHdr : List UInt8) (isV6 : Bool) (i iphLen totalLen : Nat) :
    addrBytes (segmentIPHeader ipHdr isV6 i iphLen totalLen) isV6 = addrBytes ipHdr isV6 := by
  unfold segmentIPHeader
  cases isV6 with
  | true => exact addrBytes_putUint16_of_lt (by decide)
  | false =>
    simp only [Bool.false_eq_true, if_false]
    rw [addrBytes_putUint16_of_lt (by decide), addrBytes_putUint16_of_lt (by decide)]
    split
    · exact addrBytes_putUint16_of_lt (by decide)
    · rfl

/-- The IPv4 header of a segment verifies, when the header it was copied from had
its checksum cleared. -/
theorem checksum_segmentIPHeader {ipHdr : List UInt8} (h10 : ipHdr[10]? = some 0)
    (h11 : ipHdr[11]? = some 0) (hlen : ipHdr.length < 2 ^ 16) (i iphLen totalLen : Nat) :
    checksum (segmentIPHeader ipHdr false i iphLen totalLen) 0 = 0xffff := by
  set ipHdr₂ := putUint16 (if i > 0 then putUint16 ipHdr 4 (getUint16 ipHdr 4 + UInt16.ofNat i)
    else ipHdr) 2 (UInt16.ofNat totalLen) with hipHdr₂
  have hseg : segmentIPHeader ipHdr false i iphLen totalLen =
      putUint16 ipHdr₂ 10 (~~~(checksum ipHdr₂ 0)) := rfl
  have hfield : ∀ j, 10 ≤ j → ipHdr₂[j]? = ipHdr[j]? := by
    intro j hj
    rw [hipHdr₂, getElem?_putUint16_of_ne (by omega) (by omega)]
    split
    · rw [getElem?_putUint16_of_ne (by omega) (by omega)]
    · rfl
  have hlen₂ : ipHdr₂.length = ipHdr.length := by
    rw [hipHdr₂, length_putUint16]
    split <;> simp
  rw [hseg]
  apply checksum_putUint16_complement (by decide)
  · rw [hfield 10 (by omega)]
    exact h10
  · rw [hfield 11 (by omega)]
    exact h11
  · rw [hlen₂, UInt64.toNat_zero]
    omega
  · rw [hlen₂, UInt64.toNat_zero]
    omega
  · rfl

/-- Rewriting the transport header leaves its checksum field alone. -/
theorem getElem?_segmentTransportHeader {tHdr : List UInt8} {hdr : VirtioNetHdr} {protocol : UInt8}
    {j : Nat} (hj : if protocol = ipprotoTCP then 16 ≤ j else 6 ≤ j) (firstTCPSeqNum : UInt32)
    (i segmentDataLen : Nat) (isLast : Bool) :
    (segmentTransportHeader tHdr hdr protocol firstTCPSeqNum i segmentDataLen isLast)[j]? =
      tHdr[j]? := by
  unfold segmentTransportHeader
  split
  · next htcp =>
    rw [if_pos htcp] at hj
    split
    · exact getElem?_putUint32_of_ne (by omega)
    · rw [List.getElem?_set_ne (by unfold tcpFlagsOffset; omega), getElem?_putUint32_of_ne (by omega)]
  · next hudp =>
    rw [if_neg hudp] at hj
    exact getElem?_putUint16_of_ne (by omega) (by omega)

/-! ## The parts of a segment -/

/-- `nextSegmentEnd - nextSegmentDataAt`: how much data the segment at `d` carries. -/
def segmentDataLen (inBuf : List UInt8) (hdr : VirtioNetHdr) (d : Nat) : Nat :=
  min (d + hdr.gsoSize.toNat) inBuf.length - d

/-- What the transport checksum of the segment at `d` covers: its transport header
and its data. -/
def segmentBody (inBuf : List UInt8) (hdr : VirtioNetHdr) (protocol : UInt8)
    (firstTCPSeqNum : UInt32) (i d : Nat) : List UInt8 :=
  segmentTransportHeader ((inBuf.drop hdr.csumStart.toNat).take
      (hdr.hdrLen.toNat - hdr.csumStart.toNat)) hdr protocol firstTCPSeqNum i
      (segmentDataLen inBuf hdr d) (min (d + hdr.gsoSize.toNat) inBuf.length = inBuf.length) ++
    (inBuf.drop d).take (segmentDataLen inBuf hdr d)

/-- What `gsoSplit` may rely on in the packet it splits: the checksum start is the
IP header length, the checksum offset that of the protocol, the header fits in the
packet and both checksum fields are cleared. -/
structure SplitInput (hdr : VirtioNetHdr) (isV6 : Bool) (protocol : UInt8) (inBuf : List UInt8) :
    Prop where
  ipHeader : ipHeaderMin isV6 ≤ hdr.csumStart.toNat
  csumStart_lt : hdr.csumStart.toNat < 256
  csumOffset : hdr.csumOffset.toNat = if protocol = ipprotoTCP then 16 else 6
  hdrLen : hdr.csumStart.toNat + hdr.csumOffset.toNat + 2 ≤ hdr.hdrLen.toNat
  hdrLen_le : hdr.hdrLen.toNat ≤ inBuf.length
  length_lt : inBuf.length < 2 ^ 16
  csum_zero : inBuf[hdr.csumStart.toNat + hdr.csumOffset.toNat]? = some 0 ∧
    inBuf[hdr.csumStart.toNat + hdr.csumOffset.toNat + 1]? = some 0
  ipCsum_zero : isV6 = false → inBuf[10]? = some 0 ∧ inBuf[11]? = some 0

section Segment

variable {inBuf : List UInt8} {hdr : VirtioNetHdr} {isV6 : Bool} {protocol : UInt8}

theorem SplitInput.csumAt (hin : SplitInput hdr isV6 protocol inBuf) :
    (hdr.csumStart + hdr.csumOffset).toNat = hdr.csumStart.toNat + hdr.csumOffset.toNat := by
  have := hin.hdrLen
  have := hdr.hdrLen.toNat_lt
  rw [UInt16.toNat_add]
  omega

theorem SplitInput.transportHeaderLen (hin : SplitInput hdr isV6 protocol inBuf) :
    (hdr.hdrLen - hdr.csumStart).toNat = hdr.hdrLen.toNat - hdr.csumStart.toNat := by
  have := hin.hdrLen
  rw [UInt16.toNat_sub_of_le]
  rw [UInt16.le_iff_toNat_le]
  omega

theorem segmentDataLen_le (inBuf : List UInt8) (hdr : VirtioNetHdr) (d : Nat) :
    segmentDataLen inBuf hdr d ≤ inBuf.length := by
  rw [segmentDataLen]
  omega

theorem length_segmentData (inBuf : List UInt8) (hdr : VirtioNetHdr) (d : Nat) :
    ((inBuf.drop d).take (segmentDataLen inBuf hdr d)).length = segmentDataLen inBuf hdr d := by
  rw [List.length_take, List.length_drop, segmentDataLen]
  omega

theorem length_segmentBody (hin : SplitInput hdr isV6 protocol inBuf) (firstTCPSeqNum : UInt32)
    (i d : Nat) :
    (segmentBody inBuf hdr protocol firstTCPSeqNum i d).length =
      hdr.hdrLen.toNat - hdr.csumStart.toNat + segmentDataLen inBuf hdr d := by
  have := hin.hdrLen_le
  rw [segmentBody, List.length_append, length_segmentTransportHeader, length_segmentData,
    List.length_take, List.length_drop]
  omega

/-- The checksum field of the body is still cleared. -/
theorem getElem?_segmentBody (hin : SplitInput hdr isV6 protocol inBuf) (firstTCPSeqNum : UInt32)
    (i d : Nat) {j : Nat} (hj : j = hdr.csumOffset.toNat ∨ j = hdr.csumOffset.toNat + 1) :
    (segmentBody inBuf hdr protocol firstTCPSeqNum i d)[j]? = some 0 := by
  have hoff := hin.csumOffset
  have hlen := hin.hdrLen
  have hle := hin.hdrLen_le
  rw [segmentBody, List.getElem?_append_left (by simp; omega),
    getElem?_segmentTransportHeader (by split <;> simp_all <;> omega), List.getElem?_take,
    if_pos (by omega), List.getElem?_drop]
  rcases hj with rfl | rfl
  · exact hin.csum_zero.1
  · exact hin.csum_zero.2

/-- A segment is its IP header followed by its body with the transport checksum
written in. -/
theorem splitSegment_eq (hin : SplitInput hdr isV6 protocol inBuf) (firstTCPSeqNum : UInt32)
    (i d : Nat) :
    splitSegment inBuf hdr isV6 protocol firstTCPSeqNum i d =
      segmentIPHeader (inBuf.take hdr.csumStart.toNat) isV6 i hdr.csumStart.toNat
          (hdr.hdrLen.toNat + segmentDataLen inBuf hdr d) ++
        putUint16 (segmentBody inBuf hdr protocol firstTCPSeqNum i d) hdr.csumOffset.toNat
          (~~~(checksum (segmentBody inBuf hdr protocol firstTCPSeqNum i d)
            (addrPseudoHeaderSum protocol inBuf isV6
              (UInt16.ofNat (segmentBody inBuf hdr protocol firstTCPSeqNum i d).length)))) := by
  have hle := hin.hdrLen_le
  have hlen := hin.hdrLen
  set ipHdr := segmentIPHeader (inBuf.take hdr.csumStart.toNat) isV6 i hdr.csumStart.toNat
    (hdr.hdrLen.toNat + segmentDataLen inBuf hdr d)
  set body := segmentBody inBuf hdr protocol firstTCPSeqNum i d
  have hip : ipHdr.length = hdr.csumStart.toNat := by
    rw [length_segmentIPHeader, List.length_take]
    omega
  have hbody : body.length = hdr.hdrLen.toNat - hdr.csumStart.toNat + segmentDataLen inBuf hdr d :=
    length_segmentBody hin firstTCPSeqNum i d
  have hsplit : splitSegment inBuf hdr isV6 protocol firstTCPSeqNum i d =
      putUint16 (ipHdr ++ body) (hdr.csumStart + hdr.csumOffset).toNat
        (~~~(checksum (((ipHdr ++ body).take (hdr.hdrLen.toNat + segmentDataLen inBuf hdr d)).drop
          hdr.csumStart.toNat) (addrPseudoHeaderSum protocol inBuf isV6
            (UInt16.ofNat ((hdr.hdrLen - hdr.csumStart).toNat + segmentDataLen inBuf hdr d))))) := by
    simp only [splitSegment, List.append_assoc]
    rfl
  have hout : (ipHdr ++ body).take (hdr.hdrLen.toNat + segmentDataLen inBuf hdr d) = ipHdr ++ body := by
    apply List.take_of_length_le
    rw [List.length_append]
    omega
  have hdrop : (ipHdr ++ body).drop hdr.csumStart.toNat = body := by
    rw [← hip, List.drop_left]
  have hpseudo : (hdr.hdrLen - hdr.csumStart).toNat + segmentDataLen inBuf hdr d = body.length := by
    rw [hin.transportHeaderLen, hbody]
  rw [hsplit, hout, hdrop, hpseudo, hin.csumAt, putUint16_append_right (by omega), hip,
    Nat.add_sub_cancel_left]

/-- Every segment passes `checksumValid`. -/
theorem checksumValid_splitSegment (hin : SplitInput hdr isV6 protocol inBuf)
    (firstTCPSeqNum : UInt32) (i d : Nat) :
    checksumValid (splitSegment inBuf hdr isV6 protocol firstTCPSeqNum i d)
      hdr.csumStart.toNat.toUInt8 protocol isV6 = true := by
  have hle := hin.hdrLen_le
  have hlen := hin.hdrLen
  have hmin := hin.ipHeader
  have hstart := hin.csumStart_lt
  rw [splitSegment_eq hin]
  set body := segmentBody inBuf hdr protocol firstTCPSeqNum i d
  set ipHdr := segmentIPHeader (inBuf.take hdr.csumStart.toNat) isV6 i hdr.csumStart.toNat
    (hdr.hdrLen.toNat + segmentDataLen inBuf hdr d)
  have hip : ipHdr.length = hdr.csumStart.toNat := by
    rw [length_segmentIPHeader, List.length_take]
    omega
  have hbody : body.length = hdr.hdrLen.toNat - hdr.csumStart.toNat + segmentDataLen inBuf hdr d :=
    length_segmentBody hin firstTCPSeqNum i d
  have hiph : hdr.csumStart.toNat.toUInt8.toNat = hdr.csumStart.toNat := by
    rw [Nat.toUInt8_eq, UInt8.toNat_ofNat']
    omega
  have hpsum : (addrPseudoHeaderSum protocol inBuf isV6 (UInt16.ofNat body.length)).toNat ≤
      36 * 2 ^ 30 :=
    addrPseudoHeaderSum_le protocol (by omega) (UInt16.ofNat body.length)
  have haddr : addrBytes (ipHdr ++ putUint16 body hdr.csumOffset.toNat (~~~(checksum body
      (addrPseudoHeaderSum protocol inBuf isV6 (UInt16.ofNat body.length))))) isV6 =
      addrBytes inBuf isV6 := by
    rw [addrBytes_append_of_le (by omega), addrBytes_segmentIPHeader, addrBytes_take_of_le hmin]
  have hoff : Even hdr.csumOffset.toNat := by
    rw [hin.csumOffset]
    split <;> decide
  have hfit : (addrPseudoHeaderSum protocol inBuf isV6 (UInt16.ofNat body.length)).toNat +
      body.length * 2 ^ 30 < 2 ^ 64 := by
    have := hin.length_lt
    have := segmentDataLen_le inBuf hdr d
    omega
  rw [checksumValid_iff, hiph, List.length_append, length_putUint16, hip, Nat.add_sub_cancel_left,
    addrPseudoHeaderSum_congr haddr, ← hip, List.drop_left]
  exact checksum_putUint16_complement hoff (getElem?_segmentBody hin firstTCPSeqNum i d (Or.inl rfl))
    (getElem?_segmentBody hin firstTCPSeqNum i d (Or.inr rfl)) hfit hfit rfl

/-- The IPv4 header of every segment verifies. -/
theorem checksum_take_splitSegment (hin : SplitInput hdr false protocol inBuf)
    (firstTCPSeqNum : UInt32) (i d : Nat) :
    checksum ((splitSegment inBuf hdr false protocol firstTCPSeqNum i d).take hdr.csumStart.toNat) 0 =
      0xffff := by
  have hle := hin.hdrLen_le
  have hlen := hin.hdrLen
  have hmin := hin.ipHeader
  rw [splitSegment_eq hin]
  set ipHdr := segmentIPHeader (inBuf.take hdr.csumStart.toNat) false i hdr.csumStart.toNat
    (hdr.hdrLen.toNat + segmentDataLen inBuf hdr d)
  have hip : ipHdr.length = hdr.csumStart.toNat := by
    rw [length_segmentIPHeader, List.length_take]
    omega
  have hmin' : 12 ≤ hdr.csumStart.toNat := by
    have h20 : ipHeaderMin false = 20 := rfl
    omega
  rw [← hip, List.take_left]
  apply checksum_segmentIPHeader
  · rw [List.getElem?_take, if_pos (by omega)]
    exact (hin.ipCsum_zero rfl).1
  · rw [List.getElem?_take, if_pos (by omega)]
    exact (hin.ipCsum_zero rfl).2
  · rw [List.length_take]
    have := hin.length_lt
    omega

/-- After the headers, a segment carries its share of the data. -/
theorem drop_splitSegment (hin : SplitInput hdr isV6 protocol inBuf) (firstTCPSeqNum : UInt32)
    (i d : Nat) :
    (splitSegment inBuf hdr isV6 protocol firstTCPSeqNum i d).drop hdr.hdrLen.toNat =
      (inBuf.drop d).take (segmentDataLen inBuf hdr d) := by
  have hle := hin.hdrLen_le
  have hlen := hin.hdrLen
  rw [splitSegment_eq hin]
  set ipHdr := segmentIPHeader (inBuf.take hdr.csumStart.toNat) isV6 i hdr.csumStart.toNat
    (hdr.hdrLen.toNat + segmentDataLen inBuf hdr d)
  set tHdr := segmentTransportHeader ((inBuf.drop hdr.csumStart.toNat).take
    (hdr.hdrLen.toNat - hdr.csumStart.toNat)) hdr protocol firstTCPSeqNum i
    (segmentDataLen inBuf hdr d) (min (d + hdr.gsoSize.toNat) inBuf.length = inBuf.length)
  have hip : ipHdr.length = hdr.csumStart.toNat := by
    rw [length_segmentIPHeader, List.length_take]
    omega
  have htHdr : tHdr.length = hdr.hdrLen.toNat - hdr.csumStart.toNat := by
    rw [length_segmentTransportHeader, List.length_take, List.length_drop]
    omega
  have hsplit : hdr.hdrLen.toNat = ipHdr.length + tHdr.length := by
    omega
  rw [hsplit, List.drop_append, List.drop_eq_nil_of_le (by omega), List.nil_append,
    Nat.add_sub_cancel_left, drop_putUint16_of_lt (by omega)]
  exact List.drop_left

end Segment

/-! ## The loop -/

section Loop

variable {inBuf : List UInt8} {hdr : VirtioNetHdr} {isV6 : Bool} {protocol : UInt8}
  {firstTCPSeqNum : UInt32}

/-- Every segment the loop writes is a `splitSegment`. -/
theorem mem_splitLoop (left : Nat) :
    ∀ {i d : Nat} {seg : List UInt8},
      seg ∈ (splitLoop inBuf hdr isV6 protocol firstTCPSeqNum i d left).segments →
        ∃ j e, seg = splitSegment inBuf hdr isV6 protocol firstTCPSeqNum j e := by
  induction left with
  | zero =>
    intro i d seg h
    rw [splitLoop] at h
    split at h <;> simp at h
  | succ left ih =>
    intro i d seg h
    rw [splitLoop] at h
    split at h
    · rcases List.mem_cons.mp h with rfl | h
      · exact ⟨i, d, rfl⟩
      · exact ih h
    · simp at h

/-- The data of one segment and what follows it make up the data from `d` on. -/
theorem segmentData_append_drop (inBuf : List UInt8) (hdr : VirtioNetHdr) (d : Nat) :
    (inBuf.drop d).take (segmentDataLen inBuf hdr d) ++ inBuf.drop (d + hdr.gsoSize.toNat) =
      inBuf.drop d := by
  by_cases hfull : d + hdr.gsoSize.toNat ≤ inBuf.length
  · have hlen : segmentDataLen inBuf hdr d = hdr.gsoSize.toNat := by
      rw [segmentDataLen]
      omega
    rw [hlen, ← List.drop_drop, List.take_append_drop]
  · have hrest : (inBuf.drop d).take (segmentDataLen inBuf hdr d) = inBuf.drop d := by
      apply List.take_of_length_le
      rw [List.length_drop, segmentDataLen]
      omega
    have hnil : inBuf.drop (d + hdr.gsoSize.toNat) = [] := List.drop_eq_nil_of_le (by omega)
    rw [hrest, hnil, List.append_nil]

/-- When the buffers suffice, the data of the segments, in order, is the data of the
packet from where the loop started. -/
theorem flatten_splitLoop (hin : SplitInput hdr isV6 protocol inBuf) (left : Nat) :
    ∀ {i d : Nat}, (splitLoop inBuf hdr isV6 protocol firstTCPSeqNum i d left).tooManySegments = false →
      ((splitLoop inBuf hdr isV6 protocol firstTCPSeqNum i d left).segments.map
        (fun seg => seg.drop hdr.hdrLen.toNat)).flatten = inBuf.drop d := by
  induction left with
  | zero =>
    intro i d h
    rw [splitLoop] at h ⊢
    split
    · next hd => rw [if_pos hd] at h; cases h
    · next hd =>
      rw [List.drop_eq_nil_of_le (by omega)]
      rfl
  | succ left ih =>
    intro i d h
    rw [splitLoop] at h ⊢
    split
    · next hd =>
      rw [if_pos hd] at h
      simp only [List.map_cons, List.flatten_cons]
      rw [drop_splitSegment hin, ih h, segmentData_append_drop]
    · next hd =>
      rw [List.drop_eq_nil_of_le (by omega)]
      rfl

end Loop

/-! ## What `handleVirtioRead` checks -/

theorem parseHdrLen_ok {hdr : VirtioNetHdr} {inBuf : List UInt8} {hdrLen : UInt16}
    (h : parseHdrLen hdr inBuf = .ok hdrLen) :
    (hdr.gsoType = virtioNetHdrGsoUdpL4 ∧ hdrLen = hdr.csumStart + 8) ∨
      (hdr.gsoType ≠ virtioNetHdrGsoUdpL4 ∧
        ∃ tcpHLen : UInt16, 20 ≤ tcpHLen ∧ tcpHLen ≤ 60 ∧ hdrLen = hdr.csumStart + tcpHLen) := by
  unfold parseHdrLen at h
  split at h
  · next hudp =>
    cases h
    exact .inl ⟨hudp, rfl⟩
  · next htcp =>
    split at h
    · cases h
    · dsimp only at h
      split at h
      · cases h
      · next hlen =>
        cases h
        rw [not_or] at hlen
        exact .inr ⟨htcp, _, UInt16.not_lt.mp hlen.1, UInt16.not_lt.mp hlen.2, rfl⟩

/-- What a GSO packet that passed the checks of `handleVirtioRead` satisfies. -/
theorem checkGSO_ok {hdr hdr' : VirtioNetHdr} {inBuf : List UInt8} {isV6 : Bool}
    (h : checkGSO hdr inBuf = .ok (.ok (hdr', isV6))) :
    ∃ hdrLen : UInt16, hdr' = { hdr with hdrLen := hdrLen } ∧ parseHdrLen hdr inBuf = .ok hdrLen ∧
      (hdr.gsoType = virtioNetHdrGsoTcpv4 ∨ hdr.gsoType = virtioNetHdrGsoTcpv6 ∨
        hdr.gsoType = virtioNetHdrGsoUdpL4) ∧
      isV6 = decide (ipVersion inBuf = 6) ∧ hdrLen.toNat ≤ inBuf.length ∧
      hdr.csumStart ≤ hdrLen ∧ (hdr.csumStart + hdr.csumOffset).toNat + 1 < inBuf.length := by
  unfold checkGSO at h
  split at h
  · cases h
  · next htype =>
    split at h
    · cases h
    · simp only [Except.ok.injEq] at h
      split at h
      · cases h
      · split at h
        · cases h
        · next hdrLen hparse =>
          split at h
          · cases h
          · next hle =>
            split at h
            · cases h
            · next hstart =>
              split at h
              · cases h
              · next hcsum =>
                cases h
                exact ⟨hdrLen, rfl, hparse, by tauto, rfl, by omega, UInt16.not_lt.mp hstart,
                  by omega⟩

/-- Where it does not panic, `gsoSplit` clears the checksums and runs its loop. -/
theorem gsoSplit_eq_ok {inBuf : List UInt8} {hdr : VirtioNetHdr} {n : Nat} {isV6 : Bool}
    {r : SplitResult} (h : gsoSplit inBuf hdr n isV6 = .ok r) :
    ∃ seq, r = splitLoop (clearChecksums inBuf hdr isV6) hdr isV6 (gsoProtocol hdr) seq 0
      hdr.hdrLen.toNat n := by
  unfold gsoSplit at h
  split at h
  · cases h
  · split at h
    · cases h
    · exact ⟨_, (Except.ok.inj h).symm⟩

/-- A GSO packet that `handleVirtioRead` splits passed its checks, and the segments are
those of `gsoSplit`'s loop. -/
theorem handleVirtioRead_gso {hdr : VirtioNetHdr} {inBuf : List UInt8} {numBufs bufLen : Nat}
    {r : SplitResult} (hread : handleVirtioRead hdr inBuf numBufs bufLen = .ok (.ok r))
    (hgso : hdr.gsoType ≠ virtioNetHdrGsoNone) :
    ∃ hdr' isV6 seq, checkGSO hdr inBuf = .ok (.ok (hdr', isV6)) ∧
      r = splitLoop (clearChecksums inBuf hdr' isV6) hdr' isV6 (gsoProtocol hdr') seq 0
        hdr'.hdrLen.toNat numBufs := by
  unfold handleVirtioRead at hread
  rw [if_neg hgso] at hread
  split at hread
  · cases hread
  · cases hread
  · next hdr' isV6 hcheck =>
    obtain ⟨r', hsplit, hr⟩ := ExceptStep.map_eq_ok.mp hread
    obtain rfl : r' = r := Except.ok.inj hr
    obtain ⟨seq, rfl⟩ := gsoSplit_eq_ok hsplit
    exact ⟨hdr', isV6, seq, hcheck, rfl⟩

/-- `in[0]` of an empty GSO packet of a supported type panics. -/
theorem handleVirtioRead_empty_panics {hdr : VirtioNetHdr} {numBufs bufLen : Nat}
    (hgso : hdr.gsoType ≠ virtioNetHdrGsoNone)
    (htype : hdr.gsoType = virtioNetHdrGsoTcpv4 ∨ hdr.gsoType = virtioNetHdrGsoTcpv6 ∨
      hdr.gsoType = virtioNetHdrGsoUdpL4) :
    handleVirtioRead hdr [] numBufs bufLen = .error .indexOutOfRange := by
  have hcheck : checkGSO hdr [] = .error .indexOutOfRange := by
    unfold checkGSO
    rw [if_neg (by tauto), if_pos rfl]
  simp [handleVirtioRead, hgso, hcheck]

/-- An IPv4 GSO packet shorter than 12 bytes that passes the checks panics in
`gsoSplit`. -/
theorem handleVirtioRead_short_v4_panics {hdr hdr' : VirtioNetHdr} {inBuf : List UInt8}
    {numBufs bufLen : Nat} (hgso : hdr.gsoType ≠ virtioNetHdrGsoNone)
    (hcheck : checkGSO hdr inBuf = .ok (.ok (hdr', false))) (hshort : inBuf.length < 12) :
    handleVirtioRead hdr inBuf numBufs bufLen = .error .indexOutOfRange := by
  have hsplit : gsoSplit inBuf hdr' numBufs false = .error .indexOutOfRange := if_pos ⟨rfl, hshort⟩
  simp [handleVirtioRead, hgso, hcheck, hsplit]

/-- The layout the kernel gives a GSO packet: the checksum offset is that of the
transport protocol, the checksum start is the length of the IP header, which holds
both addresses, and the packet is at most 65535 bytes. -/
structure GsoLayout (hdr : VirtioNetHdr) (inBuf : List UInt8) : Prop where
  csumOffset : hdr.csumOffset.toNat = if gsoProtocol hdr = ipprotoTCP then 16 else 6
  ipHeader : ipHeaderMin (decide (ipVersion inBuf = 6)) ≤ hdr.csumStart.toNat
  csumStart_lt : hdr.csumStart.toNat < 256
  length_lt : inBuf.length < 2 ^ 16

section Read

variable {hdr : VirtioNetHdr} {inBuf : List UInt8} {isV6 : Bool}

@[simp] theorem length_clearChecksums : (clearChecksums inBuf hdr isV6).length = inBuf.length := by
  unfold clearChecksums
  split <;> simp

/-- Clearing the checksums leaves the data alone. -/
theorem drop_clearChecksums {n : Nat} (h10 : 12 ≤ n)
    (hat : (hdr.csumStart + hdr.csumOffset).toNat + 2 ≤ n) :
    (clearChecksums inBuf hdr isV6).drop n = inBuf.drop n := by
  unfold clearChecksums
  rw [List.drop_set_of_lt (by omega), List.drop_set_of_lt (by omega)]
  split
  · rfl
  · rw [List.drop_set_of_lt (by omega), List.drop_set_of_lt (by omega)]

/-- A header that passed the checks, in the kernel's layout, is one `gsoSplit` may
rely on, once the checksums are cleared. -/
theorem splitInput_of_checkGSO {hdrLen : UInt16} (hk : GsoLayout hdr inBuf)
    (hparse : parseHdrLen hdr inBuf = .ok hdrLen) (hle : hdrLen.toNat ≤ inBuf.length)
    (hcsum : (hdr.csumStart + hdr.csumOffset).toNat + 1 < inBuf.length)
    (htype : hdr.gsoType = virtioNetHdrGsoTcpv4 ∨ hdr.gsoType = virtioNetHdrGsoTcpv6 ∨
      hdr.gsoType = virtioNetHdrGsoUdpL4) :
    SplitInput { hdr with hdrLen := hdrLen } (decide (ipVersion inBuf = 6)) (gsoProtocol hdr)
      (clearChecksums inBuf { hdr with hdrLen := hdrLen } (decide (ipVersion inBuf = 6))) := by
  have hoff := hk.csumOffset
  have hstart := hk.csumStart_lt
  have hmin := hk.ipHeader
  have hat : (hdr.csumStart + hdr.csumOffset).toNat = hdr.csumStart.toNat + hdr.csumOffset.toNat := by
    rw [UInt16.toNat_add]
    split at hoff <;> omega
  have h20 : 20 ≤ hdr.csumStart.toNat := by
    have : 20 ≤ ipHeaderMin (decide (ipVersion inBuf = 6)) := by
      unfold ipHeaderMin srcAddrAt addrSize
      split <;> decide
    omega
  refine ⟨hmin, hstart, hoff, ?_, by simpa using hle, by simpa using hk.length_lt, ?_, ?_⟩
  · show hdr.csumStart.toNat + hdr.csumOffset.toNat + 2 ≤ hdrLen.toNat
    rcases parseHdrLen_ok hparse with ⟨hudp, rfl⟩ | ⟨htcp, tcpHLen, hlo, hhi, rfl⟩
    · have hproto : gsoProtocol hdr = ipprotoUDP := by
        simp [gsoProtocol, hudp, virtioNetHdrGsoUdpL4, virtioNetHdrGsoTcpv4, virtioNetHdrGsoTcpv6]
      rw [hproto, if_neg (by decide)] at hoff
      rw [UInt16.toNat_add]
      simp only [UInt16.reduceToNat]
      omega
    · have hproto : gsoProtocol hdr = ipprotoTCP := by
        have : hdr.gsoType = virtioNetHdrGsoTcpv4 ∨ hdr.gsoType = virtioNetHdrGsoTcpv6 := by tauto
        simp [gsoProtocol, this]
      rw [hproto, if_pos rfl] at hoff
      rw [UInt16.le_iff_toNat_le] at hlo hhi
      simp only [UInt16.reduceToNat] at hlo hhi
      rw [UInt16.toNat_add]
      omega
  · show (clearChecksums inBuf _ _)[hdr.csumStart.toNat + hdr.csumOffset.toNat]? = some 0 ∧
      (clearChecksums inBuf _ _)[hdr.csumStart.toNat + hdr.csumOffset.toNat + 1]? = some 0
    unfold clearChecksums
    dsimp only
    rw [hat]
    constructor
    · rw [List.getElem?_set_ne (by omega),
        List.getElem?_set_self (by split <;> (try simp only [List.length_set]) <;> omega)]
    · rw [List.getElem?_set_self (by simp only [List.length_set]; split <;>
        (try simp only [List.length_set]) <;> omega)]
  · intro hv4
    unfold clearChecksums
    dsimp only
    rw [hv4, if_neg (by decide), hat]
    constructor
    · rw [List.getElem?_set_ne (by omega), List.getElem?_set_ne (by omega),
        List.getElem?_set_ne (by omega), List.getElem?_set_self (by omega)]
    · rw [List.getElem?_set_ne (by omega), List.getElem?_set_ne (by omega),
        List.getElem?_set_self (by simp; omega)]

end Read

/-! ## Reading a GSO packet -/

/-- Every segment `handleVirtioRead` cuts a GSO packet into, in the kernel's layout,
passes `checksumValid`, and over IPv4 its header checksum verifies. -/
theorem handleVirtioRead_segments_valid {hdr : VirtioNetHdr} {inBuf : List UInt8}
    {numBufs bufLen : Nat} {r : SplitResult}
    (hread : handleVirtioRead hdr inBuf numBufs bufLen = .ok (.ok r))
    (hgso : hdr.gsoType ≠ virtioNetHdrGsoNone) (hk : GsoLayout hdr inBuf) :
    ∀ seg ∈ r.segments,
      checksumValid seg hdr.csumStart.toNat.toUInt8 (gsoProtocol hdr) (decide (ipVersion inBuf = 6)) =
          true ∧
        (ipVersion inBuf ≠ 6 → checksum (seg.take hdr.csumStart.toNat) 0 = 0xffff) := by
  intro seg hseg
  obtain ⟨hdr', isV6, seq, hcheck, rfl⟩ := handleVirtioRead_gso hread hgso
  obtain ⟨hdrLen, rfl, hparse, htype, rfl, hle, -, hcsum⟩ := checkGSO_ok hcheck
  have hin := splitInput_of_checkGSO hk hparse hle hcsum htype
  obtain ⟨j, e, rfl⟩ := mem_splitLoop _ hseg
  refine ⟨checksumValid_splitSegment hin _ j e, fun hv4 => ?_⟩
  rw [decide_eq_false hv4] at hin ⊢
  exact checksum_take_splitSegment hin _ j e

/-- A UDP packet over IPv4 with four bytes of data, cut into two segments. -/
theorem handleVirtioRead_udp_segments_valid :
    ∃ r, handleVirtioRead ⟨1, 5, 28, 2, 20, 6⟩ [0x45, 0, 0, 32, 0, 1, 0, 0, 0x40, 0x11, 0, 0,
        10, 0, 0, 1, 10, 0, 0, 2, 0x30, 0x39, 0, 0x35, 0, 12, 0, 0, 1, 2, 3, 4] 4 0 = .ok (.ok r) ∧
      ∀ seg ∈ r.segments, checksumValid seg 20 17 false = true ∧ checksum (seg.take 20) 0 = 0xffff := by
  obtain ⟨r, hread⟩ : ∃ r, handleVirtioRead ⟨1, 5, 28, 2, 20, 6⟩ [0x45, 0, 0, 32, 0, 1, 0, 0,
      0x40, 0x11, 0, 0, 10, 0, 0, 1, 10, 0, 0, 2, 0x30, 0x39, 0, 0x35, 0, 12, 0, 0, 1, 2, 3, 4]
      4 0 = .ok (.ok r) := ⟨_, rfl⟩
  refine ⟨r, hread, fun seg hseg => ?_⟩
  obtain ⟨hvalid, hip⟩ := handleVirtioRead_segments_valid hread (by decide)
    ⟨by decide, by decide, by decide, by decide⟩ seg hseg
  exact ⟨hvalid, hip (by decide)⟩

/-- When the buffers suffice, the data of the segments `handleVirtioRead` cuts a GSO
packet into, each after the header length it computed, is in order the data of the
packet. -/
theorem handleVirtioRead_payloads {hdr : VirtioNetHdr} {inBuf : List UInt8}
    {numBufs bufLen : Nat} {r : SplitResult}
    (hread : handleVirtioRead hdr inBuf numBufs bufLen = .ok (.ok r))
    (hgso : hdr.gsoType ≠ virtioNetHdrGsoNone) (hk : GsoLayout hdr inBuf)
    (hall : r.tooManySegments = false) {hdrLen : UInt16} (hlen : parseHdrLen hdr inBuf = .ok hdrLen) :
    (r.segments.map (fun seg => seg.drop hdrLen.toNat)).flatten = inBuf.drop hdrLen.toNat := by
  obtain ⟨hdr', isV6, seq, hcheck, rfl⟩ := handleVirtioRead_gso hread hgso
  obtain ⟨hdrLen', rfl, hparse, htype, rfl, hle, -, hcsum⟩ := checkGSO_ok hcheck
  have hsame : hdrLen' = hdrLen := by
    rw [hparse] at hlen
    cases hlen
    rfl
  subst hsame
  have hin := splitInput_of_checkGSO hk hparse hle hcsum htype
  refine (flatten_splitLoop hin numBufs hall).trans ?_
  have hmin := hin.hdrLen
  have hip := hin.ipHeader
  dsimp only at hmin hip
  have h12 : 12 ≤ ipHeaderMin (decide (ipVersion inBuf = 6)) := by
    unfold ipHeaderMin srcAddrAt addrSize
    split <;> decide
  exact drop_clearChecksums (by dsimp only; omega) (by rw [hin.csumAt]; exact hmin)

/-- The UDP packet of `handleVirtioRead_udp_segments_valid`: its four bytes of data
come back in order from its two segments. -/
theorem handleVirtioRead_udp_payloads :
    ∃ r, handleVirtioRead ⟨1, 5, 28, 2, 20, 6⟩ [0x45, 0, 0, 32, 0, 1, 0, 0, 0x40, 0x11, 0, 0,
        10, 0, 0, 1, 10, 0, 0, 2, 0x30, 0x39, 0, 0x35, 0, 12, 0, 0, 1, 2, 3, 4] 4 0 = .ok (.ok r) ∧
      (r.segments.map (fun seg => seg.drop 28)).flatten = [1, 2, 3, 4] := by
  obtain ⟨r, hread⟩ : ∃ r, handleVirtioRead ⟨1, 5, 28, 2, 20, 6⟩ [0x45, 0, 0, 32, 0, 1, 0, 0,
      0x40, 0x11, 0, 0, 10, 0, 0, 1, 10, 0, 0, 2, 0x30, 0x39, 0, 0x35, 0, 12, 0, 0, 1, 2, 3, 4]
      4 0 = .ok (.ok r) := ⟨_, rfl⟩
  have hall : r.tooManySegments = false := by
    cases hread
    rfl
  exact ⟨r, hread, handleVirtioRead_payloads hread (by decide)
    ⟨by decide, by decide, by decide, by decide⟩ hall (show parseHdrLen _ _ = .ok 28 from rfl)⟩

end Tun
