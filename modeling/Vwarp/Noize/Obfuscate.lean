import Vwarp.Noize.Config
import Vwarp.Lib.BigEndian

/-!
# The MASQUE packet obfuscator

`Noize.ObfuscateWrite` and the helpers it runs on each outgoing QUIC packet:
QUIC packet-type detection, fragmentation of long Initial packets, padding,
the protocol wrappers and the random delay, together with the junk-packet
generator and junk delay of the handshake sequences, and the
`NoizeUDPConn.WriteToUDP` / `WriteTo` entry points.

The per-destination handshake map is a function from the address key to an
optional state. A goroutine the call starts is an output flag, except the one
that sends the remaining fragments of an Initial packet, whose datagrams are
an output list. Sleeps are returned as durations and never waited for.
-/

namespace MasqueNoize

open BigEndian ExceptStep GoRuntime

/-- Overwrite `junk` from byte `off` on with `bs`, as indexed writes do. -/
def putBytes (junk : List UInt8) (off : Nat) (bs : List UInt8) : List UInt8 :=
  junk.take off ++ bs ++ junk.drop (off + bs.length)

/-- The random values one call consumes: raw draws of `rng` and the bytes of
`crypto/rand`. -/
structure Draws where
  padding : Nat := 0
  header : Nat := 0
  delay : Nat := 0
  bytes : Nat → UInt8 := fun _ => 0

/-- `Noize.addPadding`. -/
def addPadding (c : NoizeConfig) (packet : List UInt8) (d : Draws) : Except Panic (List UInt8) :=
  if c.paddingMax = 0 then .ok packet
  else if packet.length < 16 then .ok packet
  else
    let size : Except Panic Int :=
      if c.randomPadding then
        (intn (wrap64 (wrap64 (c.paddingMax - c.paddingMin) + 1)) d.padding).map
          fun v => wrap64 (c.paddingMin + v)
      else .ok c.paddingMax
    size.bind fun paddingSize =>
      if paddingSize ≤ 0 then .ok packet
      -- the MTU cap of 1200 bytes
      else if 1200 < wrap64 (packet.length + paddingSize) then
        if 1200 - (packet.length : Int) ≤ 0 then .ok packet
        else (makeRandom (1200 - packet.length) d.bytes).map (packet ++ ·)
      else (makeRandom paddingSize d.bytes).map (packet ++ ·)

/-- `Noize.applyProtocolMimic` on a junk packet. -/
def applyProtocolMimic (c : NoizeConfig) (junk : List UInt8) (r : Nat) : List UInt8 :=
  match c.mimicProtocol with
  | "dns" =>
    if 12 ≤ junk.length then putBytes (putBytes junk 0 (toBytes 2 (r % 65536))) 2 [0x01, 0x00]
    else junk
  | "https" | "h3" => if 5 ≤ junk.length then putBytes junk 0 [0x17, 0x03, 0x03] else junk
  | "stun" =>
    if 20 ≤ junk.length then putBytes (putBytes junk 0 [0x00, 0x01]) 4 [0x21, 0x12, 0xA4, 0x42]
    else junk
  | _ => junk

/-- `Noize.generateJunkPacket`: `d.padding` is the size draw, `d.header` the
draw of the DNS mimic. -/
def generateJunkPacket (c : NoizeConfig) (d : Draws) : Except Panic (List UInt8) :=
  if c.jmin = 0 ∧ c.jmax = 0 ∧ c.allowZeroSize then .ok []
  else
    -- an all-zero range without zero-size packets falls back to 40..90
    let minSize : Int := if c.jmin = 0 ∧ c.jmax = 0 then 40 else c.jmin
    let maxSize : Int := if c.jmin = 0 ∧ c.jmax = 0 then 90 else c.jmax
    let minSize := if !c.allowZeroSize ∧ minSize < 1 then 1 else minSize
    let size : Except Panic Int :=
      if maxSize = minSize then .ok minSize
      else if minSize < maxSize then
        (intn (wrap64 (wrap64 (maxSize - minSize) + 1)) d.padding).map fun v => wrap64 (minSize + v)
      else .ok minSize
    size.bind fun size =>
      if size = 0 ∧ c.allowZeroSize then .ok []
      else (makeRandom size d.bytes).map fun junk =>
        if c.mimicProtocol ≠ "" ∧ 10 < size then applyProtocolMimic c junk d.header else junk

/-- `Noize.applyDelay`: the duration slept. -/
def applyDelay (c : NoizeConfig) (r : Nat) : Except Panic Int :=
  if c.randomDelay then
    if c.delayMin < c.delayMax then
      (int63n (wrap64 (c.delayMax - c.delayMin)) r).map fun v => wrap64 (c.delayMin + v)
    else .ok 0
  else if 0 < c.packetDelay then .ok c.packetDelay else .ok 0

/-- `Noize.applyJunkDelay`: the duration slept. -/
def applyJunkDelay (c : NoizeConfig) (r : Nat) : Except Panic Int :=
  if c.junkRandom then
    if 0 < c.junkInterval then int63n (wrap64 (c.junkInterval * 2)) r else .ok 0
  else if 0 < c.junkInterval then .ok c.junkInterval else .ok 0

/-- `uint16(len(packet))`, big-endian. -/
def len16 (packet : List UInt8) : List UInt8 := toBytes 2 (packet.length % 65536)

def wrapDNS (packet : List UInt8) (r : Nat) : List UInt8 :=
  toBytes 2 (r % 65536) ++ [0x01, 0x00, 0x00, 0x01, 0, 0, 0, 0, 0, 0] ++ packet

def wrapHTTPS (packet : List UInt8) : List UInt8 :=
  [0x17, 0x03, 0x03] ++ len16 packet ++ packet

def wrapDTLS (packet : List UInt8) (r : Nat) : List UInt8 :=
  [0x17, 0xfe, 0xfd] ++ toBytes 2 (r % 65536) ++ [0, 0, 0, 0, 0, 0] ++ len16 packet ++ packet

def wrapSTUN (packet : List UInt8) (src : Nat → UInt8) : List UInt8 :=
  [0x00, 0x01] ++ len16 packet ++ [0x21, 0x12, 0xA4, 0x42] ++ (List.range 12).map src ++ packet

/-- `Noize.wrapProtocol`. -/
def wrapProtocol (c : NoizeConfig) (packet : List UInt8) (d : Draws) : List UInt8 :=
  match c.mimicProtocol with
  | "dns" => wrapDNS packet d.header
  | "https" | "h3" => wrapHTTPS packet
  | "dtls" => wrapDTLS packet d.header
  | "stun" => wrapSTUN packet d.bytes
  | _ => packet

inductive QUICPacketType where
  | initial
  | handshake
  | zeroRTT
  | oneRTT
  | retry
  | versionNegotiation
  | unknown
  deriving DecidableEq, Repr

/-- `detectQUICPacketType`: long headers by bits 4-5, anything else is 1-RTT. -/
def detectQUICPacketType : List UInt8 → QUICPacketType
  | [] => .unknown
  | h :: rest =>
    if h &&& 0x80 ≠ 0 then
      if rest.length + 1 < 5 then .unknown
      else match ((h >>> 4) &&& 0x03).toNat with
        | 0 => .initial
        | 1 => .zeroRTT
        | 2 => .handshake
        | _ => .retry
    else .oneRTT

/-- The fragmenting goroutine's loop: `packet[offset:end]` from `offset` on,
one fragment of at most `fs` bytes per round. -/
def fragmentLoop (packet : List UInt8) (fs : Nat) : Nat → Nat → List (List UInt8)
  | 0, _ => []
  | fuel + 1, offset =>
    if offset < packet.length then
      (packet.take (min (offset + fs) packet.length)).drop offset ::
        fragmentLoop packet fs fuel (offset + fs)
    else []

/-- `Noize.fragmentInitialPacket`: the first fragment, returned, and the rest,
sent in the background when the connection is set. -/
def fragmentInitialPacket (c : NoizeConfig) (hasConn : Bool) (packet : List UInt8) :
    List UInt8 × List (List UInt8) :=
  if c.fragmentSize ≤ 0 ∨ packet.length ≤ c.fragmentSize then (packet, [])
  else
    let fs := c.fragmentSize.toNat
    (packet.take fs, if hasConn then fragmentLoop packet fs packet.length fs else [])

/-- `handshakeState`. -/
structure HandshakeState where
  preSent : Bool := false
  duringSent : Bool := false
  postSent : Bool := false
  initialSeen : Bool := false
  deriving DecidableEq, Repr

/-- `Noize`: its configuration, whether `WrapConn` set the connection, and the
handshake map keyed by `addr.String()`. -/
structure Noize (K : Type) where
  config : NoizeConfig
  hasConn : Bool
  hsState : K → Option HandshakeState

/-- What one `ObfuscateWrite` issues. -/
structure Obfuscated where
  datagram : List UInt8
  fragments : List (List UInt8) := []
  preHandshake : Bool := false
  postHandshake : Bool := false
  deriving DecidableEq, Repr

variable {K : Type} [DecidableEq K]

def setState (m : K → Option HandshakeState) (k : K) (st : HandshakeState) :
    K → Option HandshakeState :=
  fun k' => if k' = k then some st else m k'

/-- The first critical section: a destination seen for the first time gets a
state, and the pre-handshake sequence starts. -/
def markFirst (n : Noize K) (key : K) : Noize K × Bool :=
  match n.hsState key with
  | none => ({ n with hsState := setState n.hsState key { initialSeen := true } }, true)
  | some _ => (n, false)

/-- The second critical section: the first 1-RTT packet to a destination
starts the post-handshake junk. -/
def markPost (n : Noize K) (key : K) (packetType : QUICPacketType) : Noize K × Bool :=
  if packetType = .oneRTT then
    match n.hsState key with
    | some st =>
      if !st.postSent then ({ n with hsState := setState n.hsState key { st with postSent := true } }, true)
      else (n, false)
    | none => (n, false)
  else (n, false)

/-- An Initial packet longer than a positive `FragmentSize` is fragmented. -/
def splitsInitial (c : NoizeConfig) (packet : List UInt8) : Prop :=
  detectQUICPacketType packet = .initial ∧ c.fragmentInitial ∧ 0 < c.fragmentSize ∧
    c.fragmentSize < packet.length

instance (c : NoizeConfig) (packet : List UInt8) : Decidable (splitsInitial c packet) :=
  inferInstanceAs (Decidable (_ ∧ _))

/-- Padding, the protocol wrapper and the delay, in that order. -/
def finishPacket (c : NoizeConfig) (packet : List UInt8) (d : Draws) : Except Panic (List UInt8) :=
  (addPadding c packet d).bind fun packet =>
    let packet := if c.mimicProtocol ≠ "" then wrapProtocol c packet d else packet
    (applyDelay c d.delay).map fun _ => packet

/-- `Noize.ObfuscateWrite` to the destination with key `key`. -/
def obfuscateWrite (n : Noize K) (packet : List UInt8) (key : K) (d : Draws) :
    Except Panic (Noize K × Obfuscated) :=
  if packet = [] then .ok (n, ⟨packet, [], false, false⟩)
  else
    let first := markFirst n key
    if splitsInitial first.1.config packet then
      let frags := fragmentInitialPacket first.1.config first.1.hasConn packet
      .ok (first.1, ⟨frags.1, frags.2, first.2, false⟩)
    else
      let post := markPost first.1 key (detectQUICPacketType packet)
      (finishPacket post.1.config packet d).map fun p => (post.1, ⟨p, [], first.2, post.2⟩)

@[simp] theorem markFirst_config (n : Noize K) (key : K) : (markFirst n key).1.config = n.config := by
  unfold markFirst; split <;> rfl

@[simp] theorem markFirst_hasConn (n : Noize K) (key : K) :
    (markFirst n key).1.hasConn = n.hasConn := by
  unfold markFirst; split <;> rfl

@[simp] theorem markPost_config (n : Noize K) (key : K) (t : QUICPacketType) :
    (markPost n key t).1.config = n.config := by
  unfold markPost; split
  · split
    · split <;> rfl
    · rfl
  · rfl

/-- Configurations that the loaders accept make the helpers panic: an inverted
padding range reaches `rng.Intn` with a negative bound on the first 16-byte
packet, a negative junk size reaches `make`, and the delay bounds overflow
into a negative `rng.Int63n` bound. -/
theorem obfuscator_helpers_panic (d : Draws) (r : Nat) :
    obfuscateWrite (K := Nat) ⟨{ paddingMin := 10, paddingMax := 5, randomPadding := true }, true,
        fun _ => none⟩ (0x40 :: List.replicate 15 0) 0 d = .error .intnArgument ∧
    generateJunkPacket { jmin := -1, jmax := -1, allowZeroSize := true } d = .error .makeSliceLen ∧
    applyDelay { randomDelay := true, delayMin := -1, delayMax := 2 ^ 63 - 1 } r =
      .error .int63nArgument ∧
    applyJunkDelay { junkRandom := true, junkInterval := 2 ^ 62 } r = .error .int63nArgument := by
  refine ⟨?_, ?_, ?_, ?_⟩
  · simp +decide [obfuscateWrite, markFirst, markPost, finishPacket, setState, addPadding, wrap64,
      intn]
  · simp [generateJunkPacket, makeRandom]
  · simp [applyDelay, wrap64, int63n]
  · simp [applyJunkDelay, wrap64, int63n]

/-- `NoizeUDPConn`: the obfuscator, absent when `nil`, and the enable flag. -/
structure NoizeUDPConn (K : Type) where
  noize : Option (Noize K)
  enabled : Bool

/-- `WrapUDPConn`: a fresh obfuscator with the connection set, enabled; a nil
configuration is `DefaultConfig`. -/
def wrapUDPConn (config : Option NoizeConfig) : NoizeUDPConn K :=
  ⟨some ⟨config.getD defaultConfig, true, fun _ => none⟩, true⟩

/-- The test of `WriteToUDP` for a configuration that obfuscates nothing. -/
def allDisabled (c : NoizeConfig) : Bool :=
  c.jc = 0 ∧ c.jcBeforeHS = 0 ∧ c.jcAfterI1 = 0 ∧ c.jcDuringHS = 0 ∧ c.jcAfterHS = 0 ∧
    c.paddingMax = 0 ∧ !c.fragmentInitial ∧ c.i1 = "" ∧ c.i2 = ""

/-- `NoizeUDPConn.WriteToUDP`: the new state, the byte count returned with a
nil error (socket writes succeed), and what was issued. -/
def writeToUDP (conn : NoizeUDPConn K) (b : List UInt8) (key : K) (d : Draws) :
    Except Panic (NoizeUDPConn K × Nat × Obfuscated) :=
  match conn.noize with
  | none => .ok (conn, b.length, ⟨b, [], false, false⟩)
  | some n =>
    if !conn.enabled ∨ allDisabled n.config then .ok (conn, b.length, ⟨b, [], false, false⟩)
    else (obfuscateWrite n b key d).map fun (n', out) =>
      ({ conn with noize := some n' }, out.datagram.length, out)

/-- `NoizeUDPConn.WriteTo`: a UDP address (`some key`) goes through
`WriteToUDP`, any other address is written as is. -/
def writeTo (conn : NoizeUDPConn K) (b : List UInt8) (addr : Option K) (d : Draws) :
    Except Panic (NoizeUDPConn K × Nat × Obfuscated) :=
  match addr with
  | some key => writeToUDP conn b key d
  | none => .ok (conn, b.length, ⟨b, [], false, false⟩)

/-- A 16-byte 1-RTT packet through a connection that pads by 8 bytes: the
call reports 24 bytes written. -/
theorem writeToUDP_reports_padded_length (d : Draws) :
    (writeToUDP (wrapUDPConn (K := Nat) (some { paddingMax := 8 })) (0x40 :: List.replicate 15 0) 0
      d).map (·.2.1) = .ok 24 := by
  simp +decide [writeToUDP, wrapUDPConn, obfuscateWrite, markFirst, markPost, finishPacket,
    setState, addPadding, wrap64, makeRandom, applyDelay]

/-! ## Where the packet's bytes go -/

theorem addPadding_extends {c : NoizeConfig} {packet out : List UInt8} {d : Draws}
    (h : addPadding c packet d = .ok out) : ∃ pad, out = packet ++ pad := by
  unfold addPadding at h
  split at h
  · exact ⟨[], by simpa using h.symm⟩
  split at h
  · exact ⟨[], by simpa using h.symm⟩
  obtain ⟨size, -, h⟩ := bind_eq_ok.mp h
  split at h
  · exact ⟨[], by simpa using h.symm⟩
  split at h
  · split at h
    · exact ⟨[], by simpa using h.symm⟩
    · obtain ⟨pad, -, rfl⟩ := map_eq_ok.mp h
      exact ⟨pad, rfl⟩
  · obtain ⟨pad, -, rfl⟩ := map_eq_ok.mp h
    exact ⟨pad, rfl⟩

theorem wrapProtocol_extends (c : NoizeConfig) (packet : List UInt8) (d : Draws) :
    ∃ header, wrapProtocol c packet d = header ++ packet := by
  unfold wrapProtocol
  split
  · exact ⟨_, rfl⟩
  · exact ⟨_, rfl⟩
  · exact ⟨_, rfl⟩
  · exact ⟨_, rfl⟩
  · exact ⟨_, rfl⟩
  · exact ⟨[], rfl⟩

/-- The fragments from `offset` on put the rest of the packet back together,
given one round per `fs` bytes. -/
theorem flatten_fragmentLoop (packet : List UInt8) (fs : Nat) :
    ∀ fuel offset, packet.length ≤ offset + fuel * fs →
      (fragmentLoop packet fs fuel offset).flatten = packet.drop offset := by
  intro fuel
  induction fuel with
  | zero =>
    intro offset h
    simp [fragmentLoop, List.drop_eq_nil_of_le (by omega : packet.length ≤ offset)]
  | succ fuel ih =>
    intro offset h
    simp only [fragmentLoop]
    split
    · rename_i hlt
      rw [List.flatten_cons, ih (offset + fs) (by rw [Nat.succ_mul] at h; omega), List.drop_take]
      by_cases hend : offset + fs ≤ packet.length
      · rw [Nat.min_eq_left hend, Nat.add_sub_cancel_left, ← List.drop_drop, List.take_append_drop]
      · rw [Nat.min_eq_right (by omega), List.drop_eq_nil_of_le (by omega : packet.length ≤ offset + fs),
          List.append_nil, List.take_of_length_le (by simp)]
    · rename_i hge
      simp [List.drop_eq_nil_of_le (by omega : packet.length ≤ offset)]

theorem length_le_of_mem_fragmentLoop (packet : List UInt8) (fs : Nat) :
    ∀ fuel offset f, f ∈ fragmentLoop packet fs fuel offset → f.length ≤ fs := by
  intro fuel
  induction fuel with
  | zero => simp [fragmentLoop]
  | succ fuel ih =>
    intro offset f hf
    simp only [fragmentLoop] at hf
    split at hf
    · rcases List.mem_cons.mp hf with rfl | hf
      · simp only [List.length_drop, List.length_take]
        omega
      · exact ih _ f hf
    · simp at hf

/-- With the connection set, the datagrams issued for a packet hold it as one
contiguous segment, and no fragment exceeds `FragmentSize`. -/
theorem obfuscateWrite_segment {n n' : Noize K} {b : List UInt8} {key : K} {d : Draws}
    {out : Obfuscated} (hconn : n.hasConn = true) (h : obfuscateWrite n b key d = .ok (n', out)) :
    (∃ pre post, out.datagram ++ out.fragments.flatten = pre ++ b ++ post) ∧
      ∀ f ∈ out.fragments, (f.length : Int) ≤ n.config.fragmentSize := by
  unfold obfuscateWrite at h
  split at h
  · simp only [Except.ok.injEq, Prod.mk.injEq] at h
    obtain ⟨-, rfl⟩ := h
    exact ⟨⟨[], [], by simp⟩, by simp⟩
  dsimp only at h
  split at h
  · rename_i hb hsplit
    simp only [markFirst_config, markFirst_hasConn, hconn, Except.ok.injEq, Prod.mk.injEq] at h hsplit
    obtain ⟨-, rfl⟩ := h
    obtain ⟨-, -, hpos, hlong⟩ := hsplit
    have hfs : 0 < n.config.fragmentSize.toNat := by omega
    simp only [fragmentInitialPacket, not_le.mpr hpos, not_le.mpr hlong, or_self, if_false,
      if_true]
    refine ⟨⟨[], [], ?_⟩, fun f hf => ?_⟩
    · rw [flatten_fragmentLoop b _ _ _ (by have := Nat.le_mul_of_pos_right b.length hfs; omega),
        List.take_append_drop]
      simp
    · have := length_le_of_mem_fragmentLoop b _ _ _ f hf
      omega
  · obtain ⟨finished, hfin, h⟩ := map_eq_ok.mp h
    simp only [Prod.mk.injEq] at h
    obtain ⟨-, rfl⟩ := h
    obtain ⟨padded, hpad, hfin⟩ := bind_eq_ok.mp hfin
    obtain ⟨-, -, rfl⟩ := map_eq_ok.mp hfin
    obtain ⟨pad, rfl⟩ := addPadding_extends hpad
    refine ⟨?_, by simp⟩
    split
    · obtain ⟨header, hw⟩ := wrapProtocol_extends n.config (b ++ pad) d
      exact ⟨header, pad, by simp [hw]⟩
    · exact ⟨[], pad, by simp⟩

theorem obfuscateWrite_segment_fragmented :
    let n : Noize Nat := ⟨{ fragmentInitial := true, fragmentSize := 4 }, true, fun _ => none⟩
    let b : List UInt8 := [0xc0, 1, 2, 3, 4, 5, 6, 7, 8, 9]
    let out : Obfuscated := ⟨[0xc0, 1, 2, 3], [[4, 5, 6, 7], [8, 9]], true, false⟩
    n.hasConn = true ∧ obfuscateWrite n b 0 {} = .ok ((markFirst n 0).1, out) ∧
      (∃ pre post, out.datagram ++ out.fragments.flatten = pre ++ b ++ post) ∧
        ∀ f ∈ out.fragments, (f.length : Int) ≤ n.config.fragmentSize := by
  intro n b out
  have h : obfuscateWrite n b 0 {} = .ok ((markFirst n 0).1, out) := rfl
  exact ⟨rfl, h, obfuscateWrite_segment rfl h⟩

end MasqueNoize
