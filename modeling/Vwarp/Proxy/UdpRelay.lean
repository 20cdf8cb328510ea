import Vwarp.Proxy.Handshake
import Vwarp.NetText
import Vwarp.GoRuntime

/-!
# The SOCKS5 UDP relay

`Server.embedHandleAssociate` after the association is set up: a loop over
the datagrams `udpConn.ReadFrom` returns, with the state `(sourceAddr,
wantSource, targetAddr, wantTarget, replyPrefix)`. The first sender becomes
the source; the first address a source datagram names (after three bytes the
loop skips: RSV and FRAG) becomes the target. A source datagram naming the
target is sent on without its header; a target datagram goes back to the
source behind `00 00 00` and the target's address, written from the target's
text by `writeAddrWithStr`, in the same 2048-byte array. Senders and targets
are compared by their texts (`UDPAddr.String`, `address.String`).

The loop ends when `ReadFrom` fails, which the end of the datagram list
models; write errors are left out. A run's log lists the datagrams sent before
the loop stopped.
-/

namespace Socks5

open GoIo BigEndian Netip NetText GoText GoRuntime

/-- A Go string of bytes as text, one character a byte. -/
def bytesText (bs : List UInt8) : List Char := bs.map fun b => Char.ofNat b.toNat

/-- `[]byte(s)`. -/
def textBytes (s : List Char) : List UInt8 := s.map fun c => c.toNat.toUInt8

/-- `address.String`: `Address()`, in the IP form when there is an IP. -/
def Address.toText (a : Address) : List Char :=
  if a.ip ≠ [] then joinHostPort (ipString a.ip) (itoa a.port)
  else joinHostPort (bytesText a.name) (itoa a.port)

inductive WriteError where
  | stringTooLong
  | addr (e : NetText.AddrError)
  | atoi (e : NumError)
  | portRange
  deriving DecidableEq, Repr

/-- `writeAddr` of an address: its type, IP or name, and port. -/
def writeAddr (a : Address) : Except WriteError (List UInt8) :=
  let host : Except WriteError (List UInt8) :=
    if a.ip ≠ [] then
      match to4 a.ip with
      | some ip4 => .ok (ipv4Address :: ip4)
      | none =>
        match to16 a.ip with
        | some ip6 => .ok (ipv6Address :: ip6)
        | none => .ok [ipv4Address, 0, 0, 0, 0]
    else if a.name ≠ [] then
      if 255 < a.name.length then .error .stringTooLong
      else .ok (fqdnAddress :: a.name.length.toUInt8 :: a.name)
    else .ok [ipv4Address, 0, 0, 0, 0]
  host.map (· ++ toBytes 2 a.port)

/-- `splitHostPort`: the host and the port number. -/
def splitHostPort (address : List Char) : Except WriteError (List Char × Nat) :=
  match NetText.splitHostPort address with
  | .error e => .error (.addr e)
  | .ok (host, port) =>
    match atoi port with
    | (_, some e) => .error (.atoi e)
    | (n, none) => if n < 0 ∨ 0xffff < n then .error .portRange else .ok (host, n.toNat)

def writeAddrWithStr (addr : List Char) : Except WriteError (List UInt8) :=
  match splitHostPort addr with
  | .error e => .error e
  | .ok (host, port) =>
    match parseIP host with
    | some ip => writeAddr { name := [], ip, port }
    | none => writeAddr { name := textBytes host, ip := [], port }

def maxUdpPacket : Nat := 2048

structure Relay where
  sourceAddr : Option UDPAddr
  wantSource : List Char
  targetAddr : Option UDPAddr
  wantTarget : List Char
  replyPrefix : Option (List UInt8)
  deriving DecidableEq, Repr

def Relay.init : Relay :=
  { sourceAddr := none, wantSource := [], targetAddr := none, wantTarget := [],
    replyPrefix := none }

/-- A datagram `ReadFrom` returns into the 2048-byte buffer: the sender and the
bytes. -/
structure Datagram where
  addr : UDPAddr
  data : List UInt8
  deriving DecidableEq, Repr

inductive Sent where
  | toTarget (addr : UDPAddr) (data : List UInt8)
  | toSource (addr : UDPAddr) (data : List UInt8)
  deriving DecidableEq, Repr

/-- Why the loop stops other than by `ReadFrom` failing. -/
inductive Stop where
  | panic (p : Panic)
  | writeAddr (e : WriteError)
  deriving DecidableEq, Repr

/-- The first sender becomes the source. -/
def Relay.lockSource (r : Relay) (addr : UDPAddr) : Relay :=
  if r.sourceAddr = none then { r with sourceAddr := some addr, wantSource := addr.toText } else r

/-- The first address a source datagram names becomes the target. -/
def Relay.lockTarget (r : Relay) (addr : Address) : Relay :=
  if r.targetAddr = none then
    { r with targetAddr := some ⟨addr.ip, addr.port, []⟩,
             wantTarget := UDPAddr.toText ⟨addr.ip, addr.port, []⟩ }
  else r

/-- The branch for a datagram from the source. -/
def Relay.fromSource (r : Relay) (data : List UInt8) : Relay × Option Sent :=
  if data.length < 3 then (r, none)
  else
    match readAddr bufferRead (data.drop 3) with
    | .error _ => (r, none)
    | .ok (addr, rest) =>
      let r := r.lockTarget addr
      if addr.toText ≠ r.wantTarget then (r, none)
      else
        match r.targetAddr with
        | some t => (r, some (.toTarget t rest))
        | none => (r, none)

/-- The reply header, written once from the target's text. -/
def Relay.reply (r : Relay) : Except Stop (List UInt8) :=
  match r.replyPrefix with
  | some p => .ok p
  | none =>
    match writeAddrWithStr r.wantTarget with
    | .error e => .error (.writeAddr e)
    | .ok bs => .ok ([0, 0, 0] ++ bs)

/-- The branch for a datagram from the target: the two copies into the
2048-byte array panic when the reply does not fit. -/
def Relay.fromTarget (r : Relay) (data : List UInt8) : Except Stop (Relay × Option Sent) :=
  match r.reply with
  | .error e => .error e
  | .ok p =>
    if maxUdpPacket < p.length + data.length then .error (.panic .sliceBoundsOutOfRange)
    else
      match r.sourceAddr with
      | some s => .ok ({ r with replyPrefix := some p }, some (.toSource s (p ++ data)))
      | none => .ok ({ r with replyPrefix := some p }, none)

/-- One iteration of the loop. -/
def Relay.step (r : Relay) (d : Datagram) : Except Stop (Relay × Option Sent) :=
  let r := r.lockSource d.addr
  if r.wantSource = d.addr.toText then .ok (r.fromSource d.data)
  else if r.targetAddr.isSome ∧ r.wantTarget = d.addr.toText then r.fromTarget d.data
  else .ok (r, none)

/-- The loop over a list of datagrams: what it sent, and the state it ended in
or why it stopped. -/
def Relay.run : Relay → List Datagram → List Sent × Except Stop Relay
  | r, [] => ([], .ok r)
  | r, d :: ds =>
    match r.step d with
    | .error e => ([], .error e)
    | .ok (r', out) => (out.toList ++ (r'.run ds).1, (r'.run ds).2)

/-! ## Writing an IPv4 target's address -/

theorem writeAddr_of_to4 {ip p4 : List UInt8} (h4 : to4 ip = some p4) (name : List UInt8) (port : Nat) :
    writeAddr { name, ip, port } = .ok (ipv4Address :: p4 ++ toBytes 2 port) := by
  have hne : ip ≠ [] := by
    rintro rfl
    simp [to4] at h4
  simp [writeAddr, hne, h4]

/-- The reply header the relay writes from an IPv4 target's text is the
target's address as `writeAddr` writes it. -/
theorem writeAddrWithStr_v4 {ip p4 : List UInt8} (h4 : to4 ip = some p4) {port : Nat}
    (hport : port < 65536) :
    writeAddrWithStr (UDPAddr.toText ⟨ip, port, []⟩) = writeAddr { name := [], ip, port } := by
  obtain ⟨a, b, c, d, rfl⟩ : ∃ a b c d, p4 = [a, b, c, d] := by
    match p4, to4_length h4 with
    | [a, b, c, d], _ => exact ⟨a, b, c, d, rfl⟩
  have hsplit : splitHostPort (UDPAddr.toText ⟨ip, port, []⟩) = .ok (string4 [a, b, c, d], port) := by
    have hatoi := atoi_itoa (n := port) (by omega)
    have hle : port ≤ 65535 := by omega
    simp [splitHostPort, udpAddr_toText_v4 h4, splitHostPort_v4, hatoi, hle]
  have hmapped : to4 (v4InV6Prefix ++ [a, b, c, d]) = some [a, b, c, d] := by
    simp [to4, v4InV6Prefix]
  simp only [writeAddrWithStr, hsplit, parseIP_string4]
  rw [writeAddr_of_to4 hmapped, writeAddr_of_to4 h4]

/-! ## The relay's state -/

/-- The texts are those of the locked addresses, and the reply header, once
written, is the target's. -/
structure Relay.Inv (r : Relay) : Prop where
  source_text : ∀ s, r.sourceAddr = some s → r.wantSource = s.toText
  target_text : ∀ t, r.targetAddr = some t → r.wantTarget = t.toText
  prefix_target : r.replyPrefix.isSome → r.targetAddr.isSome
  prefix_eq : ∀ p, r.replyPrefix = some p →
    ∃ bs, writeAddrWithStr r.wantTarget = .ok bs ∧ p = [0, 0, 0] ++ bs

theorem Relay.inv_init : Relay.init.Inv :=
  ⟨by simp [Relay.init], by simp [Relay.init], by simp [Relay.init], by simp [Relay.init]⟩

section Step

variable {r : Relay}

@[simp] theorem lockSource_targetAddr (a : UDPAddr) : (r.lockSource a).targetAddr = r.targetAddr := by
  unfold Relay.lockSource; split <;> rfl

@[simp] theorem lockSource_wantTarget (a : UDPAddr) : (r.lockSource a).wantTarget = r.wantTarget := by
  unfold Relay.lockSource; split <;> rfl

@[simp] theorem lockSource_replyPrefix (a : UDPAddr) :
    (r.lockSource a).replyPrefix = r.replyPrefix := by
  unfold Relay.lockSource; split <;> rfl

/-- After the lock the relay has a source, the one it had if it had one. -/
theorem lockSource_sourceAddr (a : UDPAddr) :
    ∃ s, (r.lockSource a).sourceAddr = some s ∧ ∀ s₀, r.sourceAddr = some s₀ → s = s₀ := by
  unfold Relay.lockSource
  split
  · next h => exact ⟨a, rfl, by simp [h]⟩
  · next h =>
    obtain ⟨s, hs⟩ := Option.ne_none_iff_exists'.mp h
    exact ⟨s, hs, by simp [hs]⟩

theorem lockSource_inv (hr : r.Inv) (a : UDPAddr) : (r.lockSource a).Inv := by
  unfold Relay.lockSource
  split
  · exact ⟨by simp, hr.target_text, hr.prefix_target, hr.prefix_eq⟩
  · exact hr

@[simp] theorem lockTarget_sourceAddr (a : Address) : (r.lockTarget a).sourceAddr = r.sourceAddr := by
  unfold Relay.lockTarget; split <;> rfl

@[simp] theorem lockTarget_wantSource (a : Address) : (r.lockTarget a).wantSource = r.wantSource := by
  unfold Relay.lockTarget; split <;> rfl

@[simp] theorem lockTarget_replyPrefix (a : Address) :
    (r.lockTarget a).replyPrefix = r.replyPrefix := by
  unfold Relay.lockTarget; split <;> rfl

/-- After the lock the relay has a target, the one it had if it had one. -/
theorem lockTarget_targetAddr (a : Address) :
    ∃ t, (r.lockTarget a).targetAddr = some t ∧ ∀ t₀, r.targetAddr = some t₀ → t = t₀ := by
  unfold Relay.lockTarget
  split
  · next h => exact ⟨_, rfl, by simp [h]⟩
  · next h =>
    obtain ⟨t, ht⟩ := Option.ne_none_iff_exists'.mp h
    exact ⟨t, ht, by simp [ht]⟩

theorem lockTarget_inv (hr : r.Inv) (a : Address) : (r.lockTarget a).Inv := by
  unfold Relay.lockTarget
  split
  · next h =>
    have hp : r.replyPrefix = none := by
      cases hrp : r.replyPrefix with
      | none => rfl
      | some p => simpa [h] using hr.prefix_target (by simp [hrp])
    exact ⟨hr.source_text, by simp, by simp, by simp [hp]⟩
  · exact hr

/-- The source branch keeps the source and the reply header, keeps a locked
target, and sends to the target only the bytes after the header of a datagram
naming the target. -/
theorem fromSource_spec (hr : r.Inv) (data : List UInt8) :
    (r.fromSource data).1.sourceAddr = r.sourceAddr ∧
    (r.fromSource data).1.wantSource = r.wantSource ∧
    (r.fromSource data).1.replyPrefix = r.replyPrefix ∧
    (∀ t, r.targetAddr = some t → (r.fromSource data).1.targetAddr = some t) ∧
    (r.fromSource data).1.Inv ∧
    ∀ x, (r.fromSource data).2 = some x → ∃ (t : UDPAddr) (rest hdr : List UInt8) (a : Address),
      x = .toTarget t rest ∧ (r.fromSource data).1.targetAddr = some t ∧
      hdr.length = 3 ∧ a.toText = t.toText ∧ data = hdr ++ a.wire ++ rest := by
  unfold Relay.fromSource
  split
  · exact ⟨rfl, rfl, rfl, fun _ h => h, hr, by simp⟩
  · next hlen =>
    split
    · exact ⟨rfl, rfl, rfl, fun _ h => h, hr, by simp⟩
    · next addr rest hread =>
      have hwire : data.drop 3 = addr.wire ++ rest := (readAddr_ok bufferRead_live trivial hread).1
      have hinv := lockTarget_inv hr addr
      obtain ⟨t, ht, hkeep⟩ := lockTarget_targetAddr (r := r) addr
      have hkeep' : ∀ t₀, r.targetAddr = some t₀ → (r.lockTarget addr).targetAddr = some t₀ :=
        fun t₀ h => by rw [ht, hkeep t₀ h]
      dsimp only
      split
      · exact ⟨by simp, by simp, by simp, hkeep', hinv, by simp⟩
      · next htext =>
        rw [ht]
        refine ⟨by simp, by simp, by simp, hkeep', hinv, ?_⟩
        intro x hx
        simp only [Option.some.injEq] at hx
        subst hx
        refine ⟨t, rest, data.take 3, addr, rfl, ht, by simp; omega, ?_, ?_⟩
        · rw [not_not.mp htext, hinv.target_text t ht]
        · rw [List.append_assoc, ← hwire, List.take_append_drop]

theorem reply_ok (hr : r.Inv) {p : List UInt8} (h : r.reply = .ok p) :
    ∃ bs, writeAddrWithStr r.wantTarget = .ok bs ∧ p = [0, 0, 0] ++ bs := by
  unfold Relay.reply at h
  split at h
  · next p' hp =>
    cases h
    exact hr.prefix_eq _ hp
  · split at h
    · cases h
    · next bs hbs =>
      cases h
      exact ⟨bs, hbs, rfl⟩

/-- The target branch writes the reply header once and sends the datagram
behind it to the source, when the two fit the array. -/
theorem fromTarget_ok {data : List UInt8} {r' : Relay} {out : Option Sent}
    (h : r.fromTarget data = .ok (r', out)) :
    ∃ p, r.reply = .ok p ∧ p.length + data.length ≤ maxUdpPacket ∧
      r' = { r with replyPrefix := some p } ∧
      out = r.sourceAddr.map fun s => .toSource s (p ++ data) := by
  unfold Relay.fromTarget at h
  split at h
  · cases h
  · next p hp =>
    split at h
    · cases h
    · next hfit =>
      refine ⟨p, hp, by omega, ?_⟩
      split at h
      · next s hs =>
        simp only [Except.ok.injEq, Prod.mk.injEq] at h
        obtain ⟨rfl, rfl⟩ := h
        simp [hs]
      · next hs =>
        simp only [Except.ok.injEq, Prod.mk.injEq] at h
        obtain ⟨rfl, rfl⟩ := h
        simp [hs]

/-- With the reply header known, the target branch panics exactly when the
header and the datagram overflow the 2048-byte array. -/
theorem fromTarget_panic {data p : List UInt8} (hp : r.reply = .ok p) :
    r.fromTarget data = .error (.panic .sliceBoundsOutOfRange) ↔
      maxUdpPacket < p.length + data.length := by
  unfold Relay.fromTarget
  rw [hp]
  dsimp only
  split
  · simp [*]
  · next hfit =>
    simp only [hfit, iff_false]
    split <;> simp

theorem step_spec {d : Datagram} {r' : Relay} {out : Option Sent} (hr : r.Inv)
    (h : r.step d = .ok (r', out)) :
    (∀ s, r.sourceAddr = some s → r'.sourceAddr = some s) ∧
      (∀ t, r.targetAddr = some t → r'.targetAddr = some t) ∧ r'.Inv := by
  have h₀ := lockSource_inv hr d.addr
  obtain ⟨s₀, hs₀, hkeep₀⟩ := lockSource_sourceAddr (r := r) d.addr
  have hsrc : ∀ s, r.sourceAddr = some s → (r.lockSource d.addr).sourceAddr = some s :=
    fun s hs => by rw [hs₀, hkeep₀ s hs]
  unfold Relay.step at h
  dsimp only at h
  split at h
  · simp only [Except.ok.injEq] at h
    obtain ⟨hs, -, -, ht, hinv, -⟩ := fromSource_spec h₀ d.data
    rw [h] at hs ht hinv
    exact ⟨fun s h' => hs ▸ hsrc s h', fun t h' => ht t (by simpa using h'), hinv⟩
  · split at h
    · next hcond =>
      obtain ⟨p, hp, -, rfl, -⟩ := fromTarget_ok h
      obtain ⟨bs, hbs, rfl⟩ := reply_ok h₀ hp
      refine ⟨hsrc, fun t h' => by simpa using h', ?_⟩
      exact ⟨h₀.source_text, h₀.target_text, fun _ => hcond.1, by simpa using hbs⟩
    · simp only [Except.ok.injEq, Prod.mk.injEq] at h
      obtain ⟨rfl, -⟩ := h
      exact ⟨hsrc, fun t h' => by simpa using h', h₀⟩

end Step

/-! ## What the relay sends -/

/-- What the relay may send, given the source and the target it locked: to
the target, what follows the three skipped bytes and the address header of a
datagram from the source naming the target; to the source, `00 00 00`, the
target's address and a whole datagram from the target, within the array. -/
def Relayed (src tgt : UDPAddr) (ds : List Datagram) : Sent → Prop
  | .toTarget a data => a = tgt ∧ ∃ d ∈ ds, d.addr.toText = src.toText ∧
      ∃ (hdr : List UInt8) (h : Address), hdr.length = 3 ∧ h.toText = tgt.toText ∧
        d.data = hdr ++ h.wire ++ data
  | .toSource a data => a = src ∧ ∃ d ∈ ds, d.addr.toText = tgt.toText ∧
      d.addr.toText ≠ src.toText ∧ ∃ bs, writeAddrWithStr tgt.toText = .ok bs ∧
        data = [0, 0, 0] ++ bs ++ d.data ∧ data.length ≤ maxUdpPacket

theorem Relayed.mono {src tgt : UDPAddr} {ds ds' : List Datagram} {x : Sent} (hsub : ds ⊆ ds')
    (h : Relayed src tgt ds x) : Relayed src tgt ds' x := by
  cases x with
  | toTarget a data =>
    obtain ⟨ha, d, hd, hrest⟩ := h
    exact ⟨ha, d, hsub hd, hrest⟩
  | toSource a data =>
    obtain ⟨ha, d, hd, hrest⟩ := h
    exact ⟨ha, d, hsub hd, hrest⟩

theorem step_sent {r : Relay} {d : Datagram} {r' : Relay} {x : Sent} {src tgt : UDPAddr}
    (hr : r.Inv) (h : r.step d = .ok (r', some x))
    (hsrc : ∀ s, r'.sourceAddr = some s → s = src) (htgt : ∀ t, r'.targetAddr = some t → t = tgt) :
    Relayed src tgt [d] x := by
  have h₀ := lockSource_inv hr d.addr
  obtain ⟨s₀, hs₀, -⟩ := lockSource_sourceAddr (r := r) d.addr
  unfold Relay.step at h
  dsimp only at h
  split at h
  · next hsame =>
    simp only [Except.ok.injEq] at h
    obtain ⟨hs, -, -, -, -, hout⟩ := fromSource_spec h₀ d.data
    obtain ⟨t, rest, hdr, a, rfl, ht, hlen, htext, hdata⟩ := hout x (by rw [h])
    rw [h] at hs ht
    obtain rfl := hsrc s₀ (by rw [hs, hs₀])
    obtain rfl := htgt t ht
    refine ⟨rfl, d, List.mem_singleton_self _, ?_, hdr, a, hlen, htext, hdata⟩
    rw [← hsame, h₀.source_text _ hs₀]
  · split at h
    · next hne hcond =>
      obtain ⟨p, hp, hfit, rfl, hout⟩ := fromTarget_ok h
      obtain ⟨bs, hbs, rfl⟩ := reply_ok h₀ hp
      rw [hs₀] at hout
      simp only [Option.map_some, Option.some.injEq] at hout
      subst hout
      obtain ⟨t, ht⟩ := Option.isSome_iff_exists.mp hcond.1
      obtain rfl := hsrc s₀ hs₀
      obtain rfl := htgt t ht
      have hlen : ([0, 0, 0] ++ bs ++ d.data).length ≤ maxUdpPacket := by
        simp only [List.length_append] at hfit ⊢
        omega
      refine ⟨rfl, d, List.mem_singleton_self _, ?_, ?_, bs, ?_, by simp, hlen⟩
      · rw [← hcond.2, h₀.target_text _ ht]
      · rw [← h₀.source_text _ hs₀]
        exact Ne.symm hne
      · rw [← h₀.target_text _ ht]
        exact hbs
    · simp at h

/-- The source and target a relay state has locked, if any. -/
theorem exists_locks (r : Relay) : ∃ src tgt : UDPAddr,
    (∀ s, r.sourceAddr = some s → s = src) ∧ (∀ t, r.targetAddr = some t → t = tgt) :=
  ⟨r.sourceAddr.getD ⟨[], 0, []⟩, r.targetAddr.getD ⟨[], 0, []⟩,
    fun s hs => by rw [hs]; rfl, fun t ht => by rw [ht]; rfl⟩

/-- Over any run, everything the relay sends goes to one source and one
target, as `Relayed` says; the locks of the state the run starts from are
among them. -/
theorem run_relayed (r : Relay) (hr : r.Inv) (ds : List Datagram) :
    ∃ src tgt : UDPAddr, (∀ s, r.sourceAddr = some s → s = src) ∧
      (∀ t, r.targetAddr = some t → t = tgt) ∧ ∀ x ∈ (r.run ds).1, Relayed src tgt ds x := by
  induction ds generalizing r with
  | nil =>
    obtain ⟨src, tgt, hs, ht⟩ := exists_locks r
    exact ⟨src, tgt, hs, ht, by simp [Relay.run]⟩
  | cons d ds ih =>
    cases hstep : r.step d with
    | error e =>
      obtain ⟨src, tgt, hs, ht⟩ := exists_locks r
      exact ⟨src, tgt, hs, ht, by simp [Relay.run, hstep]⟩
    | ok res =>
      obtain ⟨r', out⟩ := res
      obtain ⟨hks, hkt, hinv⟩ := step_spec hr hstep
      obtain ⟨src, tgt, hs, ht, hrun⟩ := ih r' hinv
      refine ⟨src, tgt, fun s h => hs s (hks s h), fun t h => ht t (hkt t h), ?_⟩
      intro x hx
      simp only [Relay.run, hstep, List.mem_append, Option.mem_toList] at hx
      rcases hx with hx | hx
      · exact (step_sent hr (hx ▸ hstep) hs ht).mono (by simp)
      · exact (hrun x hx).mono (List.subset_cons_self _ _)

theorem run_relayed_loopback :
    let ds : List Datagram := [⟨⟨[127, 0, 0, 1], 40000, []⟩, [0, 0, 0, 1, 1, 2, 3, 4, 0, 53, 7]⟩,
      ⟨⟨[1, 2, 3, 4], 53, []⟩, [9]⟩]
    Relay.init.Inv ∧ ∃ src tgt : UDPAddr, (∀ s, Relay.init.sourceAddr = some s → s = src) ∧
      (∀ t, Relay.init.targetAddr = some t → t = tgt) ∧
        ∀ x ∈ (Relay.init.run ds).1, Relayed src tgt ds x :=
  ⟨Relay.inv_init, run_relayed _ Relay.inv_init _⟩

/-! ## Forwarding and the reply overflow -/

theorem lockSource_of_some {r : Relay} {s : UDPAddr} (hs : r.sourceAddr = some s) (a : UDPAddr) :
    r.lockSource a = r := by
  simp [Relay.lockSource, hs]

theorem lockTarget_of_some {r : Relay} {t : UDPAddr} (ht : r.targetAddr = some t) (a : Address) :
    r.lockTarget a = r := by
  simp [Relay.lockTarget, ht]

/-- Every datagram from the locked source that names the locked target is sent
on, whatever its first three bytes: the FRAG byte is never read. -/
theorem step_forwards {r : Relay} {d : Datagram} {s t : UDPAddr} {hdr payload : List UInt8}
    {a : Address} (hr : r.Inv) (hs : r.sourceAddr = some s) (ht : r.targetAddr = some t)
    (hfrom : d.addr.toText = s.toText) (hhdr : hdr.length = 3) (ha : a.Valid)
    (hto : a.toText = t.toText) (hd : d.data = hdr ++ a.wire ++ payload) :
    r.step d = .ok (r, some (.toTarget t payload)) := by
  obtain ⟨s', hread, hs', -⟩ := readAddr_wire bufferRead_live trivial ha (t := payload)
    (s := a.wire ++ payload) rfl
  have hdrop : d.data.drop 3 = a.wire ++ payload := by simp [hd, ← hhdr]
  have hlen : ¬d.data.length < 3 := by simp [hd, hhdr]
  have hsrc : r.wantSource = d.addr.toText := by rw [hfrom, hr.source_text s hs]
  have htext : a.toText = r.wantTarget := by rw [hto, hr.target_text t ht]
  simp only [id] at hs'
  subst hs'
  simp [Relay.step, lockSource_of_some hs, hsrc, Relay.fromSource, hlen, hdrop, hread,
    lockTarget_of_some ht, htext, ht]

theorem step_forwards_nonzero_frag :
    let client : UDPAddr := ⟨[127, 0, 0, 1], 40000, []⟩
    let a : Address := ⟨[], [1, 2, 3, 4], 53⟩
    let r := (Relay.init.lockSource client).lockTarget a
    r.Inv ∧ r.sourceAddr = some client ∧ r.targetAddr = some ⟨[1, 2, 3, 4], 53, []⟩ ∧ a.Valid ∧
      r.step ⟨client, [0, 0, 5] ++ a.wire ++ [7, 8]⟩ =
        .ok (r, some (.toTarget ⟨[1, 2, 3, 4], 53, []⟩ [7, 8])) := by
  intro client a r
  have hr : r.Inv := lockTarget_inv (lockSource_inv Relay.inv_init client) a
  have ha : a.Valid := ⟨by decide, .inl ⟨rfl, .inl rfl⟩⟩
  exact ⟨hr, rfl, rfl, ha, step_forwards hr rfl rfl rfl rfl ha rfl rfl⟩

/-- A datagram from the target, while the source is another address, goes
into the 2048-byte array behind the reply header; the copy panics when the two
do not fit. -/
theorem step_reply_panics {r : Relay} {d : Datagram} {s t : UDPAddr} {p : List UInt8}
    (hr : r.Inv) (hs : r.sourceAddr = some s) (ht : r.targetAddr = some t)
    (hfrom : d.addr.toText = t.toText) (hne : d.addr.toText ≠ s.toText) (hp : r.reply = .ok p)
    (hlen : maxUdpPacket < p.length + d.data.length) :
    r.step d = .error (.panic .sliceBoundsOutOfRange) := by
  have hsrc : ¬r.wantSource = d.addr.toText := by
    rw [hr.source_text s hs]
    exact Ne.symm hne
  have htgt : r.targetAddr.isSome ∧ r.wantTarget = d.addr.toText := by
    rw [ht, hr.target_text t ht, hfrom]
    simp
  simp only [Relay.step, lockSource_of_some hs, hsrc, if_false, htgt, and_self, if_true]
  exact (fromTarget_panic hp).mpr hlen

/-- The reply header for an IPv4 target: `00 00 00`, type 1, the four bytes and
the port, ten bytes. -/
theorem reply_v4 {r : Relay} {ip p4 : List UInt8} {port : Nat} (hr : r.Inv)
    (ht : r.targetAddr = some ⟨ip, port, []⟩) (h4 : to4 ip = some p4) (hport : port < 65536) :
    r.reply = .ok ([0, 0, 0] ++ ipv4Address :: p4 ++ toBytes 2 port) := by
  have hw : writeAddrWithStr r.wantTarget = .ok (ipv4Address :: p4 ++ toBytes 2 port) := by
    rw [hr.target_text _ ht, writeAddrWithStr_v4 h4 hport, writeAddr_of_to4 h4]
  unfold Relay.reply
  split
  · next p hp =>
    obtain ⟨bs, hbs, rfl⟩ := hr.prefix_eq p hp
    rw [hw] at hbs
    cases hbs
    rfl
  · rw [hw]
    rfl

/-- A source datagram with a readable header locks its address as the target. -/
theorem fromSource_read {r : Relay} {hdr payload : List UInt8} {a : Address} (hhdr : hdr.length = 3)
    (ha : a.Valid) : (r.fromSource (hdr ++ a.wire ++ payload)).1 = r.lockTarget a := by
  obtain ⟨s', hread, hs', -⟩ := readAddr_wire bufferRead_live trivial ha (t := payload)
    (s := a.wire ++ payload) rfl
  simp only [id] at hs'
  rw [hs'] at hread
  have hdrop : (hdr ++ a.wire ++ payload).drop 3 = a.wire ++ payload := by simp [← hhdr]
  have hlen : ¬(hdr ++ a.wire ++ payload).length < 3 := by simp [hhdr]
  simp only [Relay.fromSource, hlen, if_false, hdrop, hread]
  split
  · rfl
  · split <;> rfl

/-- From the initial relay, a first datagram from the client naming an IPv4 target locks
the client as source and the address as target; a reply from the target longer than
2038 bytes then overflows the 2048-byte array behind the ten-byte reply header. -/
theorem reply_overflow_panics {client : UDPAddr} {hdr p4 payload reply : List UInt8} {port : Nat}
    (hhdr : hdr.length = 3) (hp4 : p4.length = 4) (hport : port < 65536)
    (hclient : client.toText ≠ UDPAddr.toText ⟨p4, port, []⟩) (hlen : 2038 < reply.length) :
    (Relay.init.run [⟨client, hdr ++ (ipv4Address :: p4 ++ toBytes 2 port) ++ payload⟩,
      ⟨⟨p4, port, []⟩, reply⟩]).2 = .error (.panic .sliceBoundsOutOfRange) := by
  have ha : Address.Valid ⟨[], p4, port⟩ := ⟨hport, .inl ⟨rfl, .inl hp4⟩⟩
  have hwire : Address.wire ⟨[], p4, port⟩ = ipv4Address :: p4 ++ toBytes 2 port := by
    simp [Address.wire, Address.hostWire, hp4]
  have hlock : Relay.init.lockSource client =
      { Relay.init with sourceAddr := some client, wantSource := client.toText } := rfl
  have hstep₁ : Relay.init.step ⟨client, hdr ++ (ipv4Address :: p4 ++ toBytes 2 port) ++ payload⟩ =
      .ok ((Relay.init.lockSource client).fromSource (hdr ++ Address.wire ⟨[], p4, port⟩ ++ payload)) := by
    rw [hwire]
    simp [Relay.step, hlock]
  have hinv : ((Relay.init.lockSource client).lockTarget ⟨[], p4, port⟩).Inv :=
    lockTarget_inv (lockSource_inv Relay.inv_init client) _
  have hs : ((Relay.init.lockSource client).lockTarget ⟨[], p4, port⟩).sourceAddr = some client := by
    simp [hlock]
  have ht : ((Relay.init.lockSource client).lockTarget ⟨[], p4, port⟩).targetAddr =
      some ⟨p4, port, []⟩ := by
    simp [Relay.lockTarget, Relay.init]
  have h4 : to4 p4 = some p4 := by simp [to4, hp4]
  have hpanic : ((Relay.init.lockSource client).lockTarget ⟨[], p4, port⟩).step ⟨⟨p4, port, []⟩, reply⟩ =
      .error (.panic .sliceBoundsOutOfRange) :=
    step_reply_panics hinv hs ht rfl (Ne.symm hclient) (reply_v4 hinv ht h4 hport)
      (by simp [maxUdpPacket, hp4]; omega)
  have hfrom : ((Relay.init.lockSource client).fromSource
      (hdr ++ Address.wire ⟨[], p4, port⟩ ++ payload)).1 = _ := fromSource_read hhdr ha
  cases hfs : (Relay.init.lockSource client).fromSource (hdr ++ Address.wire ⟨[], p4, port⟩ ++ payload) with
  | mk r₂ out =>
    rw [hfs] at hfrom hstep₁
    simp only at hfrom
    subst hfrom
    rw [Relay.run, hstep₁]
    simp [Relay.run, hpanic]

theorem reply_overflow_panics_loopback :
    [(0 : UInt8), 0, 0].length = 3 ∧ [(1 : UInt8), 2, 3, 4].length = 4 ∧ 53 < 65536 ∧
    UDPAddr.toText ⟨[127, 0, 0, 1], 40000, []⟩ ≠ UDPAddr.toText ⟨[1, 2, 3, 4], 53, []⟩ ∧
    2038 < (List.replicate 2039 (0 : UInt8)).length ∧
    (Relay.init.run [⟨⟨[127, 0, 0, 1], 40000, []⟩,
        [0, 0, 0] ++ (ipv4Address :: [1, 2, 3, 4] ++ toBytes 2 53) ++ [7]⟩,
      ⟨⟨[1, 2, 3, 4], 53, []⟩, List.replicate 2039 0⟩]).2 =
      .error (.panic .sliceBoundsOutOfRange) :=
  ⟨rfl, rfl, by decide, by decide, by rw [List.length_replicate]; omega,
    reply_overflow_panics rfl rfl (by decide) (by decide) (by rw [List.length_replicate]; omega)⟩

end Socks5
