import Vwarp.Netip

/-!
# The SOCKS5 UDP bind of WireGuard

`ProxyBind.Send` prefixes each WireGuard datagram with the SOCKS5 UDP header
for the peer (`RSV RSV FRAG ATYP ADDR PORT`) and sends it to the relay;
`receiveIPv4` strips the header of a datagram from the relay and reports the
peer it names. Both are pure in what they compute: the relay association,
set up by `Open`, is a flag, and the socket writes are taken to succeed.

Decapsulation undoes encapsulation on the payload. On the peer it does not:
the IPv4 branch rebuilds the address with `net.IPv4`, a 16-byte slice, and
`AddrFromSlice` turns 16 bytes into an IPv6 address. The endpoint WireGuard
learns from a reply is the IPv4-mapped IPv6 form of the peer, and a `Send`
to it uses address type 4.
-/

namespace Conn

open Netip BigEndian

/-- A bind endpoint: the standard one carries an `AddrPort`. -/
inductive Endpoint where
  | std (addrPort : AddrPort)
  | other
  deriving DecidableEq, Repr

inductive SendError where
  | einval
  | wrongEndpointType
  | invalidIPAddress
  deriving DecidableEq, Repr

/-- The header `Send` writes for a peer, by the family of its address. -/
def sendHeader (ap : AddrPort) : Except SendError (List UInt8) :=
  if ap.ip.is4 then .ok ([0x00, 0x00, 0x00, 0x01] ++ ap.ip.asSlice ++ toBytes 2 ap.port.toNat)
  else if ap.ip.is6 then .ok ([0x00, 0x00, 0x00, 0x04] ++ ap.ip.asSlice ++ toBytes 2 ap.port.toNat)
  else .error .invalidIPAddress

/-- `ProxyBind.Send`: the datagrams written to the relay, in order.
`relayReady` says that `Open` has set the UDP socket and the relay address. -/
def send (relayReady : Bool) (bufs : List (List UInt8)) (ep : Endpoint) :
    Except SendError (List (List UInt8)) :=
  if !relayReady then .error .einval
  else match ep with
    | .other => .error .wrongEndpointType
    | .std ap => do
      let header ← sendHeader ap
      pure (bufs.map (header ++ ·))

/-- What `receiveIPv4` reports: `n`, `sizes[0]`, `packets[0][:sizes[0]]`, `eps[0]`. -/
structure Received where
  n : Nat
  size : Nat
  payload : List UInt8
  ep : Option AddrPort
  deriving DecidableEq, Repr

def Received.none : Received := ⟨0, 0, [], Option.none⟩

/-- `receiveIPv4` on the datagram `dg` read from the relay, with `cap` bytes of
room in `packets[0]`. The read buffer holds 65535 bytes and is zero-filled. -/
def receiveIPv4 (dg : List UInt8) (cap : Nat) : Received :=
  let buf := dg.take 65535
  let size := buf.length
  let byte := fun i => buf.getD i 0
  let deliver := fun (headerLen : Nat) (destAddr : Addr) (destPort : UInt16) =>
    let payloadSize := min (size - headerLen) cap
    (⟨1, payloadSize, (buf.drop headerLen).take payloadSize, some ⟨destAddr, destPort⟩⟩ :
      Received)
  if size < 10 then .none
  else if byte 3 = 0x01 then
    -- `net.IPv4` builds the 16-byte mapped form of the four address bytes
    let destIP := ipv4 (byte 4) (byte 5) (byte 6) (byte 7)
    deliver 10 ((addrFromSlice destIP).getD .invalid) (UInt16.ofNat (ofBytes [byte 8, byte 9]))
  else if byte 3 = 0x04 then
    if size < 22 then .none
    else
      let destIP := (buf.drop 4).take 16
      deliver 22 ((addrFromSlice destIP).getD .invalid)
        (UInt16.ofNat (ofBytes [byte 20, byte 21]))
  else .none

/-- `receiveIPv4` on an address-type-1 header. -/
theorem receiveIPv4_atyp1 (r0 r1 r2 x0 x1 x2 x3 p0 p1 : UInt8) (b : List UInt8) (cap : Nat) :
    receiveIPv4 ([r0, r1, r2, 0x01, x0, x1, x2, x3, p0, p1] ++ b) cap =
      ⟨1, min (b.take 65525).length cap, (b.take 65525).take (min (b.take 65525).length cap),
        some ⟨(addrFromSlice (ipv4 x0 x1 x2 x3)).getD .invalid, UInt16.ofNat (ofBytes [p0, p1])⟩⟩ := by
  simp [receiveIPv4]

/-- `receiveIPv4` on an address-type-4 header. -/
theorem receiveIPv4_atyp4 (r0 r1 r2 : UInt8) {x : List UInt8} (hx : x.length = 16)
    (p0 p1 : UInt8) (b : List UInt8) (cap : Nat) :
    receiveIPv4 ([r0, r1, r2, 0x04] ++ x ++ [p0, p1] ++ b) cap =
      ⟨1, min (b.take 65513).length cap, (b.take 65513).take (min (b.take 65513).length cap),
        some ⟨(addrFromSlice x).getD .invalid, UInt16.ofNat (ofBytes [p0, p1])⟩⟩ := by
  have hbuf : ([r0, r1, r2, 0x04] ++ x ++ [p0, p1] ++ b).take 65535 =
      [r0, r1, r2, 0x04] ++ x ++ ([p0, p1] ++ b.take 65513) := by
    simp [List.take_append, hx, List.take_of_length_le (show x.length ≤ 65531 by omega)]
  have hlen : ([r0, r1, r2, 0x04] ++ x ++ ([p0, p1] ++ b.take 65513)).length =
      22 + (b.take 65513).length := by
    simp only [List.length_append, hx, List.length_cons, List.length_nil]
    omega
  have hx' : (([r0, r1, r2, 0x04] ++ x ++ ([p0, p1] ++ b.take 65513)).drop 4).take 16 = x := by
    simp [hx]
  have hrest : ([r0, r1, r2, 0x04] ++ x ++ ([p0, p1] ++ b.take 65513)).drop 22 = b.take 65513 := by
    simp [List.drop_append, hx]
  have h10 : ¬ 22 + (b.take 65513).length < 10 := by omega
  have h22 : ¬ 22 + (b.take 65513).length < 22 := by omega
  simp only [receiveIPv4, hbuf, hlen, hx', hrest, h10, h22, if_false, Nat.add_sub_cancel_left]
  simp [List.getElem?_append_right, hx]

theorem toBytes_four (n : Nat) : ∃ x0 x1 x2 x3 : UInt8, toBytes 4 n = [x0, x1, x2, x3] :=
  ⟨UInt8.ofNat (n / 256 / 256 / 256 % 256), UInt8.ofNat (n / 256 / 256 % 256),
    UInt8.ofNat (n / 256 % 256), UInt8.ofNat (n % 256), by simp [toBytes]⟩

theorem toBytes_two (n : Nat) : ∃ p0 p1 : UInt8, toBytes 2 n = [p0, p1] :=
  ⟨UInt8.ofNat (n / 256 % 256), UInt8.ofNat (n % 256), by simp [toBytes]⟩

theorem uint16_ofBytes_toBytes (p : UInt16) : UInt16.ofNat (ofBytes (toBytes 2 p.toNat)) = p := by
  rw [ofBytes_toBytes, Nat.mod_eq_of_lt (show p.toNat < 256 ^ 2 from p.toNat_lt)]
  exact UInt16.ofNat_toNat

/-- An IPv4 peer: the payload comes back whole, the peer as IPv4-mapped IPv6. -/
theorem receive_send_v4 (a : Fin (2 ^ 32)) (p : UInt16) (b : List UInt8) (cap : Nat) :
    ∃ header, send true [b] (.std ⟨.v4 a, p⟩) = .ok [header ++ b] ∧
      receiveIPv4 (header ++ b) cap =
        ⟨1, min (b.take 65525).length cap, (b.take 65525).take (min (b.take 65525).length cap),
          some ⟨.v6 ⟨mappedBase + a.val, by have := a.isLt; unfold mappedBase; omega⟩ "", p⟩⟩ := by
  obtain ⟨x0, x1, x2, x3, hx⟩ := toBytes_four a.val
  obtain ⟨p0, p1, hp⟩ := toBytes_two p.toNat
  refine ⟨[0x00, 0x00, 0x00, 0x01, x0, x1, x2, x3, p0, p1], ?_, ?_⟩
  · simp [send, sendHeader, Addr.is4, Addr.asSlice, hx, hp, pure, Except.pure, bind, Except.bind]
  · have hport : UInt16.ofNat (ofBytes [p0, p1]) = p := hp ▸ uint16_ofBytes_toBytes p
    have hval : ofBytes [x0, x1, x2, x3] = a.val := by
      rw [← hx, ofBytes_toBytes, Nat.mod_eq_of_lt (show a.val < 256 ^ 4 from a.isLt)]
    rw [receiveIPv4_atyp1, addrFromSlice_ipv4, hport]
    simp only [Option.getD_some, hval]

/-- An IPv6 peer without a zone comes back exactly. -/
theorem receive_send_v6 (a : Fin (2 ^ 128)) (p : UInt16) (b : List UInt8) (cap : Nat) :
    ∃ header, send true [b] (.std ⟨.v6 a "", p⟩) = .ok [header ++ b] ∧
      receiveIPv4 (header ++ b) cap =
        ⟨1, min (b.take 65513).length cap, (b.take 65513).take (min (b.take 65513).length cap),
          some ⟨.v6 a "", p⟩⟩ := by
  obtain ⟨p0, p1, hp⟩ := toBytes_two p.toNat
  refine ⟨[0x00, 0x00, 0x00, 0x04] ++ toBytes 16 a.val ++ [p0, p1], ?_, ?_⟩
  · simp [send, sendHeader, Addr.is4, Addr.is6, Addr.asSlice, hp, pure, Except.pure, bind,
      Except.bind]
  · have hport : UInt16.ofNat (ofBytes [p0, p1]) = p := hp ▸ uint16_ofBytes_toBytes p
    have haddr : addrFromSlice (toBytes 16 a.val) = some (.v6 a "") := by
      have h16 : ofBytes (toBytes 16 a.val) % 2 ^ 128 = a.val := by
        rw [ofBytes_toBytes, Nat.mod_eq_of_lt (show a.val < 256 ^ 16 from a.isLt),
          Nat.mod_eq_of_lt a.isLt]
      have hne : (16 : Nat) ≠ 4 := by decide
      simp only [addrFromSlice, length_toBytes, hne, if_false, if_true, addrFrom16,
        Option.some.injEq, Addr.v6.injEq, and_true]
      exact Fin.ext h16
    rw [receiveIPv4_atyp4 _ _ _ (length_toBytes 16 a.val), haddr, hport, Option.getD_some]

/-- A reply from an IPv4 peer hands WireGuard a different endpoint, the mapped
IPv6 form of the peer, and the next `Send` to it switches to address type 4. -/
theorem receive_v4_endpoint_drifts (a : Fin (2 ^ 32)) (p : UInt16) (b : List UInt8) (cap : Nat) :
    send true [b] (.std ⟨.v4 a, p⟩) =
        .ok [[0x00, 0x00, 0x00, 0x01] ++ toBytes 4 a.val ++ toBytes 2 p.toNat ++ b] ∧
      ∃ ep', (receiveIPv4 ([0x00, 0x00, 0x00, 0x01] ++ toBytes 4 a.val ++ toBytes 2 p.toNat ++ b)
          cap).ep = some ep' ∧
        ep' ≠ ⟨.v4 a, p⟩ ∧
        send true [b] (.std ep') =
          .ok [[0x00, 0x00, 0x00, 0x04] ++ v4InV6Prefix ++ toBytes 4 a.val ++ toBytes 2 p.toNat ++ b] := by
  obtain ⟨header, hsend, hrecv⟩ := receive_send_v4 a p b cap
  have hheader : header = [0x00, 0x00, 0x00, 0x01] ++ toBytes 4 a.val ++ toBytes 2 p.toNat := by
    have hs : send true [b] (.std ⟨.v4 a, p⟩) =
        .ok [[0x00, 0x00, 0x00, 0x01] ++ toBytes 4 a.val ++ toBytes 2 p.toNat ++ b] := by
      simp [send, sendHeader, Addr.is4, Addr.asSlice, pure, Except.pure, bind, Except.bind]
    rw [hs] at hsend
    simp only [Except.ok.injEq, List.cons.injEq, and_true] at hsend
    exact (List.append_cancel_right hsend).symm
  subst hheader
  refine ⟨by simpa using hsend, _, by rw [hrecv], by simp, ?_⟩
  simp [send, sendHeader, Addr.is4, Addr.is6, Addr.asSlice, toBytes_mapped, pure, Except.pure,
    bind, Except.bind]

end Conn
