import Vwarp.Lib.Bufio
import Vwarp.Lib.BigEndian

/-!
# The proxy handshakes

The request parsers of the SOCKS5, SOCKS4 and HTTP servers in
`proxy/pkg/{socks5,socks4,http}`, over any connection `rd`, and where each
server hands the connection on: to `statute.Tunnel` or the user handler, which
then read the connection itself. Writes to the client (replies) and dial
details are left out; `Env` says whether a user handler is set and whether the
server's dial or listen succeeds.

For the SOCKS servers the request is read from the connection byte by byte or
with `io.ReadFull`, so over a live connection a successful parse consumed
exactly the request's bytes (`serveConn_ok` in each namespace). The HTTP
server reads through a `bufio.Reader` of its own.
-/

namespace Statute

open GoIo

structure Env where
  userConnectHandle : Bool
  netOk : Bool
  deriving DecidableEq, Repr

/-- Who reads the client connection after the handshake. -/
inductive Handoff (σ : Type) where
  /-- `statute.Tunnel`, or a user handler given the connection as its reader. -/
  | tunnel (conn : σ)
  /-- A user handler reading the request written again, then the connection
  (the HTTP server's `customConn`). -/
  | replay (conn : σ)
  /-- The SOCKS5 UDP association, which keeps the connection open only. -/
  | associate (conn : σ)

/-- The connection handed on. -/
def Handoff.conn {σ : Type} : Handoff σ → σ
  | .tunnel c => c
  | .replay c => c
  | .associate c => c

def tunnelBufSize : Nat := 32 * 1024

/-- The bytes `statute.Tunnel` copies from the client connection to the target:
`io.CopyBuffer(c1, c2, buf2)` until the connection ends. -/
def upstream {σ : Type} (rd : σ → Nat → Chunk σ) (fuel : Nat) (conn : σ) : List UInt8 :=
  copyLoop rd tunnelBufSize fuel conn

end Statute

namespace Socks5

open GoIo BigEndian Statute

def socks5Version : UInt8 := 0x05

def connectCommand : UInt8 := 0x01

def associateCommand : UInt8 := 0x03

def noAuth : UInt8 := 0x00

def ipv4Address : UInt8 := 0x01

def fqdnAddress : UInt8 := 0x03

def ipv6Address : UInt8 := 0x04

/-- A SOCKS address: a name or the bytes of an IP, and a port. -/
structure Address where
  name : List UInt8
  ip : List UInt8
  port : Nat
  deriving DecidableEq, Repr

inductive AddrError where
  | read
  | unrecognizedAddrType
  deriving DecidableEq, Repr

inductive ServeError where
  | read
  | unsupportedVersion (version : UInt8)
  | noSupportedAuth
  | unsupportedCommandVersion (version : UInt8)
  | unrecognizedAddrType
  | connectFailed
  | unsupportedCommand (cmd : UInt8)
  deriving DecidableEq, Repr

structure Request where
  command : UInt8
  dest : Address
  deriving DecidableEq, Repr

section Read

variable {σ : Type} (rd : σ → Nat → Chunk σ)

/-- The switch of `readAddr` on the address type, before the port. -/
def readHost (addrType : UInt8) (s : σ) : Except AddrError (Address × σ) :=
  if addrType = ipv4Address then
    match readFull rd s 4 with
    | none => .error .read
    | some (ip, s) => .ok ({ name := [], ip, port := 0 }, s)
  else if addrType = ipv6Address then
    match readFull rd s 16 with
    | none => .error .read
    | some (ip, s) => .ok ({ name := [], ip, port := 0 }, s)
  else if addrType = fqdnAddress then
    match readByte rd s with
    | none => .error .read
    | some (addrLen, s) =>
      match readFull rd s addrLen.toNat with
      | none => .error .read
      | some (fqdn, s) => .ok ({ name := fqdn, ip := [], port := 0 }, s)
  else .error .unrecognizedAddrType

def readAddr (s : σ) : Except AddrError (Address × σ) :=
  match readByte rd s with
  | none => .error .read
  | some (addrType, s) =>
    match readHost rd addrType s with
    | .error e => .error e
    | .ok (host, s) =>
      match readFull rd s 2 with
      | none => .error .read
      | some (port, s) => .ok ({ host with port := ofBytes port }, s)

/-- `readBytes`: a count byte, then that many bytes. -/
def readBytes (s : σ) : Option (List UInt8 × σ) :=
  match readByte rd s with
  | none => none
  | some (n, s) => readFull rd s n.toNat

/-- `ServeConn` up to `handle`: version, methods, command header and
destination. -/
def serveConn (s : σ) : Except ServeError (Request × σ) :=
  match readByte rd s with
  | none => .error .read
  | some (version, s) =>
    if version ≠ socks5Version then .error (.unsupportedVersion version)
    else
      match readBytes rd s with
      | none => .error .read
      | some (methods, s) =>
        if noAuth ∉ methods then .error .noSupportedAuth
        else
          match readFull rd s 3 with
          | none => .error .read
          | some (header, s) =>
            if header.headD 0 ≠ socks5Version then
              .error (.unsupportedCommandVersion (header.headD 0))
            else
              match readAddr rd s with
              | .error .read => .error .read
              | .error .unrecognizedAddrType => .error .unrecognizedAddrType
              | .ok (dest, s) => .ok ({ command := header.getD 1 0, dest }, s)

end Read

/-- `handle`: a CONNECT goes to the tunnel or the user handler, an ASSOCIATE to
the UDP relay. -/
def handle {σ : Type} (env : Env) (req : Request) (conn : σ) : Except ServeError (Handoff σ) :=
  if req.command = connectCommand then
    if env.userConnectHandle || env.netOk then .ok (.tunnel conn) else .error .connectFailed
  else if req.command = associateCommand then
    if env.netOk then .ok (.associate conn) else .error .connectFailed
  else .error (.unsupportedCommand req.command)

theorem handle_conn {σ : Type} {env : Env} {req : Request} {conn : σ} {h : Handoff σ}
    (hh : handle env req conn = .ok h) : h.conn = conn := by
  unfold handle at hh
  split at hh
  · split at hh
    · cases hh
      rfl
    · cases hh
  · split at hh
    · split at hh
      · cases hh
        rfl
      · cases hh
    · cases hh

/-! ## What a request consumes -/

/-- The bytes `readHost` consumes, after the address type byte. -/
def Address.hostWire (a : Address) : List UInt8 :=
  if a.ip.length = 4 then ipv4Address :: a.ip
  else if a.ip.length = 16 then ipv6Address :: a.ip
  else fqdnAddress :: a.name.length.toUInt8 :: a.name

/-- The bytes of an address on the wire. -/
def Address.wire (a : Address) : List UInt8 := a.hostWire ++ toBytes 2 a.port

section Spec

variable {σ : Type} {rd : σ → Nat → Chunk σ} {flat : σ → List UInt8} {good : σ → Prop}

theorem readHost_ok (hl : Live rd flat good) {addrType : UInt8} {s s' : σ} {a : Address}
    (hs : good s) (h : readHost rd addrType s = .ok (a, s')) :
    addrType :: flat s = a.hostWire ++ flat s' ∧ a.port = 0 ∧ good s' := by
  unfold readHost at h
  split at h
  · next h4 =>
    split at h
    · cases h
    · next ip s'' hr =>
      obtain ⟨hflat, hlen, hgood⟩ := readFull_some hl hs hr
      simp only [Except.ok.injEq, Prod.mk.injEq] at h
      obtain ⟨rfl, rfl⟩ := h
      exact ⟨by simp [Address.hostWire, hlen, hflat, h4], rfl, hgood⟩
  · split at h
    · next h16 =>
      split at h
      · cases h
      · next ip s'' hr =>
        obtain ⟨hflat, hlen, hgood⟩ := readFull_some hl hs hr
        simp only [Except.ok.injEq, Prod.mk.injEq] at h
        obtain ⟨rfl, rfl⟩ := h
        exact ⟨by simp [Address.hostWire, hlen, hflat, h16], rfl, hgood⟩
    · split at h
      · next hq =>
        split at h
        · cases h
        · next addrLen s₁ hb =>
          obtain ⟨hflat₁, hgood₁⟩ := readByte_some hl hs hb
          split at h
          · cases h
          · next fqdn s₂ hr =>
            obtain ⟨hflat₂, hlen, hgood₂⟩ := readFull_some hl hgood₁ hr
            simp only [Except.ok.injEq, Prod.mk.injEq] at h
            obtain ⟨rfl, rfl⟩ := h
            refine ⟨?_, rfl, hgood₂⟩
            simp [Address.hostWire, hlen, hflat₁, hflat₂, hq]
      · cases h

theorem readAddr_ok (hl : Live rd flat good) {s s' : σ} {a : Address} (hs : good s)
    (h : readAddr rd s = .ok (a, s')) : flat s = a.wire ++ flat s' ∧ good s' := by
  unfold readAddr at h
  split at h
  · cases h
  · next addrType s₁ hb =>
    obtain ⟨hflat₁, hgood₁⟩ := readByte_some hl hs hb
    split at h
    · cases h
    · next host s₂ hh =>
      obtain ⟨hflat₂, hport, hgood₂⟩ := readHost_ok hl hgood₁ hh
      split at h
      · cases h
      · next port s₃ hp =>
        obtain ⟨hflat₃, hlen, hgood₃⟩ := readFull_some hl hgood₂ hp
        simp only [Except.ok.injEq, Prod.mk.injEq] at h
        obtain ⟨rfl, rfl⟩ := h
        refine ⟨?_, hgood₃⟩
        have hhost : ({ host with port := ofBytes port } : Address).hostWire = host.hostWire := rfl
        rw [hflat₁, hflat₂, hflat₃, Address.wire, hhost, ← hlen, toBytes_ofBytes]
        simp

/-- An address `readAddr` returns: IPv4 or IPv6 bytes, or a name of at most
255 bytes, and a 16-bit port. -/
def Address.Valid (a : Address) : Prop :=
  a.port < 65536 ∧
    ((a.name = [] ∧ (a.ip.length = 4 ∨ a.ip.length = 16)) ∨ (a.ip = [] ∧ a.name.length < 256))

theorem readAddr_of_host {s s₁ s₂ s₃ : σ} {addrType : UInt8} {host : Address} {port : List UInt8}
    (hb : readByte rd s = some (addrType, s₁)) (hh : readHost rd addrType s₁ = .ok (host, s₂))
    (hp : readFull rd s₂ 2 = some (port, s₃)) :
    readAddr rd s = .ok ({ host with port := ofBytes port }, s₃) := by
  simp [readAddr, hb, hh, hp]

/-- An address in its wire form is read back whole. -/
theorem readAddr_wire (hl : Live rd flat good) {s : σ} {a : Address} {t : List UInt8}
    (hs : good s) (ha : a.Valid) (hst : flat s = a.wire ++ t) :
    ∃ s', readAddr rd s = .ok (a, s') ∧ flat s' = t ∧ good s' := by
  obtain ⟨hport, ⟨hname, hip⟩ | ⟨hip, hname⟩⟩ := ha
  · have hty : ∃ ty, a.hostWire = ty :: a.ip ∧ ∀ s₁ : σ, ∀ s₂ ip,
        readFull rd s₁ a.ip.length = some (ip, s₂) →
          readHost rd ty s₁ = .ok ({ name := [], ip, port := 0 }, s₂) := by
      rcases hip with h4 | h16
      · refine ⟨ipv4Address, by simp [Address.hostWire, h4], fun s₁ s₂ ip hr => ?_⟩
        rw [h4] at hr
        simp [readHost, hr]
      · refine ⟨ipv6Address, by simp [Address.hostWire, h16], fun s₁ s₂ ip hr => ?_⟩
        rw [h16] at hr
        simp [readHost, hr, ipv4Address, ipv6Address]
    obtain ⟨ty, hw, hhost⟩ := hty
    obtain ⟨s₁, hb, hf₁, hg₁⟩ := readByte_cons hl hs (b := ty) (t := a.ip ++ (toBytes 2 a.port ++ t))
      (by rw [hst, Address.wire, hw]; simp)
    obtain ⟨s₂, hr₂, hf₂, hg₂⟩ := readFull_append hl hg₁ hf₁
    obtain ⟨s₃, hr₃, hf₃, hg₃⟩ := readFull_append hl hg₂ hf₂
    refine ⟨s₃, ?_, hf₃, hg₃⟩
    rw [readAddr_of_host hb (hhost s₁ s₂ a.ip hr₂) (by simpa using hr₃), ofBytes_toBytes,
      Nat.mod_eq_of_lt (by simpa using hport)]
    cases a
    simp_all
  · have hw : a.hostWire = fqdnAddress :: a.name.length.toUInt8 :: a.name := by
      simp [Address.hostWire, hip]
    have hlen : a.name.length.toUInt8.toNat = a.name.length := by
      simp [Nat.mod_eq_of_lt hname]
    obtain ⟨s₁, hb, hf₁, hg₁⟩ := readByte_cons hl hs (b := fqdnAddress)
      (t := a.name.length.toUInt8 :: (a.name ++ (toBytes 2 a.port ++ t)))
      (by rw [hst, Address.wire, hw]; simp)
    obtain ⟨s₂, hb₂, hf₂, hg₂⟩ := readByte_cons hl hg₁ hf₁
    obtain ⟨s₃, hr₃, hf₃, hg₃⟩ := readFull_append hl hg₂ hf₂
    obtain ⟨s₄, hr₄, hf₄, hg₄⟩ := readFull_append hl hg₃ hf₃
    have hh : readHost rd fqdnAddress s₁ = .ok ({ name := a.name, ip := [], port := 0 }, s₃) := by
      simp [readHost, fqdnAddress, ipv4Address, ipv6Address, hb₂, hlen, hr₃]
    refine ⟨s₄, ?_, hf₄, hg₄⟩
    rw [readAddr_of_host hb hh (by simpa using hr₄), ofBytes_toBytes,
      Nat.mod_eq_of_lt (by simpa using hport)]
    cases a
    simp_all
theorem readBytes_ok (hl : Live rd flat good) {s s' : σ} {bs : List UInt8} (hs : good s)
    (h : readBytes rd s = some (bs, s')) :
    flat s = bs.length.toUInt8 :: bs ++ flat s' ∧ good s' := by
  unfold readBytes at h
  split at h
  · cases h
  · next n s₁ hb =>
    obtain ⟨hflat₁, hgood₁⟩ := readByte_some hl hs hb
    obtain ⟨hflat₂, hlen, hgood₂⟩ := readFull_some hl hgood₁ h
    refine ⟨?_, hgood₂⟩
    simp [hflat₁, hflat₂, hlen]

/-- A request the SOCKS5 server accepts consumed exactly its bytes: the
greeting with its methods, the command header and the destination. -/
theorem serveConn_ok (hl : Live rd flat good) {s s' : σ} {req : Request} (hs : good s)
    (h : serveConn rd s = .ok (req, s')) :
    good s' ∧ ∃ methods rsv, noAuth ∈ methods ∧
      flat s = [socks5Version, methods.length.toUInt8] ++ methods ++
        [socks5Version, req.command, rsv] ++ req.dest.wire ++ flat s' := by
  unfold serveConn at h
  split at h
  · cases h
  · next version s₁ hb =>
    obtain ⟨hflat₁, hgood₁⟩ := readByte_some hl hs hb
    split at h
    · cases h
    · next hv =>
      split at h
      · cases h
      · next methods s₂ hm =>
        obtain ⟨hflat₂, hgood₂⟩ := readBytes_ok hl hgood₁ hm
        split at h
        · cases h
        · next hauth =>
          split at h
          · cases h
          · next header s₃ hr =>
            obtain ⟨hflat₃, hlen, hgood₃⟩ := readFull_some hl hgood₂ hr
            split at h
            · cases h
            · next hcv =>
              split at h
              · cases h
              · cases h
              · next dest s₄ ha =>
                obtain ⟨hflat₄, hgood₄⟩ := readAddr_ok hl hgood₃ ha
                simp only [Except.ok.injEq, Prod.mk.injEq] at h
                obtain ⟨rfl, rfl⟩ := h
                refine ⟨hgood₄, methods, header.getD 2 0, not_not.mp hauth, ?_⟩
                match header, hlen, hcv with
                | [h0, h1, h2], _, hcv =>
                  simp only [List.headD_cons, ne_eq, not_not] at hcv
                  simp only [not_not] at hv
                  simp [hflat₁, hflat₂, hflat₃, hflat₄, hv, hcv]

end Spec

end Socks5

namespace Socks4

open GoIo BigEndian Statute

def socks4Version : UInt8 := 0x04

def connectCommand : UInt8 := 0x01

def isSocks4a : List UInt8 := [0, 0, 0, 1]

structure AddrAndUser where
  name : List UInt8
  ip : List UInt8
  port : Nat
  username : List UInt8
  deriving DecidableEq, Repr

inductive ServeError where
  | read
  | unsupportedVersion (version : UInt8)
  | connectFailed
  | unsupportedCommand (cmd : UInt8)
  deriving DecidableEq, Repr

structure Request where
  command : UInt8
  dest : AddrAndUser
  deriving DecidableEq, Repr

section Read

variable {σ : Type} (rd : σ → Nat → Chunk σ)

/-- `readBytes`: the bytes up to a zero byte, which it consumes; the fuel
bounds the bytes. -/
def readBytes : Nat → σ → Option (List UInt8 × σ)
  | 0, _ => none
  | fuel + 1, s =>
    match readByte rd s with
    | none => none
    | some (b, s) =>
      if b = 0 then some ([], s)
      else (readBytes fuel s).map fun r => (b :: r.1, r.2)

def readAddrAndUser (fuel : Nat) (s : σ) : Option (AddrAndUser × σ) :=
  match readFull rd s 2 with
  | none => none
  | some (port, s) =>
    match readFull rd s 4 with
    | none => none
    | some (ip, s) =>
      match readBytes rd fuel s with
      | none => none
      | some (username, s) =>
        if ip = isSocks4a then
          match readBytes rd fuel s with
          | none => none
          | some (hostname, s) => some ({ name := hostname, ip := [], port := ofBytes port, username }, s)
        else some ({ name := [], ip, port := ofBytes port, username }, s)

/-- `ServeConn` up to `handle`. -/
def serveConn (fuel : Nat) (s : σ) : Except ServeError (Request × σ) :=
  match readByte rd s with
  | none => .error .read
  | some (version, s) =>
    if version ≠ socks4Version then .error (.unsupportedVersion version)
    else
      match readByte rd s with
      | none => .error .read
      | some (cmd, s) =>
        match readAddrAndUser rd fuel s with
        | none => .error .read
        | some (dest, s) => .ok ({ command := cmd, dest }, s)

end Read

def handle {σ : Type} (env : Env) (req : Request) (conn : σ) : Except ServeError (Handoff σ) :=
  if req.command = connectCommand then
    if env.userConnectHandle || env.netOk then .ok (.tunnel conn) else .error .connectFailed
  else .error (.unsupportedCommand req.command)

theorem handle_conn {σ : Type} {env : Env} {req : Request} {conn : σ} {h : Handoff σ}
    (hh : handle env req conn = .ok h) : h.conn = conn := by
  unfold handle at hh
  split at hh
  · split at hh
    · cases hh
      rfl
    · cases hh
  · cases hh

/-! ## What a request consumes -/

/-- The bytes of the address and user fields on the wire. -/
def AddrAndUser.wire (a : AddrAndUser) : List UInt8 :=
  toBytes 2 a.port ++ (if a.name = [] ∧ a.ip.length = 4 then a.ip else isSocks4a) ++
    a.username ++ [0] ++ (if a.name = [] ∧ a.ip.length = 4 then [] else a.name ++ [0])

section Spec

variable {σ : Type} {rd : σ → Nat → Chunk σ} {flat : σ → List UInt8} {good : σ → Prop}

theorem readBytes_ok (hl : Live rd flat good) (fuel : Nat) {s s' : σ} {bs : List UInt8}
    (hs : good s) (h : readBytes rd fuel s = some (bs, s')) :
    flat s = bs ++ 0 :: flat s' ∧ 0 ∉ bs ∧ good s' := by
  induction fuel generalizing s bs with
  | zero => cases h
  | succ fuel ih =>
    simp only [readBytes] at h
    split at h
    · cases h
    · next b s₁ hb =>
      obtain ⟨hflat₁, hgood₁⟩ := readByte_some hl hs hb
      split at h
      · next h0 =>
        simp only [Option.some.injEq, Prod.mk.injEq] at h
        obtain ⟨rfl, rfl⟩ := h
        exact ⟨by simp [hflat₁, h0], by simp, hgood₁⟩
      · next h0 =>
        obtain ⟨⟨bs', s₂⟩, hr, hbs⟩ := Option.map_eq_some_iff.mp h
        simp only [Prod.mk.injEq] at hbs
        obtain ⟨rfl, rfl⟩ := hbs
        obtain ⟨hflat₂, hnot, hgood₂⟩ := ih hgood₁ hr
        refine ⟨by simp [hflat₁, hflat₂], ?_, hgood₂⟩
        simp only [List.mem_cons, not_or]
        exact ⟨fun h => h0 h.symm, hnot⟩

theorem readAddrAndUser_ok (hl : Live rd flat good) (fuel : Nat) {s s' : σ} {a : AddrAndUser}
    (hs : good s) (h : readAddrAndUser rd fuel s = some (a, s')) :
    flat s = a.wire ++ flat s' ∧ 0 ∉ a.username ∧ 0 ∉ a.name ∧ good s' := by
  unfold readAddrAndUser at h
  split at h
  · cases h
  · next port s₁ hp =>
    obtain ⟨hflat₁, hlen₁, hgood₁⟩ := readFull_some hl hs hp
    split at h
    · cases h
    · next ip s₂ hi =>
      obtain ⟨hflat₂, hlen₂, hgood₂⟩ := readFull_some hl hgood₁ hi
      split at h
      · cases h
      · next user s₃ hu =>
        obtain ⟨hflat₃, huser, hgood₃⟩ := readBytes_ok hl fuel hgood₂ hu
        have hport : toBytes 2 (ofBytes port) = port := hlen₁ ▸ toBytes_ofBytes port
        split at h
        · next h4a =>
          split at h
          · cases h
          · next host s₄ hh =>
            obtain ⟨hflat₄, hhost, hgood₄⟩ := readBytes_ok hl fuel hgood₃ hh
            simp only [Option.some.injEq, Prod.mk.injEq] at h
            obtain ⟨rfl, rfl⟩ := h
            refine ⟨?_, huser, hhost, hgood₄⟩
            by_cases hn : host = []
            · simp [AddrAndUser.wire, hflat₁, hflat₂, hflat₃, hflat₄, hport, h4a, hn]
            · simp [AddrAndUser.wire, hflat₁, hflat₂, hflat₃, hflat₄, hport, h4a, hn]
        · simp only [Option.some.injEq, Prod.mk.injEq] at h
          obtain ⟨rfl, rfl⟩ := h
          refine ⟨?_, huser, by simp, hgood₃⟩
          simp [AddrAndUser.wire, hflat₁, hflat₂, hflat₃, hport, hlen₂]

/-- A request the SOCKS4 server accepts consumed exactly its bytes. -/
theorem serveConn_ok (hl : Live rd flat good) (fuel : Nat) {s s' : σ} {req : Request}
    (hs : good s) (h : serveConn rd fuel s = .ok (req, s')) :
    good s' ∧ flat s = [socks4Version, req.command] ++ req.dest.wire ++ flat s' := by
  unfold serveConn at h
  split at h
  · cases h
  · next version s₁ hb =>
    obtain ⟨hflat₁, hgood₁⟩ := readByte_some hl hs hb
    split at h
    · cases h
    · next hv =>
      split at h
      · cases h
      · next cmd s₂ hc =>
        obtain ⟨hflat₂, hgood₂⟩ := readByte_some hl hgood₁ hc
        split at h
        · cases h
        · next dest s₃ ha =>
          obtain ⟨hflat₃, -, -, hgood₃⟩ := readAddrAndUser_ok hl fuel hgood₂ ha
          simp only [Except.ok.injEq, Prod.mk.injEq] at h
          obtain ⟨rfl, rfl⟩ := h
          simp only [not_not] at hv
          exact ⟨hgood₃, by simp [hflat₁, hflat₂, hflat₃, hv]⟩

end Spec

end Socks4

namespace Http

open GoIo Bufio Statute

/-- The bytes of an ASCII text. -/
def ascii (s : String) : List UInt8 := s.toList.map Char.toUInt8

def methodConnect : List UInt8 := ascii "CONNECT"

inductive ServeError where
  | read
  | malformedRequest
  | connectFailed
  deriving DecidableEq, Repr

/-- The request line split at its first two spaces, and the header lines as
read. -/
structure Request where
  method : List UInt8
  requestURI : List UInt8
  proto : List UInt8
  header : List (List UInt8)
  deriving DecidableEq, Repr

/-- `strings.Cut(s, " ")`. -/
def cutSpace (line : List UInt8) : Option (List UInt8 × List UInt8) :=
  match line.idxOf? 32 with
  | some i => some (line.take i, line.drop (i + 1))
  | none => none

def parseRequestLine (line : List UInt8) : Option (List UInt8 × List UInt8 × List UInt8) :=
  match cutSpace line with
  | none => none
  | some (method, rest) =>
    match cutSpace rest with
    | none => none
    | some (requestURI, proto) => some (method, requestURI, proto)

section Read

variable {τ : Type} (rd : τ → Nat → Chunk τ)

/-- textproto's `readLineSlice`: `ReadLine` until the line is complete. -/
def readLineSlice : Nat → Reader τ → Option (List UInt8 × Reader τ)
  | 0, _ => none
  | fuel + 1, b =>
    match readLine rd b with
    | (l, more, failed, b) =>
      if failed then none
      else if more then (readLineSlice fuel b).map fun r => (l ++ r.1, r.2)
      else some (l, b)

/-- The lines of `ReadMIMEHeader`, through the empty line that ends them. -/
def readHeaderLines : Nat → Reader τ → Option (List (List UInt8) × Reader τ)
  | 0, _ => none
  | fuel + 1, b =>
    match readLineSlice rd fuel b with
    | none => none
    | some ([], b) => some ([], b)
    | some (l, b) => (readHeaderLines fuel b).map fun r => (l :: r.1, r.2)

/-- `http.ReadRequest` as far as it reads: the request line, then the header. -/
def readRequest (fuel : Nat) (b : Reader τ) : Except ServeError (Request × Reader τ) :=
  match readLineSlice rd fuel b with
  | none => .error .read
  | some (line, b) =>
    match parseRequestLine line with
    | none => .error .malformedRequest
    | some (method, requestURI, proto) =>
      match readHeaderLines rd fuel b with
      | none => .error .read
      | some (header, b) => .ok ({ method, requestURI, proto, header }, b)

end Read

/-- `handleHTTP`: the tunnel or the user handler reads the connection itself,
not the reader the request was read with. -/
def handleHTTP {τ : Type} (env : Env) (req : Request) (conn : τ) : Except ServeError (Handoff τ) :=
  if env.userConnectHandle then
    if req.method = methodConnect then .ok (.tunnel conn) else .ok (.replay conn)
  else if env.netOk then .ok (.tunnel conn)
  else .error .connectFailed

/-- `ServeConn`: a `bufio.NewReader` over the connection reads the request,
and is dropped with what it buffered. -/
def serveConn {τ : Type} (rd : τ → Nat → Chunk τ) (env : Env) (fuel : Nat) (conn : τ) :
    Except ServeError (Handoff τ) :=
  match readRequest rd fuel (newReader conn) with
  | .error e => .error e
  | .ok (req, reader) => handleHTTP env req reader.src

/-! ## The connection under the request reader -/

section Src

variable {τ : Type} {rd : τ → Nat → Chunk τ} (P : τ → Prop)
  (hP : ∀ s n, P s → P (rd s n).rest)

include hP

theorem readLineSlice_src (fuel : Nat) {b b' : Reader τ} {l : List UInt8} (hb : P b.src)
    (h : readLineSlice rd fuel b = some (l, b')) : P b'.src := by
  induction fuel generalizing b l with
  | zero => cases h
  | succ fuel ih =>
    have hline := readLine_src P hP hb
    simp only [readLineSlice] at h
    split at h
    · cases h
    · split at h
      · obtain ⟨⟨l₂, b₂⟩, hr, hl⟩ := Option.map_eq_some_iff.mp h
        simp only [Prod.mk.injEq] at hl
        obtain ⟨-, rfl⟩ := hl
        exact ih hline hr
      · simp only [Option.some.injEq, Prod.mk.injEq] at h
        obtain ⟨-, rfl⟩ := h
        exact hline

theorem readLineSlice_src_fill (fuel : Nat) {b b' : Reader τ} {l : List UInt8}
    (hp : b.pending = []) (he : b.err = false) (hsize : 0 < b.size) (hb : P (fill rd b).src)
    (h : readLineSlice rd fuel b = some (l, b')) : P b'.src := by
  cases fuel with
  | zero => cases h
  | succ fuel =>
    have hline := readLine_src_fill P hP hp he hsize hb
    simp only [readLineSlice] at h
    split at h
    · cases h
    · split at h
      · obtain ⟨⟨l₂, b₂⟩, hr, hl⟩ := Option.map_eq_some_iff.mp h
        simp only [Prod.mk.injEq] at hl
        obtain ⟨-, rfl⟩ := hl
        exact readLineSlice_src P hP fuel hline hr
      · simp only [Option.some.injEq, Prod.mk.injEq] at h
        obtain ⟨-, rfl⟩ := h
        exact hline

theorem readHeaderLines_src (fuel : Nat) {b b' : Reader τ} {ls : List (List UInt8)}
    (hb : P b.src) (h : readHeaderLines rd fuel b = some (ls, b')) : P b'.src := by
  induction fuel generalizing b ls with
  | zero => cases h
  | succ fuel ih =>
    simp only [readHeaderLines] at h
    split at h
    · cases h
    · next b₁ hr =>
      simp only [Option.some.injEq, Prod.mk.injEq] at h
      obtain ⟨-, rfl⟩ := h
      exact readLineSlice_src P hP fuel hb hr
    · next l b₁ _ hr =>
      obtain ⟨⟨ls₂, b₂⟩, hr₂, hl⟩ := Option.map_eq_some_iff.mp h
      simp only [Prod.mk.injEq] at hl
      obtain ⟨-, rfl⟩ := hl
      exact ih (readLineSlice_src P hP fuel hb hr) hr₂

/-- What holds of the connection after the request reader's first fill holds
of the connection handed on. -/
theorem serveConn_src_fill (env : Env) (fuel : Nat) {conn : τ} {h : Handoff τ}
    (hb : P (fill rd (newReader conn)).src) (hs : serveConn rd env fuel conn = .ok h) :
    ∃ c, P c ∧ (h = .tunnel c ∨ h = .replay c) := by
  unfold serveConn at hs
  split at hs
  · cases hs
  · next req reader hr =>
    unfold readRequest at hr
    split at hr
    · cases hr
    · next line b₁ hl =>
      have h₁ := readLineSlice_src_fill P hP fuel rfl rfl
        (Nat.lt_of_lt_of_le (by decide) (Nat.le_max_right _ _)) hb hl
      split at hr
      · cases hr
      · split at hr
        · cases hr
        · next header b₂ hh =>
          simp only [Except.ok.injEq, Prod.mk.injEq] at hr
          obtain ⟨-, rfl⟩ := hr
          refine ⟨b₂.src, readHeaderLines_src P hP fuel h₁ hh, ?_⟩
          unfold handleHTTP at hs
          split at hs
          · split at hs
            · cases hs
              exact .inl rfl
            · cases hs
              exact .inr rfl
          · split at hs
            · cases hs
              exact .inl rfl
            · cases hs

end Src

end Http
