import Vwarp.Proxy.Handshake
import Vwarp.Lib.ExceptStep

/-!
# The mixed proxy front end

`Proxy.handleConnection` wraps the client connection in a `SwitchConn`, a
2048-byte `bufio.Reader`, peeks one byte and hands the `SwitchConn` to the
SOCKS5 server (5), the SOCKS4 server (4) or the HTTP server (otherwise). The
connection is a list of segments, what its successive reads deliver.

The `SwitchConn` is a live source with the connection's stream, so the SOCKS
servers, which read it directly, leave the tunnel exactly the bytes after
their request (`handleConnection_socks5`, `handleConnection_socks4`). The HTTP
server reads its request through a second `bufio.Reader` of 4096 bytes over
the `SwitchConn`, whose first fill takes everything the `SwitchConn` holds;
the tunnel then reads the `SwitchConn`, and what that reader buffered is gone.
A request arriving in one segment with bytes after its header leaves the
tunnel nothing (`handleConnection_http_single_segment`).
-/

namespace Mixed

open GoIo Bufio Statute ExceptStep

/-- A client connection: the segments its reads deliver. -/
abbrev Conn := List (List UInt8)

/-- A TCP read returns at least one byte before the end of the stream. -/
def SegmentsNonempty (conn : Conn) : Prop := ∀ seg ∈ conn, seg ≠ []

def switchConnSize : Nat := 2048

abbrev SwitchConn := Reader Conn

def newSwitchConn (conn : Conn) : SwitchConn := newReaderSize conn switchConnSize

/-- `SwitchConn.Read`. -/
def switchRead : SwitchConn → Nat → Chunk SwitchConn := read segmentsRead

inductive HandleError where
  | peek
  | socks5 (e : Socks5.ServeError)
  | socks4 (e : Socks4.ServeError)
  | http (e : Http.ServeError)
  deriving DecidableEq, Repr

/-- `Proxy.handleConnection`; `fuel` bounds the loops of the SOCKS4 and HTTP
request readers. -/
def handleConnection (env : Env) (fuel : Nat) (conn : Conn) :
    Except HandleError (Handoff SwitchConn) :=
  match peek segmentsRead (newSwitchConn conn) 1 with
  | (none, _) => .error .peek
  | (some buf, switchConn) =>
    if buf.headD 0 = 5 then
      match Socks5.serveConn switchRead switchConn with
      | .error e => .error (.socks5 e)
      | .ok (req, switchConn) => (Socks5.handle env req switchConn).mapError .socks5
    else if buf.headD 0 = 4 then
      match Socks4.serveConn switchRead fuel switchConn with
      | .error e => .error (.socks4 e)
      | .ok (req, switchConn) => (Socks4.handle env req switchConn).mapError .socks4
    else (Http.serveConn switchRead env fuel switchConn).mapError .http

/-! ## The switch connection is transparent -/

/-- The bytes a `SwitchConn` will still deliver. -/
def content (c : SwitchConn) : List UInt8 := c.content List.flatten

def Good (c : SwitchConn) : Prop := c.Good List.flatten SegmentsNonempty

theorem switchRead_live : Live switchRead content Good :=
  Reader.live segmentsRead_live

theorem newSwitchConn_good {conn : Conn} (hconn : SegmentsNonempty conn) :
    Good (newSwitchConn conn) :=
  newReaderSize_good hconn _

/-- The peek dispatches on the first byte of the stream and leaves a good
`SwitchConn` holding all of it. -/
theorem peek_switchConn {conn : Conn} (hconn : SegmentsNonempty conn) {buf : List UInt8}
    {c : SwitchConn} (h : peek segmentsRead (newSwitchConn conn) 1 = (some buf, c)) :
    Good c ∧ content c = conn.flatten ∧ buf.headD 0 = conn.flatten.headD 0 := by
  have hgood := peek_good segmentsRead_live (newSwitchConn_good hconn) 1
  have hcontent := peek_content segmentsRead_live.faithful (newSwitchConn conn) 1
  rw [h] at hgood hcontent
  have hc : content c = conn.flatten := by
    simpa [content, Reader.content, newSwitchConn, newReaderSize] using hcontent
  refine ⟨hgood, hc, ?_⟩
  unfold peek at h
  dsimp only at h
  split at h
  · next hlen =>
    simp only [Prod.mk.injEq, Option.some.injEq] at h
    obtain ⟨rfl, rfl⟩ := h
    rw [← hc]
    obtain ⟨x, xs, hx⟩ := List.exists_cons_of_length_pos hlen
    simp [content, Reader.content, hx]
  · simp at h

/-- The tunnel reads a good `SwitchConn` to its end. -/
theorem upstream_eq {c : SwitchConn} (hc : Good c) {fuel : Nat} (hfuel : (content c).length < fuel) :
    upstream switchRead fuel c = content c :=
  copyLoop_eq switchRead_live (by decide) hc hfuel

/-! ## The SOCKS paths -/

theorem handleConnection_socks5 {env : Env} {fuel : Nat} {conn : Conn} {h : Handoff SwitchConn}
    (hconn : SegmentsNonempty conn) (h5 : conn.flatten.headD 0 = 5)
    (hh : handleConnection env fuel conn = .ok h) :
    Good h.conn ∧ ∃ (req : Socks5.Request) (methods : List UInt8) (rsv : UInt8),
      Socks5.noAuth ∈ methods ∧
      conn.flatten = [Socks5.socks5Version, methods.length.toUInt8] ++ methods ++
        [Socks5.socks5Version, req.command, rsv] ++ req.dest.wire ++ content h.conn := by
  unfold handleConnection at hh
  split at hh
  · cases hh
  · next buf c hpeek =>
    obtain ⟨hgood, hcontent, hbuf⟩ := peek_switchConn hconn hpeek
    rw [if_pos (hbuf.trans h5)] at hh
    split at hh
    · cases hh
    · next req c' hserve =>
      obtain ⟨hgood', methods, rsv, hauth, hflat⟩ :=
        Socks5.serveConn_ok switchRead_live hgood hserve
      have hconn' := Socks5.handle_conn (mapError_eq_ok.mp hh)
      rw [hconn']
      exact ⟨hgood', req, methods, rsv, hauth, hcontent ▸ hflat⟩

theorem handleConnection_socks4 {env : Env} {fuel : Nat} {conn : Conn} {h : Handoff SwitchConn}
    (hconn : SegmentsNonempty conn) (h4 : conn.flatten.headD 0 = 4)
    (hh : handleConnection env fuel conn = .ok h) :
    Good h.conn ∧ ∃ req : Socks4.Request,
      conn.flatten = [Socks4.socks4Version, req.command] ++ req.dest.wire ++ content h.conn := by
  unfold handleConnection at hh
  split at hh
  · cases hh
  · next buf c hpeek =>
    obtain ⟨hgood, hcontent, hbuf⟩ := peek_switchConn hconn hpeek
    rw [if_neg (by rw [hbuf, h4]; decide), if_pos (hbuf.trans h4)] at hh
    split at hh
    · cases hh
    · next req c' hserve =>
      obtain ⟨hgood', hflat⟩ := Socks4.serveConn_ok switchRead_live fuel hgood hserve
      have hconn' := Socks4.handle_conn (mapError_eq_ok.mp hh)
      rw [hconn']
      exact ⟨hgood', req, hcontent ▸ hflat⟩

/-! ## The HTTP path -/

/-- A drained `SwitchConn` stays drained and good under reads. -/
theorem drained_read {c : SwitchConn} (n : Nat) (hc : content c = [] ∧ Good c) :
    content (switchRead c n).rest = [] ∧ Good (switchRead c n).rest := by
  have hf := switchRead_live.faithful c n
  rw [hc.1] at hf
  exact ⟨(List.append_eq_nil_iff.mp hf).2, switchRead_live.good_rest c n hc.2⟩

/-- One segment that fits the `SwitchConn` is read whole by the peek. -/
theorem peek_single_segment {stream : List UInt8} (hne : stream ≠ [])
    (hlen : stream.length ≤ switchConnSize) :
    peek segmentsRead (newSwitchConn [stream]) 1 =
      (some (stream.take 1), { size := switchConnSize, pending := stream, src := [], err := false }) := by
  have hfill : fill segmentsRead (newSwitchConn [stream]) =
      { size := switchConnSize, pending := stream, src := [], err := false } := by
    show fillLoop segmentsRead (99 + 1) _ = _
    rw [fillLoop]
    simp [newSwitchConn, newReaderSize, switchConnSize, minReadBufferSize, segmentsRead,
      hne, show stream.length ≤ 2048 from hlen]
  have hloop : peekLoop segmentsRead 1 1 (newSwitchConn [stream]) =
      { size := switchConnSize, pending := stream, src := [], err := false } := by
    rw [peekLoop, if_pos (by simp [newSwitchConn, newReaderSize, switchConnSize,
      minReadBufferSize]), hfill, peekLoop]
  have hpos : 1 ≤ stream.length := List.length_pos_of_ne_nil hne
  simp only [peek, hloop, hpos, ↓reduceIte]

/-- The request reader's first fill takes everything the `SwitchConn` holds. -/
theorem fill_newReader_drains {stream : List UInt8} (hne : stream ≠ [])
    (hlen : stream.length ≤ switchConnSize) :
    let c := (fill switchRead
      (newReader ({ size := switchConnSize, pending := stream, src := [], err := false } :
        SwitchConn))).src
    content c = [] ∧ Good c := by
  have hlen' : stream.length ≤ 4096 := by
    unfold switchConnSize at hlen
    omega
  have hread : switchRead { size := switchConnSize, pending := stream, src := [], err := false } 4096 =
      ⟨stream, false, { size := switchConnSize, pending := [], src := [], err := false }⟩ := by
    simp [switchRead, Bufio.read, hne, List.take_of_length_le hlen', List.drop_of_length_le hlen']
  show content (fillLoop switchRead (99 + 1) _).src = [] ∧ Good (fillLoop switchRead (99 + 1) _).src
  rw [fillLoop]
  simp only [newReader, newReaderSize, defaultBufSize, minReadBufferSize, List.length_nil,
    Nat.sub_zero, show max 4096 16 = 4096 from rfl, hread]
  simp [hne, content, Good, Reader.content, Reader.Good, SegmentsNonempty, switchConnSize]

/-- An HTTP request arriving in one segment that fits the `SwitchConn` leaves
the connection it hands on empty, whatever followed the request's header. -/
theorem handleConnection_http_single_segment {env : Env} {fuel : Nat} {stream : List UInt8}
    {h : Handoff SwitchConn} (hne : stream ≠ []) (hlen : stream.length ≤ switchConnSize)
    (h5 : stream.headD 0 ≠ 5) (h4 : stream.headD 0 ≠ 4)
    (hh : handleConnection env fuel [stream] = .ok h) :
    content h.conn = [] ∧ Good h.conn := by
  have hhead : (stream.take 1).headD 0 = stream.headD 0 := by
    obtain ⟨x, xs, rfl⟩ := List.exists_cons_of_ne_nil hne
    rfl
  unfold handleConnection at hh
  rw [peek_single_segment hne hlen] at hh
  dsimp only at hh
  rw [if_neg (hhead ▸ h5), if_neg (hhead ▸ h4)] at hh
  obtain ⟨c, hc, hcases⟩ := Http.serveConn_src_fill (fun c => content c = [] ∧ Good c)
    (fun c n hc => drained_read n hc) env fuel (fill_newReader_drains hne hlen)
    (mapError_eq_ok.mp hh)
  rcases hcases with rfl | rfl <;> exact hc

theorem connect_early_data_lost :
    ∃ c, handleConnection { userConnectHandle := false, netOk := true } 8
        [Http.ascii "CONNECT a:443 HTTP/1.1\r\n\r\n" ++ Http.ascii "X"] = .ok (.tunnel c) ∧
      upstream switchRead 8 c = [] := by
  obtain ⟨c, hc⟩ : ∃ c, handleConnection { userConnectHandle := false, netOk := true } 8
      [Http.ascii "CONNECT a:443 HTTP/1.1\r\n\r\n" ++ Http.ascii "X"] = .ok (.tunnel c) :=
    ⟨_, rfl⟩
  obtain ⟨hnil, hgood⟩ := handleConnection_http_single_segment (by decide) (by decide)
    (by decide) (by decide) hc
  change content c = [] at hnil
  change Good c at hgood
  refine ⟨c, hc, ?_⟩
  rw [upstream_eq hgood (by rw [hnil]; decide), hnil]

end Mixed
