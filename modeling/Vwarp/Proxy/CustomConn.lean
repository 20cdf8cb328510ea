import Vwarp.Proxy.Handshake

/-!
# The HTTP server's replaying connection

For a request that is not `CONNECT`, `handleHTTP` gives the user handler a
`customConn`: its first `Read` writes the request out again with
`req.Write`, and reads after that go to the client connection. What
`req.Write` produces is taken as any byte string; `none` is a failed write,
whose error the `Read` then overwrites with the connection's own result.

A read here sees the caller's buffer as it was, since `copy` only overwrites
the front of it, and returns the buffer after the call with `n`: the caller
uses `p[:n]`.
-/

namespace Http

open GoIo

/-- What a `Read(p)` leaves: the buffer after the call, `n`, whether it
returned an error, and the reader after. -/
structure ReadResult (σ : Type) where
  buf : List UInt8
  n : Nat
  err : Bool
  rest : σ

variable {σ : Type} (rd : σ → Nat → Chunk σ)

/-- `Read(p)` on a connection: what it reads lands at the front of `p`. -/
def connRead (s : σ) (p : List UInt8) : ReadResult σ :=
  let c := rd s p.length
  ⟨copy p c.data, c.data.length, c.err, c.rest⟩

structure CustomConn (σ : Type) where
  conn : σ
  /-- What `c.req.Write` puts in the buffer; `none` when it fails. -/
  req : Option (List UInt8)
  initialData : List UInt8 := []
  /-- Whether `c.once` has run. -/
  once : Bool := false

/-- `customConn.Read`. -/
def CustomConn.read (c : CustomConn σ) (p : List UInt8) : ReadResult (CustomConn σ) :=
  -- c.once.Do: a failed write leaves initialData nil
  let c : CustomConn σ :=
    if c.once then c
    else match c.req with
      | some data => { c with initialData := data, once := true }
      | none => { c with once := true }
  if c.initialData ≠ [] then
    ⟨copy p c.initialData, p.length, false, { c with initialData := [] }⟩
  else
    let r := connRead rd c.conn p
    ⟨r.buf, r.n, r.err, { c with conn := r.rest }⟩

/-- What a caller gets from `Read` calls with the buffers `ps`: `p[:n]` of
each, until a call returns an error. -/
def CustomConn.readAll : CustomConn σ → List (List UInt8) → List UInt8
  | _, [] => []
  | c, p :: ps =>
    let r := c.read rd p
    r.buf.take r.n ++ if r.err then [] else CustomConn.readAll r.rest ps


/-- The first read of a fresh connection whose request wrote some bytes:
they go to the front of the buffer, `n` is the buffer's length, and the
bytes are dropped. -/
theorem read_fresh (c : σ) {s : List UInt8} (hs : s ≠ []) (p : List UInt8) :
    (⟨c, some s, [], false⟩ : CustomConn σ).read rd p =
      ⟨copy p s, p.length, false, ⟨c, some s, [], true⟩⟩ := by
  simp [CustomConn.read, hs]

/-- Once the request's bytes are gone, a read is the connection's. -/
theorem read_drained (c : σ) (req : Option (List UInt8)) (p : List UInt8) :
    (⟨c, req, [], true⟩ : CustomConn σ).read rd p =
      ⟨(connRead rd c p).buf, (connRead rd c p).n, (connRead rd c p).err,
        ⟨(connRead rd c p).rest, req, [], true⟩⟩ := by
  simp [CustomConn.read]

variable {rd} {flat : σ → List UInt8} {good : σ → Prop}

/-- After the request's bytes, the reads return the front of the connection's
stream. -/
theorem readAll_drained (hl : Live rd flat good) (req : Option (List UInt8)) (ps : List (List UInt8)) :
    ∀ c, good c → CustomConn.readAll rd ⟨c, req, [], true⟩ ps <+: flat c := by
  induction ps with
  | nil =>
    intro c _
    exact List.nil_prefix
  | cons p ps ih =>
    intro c hc
    have hlen := hl.length_le c p.length hc
    have hfaith := hl.faithful c p.length
    have htake : (copy p (rd c p.length).data).take (rd c p.length).data.length = (rd c p.length).data :=
      take_copy hlen
    rw [CustomConn.readAll, read_drained]
    by_cases he : (rd c p.length).err = true
    · simp only [connRead, htake, he, if_true, List.append_nil]
      exact ⟨flat (rd c p.length).rest, hfaith⟩
    · simp only [connRead, htake, he]
      rw [← hfaith]
      exact (List.prefix_append_right_inj _).mpr (ih _ (hl.good_rest c p.length hc))


/-- The replaying connection is not a faithful stream. Its first read copies
as much of the request's bytes `s` as fits in `p`, reports `n = len(p)`
whatever was copied, and drops the bytes that did not fit: the caller gets
the front of `s`, then the old bytes of `p` past `len(s)`, then the front of
the connection's stream. -/
theorem first_read_misreports (hl : Live rd flat good) (c : σ) (hc : good c) {s : List UInt8}
    (hs : s ≠ []) (p : List UInt8) (ps : List (List UInt8)) :
    let r := (⟨c, some s, [], false⟩ : CustomConn σ).read rd p
    r.n = p.length ∧ r.buf = copy p s ∧ r.err = false ∧
      ∃ t, t <+: flat c ∧
        CustomConn.readAll rd ⟨c, some s, [], false⟩ (p :: ps) = s.take p.length ++ p.drop s.length ++ t := by
  intro r
  have hr : r = ⟨copy p s, p.length, false, ⟨c, some s, [], true⟩⟩ := read_fresh rd c hs p
  refine ⟨by rw [hr], by rw [hr], by rw [hr], ?_⟩
  refine ⟨_, readAll_drained hl (some s) ps c hc, ?_⟩
  have hbuf : (copy p s).take p.length = copy p s := List.take_of_length_le (length_copy p s).le
  rw [CustomConn.readAll, read_fresh rd c hs p]
  simp only [hbuf, Bool.false_eq_true, if_false]
  rfl


/-- The request line's first bytes `GET` replayed over a connection that then
holds the byte 9: a four-byte buffer gets a stale zero after them, a two-byte
buffer loses the `T`. -/
theorem first_read_misreports_get :
    CustomConn.readAll bufferRead ⟨[9], some [71, 69, 84], [], false⟩ [[0, 0, 0, 0], [0, 0]] =
        [71, 69, 84, 0, 9] ∧
      CustomConn.readAll bufferRead ⟨[9], some [71, 69, 84], [], false⟩ [[0, 0], [0, 0]] = [71, 69, 9] ∧
      let r := (⟨[9], some [71, 69, 84], [], false⟩ : CustomConn (List UInt8)).read bufferRead [0, 0, 0, 0]
      r.n = 4 ∧ r.buf = copy [0, 0, 0, 0] [71, 69, 84] ∧ r.err = false ∧
        ∃ t, t <+: [9] ∧ CustomConn.readAll bufferRead ⟨[9], some [71, 69, 84], [], false⟩
          [[0, 0, 0, 0], [0, 0]] = [71, 69, 84] ++ [0] ++ t :=
  ⟨by decide, by decide,
    first_read_misreports bufferRead_live [9] trivial (by decide) [0, 0, 0, 0] [[0, 0]]⟩

end Http
