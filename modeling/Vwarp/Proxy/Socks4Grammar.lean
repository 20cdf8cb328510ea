import Vwarp.Proxy.Handshake

/-!
# The SOCKS4 request grammar

A SOCKS4 request is `04 CD DSTPORT DSTIP USERID 00`, and a SOCKS4a request
adds `HOST 00` after it; the protocol marks SOCKS4a by a `DSTIP` of
`0.0.0.x` with `x ≠ 0`. `readAddrAndUser` compares `DSTIP` with `0.0.0.1`
only. Over a live connection, the server reads exactly the request of the
grammar it implements, and fails on a stream that ends inside one; for the
other `0.0.0.x` it reads no host, which stays in the stream ahead of the
tunnelled bytes.
-/

namespace Socks4

open GoIo BigEndian

/-- Zero-terminated strings: the terminator ends the first string wherever
the two are cut. -/
theorem append_cons_inj_of_not_mem {α : Type} {a : α} {u v x y : List α} (hu : a ∉ u) (hv : a ∉ v)
    (h : u ++ a :: x = v ++ a :: y) : u = v ∧ x = y := by
  induction u generalizing v with
  | nil =>
    cases v with
    | nil => simpa using h
    | cons b v =>
      simp only [List.nil_append, List.cons_append, List.cons.injEq] at h
      exact absurd (h.1 ▸ List.mem_cons_self) hv
  | cons b u ih =>
    cases v with
    | nil =>
      simp only [List.cons_append, List.nil_append, List.cons.injEq] at h
      exact absurd (h.1 ▸ List.mem_cons_self) hu
    | cons c v =>
      simp only [List.cons_append, List.cons.injEq] at h
      obtain ⟨rfl, h⟩ := h
      obtain ⟨huv, hxy⟩ := ih (fun hm => hu (List.mem_cons_of_mem b hm))
        (fun hm => hv (List.mem_cons_of_mem b hm)) h
      exact ⟨by rw [huv], hxy⟩

/-- A request as the server reads it: the host and its terminator follow
only the address `0.0.0.1`. -/
def codeRequest (cmd : UInt8) (port ip user host : List UInt8) : List UInt8 :=
  [socks4Version, cmd] ++ port ++ ip ++ user ++ [0] ++ (if ip = isSocks4a then host ++ [0] else [])

/-- The destination the server takes from such a request. -/
def codeDest (port ip user host : List UInt8) : AddrAndUser :=
  if ip = isSocks4a then { name := host, ip := [], port := ofBytes port, username := user }
  else { name := [], ip, port := ofBytes port, username := user }

/-- A `DSTIP` that marks SOCKS4a in the protocol: `0.0.0.x` with `x ≠ 0`. -/
def Socks4aMark (ip : List UInt8) : Prop := ip.take 3 = [0, 0, 0] ∧ ip.getD 3 0 ≠ 0

instance (ip : List UInt8) : Decidable (Socks4aMark ip) := inferInstanceAs (Decidable (_ ∧ _))

/-- A request of the protocol's grammar. -/
def protocolRequest (cmd : UInt8) (port ip user host : List UInt8) : List UInt8 :=
  [socks4Version, cmd] ++ port ++ ip ++ user ++ [0] ++ (if Socks4aMark ip then host ++ [0] else [])


section Spec

variable {σ : Type} {rd : σ → Nat → Chunk σ} {flat : σ → List UInt8} {good : σ → Prop}

/-- A string without a zero byte and its terminator are read whole, given
fuel for each byte. -/
theorem readBytes_append (hl : Live rd flat good) {bs t : List UInt8} (hz : 0 ∉ bs) :
    ∀ {fuel : Nat} {s : σ}, good s → bs.length < fuel → flat s = bs ++ 0 :: t →
      ∃ s', readBytes rd fuel s = some (bs, s') ∧ flat s' = t ∧ good s' := by
  induction bs with
  | nil =>
    intro fuel s hs hfuel hst
    obtain ⟨f, rfl⟩ : ∃ f, fuel = f + 1 := ⟨fuel - 1, by simp at hfuel; omega⟩
    obtain ⟨s₁, hb, hf₁, hg₁⟩ := readByte_cons hl hs hst
    exact ⟨s₁, by simp [readBytes, hb], hf₁, hg₁⟩
  | cons b bs ih =>
    intro fuel s hs hfuel hst
    obtain ⟨f, rfl⟩ : ∃ f, fuel = f + 1 := ⟨fuel - 1, by simp at hfuel; omega⟩
    have hb0 : b ≠ 0 := fun h => hz (h ▸ List.mem_cons_self)
    obtain ⟨s₁, hb, hf₁, hg₁⟩ := readByte_cons hl hs hst
    obtain ⟨s', hr, hf', hg'⟩ := ih (fun h => hz (List.mem_cons_of_mem b h)) hg₁
      (by simp at hfuel; omega) hf₁
    exact ⟨s', by simp [readBytes, hb, hb0, hr], hf', hg'⟩

/-- The address and user fields of a request are read whole. -/
theorem readAddrAndUser_append (hl : Live rd flat good) {fuel : Nat} {s : σ} (hs : good s)
    {port ip user host rest : List UInt8} (hp : port.length = 2) (hip : ip.length = 4)
    (hu : 0 ∉ user) (hh : 0 ∉ host) (hfuel : user.length < fuel ∧ host.length < fuel)
    (hst : flat s = port ++ ip ++ user ++ [0] ++ (if ip = isSocks4a then host ++ [0] else []) ++ rest) :
    ∃ s', readAddrAndUser rd fuel s = some (codeDest port ip user host, s') ∧ flat s' = rest ∧ good s' := by
  simp only [List.append_assoc] at hst
  obtain ⟨s₁, hr₁, hf₁, hg₁⟩ := readFull_append hl hs hst
  obtain ⟨s₂, hr₂, hf₂, hg₂⟩ := readFull_append hl hg₁ hf₁
  rw [hp] at hr₁
  rw [hip] at hr₂
  by_cases h4a : ip = isSocks4a
  · rw [if_pos h4a] at hf₂
    simp only [List.append_assoc, List.cons_append] at hf₂
    obtain ⟨s₃, hr₃, hf₃, hg₃⟩ := readBytes_append hl hu hg₂ hfuel.1 hf₂
    obtain ⟨s₄, hr₄, hf₄, hg₄⟩ := readBytes_append hl hh hg₃ hfuel.2 (by simpa using hf₃)
    refine ⟨s₄, ?_, hf₄, hg₄⟩
    simp [readAddrAndUser, hr₁, hr₂, hr₃, hr₄, h4a, codeDest]
  · rw [if_neg h4a] at hf₂
    simp only [List.singleton_append, List.nil_append] at hf₂
    obtain ⟨s₃, hr₃, hf₃, hg₃⟩ := readBytes_append hl hu hg₂ hfuel.1 hf₂
    refine ⟨s₃, ?_, hf₃, hg₃⟩
    simp [readAddrAndUser, hr₁, hr₂, hr₃, h4a, codeDest]

/-- A request of the grammar the server implements is read whole, and nothing
after it. -/
theorem serveConn_codeRequest (hl : Live rd flat good) {fuel : Nat} {s : σ} (hs : good s)
    {cmd : UInt8} {port ip user host rest : List UInt8} (hp : port.length = 2) (hip : ip.length = 4)
    (hu : 0 ∉ user) (hh : 0 ∉ host) (hfuel : user.length < fuel ∧ host.length < fuel)
    (hst : flat s = codeRequest cmd port ip user host ++ rest) :
    ∃ s', serveConn rd fuel s = .ok ({ command := cmd, dest := codeDest port ip user host }, s') ∧
      flat s' = rest ∧ good s' := by
  simp only [codeRequest, List.append_assoc, List.cons_append, List.nil_append] at hst
  obtain ⟨s₁, hb₁, hf₁, hg₁⟩ := readByte_cons hl hs hst
  obtain ⟨s₂, hb₂, hf₂, hg₂⟩ := readByte_cons hl hg₁ hf₁
  obtain ⟨s₃, hr, hf₃, hg₃⟩ := readAddrAndUser_append hl hg₂ hp hip hu hh hfuel (by simpa using hf₂)
  refine ⟨s₃, ?_, hf₃, hg₃⟩
  simp [serveConn, hb₁, hb₂, hr]

/-- The destinations `readAddrAndUser` returns: a user and a name without a
zero byte, and a host name for `0.0.0.1` or four other address bytes. -/
def AddrAndUser.Parsed (a : AddrAndUser) : Prop :=
  0 ∉ a.username ∧ 0 ∉ a.name ∧ (a.ip = [] ∨ (a.name = [] ∧ a.ip.length = 4 ∧ a.ip ≠ isSocks4a))

theorem readAddrAndUser_parsed (hl : Live rd flat good) {fuel : Nat} {s s' : σ} {a : AddrAndUser}
    (hs : good s) (h : readAddrAndUser rd fuel s = some (a, s')) : a.Parsed := by
  obtain ⟨-, hu, hn, -⟩ := readAddrAndUser_ok hl fuel hs h
  refine ⟨hu, hn, ?_⟩
  unfold readAddrAndUser at h
  split at h
  · cases h
  · next port s₁ hp =>
    split at h
    · cases h
    · next ip s₂ hi =>
      obtain ⟨-, hlen, -⟩ := readFull_some hl (readFull_some hl hs hp).2.2 hi
      split at h
      · cases h
      · split at h
        · split at h
          · cases h
          · simp only [Option.some.injEq, Prod.mk.injEq] at h
            obtain ⟨rfl, -⟩ := h
            exact .inl rfl
        · next h4a =>
          simp only [Option.some.injEq, Prod.mk.injEq] at h
          obtain ⟨rfl, -⟩ := h
          exact .inr ⟨rfl, hlen, h4a⟩

theorem serveConn_parsed (hl : Live rd flat good) {fuel : Nat} {s s' : σ} {req : Request}
    (hs : good s) (h : serveConn rd fuel s = .ok (req, s')) : req.dest.Parsed := by
  unfold serveConn at h
  split at h
  · cases h
  · next version s₁ hb =>
    split at h
    · cases h
    · split at h
      · cases h
      · next cmd s₂ hc =>
        split at h
        · cases h
        · next dest s₃ ha =>
          simp only [Except.ok.injEq, Prod.mk.injEq] at h
          obtain ⟨rfl, -⟩ := h
          exact readAddrAndUser_parsed hl (readByte_some hl (readByte_some hl hs hb).2 hc).2 ha

end Spec

/-- The bytes a parsed destination came from make a request of the server's
grammar. -/
theorem AddrAndUser.Parsed.wire {a : AddrAndUser} (ha : a.Parsed) (cmd : UInt8) :
    ∃ port ip, port.length = 2 ∧ ip.length = 4 ∧
      [socks4Version, cmd] ++ a.wire = codeRequest cmd port ip a.username a.name := by
  obtain ⟨-, -, hip | ⟨hname, hlen, h4a⟩⟩ := ha
  · refine ⟨toBytes 2 a.port, isSocks4a, by simp, rfl, ?_⟩
    simp [AddrAndUser.wire, codeRequest, hip]
  · refine ⟨toBytes 2 a.port, a.ip, by simp, hlen, ?_⟩
    simp [AddrAndUser.wire, codeRequest, hname, hlen, h4a]

/-- Requests of the server's grammar are prefix-free: one is never a proper
front of another. -/
theorem codeRequest_append_inj {cmd cmd' : UInt8} {port ip user host port' ip' user' host' z z' : List UInt8}
    (hp : port.length = 2) (hip : ip.length = 4) (hu : 0 ∉ user) (hh : 0 ∉ host)
    (hp' : port'.length = 2) (hip' : ip'.length = 4) (hu' : 0 ∉ user') (hh' : 0 ∉ host')
    (h : codeRequest cmd port ip user host ++ z = codeRequest cmd' port' ip' user' host' ++ z') :
    z = z' := by
  simp only [codeRequest, List.append_assoc, List.cons_append, List.nil_append, List.cons.injEq] at h
  obtain ⟨-, -, h⟩ := h
  obtain ⟨-, h⟩ := List.append_inj h (by rw [hp, hp'])
  obtain ⟨hipeq, h⟩ := List.append_inj h (by rw [hip, hip'])
  subst hipeq
  obtain ⟨-, h⟩ := append_cons_inj_of_not_mem hu hu' h
  by_cases h4a : ip = isSocks4a
  · simp only [if_pos h4a, List.append_assoc, List.singleton_append] at h
    exact (append_cons_inj_of_not_mem hh hh' h).2
  · simpa only [if_neg h4a, List.nil_append] using h

section Spec

variable {σ : Type} {rd : σ → Nat → Chunk σ} {flat : σ → List UInt8} {good : σ → Prop}

/-- A stream that ends inside a request of the server's grammar is refused:
an accepted request would be a proper front of it. -/
theorem serveConn_truncated (hl : Live rd flat good) {fuel : Nat} {s : σ} (hs : good s)
    {cmd : UInt8} {port ip user host more : List UInt8} (hp : port.length = 2) (hip : ip.length = 4)
    (hu : 0 ∉ user) (hh : 0 ∉ host) (hmore : more ≠ [])
    (hst : flat s ++ more = codeRequest cmd port ip user host) :
    ∃ e, serveConn rd fuel s = .error e := by
  cases h : serveConn rd fuel s with
  | error e => exact ⟨e, rfl⟩
  | ok r =>
    obtain ⟨req, s'⟩ := r
    obtain ⟨-, hflat⟩ := serveConn_ok hl fuel hs h
    have hparsed := serveConn_parsed hl hs h
    obtain ⟨port', ip', hp', hip', hwire⟩ := hparsed.wire req.command
    rw [hflat, hwire] at hst
    have hrest : flat s' ++ more = [] :=
      codeRequest_append_inj hp' hip' hparsed.1 hparsed.2.1 hp hip hu hh
        (by rw [List.append_nil, ← hst, List.append_assoc])
    exact absurd (List.append_eq_nil_iff.mp hrest).2 hmore

/-- The SOCKS4 server reads exactly the request grammar it implements, where
only `0.0.0.1` marks SOCKS4a: with fuel for the strings, such a request is
read whole with its user and destination and what follows is left, and a
stream that ends inside one is refused. A protocol SOCKS4a request marked by
another `0.0.0.x` is read as SOCKS4: the destination is that address, and its
host name and terminator are left in the stream ahead of the payload. -/
theorem socks4_request_grammar (hl : Live rd flat good) (fuel : Nat) (cmd : UInt8)
    (port ip user host : List UInt8) (hp : port.length = 2) (hip : ip.length = 4) (hu : 0 ∉ user)
    (hh : 0 ∉ host) :
    (user.length < fuel ∧ host.length < fuel → ∀ rest s, good s →
      flat s = codeRequest cmd port ip user host ++ rest →
      ∃ s', serveConn rd fuel s = .ok ({ command := cmd, dest := codeDest port ip user host }, s') ∧
        flat s' = rest) ∧
    (∀ more s, good s → more ≠ [] → flat s ++ more = codeRequest cmd port ip user host →
      ∃ e, serveConn rd fuel s = .error e) ∧
    (Socks4aMark ip → ip ≠ isSocks4a → user.length < fuel → ∀ rest s, good s →
      flat s = protocolRequest cmd port ip user host ++ rest →
      ∃ s', serveConn rd fuel s =
          .ok ({ command := cmd, dest := { name := [], ip, port := ofBytes port, username := user } }, s') ∧
        flat s' = host ++ 0 :: rest) := by
  refine ⟨?_, ?_, ?_⟩
  · intro hfuel rest s hs hst
    obtain ⟨s', hr, hrest, -⟩ := serveConn_codeRequest hl hs hp hip hu hh hfuel hst
    exact ⟨s', hr, hrest⟩
  · intro more s hs hmore hst
    exact serveConn_truncated hl hs hp hip hu hh hmore hst
  · intro hmark h4a hfuel rest s hs hst
    have hcode : flat s = codeRequest cmd port ip user [] ++ (host ++ 0 :: rest) := by
      rw [hst, protocolRequest, codeRequest, if_pos hmark, if_neg h4a]
      simp
    have hdest : codeDest port ip user [] = { name := [], ip, port := ofBytes port, username := user } := by
      simp [codeDest, h4a]
    obtain ⟨s', hr, hrest, -⟩ :=
      serveConn_codeRequest hl hs hp hip hu (List.not_mem_nil) ⟨hfuel, by simp; omega⟩ hcode
    exact ⟨s', hdest ▸ hr, hrest⟩

end Spec

/-- A SOCKS4a request to host `h` marked by `0.0.0.2`, followed by one payload
byte: the server connects to 0.0.0.2 and `h` with its zero comes first in the
payload. -/
theorem socks4a_mark_two_leaks_host :
    ∃ s', serveConn bufferRead 8 (protocolRequest 1 [0, 80] [0, 0, 0, 2] [117] [104] ++ [7]) =
        .ok (⟨1, ⟨[], [0, 0, 0, 2], ofBytes [0, 80], [117]⟩⟩, s') ∧
      id s' = [104] ++ 0 :: [7] :=
  (socks4_request_grammar bufferRead_live 8 1 [0, 80] [0, 0, 0, 2] [117] [104] (by decide) (by decide)
    (by decide) (by decide)).2.2 (by decide) (by decide) (by decide) [7] _ trivial rfl

end Socks4
