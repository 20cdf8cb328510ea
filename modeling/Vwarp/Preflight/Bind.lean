import Mathlib
import Vwarp.Netip
import Vwarp.Preflight.Packets
import Vwarp.Config.Validator

/-!
# The AtomicNoize bind

`preflightbind.Bind` wraps the WireGuard socket. `Send` first runs the
preflight when the batch holds a handshake initiation and the per-destination
rate limit allows it (the framed I1 payload, `JcAfterI1` and `JcBeforeHS`
junk packets, the I2..I5 signatures), then starts, once per destination, a
goroutine that sends `Jc - JcBeforeHS` junk packets after any message whose
first byte is 1, and last hands the batch to the inner bind.

The model of `Send` returns what it hands to the inner bind before it returns
(`sync`) and what the goroutine it starts sends (`spawned`), each packet
labelled by the step that sends it; the goroutine's packets interleave with
later calls in any order. A map entry that is absent reads as Go's zero value:
no `lastSent` time, whose distance to any clock reading exceeds the interval.
Sleeps are not modelled; `now` is the clock reading at the rate-limit check.
-/

namespace Preflight

open Netip GoRuntime ExceptStep ConfigValidator

def messageInitiationSize : Nat := 148

def messageInitiationType : UInt8 := 1

/-- `handshakeInitiation`. -/
def handshakeInitiation (buf : List UInt8) : Bool :=
  if buf.length < messageInitiationSize then false
  else buf.head? = some messageInitiationType && messageInitiationSize ≤ buf.length

/-- The test of `maybeSendPostHandshakeJunk`: a message whose first byte is 1. -/
def handshakeRequest (buf : List UInt8) : Bool :=
  buf.head? = some 1

inductive Sent where
  | frame (packet : List UInt8)
  | junk (packet : List UInt8)
  | signature (packet : List UInt8)
  | batch (bufs : List (List UInt8))
  deriving DecidableEq, Repr

/-- The batch the inner bind's `Send` receives. -/
def Sent.bufs : Sent → List (List UInt8)
  | .frame packet | .junk packet | .signature packet => [packet]
  | .batch bufs => bufs

def Sent.isJunk : Sent → Bool
  | .junk _ => true
  | _ => false

def Sent.isSignature : Sent → Bool
  | .signature _ => true
  | _ => false

structure Bind where
  payload : List UInt8
  atomicNoizeConfig : Option AtomicNoizeConfig
  lastSent : Addr → Option Int
  interval : Int
  postHandshakeSent : Addr → Bool

/-- `NewWithAtomicNoize`: the I1 payload is parsed once, with the clock and
random bytes of that moment. -/
def newWithAtomicNoize (config : Option AtomicNoizeConfig) (minInterval : Int) (d : CpsDraws) :
    Except CpsError Bind :=
  let payload : Except CpsError (List UInt8) :=
    match config with
    | some c => if c.i1 ≠ "" then parseCPSPacket d c.i1 else .ok []
    | none => .ok []
  payload.map fun payload =>
    { payload, atomicNoizeConfig := config, lastSent := fun _ => none, interval := minInterval,
      postHandshakeSent := fun _ => false }

/-- The clock reading and random draws of one `Send`. -/
structure SendDraws where
  now : Int := 0
  spi : Nat → UInt8 := fun _ => 0
  afterI1 : Nat → JunkDraw := fun _ => {}
  beforeHS : Nat → JunkDraw := fun _ => {}
  signature : Nat → CpsDraws := fun _ => {}
  postHandshake : Nat → JunkDraw := fun _ => {}

/-- A junk loop of `n` rounds; round `k` draws from `draws k`. -/
def junkPackets (c : AtomicNoizeConfig) (draws : Nat → JunkDraw) : Nat → Except Panic (List Sent)
  | 0 => .ok []
  | n + 1 =>
    (junkPackets c draws n).bind fun sent =>
      (generateJunkPacket c (draws n)).map fun packet => sent ++ [.junk packet]

/-- The signature loop: a signature that parses to a non-empty packet is sent,
one that fails to parse is skipped. -/
def signaturePackets (draws : Nat → CpsDraws) : Nat → List String → List Sent
  | _, [] => []
  | i, sig :: rest =>
    let sent : List Sent :=
      if sig = "" then []
      else
        match parseCPSPacket (draws i) sig with
        | .ok packet => if packet = [] then [] else [.signature packet]
        | .error _ => []
    sent ++ signaturePackets draws (i + 1) rest

def executeAtomicNoizePreflightUsingSameSocket (c : AtomicNoizeConfig) (payload : List UInt8)
    (d : SendDraws) : Except Panic (List Sent) :=
  let i1 : List Sent :=
    if c.i1 ≠ "" ∧ payload ≠ [] then [.frame (wrapInIKEv2Header payload d.spi)] else []
  (junkPackets c d.afterI1 c.jcAfterI1.toNat).bind fun afterI1 =>
    (junkPackets c d.beforeHS c.jcBeforeHS.toNat).map fun beforeHS =>
      i1 ++ afterI1 ++ beforeHS ++ signaturePackets d.signature 1 [c.i2, c.i3, c.i4, c.i5]

/-- The rate limit: no preflight to `dst` was recorded, or the last one is at
least `interval` before `now`. -/
def Bind.due (b : Bind) (dst : Addr) (now : Int) : Bool :=
  match b.lastSent dst with
  | none => true
  | some last => !decide (now - last < b.interval)

/-- `b.lastSent[dst] = now`. -/
def Bind.recordPreflight (b : Bind) (dst : Addr) (now : Int) : Bind :=
  { b with lastSent := Function.update b.lastSent dst (some now) }

/-- `b.postHandshakeSent[dst] = true`. -/
def Bind.recordPostHandshake (b : Bind) (dst : Addr) : Bind :=
  { b with postHandshakeSent := Function.update b.postHandshakeSent dst true }

/-- `maybePreflightUsingSameSocket`; the flag says whether the preflight
started, which is when `lastSent` is recorded. -/
def Bind.maybePreflightUsingSameSocket (b : Bind) (dst : Addr) (bufs : List (List UInt8))
    (d : SendDraws) : Except Panic (Bind × Bool × List Sent) :=
  if !bufs.any handshakeInitiation then .ok (b, false, [])
  else if !b.due dst d.now then .ok (b, false, [])
  else
    match b.atomicNoizeConfig with
    | none => .ok (b.recordPreflight dst d.now, true, [])
    | some c =>
      (executeAtomicNoizePreflightUsingSameSocket c b.payload d).map fun sent =>
        (b.recordPreflight dst d.now, true, sent)

/-- `maybeSendPostHandshakeJunk`; the list is what the goroutine sends. -/
def Bind.maybeSendPostHandshakeJunk (b : Bind) (dst : Addr) (bufs : List (List UInt8))
    (draws : Nat → JunkDraw) : Except Panic (Bind × List Sent) :=
  match b.atomicNoizeConfig with
  | none => .ok (b, [])
  | some c =>
    let remainingJunk := wrap64 (c.jc - c.jcBeforeHS)
    if remainingJunk ≤ 0 then .ok (b, [])
    else if !bufs.any handshakeRequest then .ok (b, [])
    else if b.postHandshakeSent dst then .ok (b, [])
    else
      (junkPackets c draws remainingJunk.toNat).map fun sent => (b.recordPostHandshake dst, sent)

structure Reaction where
  preflight : Bool
  sync : List Sent
  spawned : List Sent
  deriving DecidableEq, Repr

/-- `Bind.Send`. -/
def Bind.send (b : Bind) (dst : Addr) (bufs : List (List UInt8)) (d : SendDraws) :
    Except Panic (Bind × Reaction) :=
  (b.maybePreflightUsingSameSocket dst bufs d).bind fun (b₁, started, pre) =>
    (b₁.maybeSendPostHandshakeJunk dst bufs d.postHandshake).map fun (b₂, post) =>
      (b₂, { preflight := started, sync := pre ++ [.batch bufs], spawned := post })

structure Call where
  dst : Addr
  bufs : List (List UInt8)
  draws : SendDraws := {}

/-- A sequence of `Send` calls, with the reaction to each. -/
def Bind.run (b : Bind) : List Call → Except Panic (Bind × List (Call × Reaction))
  | [] => .ok (b, [])
  | call :: rest =>
    (b.send call.dst call.bufs call.draws).bind fun (b₁, r) =>
      (b₁.run rest).map fun (b₂, log) => (b₂, (call, r) :: log)

@[simp] theorem recordPreflight_lastSent (b : Bind) (dst : Addr) (now : Int) :
    (b.recordPreflight dst now).lastSent = Function.update b.lastSent dst (some now) := rfl

@[simp] theorem recordPreflight_postHandshakeSent (b : Bind) (dst : Addr) (now : Int) :
    (b.recordPreflight dst now).postHandshakeSent = b.postHandshakeSent := rfl

@[simp] theorem recordPreflight_atomicNoizeConfig (b : Bind) (dst : Addr) (now : Int) :
    (b.recordPreflight dst now).atomicNoizeConfig = b.atomicNoizeConfig := rfl

@[simp] theorem recordPreflight_payload (b : Bind) (dst : Addr) (now : Int) :
    (b.recordPreflight dst now).payload = b.payload := rfl

@[simp] theorem recordPreflight_interval (b : Bind) (dst : Addr) (now : Int) :
    (b.recordPreflight dst now).interval = b.interval := rfl

@[simp] theorem recordPostHandshake_lastSent (b : Bind) (dst : Addr) :
    (b.recordPostHandshake dst).lastSent = b.lastSent := rfl

@[simp] theorem recordPostHandshake_postHandshakeSent (b : Bind) (dst : Addr) :
    (b.recordPostHandshake dst).postHandshakeSent =
      Function.update b.postHandshakeSent dst true := rfl

@[simp] theorem recordPostHandshake_atomicNoizeConfig (b : Bind) (dst : Addr) :
    (b.recordPostHandshake dst).atomicNoizeConfig = b.atomicNoizeConfig := rfl

@[simp] theorem recordPostHandshake_payload (b : Bind) (dst : Addr) :
    (b.recordPostHandshake dst).payload = b.payload := rfl

@[simp] theorem recordPostHandshake_interval (b : Bind) (dst : Addr) :
    (b.recordPostHandshake dst).interval = b.interval := rfl

/-! ## One call -/

section Step

variable {b b₁ : Bind} {dst : Addr} {bufs : List (List UInt8)} {d : SendDraws}

/-- Whether a preflight starts: the batch holds an initiation and the rate
limit lets it through. -/
def Bind.preflightStarts (b : Bind) (dst : Addr) (bufs : List (List UInt8)) (now : Int) : Bool :=
  bufs.any handshakeInitiation && b.due dst now

/-- Whether the post-handshake goroutine starts, for a bind with configuration `c`. -/
def Bind.postHandshakeStarts (b : Bind) (c : AtomicNoizeConfig) (dst : Addr)
    (bufs : List (List UInt8)) : Bool :=
  decide (0 < wrap64 (c.jc - c.jcBeforeHS)) && bufs.any handshakeRequest &&
    !b.postHandshakeSent dst

theorem maybePreflight_eq {c : AtomicNoizeConfig} (hc : b.atomicNoizeConfig = some c)
    {started : Bool} {pre : List Sent}
    (h : b.maybePreflightUsingSameSocket dst bufs d = .ok (b₁, started, pre)) :
    started = b.preflightStarts dst bufs d.now ∧
      b₁ = (if started then b.recordPreflight dst d.now else b) ∧
      (started = false → pre = []) ∧
      (started = true → executeAtomicNoizePreflightUsingSameSocket c b.payload d = .ok pre) := by
  unfold Bind.maybePreflightUsingSameSocket at h
  unfold Bind.preflightStarts
  rw [hc] at h
  split at h
  · next hi =>
    simp only [Except.ok.injEq, Prod.mk.injEq] at h
    obtain ⟨rfl, rfl, rfl⟩ := h
    simp_all
  · next hi =>
    split at h
    · next hd =>
      simp only [Except.ok.injEq, Prod.mk.injEq] at h
      obtain ⟨rfl, rfl, rfl⟩ := h
      simp_all
    · next hd =>
      have hs : (bufs.any handshakeInitiation && b.due dst d.now) = true := by simp_all
      obtain ⟨sent, hx, he⟩ := map_eq_ok.mp h
      simp only [Prod.mk.injEq] at he
      obtain ⟨rfl, rfl, rfl⟩ := he
      simp [hs, hx]

theorem maybePostHandshake_eq {c : AtomicNoizeConfig} (hc : b.atomicNoizeConfig = some c)
    {draws : Nat → JunkDraw} {post : List Sent}
    (h : b.maybeSendPostHandshakeJunk dst bufs draws = .ok (b₁, post)) :
    b₁ = (if b.postHandshakeStarts c dst bufs then b.recordPostHandshake dst else b) ∧
      (b.postHandshakeStarts c dst bufs = false → post = []) ∧
      (b.postHandshakeStarts c dst bufs = true →
        junkPackets c draws (wrap64 (c.jc - c.jcBeforeHS)).toNat = .ok post) := by
  unfold Bind.maybeSendPostHandshakeJunk at h
  unfold Bind.postHandshakeStarts
  rw [hc] at h
  dsimp only at h
  split at h
  · next hr =>
    simp only [Except.ok.injEq, Prod.mk.injEq] at h
    obtain ⟨rfl, rfl⟩ := h
    simp [show ¬(0 < wrap64 (c.jc - c.jcBeforeHS)) by omega]
  · next hr =>
    split at h
    · next hq =>
      simp only [Except.ok.injEq, Prod.mk.injEq] at h
      obtain ⟨rfl, rfl⟩ := h
      simp_all
    · next hq =>
      split at h
      · next hs =>
        simp only [Except.ok.injEq, Prod.mk.injEq] at h
        obtain ⟨rfl, rfl⟩ := h
        simp [hs]
      · next hs =>
        obtain ⟨sent, hj, he⟩ := map_eq_ok.mp h
        simp only [Prod.mk.injEq] at he
        obtain ⟨rfl, rfl⟩ := he
        have hstart : b.postHandshakeStarts c dst bufs = true := by
          simp_all [Bind.postHandshakeStarts]
        simp_all [Bind.postHandshakeStarts]

@[simp] theorem postHandshakeStarts_recordPreflight (c : AtomicNoizeConfig) (now : Int)
    (dst' : Addr) :
    (b.recordPreflight dst' now).postHandshakeStarts c dst bufs = b.postHandshakeStarts c dst bufs :=
  rfl

/-- Everything one `Send` does, read off a call that did not panic. -/
theorem send_eq {c : AtomicNoizeConfig} (hc : b.atomicNoizeConfig = some c) {r : Reaction}
    (h : b.send dst bufs d = .ok (b₁, r)) :
    r.preflight = b.preflightStarts dst bufs d.now ∧
      (∃ pre, r.sync = pre ++ [.batch bufs] ∧ (r.preflight = false → pre = []) ∧
        (r.preflight = true → executeAtomicNoizePreflightUsingSameSocket c b.payload d = .ok pre)) ∧
      (b.postHandshakeStarts c dst bufs = false → r.spawned = []) ∧
      (b.postHandshakeStarts c dst bufs = true →
        junkPackets c d.postHandshake (wrap64 (c.jc - c.jcBeforeHS)).toNat = .ok r.spawned) ∧
      b₁ = (let b' := if r.preflight then b.recordPreflight dst d.now else b
        if b.postHandshakeStarts c dst bufs then b'.recordPostHandshake dst else b') := by
  obtain ⟨⟨bp, started, pre⟩, hp, hrest⟩ := bind_eq_ok.mp h
  obtain ⟨⟨bq, post⟩, hq, he⟩ := map_eq_ok.mp hrest
  simp only [Prod.mk.injEq] at he
  obtain ⟨rfl, rfl⟩ := he
  obtain ⟨rfl, rfl, hpre0, hpre1⟩ := maybePreflight_eq hc hp
  have hcp : (if b.preflightStarts dst bufs d.now then b.recordPreflight dst d.now
      else b).atomicNoizeConfig = some c := by
    split <;> simpa using hc
  obtain ⟨rfl, hpost0, hpost1⟩ := maybePostHandshake_eq hcp hq
  have hstart : (if b.preflightStarts dst bufs d.now then b.recordPreflight dst d.now
      else b).postHandshakeStarts c dst bufs = b.postHandshakeStarts c dst bufs := by
    split <;> simp
  rw [hstart] at hpost0 hpost1
  refine ⟨rfl, ⟨pre, rfl, hpre0, hpre1⟩, hpost0, hpost1, ?_⟩
  simp only [hstart]

theorem send_lastSent {c : AtomicNoizeConfig} (hc : b.atomicNoizeConfig = some c) {r : Reaction}
    (h : b.send dst bufs d = .ok (b₁, r)) :
    b₁.lastSent = if r.preflight then Function.update b.lastSent dst (some d.now) else b.lastSent := by
  obtain ⟨-, -, -, -, rfl⟩ := send_eq hc h
  split <;> split <;> simp_all

theorem send_postHandshakeSent {c : AtomicNoizeConfig} (hc : b.atomicNoizeConfig = some c)
    {r : Reaction} (h : b.send dst bufs d = .ok (b₁, r)) :
    b₁.postHandshakeSent = if b.postHandshakeStarts c dst bufs
      then Function.update b.postHandshakeSent dst true else b.postHandshakeSent := by
  obtain ⟨-, -, -, -, rfl⟩ := send_eq hc h
  split <;> split <;> simp_all

theorem send_keeps {c : AtomicNoizeConfig} (hc : b.atomicNoizeConfig = some c) {r : Reaction}
    (h : b.send dst bufs d = .ok (b₁, r)) :
    b₁.atomicNoizeConfig = b.atomicNoizeConfig ∧ b₁.payload = b.payload ∧
      b₁.interval = b.interval := by
  obtain ⟨-, -, -, -, rfl⟩ := send_eq hc h
  split <;> split <;> simp

end Step

/-! ## The packets of a preflight -/

section Packets

variable {c : AtomicNoizeConfig} {draws : Nat → JunkDraw}

theorem junkPackets_junk {n : Nat} {sent : List Sent} (h : junkPackets c draws n = .ok sent) :
    sent.length = n ∧ ∀ s ∈ sent, s.isJunk := by
  induction n generalizing sent with
  | zero =>
    simp only [junkPackets, Except.ok.injEq] at h
    simp [← h]
  | succ n ih =>
    obtain ⟨prev, hprev, hlast⟩ := bind_eq_ok.mp h
    obtain ⟨packet, -, rfl⟩ := map_eq_ok.mp hlast
    obtain ⟨hlen, hjunk⟩ := ih hprev
    refine ⟨by simp [hlen], ?_⟩
    intro s hs
    rcases List.mem_append.mp hs with hs | hs
    · exact hjunk s hs
    · simp_all [Sent.isJunk]

theorem junkPackets_ok (h0 : 0 ≤ c.jmin) (h1 : c.jmin ≤ c.jmax) (h2 : c.jmax ≤ 1400)
    (draws : Nat → JunkDraw) (n : Nat) :
    ∃ sent, junkPackets c draws n = .ok sent := by
  induction n with
  | zero => exact ⟨[], rfl⟩
  | succ n ih =>
    obtain ⟨sent, hs⟩ := ih
    obtain ⟨packet, hp⟩ := generateJunkPacket_ok c h0 h1 h2 (draws n)
    exact ⟨sent ++ [.junk packet], by simp [junkPackets, hs, hp]⟩

/-- What a preflight sends: the framed I1 payload when I1 is set and parsed to
bytes, then `JcAfterI1 + JcBeforeHS` junk packets, then the signatures I2..I5
that parse to bytes, in that order. -/
def PreflightShape (c : AtomicNoizeConfig) (payload : List UInt8) (d : SendDraws)
    (sent : List Sent) : Prop :=
  ∃ frame junk, sent = frame ++ junk ++ signaturePackets d.signature 1 [c.i2, c.i3, c.i4, c.i5] ∧
    (if c.i1 ≠ "" ∧ payload ≠ [] then
      ∃ header : List UInt8, header.length = 52 ∧ frame = [.frame (header ++ payload)]
    else frame = []) ∧
    junk.length = c.jcAfterI1.toNat + c.jcBeforeHS.toNat ∧ ∀ s ∈ junk, s.isJunk

theorem execute_shape {payload : List UInt8} {d : SendDraws} {sent : List Sent}
    (h : executeAtomicNoizePreflightUsingSameSocket c payload d = .ok sent) :
    PreflightShape c payload d sent := by
  obtain ⟨afterI1, ha, hrest⟩ := bind_eq_ok.mp h
  obtain ⟨beforeHS, hb, rfl⟩ := map_eq_ok.mp hrest
  obtain ⟨hla, hja⟩ := junkPackets_junk ha
  obtain ⟨hlb, hjb⟩ := junkPackets_junk hb
  refine ⟨if c.i1 ≠ "" ∧ payload ≠ [] then [.frame (wrapInIKEv2Header payload d.spi)] else [],
    afterI1 ++ beforeHS, by simp only [List.append_assoc], ?_, by simp [hla, hlb], ?_⟩
  · split
    · next hi =>
      obtain ⟨header, hlen, hw⟩ := wrapInIKEv2Header_eq payload hi.2 d.spi
      exact ⟨header, hlen, by rw [hw]⟩
    · rfl
  · intro s hs
    rcases List.mem_append.mp hs with hs | hs
    · exact hja s hs
    · exact hjb s hs

theorem execute_ok (h0 : 0 ≤ c.jmin) (h1 : c.jmin ≤ c.jmax) (h2 : c.jmax ≤ 1400)
    (payload : List UInt8) (d : SendDraws) :
    ∃ sent, executeAtomicNoizePreflightUsingSameSocket c payload d = .ok sent := by
  obtain ⟨afterI1, ha⟩ := junkPackets_ok h0 h1 h2 d.afterI1 c.jcAfterI1.toNat
  obtain ⟨beforeHS, hb⟩ := junkPackets_ok h0 h1 h2 d.beforeHS c.jcBeforeHS.toNat
  simp only [executeAtomicNoizePreflightUsingSameSocket, ha, hb, bind_ok, map_ok,
    Except.ok.injEq, exists_eq']

end Packets

/-! ## A sequence of calls -/

/-- The clock readings at which preflights to `dst` started. -/
def preflightTimes (dst : Addr) (log : List (Call × Reaction)) : List Int :=
  (log.filter fun e => e.1.dst = dst && e.2.preflight).map fun e => e.1.draws.now

/-- The junk the post-handshake goroutines for `dst` send. -/
def postJunk (dst : Addr) (log : List (Call × Reaction)) : List Sent :=
  (log.filter fun e => e.1.dst = dst).flatMap fun e => e.2.spawned

section Run

variable {c : AtomicNoizeConfig} {b b' : Bind} {dst : Addr}

theorem handshakeRequest_of_initiation {buf : List UInt8} (h : handshakeInitiation buf = true) :
    handshakeRequest buf = true := by
  unfold handshakeInitiation at h
  split at h
  · cases h
  · simp only [Bool.and_eq_true, decide_eq_true_eq, messageInitiationType] at h
    simpa [handshakeRequest] using of_decide_eq_true h.1

theorem maybePreflight_ok (hc : b.atomicNoizeConfig = some c) (h0 : 0 ≤ c.jmin)
    (h1 : c.jmin ≤ c.jmax) (h2 : c.jmax ≤ 1400) (dst : Addr) (bufs : List (List UInt8))
    (d : SendDraws) : ∃ x, b.maybePreflightUsingSameSocket dst bufs d = .ok x := by
  unfold Bind.maybePreflightUsingSameSocket
  split
  · exact ⟨_, rfl⟩
  · split
    · exact ⟨_, rfl⟩
    · obtain ⟨sent, hs⟩ := execute_ok h0 h1 h2 b.payload d
      simp [hc, hs]

theorem maybePostHandshake_ok (hc : b.atomicNoizeConfig = some c) (h0 : 0 ≤ c.jmin)
    (h1 : c.jmin ≤ c.jmax) (h2 : c.jmax ≤ 1400) (dst : Addr) (bufs : List (List UInt8))
    (draws : Nat → JunkDraw) : ∃ x, b.maybeSendPostHandshakeJunk dst bufs draws = .ok x := by
  unfold Bind.maybeSendPostHandshakeJunk
  rw [hc]
  dsimp only
  split
  · exact ⟨_, rfl⟩
  · split
    · exact ⟨_, rfl⟩
    · split
      · exact ⟨_, rfl⟩
      · obtain ⟨sent, hs⟩ := junkPackets_ok h0 h1 h2 draws
          (wrap64 (c.jc - c.jcBeforeHS)).toNat
        simp [hs]

/-- With junk sizes in the validated range, `Send` does not panic. -/
theorem send_ok (hc : b.atomicNoizeConfig = some c) (h0 : 0 ≤ c.jmin) (h1 : c.jmin ≤ c.jmax)
    (h2 : c.jmax ≤ 1400) (dst : Addr) (bufs : List (List UInt8)) (d : SendDraws) :
    ∃ b₁ r, b.send dst bufs d = .ok (b₁, r) := by
  obtain ⟨⟨bp, started, pre⟩, hp⟩ := maybePreflight_ok hc h0 h1 h2 dst bufs d
  have hcp : bp.atomicNoizeConfig = some c := by
    obtain ⟨-, rfl, -⟩ := maybePreflight_eq hc hp
    split <;> simpa using hc
  obtain ⟨⟨bq, post⟩, hq⟩ :=
    maybePostHandshake_ok hcp h0 h1 h2 dst bufs d.postHandshake
  exact ⟨bq, { preflight := started, sync := pre ++ [.batch bufs], spawned := post },
    by simp [Bind.send, hp, hq]⟩

theorem run_cons_eq {call : Call} {rest : List Call} {log : List (Call × Reaction)}
    (h : b.run (call :: rest) = .ok (b', log)) :
    ∃ b₁ r log', b.send call.dst call.bufs call.draws = .ok (b₁, r) ∧
      b₁.run rest = .ok (b', log') ∧ log = (call, r) :: log' := by
  obtain ⟨⟨b₁, r⟩, hs, hrest⟩ := bind_eq_ok.mp h
  obtain ⟨⟨b₂, log'⟩, hr, he⟩ := map_eq_ok.mp hrest
  simp only [Prod.mk.injEq] at he
  obtain ⟨rfl, rfl⟩ := he
  exact ⟨b₁, r, log', hs, hr, rfl⟩

theorem run_ok (hc : b.atomicNoizeConfig = some c) (h0 : 0 ≤ c.jmin) (h1 : c.jmin ≤ c.jmax)
    (h2 : c.jmax ≤ 1400) (calls : List Call) : ∃ b' log, b.run calls = .ok (b', log) := by
  induction calls generalizing b with
  | nil => exact ⟨b, [], rfl⟩
  | cons call rest ih =>
    obtain ⟨b₁, r, hs⟩ := send_ok hc h0 h1 h2 call.dst call.bufs call.draws
    have hc₁ : b₁.atomicNoizeConfig = some c := by rw [(send_keeps hc hs).1, hc]
    obtain ⟨b', log, hr⟩ := ih hc₁
    exact ⟨b', (call, r) :: log, by simp [Bind.run, hs, hr]⟩

/-- The shape of one reaction: the batch comes last and unchanged, after the
preflight if one started, and the goroutine sends only junk. -/
def ReactionShape (c : AtomicNoizeConfig) (payload : List UInt8) (e : Call × Reaction) : Prop :=
  ∃ pre, e.2.sync = pre ++ [.batch e.1.bufs] ∧
    (e.2.preflight = true → PreflightShape c payload e.1.draws pre) ∧
    (e.2.preflight = false → pre = []) ∧ ∀ s ∈ e.2.spawned, s.isJunk

theorem due_iff (now : Int) :
    b.due dst now = true ↔ ∀ last, b.lastSent dst = some last → last + b.interval ≤ now := by
  unfold Bind.due
  split
  · next hn => simp [hn]
  · next last hl =>
    simp only [hl, Bool.not_eq_true', decide_eq_false_iff_not, Option.some.injEq]
    constructor
    · rintro h _ rfl
      omega
    · intro h
      have := h last rfl
      omega

theorem send_reaction {call : Call} {b₁ : Bind} {r : Reaction}
    (hc : b.atomicNoizeConfig = some c)
    (h : b.send call.dst call.bufs call.draws = .ok (b₁, r)) :
    ReactionShape c b.payload (call, r) := by
  obtain ⟨-, ⟨pre, hsync, hpre0, hpre1⟩, hpost0, hpost1, -⟩ := send_eq hc h
  refine ⟨pre, hsync, fun hp => execute_shape (hpre1 hp), hpre0, ?_⟩
  cases hs : b.postHandshakeStarts c call.dst call.bufs
  · simp [hpost0 hs]
  · exact (junkPackets_junk (hpost1 hs)).2

theorem run_calls {calls : List Call} {log : List (Call × Reaction)}
    (h : b.run calls = .ok (b', log)) : log.map Prod.fst = calls := by
  induction calls generalizing b log with
  | nil =>
    simp only [Bind.run, Except.ok.injEq, Prod.mk.injEq] at h
    simp [← h.2]
  | cons call rest ih =>
    obtain ⟨b₁, r, log', -, hr, rfl⟩ := run_cons_eq h
    simp [ih hr]

theorem run_reactions (hc : b.atomicNoizeConfig = some c) {calls : List Call}
    {log : List (Call × Reaction)} (h : b.run calls = .ok (b', log)) :
    ∀ e ∈ log, ReactionShape c b.payload e := by
  induction calls generalizing b log with
  | nil =>
    simp only [Bind.run, Except.ok.injEq, Prod.mk.injEq] at h
    simp [← h.2]
  | cons call rest ih =>
    obtain ⟨b₁, r, log', hs, hr, rfl⟩ := run_cons_eq h
    obtain ⟨hc₁, hp₁, -⟩ := send_keeps hc hs
    intro e he
    rcases List.mem_cons.mp he with rfl | he
    · exact send_reaction hc hs
    · rw [← hp₁]
      exact ih (hc₁.trans hc) hr e he

/-- Preflights to one destination start at least `interval` apart, and the
first one at least `interval` after the last one the bind had recorded. -/
theorem run_spaced (hc : b.atomicNoizeConfig = some c) {calls : List Call}
    {log : List (Call × Reaction)} (h : b.run calls = .ok (b', log)) (dst : Addr) :
    ((b.lastSent dst).toList ++ preflightTimes dst log).IsChain
      (fun s t => s + b.interval ≤ t) := by
  induction calls generalizing b log with
  | nil =>
    simp only [Bind.run, Except.ok.injEq, Prod.mk.injEq] at h
    cases hl : b.lastSent dst <;> simp [← h.2, preflightTimes]
  | cons call rest ih =>
    obtain ⟨b₁, r, log', hs, hr, rfl⟩ := run_cons_eq h
    obtain ⟨hc₁, -, hi₁⟩ := send_keeps hc hs
    have ih₁ := ih (hc₁.trans hc) hr
    rw [hi₁] at ih₁
    have hl := send_lastSent hc hs
    by_cases hfire : call.dst = dst ∧ r.preflight = true
    · obtain ⟨rfl, hp⟩ := hfire
      have hdue : b.due call.dst call.draws.now = true := by
        have := (send_eq hc hs).1
        simp only [hp, Bind.preflightStarts] at this
        simp_all
      rw [hl, if_pos hp] at ih₁
      simp only [Function.update_self, Option.toList_some, List.singleton_append] at ih₁
      have htimes : preflightTimes call.dst ((call, r) :: log') =
          call.draws.now :: preflightTimes call.dst log' := by
        simp [preflightTimes, hp]
      rw [htimes]
      cases hlast : b.lastSent call.dst with
      | none => simpa using ih₁
      | some last =>
        simp only [Option.toList_some, List.singleton_append, List.isChain_cons_cons]
        exact ⟨(due_iff _).mp hdue last hlast, ih₁⟩
    · have hsame : b₁.lastSent dst = b.lastSent dst := by
        rw [hl]
        split
        · next hp =>
          have hne : dst ≠ call.dst := fun e => hfire ⟨e.symm, hp⟩
          simp [Function.update_of_ne hne]
        · rfl
      have htimes : preflightTimes dst ((call, r) :: log') = preflightTimes dst log' := by
        simp only [preflightTimes, List.filter_cons]
        rw [if_neg (by simpa using hfire)]
      rw [htimes, ← hsame]
      exact ih₁

theorem send_spawned_length {call : Call} {b₁ : Bind} {r : Reaction}
    (hc : b.atomicNoizeConfig = some c)
    (h : b.send call.dst call.bufs call.draws = .ok (b₁, r)) :
    r.spawned.length = if b.postHandshakeStarts c call.dst call.bufs
      then (wrap64 (c.jc - c.jcBeforeHS)).toNat else 0 := by
  obtain ⟨-, -, hpost0, hpost1, -⟩ := send_eq hc h
  cases hs : b.postHandshakeStarts c call.dst call.bufs
  · simp [hpost0 hs]
  · simpa using (junkPackets_junk (hpost1 hs)).1

/-- The post-handshake goroutine for a destination runs at most once: its junk
over a whole run is `Jc - JcBeforeHS` packets if some message to that
destination starts with byte 1, and none otherwise. -/
theorem run_postJunk_length (hc : b.atomicNoizeConfig = some c) {calls : List Call}
    {log : List (Call × Reaction)} (h : b.run calls = .ok (b', log)) (dst : Addr) :
    (postJunk dst log).length =
      if b.postHandshakeSent dst = false ∧ 0 < wrap64 (c.jc - c.jcBeforeHS) ∧
        ∃ call ∈ calls, call.dst = dst ∧ call.bufs.any handshakeRequest = true
      then (wrap64 (c.jc - c.jcBeforeHS)).toNat else 0 := by
  induction calls generalizing b log with
  | nil =>
    simp only [Bind.run, Except.ok.injEq, Prod.mk.injEq] at h
    simp [← h.2, postJunk]
  | cons call rest ih =>
    obtain ⟨b₁, r, log', hs, hr, rfl⟩ := run_cons_eq h
    obtain ⟨hc₁, -, -⟩ := send_keeps hc hs
    have ih₁ := ih (hc₁.trans hc) hr
    have hsent := send_postHandshakeSent hc hs
    have hlen := send_spawned_length hc hs
    have hsplit : postJunk dst ((call, r) :: log') =
        (if call.dst = dst then r.spawned else []) ++ postJunk dst log' := by
      by_cases hd : call.dst = dst <;> simp [postJunk, hd]
    rw [hsplit, List.length_append]
    by_cases hd : call.dst = dst
    · subst hd
      rw [if_pos rfl, hlen, ih₁]
      by_cases hfresh : b.postHandshakeSent call.dst = false
      · by_cases hw : 0 < wrap64 (c.jc - c.jcBeforeHS)
        · by_cases hreq : call.bufs.any handshakeRequest = true
          · have hstart : b.postHandshakeStarts c call.dst call.bufs = true := by
              simp [Bind.postHandshakeStarts, hfresh, hw, hreq]
            have hb₁ : b₁.postHandshakeSent call.dst = true := by simp [hsent, hstart]
            rw [if_pos hstart, if_neg (by simp [hb₁]),
              if_pos ⟨hfresh, hw, call, List.mem_cons_self, rfl, hreq⟩, Nat.add_zero]
          · have hstart : b.postHandshakeStarts c call.dst call.bufs = false := by
              simp [Bind.postHandshakeStarts, hreq]
            have hb₁ : b₁.postHandshakeSent call.dst = b.postHandshakeSent call.dst := by
              simp [hsent, hstart]
            have hiff : (∃ x ∈ call :: rest, x.dst = call.dst ∧
                x.bufs.any handshakeRequest = true) ↔
                ∃ x ∈ rest, x.dst = call.dst ∧ x.bufs.any handshakeRequest = true := by
              constructor
              · rintro ⟨x, hx, hxd, hxr⟩
                rcases List.mem_cons.mp hx with rfl | hx
                · exact absurd hxr hreq
                · exact ⟨x, hx, hxd, hxr⟩
              · rintro ⟨x, hx, hxd, hxr⟩
                exact ⟨x, List.mem_cons_of_mem _ hx, hxd, hxr⟩
            rw [if_neg (by simp [hstart]), hb₁, Nat.zero_add]
            simp only [hiff]
        · have hstart : b.postHandshakeStarts c call.dst call.bufs = false := by
            simp [Bind.postHandshakeStarts, hw]
          rw [if_neg (by simp [hstart]), if_neg (fun h' => hw h'.2.1),
            if_neg (fun h' => hw h'.2.1)]
      · have hstart : b.postHandshakeStarts c call.dst call.bufs = false := by
          simp_all [Bind.postHandshakeStarts]
        have hb₁ : b₁.postHandshakeSent call.dst = b.postHandshakeSent call.dst := by
          simp [hsent, hstart]
        rw [if_neg (by simp [hstart]), hb₁, if_neg (fun h' => hfresh h'.1),
          if_neg (fun h' => hfresh h'.1)]
    · have hb₁ : b₁.postHandshakeSent dst = b.postHandshakeSent dst := by
        rw [hsent]
        split
        · simp [Function.update_of_ne (Ne.symm hd)]
        · rfl
      rw [ih₁, hb₁, if_neg hd]
      simp [hd]

theorem any_request_of_any_initiation {bufs : List (List UInt8)}
    (h : bufs.any handshakeInitiation = true) : bufs.any handshakeRequest = true := by
  obtain ⟨buf, hb, hi⟩ := List.any_eq_true.mp h
  exact List.any_eq_true.mpr ⟨buf, hb, handshakeRequest_of_initiation hi⟩

/-- The first call that carries a handshake initiation to a destination with
no recorded preflight starts a preflight; if it is also the first message to
that destination starting with byte 1, it starts the post-handshake goroutine. -/
theorem run_first_initiation (hc : b.atomicNoizeConfig = some c) {pre post : List Call}
    {call : Call} {log : List (Call × Reaction)} (h : b.run (pre ++ call :: post) = .ok (b', log))
    (hnone : b.lastSent call.dst = none)
    (hpre : ∀ p ∈ pre, p.dst = call.dst → p.bufs.any handshakeInitiation = false)
    (hinit : call.bufs.any handshakeInitiation = true) :
    ∃ r, log[pre.length]? = some (call, r) ∧ r.preflight = true ∧
      (b.postHandshakeSent call.dst = false →
        (∀ p ∈ pre, p.dst = call.dst → p.bufs.any handshakeRequest = false) →
        r.spawned.length =
          if 0 < wrap64 (c.jc - c.jcBeforeHS) then (wrap64 (c.jc - c.jcBeforeHS)).toNat else 0) := by
  induction pre generalizing b log with
  | nil =>
    obtain ⟨b₁, r, log', hs, -, rfl⟩ := run_cons_eq h
    refine ⟨r, rfl, ?_, ?_⟩
    · rw [(send_eq hc hs).1, Bind.preflightStarts, hinit, Bool.true_and, due_iff]
      intro last hl
      simp [hnone] at hl
    · intro hfresh _
      rw [send_spawned_length hc hs]
      by_cases hw : 0 < wrap64 (c.jc - c.jcBeforeHS)
      · have hstart : b.postHandshakeStarts c call.dst call.bufs = true := by
          simp [Bind.postHandshakeStarts, hw, any_request_of_any_initiation hinit, hfresh]
        rw [if_pos hstart, if_pos hw]
      · have hstart : b.postHandshakeStarts c call.dst call.bufs = false := by
          simp [Bind.postHandshakeStarts, hw]
        rw [if_neg (by simp [hstart]), if_neg hw]
  | cons p pre ih =>
    obtain ⟨b₁, r₀, log', hs, hr, rfl⟩ := run_cons_eq h
    obtain ⟨hc₁, -, -⟩ := send_keeps hc hs
    have hp := hpre p List.mem_cons_self
    have hnone₁ : b₁.lastSent call.dst = none := by
      rw [send_lastSent hc hs]
      split
      · next hfire =>
        have hne : call.dst ≠ p.dst := by
          intro e
          have := (send_eq hc hs).1
          rw [hfire, Bind.preflightStarts, hp e.symm, Bool.false_and] at this
          cases this
        rw [Function.update_of_ne hne, hnone]
      · exact hnone
    obtain ⟨r, hget, hfire, hspawn⟩ := ih (hc₁.trans hc) hr hnone₁
      (fun q hq => hpre q (List.mem_cons_of_mem _ hq))
    refine ⟨r, by simpa using hget, hfire, fun hfresh hreq => ?_⟩
    apply hspawn _ (fun q hq => hreq q (List.mem_cons_of_mem _ hq))
    rw [send_postHandshakeSent hc hs]
    split
    · next hstart =>
      have hne : call.dst ≠ p.dst := by
        intro e
        have hq := hreq p List.mem_cons_self e.symm
        simp [Bind.postHandshakeStarts, hq] at hstart
      rw [Function.update_of_ne hne, hfresh]
    · exact hfresh

theorem newWithAtomicNoize_eq {config : Option AtomicNoizeConfig} {minInterval : Int}
    {d : CpsDraws} (h : newWithAtomicNoize config minInterval d = .ok b) :
    b.atomicNoizeConfig = config ∧ b.interval = minInterval ∧ (∀ dst, b.lastSent dst = none) ∧
      ∀ dst, b.postHandshakeSent dst = false := by
  obtain ⟨payload, -, rfl⟩ := map_eq_ok.mp h
  exact ⟨rfl, rfl, fun _ => rfl, fun _ => rfl⟩

end Run

/-! ## Runs from a fresh bind -/

/-- What a run of `Send` calls does on a bind made with configuration `c`. -/
structure PreflightRun (c : AtomicNoizeConfig) (payload : List UInt8) (interval : Int)
    (calls : List Call) (log : List (Call × Reaction)) : Prop where
  calls_eq : log.map Prod.fst = calls
  reactions : ∀ e ∈ log, ReactionShape c payload e
  spaced : ∀ dst, (preflightTimes dst log).IsChain (fun s t => s + interval ≤ t)
  postJunk_length : ∀ dst, (postJunk dst log).length =
    if 0 < wrap64 (c.jc - c.jcBeforeHS) ∧
      ∃ call ∈ calls, call.dst = dst ∧ call.bufs.any handshakeRequest = true
    then (wrap64 (c.jc - c.jcBeforeHS)).toNat else 0
  first_initiation : ∀ pre call post, calls = pre ++ call :: post →
    (∀ p ∈ pre, p.dst = call.dst → p.bufs.any handshakeInitiation = false) →
    call.bufs.any handshakeInitiation = true →
    ∃ r, log[pre.length]? = some (call, r) ∧ r.preflight = true ∧
      ((∀ p ∈ pre, p.dst = call.dst → p.bufs.any handshakeRequest = false) →
        r.spawned.length =
          if 0 < wrap64 (c.jc - c.jcBeforeHS) then (wrap64 (c.jc - c.jcBeforeHS)).toNat else 0)

theorem send_sequence_preflight_run (c : AtomicNoizeConfig)
    (hc : validateAtomicNoizeConfig c = .ok ()) (interval : Int) (d : CpsDraws) (b : Bind)
    (hb : newWithAtomicNoize (some c) interval d = .ok b) (calls : List Call) :
    ∃ b' log, b.run calls = .ok (b', log) ∧ PreflightRun c b.payload interval calls log := by
  have ha := (validateAtomicNoizeConfig_ok c).mp hc
  obtain ⟨hcfg, hint, hnone, hfresh⟩ := newWithAtomicNoize_eq hb
  obtain ⟨b', log, h⟩ := run_ok hcfg ha.jmin_nonneg ha.jmin_le_jmax ha.jmax_le calls
  refine ⟨b', log, h, run_calls h, run_reactions hcfg h, fun dst => ?_, fun dst => ?_, ?_⟩
  · simpa [hnone, hint] using run_spaced hcfg h dst
  · simpa [hfresh] using run_postJunk_length hcfg h dst
  · rintro pre call post rfl hpre hinit
    obtain ⟨r, hget, hfire, hspawn⟩ := run_first_initiation hcfg h (hnone _) hpre hinit
    exact ⟨r, hget, hfire, hspawn (hfresh _)⟩

theorem send_sequence_preflight_run_fresh :
    validateAtomicNoizeConfig { jc := 3, jcAfterI1 := 1, jcBeforeHS := 1, jcAfterHS := 1 } =
        .ok () ∧
      ∃ b, newWithAtomicNoize (some { jc := 3, jcAfterI1 := 1, jcBeforeHS := 1, jcAfterHS := 1 })
          100000000 {} = .ok b ∧
        ∃ b' log, b.run [{ dst := .v4 0x01020304, bufs := [1 :: List.replicate 147 0] }] =
            .ok (b', log) ∧
          PreflightRun { jc := 3, jcAfterI1 := 1, jcBeforeHS := 1, jcAfterHS := 1 } b.payload
            100000000 [{ dst := .v4 0x01020304, bufs := [1 :: List.replicate 147 0] }] log :=
  ⟨by decide, _, rfl, send_sequence_preflight_run _ (by decide) 100000000 {} _ rfl _⟩

/-- With `Jc = 3` split as one junk packet after I1, one before and one after
the handshake, a validated configuration, the first initiation to a
destination draws four junk packets: two from the preflight and two from the
post-handshake goroutine, which sends `Jc - JcBeforeHS`. -/
theorem first_initiation_junk_count :
    validateAtomicNoizeConfig { jc := 3, jcAfterI1 := 1, jcBeforeHS := 1, jcAfterHS := 1 } =
        .ok () ∧
      ((newWithAtomicNoize (some { jc := 3, jcAfterI1 := 1, jcBeforeHS := 1, jcAfterHS := 1 })
          100000000 {}).toOption.bind fun b =>
        (b.run [{ dst := .v4 0x01020304, bufs := [1 :: List.replicate 147 0] }]).toOption.map
          fun (_, log) => (log.flatMap fun e => (e.2.sync ++ e.2.spawned).filter Sent.isJunk).length)
        = some 4 := by
  constructor
  · decide
  · decide +kernel

end Preflight
