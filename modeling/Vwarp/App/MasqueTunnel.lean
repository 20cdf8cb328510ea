import Mathlib

/-!
# Recovery of the MASQUE tunnel

`maintainMasqueTunnel` runs five goroutines over shared state: two packet
forwarders, a health monitor, a failure monitor and the recovery loop. The
state is the installed adapter and which adapters were closed, the
`connectionBroken` flag, the one-slot `connectionDown` channel and where the
recovery loop is. Each action is one atomic step of one goroutine; the
recovery's adapter replacement runs under the write lock, so it is one step.

What each goroutine reads from the network and the clock is left open: a
forwarder can see its third consecutive connection error at any time, each
monitor's tick can find the connection stale or failing at any time, and each
`factory()` call can succeed or fail. Sleeps, logs, counters that only feed
those conditions, and the connectivity test (its outcome is accepted either
way) are not modelled; the context is never cancelled.
-/

namespace MasqueTunnel

def maxReconnectionAttempts : Nat := 5

def maxRecoveryAttempts : Nat := 5

/-- Where the recovery goroutine is. -/
inductive Phase where
  | idle
  | attempt (k : Nat)
  | replaced
  | restored
  | failed
  deriving DecidableEq, Repr

structure State where
  adapter : Nat
  closed : List Nat
  fresh : Nat
  connectionBroken : Bool
  connectionDown : Bool
  phase : Phase
  recoveryAttempts : Nat
  deriving DecidableEq, Repr

/-- The state at the start: adapter `0` installed, the factory's next is `1`. -/
def init : State :=
  { adapter := 0, closed := [], fresh := 1, connectionBroken := false, connectionDown := false,
    phase := .idle, recoveryAttempts := 0 }

inductive Action where
  /-- A forwarder sees its third consecutive connection error. -/
  | forwardError
  /-- The failure monitor finds a high failure rate. -/
  | failureCheck
  /-- The health monitor finds the connection stale or failing. -/
  | healthCheck
  /-- A forwarder uses the installed adapter. -/
  | forward
  /-- The recovery loop takes a signal. -/
  | receive
  /-- One reconnection attempt: close the installed adapter, call `factory()`. -/
  | reconnect (factoryOk : Bool)
  /-- `connectionBroken.Store(false)` after a replacement. -/
  | markRestored
  /-- The end of a successful cycle: counters reset, stale signals drained. -/
  | drain
  /-- The end of a failed cycle: back off and signal again. -/
  | retry
  deriving DecidableEq, Repr

/-- The non-blocking send `select { case connectionDown <- true: default: }`. -/
def State.signal (s : State) : State := { s with connectionDown := true }

@[simp] theorem signal_connectionDown (s : State) : s.signal.connectionDown = true := rfl

@[simp] theorem signal_connectionBroken (s : State) :
    s.signal.connectionBroken = s.connectionBroken := rfl

@[simp] theorem signal_phase (s : State) : s.signal.phase = s.phase := rfl

@[simp] theorem signal_adapter (s : State) : s.signal.adapter = s.adapter := rfl

@[simp] theorem signal_closed (s : State) : s.signal.closed = s.closed := rfl

@[simp] theorem signal_fresh (s : State) : s.signal.fresh = s.fresh := rfl

def step (s : State) : Action → Option State
  | .forwardError | .failureCheck =>
    if s.connectionBroken then none else some ({ s with connectionBroken := true }.signal)
  | .healthCheck => if s.connectionBroken then none else some s.signal
  | .forward => if s.connectionBroken then none else some s
  | .receive =>
    if s.phase = .idle ∧ s.connectionDown then
      some { s with connectionDown := false, phase := .attempt 1 }
    else none
  | .reconnect factoryOk =>
    match s.phase with
    | .attempt k =>
      let s' := { s with closed := s.adapter :: s.closed }
      if factoryOk then
        some { s' with adapter := s.fresh, fresh := s.fresh + 1, phase := .replaced }
      else if k < maxReconnectionAttempts then some { s' with phase := .attempt (k + 1) }
      else some { s' with phase := .failed }
    | _ => none
  | .markRestored =>
    if s.phase = .replaced then some { s with connectionBroken := false, phase := .restored }
    else none
  | .drain =>
    if s.phase = .restored then
      some { s with recoveryAttempts := 0, connectionDown := false, phase := .idle }
    else none
  | .retry =>
    if s.phase = .failed then
      let n := s.recoveryAttempts + 1
      some { s with recoveryAttempts := if maxRecoveryAttempts ≤ n then 0 else n, phase := .idle }.signal
    else none

def run (s : State) : List Action → Option State
  | [] => some s
  | a :: rest => (step s a).bind fun s' => run s' rest

/-- The phases of a recovery cycle between taking a signal and clearing
`connectionBroken`. -/
def Phase.inCycle : Phase → Bool
  | .attempt _ | .replaced | .failed => true
  | .idle | .restored => false

/-- What holds in every state reachable without a health-monitor signal. -/
structure Inv (s : State) : Prop where
  broken_of_cycle : s.phase.inCycle → s.connectionBroken = true
  quiet_in_cycle : s.phase.inCycle → s.connectionDown = false
  broken_of_signal : s.connectionDown = true → s.connectionBroken = true
  closed_lt : ∀ x ∈ s.closed, x < s.fresh
  adapter_lt : s.adapter < s.fresh
  open_after_replace : s.phase = .replaced ∨ s.phase = .restored → s.adapter ∉ s.closed
  broken_of_closed : s.adapter ∈ s.closed → s.connectionBroken = true

theorem inv_init : Inv init where
  broken_of_cycle := by simp [init, Phase.inCycle]
  quiet_in_cycle := by simp [init]
  broken_of_signal := by simp [init]
  closed_lt := by simp [init]
  adapter_lt := by simp [init]
  open_after_replace := by simp [init]
  broken_of_closed := by simp [init]

/-- A signal from a forwarder or the failure monitor: `connectionBroken` is
set first. -/
theorem inv_break {s : State} (hi : Inv s) (hb : s.connectionBroken = false) :
    Inv ({ s with connectionBroken := true }.signal) where
  broken_of_cycle _ := rfl
  quiet_in_cycle hc := absurd (hi.broken_of_cycle hc) (by simp [hb])
  broken_of_signal _ := rfl
  closed_lt := hi.closed_lt
  adapter_lt := hi.adapter_lt
  open_after_replace := hi.open_after_replace
  broken_of_closed _ := rfl

theorem inv_receive {s : State} (hi : Inv s) (hd : s.connectionDown = true) :
    Inv { s with connectionDown := false, phase := .attempt 1 } where
  broken_of_cycle _ := hi.broken_of_signal hd
  quiet_in_cycle _ := rfl
  broken_of_signal h := by cases h
  closed_lt := hi.closed_lt
  adapter_lt := hi.adapter_lt
  open_after_replace h := by simp at h
  broken_of_closed _ := hi.broken_of_signal hd

/-- An attempt closes the installed adapter; a successful `factory()` installs
a fresh one. -/
theorem inv_reconnect {s : State} {k : Nat} (hi : Inv s) (hk : s.phase = .attempt k)
    (factoryOk : Bool) {s' : State} (h : step s (.reconnect factoryOk) = some s') : Inv s' := by
  have hc : s.phase.inCycle := by simp [hk, Phase.inCycle]
  have hb := hi.broken_of_cycle hc
  have hq := hi.quiet_in_cycle hc
  have hlt : ∀ x ∈ s.adapter :: s.closed, x < s.fresh := fun x hx =>
    (List.mem_cons.mp hx).elim (· ▸ hi.adapter_lt) (hi.closed_lt x)
  simp only [step, hk] at h
  split at h
  · cases h
    exact ⟨fun _ => hb, fun _ => hq, fun _ => hb, fun x hx => Nat.lt_succ_of_lt (hlt x hx),
      Nat.lt_succ_self _, fun _ hx => Nat.lt_irrefl _ (hlt _ hx), fun _ => hb⟩
  · split at h <;> cases h <;>
      exact ⟨fun _ => hb, fun _ => hq, fun _ => hb, hlt, hi.adapter_lt, by simp, fun _ => hb⟩

theorem inv_step {s s' : State} {a : Action} (hi : Inv s) (ha : a ≠ .healthCheck)
    (h : step s a = some s') : Inv s' := by
  cases a with
  | forwardError | failureCheck =>
    simp only [step] at h
    split at h
    · cases h
    · next hb =>
      cases h
      exact inv_break hi (by simpa using hb)
  | healthCheck => exact absurd rfl ha
  | forward =>
    simp only [step] at h
    split at h
    · cases h
    · cases h
      exact hi
  | receive =>
    simp only [step] at h
    split at h
    · next hc =>
      cases h
      exact inv_receive hi hc.2
    · cases h
  | reconnect factoryOk =>
    cases hp : s.phase with
    | attempt k => exact inv_reconnect hi hp factoryOk h
    | idle | replaced | restored | failed => simp [step, hp] at h
  | markRestored =>
    simp only [step] at h
    split at h
    · next hp =>
      cases h
      have hq := hi.quiet_in_cycle (by simp [hp, Phase.inCycle])
      have hopen := hi.open_after_replace (.inl hp)
      exact ⟨by simp [Phase.inCycle], by simp [Phase.inCycle], by simp [hq], hi.closed_lt,
        hi.adapter_lt, fun _ => hopen, fun hx => absurd hx hopen⟩
    · cases h
  | drain =>
    simp only [step] at h
    split at h
    · cases h
      exact ⟨by simp [Phase.inCycle], by simp [Phase.inCycle], by simp, hi.closed_lt,
        hi.adapter_lt, by simp, hi.broken_of_closed⟩
    · cases h
  | retry =>
    simp only [step] at h
    split at h
    · next hp =>
      cases h
      have hb := hi.broken_of_cycle (by simp [hp, Phase.inCycle])
      exact ⟨by simp [Phase.inCycle], by simp [Phase.inCycle], fun _ => hb, hi.closed_lt,
        hi.adapter_lt, by simp, fun _ => hb⟩
    · cases h

theorem inv_run {s s' : State} {trace : List Action} (hi : Inv s)
    (ht : .healthCheck ∉ trace) (h : run s trace = some s') : Inv s' := by
  induction trace generalizing s with
  | nil =>
    cases h
    exact hi
  | cons a rest ih =>
    obtain ⟨s₁, h₁, hr⟩ := Option.bind_eq_some_iff.mp h
    have ha : a ≠ .healthCheck := fun e => ht (e ▸ List.mem_cons_self)
    exact ih (inv_step hi ha h₁) (fun hm => ht (List.mem_cons_of_mem _ hm)) hr

section Safety

variable {s s' : State} {trace : List Action}

/-- Without a health-monitor signal, the recovery loop closes an adapter only
while `connectionBroken` is set. -/
theorem reconnect_while_broken (ht : .healthCheck ∉ trace) (h : run init trace = some s)
    {factoryOk : Bool} (hs : step s (.reconnect factoryOk) = some s') :
    s.connectionBroken = true := by
  have hi := inv_run inv_init ht h
  cases hp : s.phase with
  | attempt k => exact hi.broken_of_cycle (by simp [hp, Phase.inCycle])
  | idle | replaced | restored | failed => simp [step, hp] at hs

/-- Without a health-monitor signal, whenever `connectionBroken` is clear the
installed adapter has not been closed. -/
theorem unbroken_adapter_open (ht : .healthCheck ∉ trace) (h : run init trace = some s)
    (hb : s.connectionBroken = false) : s.adapter ∉ s.closed := fun hc =>
  absurd ((inv_run inv_init ht h).broken_of_closed hc) (by simp [hb])

/-- Without a health-monitor signal, a forwarder that runs uses an adapter
that was not closed. -/
theorem forward_uses_open_adapter (ht : .healthCheck ∉ trace) (h : run init trace = some s)
    (hs : step s .forward = some s') : s.adapter ∉ s.closed := by
  have hb : s.connectionBroken = false := by
    simp only [step] at hs
    split at hs
    · cases hs
    · simpa using ‹¬s.connectionBroken = true›
  exact unbroken_adapter_open ht h hb

end Safety

/-- A health-monitor signal starts a recovery with `connectionBroken` clear:
the first attempt closes adapter `0` while the forwarders may use it, and
after five failed `factory()` calls the cycle ends with `connectionBroken`
still clear, no cycle running and the closed adapter `0` installed, which a
forwarder then uses. -/
theorem health_signal_closes_live_adapter :
    (∃ s, run init [.healthCheck, .receive] = some s ∧ s.connectionBroken = false ∧
      s.phase = .attempt 1 ∧ s.adapter ∉ s.closed ∧
      ∃ s', step s (.reconnect false) = some s' ∧ s.adapter ∈ s'.closed) ∧
    ∃ s, run init [.healthCheck, .receive, .reconnect false, .reconnect false, .reconnect false,
        .reconnect false, .reconnect false, .retry] = some s ∧
      s.connectionBroken = false ∧ s.phase = .idle ∧ s.adapter ∈ s.closed ∧
      step s .forward = some s :=
  ⟨⟨_, rfl, rfl, rfl, by decide, _, rfl, by decide⟩, ⟨_, rfl, rfl, rfl, by decide, rfl⟩⟩

end MasqueTunnel
