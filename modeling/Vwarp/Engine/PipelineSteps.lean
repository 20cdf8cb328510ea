import Vwarp.Engine.Pipeline

/-!
# What one step of the pipeline can do

Every enabled step of a filter stage but its closer moves one worker, with the
stage's channels, along one `Move`; every step of the WARP stage moves one
worker along one `WarpMove`. The lemmas about a whole stage follow from one
lemma per move and from `Transition.sum_map_set`, which says that a quantity
summed over the pool changes by the moved worker alone.

Per move: the work left (`Worker.weight`, with the cost of a queued item)
drops; no copy of a candidate appears (`count_le`); none is lost while the
context is live and the filter keeps it (`count_eq`); and an item the filter
rejects never reaches the output (`sendingCount_le`). A stage in which no
step is enabled has returned, or waits on an empty open input, or on a full
output with a live context (`stage_stuck`).
-/

namespace Engine

variable {α β : Type}

/-- What one worker of a filter stage can do, with the stage's input and output
channel before and after. -/
inductive Move (n : Nat) (filter : Option (α → Bool)) (cancelled : Bool) :
    Worker α → Worker α → Chan α → Chan α → Chan α → Chan α → Prop where
  | recv {a : α} {rest : List α} {inc out : Chan α} (h : inc.items = a :: rest) :
      Move n filter cancelled .ranging (afterRecv filter a) inc { inc with items := rest } out out
  | exit {inc out : Chan α} (h₁ : inc.items = []) (h₂ : inc.closed = true) :
      Move n filter cancelled .ranging .done inc inc out out
  | checkCtx {a : α} {inc out : Chan α} :
      Move n filter cancelled (.received a) (if cancelled then .done else .calling a) inc inc out out
  | filterDone {a : α} {inc out : Chan α} :
      Move n filter cancelled (.calling a) (if keeps filter a then .sending a else .ranging)
        inc inc out out
  | filterCancelled {a : α} {inc out : Chan α} (h : cancelled = true) :
      Move n filter cancelled (.calling a) .ranging inc inc out out
  | send {a : α} {inc out : Chan α} (h : out.items.length < n) :
      Move n filter cancelled (.sending a) .ranging inc inc out (out.push a)
  | sendCancelled {a : α} {inc out : Chan α} (h : cancelled = true) :
      Move n filter cancelled (.sending a) .done inc inc out out

/-- What one WARP worker can do, with the input channel before and after and the
`WarpPing` and `Enqueue` calls it makes. -/
inductive WarpMove (warpPing : α → Option β) (cancelled : Bool) :
    Worker α → Worker α → Chan α → Chan α → List α → List β → Prop where
  | recv {a : α} {rest : List α} {inc : Chan α} (h : inc.items = a :: rest) :
      WarpMove warpPing cancelled .ranging (.received a) inc { inc with items := rest } [] []
  | exit {inc : Chan α} (h₁ : inc.items = []) (h₂ : inc.closed = true) :
      WarpMove warpPing cancelled .ranging .done inc inc [] []
  | checkCancelled {a : α} {inc : Chan α} (h : cancelled = true) :
      WarpMove warpPing cancelled (.received a) .done inc inc [] []
  | checkCtx {a : α} {inc : Chan α} (h : cancelled = false) :
      WarpMove warpPing cancelled (.received a) (.calling a) inc inc [a] []
  | pingDone {a : α} {inc : Chan α} :
      WarpMove warpPing cancelled (.calling a) .ranging inc inc [] (warpPing a).toList
  | pingCancelled {a : α} {inc : Chan α} (h : cancelled = true) :
      WarpMove warpPing cancelled (.calling a) .ranging inc inc [] []

section Inversion

variable {n : Nat} {f : Option (α → Bool)} {c : Bool} {ws ws' : List (Worker α)}
  {inc out inc' out' : Chan α}

theorem stageStep_cases {act : StageAct}
    (h : stageStep n f c ws inc out act = some (ws', inc', out')) :
    (∃ i w w', ws[i]? = some w ∧ ws' = ws.set i w' ∧ Move n f c w w' inc inc' out out') ∨
      (ws.all Worker.isDone = true ∧ out.closed = false ∧ ws' = ws ∧ inc' = inc ∧
        out' = out.close) := by
  cases act with
  | recv i =>
    simp only [stageStep] at h
    split at h
    · next a rest hw hi =>
      simp only [Option.some.injEq, Prod.mk.injEq] at h
      obtain ⟨rfl, rfl, rfl⟩ := h
      exact .inl ⟨i, _, _, hw, rfl, .recv hi⟩
    · cases h
  | exit i =>
    simp only [stageStep] at h
    split at h
    · next hw hi hc =>
      simp only [Option.some.injEq, Prod.mk.injEq] at h
      obtain ⟨rfl, rfl, rfl⟩ := h
      exact .inl ⟨i, _, _, hw, rfl, .exit hi hc⟩
    · cases h
  | checkCtx i =>
    simp only [stageStep] at h
    split at h
    · next a hw =>
      simp only [Option.some.injEq, Prod.mk.injEq] at h
      obtain ⟨rfl, rfl, rfl⟩ := h
      exact .inl ⟨i, _, _, hw, rfl, .checkCtx⟩
    · cases h
  | filterDone i =>
    simp only [stageStep] at h
    split at h
    · next a hw =>
      simp only [Option.some.injEq, Prod.mk.injEq] at h
      obtain ⟨rfl, rfl, rfl⟩ := h
      exact .inl ⟨i, _, _, hw, rfl, .filterDone⟩
    · cases h
  | filterCancelled i =>
    simp only [stageStep] at h
    split at h
    · next _ _ a hw =>
      simp only [Option.some.injEq, Prod.mk.injEq] at h
      obtain ⟨rfl, rfl, rfl⟩ := h
      exact .inl ⟨i, _, _, hw, rfl, .filterCancelled rfl⟩
    · cases h
  | send i =>
    simp only [stageStep] at h
    split at h
    · next a hw =>
      split at h
      · next hlt =>
        simp only [Option.some.injEq, Prod.mk.injEq] at h
        obtain ⟨rfl, rfl, rfl⟩ := h
        exact .inl ⟨i, _, _, hw, rfl, .send hlt⟩
      · cases h
    · cases h
  | sendCancelled i =>
    simp only [stageStep] at h
    split at h
    · next _ _ a hw =>
      simp only [Option.some.injEq, Prod.mk.injEq] at h
      obtain ⟨rfl, rfl, rfl⟩ := h
      exact .inl ⟨i, _, _, hw, rfl, .sendCancelled rfl⟩
    · cases h
  | closeOut =>
    simp only [stageStep] at h
    split at h
    · next hguard =>
      simp only [Bool.and_eq_true, Bool.not_eq_eq_eq_not, Bool.not_true] at hguard
      simp only [Option.some.injEq, Prod.mk.injEq] at h
      obtain ⟨rfl, rfl, rfl⟩ := h
      exact .inr ⟨hguard.1, hguard.2, rfl, rfl, rfl⟩
    · cases h

theorem warpStep_cases {p : α → Option β} {act : WarpAct} {calls : List α} {enq : List β}
    (h : warpStep p c ws inc act = some (ws', inc', calls, enq)) :
    ∃ i w w', ws[i]? = some w ∧ ws' = ws.set i w' ∧ WarpMove p c w w' inc inc' calls enq := by
  cases act with
  | recv i =>
    simp only [warpStep] at h
    split at h
    · next a rest hw hi =>
      simp only [Option.some.injEq, Prod.mk.injEq] at h
      obtain ⟨rfl, rfl, rfl, rfl⟩ := h
      exact ⟨i, _, _, hw, rfl, .recv hi⟩
    · cases h
  | exit i =>
    simp only [warpStep] at h
    split at h
    · next hw hi hc =>
      simp only [Option.some.injEq, Prod.mk.injEq] at h
      obtain ⟨rfl, rfl, rfl, rfl⟩ := h
      exact ⟨i, _, _, hw, rfl, .exit hi hc⟩
    · cases h
  | checkCtx i =>
    simp only [warpStep] at h
    split at h
    · next a hw =>
      cases c with
      | true =>
        simp only [if_true, Option.some.injEq, Prod.mk.injEq] at h
        obtain ⟨rfl, rfl, rfl, rfl⟩ := h
        exact ⟨i, _, _, hw, rfl, .checkCancelled rfl⟩
      | false =>
        simp only [Bool.false_eq_true, if_false, Option.some.injEq, Prod.mk.injEq] at h
        obtain ⟨rfl, rfl, rfl, rfl⟩ := h
        exact ⟨i, _, _, hw, rfl, .checkCtx rfl⟩
    · cases h
  | pingDone i =>
    simp only [warpStep] at h
    split at h
    · next a hw =>
      simp only [Option.some.injEq, Prod.mk.injEq] at h
      obtain ⟨rfl, rfl, rfl, rfl⟩ := h
      exact ⟨i, _, _, hw, rfl, .pingDone⟩
    · cases h
  | pingCancelled i =>
    simp only [warpStep] at h
    split at h
    · next _ _ a hw =>
      simp only [Option.some.injEq, Prod.mk.injEq] at h
      obtain ⟨rfl, rfl, rfl, rfl⟩ := h
      exact ⟨i, _, _, hw, rfl, .pingCancelled rfl⟩
    · cases h

end Inversion

section StepEquations

variable {o : Options α β} {s s' : Pipeline α β}

theorem step_genSend_eq_some (h : step o s .genSend = some s') :
    ∃ a rest, s.gen = some (a :: rest) ∧ s.ipStream.items.length < o.concurrency ∧
      s' = { s with gen := some rest, ipStream := s.ipStream.push a } := by
  simp only [step] at h
  split at h
  · next a rest hg =>
    split at h
    · next hlt => exact ⟨a, rest, hg, hlt, (Option.some.inj h).symm⟩
    · cases h
  · cases h

theorem step_genReturn_eq_some (h : step o s .genReturn = some s') :
    ∃ l, s.gen = some l ∧ (l = [] ∨ s.cancelled = true) ∧
      s' = { s with gen := none, ipStream := s.ipStream.close } := by
  simp only [step] at h
  split at h
  · next hg => exact ⟨[], hg, .inl rfl, (Option.some.inj h).symm⟩
  · next a rest hg =>
    split at h
    · next hc => exact ⟨_, hg, .inr hc, (Option.some.inj h).symm⟩
    · cases h
  · cases h

theorem step_icmp_eq_some {a : StageAct} : step o s (.icmp a) = some s' ↔
    ∃ ws inc out, stageStep o.concurrency o.icmpFilter s.cancelled s.icmp s.ipStream s.icmpStream a
      = some (ws, inc, out) ∧ s' = { s with icmp := ws, ipStream := inc, icmpStream := out } := by
  simp only [step, Option.map_eq_some_iff, Prod.exists]
  constructor
  · rintro ⟨ws, inc, out, h, rfl⟩
    exact ⟨ws, inc, out, h, rfl⟩
  · rintro ⟨ws, inc, out, h, rfl⟩
    exact ⟨ws, inc, out, h, rfl⟩

theorem step_tcp_eq_some {a : StageAct} : step o s (.tcp a) = some s' ↔
    ∃ ws inc out, stageStep o.concurrency o.tcpFilter s.cancelled s.tcp s.icmpStream s.tcpStream a
      = some (ws, inc, out) ∧ s' = { s with tcp := ws, icmpStream := inc, tcpStream := out } := by
  simp only [step, Option.map_eq_some_iff, Prod.exists]
  constructor
  · rintro ⟨ws, inc, out, h, rfl⟩
    exact ⟨ws, inc, out, h, rfl⟩
  · rintro ⟨ws, inc, out, h, rfl⟩
    exact ⟨ws, inc, out, h, rfl⟩

theorem step_warp_eq_some {a : WarpAct} : step o s (.warp a) = some s' ↔
    ∃ ws inc calls enq, warpStep o.warpPing s.cancelled s.warp s.tcpStream a
      = some (ws, inc, calls, enq) ∧
      s' = { s with warp := ws, tcpStream := inc, warpCalls := s.warpCalls ++ calls,
                    enqueued := s.enqueued ++ enq } := by
  simp only [step, Option.map_eq_some_iff, Prod.exists]
  constructor
  · rintro ⟨ws, inc, calls, enq, h, rfl⟩
    exact ⟨ws, inc, calls, enq, h, rfl⟩
  · rintro ⟨ws, inc, calls, enq, h, rfl⟩
    exact ⟨ws, inc, calls, enq, h, rfl⟩

theorem step_cancel_eq_some (h : step o s .cancel = some s') :
    s.cancelled = false ∧ s' = { s with cancelled := true } := by
  simp only [step] at h
  split at h
  · cases h
  · next hc => exact ⟨by simpa using hc, (Option.some.inj h).symm⟩

end StepEquations

section Weight

variable {n : Nat} {f : Option (α → Bool)} {c : Bool} {w w' : Worker α}
  {inc out inc' out' : Chan α}

/-- Steps a worker has left, with `d` the cost of an item on the stage's output. -/
def Worker.weight (d : Nat) : Worker α → Nat
  | .ranging => 1
  | .received _ => d + 4
  | .calling _ => d + 3
  | .sending _ => d + 2
  | .done => 0

theorem afterRecv_weight (d : Nat) (a : α) : (afterRecv f a).weight d ≤ d + 4 := by
  cases f <;> simp [afterRecv, Worker.weight]

theorem Move.out_closed (hm : Move n f c w w' inc inc' out out') : out'.closed = out.closed := by
  cases hm <;> simp

theorem Move.inc_closed (hm : Move n f c w w' inc inc' out out') : inc'.closed = inc.closed := by
  cases hm <;> simp

theorem Move.ne_done (hm : Move n f c w w' inc inc' out out') : w ≠ .done := by
  cases hm <;> simp

theorem Move.inc_eq (hm : Move n f c w w' inc inc' out out') (hi : inc.items = []) :
    inc' = inc := by
  cases hm with
  | recv h => simp [hi] at h
  | _ => rfl

/-- Under a live context a worker returns only at the end of a closed, drained input. -/
theorem Move.drained_of_done (hm : Move n f c w w' inc inc' out out') (hc : c = false)
    (hw' : w' = .done) : inc.items = [] ∧ inc.closed = true := by
  cases hm with
  | recv => cases f <;> simp [afterRecv] at hw'
  | exit h₁ h₂ => exact ⟨h₁, h₂⟩
  | checkCtx => simp [hc] at hw'
  | filterDone => split at hw' <;> cases hw'
  | filterCancelled => cases hw'
  | send => cases hw'
  | sendCancelled h => simp [hc] at h

theorem WarpMove.ne_done {p : α → Option β} {calls : List α} {enq : List β}
    (hm : WarpMove p c w w' inc inc' calls enq) : w ≠ .done := by
  cases hm <;> simp

theorem WarpMove.ne_sending {p : α → Option β} {calls : List α} {enq : List β}
    (hm : WarpMove p c w w' inc inc' calls enq) (a : α) : w' ≠ .sending a := by
  cases hm <;> simp

theorem WarpMove.inc_closed {p : α → Option β} {calls : List α} {enq : List β}
    (hm : WarpMove p c w w' inc inc' calls enq) : inc'.closed = inc.closed := by
  cases hm <;> simp

theorem WarpMove.inc_eq {p : α → Option β} {calls : List α} {enq : List β}
    (hm : WarpMove p c w w' inc inc' calls enq) (hi : inc.items = []) : inc' = inc := by
  cases hm with
  | recv h => simp [hi] at h
  | _ => rfl

theorem WarpMove.drained_of_done {p : α → Option β} {calls : List α} {enq : List β}
    (hm : WarpMove p c w w' inc inc' calls enq) (hc : c = false) (hw' : w' = .done) :
    inc.items = [] ∧ inc.closed = true := by
  cases hm with
  | exit h₁ h₂ => exact ⟨h₁, h₂⟩
  | checkCancelled h => simp [hc] at h
  | _ => cases hw'

theorem Move.weight_lt (d : Nat) (hm : Move n f c w w' inc inc' out out') :
    (d + 4) * inc'.items.length + w'.weight d + d * out'.items.length <
      (d + 4) * inc.items.length + w.weight d + d * out.items.length := by
  cases hm with
  | @recv a rest _ _ h =>
    have hw : (afterRecv f a).weight d ≤ d + 4 := afterRecv_weight d a
    have hr : (Worker.ranging : Worker α).weight d = 1 := rfl
    simp only [h, List.length_cons, Nat.mul_succ]
    omega
  | exit => simp [Worker.weight]
  | checkCtx => split <;> simp [Worker.weight]
  | filterDone => split <;> simp [Worker.weight]
  | filterCancelled => simp [Worker.weight]
  | send =>
    simp only [Chan.push_items, List.length_append, List.length_singleton, Nat.mul_succ,
      Worker.weight]
    omega
  | sendCancelled => simp [Worker.weight]

theorem WarpMove.weight_lt {p : α → Option β} {calls : List α} {enq : List β}
    (hm : WarpMove p c w w' inc inc' calls enq) :
    4 * inc'.items.length + w'.weight 0 < 4 * inc.items.length + w.weight 0 := by
  cases hm with
  | recv h =>
    simp only [h, List.length_cons, Nat.mul_succ, Worker.weight]
    omega
  | _ => simp [Worker.weight]

end Weight

section Count

variable [DecidableEq α] (x : α)

def Worker.receivedCount : Worker α → Nat
  | .received a => if a = x then 1 else 0
  | _ => 0

def Worker.callingCount : Worker α → Nat
  | .calling a => if a = x then 1 else 0
  | _ => 0

def Worker.sendingCount : Worker α → Nat
  | .sending a => if a = x then 1 else 0
  | _ => 0

/-- Copies of `x` a worker holds. -/
def Worker.count (w : Worker α) : Nat := w.receivedCount x + w.callingCount x + w.sendingCount x

variable {x} {n : Nat} {f : Option (α → Bool)} {c : Bool} {w w' : Worker α}
  {inc out inc' out' : Chan α}

@[simp] theorem Worker.count_ranging : (Worker.ranging : Worker α).count x = 0 := rfl
@[simp] theorem Worker.count_done : (Worker.done : Worker α).count x = 0 := rfl
@[simp] theorem Worker.count_received (a : α) :
    (Worker.received a).count x = if a = x then 1 else 0 := by
  simp [Worker.count, Worker.receivedCount, Worker.callingCount, Worker.sendingCount]
@[simp] theorem Worker.count_calling (a : α) :
    (Worker.calling a).count x = if a = x then 1 else 0 := by
  simp [Worker.count, Worker.receivedCount, Worker.callingCount, Worker.sendingCount]
@[simp] theorem Worker.count_sending (a : α) :
    (Worker.sending a).count x = if a = x then 1 else 0 := by
  simp [Worker.count, Worker.receivedCount, Worker.callingCount, Worker.sendingCount]

theorem afterRecv_count (a : α) : (afterRecv f a).count x = if a = x then 1 else 0 := by
  cases f <;> simp [afterRecv]

theorem Move.count_le (hm : Move n f c w w' inc inc' out out') :
    inc'.items.count x + w'.count x + out'.items.count x ≤
      inc.items.count x + w.count x + out.items.count x := by
  cases hm with
  | @recv a rest _ _ h =>
    simp only [h, afterRecv_count, List.count_cons, Worker.count_ranging, beq_iff_eq]
    split <;> omega
  | exit => simp
  | checkCtx => split <;> simp
  | filterDone => split <;> simp
  | filterCancelled => simp
  | send =>
    simp only [Chan.push_items, List.count_append, List.count_singleton, Worker.count_sending,
      Worker.count_ranging, beq_iff_eq]
    split <;> omega
  | sendCancelled => simp

/-- Under a live context a step loses no copy of an item the filter keeps. -/
theorem Move.count_eq (hm : Move n f c w w' inc inc' out out') (hc : c = false)
    (hk : keeps f x = true) :
    inc'.items.count x + w'.count x + out'.items.count x =
      inc.items.count x + w.count x + out.items.count x := by
  cases hm with
  | @recv a rest _ _ h =>
    simp only [h, afterRecv_count, List.count_cons, Worker.count_ranging, beq_iff_eq]
    split <;> omega
  | exit => simp
  | checkCtx => simp [hc]
  | @filterDone a =>
    by_cases hax : a = x
    · subst hax
      simp [hk]
    · split <;> simp [hax]
  | filterCancelled h => simp [hc] at h
  | send =>
    simp only [Chan.push_items, List.count_append, List.count_singleton, Worker.count_sending,
      Worker.count_ranging, beq_iff_eq]
    split <;> omega
  | sendCancelled h => simp [hc] at h

/-- An item the filter rejects never reaches the output. -/
theorem Move.sendingCount_le (hm : Move n f c w w' inc inc' out out') (hk : keeps f x = false) :
    w'.sendingCount x + out'.items.count x ≤ w.sendingCount x + out.items.count x := by
  cases hm with
  | @recv a rest _ _ h =>
    cases f with
    | none => simp [keeps] at hk
    | some g => simp [afterRecv, Worker.sendingCount]
  | exit => simp [Worker.sendingCount]
  | checkCtx => split <;> simp [Worker.sendingCount]
  | @filterDone a =>
    by_cases hax : a = x
    · subst hax
      simp [hk, Worker.sendingCount]
    · split <;> simp [hax, Worker.sendingCount]
  | filterCancelled => simp [Worker.sendingCount]
  | send =>
    simp only [Worker.sendingCount, Chan.push_items, List.count_append, List.count_singleton,
      beq_iff_eq]
    split <;> omega
  | sendCancelled => simp [Worker.sendingCount]

variable {p : α → Option β} {calls : List α} {enq : List β}

theorem WarpMove.count_le (hm : WarpMove p c w w' inc inc' calls enq) :
    inc'.items.count x + w'.receivedCount x + calls.count x ≤
      inc.items.count x + w.receivedCount x := by
  cases hm with
  | @recv a rest _ h =>
    simp only [h, List.count_cons, Worker.receivedCount, beq_iff_eq, List.count_nil]
    split <;> omega
  | exit => simp [Worker.receivedCount]
  | checkCancelled => simp [Worker.receivedCount]
  | checkCtx => simp [Worker.receivedCount, List.count_singleton]
  | pingDone => simp [Worker.receivedCount]
  | pingCancelled => simp [Worker.receivedCount]

theorem WarpMove.count_eq (hm : WarpMove p c w w' inc inc' calls enq) (hc : c = false) :
    inc'.items.count x + w'.receivedCount x + calls.count x =
      inc.items.count x + w.receivedCount x := by
  cases hm with
  | @recv a rest _ h =>
    simp only [h, List.count_cons, Worker.receivedCount, beq_iff_eq, List.count_nil]
  | exit => simp [Worker.receivedCount]
  | checkCancelled h => simp [hc] at h
  | checkCtx => simp [Worker.receivedCount, List.count_singleton]
  | pingDone => simp [Worker.receivedCount]
  | pingCancelled h => simp [hc] at h

/-- Under a live context every `WarpPing` call that returns is enqueued if it
succeeded: what a step enqueues is the results of the calls it completes. -/
theorem WarpMove.completed (hm : WarpMove p c w w' inc inc' calls enq) (hc : c = false) :
    ∃ d : List α, enq = d.filterMap p ∧
      ∀ x, d.count x + w'.callingCount x = calls.count x + w.callingCount x := by
  cases hm with
  | recv => exact ⟨[], rfl, fun x => by simp [Worker.callingCount]⟩
  | exit => exact ⟨[], rfl, fun x => by simp [Worker.callingCount]⟩
  | checkCancelled h => simp [hc] at h
  | checkCtx => exact ⟨[], rfl, fun x => by simp [Worker.callingCount, List.count_singleton]⟩
  | @pingDone a =>
    refine ⟨[a], ?_, fun x => by simp [Worker.callingCount, List.count_singleton]⟩
    cases hp : p a <;> simp [hp]
  | pingCancelled h => simp [hc] at h

end Count

@[simp] theorem Worker.isDone_iff (w : Worker α) : w.isDone = true ↔ w = .done := by
  cases w <;> simp [Worker.isDone]

section Stage

variable {n : Nat} {f : Option (α → Bool)} {c : Bool} {ws ws' : List (Worker α)}
  {inc out inc' out' : Chan α} {act : StageAct}

/-- Work left in a filter stage and on its channels, with `d` the cost of an
item on its output. -/
def stageWeight (d : Nat) (ws : List (Worker α)) (inc out : Chan α) : Nat :=
  (d + 4) * inc.items.length + (ws.map (Worker.weight d)).sum + (if out.closed then 0 else 1) +
    d * out.items.length

theorem stageStep_weight_lt (d : Nat) (h : stageStep n f c ws inc out act = some (ws', inc', out')) :
    stageWeight d ws' inc' out' < stageWeight d ws inc out := by
  rcases stageStep_cases h with ⟨i, w, w', hw, rfl, hm⟩ | ⟨-, hcl, rfl, rfl, rfl⟩
  · have hsum := Transition.sum_map_set (Worker.weight d) w' hw
    have hlt := hm.weight_lt d
    unfold stageWeight
    rw [hm.out_closed]
    omega
  · simp [stageWeight, hcl]

theorem stageStep_length (h : stageStep n f c ws inc out act = some (ws', inc', out')) :
    ws'.length = ws.length := by
  rcases stageStep_cases h with ⟨i, w, w', hw, rfl, hm⟩ | ⟨-, -, rfl, rfl, rfl⟩
  · exact List.length_set
  · rfl

theorem stageStep_inc_closed (h : stageStep n f c ws inc out act = some (ws', inc', out')) :
    inc'.closed = inc.closed := by
  rcases stageStep_cases h with ⟨i, w, w', hw, rfl, hm⟩ | ⟨-, -, rfl, rfl, rfl⟩
  · exact hm.inc_closed
  · rfl

/-- The output is closed only once every worker has returned. -/
theorem stageStep_closed_done (h : stageStep n f c ws inc out act = some (ws', inc', out'))
    (hJ : out.closed = true → ∀ w ∈ ws, w = .done) :
    out'.closed = true → ∀ w ∈ ws', w = .done := by
  intro hcl
  rcases stageStep_cases h with ⟨i, w, w', hw, rfl, hm⟩ | ⟨hall, -, rfl, rfl, rfl⟩
  · rw [hm.out_closed] at hcl
    exact absurd (hJ hcl w (List.mem_of_getElem? hw)) hm.ne_done
  · simpa using hall

/-- A stage writes to its output only while it is open. -/
theorem stageStep_out_open (h : stageStep n f c ws inc out act = some (ws', inc', out'))
    (hJ : out.closed = true → ∀ w ∈ ws, w = .done) : out' = out ∨ out.closed = false := by
  rcases stageStep_cases h with ⟨i, w, w', hw, rfl, hm⟩ | ⟨-, hcl, -, -, -⟩
  · cases hcl : out.closed with
    | false => exact .inr rfl
    | true => exact absurd (hJ hcl w (List.mem_of_getElem? hw)) hm.ne_done
  · exact .inr hcl

/-- Under a live context a returned worker has seen its input closed and drained. -/
theorem stageStep_drained (h : stageStep n f c ws inc out act = some (ws', inc', out'))
    (hc : c = false) (hd : .done ∈ ws → inc.items = [] ∧ inc.closed = true) :
    .done ∈ ws' → inc'.items = [] ∧ inc'.closed = true := by
  intro hmem
  rcases stageStep_cases h with ⟨i, w, w', hw, rfl, hm⟩ | ⟨-, -, rfl, rfl, rfl⟩
  · have hin : inc.items = [] ∧ inc.closed = true := by
      rcases List.mem_or_eq_of_mem_set hmem with hold | hnew
      · exact hd hold
      · exact hm.drained_of_done hc hnew.symm
    rw [hm.inc_eq hin.1]
    exact hin
  · exact hd hmem

variable [DecidableEq α] {x : α}

theorem stageStep_count_le (h : stageStep n f c ws inc out act = some (ws', inc', out')) :
    inc'.items.count x + (ws'.map (Worker.count x)).sum + out'.items.count x ≤
      inc.items.count x + (ws.map (Worker.count x)).sum + out.items.count x := by
  rcases stageStep_cases h with ⟨i, w, w', hw, rfl, hm⟩ | ⟨-, -, rfl, rfl, rfl⟩
  · have hsum := Transition.sum_map_set (Worker.count x) w' hw
    have hle := hm.count_le (x := x)
    omega
  · simp

theorem stageStep_count_eq (h : stageStep n f c ws inc out act = some (ws', inc', out'))
    (hc : c = false) (hk : keeps f x = true) :
    inc'.items.count x + (ws'.map (Worker.count x)).sum + out'.items.count x =
      inc.items.count x + (ws.map (Worker.count x)).sum + out.items.count x := by
  rcases stageStep_cases h with ⟨i, w, w', hw, rfl, hm⟩ | ⟨-, -, rfl, rfl, rfl⟩
  · have hsum := Transition.sum_map_set (Worker.count x) w' hw
    have heq := hm.count_eq hc hk
    omega
  · simp

theorem stageStep_sendingCount_le (h : stageStep n f c ws inc out act = some (ws', inc', out'))
    (hk : keeps f x = false) :
    (ws'.map (Worker.sendingCount x)).sum + out'.items.count x ≤
      (ws.map (Worker.sendingCount x)).sum + out.items.count x := by
  rcases stageStep_cases h with ⟨i, w, w', hw, rfl, hm⟩ | ⟨-, -, rfl, rfl, rfl⟩
  · have hsum := Transition.sum_map_set (Worker.sendingCount x) w' hw
    have hle := hm.sendingCount_le hk
    omega
  · simp

end Stage

section Warp

variable {p : α → Option β} {c : Bool} {ws ws' : List (Worker α)} {inc inc' : Chan α}
  {calls : List α} {enq : List β} {act : WarpAct}

/-- Work left in the WARP stage and on its input. -/
def warpWeight (ws : List (Worker α)) (inc : Chan α) : Nat :=
  4 * inc.items.length + (ws.map (Worker.weight 0)).sum

theorem warpStep_weight_lt (h : warpStep p c ws inc act = some (ws', inc', calls, enq)) :
    warpWeight ws' inc' < warpWeight ws inc := by
  obtain ⟨i, w, w', hw, rfl, hm⟩ := warpStep_cases h
  have hsum := Transition.sum_map_set (Worker.weight 0) w' hw
  have hlt := hm.weight_lt
  unfold warpWeight
  omega

theorem warpStep_length (h : warpStep p c ws inc act = some (ws', inc', calls, enq)) :
    ws'.length = ws.length := by
  obtain ⟨i, w, w', hw, rfl, hm⟩ := warpStep_cases h
  exact List.length_set

theorem warpStep_inc_closed (h : warpStep p c ws inc act = some (ws', inc', calls, enq)) :
    inc'.closed = inc.closed := by
  obtain ⟨i, w, w', hw, rfl, hm⟩ := warpStep_cases h
  exact hm.inc_closed

theorem warpStep_not_sending (h : warpStep p c ws inc act = some (ws', inc', calls, enq))
    (hs : ∀ a, Worker.sending a ∉ ws) : ∀ a, Worker.sending a ∉ ws' := by
  obtain ⟨i, w, w', hw, rfl, hm⟩ := warpStep_cases h
  intro a hmem
  rcases List.mem_or_eq_of_mem_set hmem with hold | hnew
  · exact hs a hold
  · exact hm.ne_sending a hnew.symm

theorem warpStep_drained (h : warpStep p c ws inc act = some (ws', inc', calls, enq))
    (hc : c = false) (hd : .done ∈ ws → inc.items = [] ∧ inc.closed = true) :
    .done ∈ ws' → inc'.items = [] ∧ inc'.closed = true := by
  intro hmem
  obtain ⟨i, w, w', hw, rfl, hm⟩ := warpStep_cases h
  have hin : inc.items = [] ∧ inc.closed = true := by
    rcases List.mem_or_eq_of_mem_set hmem with hold | hnew
    · exact hd hold
    · exact hm.drained_of_done hc hnew.symm
  rw [hm.inc_eq hin.1]
  exact hin

variable [DecidableEq α] {x : α}

theorem warpStep_count_le (h : warpStep p c ws inc act = some (ws', inc', calls, enq)) :
    inc'.items.count x + (ws'.map (Worker.receivedCount x)).sum + calls.count x ≤
      inc.items.count x + (ws.map (Worker.receivedCount x)).sum := by
  obtain ⟨i, w, w', hw, rfl, hm⟩ := warpStep_cases h
  have hsum := Transition.sum_map_set (Worker.receivedCount x) w' hw
  have hle := hm.count_le (x := x)
  omega

theorem warpStep_count_eq (h : warpStep p c ws inc act = some (ws', inc', calls, enq))
    (hc : c = false) :
    inc'.items.count x + (ws'.map (Worker.receivedCount x)).sum + calls.count x =
      inc.items.count x + (ws.map (Worker.receivedCount x)).sum := by
  obtain ⟨i, w, w', hw, rfl, hm⟩ := warpStep_cases h
  have hsum := Transition.sum_map_set (Worker.receivedCount x) w' hw
  have heq := hm.count_eq (x := x) hc
  omega

theorem warpStep_completed (h : warpStep p c ws inc act = some (ws', inc', calls, enq))
    (hc : c = false) :
    ∃ d : List α, enq = d.filterMap p ∧ ∀ x, d.count x + (ws'.map (Worker.callingCount x)).sum =
      calls.count x + (ws.map (Worker.callingCount x)).sum := by
  obtain ⟨i, w, w', hw, rfl, hm⟩ := warpStep_cases h
  obtain ⟨d, hd, hcount⟩ := hm.completed hc
  refine ⟨d, hd, fun x => ?_⟩
  have hsum := Transition.sum_map_set (Worker.callingCount x) w' hw
  have hx := hcount x
  omega

end Warp

section Stuck

variable {n : Nat} {f : Option (α → Bool)} {c : Bool} {ws : List (Worker α)} {inc out : Chan α}

/-- How a filter stage with no enabled step stands: it has returned and
closed its output, or it waits on an empty open input, or on a full output
under a live context. -/
def Stalled (n : Nat) (c : Bool) (ws : List (Worker α)) (inc out : Chan α) : Prop :=
  ((∀ w ∈ ws, w = .done) ∧ out.closed = true) ∨
    ((∃ w ∈ ws, w ≠ .done) ∧
      ((inc.items = [] ∧ inc.closed = false) ∨ (n ≤ out.items.length ∧ c = false)))

/-- A stage where no action is enabled has stalled: the state of each worker names
the step that would otherwise be enabled. -/
theorem stage_stuck (h : ∀ act, stageStep n f c ws inc out act = none) : Stalled n c ws inc out := by
  by_cases hall : ∀ w ∈ ws, w = .done
  · refine .inl ⟨hall, ?_⟩
    have hclose := h .closeOut
    have hall' : ws.all Worker.isDone = true := List.all_eq_true.mpr (fun w hw => by simp [hall w hw])
    cases hcl : out.closed with
    | true => rfl
    | false => simp [stageStep, hall', hcl] at hclose
  · push Not at hall
    obtain ⟨w, hmem, hne⟩ := hall
    obtain ⟨i, hw⟩ := List.mem_iff_getElem?.mp hmem
    refine .inr ⟨⟨w, hmem, hne⟩, ?_⟩
    cases w with
    | ranging =>
      have hrecv := h (.recv i)
      have hexit := h (.exit i)
      cases hi : inc.items with
      | cons a rest => simp [stageStep, hw, hi] at hrecv
      | nil =>
        cases hc : inc.closed with
        | true => simp [stageStep, hw, hi, hc] at hexit
        | false => exact .inl ⟨rfl, rfl⟩
    | received a =>
      have hcheck := h (.checkCtx i)
      simp [stageStep, hw] at hcheck
    | calling a =>
      have hdone := h (.filterDone i)
      simp [stageStep, hw] at hdone
    | sending a =>
      have hsend := h (.send i)
      have hquit := h (.sendCancelled i)
      by_cases hlt : out.items.length < n
      · simp [stageStep, hw, hlt] at hsend
      · cases c with
        | true => simp [stageStep, hw] at hquit
        | false => exact .inr ⟨by omega, rfl⟩
    | done => exact absurd rfl hne

/-- Under a cancelled context a stalled stage with a closed input has returned. -/
theorem Stalled.returned_of_cancelled (h : Stalled n true ws inc out) (hin : inc.closed = true) :
    (∀ w ∈ ws, w = .done) ∧ out.closed = true := by
  rcases h with h | ⟨-, ⟨-, hopen⟩ | ⟨-, hc⟩⟩
  · exact h
  · simp [hin] at hopen
  · cases hc

/-- Under a live context a stalled stage with an empty open output waits on an
empty open input. -/
theorem Stalled.starving (h : Stalled n false ws inc out) (hn : 0 < n)
    (hout : out.items = [] ∧ out.closed = false) : inc.items = [] ∧ inc.closed = false := by
  rcases h with ⟨-, hcl⟩ | ⟨-, hin | ⟨hle, -⟩⟩
  · simp [hout.2] at hcl
  · exact hin
  · rw [hout.1] at hle
    simp at hle
    omega

theorem warp_stuck {p : α → Option β} (h : ∀ act, warpStep p c ws inc act = none)
    (hs : ∀ a, Worker.sending a ∉ ws) :
    (∀ w ∈ ws, w = .done) ∨ (inc.items = [] ∧ inc.closed = false) := by
  by_cases hall : ∀ w ∈ ws, w = .done
  · exact .inl hall
  · push Not at hall
    obtain ⟨w, hmem, hne⟩ := hall
    obtain ⟨i, hw⟩ := List.mem_iff_getElem?.mp hmem
    refine .inr ?_
    cases w with
    | ranging =>
      have hrecv := h (.recv i)
      have hexit := h (.exit i)
      cases hi : inc.items with
      | cons a rest => simp [warpStep, hw, hi] at hrecv
      | nil =>
        cases hc : inc.closed with
        | true => simp [warpStep, hw, hi, hc] at hexit
        | false => exact ⟨rfl, rfl⟩
    | received a =>
      have hcheck := h (.checkCtx i)
      cases c <;> simp [warpStep, hw] at hcheck
    | calling a =>
      have hdone := h (.pingDone i)
      simp [warpStep, hw] at hdone
    | sending a => exact absurd hmem (hs a)
    | done => exact absurd rfl hne

theorem gen_stuck {o : Options α β} {s : Pipeline α β} (hsend : step o s .genSend = none)
    (hret : step o s .genReturn = none) :
    s.gen = none ∨ (o.concurrency ≤ s.ipStream.items.length ∧ s.cancelled = false) := by
  cases hg : s.gen with
  | none => exact .inl rfl
  | some l =>
    refine .inr ?_
    cases l with
    | nil => simp [step, hg] at hret
    | cons a rest =>
      by_cases hlt : s.ipStream.items.length < o.concurrency
      · simp [step, hg, hlt] at hsend
      · cases hc : s.cancelled with
        | true => simp [step, hg, hc] at hret
        | false => exact ⟨by omega, rfl⟩

end Stuck

end Engine
