import Vwarp.Engine.PipelineSteps

/-!
# Runs of the scanner pipeline

Three invariants hold along every run. `Shape` says how the goroutines and
channels fit together: a channel is closed only by its writer once that writer
has returned, and under a live context a worker returns only on a closed,
drained input. `Conserved` counts the copies of each candidate: those still in
the pipeline together with those handed to `WarpPing` never outnumber the
candidates, and a candidate a filter rejects never gets past it. `Exact` holds
while the context is live: no candidate that every filter keeps is lost, and
the queue has received the results of the `WarpPing` calls that returned.

From them: every step lowers `Pipeline.measure`, so every run is finite; a
state in which no goroutine can move is one where `masterWg.Wait()` has
returned; each candidate is handed to `WarpPing` at most once; and once a run
without cancellation returns, the queue has received exactly the `WarpPing`
successes of the candidates that every enabled filter keeps.
-/

namespace Engine

variable {α β : Type} {o : Options α β} {s s' : Pipeline α β}

section Measure

def genWeight : Option (List α) → Nat
  | some l => 13 * l.length + 1
  | none => 0

/-- The work left in the whole pipeline: each queued item is priced by the
steps it has still to take. -/
def Pipeline.measure (s : Pipeline α β) : Nat :=
  genWeight s.gen + 12 * s.ipStream.items.length + (s.icmp.map (Worker.weight 8)).sum +
    (if s.icmpStream.closed then 0 else 1) + 8 * s.icmpStream.items.length +
    (s.tcp.map (Worker.weight 4)).sum + (if s.tcpStream.closed then 0 else 1) +
    4 * s.tcpStream.items.length + (s.warp.map (Worker.weight 0)).sum +
    (if s.cancelled then 0 else 1)

theorem step_measure_lt {a : Action} (h : step o s a = some s') : s'.measure < s.measure := by
  cases a with
  | genSend =>
    obtain ⟨a, rest, hg, -, rfl⟩ := step_genSend_eq_some h
    simp only [Pipeline.measure, hg, genWeight, Chan.push_items, List.length_append, List.length_cons, List.length_nil]
    omega
  | genReturn =>
    obtain ⟨l, hg, -, rfl⟩ := step_genReturn_eq_some h
    simp only [Pipeline.measure, hg, genWeight, Chan.close_items]
    omega
  | icmp act =>
    obtain ⟨ws, inc, out, hst, rfl⟩ := step_icmp_eq_some.mp h
    have hlt := stageStep_weight_lt 8 hst
    simp only [stageWeight] at hlt
    simp only [Pipeline.measure]
    omega
  | tcp act =>
    obtain ⟨ws, inc, out, hst, rfl⟩ := step_tcp_eq_some.mp h
    have hlt := stageStep_weight_lt 4 hst
    simp only [stageWeight] at hlt
    simp only [Pipeline.measure, stageStep_inc_closed hst]
    omega
  | warp act =>
    obtain ⟨ws, inc, calls, enq, hst, rfl⟩ := step_warp_eq_some.mp h
    have hlt := warpStep_weight_lt hst
    simp only [warpWeight] at hlt
    simp only [Pipeline.measure, warpStep_inc_closed hst]
    omega
  | cancel =>
    obtain ⟨hc, rfl⟩ := step_cancel_eq_some h
    simp only [Pipeline.measure, hc, Bool.false_eq_true, if_true, if_false]
    omega

/-- No run is longer than the work the start leaves. -/
theorem run_length_le {candidates : List α} {acts : List Action}
    (h : run o candidates acts = some s) : acts.length ≤ (start o candidates).measure := by
  have hlen := Transition.exec_length_le (I := fun _ => True) Pipeline.measure
    (fun _ _ _ _ _ => trivial) (fun _ _ _ _ hst => step_measure_lt hst) trivial h
  omega

end Measure

section Shape

theorem done_not_mem_stageWorkers (n : Nat) (f : Option (α → Bool)) :
    Worker.done ∉ stageWorkers n f := by
  cases f <;> simp [stageWorkers, List.mem_replicate]

theorem stageWorkers_length_pos {n : Nat} (hn : 0 < n) (f : Option (α → Bool)) :
    0 < (stageWorkers n f).length := by
  cases f <;> simp [stageWorkers, hn]

theorem done_mem_of_all_done {ws : List (Worker α)} (hlen : 0 < ws.length)
    (h : ∀ w ∈ ws, w = .done) : Worker.done ∈ ws := by
  obtain ⟨w, hw⟩ := List.exists_mem_of_length_pos hlen
  rw [← h w hw]
  exact hw

structure Shape (o : Options α β) (s : Pipeline α β) : Prop where
  gen_closed : s.ipStream.closed = s.gen.isNone
  icmp_closed : s.icmpStream.closed = true → ∀ w ∈ s.icmp, w = .done
  tcp_closed : s.tcpStream.closed = true → ∀ w ∈ s.tcp, w = .done
  icmp_length : s.icmp.length = (stageWorkers o.concurrency o.icmpFilter).length
  tcp_length : s.tcp.length = (stageWorkers o.concurrency o.tcpFilter).length
  warp_length : s.warp.length = o.concurrency
  warp_not_sending : ∀ a, Worker.sending a ∉ s.warp
  icmp_drained : s.cancelled = false → .done ∈ s.icmp →
    s.ipStream.items = [] ∧ s.ipStream.closed = true
  tcp_drained : s.cancelled = false → .done ∈ s.tcp →
    s.icmpStream.items = [] ∧ s.icmpStream.closed = true
  warp_drained : s.cancelled = false → .done ∈ s.warp →
    s.tcpStream.items = [] ∧ s.tcpStream.closed = true

theorem start_shape (o : Options α β) (candidates : List α) : Shape o (start o candidates) where
  gen_closed := rfl
  icmp_closed := by simp [start]
  tcp_closed := by simp [start]
  icmp_length := rfl
  tcp_length := rfl
  warp_length := List.length_replicate
  warp_not_sending := by simp [start, List.mem_replicate]
  icmp_drained := fun _ h => absurd h (done_not_mem_stageWorkers _ _)
  tcp_drained := fun _ h => absurd h (done_not_mem_stageWorkers _ _)
  warp_drained := fun _ h => by simp [start, List.mem_replicate] at h

/-- Every step keeps the shape of the pipeline; the generator, for one, writes only to
its open channel, so no ICMP worker has returned while it runs. -/
theorem step_shape {a : Action} (hS : Shape o s) (h : step o s a = some s') : Shape o s' := by
  cases a with
  | genSend =>
    obtain ⟨a, rest, hg, -, rfl⟩ := step_genSend_eq_some h
    have hopen : s.ipStream.closed = false := by rw [hS.gen_closed, hg]; rfl
    exact { hS with
      gen_closed := by simpa using hopen
      icmp_drained := fun hc hmem => absurd (hS.icmp_drained hc hmem).2 (by simp [hopen]) }
  | genReturn =>
    obtain ⟨l, hg, -, rfl⟩ := step_genReturn_eq_some h
    have hopen : s.ipStream.closed = false := by rw [hS.gen_closed, hg]; rfl
    exact { hS with
      gen_closed := by simp
      icmp_drained := fun hc hmem => absurd (hS.icmp_drained hc hmem).2 (by simp [hopen]) }
  | icmp act =>
    obtain ⟨ws, inc, out, hst, rfl⟩ := step_icmp_eq_some.mp h
    exact { hS with
      gen_closed := by rw [stageStep_inc_closed hst]; exact hS.gen_closed
      icmp_closed := stageStep_closed_done hst hS.icmp_closed
      icmp_length := by rw [stageStep_length hst]; exact hS.icmp_length
      icmp_drained := fun hc => stageStep_drained hst hc (hS.icmp_drained hc)
      tcp_drained := fun hc hmem => by
        rcases stageStep_out_open hst hS.icmp_closed with rfl | hopen
        · exact hS.tcp_drained hc hmem
        · exact absurd (hS.tcp_drained hc hmem).2 (by simp [hopen]) }
  | tcp act =>
    obtain ⟨ws, inc, out, hst, rfl⟩ := step_tcp_eq_some.mp h
    exact { hS with
      icmp_closed := fun hcl => hS.icmp_closed (by rwa [stageStep_inc_closed hst] at hcl)
      tcp_closed := stageStep_closed_done hst hS.tcp_closed
      tcp_length := by rw [stageStep_length hst]; exact hS.tcp_length
      tcp_drained := fun hc => stageStep_drained hst hc (hS.tcp_drained hc)
      warp_drained := fun hc hmem => by
        rcases stageStep_out_open hst hS.tcp_closed with rfl | hopen
        · exact hS.warp_drained hc hmem
        · exact absurd (hS.warp_drained hc hmem).2 (by simp [hopen]) }
  | warp act =>
    obtain ⟨ws, inc, calls, enq, hst, rfl⟩ := step_warp_eq_some.mp h
    exact { hS with
      tcp_closed := fun hcl => hS.tcp_closed (by rwa [warpStep_inc_closed hst] at hcl)
      warp_length := by rw [warpStep_length hst]; exact hS.warp_length
      warp_not_sending := warpStep_not_sending hst hS.warp_not_sending
      warp_drained := fun hc => warpStep_drained hst hc (hS.warp_drained hc) }
  | cancel =>
    obtain ⟨-, rfl⟩ := step_cancel_eq_some h
    exact { hS with
      icmp_drained := fun hc => by cases hc
      tcp_drained := fun hc => by cases hc
      warp_drained := fun hc => by cases hc }

theorem Pipeline.returned_eq_true :
    s.returned = true ↔ s.gen = none ∧ (∀ w ∈ s.icmp, w = .done) ∧ s.icmpStream.closed = true ∧
      (∀ w ∈ s.tcp, w = .done) ∧ s.tcpStream.closed = true ∧ ∀ w ∈ s.warp, w = .done := by
  simp [Pipeline.returned, List.all_eq_true, and_assoc]

/-- A state in which every stage is stalled is the end of the run: the chain of
stages is followed forward when the context is cancelled, and back from the
WARP stage when it is live. -/
theorem Shape.returned_of_stalled (hn : 0 < o.concurrency) (hS : Shape o s)
    (hgen : s.gen = none ∨ (o.concurrency ≤ s.ipStream.items.length ∧ s.cancelled = false))
    (hicmp : Stalled o.concurrency s.cancelled s.icmp s.ipStream s.icmpStream)
    (htcp : Stalled o.concurrency s.cancelled s.tcp s.icmpStream s.tcpStream)
    (hwarp : (∀ w ∈ s.warp, w = .done) ∨ (s.tcpStream.items = [] ∧ s.tcpStream.closed = false)) :
    s.returned = true := by
  have hicmpLen := stageWorkers_length_pos hn o.icmpFilter
  have htcpLen := stageWorkers_length_pos hn o.tcpFilter
  rw [Pipeline.returned_eq_true]
  cases hc : s.cancelled with
  | true =>
    rw [hc] at hicmp htcp
    have hg : s.gen = none := by
      rcases hgen with hg | ⟨-, hlive⟩
      · exact hg
      · simp [hc] at hlive
    have h1 : s.ipStream.closed = true := by rw [hS.gen_closed, hg]; rfl
    obtain ⟨hi, h2⟩ := hicmp.returned_of_cancelled h1
    obtain ⟨ht, h3⟩ := htcp.returned_of_cancelled h2
    have hw : ∀ w ∈ s.warp, w = .done := by
      rcases hwarp with hw | ⟨-, hopen⟩
      · exact hw
      · simp [h3] at hopen
    exact ⟨hg, hi, h2, ht, h3, hw⟩
  | false =>
    rw [hc] at hicmp htcp
    rcases hwarp with hw | hstarve
    · have h3 := hS.warp_drained hc (done_mem_of_all_done (by rw [hS.warp_length]; exact hn) hw)
      have ht := hS.tcp_closed h3.2
      have h2 := hS.tcp_drained hc (done_mem_of_all_done (by rw [hS.tcp_length]; exact htcpLen) ht)
      have hi := hS.icmp_closed h2.2
      have h1 := hS.icmp_drained hc (done_mem_of_all_done (by rw [hS.icmp_length]; exact hicmpLen) hi)
      have hg : s.gen = none := by
        have hclosed := hS.gen_closed
        rw [h1.2] at hclosed
        exact Option.isNone_iff_eq_none.mp hclosed.symm
      exact ⟨hg, hi, h2.2, ht, h3.2, hw⟩
    · have h2 := htcp.starving hn hstarve
      have h1 := hicmp.starving hn h2
      exfalso
      rcases hgen with hg | ⟨hle, -⟩
      · have hclosed := hS.gen_closed
        rw [hg, h1.2] at hclosed
        cases hclosed
      · rw [h1.1] at hle
        simp at hle
        omega

/-- Deadlock freedom: a state of a run is the end, or some goroutine can move
without the context being cancelled. -/
theorem Shape.progress (hn : 0 < o.concurrency) (hS : Shape o s) :
    s.returned = true ∨ ∃ a s', a ≠ .cancel ∧ step o s a = some s' := by
  by_cases hmove : ∃ a s', a ≠ .cancel ∧ step o s a = some s'
  · exact .inr hmove
  · have hnone : ∀ a, a ≠ .cancel → step o s a = none := by
      intro a ha
      cases hst : step o s a with
      | none => rfl
      | some s' => exact absurd ⟨a, s', ha, hst⟩ hmove
    have hgen := gen_stuck (hnone .genSend (by simp)) (hnone .genReturn (by simp))
    have hicmp := stage_stuck fun act => by simpa [step] using hnone (.icmp act) (by simp)
    have htcp := stage_stuck fun act => by simpa [step] using hnone (.tcp act) (by simp)
    have hwarp := warp_stuck (fun act => by simpa [step] using hnone (.warp act) (by simp))
      hS.warp_not_sending
    exact .inl (hS.returned_of_stalled hn hgen hicmp htcp hwarp)

theorem run_shape {candidates : List α} {acts : List Action}
    (h : run o candidates acts = some s) : Shape o s :=
  Transition.exec_invariant (fun _ _ _ hS hst => step_shape hS hst) (start_shape o candidates) h

end Shape

section Counts

theorem sum_map_stageWorkers (n : Nat) (f : Option (α → Bool)) (g : Worker α → Nat)
    (hg : g .ranging = 0) : ((stageWorkers n f).map g).sum = 0 := by
  cases f <;> simp [stageWorkers, hg]

theorem sum_map_of_all_done {ws : List (Worker α)} (g : Worker α → Nat) (hg : g .done = 0)
    (h : ∀ w ∈ ws, w = .done) : (ws.map g).sum = 0 := by
  apply List.sum_eq_zero
  intro k hk
  obtain ⟨w, hw, rfl⟩ := List.mem_map.mp hk
  rw [h w hw, hg]

variable [DecidableEq α]

/-- Copies of `x` still in the pipeline and not yet handed to `WarpPing`. -/
def Pipeline.held (x : α) (s : Pipeline α β) : Nat :=
  (s.gen.getD []).count x + s.ipStream.items.count x + (s.icmp.map (Worker.count x)).sum +
    s.icmpStream.items.count x + (s.tcp.map (Worker.count x)).sum + s.tcpStream.items.count x +
    (s.warp.map (Worker.receivedCount x)).sum

/-- Copies of `x` past the ICMP filter. -/
def Pipeline.pastIcmp (x : α) (s : Pipeline α β) : Nat :=
  (s.icmp.map (Worker.sendingCount x)).sum + s.icmpStream.items.count x +
    (s.tcp.map (Worker.count x)).sum + s.tcpStream.items.count x +
    (s.warp.map (Worker.receivedCount x)).sum + s.warpCalls.count x

/-- Copies of `x` past the TCP filter. -/
def Pipeline.pastTcp (x : α) (s : Pipeline α β) : Nat :=
  (s.tcp.map (Worker.sendingCount x)).sum + s.tcpStream.items.count x +
    (s.warp.map (Worker.receivedCount x)).sum + s.warpCalls.count x

/-- Whether every enabled filter keeps the candidate. -/
def keepsAll (o : Options α β) (x : α) : Bool := keeps o.icmpFilter x && keeps o.tcpFilter x

/-- A step never creates a copy of a candidate, and never moves one past a
filter that rejects it. -/
theorem step_counts {a : Action} (h : step o s a = some s') (x : α) :
    s'.held x + s'.warpCalls.count x ≤ s.held x + s.warpCalls.count x ∧
      (keeps o.icmpFilter x = false → s'.pastIcmp x ≤ s.pastIcmp x) ∧
      (keeps o.tcpFilter x = false → s'.pastTcp x ≤ s.pastTcp x) := by
  cases a with
  | genSend =>
    obtain ⟨a, rest, hg, -, rfl⟩ := step_genSend_eq_some h
    refine ⟨?_, fun _ => le_rfl, fun _ => le_rfl⟩
    simp only [Pipeline.held, hg, Option.getD_some, Chan.push_items, List.count_append,
      List.count_cons, List.count_nil]
    split <;> omega
  | genReturn =>
    obtain ⟨l, hg, -, rfl⟩ := step_genReturn_eq_some h
    refine ⟨?_, fun _ => le_rfl, fun _ => le_rfl⟩
    simp only [Pipeline.held, hg, Option.getD_some, Option.getD_none, Chan.close_items,
      List.count_nil]
    omega
  | icmp act =>
    obtain ⟨ws, inc, out, hst, rfl⟩ := step_icmp_eq_some.mp h
    have hle := stageStep_count_le (x := x) hst
    refine ⟨?_, fun hk => ?_, fun _ => le_rfl⟩
    · simp only [Pipeline.held]
      omega
    · have hsend := stageStep_sendingCount_le hst hk
      simp only [Pipeline.pastIcmp]
      omega
  | tcp act =>
    obtain ⟨ws, inc, out, hst, rfl⟩ := step_tcp_eq_some.mp h
    have hle := stageStep_count_le (x := x) hst
    refine ⟨?_, fun _ => ?_, fun hk => ?_⟩
    · simp only [Pipeline.held]
      omega
    · simp only [Pipeline.pastIcmp]
      omega
    · have hsend := stageStep_sendingCount_le hst hk
      simp only [Pipeline.pastTcp]
      omega
  | warp act =>
    obtain ⟨ws, inc, calls, enq, hst, rfl⟩ := step_warp_eq_some.mp h
    have hle := warpStep_count_le (x := x) hst
    refine ⟨?_, fun _ => ?_, fun _ => ?_⟩
    · simp only [Pipeline.held, List.count_append]
      omega
    · simp only [Pipeline.pastIcmp, List.count_append]
      omega
    · simp only [Pipeline.pastTcp, List.count_append]
      omega
  | cancel =>
    obtain ⟨-, rfl⟩ := step_cancel_eq_some h
    exact ⟨le_rfl, fun _ => le_rfl, fun _ => le_rfl⟩

/-- Under a live context a step loses no copy of a candidate every filter keeps. -/
theorem step_counts_eq {a : Action} (h : step o s a = some s') (ha : a ≠ .cancel)
    (hc : s.cancelled = false) {x : α} (hk : keepsAll o x = true) :
    s'.held x + s'.warpCalls.count x = s.held x + s.warpCalls.count x := by
  simp only [keepsAll, Bool.and_eq_true] at hk
  cases a with
  | genSend =>
    obtain ⟨a, rest, hg, -, rfl⟩ := step_genSend_eq_some h
    simp only [Pipeline.held, hg, Option.getD_some, Chan.push_items, List.count_append,
      List.count_cons, List.count_nil]
    split <;> omega
  | genReturn =>
    obtain ⟨l, hg, hl, rfl⟩ := step_genReturn_eq_some h
    have hnil : l = [] := by
      rcases hl with hl | hl
      · exact hl
      · simp [hc] at hl
    simp only [Pipeline.held, hg, hnil, Option.getD_some, Option.getD_none, Chan.close_items]
  | icmp act =>
    obtain ⟨ws, inc, out, hst, rfl⟩ := step_icmp_eq_some.mp h
    have heq := stageStep_count_eq hst hc hk.1
    simp only [Pipeline.held]
    omega
  | tcp act =>
    obtain ⟨ws, inc, out, hst, rfl⟩ := step_tcp_eq_some.mp h
    have heq := stageStep_count_eq hst hc hk.2
    simp only [Pipeline.held]
    omega
  | warp act =>
    obtain ⟨ws, inc, calls, enq, hst, rfl⟩ := step_warp_eq_some.mp h
    have heq := warpStep_count_eq (x := x) hst hc
    simp only [Pipeline.held, List.count_append]
    omega
  | cancel => exact absurd rfl ha

structure Conserved (o : Options α β) (candidates : List α) (s : Pipeline α β) : Prop where
  le : ∀ x, s.held x + s.warpCalls.count x ≤ candidates.count x
  icmp_filtered : ∀ x, keeps o.icmpFilter x = false → s.pastIcmp x = 0
  tcp_filtered : ∀ x, keeps o.tcpFilter x = false → s.pastTcp x = 0

theorem start_conserved (o : Options α β) (candidates : List α) :
    Conserved o candidates (start o candidates) where
  le x := by
    have h₁ := sum_map_stageWorkers o.concurrency o.icmpFilter (Worker.count x) rfl
    have h₂ := sum_map_stageWorkers o.concurrency o.tcpFilter (Worker.count x) rfl
    simp [Pipeline.held, start, Worker.receivedCount, h₁, h₂]
  icmp_filtered x _ := by
    have h₁ := sum_map_stageWorkers o.concurrency o.icmpFilter (Worker.sendingCount x) rfl
    have h₂ := sum_map_stageWorkers o.concurrency o.tcpFilter (Worker.count x) rfl
    simp [Pipeline.pastIcmp, start, Worker.receivedCount, h₁, h₂]
  tcp_filtered x _ := by
    have h₁ := sum_map_stageWorkers o.concurrency o.tcpFilter (Worker.sendingCount x) rfl
    simp [Pipeline.pastTcp, start, Worker.receivedCount, h₁]

theorem step_conserved {candidates : List α} {a : Action} (hC : Conserved o candidates s)
    (h : step o s a = some s') : Conserved o candidates s' where
  le x := le_trans (step_counts h x).1 (hC.le x)
  icmp_filtered x hk := by
    have hle := (step_counts h x).2.1 hk
    have hz := hC.icmp_filtered x hk
    omega
  tcp_filtered x hk := by
    have hle := (step_counts h x).2.2 hk
    have hz := hC.tcp_filtered x hk
    omega

theorem run_conserved {candidates : List α} {acts : List Action}
    (h : run o candidates acts = some s) : Conserved o candidates s :=
  Transition.exec_invariant (fun _ _ _ hC hst => step_conserved hC hst)
    (start_conserved o candidates) h

/-- While the context is live: every candidate that every filter keeps is still
in the pipeline or was handed to `WarpPing`, and the queue has received the
results of the calls that returned. -/
structure Exact (o : Options α β) (candidates : List α) (s : Pipeline α β) : Prop where
  live : s.cancelled = false
  kept : ∀ x, keepsAll o x = true → s.held x + s.warpCalls.count x = candidates.count x
  completed : ∃ d : List α, s.enqueued = d.filterMap o.warpPing ∧
    ∀ x, d.count x + (s.warp.map (Worker.callingCount x)).sum = s.warpCalls.count x

theorem start_exact (o : Options α β) (candidates : List α) :
    Exact o candidates (start o candidates) where
  live := rfl
  kept x _ := by
    have h₁ := sum_map_stageWorkers o.concurrency o.icmpFilter (Worker.count x) rfl
    have h₂ := sum_map_stageWorkers o.concurrency o.tcpFilter (Worker.count x) rfl
    simp [Pipeline.held, start, Worker.receivedCount, h₁, h₂]
  completed := ⟨[], rfl, fun x => by simp [start, Worker.callingCount]⟩

theorem step_exact {candidates : List α} {a : Action} (hE : Exact o candidates s)
    (ha : a ≠ .cancel) (h : step o s a = some s') : Exact o candidates s' := by
  have kept : ∀ x, keepsAll o x = true → s'.held x + s'.warpCalls.count x = candidates.count x :=
    fun x hk => (step_counts_eq h ha hE.live hk).trans (hE.kept x hk)
  obtain ⟨d, hd, hcount⟩ := hE.completed
  cases a with
  | genSend =>
    obtain ⟨a, rest, hg, -, rfl⟩ := step_genSend_eq_some h
    exact ⟨hE.live, kept, d, hd, hcount⟩
  | genReturn =>
    obtain ⟨l, hg, -, rfl⟩ := step_genReturn_eq_some h
    exact ⟨hE.live, kept, d, hd, hcount⟩
  | icmp act =>
    obtain ⟨ws, inc, out, hst, rfl⟩ := step_icmp_eq_some.mp h
    exact ⟨hE.live, kept, d, hd, hcount⟩
  | tcp act =>
    obtain ⟨ws, inc, out, hst, rfl⟩ := step_tcp_eq_some.mp h
    exact ⟨hE.live, kept, d, hd, hcount⟩
  | warp act =>
    obtain ⟨ws, inc, calls, enq, hst, rfl⟩ := step_warp_eq_some.mp h
    obtain ⟨d', hd', hcount'⟩ := warpStep_completed hst hE.live
    refine ⟨hE.live, kept, d ++ d', by rw [hd, hd', List.filterMap_append], fun x => ?_⟩
    have h₁ := hcount x
    have h₂ := hcount' x
    simp only [List.count_append]
    omega
  | cancel => exact absurd rfl ha

theorem run_exact {candidates : List α} {acts : List Action}
    (h : run o candidates acts = some s) (hno : Action.cancel ∉ acts) : Exact o candidates s :=
  Transition.exec_guarded_invariant (fun a => a ≠ .cancel)
    (fun _ _ _ ha hE hst => step_exact hE ha hst)
    (fun a ha hcancel => by subst hcancel; exact hno ha) (start_exact o candidates) h

/-- When `masterWg.Wait()` returns under a live context nothing is left in the
pipeline: every worker has returned and every channel is drained. -/
theorem Shape.held_of_returned (hn : 0 < o.concurrency) (hS : Shape o s)
    (hc : s.cancelled = false) (hr : s.returned = true) (x : α) :
    s.held x = 0 ∧ (s.warp.map (Worker.callingCount x)).sum = 0 := by
  obtain ⟨hg, hi, -, ht, -, hw⟩ := Pipeline.returned_eq_true.mp hr
  have h3 := hS.warp_drained hc (done_mem_of_all_done (by rw [hS.warp_length]; exact hn) hw)
  have h2 := hS.tcp_drained hc
    (done_mem_of_all_done (by rw [hS.tcp_length]; exact stageWorkers_length_pos hn _) ht)
  have h1 := hS.icmp_drained hc
    (done_mem_of_all_done (by rw [hS.icmp_length]; exact stageWorkers_length_pos hn _) hi)
  refine ⟨?_, sum_map_of_all_done _ rfl hw⟩
  simp only [Pipeline.held, hg, Option.getD_none, h1.1, h2.1, h3.1, List.count_nil,
    sum_map_of_all_done (Worker.count x) rfl hi, sum_map_of_all_done (Worker.count x) rfl ht,
    sum_map_of_all_done (Worker.receivedCount x) rfl hw]

/-- No candidate of a duplicate-free list is handed to `WarpPing` twice. -/
theorem run_warpCalls_nodup {candidates : List α} {acts : List Action}
    (hnd : candidates.Nodup) (h : run o candidates acts = some s) : s.warpCalls.Nodup := by
  have hC := run_conserved h
  rw [List.nodup_iff_count_le_one] at hnd ⊢
  intro x
  have hle := hC.le x
  have hone := hnd x
  omega

/-- A run without cancellation that returns has handed to `WarpPing` exactly the
candidates every filter keeps, and the queue has received their successes. -/
theorem run_enqueued_perm {candidates : List α} {acts : List Action} (hn : 0 < o.concurrency)
    (h : run o candidates acts = some s) (hno : Action.cancel ∉ acts) (hr : s.returned = true) :
    s.enqueued.Perm ((candidates.filter (keepsAll o)).filterMap o.warpPing) := by
  have hS := run_shape h
  have hC := run_conserved h
  have hE := run_exact h hno
  have hend := hS.held_of_returned hn hE.live hr
  obtain ⟨d, hd, hcount⟩ := hE.completed
  have hcalls : s.warpCalls.Perm (candidates.filter (keepsAll o)) := by
    rw [List.perm_iff_count]
    intro x
    cases hk : keepsAll o x with
    | true =>
      rw [List.count_filter hk]
      have hkept := hE.kept x hk
      have hheld := (hend x).1
      omega
    | false =>
      have hnot : x ∉ candidates.filter (keepsAll o) := by simp [hk]
      rw [List.count_eq_zero.mpr hnot]
      simp only [keepsAll, Bool.and_eq_false_iff] at hk
      rcases hk with hk | hk
      · have hz := hC.icmp_filtered x hk
        simp only [Pipeline.pastIcmp] at hz
        omega
      · have hz := hC.tcp_filtered x hk
        simp only [Pipeline.pastTcp] at hz
        omega
  have hdone : d.Perm s.warpCalls := by
    rw [List.perm_iff_count]
    intro x
    have hx := hcount x
    have hpending := (hend x).2
    omega
  rw [hd]
  exact (hdone.trans hcalls).filterMap _

end Counts

section Candidates

open Netip

/-- Every address of the map has a duplicate-free port list. -/
def PortsNodup (m : PortMap) : Prop := ∀ ip ports, ports ∈ m.lookup ip → ports.Nodup

theorem appendIfMissing_nodup {slice : List UInt16} (h : slice.Nodup) (v : UInt16) :
    (appendIfMissing slice v).Nodup := by
  unfold appendIfMissing
  split
  · exact h
  · next hv =>
    have hv' : v ∉ slice := by simpa using hv
    exact h.append (List.nodup_singleton v) (List.disjoint_singleton.mpr hv')

theorem addPort_nodup {m : PortMap} (hm : PortsNodup m) (ip : Addr) (port : UInt16) :
    PortsNodup (addPort m ip port) := by
  intro ip' ports h
  unfold addPort at h
  by_cases hip : ip' = ip
  · subst hip
    rw [AList.lookup_insert, Option.mem_some_iff] at h
    rw [← h]
    apply appendIfMissing_nodup
    cases hl : m.lookup ip' with
    | none => exact List.nodup_nil
    | some old => exact hm ip' old hl
  · rw [AList.lookup_insert_ne hip] at h
    exact hm ip' ports h

theorem foldl_addPort_nodup {ι : Type} (g : ι → Addr) (q : ι → UInt16) :
    ∀ (l : List ι) (m : PortMap), PortsNodup m →
      PortsNodup (l.foldl (fun m e => addPort m (g e) (q e)) m) := by
  intro l
  induction l with
  | nil => exact fun _ hm => hm
  | cons e l ih => exact fun m hm => ih _ (addPort_nodup hm (g e) (q e))

theorem candidatePorts_nodup (cidrIPs : Except String (List Addr))
    (customEndpoints : List AddrPort) : PortsNodup (candidatePorts cidrIPs customEndpoints) := by
  have hempty : PortsNodup (∅ : PortMap) := fun ip ports h => by simp at h
  apply foldl_addPort_nodup AddrPort.ip AddrPort.port
  cases cidrIPs with
  | error e => exact hempty
  | ok ips => exact foldl_addPort_nodup id (fun _ => 0) ips ∅ hempty

/-- Each (address, port) pair is one candidate: distinct keys give distinct
addresses, and each key's ports are distinct. -/
theorem allCandidateIPInfos_nodup {m : PortMap} (hm : PortsNodup m) :
    (allCandidateIPInfos m).Nodup := by
  have hip : ∀ (e : Sigma fun _ : Addr => List UInt16) (a : AddrPort),
      a ∈ (if e.2.length = 0 then [⟨e.1, 0⟩] else e.2.map fun p => ⟨e.1, p⟩) → a.ip = e.1 := by
    intro e a ha
    split at ha
    · simp at ha
      rw [ha]
    · obtain ⟨p, -, rfl⟩ := List.mem_map.mp ha
      rfl
  rw [allCandidateIPInfos, List.nodup_flatMap]
  constructor
  · intro e he
    split
    · exact List.nodup_singleton _
    · refine (hm e.1 e.2 (AList.mem_lookup_iff.mpr he)).map ?_
      intro p q hpq
      cases hpq
      rfl
  · refine (List.nodupKeys_iff_pairwise.mp m.nodupKeys).imp ?_
    intro e₁ e₂ hne a h₁ h₂
    exact hne ((hip e₁ a h₁).symm.trans (hip e₂ a h₂))

example : allCandidateIPInfos (candidatePorts (.ok [.v4 1]) [⟨.v4 1, 443⟩, ⟨.v4 1, 0⟩]) =
    [⟨.v4 1, 0⟩, ⟨.v4 1, 443⟩] := by decide

end Candidates

section Spec

/-- What `Run`'s pipeline guarantees for a candidate list: every run is finite;
a run that can go no further without a cancellation has returned; each
candidate is handed to `WarpPing` at most once; and a run without cancellation
that returns has enqueued exactly the `WarpPing` successes of the candidates
every enabled filter keeps. -/
structure RunSpec (o : Options α β) (candidates : List α) : Prop where
  bounded : ∀ acts s, run o candidates acts = some s → acts.length ≤ (start o candidates).measure
  progress : ∀ acts s, run o candidates acts = some s →
    s.returned = true ∨ ∃ a s', a ≠ .cancel ∧ step o s a = some s'
  warpCalls_nodup : ∀ acts s, run o candidates acts = some s → s.warpCalls.Nodup
  enqueued_perm : ∀ acts s, run o candidates acts = some s →
    Action.cancel ∉ acts → s.returned = true →
      s.enqueued.Perm ((candidates.filter (keepsAll o)).filterMap o.warpPing)

theorem pipeline_run_spec {β : Type} (o : Options Netip.AddrPort β) (hn : 0 < o.concurrency)
    (cidrIPs : Except String (List Netip.Addr)) (customEndpoints : List Netip.AddrPort)
    (candidates : List Netip.AddrPort)
    (horder : candidates.Perm (allCandidateIPInfos (candidatePorts cidrIPs customEndpoints))) :
    RunSpec o candidates where
  bounded _ _ h := run_length_le h
  progress _ _ h := (run_shape h).progress hn
  warpCalls_nodup _ _ h := by
    have hnd := allCandidateIPInfos_nodup (candidatePorts_nodup cidrIPs customEndpoints)
    exact run_warpCalls_nodup (horder.nodup_iff.mpr hnd) h
  enqueued_perm _ _ h hno hr := run_enqueued_perm hn h hno hr

theorem pipeline_run_spec_two_endpoints :
    0 < (⟨2, some fun _ => true, some fun a => a.port != 2408, fun a => some a.port⟩ :
        Options Netip.AddrPort UInt16).concurrency ∧
      [⟨.v4 1, 443⟩, ⟨.v4 2, 2408⟩].Perm
        (allCandidateIPInfos (candidatePorts (.error "") [⟨.v4 1, 443⟩, ⟨.v4 2, 2408⟩])) ∧
      RunSpec (⟨2, some fun _ => true, some fun a => a.port != 2408, fun a => some a.port⟩ :
          Options Netip.AddrPort UInt16)
        [⟨.v4 1, 443⟩, ⟨.v4 2, 2408⟩] :=
  ⟨by decide, by decide, pipeline_run_spec _ (by decide) (.error "") [⟨.v4 1, 443⟩, ⟨.v4 2, 2408⟩] _
    (by decide)⟩

end Spec

end Engine
