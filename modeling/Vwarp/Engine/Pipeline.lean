import Mathlib
import Vwarp.Lib.Transition
import Vwarp.Netip

/-!
# The streaming pipeline of the IP scanner

`Engine.Run` feeds the candidate endpoints through four stages joined by the
channels `ipStream`, `icmpStream` and `tcpStream`, each of capacity
`ConcurrentScanners`: a generator goroutine, an ICMP stage, a TCP stage and a
WARP stage. An enabled filter stage is `runFilterStage`: a pool of
`ConcurrentScanners` workers and a goroutine that closes the output channel
once they all returned. A disabled filter is one goroutine that passes items
on and closes its output when it returns; its deferred close is the same
closing step. The WARP stage is a pool of workers that hand each item to
`WarpPing` and enqueue its successes. `masterWg.Wait()` returns once the
generator, both stages' closers and every WARP worker have returned.

A state records each goroutine at the points where it blocks or branches,
what each channel holds and whether it is closed, whether the context is
cancelled, and the arguments of the `WarpPing` and `Enqueue` calls so far.
A step is one goroutine moving on, or the context being cancelled; a step
that is not enabled is `none`. The cancellation may come from the caller or
from a WARP worker once `StopOnFirstGoodIPs` results are queued: either way it
is the `cancel` action, which may come at any point.

An item is the candidate's `AddrPort`: the filters pass on the candidate's
own `AddrPort`, and the WARP stage reads nothing else. A ping is a function of
the candidate. Each candidate reaches each stage at most once, so any
sequence of outcomes is such a function. A ping on a cancelled context may
also fail whatever the function says.

The candidates are built first: `candidatePorts` maps each address to its
ports, with port 0 for an address from the CIDR ranges, and each (address,
port) pair becomes one candidate. Go iterates a map in no fixed order; the
theorems about the pipeline hold for every order of the candidates.
-/

namespace Engine

/-- A buffered channel: the queued items, and whether it was closed. -/
structure Chan (α : Type) where
  items : List α
  closed : Bool
  deriving DecidableEq, Repr

namespace Chan

variable {α : Type}

/-- `make(chan T, n)`; the capacity is a parameter of the sending steps. -/
def empty : Chan α := ⟨[], false⟩

def push (c : Chan α) (a : α) : Chan α := { c with items := c.items ++ [a] }

def close (c : Chan α) : Chan α := { c with closed := true }

@[simp] theorem empty_items : (empty : Chan α).items = [] := rfl
@[simp] theorem empty_closed : (empty : Chan α).closed = false := rfl
@[simp] theorem push_items (c : Chan α) (a : α) : (c.push a).items = c.items ++ [a] := rfl
@[simp] theorem push_closed (c : Chan α) (a : α) : (c.push a).closed = c.closed := rfl
@[simp] theorem close_items (c : Chan α) : c.close.items = c.items := rfl
@[simp] theorem close_closed (c : Chan α) : c.close.closed = true := rfl

end Chan

/-- A worker goroutine of a stage. -/
inductive Worker (α : Type) where
  /-- at `for item := range inChan` -/
  | ranging
  /-- holding an item, before the context check -/
  | received (a : α)
  /-- inside `filterFunc`, or inside `WarpPing` -/
  | calling (a : α)
  /-- in the `select` on `outChan <- result` and `ctx.Done()` -/
  | sending (a : α)
  | done
  deriving DecidableEq, Repr

def Worker.isDone {α : Type} : Worker α → Bool
  | .done => true
  | _ => false

/-- The scanner options the pipeline reads. A filter is `none` when its stage
is disabled (`IcmpPing`, `TcpPing`), and otherwise says whether `filterFunc`
keeps the item: the ping succeeded within `ICMPPingFilterRTT` or
`TCPPingFilterRTT`. `warpPing` is the result of `WarpPing`, `none` on error. -/
structure Options (α β : Type) where
  concurrency : Nat
  icmpFilter : Option (α → Bool)
  tcpFilter : Option (α → Bool)
  warpPing : α → Option β

structure Pipeline (α β : Type) where
  /-- the candidates the generator has still to send; `none` once it returned -/
  gen : Option (List α)
  ipStream : Chan α
  icmp : List (Worker α)
  icmpStream : Chan α
  tcp : List (Worker α)
  tcpStream : Chan α
  warp : List (Worker α)
  cancelled : Bool
  /-- the candidates handed to `WarpPing`, in call order -/
  warpCalls : List α
  /-- the arguments of `ipQueue.Enqueue`, in call order -/
  enqueued : List β

/-- The next step of one goroutine of a filter stage; `i` names the worker. -/
inductive StageAct where
  | recv (i : Nat)
  | exit (i : Nat)
  | checkCtx (i : Nat)
  | filterDone (i : Nat)
  | filterCancelled (i : Nat)
  | send (i : Nat)
  | sendCancelled (i : Nat)
  /-- `stageWg.Wait()` returns and the closer runs `close(outChan)` -/
  | closeOut
  deriving DecidableEq, Repr

inductive WarpAct where
  | recv (i : Nat)
  | exit (i : Nat)
  | checkCtx (i : Nat)
  | pingDone (i : Nat)
  | pingCancelled (i : Nat)
  deriving DecidableEq, Repr

inductive Action where
  | genSend
  | genReturn
  | icmp (a : StageAct)
  | tcp (a : StageAct)
  | warp (a : WarpAct)
  | cancel
  deriving DecidableEq, Repr

section Candidates

open Netip

/-- The `appendIfMissing` closure of `Run`. -/
def appendIfMissing (slice : List UInt16) (v : UInt16) : List UInt16 :=
  if slice.contains v then slice else slice ++ [v]

/-- `candidatePorts`, a Go map from address to ports: its keys are distinct. -/
abbrev PortMap := AList fun _ : Addr => List UInt16

/-- `candidatePorts[ip] = appendIfMissing(candidatePorts[ip], port)`; a missing key reads as nil. -/
def addPort (m : PortMap) (ip : Addr) (port : UInt16) : PortMap :=
  m.insert ip (appendIfMissing ((m.lookup ip).getD []) port)

/-- The map after the CIDR addresses (port 0) and the custom endpoints; a
generator error leaves the CIDR part out. -/
def candidatePorts (cidrIPs : Except String (List Addr)) (customEndpoints : List AddrPort) :
    PortMap :=
  let m : PortMap :=
    match cidrIPs with
    | .ok ips => ips.foldl (fun m ip => addPort m ip 0) ∅
    | .error _ => ∅
  customEndpoints.foldl (fun m ep => addPort m ep.ip ep.port) m

/-- `allCandidateIPInfos`, by their `AddrPort`, in the map's iteration order. -/
def allCandidateIPInfos (m : PortMap) : List AddrPort :=
  m.entries.flatMap fun e =>
    if e.2.length = 0 then [⟨e.1, 0⟩] else e.2.map fun p => ⟨e.1, p⟩

end Candidates

section Step

variable {α β : Type}

/-- Whether `filterFunc` keeps the item; a disabled filter keeps everything. -/
def keeps (filter : Option (α → Bool)) (a : α) : Bool :=
  match filter with
  | some f => f a
  | none => true

/-- Where a worker goes once `range` yields an item: a worker of
`runFilterStage` checks the context, the bypass goroutine goes straight to its
`select`. -/
def afterRecv (filter : Option (α → Bool)) (a : α) : Worker α :=
  match filter with
  | some _ => .received a
  | none => .sending a

/-- One step of a goroutine of a filter stage over its input and output channel:
the workers of `runFilterStage` and its closer, or the bypass goroutine. -/
def stageStep (n : Nat) (filter : Option (α → Bool)) (cancelled : Bool)
    (ws : List (Worker α)) (inc out : Chan α) :
    StageAct → Option (List (Worker α) × Chan α × Chan α)
  | .recv i =>
    match ws[i]?, inc.items with
    | some .ranging, a :: rest => some (ws.set i (afterRecv filter a), { inc with items := rest }, out)
    | _, _ => none
  | .exit i =>
    -- range ends on a closed, drained channel
    match ws[i]?, inc.items, inc.closed with
    | some .ranging, [], true => some (ws.set i .done, inc, out)
    | _, _, _ => none
  | .checkCtx i =>
    match ws[i]? with
    | some (.received a) => some (ws.set i (if cancelled then .done else .calling a), inc, out)
    | _ => none
  | .filterDone i =>
    match ws[i]? with
    | some (.calling a) =>
      some (ws.set i (if keeps filter a then .sending a else .ranging), inc, out)
    | _ => none
  | .filterCancelled i =>
    match ws[i]?, cancelled with
    | some (.calling _), true => some (ws.set i .ranging, inc, out)
    | _, _ => none
  | .send i =>
    match ws[i]? with
    | some (.sending a) =>
      if out.items.length < n then some (ws.set i .ranging, inc, out.push a) else none
    | _ => none
  | .sendCancelled i =>
    match ws[i]?, cancelled with
    | some (.sending _), true => some (ws.set i .done, inc, out)
    | _, _ => none
  | .closeOut =>
    if ws.all Worker.isDone && !out.closed then some (ws, inc, out.close) else none

/-- One step of a WARP worker: the workers, the input channel, and the
`WarpPing` and `Enqueue` calls the step makes. -/
def warpStep (warpPing : α → Option β) (cancelled : Bool) (ws : List (Worker α)) (inc : Chan α) :
    WarpAct → Option (List (Worker α) × Chan α × List α × List β)
  | .recv i =>
    match ws[i]?, inc.items with
    | some .ranging, a :: rest => some (ws.set i (.received a), { inc with items := rest }, [], [])
    | _, _ => none
  | .exit i =>
    match ws[i]?, inc.items, inc.closed with
    | some .ranging, [], true => some (ws.set i .done, inc, [], [])
    | _, _, _ => none
  | .checkCtx i =>
    -- the select with a default branch: return on a cancelled context, else call WarpPing
    match ws[i]? with
    | some (.received a) =>
      if cancelled then some (ws.set i .done, inc, [], []) else some (ws.set i (.calling a), inc, [a], [])
    | _ => none
  | .pingDone i =>
    match ws[i]? with
    | some (.calling a) => some (ws.set i .ranging, inc, [], (warpPing a).toList)
    | _ => none
  | .pingCancelled i =>
    match ws[i]?, cancelled with
    | some (.calling _), true => some (ws.set i .ranging, inc, [], [])
    | _, _ => none

/-- One step of the pipeline. Cancelling a cancelled context changes nothing,
so it is not a step. -/
def step (o : Options α β) (s : Pipeline α β) : Action → Option (Pipeline α β)
  | .genSend =>
    match s.gen with
    | some (a :: rest) =>
      if s.ipStream.items.length < o.concurrency then
        some { s with gen := some rest, ipStream := s.ipStream.push a }
      else none
    | _ => none
  | .genReturn =>
    -- the loop ends, or the select takes ctx.Done(); the deferred close follows
    match s.gen with
    | some [] => some { s with gen := none, ipStream := s.ipStream.close }
    | some (_ :: _) =>
      if s.cancelled then some { s with gen := none, ipStream := s.ipStream.close } else none
    | none => none
  | .icmp a =>
    (stageStep o.concurrency o.icmpFilter s.cancelled s.icmp s.ipStream s.icmpStream a).map
      fun r => { s with icmp := r.1, ipStream := r.2.1, icmpStream := r.2.2 }
  | .tcp a =>
    (stageStep o.concurrency o.tcpFilter s.cancelled s.tcp s.icmpStream s.tcpStream a).map
      fun r => { s with tcp := r.1, icmpStream := r.2.1, tcpStream := r.2.2 }
  | .warp a =>
    (warpStep o.warpPing s.cancelled s.warp s.tcpStream a).map
      fun r => { s with warp := r.1, tcpStream := r.2.1, warpCalls := s.warpCalls ++ r.2.2.1,
                        enqueued := s.enqueued ++ r.2.2.2 }
  | .cancel => if s.cancelled then none else some { s with cancelled := true }

/-- The goroutines of a filter stage: `ConcurrentScanners` workers, or the one
bypass goroutine. -/
def stageWorkers (n : Nat) (filter : Option (α → Bool)) : List (Worker α) :=
  match filter with
  | some _ => List.replicate n .ranging
  | none => [.ranging]

/-- The pipeline as `Run` starts it on the candidate list. -/
def start (o : Options α β) (candidates : List α) : Pipeline α β where
  gen := some candidates
  ipStream := .empty
  icmp := stageWorkers o.concurrency o.icmpFilter
  icmpStream := .empty
  tcp := stageWorkers o.concurrency o.tcpFilter
  tcpStream := .empty
  warp := List.replicate o.concurrency .ranging
  cancelled := false
  warpCalls := []
  enqueued := []

/-- `masterWg.Wait()` returns: the generator and every WARP worker have
returned and both stages have closed their output. -/
def Pipeline.returned (s : Pipeline α β) : Bool :=
  s.gen.isNone && s.icmp.all Worker.isDone && s.icmpStream.closed &&
    s.tcp.all Worker.isDone && s.tcpStream.closed && s.warp.all Worker.isDone

/-- A run of the pipeline from the start, one action after another. -/
def run (o : Options α β) (candidates : List α) (acts : List Action) : Option (Pipeline α β) :=
  Transition.exec (step o) (start o candidates) acts

end Step

end Engine
