import Vwarp.Lib.Projection
import Vwarp.Lib.TokenBucket
import Vwarp.Netip

/-!
# The handshake rate limiter

`ratelimiter.Ratelimiter`, which the handshake workers ask, under load, whether to take
a handshake message from a source address. It keeps a Go map from addresses to
pointers to entries; an entry holds the clock reading of the address's last packet and
its tokens, in nanoseconds of credit. `Allow` adds the time since the last packet to
the tokens, up to `maxTokens` (five packets' worth), and lets the packet through,
paying `packetCost` (a twentieth of a second), when there are more tokens than that;
an address without an entry gets one with the packet already paid. `cleanup`, which a
goroutine runs every second while the table is not empty, deletes the entries idle for
more than `garbageCollectTime`.

The handshake workers, one per CPU, call `Allow` at the same time, and `Allow` is not
one critical section but two. It looks the address up under `rate.mu.RLock`. With an
entry found, it updates the entry under the entry's own lock `entry.mu`; with none, it
makes a new entry, reading the clock, and inserts it under `rate.mu.Lock` without
looking again. `cleanup` holds `rate.mu.Lock` through its whole loop over the table,
and takes each entry's lock in turn, reading the clock for each. The model is an
interleaving semantics of these critical sections: a `Ratelimiter` holds the table, the
entries it points to, where each busy worker is in its call (`Phase`), the keys
`cleanup` has still to visit, and the monotonic clock, which only `tick` moves on. A
step that would wait for a lock, or that does not fit where its worker is, leaves the
state as it is. The goroutine's ticker and channel, `Init` and `Close` are not
modelled: `cleanup` may start at any time.

Clock readings are nanoseconds: `sub` is `Time.Sub`, saturated at the bounds of a
`time.Duration`, and `addInt64` is the wrapping `+` of `int64`.

What the limiter is for: each address gets the answers of a token bucket of its own
(`TokenBucket.take`), fed with its own packets only. Whatever the interleaving, each
entry is such a bucket (`entry_answers_eq_take`). An address whose calls do not overlap
one another, nor a visit of `cleanup` to its key (`Serial`), gets its own bucket's
answers, which the other addresses and the cleanups do not change; so in any window of
time it gets at most `packetsBurstable` packets through and one more per `packetCost`
of the window (`allow_window_le`). Calls that overlap lose this: workers that all look
up a new address before any of them has inserted its entry all make one, and all let
their packets through (`racing_first_calls_allowed`).
-/

namespace Ratelimiter

open Simulation TokenBucket Netip

def packetsPerSecond : Int := 20
def packetsBurstable : Int := 5
/-- `time.Second`, in nanoseconds. -/
def garbageCollectTime : Int := 1000000000
def packetCost : Int := 1000000000 / packetsPerSecond
def maxTokens : Int := packetCost * packetsBurstable

theorem packetCost_eq : packetCost = 50000000 := by decide

theorem maxTokens_eq : maxTokens = 250000000 := by decide

/-- `time.Time.Sub` on two monotonic readings: their difference, saturated at the
bounds of a `time.Duration`. -/
def sub (t u : Int) : Int := max (-2 ^ 63) (min (2 ^ 63 - 1) (t - u))

/-- `+` on `int64`: the sum wraps around. -/
def addInt64 (x y : Int) : Int := (x + y).bmod (2 ^ 64)

/-- `RatelimiterEntry`, without its lock. -/
structure Entry where
  lastTime : Int
  tokens : Int
  deriving DecidableEq, Repr

/-- Where a busy handshake worker is in `Allow`: past the lookup, with a pointer to the
entry it found, or with none found; or with a new entry made and not yet inserted. -/
inductive Phase where
  | found (ip : Addr) (entry : Nat)
  | missing (ip : Addr)
  | made (ip : Addr) (entry : Entry)
  deriving DecidableEq, Repr

/-- The address of a worker's call. -/
def Phase.ip : Phase → Addr
  | .found ip _ => ip
  | .missing ip => ip
  | .made ip _ => ip

end Ratelimiter

/-- `Ratelimiter`, with the memory its table points into, the calls of the handshake
workers in progress and the monotonic clock. `table` maps each address to a pointer
into `heap`; while `cleanup` holds `rate.mu`, `cleaning` holds the keys its loop has
still to visit. -/
structure Ratelimiter where
  table : AList (fun _ : Netip.Addr => Nat)
  heap : List Ratelimiter.Entry
  cleaning : Option (List Netip.Addr)
  workers : AList (fun _ : Nat => Ratelimiter.Phase)
  clock : Int

namespace Ratelimiter

open Simulation TokenBucket Netip

/-- An answer of `Allow`: its address, the entry that answered it, the clock reading
it was computed at, and whether the packet is let through. -/
structure Served where
  ip : Addr
  entry : Nat
  now : Int
  allowed : Bool
  deriving DecidableEq, Repr

/-- The steps of the handshake workers, of the cleanup goroutine and of the clock. -/
inductive Action where
  | lookup (worker : Nat) (ip : Addr)
  | make (worker : Nat)
  | insert (worker : Nat)
  | update (worker : Nat)
  | cleanupStart
  | visit (key : Addr)
  | cleanupEnd
  | tick (d : Nat)
  deriving DecidableEq, Repr

/-- `Init`: an empty table, at clock reading `0`. -/
def init : Ratelimiter := ⟨∅, [], none, ∅, 0⟩

/-- The end of `Allow`, on the entry found for the address: add the time since its last
packet to its tokens, up to `maxTokens`, and take the packet's cost from them if there
are more. -/
def Entry.allow (entry : Entry) (now : Int) : Bool × Entry :=
  let tokens := addInt64 entry.tokens (sub now entry.lastTime)
  let tokens := if tokens > maxTokens then maxTokens else tokens
  if tokens > packetCost then (true, ⟨now, tokens - packetCost⟩) else (false, ⟨now, tokens⟩)

/-- Where the lookup leaves a worker. -/
def lookupPhase (rate : Ratelimiter) (ip : Addr) : Phase :=
  match rate.table.lookup ip with
  | some p => .found ip p
  | none => .missing ip

/-- `Allow`'s lookup, by an idle worker, under `rate.mu.RLock`: it waits while `cleanup`
holds `rate.mu`. -/
def lookup (rate : Ratelimiter) (w : Nat) (ip : Addr) : Ratelimiter :=
  if rate.workers.lookup w = none ∧ rate.cleaning = none then
    { rate with workers := rate.workers.insert w (lookupPhase rate ip) }
  else rate

/-- make new entry if not found, with no lock held: its tokens already pay for the
packet, and its last time is a reading of the clock. -/
def make (rate : Ratelimiter) (w : Nat) : Ratelimiter :=
  match rate.workers.lookup w with
  | some (.missing ip) =>
    { rate with workers := rate.workers.insert w (.made ip ⟨rate.clock, maxTokens - packetCost⟩) }
  | _ => rate

/-- The insertion under `rate.mu.Lock`, which waits while `cleanup` holds it. The table
is not looked at again, so an entry another worker inserted meanwhile is overwritten.
`Allow` returns true. -/
def insert (rate : Ratelimiter) (w : Nat) : Option Served × Ratelimiter :=
  match rate.workers.lookup w, rate.cleaning with
  | some (.made ip entry), none =>
    (some ⟨ip, rate.heap.length, entry.lastTime, true⟩,
      { rate with table := rate.table.insert ip rate.heap.length, heap := rate.heap ++ [entry],
                  workers := rate.workers.erase w })
  | _, _ => (none, rate)

/-- add tokens to entry, and subtract cost of packet, under `entry.mu` only: `cleanup`
may have deleted the entry from the table since the lookup. -/
def update (rate : Ratelimiter) (w : Nat) : Option Served × Ratelimiter :=
  match rate.workers.lookup w with
  | some (.found ip p) =>
    match rate.heap[p]? with
    | some entry =>
      (some ⟨ip, p, rate.clock, (entry.allow rate.clock).1⟩,
        { rate with heap := rate.heap.set p (entry.allow rate.clock).2,
                    workers := rate.workers.erase w })
    | none => (none, rate)
  | _ => (none, rate)

/-- `cleanup` takes `rate.mu.Lock`; its loop will visit each key of the table once. -/
def cleanupStart (rate : Ratelimiter) : Ratelimiter :=
  match rate.cleaning with
  | none => { rate with cleaning := some rate.table.keys }
  | some _ => rate

/-- The entry the table points to for an address. -/
def view (rate : Ratelimiter) (ip : Addr) : Option Entry :=
  (rate.table.lookup ip).bind (rate.heap[·]?)

/-- One turn of `cleanup`'s loop, on a key it has still to visit, in the order the
scheduler picks, under the entry's lock: the entry is deleted if it has been idle for
more than `garbageCollectTime`. -/
def visit (rate : Ratelimiter) (key : Addr) : Ratelimiter :=
  match rate.cleaning with
  | some keys =>
    if key ∈ keys then
      { rate with
        table :=
          match rate.view key with
          | some entry =>
            if sub rate.clock entry.lastTime > garbageCollectTime then rate.table.erase key
            else rate.table
          | none => rate.table
        cleaning := some (keys.erase key) }
    else rate
  | none => rate

/-- `cleanup` ends its loop and releases `rate.mu`. -/
def cleanupEnd (rate : Ratelimiter) : Ratelimiter :=
  match rate.cleaning with
  | some [] => { rate with cleaning := none }
  | _ => rate

/-- `d` nanoseconds pass. -/
def tick (rate : Ratelimiter) (d : Nat) : Ratelimiter := { rate with clock := rate.clock + d }

/-- One step; the answers of `Allow` label the steps that return them. -/
def step (rate : Ratelimiter) : Action → Option Served × Ratelimiter
  | .lookup w ip => (none, rate.lookup w ip)
  | .make w => (none, rate.make w)
  | .insert w => rate.insert w
  | .update w => rate.update w
  | .cleanupStart => (none, rate.cleanupStart)
  | .visit key => (none, rate.visit key)
  | .cleanupEnd => (none, rate.cleanupEnd)
  | .tick d => (none, rate.tick d)

/-- The clock reading and the answer of a label that `pick` keeps. -/
def Served.keep (pick : Served → Bool) : Option Served → Option (Int × Bool)
  | some x => if pick x then some (x.now, x.allowed) else none
  | none => none

/-- The clock readings and the answers of the labels that `pick` keeps. -/
def servedBy (pick : Served → Bool) (labels : List (Option Served)) : List (Int × Bool) :=
  labels.filterMap (Served.keep pick)

/-! ## Clock and `int64` arithmetic in range -/

theorem sub_eq {t u : Int} (h0 : 0 ≤ t - u) (h1 : t - u < 2 ^ 63) : sub t u = t - u := by
  unfold sub
  omega

theorem addInt64_eq {x y : Int} (h0 : -2 ^ 63 ≤ x + y) (h1 : x + y < 2 ^ 63) :
    addInt64 x y = x + y :=
  Int.bmod_eq_of_le (by norm_num; omega) (by norm_num; omega)

/-! ## An entry is a token bucket -/

/-- The bucket an entry keeps. -/
def Entry.toBucket (e : Entry) : Bucket := ⟨e.lastTime, e.tokens⟩

/-- At clock `c` the entry's tokens are between none and `maxTokens` and its last
packet came at a reading between `0` and `c`. -/
def Entry.Sound (c : Int) (e : Entry) : Prop :=
  0 ≤ e.lastTime ∧ Fits maxTokens c (some e.toBucket)

theorem Entry.Sound.mono {c t : Int} {e : Entry} (he : e.Sound c) (h : c ≤ t) : e.Sound t :=
  ⟨he.1, Fits.mono he.2 h⟩

theorem Entry.Sound.clock_nonneg {c : Int} {e : Entry} (he : e.Sound c) : 0 ≤ c :=
  he.1.trans he.2.2.2

theorem Entry.allow_lastTime (e : Entry) (now : Int) : (e.allow now).2.lastTime = now := by
  simp only [Entry.allow]
  split_ifs <;> rfl

/-- On a sound entry and a clock reading below `2 ^ 62`, the end of `Allow` is a token
bucket's `take`: the time since the last packet neither saturates nor wraps. -/
theorem Entry.allow_eq_take {e : Entry} {now : Int} (he : e.Sound now) (hnow : now < 2 ^ 62) :
    ((e.allow now).1, some (e.allow now).2.toBucket) =
      take maxTokens packetCost (some e.toBucket) now := by
  simp only [Entry.Sound, Fits, toBucket] at he
  obtain ⟨hlast, htokens, hmax, hle⟩ := he
  have hmaxTokens := maxTokens_eq
  have hsub : sub now e.lastTime = now - e.lastTime := sub_eq (by omega) (by omega)
  have hadd : addInt64 e.tokens (now - e.lastTime) = e.tokens + (now - e.lastTime) :=
    addInt64_eq (by omega) (by omega)
  have hclamp : (if e.tokens + (now - e.lastTime) > maxTokens then maxTokens
      else e.tokens + (now - e.lastTime)) = min (e.tokens + (now - e.lastTime)) maxTokens := by
    split <;> omega
  simp only [Entry.allow, hsub, hadd, hclamp, take, level, toBucket, gt_iff_lt]
  by_cases h : packetCost < min (e.tokens + (now - e.lastTime)) maxTokens <;> simp [h]

theorem Entry.sound_allow {e : Entry} {now : Int} (he : e.Sound now) (hnow : now < 2 ^ 62) :
    (e.allow now).2.Sound now := by
  have hfits : Fits maxTokens now (take maxTokens packetCost (some e.toBucket) now).2 :=
    fits_take (by rw [maxTokens_eq]; decide) (by rw [packetCost_eq]; decide) he.2 le_rfl
  rw [← Entry.allow_eq_take he hnow] at hfits
  exact ⟨by rw [Entry.allow_lastTime]; exact he.clock_nonneg, hfits⟩

/-- A new entry, its packet paid. -/
theorem Entry.sound_new {now : Int} (h : 0 ≤ now) :
    (⟨now, maxTokens - packetCost⟩ : Entry).Sound now := by
  have hmax := maxTokens_eq
  have hcost := packetCost_eq
  exact ⟨h, by simp only [toBucket]; omega, by simp only [toBucket]; omega, le_rfl⟩

/-- A new entry is an unused bucket's first `take`. -/
theorem take_none_eq_new (now : Int) :
    take maxTokens packetCost none now =
      (true, some (⟨now, maxTokens - packetCost⟩ : Entry).toBucket) :=
  take_none (by rw [maxTokens_eq, packetCost_eq]; decide) now

/-! ## What each step does -/

section Steps

variable (rate : Ratelimiter) (w : Nat)

theorem lookup_cases (ip : Addr) :
    rate.lookup w ip = rate ∨
      rate.workers.lookup w = none ∧ rate.cleaning = none ∧
        rate.lookup w ip = { rate with workers := rate.workers.insert w (lookupPhase rate ip) } := by
  unfold lookup
  split
  · next h => exact .inr ⟨h.1, h.2, rfl⟩
  · exact .inl rfl

theorem make_cases :
    rate.make w = rate ∨
      ∃ ip, rate.workers.lookup w = some (.missing ip) ∧
        rate.make w =
          { rate with workers := rate.workers.insert w (.made ip ⟨rate.clock, maxTokens - packetCost⟩) } := by
  unfold make
  split
  · next ip h => exact .inr ⟨ip, h, rfl⟩
  · exact .inl rfl

theorem insert_cases :
    rate.insert w = (none, rate) ∨
      ∃ ip e, rate.workers.lookup w = some (.made ip e) ∧ rate.cleaning = none ∧
        rate.insert w = (some ⟨ip, rate.heap.length, e.lastTime, true⟩,
          { rate with table := rate.table.insert ip rate.heap.length, heap := rate.heap ++ [e],
                      workers := rate.workers.erase w }) := by
  unfold insert
  split
  · next ip e hw hc => exact .inr ⟨ip, e, hw, hc, rfl⟩
  · exact .inl rfl

theorem update_cases :
    rate.update w = (none, rate) ∨
      ∃ ip p e, rate.workers.lookup w = some (.found ip p) ∧ rate.heap[p]? = some e ∧
        rate.update w = (some ⟨ip, p, rate.clock, (e.allow rate.clock).1⟩,
          { rate with heap := rate.heap.set p (e.allow rate.clock).2,
                      workers := rate.workers.erase w }) := by
  unfold update
  split
  · next ip p hw =>
    split
    · next e he => exact .inr ⟨ip, p, e, hw, he, rfl⟩
    · exact .inl rfl
  · exact .inl rfl

theorem cleanupStart_eq : ∃ c, rate.cleanupStart = { rate with cleaning := c } := by
  unfold cleanupStart
  split
  · exact ⟨_, rfl⟩
  · exact ⟨rate.cleaning, rfl⟩

theorem cleanupEnd_eq : ∃ c, rate.cleanupEnd = { rate with cleaning := c } := by
  unfold cleanupEnd
  split
  · exact ⟨_, rfl⟩
  · exact ⟨rate.cleaning, rfl⟩

/-- A visit deletes the key's entry, when that entry is idle, or leaves the table as
it is. -/
theorem visit_cases (key : Addr) :
    (∃ c, rate.visit key = { rate with cleaning := c }) ∨
      ∃ c e, rate.view key = some e ∧ garbageCollectTime < sub rate.clock e.lastTime ∧
        rate.visit key = { rate with table := rate.table.erase key, cleaning := c } := by
  unfold visit
  split
  · split
    · split
      · next e he =>
        split
        · next hidle => exact .inr ⟨_, e, he, hidle, rfl⟩
        · exact .inl ⟨_, rfl⟩
      · exact .inl ⟨_, rfl⟩
    · exact .inl ⟨rate.cleaning, rfl⟩
  · exact .inl ⟨rate.cleaning, rfl⟩

/-- Only the insertion and the update of an entry change the heap, and only they
answer. -/
theorem step_passive_or (a : Action) :
    (∀ rate : Ratelimiter, (rate.step a).2.heap = rate.heap ∧ (rate.step a).1 = none) ∨
      (∃ w, a = .insert w) ∨ ∃ w, a = .update w := by
  cases a with
  | lookup w ip =>
    refine .inl fun rate => ?_
    rcases lookup_cases rate w ip with h | ⟨-, -, h⟩ <;> simp [step, h]
  | make w =>
    refine .inl fun rate => ?_
    rcases make_cases rate w with h | ⟨ip, -, h⟩ <;> simp [step, h]
  | insert w => exact .inr (.inl ⟨w, rfl⟩)
  | update w => exact .inr (.inr ⟨w, rfl⟩)
  | cleanupStart =>
    refine .inl fun rate => ?_
    obtain ⟨c, h⟩ := cleanupStart_eq rate
    simp [step, h]
  | visit key =>
    refine .inl fun rate => ?_
    rcases visit_cases rate key with ⟨c, h⟩ | ⟨c, e, -, -, h⟩ <;> simp [step, h]
  | cleanupEnd =>
    refine .inl fun rate => ?_
    obtain ⟨c, h⟩ := cleanupEnd_eq rate
    simp [step, h]
  | tick d => exact .inl fun rate => by simp [step, tick]

end Steps

/-! ## What every interleaving keeps -/

/-- What a busy worker's phase holds: a pointer it found is into the heap, and is the
table's pointer for its address or in the table no more; an entry it made is a new one,
sound at the clock. -/
def PhaseOk (rate : Ratelimiter) : Phase → Prop
  | .found ip p =>
    p < rate.heap.length ∧ (rate.table.lookup ip = some p ∨ ∀ ip', rate.table.lookup ip' ≠ some p)
  | .missing _ => True
  | .made _ e => e.Sound rate.clock ∧ e.tokens = maxTokens - packetCost

/-- What holds of the limiter whatever the interleaving, while the clock stays below
`2 ^ 62`: the table's pointers are into the heap and no two keys share one, and every
entry and every busy worker's phase is sound at the clock. -/
structure Inv (rate : Ratelimiter) : Prop where
  clock_nonneg : 0 ≤ rate.clock
  table_lt : ∀ ip p, rate.table.lookup ip = some p → p < rate.heap.length
  table_inj : ∀ ip ip' p, rate.table.lookup ip = some p → rate.table.lookup ip' = some p → ip = ip'
  heap_sound : ∀ e ∈ rate.heap, e.Sound rate.clock
  workers_ok : ∀ w ph, rate.workers.lookup w = some ph → PhaseOk rate ph

theorem inv_init : Inv init :=
  ⟨le_rfl, fun _ _ h => by simp [init] at h, fun _ _ _ h => by simp [init] at h,
    fun _ h => by simp [init] at h, fun _ _ h => by simp [init] at h⟩

/-- What an erased association list still maps was mapped before, at another key. -/
theorem lookup_of_lookup_erase {α : Type*} {β : α → Type*} [DecidableEq α] {s : AList β} {a a' : α}
    {b : β a'} (h : (s.erase a).lookup a' = some b) : a' ≠ a ∧ s.lookup a' = some b := by
  by_cases ha : a' = a
  · subst ha
    rw [AList.lookup_erase] at h
    cases h
  · rw [AList.lookup_erase_ne ha] at h
    exact ⟨ha, h⟩

section Inv

variable {rate : Ratelimiter} (hi : Inv rate)
include hi

theorem Inv.sound_of_getElem? {p : Nat} {e : Entry} (he : rate.heap[p]? = some e) :
    e.Sound rate.clock :=
  hi.heap_sound e (List.mem_of_getElem? he)

theorem Inv.with_cleaning (c : Option (List Addr)) : Inv { rate with cleaning := c } :=
  ⟨hi.clock_nonneg, hi.table_lt, hi.table_inj, hi.heap_sound, hi.workers_ok⟩

theorem Inv.setWorker (w : Nat) {ph : Phase} (hph : PhaseOk rate ph) :
    Inv { rate with workers := rate.workers.insert w ph } := by
  refine ⟨hi.clock_nonneg, hi.table_lt, hi.table_inj, hi.heap_sound, fun w' ph' hw' => ?_⟩
  by_cases hw : w' = w
  · subst hw
    rw [AList.lookup_insert, Option.some.injEq] at hw'
    exact hw' ▸ hph
  · rw [AList.lookup_insert_ne hw] at hw'
    exact hi.workers_ok w' ph' hw'

theorem Inv.tick (d : Nat) : Inv (rate.tick d) := by
  have hd : rate.clock ≤ rate.clock + d := by omega
  refine ⟨by have := hi.clock_nonneg; simp only [Ratelimiter.tick]; omega, hi.table_lt, hi.table_inj,
    fun e he => (hi.heap_sound e he).mono hd, fun w ph hw => ?_⟩
  have hok := hi.workers_ok w ph hw
  cases ph with
  | found ip p => exact hok
  | missing ip => trivial
  | made ip e => exact ⟨hok.1.mono hd, hok.2⟩

/-- An insertion replaces the table's pointer for its address, so that a worker that
found the old one holds an entry no key points to. -/
theorem Inv.insert {w : Nat} {ip : Addr} {e : Entry} (hw : rate.workers.lookup w = some (.made ip e)) :
    Inv { rate with table := rate.table.insert ip rate.heap.length, heap := rate.heap ++ [e],
                    workers := rate.workers.erase w } := by
  have hnew : PhaseOk rate (.made ip e) := hi.workers_ok w _ hw
  have hlt : ∀ ip' p, (rate.table.insert ip rate.heap.length).lookup ip' = some p →
      p = rate.heap.length ∧ ip' = ip ∨ p < rate.heap.length ∧ ip' ≠ ip ∧ rate.table.lookup ip' = some p := by
    intro ip' p h
    by_cases hip : ip' = ip
    · subst hip
      rw [AList.lookup_insert, Option.some.injEq] at h
      exact .inl ⟨h.symm, rfl⟩
    · rw [AList.lookup_insert_ne hip] at h
      exact .inr ⟨hi.table_lt ip' p h, hip, h⟩
  refine ⟨hi.clock_nonneg, fun ip' p h => ?_, fun ip₁ ip₂ p h₁ h₂ => ?_, fun x hx => ?_,
    fun w' ph hw' => ?_⟩
  · rcases hlt ip' p h with ⟨rfl, -⟩ | ⟨hp, -⟩
    · simp
    · simp only [List.length_append, List.length_singleton]
      omega
  · rcases hlt ip₁ p h₁ with ⟨hp₁, hip₁⟩ | ⟨hp₁, hne₁, h₁⟩ <;>
      rcases hlt ip₂ p h₂ with ⟨hp₂, hip₂⟩ | ⟨hp₂, hne₂, h₂⟩
    · exact hip₁.trans hip₂.symm
    · omega
    · omega
    · exact hi.table_inj ip₁ ip₂ p h₁ h₂
  · rcases List.mem_append.mp hx with hx | hx
    · exact hi.heap_sound x hx
    · rw [List.mem_singleton.mp hx]
      exact hnew.1
  · have hok := hi.workers_ok w' ph (lookup_of_lookup_erase hw').2
    cases ph with
    | found ip' p =>
      obtain ⟨hp, howned⟩ := hok
      refine ⟨by simp; omega, ?_⟩
      by_cases hip : ip' = ip
      · subst hip
        refine .inr fun ip'' h => ?_
        rcases hlt ip'' p h with ⟨rfl, -⟩ | ⟨-, hne, h⟩
        · omega
        · rcases howned with howned | howned
          · exact hne (hi.table_inj ip'' ip' p h howned)
          · exact howned ip'' h
      · rcases howned with howned | howned
        · exact .inl (by rw [AList.lookup_insert_ne hip]; exact howned)
        · refine .inr fun ip'' h => ?_
          rcases hlt ip'' p h with ⟨rfl, -⟩ | ⟨-, -, h⟩
          · omega
          · exact howned ip'' h
    | missing ip' => trivial
    | made ip' e' => exact hok

theorem Inv.update (hclock : rate.clock < 2 ^ 62) {w p : Nat} {e : Entry}
    (he : rate.heap[p]? = some e) :
    Inv { rate with heap := rate.heap.set p (e.allow rate.clock).2, workers := rate.workers.erase w } := by
  refine ⟨hi.clock_nonneg, fun ip' p' h => by simpa using hi.table_lt ip' p' h, hi.table_inj,
    fun x hx => ?_, fun w' ph hw' => ?_⟩
  · rcases List.mem_or_eq_of_mem_set hx with hx | rfl
    · exact hi.heap_sound x hx
    · exact Entry.sound_allow (hi.sound_of_getElem? he) hclock
  · have hok := hi.workers_ok w' ph (lookup_of_lookup_erase hw').2
    cases ph with
    | found ip' p' => exact ⟨by simpa using hok.1, hok.2⟩
    | missing ip' => trivial
    | made ip' e' => exact hok

/-- A visit that deletes a key leaves a worker that found its entry with one no key
points to. -/
theorem Inv.erase (key : Addr) (c : Option (List Addr)) :
    Inv { rate with table := rate.table.erase key, cleaning := c } := by
  have hsub : ∀ ip p, (rate.table.erase key).lookup ip = some p → rate.table.lookup ip = some p :=
    fun _ _ h => (lookup_of_lookup_erase h).2
  refine ⟨hi.clock_nonneg, fun ip p h => hi.table_lt ip p (hsub ip p h),
    fun ip ip' p h h' => hi.table_inj ip ip' p (hsub ip p h) (hsub ip' p h'), hi.heap_sound,
    fun w ph hw => ?_⟩
  have hok := hi.workers_ok w ph hw
  cases ph with
  | found ip p =>
    refine ⟨hok.1, ?_⟩
    by_cases hk : ip = key
    · subst hk
      refine .inr fun ip' h => ?_
      rcases hok.2 with howned | howned
      · have hip' := hi.table_inj ip' ip p (hsub ip' p h) howned
        subst hip'
        rw [AList.lookup_erase] at h
        cases h
      · exact howned ip' (hsub ip' p h)
    · rcases hok.2 with howned | howned
      · exact .inl (by rw [AList.lookup_erase_ne hk]; exact howned)
      · exact .inr fun ip' h => howned ip' (hsub ip' p h)
  | missing ip => trivial
  | made ip e => exact hok

/-- Every step keeps `Inv` while the clock is below `2 ^ 62`. -/
theorem inv_step (hclock : rate.clock < 2 ^ 62) (a : Action) : Inv (rate.step a).2 := by
  cases a with
  | lookup w ip =>
    rcases lookup_cases rate w ip with h | ⟨-, -, h⟩
    · simpa [step, h] using hi
    · simp only [step, h]
      refine hi.setWorker w ?_
      unfold lookupPhase
      split
      · next p hp => exact ⟨hi.table_lt ip p hp, .inl hp⟩
      · trivial
  | make w =>
    rcases make_cases rate w with h | ⟨ip, -, h⟩
    · simpa [step, h] using hi
    · simp only [step, h]
      exact hi.setWorker w ⟨Entry.sound_new hi.clock_nonneg, rfl⟩
  | insert w =>
    rcases insert_cases rate w with h | ⟨ip, e, hw, -, h⟩
    · simpa [step, h] using hi
    · simp only [step, h]
      exact hi.insert hw
  | update w =>
    rcases update_cases rate w with h | ⟨ip, p, e, -, he, h⟩
    · simpa [step, h] using hi
    · simp only [step, h]
      exact hi.update hclock he
  | cleanupStart =>
    obtain ⟨c, h⟩ := cleanupStart_eq rate
    simp only [step, h]
    exact hi.with_cleaning c
  | visit key =>
    rcases visit_cases rate key with ⟨c, h⟩ | ⟨c, e, -, -, h⟩
    · simp only [step, h]
      exact hi.with_cleaning c
    · simp only [step, h]
      exact hi.erase key c
  | cleanupEnd =>
    obtain ⟨c, h⟩ := cleanupEnd_eq rate
    simp only [step, h]
    exact hi.with_cleaning c
  | tick d => exact hi.tick d

end Inv

theorem clock_le_step (rate : Ratelimiter) (a : Action) : rate.clock ≤ (rate.step a).2.clock := by
  cases a with
  | lookup w ip => rcases lookup_cases rate w ip with h | ⟨-, -, h⟩ <;> simp [step, h]
  | make w => rcases make_cases rate w with h | ⟨ip, -, h⟩ <;> simp [step, h]
  | insert w => rcases insert_cases rate w with h | ⟨ip, e, -, -, h⟩ <;> simp [step, h]
  | update w => rcases update_cases rate w with h | ⟨ip, p, e, -, -, h⟩ <;> simp [step, h]
  | cleanupStart => obtain ⟨c, h⟩ := cleanupStart_eq rate; simp [step, h]
  | visit key => rcases visit_cases rate key with ⟨c, h⟩ | ⟨c, e, -, -, h⟩ <;> simp [step, h]
  | cleanupEnd => obtain ⟨c, h⟩ := cleanupEnd_eq rate; simp [step, h]
  | tick d => simp [step, tick]

/-- A run that ends with the clock below `2 ^ 62` had it below `2 ^ 62` at every step. -/
theorem guarded_clock {acts : List Action} (h : (run step init acts).2.clock < 2 ^ 62) :
    Guarded (fun rate _ => rate.clock < 2 ^ 62) step init acts :=
  guarded_of_monotone Ratelimiter.clock clock_le_step init acts h

/-! ## Each entry is a token bucket -/

/-- Entry `p`, once inserted, is the bucket `b`; before, `b` is an unused bucket. -/
def EntryIs (p : Nat) (rate : Ratelimiter) (b : Option Bucket) : Prop :=
  Inv rate ∧ b = (rate.heap[p]?).map Entry.toBucket

theorem getElem?_append_singleton_of_ne {α : Type*} {l : List α} {x : α} {p : Nat}
    (h : p ≠ l.length) : (l ++ [x])[p]? = l[p]? := by
  rcases Nat.lt_or_gt_of_ne h with hp | hp
  · exact List.getElem?_append_left hp
  · rw [List.getElem?_eq_none (by simp; omega), List.getElem?_eq_none (by omega)]

/-- A new entry is the bucket its first `take` leaves. -/
theorem PhaseOk.toBucket_made {rate : Ratelimiter} {ip : Addr} {e : Entry}
    (h : PhaseOk rate (.made ip e)) :
    (⟨e.lastTime, maxTokens - packetCost⟩ : Entry).toBucket = e.toBucket := by
  rw [Entry.toBucket, Entry.toBucket, h.2]

/-- Whatever the interleaving, each entry answers as a token bucket. -/
theorem entry_projection (p : Nat) :
    IsLabelProjection (fun rate _ => rate.clock < 2 ^ 62) (Served.keep (·.entry == p)) step
      (take maxTokens packetCost) (EntryIs p) := by
  rintro rate b a hclock ⟨hi, hb⟩
  rcases step_passive_or a with hpass | ⟨w, rfl⟩ | ⟨w, rfl⟩
  · obtain ⟨hheap, hlabel⟩ := hpass rate
    refine step_dropped (by rw [hlabel]; rfl) ⟨inv_step hi hclock a, ?_⟩
    rw [hheap]
    exact hb
  · rcases insert_cases rate w with h | ⟨ip, e, hw, -, h⟩
    · simp only [step, h]
      exact step_dropped rfl ⟨hi, hb⟩
    · have hi' := hi.insert hw
      simp only [step, h]
      by_cases hp : rate.heap.length = p
      · subst hp
        have hb0 : b = none := by rw [hb, List.getElem?_eq_none le_rfl]; rfl
        have hk : Served.keep (·.entry == rate.heap.length) (some ⟨ip, rate.heap.length, e.lastTime, true⟩) =
            some (e.lastTime, true) := by simp [Served.keep]
        refine step_kept hk ?_
        rw [hb0, take_none_eq_new, (hi.workers_ok w _ hw).toBucket_made]
        exact ⟨rfl, hi', by simp⟩
      · refine step_dropped (by simp [Served.keep, hp]) ⟨hi', ?_⟩
        rw [getElem?_append_singleton_of_ne (Ne.symm hp)]
        exact hb
  · rcases update_cases rate w with h | ⟨ip, q, e, -, he, h⟩
    · simp only [step, h]
      exact step_dropped rfl ⟨hi, hb⟩
    · have hi' := hi.update hclock (w := w) he
      simp only [step, h]
      by_cases hq : q = p
      · subst hq
        have hlt : q < rate.heap.length := (List.getElem?_eq_some_iff.mp he).1
        have hk : Served.keep (·.entry == q) (some ⟨ip, q, rate.clock, (e.allow rate.clock).1⟩) =
            some (rate.clock, (e.allow rate.clock).1) := by simp [Served.keep]
        refine step_kept hk ?_
        rw [hb, he, Option.map_some, ← Entry.allow_eq_take (hi.sound_of_getElem? he) hclock]
        exact ⟨rfl, hi', by rw [List.getElem?_set_self hlt]; rfl⟩
      · refine step_dropped (by simp [Served.keep, hq]) ⟨hi', ?_⟩
        rw [List.getElem?_set_ne hq]
        exact hb

/-- Whatever the interleaving of the workers, the cleanups and the clock, each entry's
answers are those of a token bucket fed with the clock readings of the calls it
answered, as long as the clock stays below `2 ^ 62`. -/
theorem entry_answers_eq_take (acts : List Action) (hclock : (run step init acts).2.clock < 2 ^ 62)
    (p : Nat) :
    (servedBy (·.entry == p) (run step init acts).1).map Prod.snd =
      (run (take maxTokens packetCost) none
        ((servedBy (·.entry == p) (run step init acts).1).map Prod.fst)).1 :=
  ((entry_projection p).run acts (guarded_clock hclock) ⟨inv_init, rfl⟩).1

/-! ## An address whose calls do not overlap -/

/-- No busy worker's call is for `ip`. -/
def NoCall (ip : Addr) (rate : Ratelimiter) : Prop := ∀ x ∈ rate.workers.entries, x.2.ip ≠ ip

instance (ip : Addr) (rate : Ratelimiter) : Decidable (NoCall ip rate) :=
  inferInstanceAs (Decidable (∀ x ∈ rate.workers.entries, x.2.ip ≠ ip))

/-- The step `a` keeps `ip`'s calls from overlapping: it starts no call for `ip`, and
visits no key `ip`, while a call for `ip` is in progress. -/
def Serial (ip : Addr) (rate : Ratelimiter) : Action → Prop
  | .lookup _ ip' => ip' = ip → NoCall ip rate
  | .visit key => key = ip → NoCall ip rate
  | _ => True

instance decidableSerial (ip : Addr) (rate : Ratelimiter) : (a : Action) → Decidable (Serial ip rate a)
  | .lookup _ ip' => inferInstanceAs (Decidable (ip' = ip → NoCall ip rate))
  | .visit key => inferInstanceAs (Decidable (key = ip → NoCall ip rate))
  | .make _ => isTrue trivial
  | .insert _ => isTrue trivial
  | .update _ => isTrue trivial
  | .cleanupStart => isTrue trivial
  | .cleanupEnd => isTrue trivial
  | .tick _ => isTrue trivial

/-- With no call for `ip` in progress: the entry the table points to for `ip` is the
bucket, or there is none and the bucket is full. -/
def IdleIs (rate : Ratelimiter) (ip : Addr) (b : Option Bucket) : Prop :=
  match rate.view ip with
  | some e => b = some e.toBucket
  | none => level maxTokens b rate.clock = maxTokens

/-- A call in progress, against its address's bucket `b`: the entry it found is the
one the table points to, and is the bucket; with none found, the bucket is full; with
a new entry made, the bucket was full, and last used, by the entry's clock reading. -/
def PhaseIs (rate : Ratelimiter) (b : Option Bucket) : Phase → Prop
  | .found ip p => rate.table.lookup ip = some p ∧ ∃ e, rate.heap[p]? = some e ∧ b = some e.toBucket
  | .missing ip => rate.table.lookup ip = none ∧ level maxTokens b rate.clock = maxTokens
  | .made ip e =>
    rate.table.lookup ip = none ∧ level maxTokens b e.lastTime = maxTokens ∧ Fits maxTokens e.lastTime b

/-- What the limiter holds for `ip` against the bucket `b` fed with `ip`'s answered
calls, while `ip`'s calls do not overlap: at most one call for `ip` is in progress, and
the table, the heap and that call are the bucket. -/
structure AddrIs (ip : Addr) (rate : Ratelimiter) (b : Option Bucket) : Prop where
  inv : Inv rate
  fits : Fits maxTokens rate.clock b
  one_call : ∀ w w' ph ph', rate.workers.lookup w = some ph → rate.workers.lookup w' = some ph' →
    ph.ip = ip → ph'.ip = ip → w = w'
  idle : NoCall ip rate → IdleIs rate ip b
  calls : ∀ w ph, rate.workers.lookup w = some ph → ph.ip = ip → PhaseIs rate b ph

section Addr

variable {ip : Addr} {rate : Ratelimiter} {b : Option Bucket} {w : Nat}

theorem noCall_iff : NoCall ip rate ↔ ∀ w ph, rate.workers.lookup w = some ph → ph.ip ≠ ip := by
  constructor
  · intro h w ph hw
    exact h ⟨w, ph⟩ (AList.mem_lookup_iff.mp hw)
  · rintro h ⟨w, ph⟩ hx
    exact h w ph (AList.mem_lookup_iff.mpr hx)

theorem lookupPhase_ip (rate : Ratelimiter) (ip : Addr) : (lookupPhase rate ip).ip = ip := by
  unfold lookupPhase
  split <;> rfl

theorem view_of_lookup_some (rate : Ratelimiter) {p : Nat} (hp : rate.table.lookup ip = some p) :
    rate.view ip = rate.heap[p]? := by
  simp [view, hp]

theorem view_of_lookup_none (rate : Ratelimiter) (hp : rate.table.lookup ip = none) :
    rate.view ip = none := by
  simp [view, hp]

theorem idleIs_of_view_some {e : Entry} (h : rate.view ip = some e) :
    IdleIs rate ip b ↔ b = some e.toBucket := by
  simp [IdleIs, h]

theorem idleIs_of_view_none (h : rate.view ip = none) :
    IdleIs rate ip b ↔ level maxTokens b rate.clock = maxTokens := by
  simp [IdleIs, h]

/-- Setting a worker's phase to one for another address, where it had none for `ip`,
leaves `ip`'s calls as they are. -/
theorem lookup_insert_iff_of_ne {ws : AList (fun _ : Nat => Phase)} {ph₀ : Phase} (h₀ : ph₀.ip ≠ ip)
    (hold : ∀ ph, ws.lookup w = some ph → ph.ip ≠ ip) (w' : Nat) (ph : Phase) (hip : ph.ip = ip) :
    (ws.insert w ph₀).lookup w' = some ph ↔ ws.lookup w' = some ph := by
  by_cases hw : w' = w
  · subst hw
    rw [AList.lookup_insert]
    constructor
    · rintro ⟨⟩
      exact absurd hip h₀
    · intro h
      exact absurd hip (hold ph h)
  · rw [AList.lookup_insert_ne hw]

/-- Ending a call for another address leaves `ip`'s calls as they are. -/
theorem lookup_erase_iff_of_ne {ws : AList (fun _ : Nat => Phase)}
    (hold : ∀ ph, ws.lookup w = some ph → ph.ip ≠ ip) (w' : Nat) (ph : Phase) (hip : ph.ip = ip) :
    (ws.erase w).lookup w' = some ph ↔ ws.lookup w' = some ph := by
  by_cases hw : w' = w
  · subst hw
    rw [AList.lookup_erase]
    constructor
    · rintro ⟨⟩
    · intro h
      exact absurd hip (hold ph h)
  · rw [AList.lookup_erase_ne hw]

/-- A step that changes nothing `ip`'s bucket depends on keeps `AddrIs`. -/
theorem AddrIs.frame {rate' : Ratelimiter} (h : AddrIs ip rate b) (hinv : Inv rate')
    (hclock : rate'.clock = rate.clock) (htable : rate'.table.lookup ip = rate.table.lookup ip)
    (hheap : ∀ p, rate.table.lookup ip = some p → rate'.heap[p]? = rate.heap[p]?)
    (hcalls : ∀ w ph, ph.ip = ip → (rate'.workers.lookup w = some ph ↔ rate.workers.lookup w = some ph)) :
    AddrIs ip rate' b := by
  have hview : rate'.view ip = rate.view ip := by
    cases hp : rate.table.lookup ip with
    | none => rw [view_of_lookup_none rate hp, view_of_lookup_none rate' (htable.trans hp)]
    | some p => rw [view_of_lookup_some rate hp, view_of_lookup_some rate' (htable.trans hp), hheap p hp]
  refine ⟨hinv, by rw [hclock]; exact h.fits, fun w w' ph ph' hw hw' hip hip' => ?_,
    fun hno => ?_, fun w ph hw hip => ?_⟩
  · exact h.one_call w w' ph ph' ((hcalls w ph hip).mp hw) ((hcalls w' ph' hip').mp hw') hip hip'
  · have hno' : NoCall ip rate := noCall_iff.mpr fun w ph hw hip =>
      noCall_iff.mp hno w ph ((hcalls w ph hip).mpr hw) hip
    have hidle := h.idle hno'
    unfold IdleIs at hidle ⊢
    rw [hview, hclock]
    exact hidle
  · have hphase := h.calls w ph ((hcalls w ph hip).mp hw) hip
    cases ph with
    | found ip' p =>
      obtain ⟨ht, e, he, hb⟩ := hphase
      cases hip
      exact ⟨htable.trans ht, e, (hheap p ht).trans he, hb⟩
    | missing ip' =>
      cases hip
      exact ⟨htable.trans hphase.1, by rw [hclock]; exact hphase.2⟩
    | made ip' e =>
      cases hip
      exact ⟨htable.trans hphase.1, hphase.2⟩

/-- With no call for `ip` in progress, `AddrIs` is the invariant, the bucket's fit and
the idle view. -/
theorem AddrIs.of_noCall (hinv : Inv rate) (hfits : Fits maxTokens rate.clock b) (hno : NoCall ip rate)
    (hidle : IdleIs rate ip b) : AddrIs ip rate b :=
  ⟨hinv, hfits, fun w _ ph _ hw _ hip _ => absurd hip (noCall_iff.mp hno w ph hw), fun _ => hidle,
    fun w ph hw hip => absurd hip (noCall_iff.mp hno w ph hw)⟩

/-- The calls for `ip` are at the worker `w` alone. -/
theorem AddrIs.calls_at (h : AddrIs ip rate b) {ph₀ : Phase} (hw : rate.workers.lookup w = some ph₀)
    (hip : ph₀.ip = ip) {w' : Nat} {ph : Phase} (hw' : rate.workers.lookup w' = some ph) (hip' : ph.ip = ip) :
    w' = w :=
  h.one_call w' w ph ph₀ hw' hw hip' hip

/-- Once the one call for `ip` ends, none is in progress. -/
theorem AddrIs.noCall_erase (h : AddrIs ip rate b) {ph₀ : Phase} (hw : rate.workers.lookup w = some ph₀)
    (hip : ph₀.ip = ip) (rate' : Ratelimiter) (hws : rate'.workers = rate.workers.erase w) :
    NoCall ip rate' := by
  refine noCall_iff.mpr fun w' ph hw' hph => ?_
  rw [hws] at hw'
  obtain ⟨hne, hw'⟩ := lookup_of_lookup_erase hw'
  exact hne (h.calls_at hw hip hw' hph)

/-- The lookup that starts a call for `ip` leaves the bucket where it is. -/
theorem AddrIs.lookup_self (h : AddrIs ip rate b) (hinv : Inv { rate with workers := rate.workers.insert w (lookupPhase rate ip) })
    (hno : NoCall ip rate) :
    AddrIs ip { rate with workers := rate.workers.insert w (lookupPhase rate ip) } b := by
  have hcall : ∀ w' ph, (rate.workers.insert w (lookupPhase rate ip)).lookup w' = some ph → ph.ip = ip →
      w' = w ∧ ph = lookupPhase rate ip := by
    intro w' ph hw' hip
    by_cases hww : w' = w
    · subst hww
      rw [AList.lookup_insert, Option.some.injEq] at hw'
      exact ⟨rfl, hw'.symm⟩
    · rw [AList.lookup_insert_ne hww] at hw'
      exact absurd hip (noCall_iff.mp hno w' ph hw')
  have hidle := h.idle hno
  refine ⟨hinv, h.fits, fun w₁ w₂ ph₁ ph₂ h₁ h₂ hip₁ hip₂ =>
    (hcall w₁ ph₁ h₁ hip₁).1.trans (hcall w₂ ph₂ h₂ hip₂).1.symm, fun hno' => ?_, fun w' ph hw' hip => ?_⟩
  · exact absurd (lookupPhase_ip rate ip) (noCall_iff.mp hno' w _ (AList.lookup_insert _))
  · obtain ⟨-, rfl⟩ := hcall w' ph hw' hip
    unfold lookupPhase
    split
    · next p hp =>
      have hlt := h.inv.table_lt ip p hp
      have he := List.getElem?_eq_getElem hlt
      exact ⟨hp, rate.heap[p], he, (idleIs_of_view_some ((view_of_lookup_some rate hp).trans he)).mp hidle⟩
    · next hp =>
      exact ⟨hp, (idleIs_of_view_none (view_of_lookup_none rate hp)).mp hidle⟩

/-- Making the entry leaves the bucket full, as of the entry's clock reading. -/
theorem AddrIs.make_self (h : AddrIs ip rate b)
    (hinv : Inv { rate with workers := rate.workers.insert w (.made ip ⟨rate.clock, maxTokens - packetCost⟩) })
    (hw : rate.workers.lookup w = some (.missing ip)) :
    AddrIs ip { rate with workers := rate.workers.insert w (.made ip ⟨rate.clock, maxTokens - packetCost⟩) } b := by
  have hmissing := h.calls w _ hw rfl
  have hat : ∀ w' ph, (rate.workers.insert w (.made ip ⟨rate.clock, maxTokens - packetCost⟩)).lookup w' = some ph →
      ph.ip = ip → w' = w := by
    intro w' ph hw' hip
    by_cases hww : w' = w
    · exact hww
    · rw [AList.lookup_insert_ne hww] at hw'
      exact h.calls_at hw rfl hw' hip
  refine ⟨hinv, h.fits, fun w₁ w₂ ph₁ ph₂ h₁ h₂ hip₁ hip₂ => (hat w₁ ph₁ h₁ hip₁).trans (hat w₂ ph₂ h₂ hip₂).symm,
    fun hno => absurd rfl (noCall_iff.mp hno w _ (AList.lookup_insert _)), fun w' ph hw' hip => ?_⟩
  obtain rfl := hat w' ph hw' hip
  rw [AList.lookup_insert, Option.some.injEq] at hw'
  subst hw'
  exact ⟨hmissing.1, hmissing.2, h.fits⟩

/-- The insertion that ends a call for `ip` is its bucket's `take`, at the clock
reading the entry was made at. -/
theorem AddrIs.insert_self {e : Entry} (h : AddrIs ip rate b) (hw : rate.workers.lookup w = some (.made ip e)) :
    (take maxTokens packetCost b e.lastTime).1 = true ∧
      AddrIs ip { rate with table := rate.table.insert ip rate.heap.length, heap := rate.heap ++ [e],
                            workers := rate.workers.erase w } (take maxTokens packetCost b e.lastTime).2 := by
  obtain ⟨-, hfull, -⟩ := h.calls w _ hw rfl
  have hok := h.inv.workers_ok w _ hw
  have htake : take maxTokens packetCost b e.lastTime = (true, some e.toBucket) := by
    rw [take_of_full hfull (by rw [maxTokens_eq, packetCost_eq]; decide), ← hok.toBucket_made]
    rfl
  have hno : NoCall ip { rate with workers := rate.workers.erase w } := h.noCall_erase hw rfl _ rfl
  have hview : view ⟨rate.table.insert ip rate.heap.length, rate.heap ++ [e], rate.cleaning,
      rate.workers.erase w, rate.clock⟩ ip = some e :=
    (view_of_lookup_some _ (AList.lookup_insert _)).trans List.getElem?_concat_length
  rw [htake]
  exact ⟨rfl, .of_noCall (h.inv.insert hw) hok.1.2 hno ((idleIs_of_view_some hview).mpr rfl)⟩

/-- The update that ends a call for `ip` is its bucket's `take` at the clock. -/
theorem AddrIs.update_self {p : Nat} {e : Entry} (h : AddrIs ip rate b) (hclock : rate.clock < 2 ^ 62)
    (hw : rate.workers.lookup w = some (.found ip p)) (he : rate.heap[p]? = some e) :
    (take maxTokens packetCost b rate.clock).1 = (e.allow rate.clock).1 ∧
      AddrIs ip { rate with heap := rate.heap.set p (e.allow rate.clock).2, workers := rate.workers.erase w }
        (take maxTokens packetCost b rate.clock).2 := by
  obtain ⟨ht, e', he', hb⟩ := h.calls w _ hw rfl
  rw [he, Option.some.injEq] at he'
  subst he'
  have hsound := h.inv.sound_of_getElem? he
  have hlt : p < rate.heap.length := (List.getElem?_eq_some_iff.mp he).1
  have hno : NoCall ip { rate with workers := rate.workers.erase w } := h.noCall_erase hw rfl _ rfl
  have hview : view ⟨rate.table, rate.heap.set p (e.allow rate.clock).2, rate.cleaning,
      rate.workers.erase w, rate.clock⟩ ip = some (e.allow rate.clock).2 :=
    (view_of_lookup_some ⟨rate.table, rate.heap.set p (e.allow rate.clock).2, rate.cleaning,
      rate.workers.erase w, rate.clock⟩ ht).trans (List.getElem?_set_self hlt)
  rw [hb, ← Entry.allow_eq_take hsound hclock]
  exact ⟨rfl, .of_noCall (h.inv.update hclock he) (Entry.sound_allow hsound hclock).2 hno
    ((idleIs_of_view_some hview).mpr rfl)⟩

/-- `cleanup` deletes `ip`'s entry only once its bucket is full again. -/
theorem AddrIs.erase_self {e : Entry} (h : AddrIs ip rate b) (hno : NoCall ip rate) (c : Option (List Addr))
    (hview : rate.view ip = some e) (hidle : garbageCollectTime < sub rate.clock e.lastTime) :
    AddrIs ip { rate with table := rate.table.erase ip, cleaning := c } b := by
  have hb := (idleIs_of_view_some hview).mp (h.idle hno)
  obtain ⟨p, hp, he⟩ := Option.bind_eq_some_iff.mp hview
  obtain ⟨-, htokens, -, -⟩ := h.inv.sound_of_getElem? he
  have hfull : level maxTokens b rate.clock = maxTokens := by
    have hmax := maxTokens_eq
    simp only [sub, garbageCollectTime] at hidle
    simp only [hb, level, Entry.toBucket] at htokens ⊢
    omega
  exact .of_noCall (h.inv.erase ip c) h.fits hno
    ((idleIs_of_view_none (view_of_lookup_none _ (AList.lookup_erase _ _))).mpr hfull)

/-- Time passing keeps a full bucket full. -/
theorem AddrIs.tick (h : AddrIs ip rate b) (d : Nat) : AddrIs ip (rate.tick d) b := by
  have hd : rate.clock ≤ (rate.tick d).clock := by simp [Ratelimiter.tick]
  refine ⟨h.inv.tick d, h.fits.mono hd, h.one_call, fun hno => ?_, fun w ph hw hip => ?_⟩
  · have hidle := h.idle hno
    unfold IdleIs at hidle ⊢
    split at hidle
    · next e hview => rw [show (rate.tick d).view ip = rate.view ip from rfl, hview]; exact hidle
    · next hview =>
      rw [show (rate.tick d).view ip = rate.view ip from rfl, hview]
      exact level_eq_cap_of_le hidle hd
  · have hphase := h.calls w ph hw hip
    cases ph with
    | found ip' p => exact hphase
    | missing ip' => exact ⟨hphase.1, level_eq_cap_of_le hphase.2 hd⟩
    | made ip' e => exact hphase

end Addr

theorem addrIs_init (ip : Addr) : AddrIs ip init none :=
  ⟨inv_init, trivial, fun _ _ _ _ h => by simp [init] at h,
    fun _ => (idleIs_of_view_none (by simp [view, init])).mpr rfl, fun _ _ h => by simp [init] at h⟩

/-- A worker's phase for another address does not name `ip`. -/
theorem ip_ne_of_lookup {ws : AList (fun _ : Nat => Phase)} {w : Nat} {ip ip' : Addr} {ph₀ : Phase}
    (hw : ws.lookup w = some ph₀) (h₀ : ph₀.ip = ip') (hip : ip' ≠ ip) :
    ∀ ph, ws.lookup w = some ph → ph.ip ≠ ip := by
  intro ph hph
  rw [hw, Option.some.injEq] at hph
  rw [← hph, h₀]
  exact hip

/-- A step that answers no call keeps `AddrIs`, as long as it keeps `ip`'s calls from
overlapping. -/
theorem AddrIs.step_silent {ip : Addr} {rate : Ratelimiter} {b : Option Bucket} {a : Action}
    (h : AddrIs ip rate b) (hclock : rate.clock < 2 ^ 62) (hserial : Serial ip rate a)
    (hlabel : (rate.step a).1 = none) : AddrIs ip (rate.step a).2 b := by
  have hinv := inv_step h.inv hclock a
  cases a with
  | lookup w ip' =>
    rcases lookup_cases rate w ip' with hl | ⟨hw, -, hl⟩
    · simpa [step, hl] using h
    · simp only [step, hl] at hinv ⊢
      by_cases hip : ip' = ip
      · subst hip
        exact h.lookup_self hinv (hserial rfl)
      · exact h.frame hinv rfl rfl (fun _ _ => rfl)
          (lookup_insert_iff_of_ne (by rw [lookupPhase_ip]; exact hip) fun ph hph => by simp [hw] at hph)
  | make w =>
    rcases make_cases rate w with hm | ⟨ip', hw, hm⟩
    · simpa [step, hm] using h
    · simp only [step, hm] at hinv ⊢
      by_cases hip : ip' = ip
      · subst hip
        exact h.make_self hinv hw
      · exact h.frame hinv rfl rfl (fun _ _ => rfl)
          (lookup_insert_iff_of_ne hip (ip_ne_of_lookup hw rfl hip))
  | insert w =>
    rcases insert_cases rate w with hins | ⟨ip', e, -, -, hins⟩
    · simpa [step, hins] using h
    · simp [step, hins] at hlabel
  | update w =>
    rcases update_cases rate w with hup | ⟨ip', q, e, -, -, hup⟩
    · simpa [step, hup] using h
    · simp [step, hup] at hlabel
  | cleanupStart =>
    obtain ⟨c, hc⟩ := cleanupStart_eq rate
    simp only [step, hc] at hinv ⊢
    exact h.frame hinv rfl rfl (fun _ _ => rfl) fun _ _ _ => Iff.rfl
  | visit key =>
    rcases visit_cases rate key with ⟨c, hv⟩ | ⟨c, e, hview, hidle, hv⟩
    · simp only [step, hv] at hinv ⊢
      exact h.frame hinv rfl rfl (fun _ _ => rfl) fun _ _ _ => Iff.rfl
    · simp only [step, hv] at hinv ⊢
      by_cases hkey : key = ip
      · subst hkey
        exact h.erase_self (hserial rfl) c hview hidle
      · exact h.frame hinv rfl (AList.lookup_erase_ne (Ne.symm hkey)) (fun _ _ => rfl)
          fun _ _ _ => Iff.rfl
  | cleanupEnd =>
    obtain ⟨c, hc⟩ := cleanupEnd_eq rate
    simp only [step, hc] at hinv ⊢
    exact h.frame hinv rfl rfl (fun _ _ => rfl) fun _ _ _ => Iff.rfl
  | tick d => exact h.tick d

/-- While `ip`'s calls do not overlap, the limiter answers them as `ip`'s own bucket,
whatever the other addresses and the cleanups do. -/
theorem addr_projection (ip : Addr) :
    IsLabelProjection (fun rate a => rate.clock < 2 ^ 62 ∧ Serial ip rate a) (Served.keep (·.ip == ip))
      step (take maxTokens packetCost) (AddrIs ip) := by
  rintro rate b a ⟨hclock, hserial⟩ h
  rcases step_passive_or a with hpass | ⟨w, rfl⟩ | ⟨w, rfl⟩
  · exact step_dropped (by rw [(hpass rate).2]; rfl) (h.step_silent hclock hserial (hpass rate).2)
  · have hinv := inv_step h.inv hclock (.insert w)
    rcases insert_cases rate w with hins | ⟨ip', e, hw, -, hins⟩
    · simp only [step, hins]
      exact step_dropped rfl h
    · simp only [step, hins] at hinv ⊢
      by_cases hip : ip' = ip
      · subst hip
        exact step_kept (by simp [Served.keep]) (h.insert_self hw)
      · refine step_dropped (by simp [Served.keep, hip]) ?_
        exact h.frame hinv rfl (AList.lookup_insert_ne (Ne.symm hip))
          (fun p hp => List.getElem?_append_left (h.inv.table_lt ip p hp))
          (lookup_erase_iff_of_ne (ip_ne_of_lookup hw rfl hip))
  · have hinv := inv_step h.inv hclock (.update w)
    rcases update_cases rate w with hup | ⟨ip', q, e, hw, he, hup⟩
    · simp only [step, hup]
      exact step_dropped rfl h
    · simp only [step, hup] at hinv ⊢
      by_cases hip : ip' = ip
      · subst hip
        exact step_kept (by simp [Served.keep]) (h.update_self hclock hw he)
      · refine step_dropped (by simp [Served.keep, hip]) ?_
        have hne : ∀ p, rate.table.lookup ip = some p → q ≠ p := by
          rintro p hp rfl
          rcases (h.inv.workers_ok w _ hw).2 with howned | howned
          · exact hip (h.inv.table_inj ip' ip q howned hp)
          · exact howned ip hp
        exact h.frame hinv rfl rfl (fun p hp => List.getElem?_set_ne (hne p hp))
          (lookup_erase_iff_of_ne (ip_ne_of_lookup hw rfl hip))

/-- The answers to `ip`'s calls come at clock readings no earlier than the bucket's last
use, so they come in order. -/
theorem addr_lastUse (ip : Addr) (rate : Ratelimiter) (b : Option Bucket) (a : Action) (i : Int) (x : Bool)
    (h : AddrIs ip rate b) (hk : Served.keep (·.ip == ip) (rate.step a).1 = some (i, x)) :
    lastUse b ≤ i ∧ lastUse (take maxTokens packetCost b i).2 = i := by
  refine ⟨?_, lastUse_take b i⟩
  rcases step_passive_or a with hpass | ⟨w, rfl⟩ | ⟨w, rfl⟩
  · simp [(hpass rate).2, Served.keep] at hk
  · rcases insert_cases rate w with hins | ⟨ip', e, hw, -, hins⟩
    · simp [step, hins, Served.keep] at hk
    · by_cases hip : ip' = ip
      · subst hip
        simp only [step, hins, Served.keep, beq_self_eq_true, if_true, Option.some.injEq,
          Prod.mk.injEq] at hk
        obtain ⟨rfl, -⟩ := hk
        obtain ⟨-, -, hfits⟩ := h.calls w _ hw rfl
        exact lastUse_le hfits (h.inv.workers_ok w _ hw).1.1
      · simp [step, hins, Served.keep, hip] at hk
  · rcases update_cases rate w with hup | ⟨ip', q, e, -, -, hup⟩
    · simp [step, hup, Served.keep] at hk
    · by_cases hip : ip' = ip
      · subst hip
        simp only [step, hup, Served.keep, beq_self_eq_true, if_true, Option.some.injEq,
          Prod.mk.injEq] at hk
        obtain ⟨rfl, -⟩ := hk
        exact lastUse_le h.fits h.inv.clock_nonneg
      · simp [step, hup, Served.keep, hip] at hk

/-- What the limiter is for, under concurrency. Whatever the interleaving of the
handshake workers' calls, the cleanups and the clock, as long as the clock stays below
`2 ^ 62`, each entry answers as a token bucket fed with the clock readings of the calls
it answered; and an address whose calls do not overlap one another, nor a visit of
`cleanup` to its key, gets the answers of a token bucket of its own, fed with its own
calls only. -/
theorem allow_answers_eq_take (acts : List Action) (hclock : (run step init acts).2.clock < 2 ^ 62) :
    (∀ p, (servedBy (·.entry == p) (run step init acts).1).map Prod.snd =
        (run (take maxTokens packetCost) none
          ((servedBy (·.entry == p) (run step init acts).1).map Prod.fst)).1) ∧
      ∀ ip, Guarded (Serial ip) step init acts →
        (servedBy (·.ip == ip) (run step init acts).1).map Prod.snd =
          (run (take maxTokens packetCost) none
            ((servedBy (·.ip == ip) (run step init acts).1).map Prod.fst)).1 :=
  ⟨entry_answers_eq_take acts hclock, fun ip hserial =>
    ((addr_projection ip).run acts ((guarded_clock hclock).and hserial) (addrIs_init ip)).1⟩

/-- Two workers serve `127.0.0.1` and `192.168.1.1` while the clock moves on and a
cleanup runs: the cleanup deletes the idle entry of `192.168.1.1` between worker `0`'s
lookup of `127.0.0.1` and its update. -/
def twoAddressRun : List Action :=
  [.lookup 0 (.v4 0x7f000001), .lookup 1 (.v4 0xc0a80101), .make 0, .make 1, .insert 1, .insert 0,
    .tick 2000000000, .lookup 0 (.v4 0x7f000001), .cleanupStart, .visit (.v4 0xc0a80101), .update 0,
    .visit (.v4 0x7f000001), .cleanupEnd, .lookup 1 (.v4 0xc0a80101), .make 1, .insert 1]

theorem allow_answers_two_addresses :
    (run step init twoAddressRun).2.clock < 2 ^ 62 ∧ Guarded (Serial (.v4 0x7f000001)) step init twoAddressRun ∧
      (servedBy (·.ip == .v4 0x7f000001) (run step init twoAddressRun).1).map Prod.snd =
        (run (take maxTokens packetCost) none
          ((servedBy (·.ip == .v4 0x7f000001) (run step init twoAddressRun).1).map Prod.fst)).1 :=
  ⟨by decide, by decide, (allow_answers_eq_take twoAddressRun (by decide)).2 _ (by decide)⟩

/-- In any window of time `[t0, t1]`, an address whose calls do not overlap gets at most
`packetsBurstable` packets through and one more per `packetCost` nanoseconds of the
window: `maxTokens + (t1 - t0)` nanoseconds of credit, at `packetCost` a packet. -/
theorem allow_window_le (ip : Addr) (pre window : List Action) {t0 t1 : Int}
    (hserial : Guarded (Serial ip) step init (pre ++ window))
    (hclock : (run step init (pre ++ window)).2.clock < 2 ^ 62)
    (hwindow : ∀ x ∈ servedBy (·.ip == ip) (run step (run step init pre).2 window).1, t0 ≤ x.1 ∧ x.1 ≤ t1)
    (h01 : t0 ≤ t1) :
    (((servedBy (·.ip == ip) (run step (run step init pre).2 window).1).map Prod.snd).count true : Int) *
      packetCost ≤ maxTokens + (t1 - t0) := by
  have hguard := (guarded_append init pre window).mp ((guarded_clock hclock).and hserial)
  obtain ⟨-, hpre⟩ := (addr_projection ip).run pre hguard.1 (addrIs_init ip)
  obtain ⟨hanswers, -⟩ := (addr_projection ip).run window hguard.2 hpre
  have hsorted := (addr_projection ip).run_sorted lastUse
    (fun rate b a i x _ h hk => addr_lastUse ip rate b a i x h hk) window hguard.2 hpre
  unfold servedBy at hwindow ⊢
  rw [hanswers]
  refine count_run_take_window_le (by rw [maxTokens_eq]; decide) (by rw [packetCost_eq]; decide)
    hsorted hpre.fits.lastUse (fun t ht => ?_) h01
  obtain ⟨x, hx, rfl⟩ := List.mem_map.mp ht
  exact hwindow x hx

/-- One address served six times at one clock reading, a second after its first
packet, by two workers in turn. -/
def burstWindow : List Action :=
  [.lookup 0 (.v4 0x7f000001), .update 0, .lookup 1 (.v4 0x7f000001), .update 1,
    .lookup 0 (.v4 0x7f000001), .update 0, .lookup 1 (.v4 0x7f000001), .update 1,
    .lookup 0 (.v4 0x7f000001), .update 0, .lookup 1 (.v4 0x7f000001), .update 1]

theorem allow_window_burst :
    Guarded (Serial (.v4 0x7f000001)) step init
        ([.lookup 0 (.v4 0x7f000001), .make 0, .insert 0, .tick 1000000000] ++ burstWindow) ∧
      (run step init ([.lookup 0 (.v4 0x7f000001), .make 0, .insert 0, .tick 1000000000] ++ burstWindow)).2.clock <
        2 ^ 62 ∧
      (∀ x ∈ servedBy (·.ip == .v4 0x7f000001)
          (run step (run step init [.lookup 0 (.v4 0x7f000001), .make 0, .insert 0, .tick 1000000000]).2
            burstWindow).1, 1000000000 ≤ x.1 ∧ x.1 ≤ 1000000000) ∧
      (((servedBy (·.ip == .v4 0x7f000001)
          (run step (run step init [.lookup 0 (.v4 0x7f000001), .make 0, .insert 0, .tick 1000000000]).2
            burstWindow).1).map Prod.snd).count true : Int) * packetCost ≤
        maxTokens + (1000000000 - 1000000000) :=
  ⟨by decide, by decide, by decide,
    allow_window_le _ _ _ (by decide) (by decide) (by decide) (le_refl _)⟩

/-! ## Calls that overlap -/

/-- Workers `0, …, n - 1` call `Allow` for `ip` at once: all look it up, then all make
their entries, then all insert them. -/
def racingFirstCalls (ip : Addr) (n : Nat) : List Action :=
  (List.range n).map (.lookup · ip) ++ (List.range n).map .make ++ (List.range n).map .insert

/-- The workers `ws` all set to the phase `ph`. -/
def setAll (ws : List Nat) (ph : Phase) (workers : AList (fun _ : Nat => Phase)) :
    AList (fun _ : Nat => Phase) :=
  ws.foldl (fun acc w => acc.insert w ph) workers

theorem lookup_setAll (ph : Phase) (w : Nat) :
    ∀ (ws : List Nat) (workers : AList (fun _ : Nat => Phase)),
      (setAll ws ph workers).lookup w = if w ∈ ws then some ph else workers.lookup w
  | [], _ => by simp [setAll]
  | w' :: ws, workers => by
    rw [setAll, List.foldl_cons, ← setAll, lookup_setAll ph w ws]
    by_cases hw : w = w'
    · subst hw
      simp [AList.lookup_insert]
    · by_cases hmem : w ∈ ws <;> simp [hmem, hw, AList.lookup_insert_ne hw]

/-- Steps that answer nothing add nothing to the answers of any address. -/
theorem servedBy_run_of_silent (pick : Served → Bool) :
    ∀ (rate : Ratelimiter) (acts : List Action), (∀ a ∈ acts, ∀ r : Ratelimiter, (r.step a).1 = none) →
      servedBy pick (run step rate acts).1 = []
  | _, [], _ => rfl
  | rate, a :: acts, h => by
    rw [run_cons, servedBy, List.filterMap_cons_none (by rw [h a List.mem_cons_self rate]; rfl)]
    exact servedBy_run_of_silent pick _ acts fun a' ha' => h a' (List.mem_cons_of_mem a ha')

section Race

variable (ip : Addr)

/-- Idle workers that look up an address the table does not hold all find none. -/
theorem run_lookups :
    ∀ (ws : List Nat) (rate : Ratelimiter), ws.Nodup → rate.cleaning = none → rate.table.lookup ip = none →
      (∀ w ∈ ws, rate.workers.lookup w = none) →
      (run step rate (ws.map (.lookup · ip))).2 = { rate with workers := setAll ws (.missing ip) rate.workers }
  | [], _, _, _, _, _ => rfl
  | w :: ws, rate, hws, hc, ht, hidle => by
    obtain ⟨hw, hws⟩ := List.nodup_cons.mp hws
    have hstep : (rate.step (.lookup w ip)).2 = { rate with workers := rate.workers.insert w (.missing ip) } := by
      simp [step, lookup, hidle w List.mem_cons_self, hc, lookupPhase, ht]
    rw [List.map_cons, run_cons, hstep,
      run_lookups ws { rate with workers := rate.workers.insert w (.missing ip) } hws hc ht fun w' hw' => ?_]
    · rfl
    · rw [AList.lookup_insert_ne (ne_of_mem_of_not_mem hw' hw)]
      exact hidle w' (List.mem_cons_of_mem w hw')

/-- Workers that found no entry all make one, at the same clock reading. -/
theorem run_makes :
    ∀ (ws : List Nat) (rate : Ratelimiter), ws.Nodup → (∀ w ∈ ws, rate.workers.lookup w = some (.missing ip)) →
      (run step rate (ws.map .make)).2 =
        { rate with workers := setAll ws (.made ip ⟨rate.clock, maxTokens - packetCost⟩) rate.workers }
  | [], _, _, _ => rfl
  | w :: ws, rate, hws, hmissing => by
    obtain ⟨hw, hws⟩ := List.nodup_cons.mp hws
    have hstep : (rate.step (.make w)).2 =
        { rate with workers := rate.workers.insert w (.made ip ⟨rate.clock, maxTokens - packetCost⟩) } := by
      simp [step, make, hmissing w List.mem_cons_self]
    rw [List.map_cons, run_cons, hstep, run_makes ws
      { rate with workers := rate.workers.insert w (.made ip ⟨rate.clock, maxTokens - packetCost⟩) } hws
      fun w' hw' => ?_]
    · rfl
    · rw [AList.lookup_insert_ne (ne_of_mem_of_not_mem hw' hw)]
      exact hmissing w' (List.mem_cons_of_mem w hw')

/-- Workers that each made an entry all insert it, and all let their packets through. -/
theorem servedBy_run_inserts (e : Entry) :
    ∀ (ws : List Nat) (rate : Ratelimiter), ws.Nodup → rate.cleaning = none →
      (∀ w ∈ ws, rate.workers.lookup w = some (.made ip e)) →
      servedBy (·.ip == ip) (run step rate (ws.map .insert)).1 = List.replicate ws.length (e.lastTime, true)
  | [], _, _, _, _ => rfl
  | w :: ws, rate, hws, hc, hmade => by
    obtain ⟨hw, hws⟩ := List.nodup_cons.mp hws
    have hstep : rate.step (.insert w) = (some ⟨ip, rate.heap.length, e.lastTime, true⟩,
        { rate with table := rate.table.insert ip rate.heap.length, heap := rate.heap ++ [e],
                    workers := rate.workers.erase w }) := by
      simp [step, insert, hmade w List.mem_cons_self, hc]
    have hrest := servedBy_run_inserts e ws { rate with table := rate.table.insert ip rate.heap.length,
                                                        heap := rate.heap ++ [e],
                                                        workers := rate.workers.erase w } hws hc
      fun w' hw' => by
        rw [AList.lookup_erase_ne (ne_of_mem_of_not_mem hw' hw)]
        exact hmade w' (List.mem_cons_of_mem w hw')
    rw [List.map_cons, run_cons, hstep, servedBy,
      List.filterMap_cons_some (b := (e.lastTime, true)) (by simp [Served.keep])]
    rw [servedBy] at hrest
    rw [hrest, List.length_cons, List.replicate_succ]

/-- Calls that overlap lose the bucket. `n` workers that all look up an address before
any of them has inserted its entry all make one, and all let their packets through at
the one clock reading, where a bucket lets four through; for two workers or more the
run is not `Serial`. -/
theorem racing_first_calls_allowed (n : Nat) :
    servedBy (·.ip == ip) (run step init (racingFirstCalls ip n)).1 = List.replicate n (0, true) ∧
      (2 ≤ n → ¬Guarded (Serial ip) step init (racingFirstCalls ip n)) := by
  have hlookups := run_lookups ip (List.range n) init List.nodup_range rfl rfl fun _ _ => rfl
  have hmissing : ∀ w ∈ List.range n,
      (run step init ((List.range n).map (.lookup · ip))).2.workers.lookup w = some (.missing ip) := by
    intro w hw
    rw [hlookups, lookup_setAll, if_pos hw]
  have hmakes := run_makes ip (List.range n) _ List.nodup_range hmissing
  have hsilent : ∀ a ∈ (List.range n).map (.lookup · ip) ++ (List.range n).map .make,
      ∀ r : Ratelimiter, (r.step a).1 = none := by
    intro a ha r
    rcases List.mem_append.mp ha with ha | ha <;> obtain ⟨w, -, rfl⟩ := List.mem_map.mp ha <;> rfl
  refine ⟨?_, fun hn hserial => ?_⟩
  · rw [racingFirstCalls, run_append, servedBy, List.filterMap_append, ← servedBy, ← servedBy,
      servedBy_run_of_silent _ _ _ hsilent, List.nil_append, run_append, hmakes, hlookups]
    refine (servedBy_run_inserts ip ⟨0, maxTokens - packetCost⟩ (List.range n) _ List.nodup_range rfl
      fun w hw => ?_).trans (by rw [List.length_range])
    rw [lookup_setAll, if_pos hw]
    rfl
  · obtain ⟨m, rfl⟩ : ∃ m, n = m + 2 := ⟨n - 2, by omega⟩
    rw [racingFirstCalls, List.append_assoc, guarded_append, List.range_succ_eq_map,
      List.range_succ_eq_map] at hserial
    obtain ⟨⟨-, hsecond, -⟩, -⟩ := hserial
    have hfirst : (init.step (.lookup 0 ip)).2.workers.lookup 0 = some (.missing ip) := rfl
    exact noCall_iff.mp (hsecond rfl) 0 _ hfirst rfl

end Race

end Ratelimiter
