import Vwarp.Netip
import Vwarp.Lib.SortedInsert

/-!
# The result queue of the IP scanner

`IPQueue.Enqueue` bisects for the first element of larger RTT, writes the new
item there and drops the last element once the queue is longer than a
positive `maxQueueSize`. After any sequence of calls from the empty queue the
queue is the first `maxQueueSize` elements of the stable sort of everything
enqueued, by RTT, in arrival order. The invariant is that equation itself;
the step lemma rests on three facts of `SortedInsert`: the bisection finds the
threshold on a sorted queue, insertion at the threshold is the after-equal
insertion, and that insertion commutes with keeping a prefix.
-/

namespace Engine

open SortedInsert

/-- `statute.IPInfo`; `rtt` is a `time.Duration` in nanoseconds. -/
structure IPInfo where
  addrPort : Netip.AddrPort
  rtt : Int
  createdAt : Int
  deriving DecidableEq, Repr

/-- `IPQueue`: the slice, kept sorted by RTT, and its size limit. -/
structure IPQueue where
  queue : List IPInfo
  maxQueueSize : Int
  deriving Repr

/-- `NewIPQueue` with `opts.IPQueueSize = k`. -/
def newIPQueue (k : Int) : IPQueue := ⟨[], k⟩

/-- The predicate of the `sort.Search` call: the element at `i` is slower. -/
def rttAbove (queue : List IPInfo) (info : IPInfo) (i : Nat) : Bool :=
  match queue[i]? with
  | some e => decide (info.rtt < e.rtt)
  | none => true

/-- `IPQueue.Enqueue`. The append, the shifting `copy` and the write at
`index` leave `queue[:index] ++ [info] ++ queue[index:]`. -/
def IPQueue.enqueue (q : IPQueue) (info : IPInfo) : IPQueue :=
  let index := search q.queue.length (rttAbove q.queue info)
  let queue := q.queue.take index ++ info :: q.queue.drop index
  let queue :=
    if 0 < q.maxQueueSize ∧ q.maxQueueSize < queue.length then queue.dropLast else queue
  { q with queue := queue }

/-- `sort.Slice(x, less)`: some order in which no element is `less` than an
earlier one. The library sort is not stable; merge sort is one such order. -/
def sortSlice {α : Type} (less : α → α → Bool) (xs : List α) : List α :=
  xs.mergeSort (fun a b => !less b a)

/-- `IPQueue.AvailableIPs`: a copy, re-sorted slowest first when `desc`. -/
def IPQueue.availableIPs (q : IPQueue) (desc : Bool) : List IPInfo :=
  if desc then sortSlice (fun a b => decide (a.rtt > b.rtt)) q.queue else q.queue

/-- A run of `Enqueue` calls, in order. -/
def IPQueue.enqueueAll (q : IPQueue) (items : List IPInfo) : IPQueue :=
  items.foldl IPQueue.enqueue q

/-- What the queue holds after `items`: the stable sort by RTT, cut to the limit. -/
def expected (k : Int) (items : List IPInfo) : List IPInfo :=
  if 0 < k then (stableSort IPInfo.rtt items).take k.toNat else stableSort IPInfo.rtt items

def SortedByRtt (l : List IPInfo) : Prop := l.Pairwise (fun a b => a.rtt ≤ b.rtt)

@[simp] theorem enqueue_maxQueueSize (q : IPQueue) (info : IPInfo) :
    (q.enqueue info).maxQueueSize = q.maxQueueSize := rfl

theorem sortedByRtt_stableSort (items : List IPInfo) : SortedByRtt (stableSort IPInfo.rtt items) :=
  List.pairwise_insertionSort _ items

theorem sortedByRtt_expected (k : Int) (items : List IPInfo) : SortedByRtt (expected k items) := by
  unfold expected
  split
  · exact (sortedByRtt_stableSort items).sublist (List.take_sublist _ _)
  · exact sortedByRtt_stableSort items

/-- On a sorted queue the bisection and the write are the after-equal insertion. -/
theorem insert_at_search {queue : List IPInfo} (hs : SortedByRtt queue) (info : IPInfo) :
    let index := search queue.length (rttAbove queue info)
    queue.take index ++ info :: queue.drop index = insertAfter IPInfo.rtt info queue := by
  obtain ⟨t, ht, hk⟩ := exists_threshold IPInfo.rtt info hs
  have hth : Threshold (rttAbove queue info) queue.length t := by
    refine ⟨ht, fun k hk' => ?_⟩
    simp only [rttAbove, List.getElem?_eq_getElem hk', decide_eq_true_eq]
    exact hk k hk'
  simp only [search_eq hth]
  exact take_append_drop_eq_insertAfter IPInfo.rtt ht hk

/-- The step: one `Enqueue` keeps the queue equal to `expected`. -/
theorem enqueue_expected (k : Int) (items : List IPInfo) (info : IPInfo) :
    (IPQueue.enqueue ⟨expected k items, k⟩ info).queue = expected k (items ++ [info]) := by
  have hins := insert_at_search (sortedByRtt_expected k items) info
  simp only [IPQueue.enqueue] at hins ⊢
  rw [hins]
  by_cases hk : 0 < k
  · simp only [expected, hk, if_true, true_and, stableSort_append_singleton]
    rw [← take_insertAfter_take IPInfo.rtt info k.toNat (stableSort IPInfo.rtt items)]
    have hlen : (List.take k.toNat (stableSort IPInfo.rtt items)).length ≤ k.toNat :=
      List.length_take_le _ _
    split
    · rename_i hgt
      simp only [length_insertAfter] at hgt
      have hk' : (List.take k.toNat (stableSort IPInfo.rtt items)).length = k.toNat := by
        omega
      rw [List.dropLast_eq_take, length_insertAfter, hk', Nat.add_sub_cancel]
    · rename_i hle
      simp only [length_insertAfter] at hle
      exact (List.take_of_length_le (by simp only [length_insertAfter]; omega)).symm
  · simp only [expected, hk, if_false, false_and, stableSort_append_singleton]

/-- The run: from the empty queue, the queue is always `expected`. -/
theorem enqueueAll_queue (k : Int) (items : List IPInfo) :
    ((newIPQueue k).enqueueAll items).queue = expected k items ∧
      ((newIPQueue k).enqueueAll items).maxQueueSize = k := by
  induction items using List.reverseRecOn with
  | nil => simp [expected, stableSort, IPQueue.enqueueAll, newIPQueue]
  | append_singleton items info ih =>
    have hq : (newIPQueue k).enqueueAll items = ⟨expected k items, k⟩ := by
      obtain ⟨h1, h2⟩ := ih
      cases hq : (newIPQueue k).enqueueAll items
      simp only [hq] at h1 h2
      rw [h1, h2]
    simp only [IPQueue.enqueueAll, List.foldl_append, List.foldl_cons, List.foldl_nil] at hq ⊢
    rw [hq]
    exact ⟨enqueue_expected k items info, rfl⟩

/-- `sort.Slice` returns a permutation in which no element is `less` than an
earlier one, for a `less` that is a strict weak order. -/
theorem sortSlice_spec {α : Type} (less : α → α → Bool)
    (trans : ∀ a b c, less a b = false → less b c = false → less a c = false)
    (total : ∀ a b, less a b = false ∨ less b a = false) (xs : List α) :
    List.Perm (sortSlice less xs) xs ∧
      (sortSlice less xs).Pairwise (fun a b => less b a = false) := by
  refine ⟨List.mergeSort_perm xs _, ?_⟩
  have h := @List.pairwise_mergeSort _ (fun a b => !less b a)
    (fun a b c hab hbc => by simp only [Bool.not_eq_true'] at *; exact trans c b a hbc hab)
    (fun a b => by rcases total a b with h | h <;> simp [h]) xs
  exact h.imp (fun hab => by simpa using hab)

theorem availableIPs_desc (q : IPQueue) :
    List.Perm (q.availableIPs true) q.queue ∧
      (q.availableIPs true).Pairwise (fun a b => b.rtt ≤ a.rtt) := by
  have h := sortSlice_spec (fun a b : IPInfo => decide (a.rtt > b.rtt))
    (fun a b c hab hbc => by simp only [decide_eq_false_iff_not, not_lt] at *; omega)
    (fun a b => by simp only [decide_eq_false_iff_not, not_lt]; omega) q.queue
  refine ⟨h.1, h.2.imp (fun hab => ?_)⟩
  simpa using hab

/-- The queue after any sequence of `Enqueue` calls from `NewIPQueue`, and
what `AvailableIPs` returns from it. -/
theorem enqueue_sequence_stable_sort (k : Int) (items : List IPInfo) :
    let q := (newIPQueue k).enqueueAll items
    q.queue = (if 0 < k then (stableSort IPInfo.rtt items).take k.toNat
      else stableSort IPInfo.rtt items) ∧
    SortedByRtt q.queue ∧
    (0 < k → q.queue.length ≤ k.toNat) ∧
    (∀ r, q.queue.filter (fun a => a.rtt == r) <+: items.filter (fun a => a.rtt == r)) ∧
    (∀ y ∈ q.queue, ∀ x ∈ items, x.rtt < y.rtt → x ∈ q.queue) ∧
    q.availableIPs false = q.queue ∧
    List.Perm (q.availableIPs true) q.queue ∧
    (q.availableIPs true).Pairwise (fun a b => b.rtt ≤ a.rtt) := by
  intro q
  have hq : q.queue = expected k items := (enqueueAll_queue k items).1
  have hsorted := sortedByRtt_stableSort items
  refine ⟨hq, hq ▸ sortedByRtt_expected k items, fun hk => ?_, fun r => ?_, fun y hy x hx hxy => ?_,
    rfl, availableIPs_desc q⟩
  · simp only [hq, expected, hk, if_true]
    exact List.length_take_le _ _
  · rw [hq, ← filter_stableSort IPInfo.rtt r items, expected]
    split
    · exact (List.take_prefix _ _).filter _
    · exact List.prefix_refl _
  · have hx' : x ∈ stableSort IPInfo.rtt items :=
      (List.perm_insertionSort _ items).mem_iff.mpr hx
    rw [hq, expected] at hy ⊢
    split at hy
    · rw [if_pos ‹0 < k›]
      exact mem_take_of_lt IPInfo.rtt hsorted hy hx' hxy
    · rw [if_neg ‹¬ 0 < k›]
      exact hx'

end Engine
