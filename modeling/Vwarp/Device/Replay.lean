import Vwarp.Lib.Simulation
import Vwarp.Lib.Bitmap

/-!
# The anti-replay filter

`replay.Filter`, the sliding window of RFC 6479 that the receive path checks every
transport counter against: the largest counter accepted, `last`, and a ring of 128
blocks of 64 bits. The window is the 128 blocks up to `last`'s own.
`ValidateCounter` refuses a counter at or above the limit; moves the window forward
for a counter past `last`, clearing the blocks it moves over; refuses a counter more
than `windowSize` behind `last`; and otherwise sets the counter's bit, accepting the
counter when the bit was clear. `Reset` sets `last` to `0` and clears block `0` only:
every other block is cleared when the window moves over it again.

What the filter is for (`Fresh`): a counter is accepted when it is below the limit,
was not accepted since the last reset, and is at most `windowSize` behind every
counter accepted since then. The filter answers every call of every run as `Fresh`
does on the counters accepted since the last reset (`validateCounter_fresh`), so it
never accepts a counter twice between resets (`validateCounter_no_replay`).
-/

namespace Replay

open Simulation Bitmap

def blockBitLog : UInt64 := 6
def blockBits : UInt64 := (1 : UInt64) <<< blockBitLog
def ringBlocks : UInt64 := (1 : UInt64) <<< 7
def windowSize : UInt64 := (ringBlocks - 1) * blockBits
def blockMask : UInt64 := ringBlocks - 1
def bitMask : UInt64 := blockBits - 1

/-- `replay.Filter`. -/
structure Filter where
  last : UInt64
  ring : Fin 128 → UInt64

/-- The zero value, an empty filter. -/
def Filter.zero : Filter := ⟨0, fun _ => 0⟩

theorem toNat_and_blockMask (i : UInt64) : (i &&& blockMask).toNat = i.toNat % 128 := by
  rw [UInt64.toNat_and, show blockMask.toNat = 2 ^ 7 - 1 by decide,
    Nat.and_two_pow_sub_one_eq_mod]

/-- The block `ring[i & blockMask]` of the ring. -/
def slot (i : UInt64) : Fin 128 :=
  ⟨(i &&& blockMask).toNat, by rw [toNat_and_blockMask]; exact Nat.mod_lt _ (by decide)⟩

/-- `Reset`. -/
def Filter.reset (f : Filter) : Filter := { last := 0, ring := Function.update f.ring 0 0 }

/-- The loop `for i := current + 1; i <= current+diff; i++` of `ValidateCounter`,
clearing `n` blocks from block `i` on: `current` is a block index, below `2 ^ 58`, so
`current + diff` does not wrap and the loop runs `diff` times. -/
def clearBlocks (ring : Fin 128 → UInt64) (i : UInt64) : Nat → Fin 128 → UInt64
  | 0 => ring
  | n + 1 => clearBlocks (Function.update ring (slot i) 0) (i + 1) n

/-- The end of `ValidateCounter`: check and set the counter's bit. -/
def Filter.checkAndSet (f : Filter) (counter : UInt64) : Bool × Filter :=
  let indexBlock := slot (counter >>> blockBitLog)
  let indexBit := counter &&& bitMask
  let old := f.ring indexBlock
  let new := old ||| 1 <<< indexBit
  (old != new, { f with ring := Function.update f.ring indexBlock new })

/-- `ValidateCounter`. -/
def Filter.validateCounter (f : Filter) (counter limit : UInt64) : Bool × Filter :=
  if counter ≥ limit then (false, f)
  else
    let indexBlock := counter >>> blockBitLog
    if counter > f.last then
      -- move the window forward
      let current := f.last >>> blockBitLog
      let diff := indexBlock - current
      let diff := if diff > ringBlocks then ringBlocks else diff
      ({ last := counter, ring := clearBlocks f.ring (current + 1) diff.toNat } : Filter).checkAndSet
        counter
    else if f.last - counter > windowSize then (false, f)
    else f.checkAndSet counter

/-- The calls on a filter. -/
inductive FilterOp where
  | validateCounter (counter limit : UInt64)
  | reset
  deriving DecidableEq, Repr

/-- One call; `Reset` answers nothing, written `false`. -/
def Filter.step (f : Filter) : FilterOp → Bool × Filter
  | .validateCounter counter limit => f.validateCounter counter limit
  | .reset => (false, f.reset)

/-! ## What the filter is for -/

/-- A counter the filter is to accept, given the counters `accepted` since the last
reset: below the limit, not accepted already, and at most `windowSize` behind every
counter accepted. -/
def Fresh (accepted : List Nat) (counter limit : Nat) : Prop :=
  counter < limit ∧ counter ∉ accepted ∧ ∀ x ∈ accepted, x ≤ counter + windowSize.toNat

instance (accepted : List Nat) (counter limit : Nat) : Decidable (Fresh accepted counter limit) :=
  inferInstanceAs (Decidable (_ ∧ _ ∧ _))

/-- The calls on the list of counters accepted since the last reset. -/
def acceptStep (accepted : List Nat) : FilterOp → Bool × List Nat
  | .validateCounter counter limit =>
    if Fresh accepted counter.toNat limit.toNat then (true, accepted ++ [counter.toNat])
    else (false, accepted)
  | .reset => (false, [])

/-- Without a reset, a counter once accepted stays accepted. -/
theorem mem_run_acceptStep {accepted : List Nat} {x : Nat} (hx : x ∈ accepted) :
    ∀ {ops : List FilterOp}, FilterOp.reset ∉ ops → x ∈ (run acceptStep accepted ops).2 := by
  intro ops hops
  induction ops generalizing accepted with
  | nil => exact hx
  | cons op ops ih =>
    rw [List.mem_cons, not_or] at hops
    apply ih _ hops.2
    cases op with
    | validateCounter counter limit =>
      simp only [acceptStep]
      split
      · exact List.mem_append_left _ hx
      · exact hx
    | reset => exact absurd rfl hops.1

/-! ## Blocks and bits -/

@[simp] theorem windowSize_toNat : windowSize.toNat = 8128 := by decide

theorem toNat_shiftRight_blockBitLog (x : UInt64) : (x >>> blockBitLog).toNat = x.toNat / 64 := by
  rw [UInt64.toNat_shiftRight, show blockBitLog.toNat % 64 = 6 by decide, Nat.shiftRight_eq_div_pow]

theorem toNat_and_bitMask (x : UInt64) : (x &&& bitMask).toNat = x.toNat % 64 := by
  rw [UInt64.toNat_and, show bitMask.toNat = 2 ^ 6 - 1 by decide, Nat.and_two_pow_sub_one_eq_mod]

/-- The block of the ring that holds counter `x`. -/
def blockOf (x : Nat) : Fin 128 := ⟨x / 64 % 128, Nat.mod_lt _ (by decide)⟩

theorem slot_val (i : UInt64) : (slot i).val = i.toNat % 128 := toNat_and_blockMask i

theorem slot_shiftRight (counter : UInt64) : slot (counter >>> blockBitLog) = blockOf counter.toNat :=
  Fin.ext (by rw [slot_val, toNat_shiftRight_blockBitLog]; rfl)

/-- The counters whose blocks are in the window of `last`: its own block and the 127
before it. -/
def InWindow (last x : Nat) : Prop := last / 64 ≤ x / 64 + 127 ∧ x / 64 ≤ last / 64

/-- In one window, two counters with the same block of the ring and the same bit are
the same counter. -/
theorem eq_of_inWindow {last x y : Nat} (hx : InWindow last x) (hy : InWindow last y)
    (hblock : blockOf x = blockOf y) (hbit : x % 64 = y % 64) : x = y := by
  have hmod : x / 64 % 128 = y / 64 % 128 := Fin.val_eq_of_eq hblock
  unfold InWindow at hx hy
  omega

theorem inWindow_of_le {last x : Nat} (hle : x ≤ last) (hwin : last - x ≤ 8128) :
    InWindow last x := by
  unfold InWindow
  omega

/-- In the window of `f`, a counter's bit is set exactly when `mem` holds of it. -/
def BitsTrack (f : Filter) (mem : Nat → Prop) : Prop :=
  ∀ x, InWindow f.last.toNat x → ((f.ring (blockOf x)).toNat.testBit (x % 64) = true ↔ mem x)

theorem BitsTrack.congr {f : Filter} {mem mem' : Nat → Prop} (h : BitsTrack f mem)
    (hiff : ∀ x, mem x ↔ mem' x) : BitsTrack f mem' :=
  fun x hx => (h x hx).trans (hiff x)

/-- Checking a counter of the window answers whether its bit was clear, and sets it. -/
theorem checkAndSet_spec {f : Filter} {mem : Nat → Prop} (h : BitsTrack f mem) {counter : UInt64}
    (hin : InWindow f.last.toNat counter.toNat) :
    ((f.checkAndSet counter).1 = true ↔ ¬mem counter.toNat) ∧
      (f.checkAndSet counter).2.last = f.last ∧
      BitsTrack (f.checkAndSet counter).2 fun x => mem x ∨ x = counter.toNat := by
  have hbit : (counter &&& bitMask).toNat < 64 := by
    rw [toNat_and_bitMask]
    exact Nat.mod_lt _ (by decide)
  refine ⟨?_, rfl, ?_⟩
  · simp only [Filter.checkAndSet, bne_or_one_shiftLeft _ hbit, slot_shiftRight, toNat_and_bitMask,
      Bool.not_eq_eq_eq_not, Bool.not_true]
    rw [← h _ hin]
    simp
  · intro x hx
    simp only [Filter.checkAndSet, slot_shiftRight]
    by_cases hblock : blockOf x = blockOf counter.toNat
    · rw [hblock, Function.update_self, testBit_or_one_shiftLeft _ hbit, toNat_and_bitMask,
        ← hblock, Bool.or_eq_true, h x hx, decide_eq_true_iff]
      constructor
      · rintro (hmem | hsame)
        · exact Or.inl hmem
        · exact Or.inr (eq_of_inWindow hx hin hblock hsame.symm)
      · rintro (hmem | rfl)
        · exact Or.inl hmem
        · exact Or.inr rfl
    · rw [Function.update_of_ne hblock, h x hx]
      constructor
      · exact Or.inl
      · rintro (hmem | rfl)
        · exact hmem
        · exact absurd rfl hblock

/-! ## The loop that clears blocks -/

theorem clearBlocks_of_eq_zero {ring : Fin 128 → UInt64} {s : Fin 128} (hs : ring s = 0) :
    ∀ (i : UInt64) (n : Nat), clearBlocks ring i n s = 0 := by
  intro i n
  induction n generalizing ring i with
  | zero => exact hs
  | succ n ih =>
    apply ih
    by_cases hslot : s = slot i
    · rw [hslot, Function.update_self]
    · rw [Function.update_of_ne hslot, hs]

/-- A block the loop reaches is cleared. -/
theorem clearBlocks_cleared (ring : Fin 128 → UInt64) {s : Fin 128} :
    ∀ {i : UInt64} {n k : Nat}, i.toNat + n < 2 ^ 64 → k < n → (i.toNat + k) % 128 = s.val →
      clearBlocks ring i n s = 0 := by
  intro i n
  induction n generalizing ring i with
  | zero => intro k _ hk; omega
  | succ n ih =>
    intro k hi hk hs
    have hnext : (i + 1).toNat = i.toNat + 1 := by
      rw [UInt64.toNat_add, UInt64.toNat_one, Nat.mod_eq_of_lt (by omega)]
    rw [clearBlocks]
    cases k with
    | zero =>
      have hslot : slot i = s := Fin.ext (by rw [slot_val]; simpa using hs)
      exact clearBlocks_of_eq_zero (by rw [← hslot, Function.update_self]) _ _
    | succ k =>
      exact ih _ (k := k) (by rw [hnext]; omega) (by omega) (by rw [hnext]; omega)

/-- A block the loop does not reach keeps its bits. -/
theorem clearBlocks_kept (ring : Fin 128 → UInt64) {s : Fin 128} :
    ∀ {i : UInt64} {n : Nat}, i.toNat + n < 2 ^ 64 → (∀ k < n, (i.toNat + k) % 128 ≠ s.val) →
      clearBlocks ring i n s = ring s := by
  intro i n
  induction n generalizing ring i with
  | zero => intro _ _; rfl
  | succ n ih =>
    intro hi hk
    have hnext : (i + 1).toNat = i.toNat + 1 := by
      rw [UInt64.toNat_add, UInt64.toNat_one, Nat.mod_eq_of_lt (by omega)]
    have hslot : s ≠ slot i := by
      intro heq
      apply hk 0 (by omega)
      rw [heq, slot_val]
      simp
    rw [clearBlocks, ih _ (by rw [hnext]; omega) ?_, Function.update_of_ne hslot]
    intro k hk'
    rw [hnext]
    have := hk (k + 1) (by omega)
    omega

/-! ## One call -/

/-- The counters accepted since the last reset, held by the filter. -/
structure Tracks (f : Filter) (accepted : List Nat) : Prop where
  le_last : ∀ x ∈ accepted, x ≤ f.last.toNat
  last_mem : f.last = 0 ∨ f.last.toNat ∈ accepted
  bits : BitsTrack f (· ∈ accepted)

theorem tracks_zero : Tracks Filter.zero [] where
  le_last := by simp
  last_mem := Or.inl rfl
  bits := fun x _ => by simp [Filter.zero]

/-- A reset filter tracks the empty list: the window of `0` is block `0`, which
`Reset` cleared. -/
theorem tracks_reset (f : Filter) : Tracks f.reset [] where
  le_last := by simp
  last_mem := Or.inl rfl
  bits := by
    intro x hx
    have hx0 : x / 64 = 0 := by simpa [InWindow, Filter.reset] using hx.2
    have hblock : blockOf x = 0 := Fin.ext (by simp [blockOf, hx0])
    simp [Filter.reset, hblock]

/-- Moving the window past `last` to `counter` leaves the bits of the counters
accepted, all of them at most `last`. -/
theorem advance_bits {f : Filter} {accepted : List Nat} (h : Tracks f accepted) {counter : UInt64}
    (hpast : f.last < counter) :
    BitsTrack
      { last := counter,
        ring := clearBlocks f.ring ((f.last >>> blockBitLog) + 1)
          (if counter >>> blockBitLog - f.last >>> blockBitLog > ringBlocks then ringBlocks
           else counter >>> blockBitLog - f.last >>> blockBitLog).toNat } (· ∈ accepted) := by
  have hlt : f.last.toNat < counter.toNat := UInt64.lt_iff_toNat_lt.mp hpast
  have hc := counter.toNat_lt
  have hcur : (f.last >>> blockBitLog).toNat = f.last.toNat / 64 := toNat_shiftRight_blockBitLog _
  have hidx : (counter >>> blockBitLog).toNat = counter.toNat / 64 := toNat_shiftRight_blockBitLog _
  have hstart : ((f.last >>> blockBitLog) + 1).toNat = f.last.toNat / 64 + 1 := by
    rw [UInt64.toNat_add, hcur, UInt64.toNat_one, Nat.mod_eq_of_lt (by omega)]
  have hdiff : (counter >>> blockBitLog - f.last >>> blockBitLog).toNat =
      counter.toNat / 64 - f.last.toNat / 64 := by
    rw [UInt64.toNat_sub_of_le _ _ (UInt64.le_iff_toNat_le.mpr (by omega)), hidx, hcur]
  have hrb : ringBlocks.toNat = 128 := by decide
  have hcount : (if counter >>> blockBitLog - f.last >>> blockBitLog > ringBlocks then ringBlocks
      else counter >>> blockBitLog - f.last >>> blockBitLog).toNat =
        min (counter.toNat / 64 - f.last.toNat / 64) 128 := by
    split
    · next hgt =>
      have := UInt64.lt_iff_toNat_lt.mp hgt
      rw [hdiff, hrb] at this
      rw [hrb]
      omega
    · next hle =>
      have := UInt64.le_iff_toNat_le.mp (UInt64.not_lt.mp hle)
      rw [hdiff, hrb] at this
      rw [hdiff]
      omega
  intro x hx
  simp only at hx ⊢
  rw [hcount]
  by_cases hnew : f.last.toNat / 64 < x / 64
  · rw [clearBlocks_cleared f.ring (k := (x / 64 - f.last.toNat / 64 - 1) % 128)
      (by rw [hstart]; omega) (by unfold InWindow at hx; omega)
      (by rw [hstart]; simp only [blockOf]; omega)]
    simp only [UInt64.toNat_zero, Nat.zero_testBit, Bool.false_eq_true, false_iff]
    intro hmem
    have := h.le_last x hmem
    omega
  · rw [clearBlocks_kept f.ring (by rw [hstart]; omega)
      (fun k hk => by rw [hstart]; simp only [blockOf]; unfold InWindow at hx; omega)]
    exact h.bits x (by unfold InWindow at hx ⊢; omega)

/-- One call of `ValidateCounter` answers as `Fresh` and keeps the filter holding the
counters accepted. -/
theorem validateCounter_tracks {f : Filter} {accepted : List Nat} (h : Tracks f accepted)
    (counter limit : UInt64) :
    (f.validateCounter counter limit).1 = decide (Fresh accepted counter.toNat limit.toNat) ∧
      Tracks (f.validateCounter counter limit).2 (acceptStep accepted (.validateCounter counter limit)).2 := by
  by_cases hlimit : counter ≥ limit
  · have hnot : ¬Fresh accepted counter.toNat limit.toNat := fun hf =>
      absurd (UInt64.le_iff_toNat_le.mp hlimit) (Nat.not_le.mpr hf.1)
    simp only [Filter.validateCounter, if_pos hlimit, acceptStep, if_neg hnot, decide_eq_false hnot]
    exact ⟨trivial, h⟩
  have hbelow : counter.toNat < limit.toNat := Nat.not_le.mp fun hle =>
    hlimit (UInt64.le_iff_toNat_le.mpr hle)
  by_cases hpast : counter > f.last
  · have hlt : f.last.toNat < counter.toNat := UInt64.lt_iff_toNat_lt.mp hpast
    have hnew : counter.toNat ∉ accepted := fun hmem => by
      have := h.le_last _ hmem
      omega
    have hfresh : Fresh accepted counter.toNat limit.toNat :=
      ⟨hbelow, hnew, fun x hx => by have := h.le_last x hx; omega⟩
    obtain ⟨hanswer, hlast, hbits⟩ := checkAndSet_spec (advance_bits h hpast)
      (show InWindow counter.toNat counter.toNat by unfold InWindow; omega)
    dsimp only at hlast
    simp only [Filter.validateCounter, if_neg hlimit, if_pos hpast, acceptStep, if_pos hfresh,
      decide_eq_true hfresh]
    refine ⟨hanswer.mpr hnew, ⟨?_, ?_, ?_⟩⟩
    · intro x hx
      rw [hlast]
      rcases List.mem_append.mp hx with hx | hx
      · have := h.le_last x hx
        omega
      · rw [List.mem_singleton.mp hx]
    · exact Or.inr (by rw [hlast]; exact List.mem_append_right _ List.mem_cons_self)
    · exact hbits.congr fun x => by simp
  have hle : counter.toNat ≤ f.last.toNat := Nat.not_lt.mp fun hlt =>
    hpast (UInt64.lt_iff_toNat_lt.mpr hlt)
  by_cases hbehind : f.last - counter > windowSize
  · have hgap : 8128 < f.last.toNat - counter.toNat := by
      have := UInt64.lt_iff_toNat_lt.mp hbehind
      rwa [UInt64.toNat_sub_of_le _ _ (UInt64.le_iff_toNat_le.mpr hle)] at this
    have hnot : ¬Fresh accepted counter.toNat limit.toNat := by
      rintro ⟨-, -, hall⟩
      rcases h.last_mem with hzero | hmem
      · rw [hzero] at hgap
        simp at hgap
      · have := hall _ hmem
        simp only [windowSize_toNat] at this
        omega
    simp only [Filter.validateCounter, if_neg hlimit, if_neg hpast, if_pos hbehind, acceptStep,
      if_neg hnot, decide_eq_false hnot]
    exact ⟨trivial, h⟩
  have hgap : f.last.toNat - counter.toNat ≤ 8128 := by
    have := UInt64.le_iff_toNat_le.mp (UInt64.not_lt.mp hbehind)
    rwa [UInt64.toNat_sub_of_le _ _ (UInt64.le_iff_toNat_le.mpr hle)] at this
  have hin := inWindow_of_le hle hgap
  obtain ⟨hanswer, hlast, hbits⟩ := checkAndSet_spec h.bits hin
  have hiff : Fresh accepted counter.toNat limit.toNat ↔ counter.toNat ∉ accepted :=
    ⟨fun hf => hf.2.1, fun hnew => ⟨hbelow, hnew, fun x hx => by
      have := h.le_last x hx
      simp only [windowSize_toNat]
      omega⟩⟩
  simp only [Filter.validateCounter, if_neg hlimit, if_neg hpast, if_neg hbehind, acceptStep]
  refine ⟨by rw [Bool.eq_iff_iff, hanswer, decide_eq_true_iff, hiff], ?_⟩
  split
  · refine ⟨fun x hx => ?_, ?_, hbits.congr fun x => by simp⟩
    · rw [hlast]
      rcases List.mem_append.mp hx with hx | hx
      · exact h.le_last x hx
      · rw [List.mem_singleton.mp hx]
        exact hle
    · rw [hlast]
      rcases h.last_mem with hzero | hmem
      · exact Or.inl hzero
      · exact Or.inr (List.mem_append_left _ hmem)
  · next hnot =>
    have hmem : counter.toNat ∈ accepted := by
      by_contra hnew
      exact hnot (hiff.mpr hnew)
    refine ⟨fun x hx => by rw [hlast]; exact h.le_last x hx, by rw [hlast]; exact h.last_mem, ?_⟩
    exact hbits.congr fun x => ⟨fun hx => hx.elim id (fun heq => heq ▸ hmem), Or.inl⟩

theorem tracks_simulation : IsSimulation Filter.step acceptStep Tracks := by
  intro f accepted op h
  cases op with
  | validateCounter counter limit =>
    obtain ⟨hanswer, htracks⟩ := validateCounter_tracks h counter limit
    refine ⟨?_, htracks⟩
    rw [Filter.step, hanswer, acceptStep]
    split <;> simp_all
  | reset => exact ⟨rfl, tracks_reset f⟩

/-! ## Every run -/

/-- After any run of calls from the empty filter, the filter tracks the counters
accepted since the last reset. -/
theorem tracks_run (ops : List FilterOp) :
    Tracks (run Filter.step Filter.zero ops).2 (run acceptStep [] ops).2 :=
  (tracks_simulation.run ops tracks_zero).2

/-- After any run of calls from the empty filter, `ValidateCounter` accepts exactly
the counters that are fresh for the counters accepted since the last reset. -/
theorem validateCounter_fresh (ops : List FilterOp) (counter limit : UInt64) :
    ((run Filter.step Filter.zero ops).2.validateCounter counter limit).1 =
      decide (Fresh (run acceptStep [] ops).2 counter.toNat limit.toNat) :=
  (validateCounter_tracks (tracks_run ops) counter limit).1

/-- A counter accepted once is refused by every later call until a reset. -/
theorem validateCounter_no_replay (pre mid : List FilterOp) (counter limit limit' : UInt64)
    (hmid : FilterOp.reset ∉ mid)
    (haccepted : ((run Filter.step Filter.zero pre).2.validateCounter counter limit).1 = true) :
    ((run Filter.step Filter.zero (pre ++ .validateCounter counter limit :: mid)).2.validateCounter
        counter limit').1 = false := by
  rw [(validateCounter_tracks (tracks_run pre) counter limit).1] at haccepted
  rw [(validateCounter_tracks (tracks_run _) counter limit').1]
  have hfresh : Fresh (run acceptStep [] pre).2 counter.toNat limit.toNat := of_decide_eq_true haccepted
  have hmem : counter.toNat ∈ (run acceptStep [] (pre ++ .validateCounter counter limit :: mid)).2 := by
    rw [run_append, run_cons]
    apply mem_run_acceptStep _ hmid
    simp [acceptStep, if_pos hfresh]
  exact decide_eq_false fun hf => hf.2.1 hmem

/-- Counter `5` is accepted, counter `7` moves `last` on, and `5` comes again. -/
theorem replayed_counter_refused :
    FilterOp.reset ∉ [FilterOp.validateCounter 7 10] ∧
      ((run Filter.step Filter.zero []).2.validateCounter 5 10).1 = true ∧
      ((run Filter.step Filter.zero [.validateCounter 5 10, .validateCounter 7 10]).2.validateCounter
        5 10).1 = false :=
  ⟨by decide, by decide,
    validateCounter_no_replay [] [.validateCounter 7 10] 5 10 10 (by decide) (by decide)⟩

end Replay
