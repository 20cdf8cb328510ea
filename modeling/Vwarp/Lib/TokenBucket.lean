import Vwarp.Lib.Simulation

/-!
# Token buckets

A token bucket lets requests through at a bounded rate. It earns one token per unit of
time and holds at most `cap` of them; a request that finds more than `cost` tokens is
let through and pays `cost`. A bucket never used is full.

What a bucket is for: over any interval of time, the requests it lets through pay at
most `cap` plus the length of the interval (`count_run_take_window_le`), so it allows a
burst of about `cap / cost` requests and then one per `cost` units of time. The
argument is by potential: `level b t`, the tokens the bucket holds at time `t`, pays
for every request let through (`level_take`) and grows no faster than time passes
(`level_le_level_add`).
-/

namespace TokenBucket

open Simulation

/-- A bucket: the time of its last request and the tokens left after it. -/
structure Bucket where
  last : Int
  tokens : Int
  deriving DecidableEq, Repr

variable (cap cost : Int)

/-- The tokens of `b` at time `now`: those left after its last request and one more per
unit of time since, up to `cap`. A bucket never used is full. -/
def level : Option Bucket → Int → Int
  | none, _ => cap
  | some b, now => min (b.tokens + (now - b.last)) cap

/-- A request at time `now`: let through, paying `cost`, when the bucket holds more than
`cost` tokens. -/
def take (b : Option Bucket) (now : Int) : Bool × Option Bucket :=
  if cost < level cap b now then (true, some ⟨now, level cap b now - cost⟩)
  else (false, some ⟨now, level cap b now⟩)

/-- At clock `c` the bucket holds between none and `cap` tokens and was last used at
`c` or before. -/
def Fits (c : Int) : Option Bucket → Prop
  | none => True
  | some b => 0 ≤ b.tokens ∧ b.tokens ≤ cap ∧ b.last ≤ c

section Level

variable {cap cost} {b : Option Bucket} {c t t' now : Int}

theorem level_le (b : Option Bucket) (now : Int) : level cap b now ≤ cap := by
  cases b with
  | none => exact le_refl cap
  | some b => exact min_le_right _ _

theorem level_nonneg (hcap : 0 ≤ cap) (hb : Fits cap c b) (hc : c ≤ t) : 0 ≤ level cap b t := by
  cases b with
  | none => exact hcap
  | some b =>
    obtain ⟨htokens, -, hlast⟩ := hb
    exact le_min (by omega) hcap

/-- The level grows no faster than time passes. -/
theorem level_le_level_add (h : t ≤ t') : level cap b t' ≤ level cap b t + (t' - t) := by
  cases b with
  | none => simp only [level]; omega
  | some b => simp only [level]; omega

/-- A bucket just used holds what the request left. -/
theorem level_some_self {tokens : Int} (now : Int) (h : tokens ≤ cap) :
    level cap (some ⟨now, tokens⟩) now = tokens := by
  simp [level, h]

/-- A request is paid from the level: what it leaves plus what it paid is what was there. -/
theorem level_take (hcost : 0 ≤ cost) (b : Option Bucket) (now : Int) :
    level cap (take cap cost b now).2 now + (if (take cap cost b now).1 then cost else 0) =
      level cap b now := by
  have hle : level cap b now ≤ cap := level_le b now
  by_cases h : cost < level cap b now
  · simp only [take, if_pos h, if_true]
    rw [level_some_self now (by omega)]
    omega
  · simp only [take, if_neg h, Bool.false_eq_true, if_false]
    rw [level_some_self now hle]
    omega

theorem Fits.mono (hb : Fits cap c b) (h : c ≤ t) : Fits cap t b := by
  cases b with
  | none => trivial
  | some b =>
    obtain ⟨h0, hcap, hlast⟩ := hb
    exact ⟨h0, hcap, hlast.trans h⟩

theorem fits_take (hcap : 0 ≤ cap) (hcost : 0 ≤ cost) (hb : Fits cap c b) (hc : c ≤ t) :
    Fits cap t (take cap cost b t).2 := by
  have h0 := level_nonneg hcap hb hc
  have hle : level cap b t ≤ cap := level_le b t
  by_cases h : cost < level cap b t
  · simp only [take, if_pos h]
    exact ⟨by dsimp only; omega, by dsimp only; omega, le_refl t⟩
  · simp only [take, if_neg h]
    exact ⟨h0, hle, le_refl t⟩

/-- A full bucket stays full. -/
theorem level_eq_cap_of_le (hfull : level cap b c = cap) (h : c ≤ t) : level cap b t = cap := by
  cases b with
  | none => rfl
  | some b =>
    simp only [level] at hfull ⊢
    omega

/-- A full bucket lets a request through when it holds more than one request's cost. -/
theorem take_of_full (hfull : level cap b now = cap) (hcost : cost < cap) :
    take cap cost b now = (true, some ⟨now, cap - cost⟩) := by
  simp [take, hfull, hcost]

/-- An unused bucket lets a request through when it holds more than one request's cost. -/
theorem take_none (hcost : cost < cap) (now : Int) :
    take cap cost none now = (true, some ⟨now, cap - cost⟩) :=
  take_of_full rfl hcost

/-- The time of the bucket's last request, `0` for an unused bucket. -/
def lastUse : Option Bucket → Int
  | none => 0
  | some b => b.last

theorem lastUse_take (b : Option Bucket) (now : Int) : lastUse (take cap cost b now).2 = now := by
  unfold take
  split <;> rfl

theorem lastUse_le (hb : Fits cap c b) (hc : 0 ≤ c) : lastUse b ≤ c := by
  cases b with
  | none => exact hc
  | some b => exact hb.2.2

/-- A bucket fits from its own last request on. -/
theorem Fits.lastUse (hb : Fits cap c b) : Fits cap (lastUse b) b := by
  cases b with
  | none => trivial
  | some b => exact ⟨hb.1, hb.2.1, le_rfl⟩

end Level

/-! ## Runs -/

section Run

variable {cap cost} {b : Option Bucket} {c t1 : Int} {ts : List Int}

/-- A bucket that fits at the start still fits after requests that come in order. -/
theorem fits_run (hcap : 0 ≤ cap) (hcost : 0 ≤ cost) (hclock : (c :: ts).Pairwise (· ≤ ·)) (hb : Fits cap c b)
    (ht1 : ∀ t ∈ c :: ts, t ≤ t1) : Fits cap t1 (run (take cap cost) b ts).2 := by
  induction ts generalizing c b with
  | nil => exact hb.mono (ht1 c List.mem_cons_self)
  | cons t ts ih =>
    have hct : c ≤ t := List.rel_of_pairwise_cons hclock List.mem_cons_self
    exact ih (List.pairwise_cons.mp hclock).2 (fits_take hcap hcost hb hct)
      (fun t' ht' => ht1 t' (List.mem_cons_of_mem c ht'))

theorem count_true_cons (x : Bool) (l : List Bool) :
    ((x :: l).count true : Int) = l.count true + if x then 1 else 0 := by
  cases x <;> simp

/-- The potential argument: the requests let through between `c` and `t1` and the level
left at `t1` together take at most the level at `c` and the time between. -/
theorem count_run_take_add_level_le (cap : Int) (b : Option Bucket) (hcost : 0 ≤ cost) (hclock : (c :: ts).Pairwise (· ≤ ·))
    (ht1 : ∀ t ∈ c :: ts, t ≤ t1) :
    ((run (take cap cost) b ts).1.count true : Int) * cost + level cap (run (take cap cost) b ts).2 t1 ≤
      level cap b c + (t1 - c) := by
  induction ts generalizing c b with
  | nil => simpa using level_le_level_add (b := b) (ht1 c List.mem_cons_self)
  | cons t ts ih =>
    have hct : c ≤ t := List.rel_of_pairwise_cons hclock List.mem_cons_self
    have hrest := ih (b := (take cap cost b t).2) (List.pairwise_cons.mp hclock).2
      (fun t' ht' => ht1 t' (List.mem_cons_of_mem c ht'))
    have hpay : level cap (take cap cost b t).2 t + (if (take cap cost b t).1 then cost else 0) =
        level cap b t := level_take hcost b t
    have hgrow : level cap b t ≤ level cap b c + (t - c) := level_le_level_add hct
    simp only [run_cons, count_true_cons]
    split_ifs at hpay ⊢ with hans
    · rw [add_mul, one_mul]
      linarith
    · rw [add_zero] at hpay ⊢
      linarith

/-- What a token bucket is for: from any bucket that fits at `c`, the requests at times
in a window `[t0, t1]` that it lets through pay at most `cap` plus the length of the
window. -/
theorem count_run_take_window_le (hcap : 0 ≤ cap) (hcost : 0 ≤ cost) {win : List Int} {t0 : Int}
    (hclock : (c :: win).Pairwise (· ≤ ·)) (hb : Fits cap c b)
    (hwin : ∀ t ∈ win, t0 ≤ t ∧ t ≤ t1) (h01 : t0 ≤ t1) :
    ((run (take cap cost) b win).1.count true : Int) * cost ≤ cap + (t1 - t0) := by
  cases win with
  | nil => simp; omega
  | cons t ts =>
    have hct : c ≤ t := List.rel_of_pairwise_cons hclock List.mem_cons_self
    have hrest := (List.pairwise_cons.mp hclock).2
    have hwinclock : (t :: t :: ts).Pairwise (· ≤ ·) := by
      refine List.pairwise_cons.mpr ⟨fun x hx => ?_, hrest⟩
      rcases List.mem_cons.mp hx with rfl | hx
      · exact le_refl x
      · exact List.rel_of_pairwise_cons hrest hx
    have hwin' : ∀ t' ∈ t :: t :: ts, t' ≤ t1 := fun t' ht' => by
      rcases List.mem_cons.mp ht' with rfl | ht'
      · exact (hwin t' List.mem_cons_self).2
      · exact (hwin t' ht').2
    have hbound := count_run_take_add_level_le cap b hcost hwinclock hwin'
    have hend := level_nonneg hcap (fits_run hcap hcost hwinclock (hb.mono hct) hwin') (le_refl t1)
    have hstart : level cap b t ≤ cap := level_le _ t
    have ht0 := (hwin t List.mem_cons_self).1
    omega

end Run

end TokenBucket
