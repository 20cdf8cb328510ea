import Mathlib
import Vwarp.Noize.Obfuscate
import Vwarp.Lib.Transition

/-!
# The handshake sequences under concurrent writes

`ObfuscateWrite` touches the per-destination map in two critical sections
under `n.mu`. The first creates a destination's state and starts the
pre-handshake sequence; the second, reached by a 1-RTT packet, sets
`postSent` and starts the post-handshake junk. What runs between and after
them reads only the configuration and the packet, so a run of concurrent
calls is an interleaving of these sections, one atomic step each. A call
with an empty packet returns before the first section, and one whose Initial
packet is fragmented returns after it.

The calls are fixed, each a packet and its destination key; `phases` says
where each call is. The goroutines the sections start are recorded, with the
call that started them, in `spawned`.
-/

namespace MasqueNoize

open Transition

/-- Where a call is: before its first section, between the two, or returned. -/
inductive Phase where
  | start
  | beforePost
  | returned
  deriving DecidableEq, Repr

/-- A goroutine a section starts, with its destination and the call that
started it. -/
inductive Spawn (K : Type) where
  | preHandshake (key : K) (call : Nat)
  | postHandshake (key : K) (call : Nat)
  deriving DecidableEq, Repr

structure Writes (K : Type) where
  noize : Noize K
  /-- The packet and destination key of each call. -/
  calls : List (List UInt8 × K)
  phases : Nat → Phase := fun _ => .start
  spawned : List (Spawn K) := []

variable {K : Type} [DecidableEq K]

/-- Where a call goes after its first section: an Initial packet that is
fragmented returns, and only a 1-RTT packet reaches the second section. -/
def afterFirst (c : NoizeConfig) (packet : List UInt8) : Phase :=
  if splitsInitial c packet then .returned
  else if detectQUICPacketType packet = .oneRTT then .beforePost else .returned

/-- One atomic step of call `i`: its next critical section, with the code
that runs up to the section after it. -/
def Writes.step (w : Writes K) (i : Nat) : Option (Writes K) :=
  match w.calls[i]? with
  | none => none
  | some (packet, key) =>
    match w.phases i with
    | .returned => none
    | .start =>
      if packet = [] then some { w with phases := Function.update w.phases i .returned }
      else
        let first := markFirst w.noize key
        some { noize := first.1, calls := w.calls,
               phases := Function.update w.phases i (afterFirst first.1.config packet),
               spawned := if first.2 then w.spawned ++ [.preHandshake key i] else w.spawned }
    | .beforePost =>
      let post := markPost w.noize key .oneRTT
      some { noize := post.1, calls := w.calls,
             phases := Function.update w.phases i .returned,
             spawned := if post.2 then w.spawned ++ [.postHandshake key i] else w.spawned }

def Spawn.isPre (k : K) : Spawn K → Bool
  | .preHandshake k' _ => k' == k
  | .postHandshake .. => false

def Spawn.isPost (k : K) : Spawn K → Bool
  | .preHandshake .. => false
  | .postHandshake k' _ => k' == k

/-- How many pre-handshake sequences were started for `k`. -/
def Writes.preCount (w : Writes K) (k : K) : Nat := w.spawned.countP (Spawn.isPre k)

/-- How many post-handshake sequences were started for `k`. -/
def Writes.postCount (w : Writes K) (k : K) : Nat := w.spawned.countP (Spawn.isPost k)

/-- Whether the state of `k` has `postSent`. -/
def postSentOf (m : K → Option HandshakeState) (k : K) : Bool :=
  match m k with
  | some st => st.postSent
  | none => false

@[simp] theorem setState_self (m : K → Option HandshakeState) (k : K) (st : HandshakeState) :
    setState m k st k = some st := by
  simp [setState]

theorem setState_ne (m : K → Option HandshakeState) {k k' : K} (h : k' ≠ k) (st : HandshakeState) :
    setState m k st k' = m k' := by
  simp [setState, h]

theorem markFirst_of_none {n : Noize K} {key : K} (h : n.hsState key = none) :
    markFirst n key = ({ n with hsState := setState n.hsState key { initialSeen := true } }, true) := by
  simp [markFirst, h]

theorem markFirst_of_some {n : Noize K} {key : K} {st : HandshakeState} (h : n.hsState key = some st) :
    markFirst n key = (n, false) := by
  simp [markFirst, h]

theorem markPost_fresh {n : Noize K} {key : K} {st : HandshakeState} (h : n.hsState key = some st)
    (hp : st.postSent = false) :
    markPost n key .oneRTT =
      ({ n with hsState := setState n.hsState key { st with postSent := true } }, true) := by
  simp [markPost, h, hp]

theorem markPost_sent {n : Noize K} {key : K} {st : HandshakeState} (h : n.hsState key = some st)
    (hp : st.postSent = true) : markPost n key .oneRTT = (n, false) := by
  simp [markPost, h, hp]

theorem afterFirst_ne_start (c : NoizeConfig) (packet : List UInt8) : afterFirst c packet ≠ .start := by
  unfold afterFirst
  split
  · simp
  · split <;> simp

/-- Only a non-empty packet reaches the second section. -/
theorem afterFirst_ne_nil {c : NoizeConfig} {p : List UInt8} (h : afterFirst c p = .beforePost) : p ≠ [] := by
  rintro rfl
  simp [afterFirst, splitsInitial, detectQUICPacketType] at h

@[simp] theorem countP_isPre_append_pre (l : List (Spawn K)) (key k : K) (i : Nat) :
    (l ++ [Spawn.preHandshake key i]).countP (Spawn.isPre k) = l.countP (Spawn.isPre k) + if key = k then 1 else 0 := by
  simp [List.countP_append, Spawn.isPre]

@[simp] theorem countP_isPre_append_post (l : List (Spawn K)) (key k : K) (i : Nat) :
    (l ++ [Spawn.postHandshake key i]).countP (Spawn.isPre k) = l.countP (Spawn.isPre k) := by
  simp [List.countP_append, Spawn.isPre]

@[simp] theorem countP_isPost_append_pre (l : List (Spawn K)) (key k : K) (i : Nat) :
    (l ++ [Spawn.preHandshake key i]).countP (Spawn.isPost k) = l.countP (Spawn.isPost k) := by
  simp [List.countP_append, Spawn.isPost]

@[simp] theorem countP_isPost_append_post (l : List (Spawn K)) (key k : K) (i : Nat) :
    (l ++ [Spawn.postHandshake key i]).countP (Spawn.isPost k) = l.countP (Spawn.isPost k) + if key = k then 1 else 0 := by
  simp [List.countP_append, Spawn.isPost]


/-- What one step can do: an empty packet returns, a first section marks the
destination, a second section marks its post-handshake. -/
theorem Writes.step_cases {w w' : Writes K} {i : Nat} (h : w.step i = some w') :
    ∃ p k, w.calls[i]? = some (p, k) ∧
      ((w.phases i = .start ∧ p = [] ∧ w' = { w with phases := Function.update w.phases i .returned }) ∨
       (w.phases i = .start ∧ p ≠ [] ∧
          w' = { noize := (markFirst w.noize k).1, calls := w.calls,
                 phases := Function.update w.phases i (afterFirst w.noize.config p),
                 spawned := if (markFirst w.noize k).2 then w.spawned ++ [.preHandshake k i]
                   else w.spawned }) ∨
       (w.phases i = .beforePost ∧
          w' = { noize := (markPost w.noize k .oneRTT).1, calls := w.calls,
                 phases := Function.update w.phases i .returned,
                 spawned := if (markPost w.noize k .oneRTT).2 then w.spawned ++ [.postHandshake k i]
                   else w.spawned })) := by
  unfold Writes.step at h
  split at h
  · cases h
  · rename_i p k hcall
    refine ⟨p, k, hcall, ?_⟩
    split at h
    · cases h
    · rename_i hphase
      by_cases hp : p = []
      · rw [if_pos hp] at h
        exact .inl ⟨hphase, hp, (Option.some.inj h).symm⟩
      · rw [if_neg hp] at h
        refine .inr (.inl ⟨hphase, hp, ?_⟩)
        rw [← Option.some.inj h, markFirst_config]
    · rename_i hphase
      exact .inr (.inr ⟨hphase, (Option.some.inj h).symm⟩)


/-- What the map and the started goroutines say about the calls, at every
point of a run: a destination has a state once one of its calls with a
non-empty packet has passed the first section, and `postSent` once one of its
1-RTT calls has passed the second; each sequence was started once, when its
flag was set. -/
structure Consistent (w : Writes K) : Prop where
  pre : ∀ k, w.preCount k = if (w.noize.hsState k).isSome then 1 else 0
  post : ∀ k, w.postCount k = if postSentOf w.noize.hsState k then 1 else 0
  seen : ∀ i p k, w.calls[i]? = some (p, k) → w.phases i ≠ .start → p ≠ [] →
    (w.noize.hsState k).isSome
  created : ∀ k, (w.noize.hsState k).isSome →
    ∃ i p, w.calls[i]? = some (p, k) ∧ p ≠ [] ∧ w.phases i ≠ .start
  toPost : ∀ i p k, w.calls[i]? = some (p, k) → w.phases i = .beforePost →
    p ≠ [] ∧ afterFirst w.noize.config p = .beforePost
  posted : ∀ k, postSentOf w.noize.hsState k →
    ∃ i p, w.calls[i]? = some (p, k) ∧ p ≠ [] ∧ afterFirst w.noize.config p = .beforePost ∧
      w.phases i = .returned
  postDone : ∀ i p k, w.calls[i]? = some (p, k) → w.phases i = .returned → p ≠ [] →
    afterFirst w.noize.config p = .beforePost → postSentOf w.noize.hsState k

theorem update_ne_start {f : Nat → Phase} {i j : Nat} {v : Phase} (hv : v ≠ .start)
    (h : f j ≠ .start) : Function.update f i v j ≠ .start := by
  by_cases hji : j = i
  · subst hji
    simpa using hv
  · simpa [Function.update_of_ne hji] using h

/-- A call that has left the first section is not the one just stepped from it. -/
theorem update_of_phase_ne {f : Nat → Phase} {i j : Nat} {v : Phase} (h : f j ≠ f i) :
    Function.update f i v j = f j := by
  apply Function.update_of_ne
  rintro rfl
  exact h rfl

theorem Consistent.skip {w : Writes K} {i : Nat} {k : K} (hw : Consistent w)
    (hcall : w.calls[i]? = some ([], k)) (hphase : w.phases i = .start) :
    Consistent { w with phases := Function.update w.phases i .returned } where
  pre := hw.pre
  post := hw.post
  seen := by
    intro j p k' hj hph hp
    dsimp only at hph
    by_cases hji : j = i
    · subst hji
      rw [hcall] at hj
      cases hj
      exact absurd rfl hp
    · exact hw.seen j p k' hj (by rwa [Function.update_of_ne hji] at hph) hp
  created := by
    intro k' hk
    obtain ⟨j, p, hj, hp, hph⟩ := hw.created k' hk
    exact ⟨j, p, hj, hp, update_ne_start (by simp) hph⟩
  toPost := by
    intro j p k' hj hph
    dsimp only at hph
    by_cases hji : j = i
    · subst hji
      simp at hph
    · exact hw.toPost j p k' hj (by rwa [Function.update_of_ne hji] at hph)
  posted := by
    intro k' hk
    obtain ⟨j, p, hj, hp, hafter, hph⟩ := hw.posted k' hk
    refine ⟨j, p, hj, hp, hafter, ?_⟩
    show Function.update w.phases i .returned j = .returned
    rw [update_of_phase_ne (by rw [hph, hphase]; simp), hph]
  postDone := by
    intro j p k' hj hph hp hafter
    dsimp only at hph
    by_cases hji : j = i
    · subst hji
      rw [hcall] at hj
      cases hj
      exact absurd rfl hp
    · exact hw.postDone j p k' hj (by rwa [Function.update_of_ne hji] at hph) hp hafter


omit [DecidableEq K] in
theorem ne_start_of_update {f : Nat → Phase} {i j : Nat} {v : Phase} (hi : f i ≠ .start)
    (h : Function.update f i v j ≠ .start) : f j ≠ .start := by
  by_cases hji : j = i
  · subst hji
    exact hi
  · rwa [Function.update_of_ne hji] at h

theorem postSentOf_setState (m : K → Option HandshakeState) (k : K) (st : HandshakeState) (k' : K) :
    postSentOf (setState m k st) k' = if k' = k then st.postSent else postSentOf m k' := by
  by_cases hk : k' = k
  · subst hk
    simp [postSentOf]
  · simp [postSentOf, setState_ne m hk, hk]

theorem isSome_setState_iff (m : K → Option HandshakeState) (k : K) (st : HandshakeState) (k' : K) :
    (setState m k st k').isSome ↔ k' = k ∨ (m k').isSome := by
  by_cases hk : k' = k
  · subst hk
    simp
  · simp [setState_ne m hk, hk]

/-- The first section of a call to a destination with no state yet. -/
theorem Consistent.first_new {w : Writes K} {i : Nat} {p : List UInt8} {k : K} (hw : Consistent w)
    (hcall : w.calls[i]? = some (p, k)) (hphase : w.phases i = .start) (hp : p ≠ [])
    (hnone : w.noize.hsState k = none) :
    Consistent { noize := { w.noize with hsState := setState w.noize.hsState k { initialSeen := true } },
                 calls := w.calls,
                 phases := Function.update w.phases i (afterFirst w.noize.config p),
                 spawned := w.spawned ++ [Spawn.preHandshake k i] } where
  pre := by
    intro k'
    have hpre := hw.pre k'
    unfold Writes.preCount at hpre ⊢
    dsimp only
    rw [countP_isPre_append_pre]
    by_cases hk : k' = k
    · subst hk
      simp_all
    · simp [setState_ne _ hk, Ne.symm hk, hpre]
  post := by
    intro k'
    have hpost := hw.post k'
    unfold Writes.postCount at hpost ⊢
    dsimp only
    rw [countP_isPost_append_pre]
    by_cases hk : k' = k
    · subst hk
      simp_all [postSentOf]
    · simp [postSentOf_setState, hk, hpost]
  seen := by
    intro j p' k' hj hph hp'
    dsimp only at hj hph ⊢
    rw [isSome_setState_iff]
    by_cases hji : j = i
    · subst hji
      cases hcall.symm.trans hj
      exact .inl rfl
    · exact .inr (hw.seen j p' k' hj (by rwa [Function.update_of_ne hji] at hph) hp')
  created := by
    intro k' hk'
    dsimp only at hk' ⊢
    rw [isSome_setState_iff] at hk'
    rcases hk' with rfl | hk'
    · exact ⟨i, p, hcall, hp, by simpa using afterFirst_ne_start w.noize.config p⟩
    · obtain ⟨j, p', hj, hp', hph⟩ := hw.created k' hk'
      exact ⟨j, p', hj, hp', update_ne_start (afterFirst_ne_start _ _) hph⟩
  toPost := by
    intro j p' k' hj hph
    dsimp only at hj hph ⊢
    by_cases hji : j = i
    · subst hji
      cases hcall.symm.trans hj
      simp only [Function.update_self] at hph
      exact ⟨hp, hph⟩
    · exact hw.toPost j p' k' hj (by rwa [Function.update_of_ne hji] at hph)
  posted := by
    intro k' hk'
    dsimp only at hk' ⊢
    rw [postSentOf_setState] at hk'
    by_cases hk : k' = k
    · simp [hk] at hk'
    · rw [if_neg hk] at hk'
      obtain ⟨j, p', hj, hp', hafter, hph⟩ := hw.posted k' hk'
      refine ⟨j, p', hj, hp', hafter, ?_⟩
      rw [update_of_phase_ne (by rw [hph, hphase]; simp), hph]
  postDone := by
    intro j p' k' hj hph hp' hafter
    dsimp only at hj hph hafter ⊢
    by_cases hji : j = i
    · subst hji
      cases hcall.symm.trans hj
      simp only [Function.update_self] at hph
      rw [hph] at hafter
      cases hafter
    · have hold := hw.postDone j p' k' hj (by rwa [Function.update_of_ne hji] at hph) hp' hafter
      rw [postSentOf_setState]
      by_cases hk : k' = k
      · subst hk
        simp [postSentOf, hnone] at hold
      · rwa [if_neg hk]

/-- The first section of a call to a destination that has a state. -/
theorem Consistent.first_known {w : Writes K} {i : Nat} {p : List UInt8} {k : K} {st : HandshakeState}
    (hw : Consistent w) (hcall : w.calls[i]? = some (p, k)) (hphase : w.phases i = .start)
    (hst : w.noize.hsState k = some st) :
    Consistent { w with phases := Function.update w.phases i (afterFirst w.noize.config p) } where
  pre := hw.pre
  post := hw.post
  seen := by
    intro j p' k' hj hph hp'
    dsimp only at hj hph ⊢
    by_cases hji : j = i
    · subst hji
      cases hcall.symm.trans hj
      simp [hst]
    · exact hw.seen j p' k' hj (by rwa [Function.update_of_ne hji] at hph) hp'
  created := by
    intro k' hk'
    obtain ⟨j, p', hj, hp', hph⟩ := hw.created k' hk'
    exact ⟨j, p', hj, hp', update_ne_start (afterFirst_ne_start _ _) hph⟩
  toPost := by
    intro j p' k' hj hph
    dsimp only at hj hph ⊢
    by_cases hji : j = i
    · subst hji
      cases hcall.symm.trans hj
      simp only [Function.update_self] at hph
      exact ⟨afterFirst_ne_nil hph, hph⟩
    · exact hw.toPost j p' k' hj (by rwa [Function.update_of_ne hji] at hph)
  posted := by
    intro k' hk'
    obtain ⟨j, p', hj, hp', hafter, hph⟩ := hw.posted k' hk'
    refine ⟨j, p', hj, hp', hafter, ?_⟩
    show Function.update w.phases i _ j = .returned
    rw [update_of_phase_ne (by rw [hph, hphase]; simp), hph]
  postDone := by
    intro j p' k' hj hph hp' hafter
    dsimp only at hj hph hafter ⊢
    by_cases hji : j = i
    · subst hji
      cases hcall.symm.trans hj
      simp only [Function.update_self] at hph
      rw [hph] at hafter
      cases hafter
    · exact hw.postDone j p' k' hj (by rwa [Function.update_of_ne hji] at hph) hp' hafter


/-- The second section of the first 1-RTT call to reach it for a destination. -/
theorem Consistent.second_fresh {w : Writes K} {i : Nat} {p : List UInt8} {k : K} {st : HandshakeState}
    (hw : Consistent w) (hcall : w.calls[i]? = some (p, k)) (hphase : w.phases i = .beforePost)
    (hst : w.noize.hsState k = some st) (hfresh : st.postSent = false) :
    Consistent { noize := { w.noize with hsState := setState w.noize.hsState k { st with postSent := true } },
                 calls := w.calls,
                 phases := Function.update w.phases i .returned,
                 spawned := w.spawned ++ [Spawn.postHandshake k i] } where
  pre := by
    intro k'
    have hpre := hw.pre k'
    unfold Writes.preCount at hpre ⊢
    dsimp only
    rw [countP_isPre_append_post, hpre]
    by_cases hk : k' = k
    · subst hk
      simp [hst]
    · simp [setState_ne _ hk]
  post := by
    intro k'
    have hpost := hw.post k'
    unfold Writes.postCount at hpost ⊢
    dsimp only
    rw [countP_isPost_append_post, hpost, postSentOf_setState]
    by_cases hk : k' = k
    · subst hk
      simp [postSentOf, hst, hfresh]
    · simp [hk, Ne.symm hk]
  seen := by
    intro j p' k' hj hph hp'
    dsimp only at hj hph ⊢
    rw [isSome_setState_iff]
    exact .inr (hw.seen j p' k' hj (ne_start_of_update (by simp [hphase]) hph) hp')
  created := by
    intro k' hk'
    dsimp only at hk' ⊢
    rw [isSome_setState_iff] at hk'
    have hold : (w.noize.hsState k').isSome := by
      rcases hk' with rfl | hk'
      · simp [hst]
      · exact hk'
    obtain ⟨j, p', hj, hp', hph⟩ := hw.created k' hold
    exact ⟨j, p', hj, hp', update_ne_start (by simp) hph⟩
  toPost := by
    intro j p' k' hj hph
    dsimp only at hj hph ⊢
    by_cases hji : j = i
    · subst hji
      simp at hph
    · exact hw.toPost j p' k' hj (by rwa [Function.update_of_ne hji] at hph)
  posted := by
    intro k' hk'
    dsimp only at hk' ⊢
    rw [postSentOf_setState] at hk'
    by_cases hk : k' = k
    · subst hk
      obtain ⟨hp, hafter⟩ := hw.toPost i p k' hcall hphase
      exact ⟨i, p, hcall, hp, hafter, by simp⟩
    · rw [if_neg hk] at hk'
      obtain ⟨j, p', hj, hp', hafter, hph⟩ := hw.posted k' hk'
      refine ⟨j, p', hj, hp', hafter, ?_⟩
      rw [update_of_phase_ne (by rw [hph, hphase]; simp), hph]
  postDone := by
    intro j p' k' hj hph hp' hafter
    dsimp only at hj hph hafter ⊢
    rw [postSentOf_setState]
    by_cases hji : j = i
    · subst hji
      cases hcall.symm.trans hj
      simp
    · have hold := hw.postDone j p' k' hj (by rwa [Function.update_of_ne hji] at hph) hp' hafter
      by_cases hk : k' = k
      · simp [hk]
      · rwa [if_neg hk]

/-- The second section of a 1-RTT call to a destination whose post-handshake
has started. -/
theorem Consistent.second_sent {w : Writes K} {i : Nat} {p : List UInt8} {k : K} {st : HandshakeState}
    (hw : Consistent w) (hcall : w.calls[i]? = some (p, k)) (hphase : w.phases i = .beforePost)
    (hst : w.noize.hsState k = some st) (hsent : st.postSent = true) :
    Consistent { w with phases := Function.update w.phases i .returned } where
  pre := hw.pre
  post := hw.post
  seen := by
    intro j p' k' hj hph hp'
    exact hw.seen j p' k' hj (ne_start_of_update (by simp [hphase]) hph) hp'
  created := by
    intro k' hk'
    obtain ⟨j, p', hj, hp', hph⟩ := hw.created k' hk'
    exact ⟨j, p', hj, hp', update_ne_start (by simp) hph⟩
  toPost := by
    intro j p' k' hj hph
    dsimp only at hj hph ⊢
    by_cases hji : j = i
    · subst hji
      simp at hph
    · exact hw.toPost j p' k' hj (by rwa [Function.update_of_ne hji] at hph)
  posted := by
    intro k' hk'
    obtain ⟨j, p', hj, hp', hafter, hph⟩ := hw.posted k' hk'
    refine ⟨j, p', hj, hp', hafter, ?_⟩
    show Function.update w.phases i _ j = .returned
    rw [update_of_phase_ne (by rw [hph, hphase]; simp), hph]
  postDone := by
    intro j p' k' hj hph hp' hafter
    dsimp only at hj hph hafter ⊢
    by_cases hji : j = i
    · subst hji
      cases hcall.symm.trans hj
      simp [postSentOf, hst, hsent]
    · exact hw.postDone j p' k' hj (by rwa [Function.update_of_ne hji] at hph) hp' hafter


/-- The calls before any has run, on an obfuscator with an empty map. -/
theorem Consistent.init (n : Noize K) (hn : ∀ k, n.hsState k = none) (calls : List (List UInt8 × K)) :
    Consistent ({ noize := n, calls := calls } : Writes K) where
  pre := by simp [Writes.preCount, hn]
  post := by simp [Writes.postCount, postSentOf, hn]
  seen := by simp
  created := by simp [hn]
  toPost := by simp
  posted := by simp [postSentOf, hn]
  postDone := by simp

theorem Consistent.step {w w' : Writes K} {i : Nat} (hw : Consistent w) (h : w.step i = some w') :
    Consistent w' := by
  obtain ⟨p, k, hcall, ⟨hphase, rfl, rfl⟩ | ⟨hphase, hp, rfl⟩ | ⟨hphase, rfl⟩⟩ := Writes.step_cases h
  · exact hw.skip hcall hphase
  · cases hst : w.noize.hsState k with
    | none =>
      rw [markFirst_of_none hst]
      exact hw.first_new hcall hphase hp hst
    | some st =>
      rw [markFirst_of_some hst]
      exact hw.first_known hcall hphase hst
  · have hseen := hw.seen i p k hcall (by simp [hphase]) (hw.toPost i p k hcall hphase).1
    obtain ⟨st, hst⟩ := Option.isSome_iff_exists.mp hseen
    cases hsent : st.postSent with
    | false =>
      rw [markPost_fresh hst hsent]
      exact hw.second_fresh hcall hphase hst hsent
    | true =>
      rw [markPost_sent hst hsent]
      exact hw.second_sent hcall hphase hst hsent

theorem Consistent.exec {w w' : Writes K} {sched : List Nat} (hw : Consistent w)
    (h : exec Writes.step w sched = some w') : Consistent w' :=
  exec_invariant (fun _ _ _ hs hstep => hs.step hstep) hw h


/-- Every flag set in `a` is set in `b`. -/
def HandshakeState.Le (a b : HandshakeState) : Prop :=
  (a.preSent → b.preSent) ∧ (a.duringSent → b.duringSent) ∧ (a.postSent → b.postSent) ∧
    (a.initialSeen → b.initialSeen)

theorem HandshakeState.le_refl (a : HandshakeState) : a.Le a :=
  ⟨id, id, id, id⟩

theorem HandshakeState.Le.trans {a b c : HandshakeState} (hab : a.Le b) (hbc : b.Le c) : a.Le c :=
  ⟨hbc.1 ∘ hab.1, hbc.2.1 ∘ hab.2.1, hbc.2.2.1 ∘ hab.2.2.1, hbc.2.2.2 ∘ hab.2.2.2⟩

/-- From `m` to `m'` no destination loses its state and no flag goes from
true to false. -/
def FlagsLe (m m' : K → Option HandshakeState) : Prop :=
  ∀ k st, m k = some st → ∃ st', m' k = some st' ∧ st.Le st'

omit [DecidableEq K] in
theorem FlagsLe.refl (m : K → Option HandshakeState) : FlagsLe m m :=
  fun _ st hk => ⟨st, hk, st.le_refl⟩

omit [DecidableEq K] in
theorem FlagsLe.trans {m₁ m₂ m₃ : K → Option HandshakeState} (h₁₂ : FlagsLe m₁ m₂)
    (h₂₃ : FlagsLe m₂ m₃) : FlagsLe m₁ m₃ := by
  intro k st hk
  obtain ⟨st₂, hk₂, hle₂⟩ := h₁₂ k st hk
  obtain ⟨st₃, hk₃, hle₃⟩ := h₂₃ k st₂ hk₂
  exact ⟨st₃, hk₃, hle₂.trans hle₃⟩

theorem markFirst_flagsLe (n : Noize K) (key : K) : FlagsLe n.hsState (markFirst n key).1.hsState := by
  intro k st hk
  cases hkey : n.hsState key with
  | none =>
    have hne : k ≠ key := by
      rintro rfl
      rw [hkey] at hk
      cases hk
    rw [markFirst_of_none hkey]
    exact ⟨st, by simpa [setState_ne _ hne] using hk, st.le_refl⟩
  | some _ =>
    rw [markFirst_of_some hkey]
    exact ⟨st, hk, st.le_refl⟩

theorem markPost_flagsLe (n : Noize K) (key : K) (t : QUICPacketType) :
    FlagsLe n.hsState (markPost n key t).1.hsState := by
  intro k st hk
  by_cases ht : t = .oneRTT
  · subst ht
    cases hkey : n.hsState key with
    | none => exact ⟨st, by simpa [markPost, hkey] using hk, st.le_refl⟩
    | some st₀ =>
      cases hsent : st₀.postSent with
      | true =>
        rw [markPost_sent hkey hsent]
        exact ⟨st, hk, st.le_refl⟩
      | false =>
        rw [markPost_fresh hkey hsent]
        by_cases hk' : k = key
        · subst hk'
          rw [hkey] at hk
          cases hk
          exact ⟨_, setState_self _ _ _, id, id, fun _ => rfl, id⟩
        · exact ⟨st, by simpa [setState_ne _ hk'] using hk, st.le_refl⟩
  · exact ⟨st, by simpa [markPost, ht] using hk, st.le_refl⟩

theorem Writes.step_flagsLe {w w' : Writes K} {i : Nat} (h : w.step i = some w') :
    FlagsLe w.noize.hsState w'.noize.hsState := by
  obtain ⟨p, k, -, ⟨-, -, rfl⟩ | ⟨-, -, rfl⟩ | ⟨-, rfl⟩⟩ := Writes.step_cases h
  · exact FlagsLe.refl _
  · exact markFirst_flagsLe w.noize k
  · exact markPost_flagsLe w.noize k .oneRTT

/-- A step changes neither the calls nor the configuration. -/
theorem Writes.step_frame {w w' : Writes K} {i : Nat} (h : w.step i = some w') :
    w'.calls = w.calls ∧ w'.noize.config = w.noize.config := by
  obtain ⟨p, k, -, ⟨-, -, rfl⟩ | ⟨-, -, rfl⟩ | ⟨-, rfl⟩⟩ := Writes.step_cases h
  · exact ⟨rfl, rfl⟩
  · exact ⟨rfl, markFirst_config w.noize k⟩
  · exact ⟨rfl, markPost_config w.noize k .oneRTT⟩

theorem Writes.exec_frame {w w' : Writes K} {sched : List Nat} (h : exec Writes.step w sched = some w') :
    w'.calls = w.calls ∧ w'.noize.config = w.noize.config :=
  exec_invariant (I := fun v => v.calls = w.calls ∧ v.noize.config = w.noize.config)
    (fun _ _ _ hs hstep => ⟨(Writes.step_frame hstep).1.trans hs.1, (Writes.step_frame hstep).2.trans hs.2⟩)
    ⟨rfl, rfl⟩ h


/-- How far a call is from returning: its sections still to run. -/
def Phase.rank : Phase → Nat
  | .start => 2
  | .beforePost => 1
  | .returned => 0

/-- The sections all calls still have to run. -/
def Writes.pending (w : Writes K) : Nat := ∑ j ∈ Finset.range w.calls.length, (w.phases j).rank

/-- Moving one call to a later phase lowers the sections left. -/
theorem sum_rank_update_lt {f : Nat → Phase} {i n : Nat} (hi : i < n) {v : Phase}
    (hv : v.rank < (f i).rank) :
    ∑ j ∈ Finset.range n, (Function.update f i v j).rank < ∑ j ∈ Finset.range n, (f j).rank := by
  apply Finset.sum_lt_sum
  · intro j _
    by_cases hji : j = i
    · subst hji
      simpa using hv.le
    · rw [Function.update_of_ne hji]
  · exact ⟨i, Finset.mem_range.mpr hi, by simpa using hv⟩

theorem Writes.step_pending_lt {w w' : Writes K} {i : Nat} (h : w.step i = some w') :
    w'.pending < w.pending := by
  obtain ⟨p, k, hcall, ⟨hphase, -, rfl⟩ | ⟨hphase, -, rfl⟩ | ⟨hphase, rfl⟩⟩ := Writes.step_cases h
  all_goals
    have hi : i < w.calls.length := (List.getElem?_eq_some_iff.mp hcall).1
    apply sum_rank_update_lt hi
  · simp [hphase, Phase.rank]
  · rw [hphase]
    cases hafter : afterFirst w.noize.config p with
    | start => exact absurd hafter (afterFirst_ne_start _ _)
    | beforePost => simp [Phase.rank]
    | returned => simp [Phase.rank]
  · simp [hphase, Phase.rank]

/-- No run is longer than two steps a call. -/
theorem Writes.exec_length_le {w w' : Writes K} {sched : List Nat}
    (h : exec Writes.step w sched = some w') : sched.length + w'.pending ≤ w.pending :=
  Transition.exec_length_le (I := fun _ => True) Writes.pending (fun _ _ _ _ _ => trivial)
    (fun _ _ _ _ hstep => Writes.step_pending_lt hstep) trivial h

/-- Every call has returned. -/
def Writes.Complete (w : Writes K) : Prop := ∀ i < w.calls.length, w.phases i = .returned

instance (w : Writes K) : Decidable w.Complete :=
  inferInstanceAs (Decidable (∀ i < w.calls.length, w.phases i = .returned))

/-- A call that has not returned can take its next section. -/
theorem Writes.step_isSome {w : Writes K} {i : Nat} (hi : i < w.calls.length)
    (hph : w.phases i ≠ .returned) : ∃ w', w.step i = some w' := by
  unfold Writes.step
  rw [List.getElem?_eq_getElem hi]
  cases hphase : w.phases i with
  | returned => exact absurd hphase hph
  | start =>
    dsimp only
    split <;> exact ⟨_, rfl⟩
  | beforePost => exact ⟨_, rfl⟩

/-- Whatever has run so far, the calls can all be run to their return. -/
theorem Writes.exists_complete (w : Writes K) :
    ∃ sched w', exec Writes.step w sched = some w' ∧ w'.Complete := by
  induction hμ : w.pending using Nat.strong_induction_on generalizing w with
  | _ μ ih =>
    by_cases hall : w.Complete
    · exact ⟨[], w, rfl, hall⟩
    · obtain ⟨i, hi, hph⟩ : ∃ i < w.calls.length, w.phases i ≠ .returned := by
        simpa [Writes.Complete] using hall
      obtain ⟨w₁, h₁⟩ := Writes.step_isSome hi hph
      obtain ⟨sched, w', hrun, hdone⟩ := ih w₁.pending (hμ ▸ Writes.step_pending_lt h₁) w₁ rfl
      exact ⟨i :: sched, w', (exec_cons_eq_some _).mpr ⟨w₁, h₁, hrun⟩, hdone⟩


theorem Consistent.count_le {w : Writes K} (hw : Consistent w) (k : K) :
    w.preCount k ≤ 1 ∧ w.postCount k ≤ 1 := by
  rw [hw.pre k, hw.post k]
  constructor <;> split <;> simp

/-- A destination has a state exactly when one of its calls with a non-empty
packet has passed the first section. -/
theorem Consistent.isSome_iff {w : Writes K} (hw : Consistent w) (k : K) :
    (w.noize.hsState k).isSome ↔ ∃ j p, w.calls[j]? = some (p, k) ∧ p ≠ [] ∧ w.phases j ≠ .start := by
  constructor
  · exact hw.created k
  · rintro ⟨j, p, hj, hp, hph⟩
    exact hw.seen j p k hj hph hp

/-- A destination has `postSent` exactly when one of its 1-RTT calls has
returned. -/
theorem Consistent.postSentOf_iff {w : Writes K} (hw : Consistent w) (k : K) :
    postSentOf w.noize.hsState k ↔
      ∃ j p, w.calls[j]? = some (p, k) ∧ afterFirst w.noize.config p = .beforePost ∧
        w.phases j = .returned := by
  constructor
  · intro hk
    obtain ⟨j, p, hj, -, hafter, hph⟩ := hw.posted k hk
    exact ⟨j, p, hj, hafter, hph⟩
  · rintro ⟨j, p, hj, hafter, hph⟩
    exact hw.postDone j p k hj hph (afterFirst_ne_nil hafter) hafter


/-- The goroutines one step starts: the first section of a non-empty call to a
destination with no state starts the pre-handshake, the second section of a
call whose destination has no `postSent` starts the post-handshake, and no
step starts more than one. -/
theorem Consistent.step_spawned {w w' : Writes K} {i : Nat} {p : List UInt8} {k : K}
    (hw : Consistent w) (h : w.step i = some w') (hcall : w.calls[i]? = some (p, k)) :
    (w'.spawned = w.spawned ++ [Spawn.preHandshake k i] ↔
      w.phases i = .start ∧ p ≠ [] ∧ w.noize.hsState k = none) ∧
    (w'.spawned = w.spawned ++ [Spawn.postHandshake k i] ↔
      w.phases i = .beforePost ∧ postSentOf w.noize.hsState k = false) ∧
    (w'.spawned = w.spawned ∨ w'.spawned = w.spawned ++ [Spawn.preHandshake k i] ∨
      w'.spawned = w.spawned ++ [Spawn.postHandshake k i]) := by
  obtain ⟨p₀, k₀, hcall₀, hcases⟩ := Writes.step_cases h
  cases hcall.symm.trans hcall₀
  rcases hcases with ⟨hphase, rfl, rfl⟩ | ⟨hphase, hp, rfl⟩ | ⟨hphase, rfl⟩
  · simp [hphase]
  · cases hst : w.noize.hsState k with
    | none =>
      rw [markFirst_of_none hst]
      simp [hphase, hp]
    | some st =>
      rw [markFirst_of_some hst]
      simp [hphase]
  · have hseen := hw.seen i p k hcall (by simp [hphase]) (hw.toPost i p k hcall hphase).1
    obtain ⟨st, hst⟩ := Option.isSome_iff_exists.mp hseen
    cases hsent : st.postSent with
    | false =>
      rw [markPost_fresh hst hsent]
      simp [hphase, postSentOf, hst, hsent]
    | true =>
      rw [markPost_sent hst hsent]
      simp [hphase, postSentOf, hst, hsent]


omit [DecidableEq K] in
theorem Writes.Complete.returned {w : Writes K} (hc : w.Complete) {j : Nat} {x : List UInt8 × K}
    (hj : w.calls[j]? = some x) : w.phases j = .returned :=
  hc j (List.getElem?_eq_some_iff.mp hj).1

omit [DecidableEq K] in
/-- Once every call has returned, a call in any phase a returned call is in
is a call. -/
theorem Writes.Complete.exists_call_iff {w : Writes K} (hc : w.Complete) (k : K)
    (P : List UInt8 → Prop) (Q : Phase → Prop) (hQ : Q .returned) :
    (∃ j p, w.calls[j]? = some (p, k) ∧ P p ∧ Q (w.phases j)) ↔ ∃ p, (p, k) ∈ w.calls ∧ P p := by
  constructor
  · rintro ⟨j, p, hj, hp, -⟩
    exact ⟨p, List.mem_iff_getElem?.mpr ⟨j, hj⟩, hp⟩
  · rintro ⟨p, hmem, hp⟩
    obtain ⟨j, hj⟩ := List.mem_iff_getElem?.mp hmem
    exact ⟨j, p, hj, hp, (hc.returned hj) ▸ hQ⟩

/-- Concurrent writes start the pre-handshake sequence of a destination once,
on the first of its non-empty packets to take the lock, and never for a
destination all of whose packets are empty; they start the post-handshake
sequence at most once, on the first of its 1-RTT packets to take the lock
the second time; and no state or flag of the map is ever lost. Every run can
be finished, and when every call has returned, the destinations with a
pre-handshake are those with a non-empty packet and those with a
post-handshake those with a 1-RTT packet. -/
theorem handshake_sequences_once (n : Noize K) (hn : ∀ k, n.hsState k = none)
    (calls : List (List UInt8 × K)) (sched : List Nat) (w : Writes K)
    (hrun : exec Writes.step { noize := n, calls := calls } sched = some w) :
    (∀ k, w.preCount k ≤ 1 ∧ w.postCount k ≤ 1) ∧
    (∀ i w' p k, w.step i = some w' → calls[i]? = some (p, k) →
      FlagsLe w.noize.hsState w'.noize.hsState ∧
      (w'.spawned = w.spawned ∨ w'.spawned = w.spawned ++ [Spawn.preHandshake k i] ∨
        w'.spawned = w.spawned ++ [Spawn.postHandshake k i]) ∧
      (w'.spawned = w.spawned ++ [Spawn.preHandshake k i] ↔
        w.phases i = .start ∧ p ≠ [] ∧
          ∀ j p', calls[j]? = some (p', k) → p' ≠ [] → w.phases j = .start) ∧
      (w'.spawned = w.spawned ++ [Spawn.postHandshake k i] ↔
        w.phases i = .beforePost ∧
          ∀ j p', calls[j]? = some (p', k) → afterFirst n.config p' = .beforePost →
            w.phases j ≠ .returned)) ∧
    (∃ sched' w', exec Writes.step w sched' = some w' ∧ w'.Complete) ∧
    (w.Complete → ∀ k, (w.preCount k = 1 ↔ ∃ p, (p, k) ∈ calls ∧ p ≠ []) ∧
      (w.postCount k = 1 ↔ ∃ p, (p, k) ∈ calls ∧ afterFirst n.config p = .beforePost)) := by
  have hw : Consistent w := (Consistent.init n hn calls).exec hrun
  obtain ⟨hcalls, hconfig⟩ : w.calls = calls ∧ w.noize.config = n.config := Writes.exec_frame hrun
  refine ⟨hw.count_le, ?_, w.exists_complete, ?_⟩
  · intro i w' p k hstep hcall
    rw [← hcalls] at hcall
    obtain ⟨hpre, hpost, hone⟩ := hw.step_spawned hstep hcall
    refine ⟨Writes.step_flagsLe hstep, hone, ?_, ?_⟩
    · rw [hpre, ← Option.not_isSome_iff_eq_none, hw.isSome_iff, hcalls]
      push Not
      rfl
    · rw [hpost, Bool.eq_false_iff, ne_eq, hw.postSentOf_iff, hcalls, hconfig]
      push Not
      rfl
  · intro hdone k
    constructor
    · rw [hw.pre k, ite_eq_left_iff, hw.isSome_iff, ← hcalls,
        ← hdone.exists_call_iff k (· ≠ []) (· ≠ .start) (by simp)]
      simp
    · rw [hw.post k, ite_eq_left_iff, hw.postSentOf_iff, ← hcalls, ← hconfig,
        ← hdone.exists_call_iff k (afterFirst w.noize.config · = .beforePost) (· = .returned) rfl]
      simp


/-- Two 1-RTT writes to one destination, each run to its return, one after
the other: one pre-handshake and one post-handshake. -/
theorem handshake_sequences_two_writes :
    let w₀ : Writes Nat := { noize := ⟨defaultConfig, true, fun _ => none⟩, calls := [([0x40], 7), ([0x40], 7)] }
    let w := (exec Writes.step w₀ [0, 0, 1, 1]).getD w₀
    w.preCount 7 = 1 ∧ w.postCount 7 = 1 := by
  intro w₀ w
  have hdone : w.Complete := by decide
  obtain ⟨-, -, -, hfinal⟩ :=
    handshake_sequences_once ⟨defaultConfig, true, fun _ => none⟩ (fun _ => rfl)
      [([0x40], 7), ([0x40], 7)] [0, 0, 1, 1] w rfl
  constructor
  · exact ((hfinal hdone 7).1).mpr ⟨[0x40], by simp⟩
  · exact ((hfinal hdone 7).2).mpr ⟨[0x40], by simp, by decide⟩

/-- A destination whose only write is an empty packet gets no pre-handshake,
although its write returns: the call leaves before the first section. When a
destination's first write is empty and a later one is not, the pre-handshake
starts on the later packet. -/
theorem empty_write_no_preHandshake :
    ∃ w, exec Writes.step
        ({ noize := ⟨defaultConfig, true, fun _ => none⟩, calls := [([], 7)] } : Writes Nat) [0] = some w ∧
      w.Complete ∧ w.preCount 7 = 0 :=
  ⟨_, rfl, by decide, rfl⟩

end MasqueNoize
