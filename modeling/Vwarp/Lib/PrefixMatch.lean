import Mathlib

/-!
# Longest-prefix match

A table maps keys, strings over some alphabet, to values. Looking a string up
answers the value of the longest prefix of the string that has one: this is how
routing tables and firewall rules resolve overlapping prefixes.

`lpm m pre rest` looks up `pre ++ rest` among the prefixes that extend `pre`. It walks
`rest` one symbol at a time, and a longer prefix's value wins over a shorter one's
(`lpm_eq_some_iff`); the whole lookup is `lpm m [] s`. The walk is also how a trie
answers: only the prefixes of the string matter (`lpm_congr`), and levels without a
value are skipped (`lpm_append`).
-/

namespace PrefixMatch

variable {κ α : Type*}

/-- The value of the longest key with one among `pre`, `pre ++ rest.take 1`, …,
`pre ++ rest`. -/
def lpm (m : List κ → Option α) : List κ → List κ → Option α
  | pre, [] => m pre
  | pre, x :: rest => (lpm m (pre ++ [x]) rest).or (m pre)

section Lemmas

variable (m m' : List κ → Option α) {pre q : List κ} {x : κ}

@[simp] theorem lpm_nil (pre : List κ) : lpm m pre [] = m pre := rfl

@[simp] theorem lpm_cons (pre : List κ) (x : κ) (rest : List κ) :
    lpm m pre (x :: rest) = (lpm m (pre ++ [x]) rest).or (m pre) := rfl

omit m in
/-- A prefix of `pre ++ x :: rest` that extends `pre` is `pre` itself or extends `pre ++ [x]`. -/
theorem eq_or_prefix_of_between {rest : List κ} (hpre : pre <+: q) (hq : q <+: pre ++ x :: rest) :
    q = pre ∨ pre ++ [x] <+: q := by
  by_cases hlen : q.length ≤ pre.length
  · exact Or.inl (List.IsPrefix.eq_of_length hpre (le_antisymm hpre.length_le hlen)).symm
  · refine Or.inr (List.prefix_of_prefix_length_le ?_ hq (by simp; omega))
    simp

omit m in
theorem prefix_of_prefix_append_singleton {rest : List κ} (h : q <+: pre ++ [x] ++ rest) :
    q <+: pre ++ x :: rest := by
  simpa using h

/-- Only the keys from `pre` to `pre ++ rest` matter. -/
theorem lpm_congr {rest : List κ} (h : ∀ q, pre <+: q → q <+: pre ++ rest → m q = m' q) :
    lpm m pre rest = lpm m' pre rest := by
  induction rest generalizing pre with
  | nil => exact h pre (List.prefix_refl _) (by simp)
  | cons x rest ih =>
    have hnext : lpm m (pre ++ [x]) rest = lpm m' (pre ++ [x]) rest :=
      ih fun q hq hq' => h q ((List.prefix_append pre [x]).trans hq)
        (prefix_of_prefix_append_singleton hq')
    rw [lpm_cons, lpm_cons, hnext, h pre (List.prefix_refl _) (List.prefix_append _ _)]

/-- No value is found exactly when no key from `pre` to `pre ++ rest` has one. -/
theorem lpm_eq_none_iff {rest : List κ} :
    lpm m pre rest = none ↔ ∀ q, pre <+: q → q <+: pre ++ rest → m q = none := by
  induction rest generalizing pre with
  | nil =>
    refine ⟨fun h q hpre hq => ?_, fun h => h pre (List.prefix_refl _) (by simp)⟩
    rw [List.append_nil] at hq
    rwa [List.IsPrefix.eq_of_length hq (le_antisymm hq.length_le hpre.length_le)]
  | cons x rest ih =>
    rw [lpm_cons, Option.or_eq_none_iff, ih]
    constructor
    · rintro ⟨hnext, hpre⟩ q hq hq'
      rcases eq_or_prefix_of_between hq hq' with rfl | hx
      · exact hpre
      · exact hnext q hx (by simpa using hq')
    · intro h
      exact ⟨fun q hq hq' => h q ((List.prefix_append pre [x]).trans hq)
          (prefix_of_prefix_append_singleton hq'),
        h pre (List.prefix_refl _) (List.prefix_append _ _)⟩

/-- Levels without a value are skipped: when no key from `pre` up to, not including,
`pre ++ mid` has a value, the match goes on from `pre ++ mid`. -/
theorem lpm_append {mid rest : List κ}
    (h : ∀ q, pre <+: q → q <+: pre ++ mid → q.length < (pre ++ mid).length → m q = none) :
    lpm m pre (mid ++ rest) = lpm m (pre ++ mid) rest := by
  induction mid generalizing pre with
  | nil => simp
  | cons x mid ih =>
    have hpre : m pre = none := h pre (List.prefix_refl _) (List.prefix_append _ _) (by simp)
    have hnext : lpm m (pre ++ [x]) (mid ++ rest) = lpm m (pre ++ [x] ++ mid) rest :=
      ih fun q hq hq' hlen => h q ((List.prefix_append pre [x]).trans hq)
        (prefix_of_prefix_append_singleton hq') (by simpa using hlen)
    rw [List.cons_append, lpm_cons, hpre, Option.or_none, hnext, List.append_assoc,
      List.singleton_append]

/-- `lpm` is longest-prefix match: it answers `a` exactly when some key `q` between
`pre` and `pre ++ rest` has the value `a` and no longer key up to `pre ++ rest` has one. -/
theorem lpm_eq_some_iff {rest : List κ} {a : α} :
    lpm m pre rest = some a ↔
      ∃ q, pre <+: q ∧ q <+: pre ++ rest ∧ m q = some a ∧
        ∀ q', q <+: q' → q' <+: pre ++ rest → q' ≠ q → m q' = none := by
  induction rest generalizing pre with
  | nil =>
    constructor
    · intro h
      refine ⟨pre, List.prefix_refl _, by simp, h, fun q' hq' hq'' hne => absurd ?_ hne⟩
      rw [List.append_nil] at hq''
      exact List.IsPrefix.eq_of_length hq'' (le_antisymm hq''.length_le hq'.length_le)
    · rintro ⟨q, hpre, hq, hval, -⟩
      rw [List.append_nil] at hq
      rwa [lpm_nil, ← List.IsPrefix.eq_of_length hq (le_antisymm hq.length_le hpre.length_le)]
  | cons x rest ih =>
    rw [lpm_cons]
    constructor
    · intro h
      cases hnext : lpm m (pre ++ [x]) rest with
      | some b =>
        rw [hnext, Option.some_or] at h
        obtain ⟨q, hq, hq', hval, hlongest⟩ := ih.mp (hnext.trans (congrArg some (Option.some.inj h)))
        refine ⟨q, (List.prefix_append pre [x]).trans hq, prefix_of_prefix_append_singleton hq',
          hval, fun q' h1 h2 hne => hlongest q' h1 (by simpa using h2) hne⟩
      | none =>
        rw [hnext, Option.none_or] at h
        have hnone := (lpm_eq_none_iff m).mp hnext
        refine ⟨pre, List.prefix_refl _, List.prefix_append _ _, h, fun q' h1 h2 hne => ?_⟩
        rcases eq_or_prefix_of_between h1 h2 with heq | hx
        · exact absurd heq hne
        · exact hnone q' hx (by simpa using h2)
    · rintro ⟨q, hpre, hq, hval, hlongest⟩
      rcases eq_or_prefix_of_between hpre hq with rfl | hx
      · have hnone : lpm m (q ++ [x]) rest = none := (lpm_eq_none_iff m).mpr fun q' h1 h2 =>
          hlongest q' ((List.prefix_append q [x]).trans h1) (prefix_of_prefix_append_singleton h2)
            (fun heq => by simpa [heq] using h1.length_le)
        rw [hnone, Option.none_or, hval]
      · have hsome : lpm m (pre ++ [x]) rest = some a :=
          ih.mpr ⟨q, hx, by simpa using hq, hval, fun q' h1 h2 hne =>
            hlongest q' h1 (prefix_of_prefix_append_singleton h2) hne⟩
        rw [hsome, Option.some_or]

end Lemmas

end PrefixMatch
