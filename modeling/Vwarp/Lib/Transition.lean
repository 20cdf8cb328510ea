import Mathlib

/-!
# Runs of a partial transition function

A system steps by `step : σ → α → Option σ`, where `none` says the action is
not enabled, and runs a list of actions with `exec`. An invariant is proved by
one step lemma and lifted to every run by `exec_invariant`, or by
`exec_guarded_invariant` over the runs whose actions all satisfy a guard. A
measure that every step lowers bounds the length of every run
(`exec_length_le`), so no run goes on forever.

Many systems hold a pool of identical components as a list, and a step
updates one slot with `List.set`. A quantity summed over the pool then changes
by the updated slot alone (`sum_map_set`).
-/

namespace Transition

variable {σ α : Type} (step : σ → α → Option σ)

/-- Run the actions in order; `none` as soon as one is not enabled. -/
def exec : σ → List α → Option σ
  | s, [] => some s
  | s, a :: as => (step s a).bind fun s' => exec s' as

@[simp] theorem exec_nil (s : σ) : exec step s [] = some s := rfl

theorem exec_cons_eq_some {s t : σ} {a : α} {as : List α} :
    exec step s (a :: as) = some t ↔ ∃ s', step s a = some s' ∧ exec step s' as = some t := by
  simp [exec, Option.bind_eq_some_iff]

variable {step}

/-- An invariant of the steps whose action passes `ok` holds after every run of such steps. -/
theorem exec_guarded_invariant (ok : α → Prop) {I : σ → Prop}
    (hstep : ∀ s a s', ok a → I s → step s a = some s' → I s') :
    ∀ {as : List α} {s t : σ}, (∀ a ∈ as, ok a) → I s → exec step s as = some t → I t := by
  intro as
  induction as with
  | nil =>
    intro s t _ hs h
    cases h
    exact hs
  | cons a as ih =>
    intro s t hok hs h
    obtain ⟨s', h₁, h₂⟩ := (exec_cons_eq_some step).mp h
    have ha : ok a := hok a List.mem_cons_self
    exact ih (fun b hb => hok b (List.mem_cons_of_mem a hb)) (hstep s a s' ha hs h₁) h₂

theorem exec_invariant {I : σ → Prop} (hstep : ∀ s a s', I s → step s a = some s' → I s')
    {as : List α} {s t : σ} (hs : I s) (h : exec step s as = some t) : I t :=
  exec_guarded_invariant (fun _ => True) (fun s a s' _ => hstep s a s') (fun _ _ => trivial) hs h

/-- A measure lowered by every step from an invariant state bounds the length of a run. -/
theorem exec_length_le {I : σ → Prop} (μ : σ → Nat)
    (hinv : ∀ s a s', I s → step s a = some s' → I s')
    (hμ : ∀ s a s', I s → step s a = some s' → μ s' < μ s) :
    ∀ {as : List α} {s t : σ}, I s → exec step s as = some t → as.length + μ t ≤ μ s := by
  intro as
  induction as with
  | nil =>
    intro s t _ h
    cases h
    simp
  | cons a as ih =>
    intro s t hs h
    obtain ⟨s', h₁, h₂⟩ := (exec_cons_eq_some step).mp h
    have hlt := hμ s a s' hs h₁
    have hrest := ih (hinv s a s' hs h₁) h₂
    simp only [List.length_cons]
    omega

/-- Updating one slot of a pool changes a summed quantity by that slot alone. -/
theorem sum_map_set {α : Type} (f : α → Nat) {l : List α} {i : Nat} {x : α} (y : α)
    (h : l[i]? = some x) : ((l.set i y).map f).sum + f x = (l.map f).sum + f y := by
  obtain ⟨hi, rfl⟩ := List.getElem?_eq_some_iff.mp h
  have hi' : i < (l.map f).length := by simpa using hi
  have hsplit := List.sum_take_add_sum_drop (l.map f) i
  rw [List.map_set, List.sum_set, if_pos hi', ← hsplit, List.drop_eq_getElem_cons hi',
    List.sum_cons, List.getElem_map]
  omega

end Transition
