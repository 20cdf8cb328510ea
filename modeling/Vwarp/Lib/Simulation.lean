import Mathlib

/-!
# Machines that answer their inputs, and simulations between them

A machine in state `s` answers an input `a` and moves on: `step s a = (b, s')`.
`run` feeds it a list of inputs and collects the answers. A relation between the
states of two machines is a simulation when paired steps from related states give
the same answer and end in related states; then the two machines give the same
answers on every run (`IsSimulation.run`). An invariant kept by every step holds
after every run (`run_invariant`).
-/

namespace Simulation

variable {σ τ α β : Type*}

/-- The answers to the inputs `as`, in order, and the state after them. -/
def run (step : σ → α → β × σ) : σ → List α → List β × σ
  | s, [] => ([], s)
  | s, a :: as => ((step s a).1 :: (run step (step s a).2 as).1, (run step (step s a).2 as).2)

section Run

variable (step : σ → α → β × σ)

@[simp] theorem run_nil (s : σ) : run step s [] = ([], s) := rfl

@[simp] theorem run_cons (s : σ) (a : α) (as : List α) :
    run step s (a :: as) =
      ((step s a).1 :: (run step (step s a).2 as).1, (run step (step s a).2 as).2) := rfl

/-- Running two lists in a row: the answers of the first, then those of the second
from where the first left off. -/
theorem run_append (s : σ) (as bs : List α) :
    run step s (as ++ bs) =
      ((run step s as).1 ++ (run step (run step s as).2 bs).1, (run step (run step s as).2 bs).2) := by
  induction as generalizing s with
  | nil => rfl
  | cons a as ih => simp [ih]

/-- A property of states that every step keeps holds after every run. -/
theorem run_invariant {I : σ → Prop} (hstep : ∀ s a, I s → I (step s a).2) :
    ∀ {s : σ} (as : List α), I s → I (run step s as).2 := by
  intro s as hs
  induction as generalizing s with
  | nil => exact hs
  | cons a as ih => exact ih (hstep s a hs)

end Run

/-- `R` is a simulation between `step₁` and `step₂`: from related states, a step on
the same input gives the same answer and related states. -/
def IsSimulation (step₁ : σ → α → β × σ) (step₂ : τ → α → β × τ) (R : σ → τ → Prop) : Prop :=
  ∀ s t a, R s t → (step₁ s a).1 = (step₂ t a).1 ∧ R (step₁ s a).2 (step₂ t a).2

/-- `R` is a simulation on the inputs `ok` admits. -/
def IsSimulationOn (ok : α → Prop) (step₁ : σ → α → β × σ) (step₂ : τ → α → β × τ)
    (R : σ → τ → Prop) : Prop :=
  ∀ s t a, ok a → R s t → (step₁ s a).1 = (step₂ t a).1 ∧ R (step₁ s a).2 (step₂ t a).2

/-- A simulation on the inputs `ok` admits holds along every run of such inputs. -/
theorem IsSimulationOn.run {ok : α → Prop} {step₁ : σ → α → β × σ} {step₂ : τ → α → β × τ}
    {R : σ → τ → Prop} (hsim : IsSimulationOn ok step₁ step₂ R) :
    ∀ {s : σ} {t : τ} (as : List α), (∀ a ∈ as, ok a) → R s t →
      (Simulation.run step₁ s as).1 = (Simulation.run step₂ t as).1 ∧
        R (Simulation.run step₁ s as).2 (Simulation.run step₂ t as).2 := by
  intro s t as hok hst
  induction as generalizing s t with
  | nil => exact ⟨rfl, hst⟩
  | cons a as ih =>
    obtain ⟨hanswer, hnext⟩ := hsim s t a (hok a List.mem_cons_self) hst
    obtain ⟨hanswers, hend⟩ := ih (fun b hb => hok b (List.mem_cons_of_mem a hb)) hnext
    refine ⟨?_, hend⟩
    simp only [run_cons, hanswer, hanswers]

/-- A simulation holds along every run, and the answers agree at every input. -/
theorem IsSimulation.run {step₁ : σ → α → β × σ} {step₂ : τ → α → β × τ} {R : σ → τ → Prop}
    (hsim : IsSimulation step₁ step₂ R) :
    ∀ {s : σ} {t : τ} (as : List α), R s t →
      (Simulation.run step₁ s as).1 = (Simulation.run step₂ t as).1 ∧
        R (Simulation.run step₁ s as).2 (Simulation.run step₂ t as).2 := by
  intro s t as hst
  induction as generalizing s t with
  | nil => exact ⟨rfl, hst⟩
  | cons a as ih =>
    obtain ⟨hanswer, hnext⟩ := hsim s t a hst
    obtain ⟨hanswers, hend⟩ := ih hnext
    refine ⟨?_, hend⟩
    simp only [run_cons, hanswer, hanswers]

end Simulation
