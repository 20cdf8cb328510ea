import Vwarp.Lib.Simulation

/-!
# Guarded runs, and projections of their labels

A machine that serves many clients at once labels each of its steps. `keep` reads off
a label the part that concerns one client: the input a second machine, which serves
that client alone, would be given, and the answer it must give. A label projection is
a relation `R` between the states of the two machines such that a step of the first
whose label `keep` reads is matched by a step of the second with that answer, and any
other step leaves the second machine where it is. Along every run whose steps pass a
guard, the client's answers are then the second machine's answers on its own inputs
(`IsLabelProjection.run`); and if each input is at or after a reading `lo` of the
second machine's state that the input then moves to, the inputs come in order
(`IsLabelProjection.run_sorted`).

A guard `ok s a` may read the state a step starts from as well as its input;
`Guarded ok step s as` says that every step of the run passes it. A quantity that no
step lowers and that ends the run below a bound was below it at every step
(`guarded_of_monotone`).
-/

namespace Simulation

variable {σ τ α γ ι β : Type*}

/-- Every step of the run of `as` from `s` passes `ok`. -/
def Guarded (ok : σ → α → Prop) (step : σ → α → γ × σ) : σ → List α → Prop
  | _, [] => True
  | s, a :: as => ok s a ∧ Guarded ok step (step s a).2 as

instance decidableGuarded (ok : σ → α → Prop) [∀ s a, Decidable (ok s a)]
    (step : σ → α → γ × σ) : (s : σ) → (as : List α) → Decidable (Guarded ok step s as)
  | _, [] => isTrue trivial
  | s, a :: as =>
    haveI := decidableGuarded ok step (step s a).2 as
    inferInstanceAs (Decidable (ok s a ∧ Guarded ok step (step s a).2 as))

section Guarded

variable {ok ok' : σ → α → Prop} {step : σ → α → γ × σ}

@[simp] theorem guarded_nil (s : σ) : Guarded ok step s [] := trivial

@[simp] theorem guarded_cons (s : σ) (a : α) (as : List α) :
    Guarded ok step s (a :: as) ↔ ok s a ∧ Guarded ok step (step s a).2 as := Iff.rfl

theorem guarded_append (s : σ) (as bs : List α) :
    Guarded ok step s (as ++ bs) ↔
      Guarded ok step s as ∧ Guarded ok step (run step s as).2 bs := by
  induction as generalizing s with
  | nil => simp
  | cons a as ih => simp [ih, and_assoc]

theorem Guarded.and {s : σ} {as : List α} (h : Guarded ok step s as) (h' : Guarded ok' step s as) :
    Guarded (fun s a => ok s a ∧ ok' s a) step s as := by
  induction as generalizing s with
  | nil => trivial
  | cons a as ih => exact ⟨⟨h.1, h'.1⟩, ih h.2 h'.2⟩

/-- A quantity that no step lowers is no lower at the end of a run than at its start. -/
theorem le_run [Preorder ι] (f : σ → ι) (hmono : ∀ s a, f s ≤ f (step s a).2) :
    ∀ (s : σ) (as : List α), f s ≤ f (run step s as).2
  | _, [] => le_rfl
  | s, a :: as => (hmono s a).trans (le_run f hmono (step s a).2 as)

/-- A quantity that no step lowers, and that ends the run below `bound`, is below
`bound` at every step. -/
theorem guarded_of_monotone [Preorder ι] (f : σ → ι) (hmono : ∀ s a, f s ≤ f (step s a).2)
    {bound : ι} : ∀ (s : σ) (as : List α), f (run step s as).2 < bound →
      Guarded (fun s _ => f s < bound) step s as
  | _, [], _ => trivial
  | s, a :: as, h =>
    ⟨lt_of_le_of_lt (le_run f hmono s (a :: as)) h, guarded_of_monotone f hmono (step s a).2 as h⟩

end Guarded

/-- `R` is a label projection of `step₁` onto `step₂` through `keep`, on the steps that
pass `ok`: a step whose label `keep` maps to an input `i` and an answer `b` is matched
by the second machine's step on `i`, which answers `b`; a step whose label `keep` drops
leaves the second machine where it is. -/
def IsLabelProjection (ok : σ → α → Prop) (keep : γ → Option (ι × β))
    (step₁ : σ → α → γ × σ) (step₂ : τ → ι → β × τ) (R : σ → τ → Prop) : Prop :=
  ∀ s t a, ok s a → R s t →
    (∀ i b, keep (step₁ s a).1 = some (i, b) →
      (step₂ t i).1 = b ∧ R (step₁ s a).2 (step₂ t i).2) ∧
    (keep (step₁ s a).1 = none → R (step₁ s a).2 t)

section Projection

variable {ok : σ → α → Prop} {keep : γ → Option (ι × β)} {step₁ : σ → α → γ × σ}
  {step₂ : τ → ι → β × τ} {R : σ → τ → Prop}

/-- The obligation of one step whose label `keep` reads as `(i₀, b₀)`. -/
theorem step_kept {l : γ} {P : ι → β → Prop} {Q : Prop} {i₀ : ι} {b₀ : β}
    (hk : keep l = some (i₀, b₀)) (hP : P i₀ b₀) :
    (∀ i b, keep l = some (i, b) → P i b) ∧ (keep l = none → Q) := by
  refine ⟨fun i b h => ?_, fun h => ?_⟩
  · rw [hk, Option.some.injEq, Prod.mk.injEq] at h
    obtain ⟨rfl, rfl⟩ := h
    exact hP
  · rw [hk] at h
    cases h

/-- The obligation of one step whose label `keep` drops. -/
theorem step_dropped {l : γ} {P : ι → β → Prop} {Q : Prop} (hk : keep l = none) (hQ : Q) :
    (∀ i b, keep l = some (i, b) → P i b) ∧ (keep l = none → Q) := by
  refine ⟨fun i b h => ?_, fun _ => hQ⟩
  rw [hk] at h
  cases h

/-- Along a guarded run, the kept answers are those the second machine gives to the
kept inputs, and the two machines end related. -/
theorem IsLabelProjection.run (h : IsLabelProjection ok keep step₁ step₂ R) :
    ∀ {s : σ} {t : τ} (as : List α), Guarded ok step₁ s as → R s t →
      ((Simulation.run step₁ s as).1.filterMap keep).map Prod.snd =
          (Simulation.run step₂ t (((Simulation.run step₁ s as).1.filterMap keep).map Prod.fst)).1 ∧
        R (Simulation.run step₁ s as).2
          (Simulation.run step₂ t (((Simulation.run step₁ s as).1.filterMap keep).map Prod.fst)).2 := by
  intro s t as hok hst
  induction as generalizing s t with
  | nil => exact ⟨rfl, hst⟩
  | cons a as ih =>
    obtain ⟨hkeep, hdrop⟩ := h s t a hok.1 hst
    cases hlabel : keep (step₁ s a).1 with
    | none =>
      obtain ⟨hanswers, hend⟩ := ih hok.2 (hdrop hlabel)
      simpa [hlabel] using ⟨hanswers, hend⟩
    | some x =>
      obtain ⟨i, b⟩ := x
      obtain ⟨hanswer, hnext⟩ := hkeep i b hlabel
      obtain ⟨hanswers, hend⟩ := ih hok.2 hnext
      simpa [hlabel, hanswer] using ⟨hanswers, hend⟩

/-- The kept inputs come in order when each is at or after the reading `lo` of the
second machine's state, and the step on it moves that reading to it. -/
theorem IsLabelProjection.run_sorted [Preorder ι] (h : IsLabelProjection ok keep step₁ step₂ R)
    (lo : τ → ι) (hlo : ∀ s t a i b, ok s a → R s t → keep (step₁ s a).1 = some (i, b) →
      lo t ≤ i ∧ lo (step₂ t i).2 = i) :
    ∀ {s : σ} {t : τ} (as : List α), Guarded ok step₁ s as → R s t →
      (lo t :: ((Simulation.run step₁ s as).1.filterMap keep).map Prod.fst).Pairwise (· ≤ ·) := by
  intro s t as hok hst
  induction as generalizing s t with
  | nil => simp
  | cons a as ih =>
    obtain ⟨hkeep, hdrop⟩ := h s t a hok.1 hst
    cases hlabel : keep (step₁ s a).1 with
    | none => simpa [hlabel] using ih hok.2 (hdrop hlabel)
    | some x =>
      obtain ⟨i, b⟩ := x
      obtain ⟨hle, hmoved⟩ := hlo s t a i b hok.1 hst hlabel
      have hrest := ih hok.2 (hkeep i b hlabel).2
      rw [hmoved] at hrest
      have hafter : ∀ j ∈ i :: ((Simulation.run step₁ (step₁ s a).2 as).1.filterMap keep).map Prod.fst,
          lo t ≤ j := by
        rintro j hj
        rcases List.mem_cons.mp hj with rfl | hj
        · exact hle
        · exact hle.trans (List.rel_of_pairwise_cons hrest hj)
      simpa [hlabel] using List.pairwise_cons.mpr ⟨hafter, hrest⟩

end Projection

end Simulation
