import Mathlib

/-!
# Fallible steps

A model of code that can fail returns `Except`. These lemmas evaluate `bind`
and `map` on a known outcome and invert a successful composite into its
parts, so a proof about a chain of fallible steps peels it with `obtain` and
never unfolds the chain. A sequence of guards, each returning its error when
its condition holds, is a chain of `failIf`; it succeeds exactly when no
condition holds.
-/

namespace ExceptStep

universe u v w

variable {ε : Type u} {α β : Type v}

@[simp] theorem bind_ok (a : α) (f : α → Except ε β) : (Except.ok a).bind f = f a := rfl

@[simp] theorem bind_error (e : ε) (f : α → Except ε β) :
    (Except.error e : Except ε α).bind f = .error e := rfl

/-- The same for the monad's `>>=`, as `foldlM` and `mapM` unfold to. -/
@[simp] theorem ok_bind (a : α) (f : α → Except ε β) : (Except.ok a >>= f) = f a := rfl

@[simp] theorem map_ok (a : α) (f : α → β) : (Except.ok a : Except ε α).map f = .ok (f a) := rfl

@[simp] theorem map_error (e : ε) (f : α → β) :
    (Except.error e : Except ε α).map f = .error e := rfl

theorem bind_eq_ok {x : Except ε α} {f : α → Except ε β} {b : β} :
    x.bind f = .ok b ↔ ∃ a, x = .ok a ∧ f a = .ok b := by
  cases x with
  | error e => simp
  | ok a => simp

theorem map_eq_ok {x : Except ε α} {f : α → β} {b : β} :
    x.map f = .ok b ↔ ∃ a, x = .ok a ∧ f a = b := by
  cases x with
  | error e => simp
  | ok a => simp

/-- A guard: the error `e` when `bad` holds. -/
def failIf {ε : Type} (bad : Prop) [Decidable bad] (e : ε) : Except ε Unit :=
  if bad then .error e else .ok ()

theorem failIf_ok {ε : Type} {bad : Prop} [Decidable bad] {e : ε} :
    failIf bad e = .ok () ↔ ¬bad := by
  unfold failIf
  split <;> simp_all

theorem unit_bind_eq_ok {ε β : Type} {x : Except ε Unit} {k : Unit → Except ε β} {b : β} :
    (x >>= k) = .ok b ↔ x = .ok () ∧ k () = .ok b := by
  cases x with
  | error e => simp [bind, Except.bind]
  | ok u => simp [bind, Except.bind]

theorem mapError_eq_ok {ε ε' α : Type} {x : Except ε α} {f : ε → ε'} {a : α} :
    x.mapError f = .ok a ↔ x = .ok a := by
  cases x with
  | error e => simp [Except.mapError]
  | ok u => simp [Except.mapError]

theorem toOption_bind (x : Except ε α) (k : α → Except ε β) :
    (x >>= k).toOption = x.toOption.bind fun a => (k a).toOption := by
  cases x <;> rfl

/-- Two `mapM`s whose steps succeed together, with the same values, succeed
together with the same list, whatever their errors. -/
theorem mapM_toOption {ε' : Type u} {f : α → Except ε β} {g : α → Except ε' β}
    (l : List α) (h : ∀ x ∈ l, (f x).toOption = (g x).toOption) :
    (l.mapM f).toOption = (l.mapM g).toOption := by
  induction l with
  | nil => rfl
  | cons a l ih =>
    obtain ⟨ha, hrest⟩ := List.forall_mem_cons.mp h
    simp only [List.mapM_cons, toOption_bind, ha, ih hrest]
    rfl

end ExceptStep
