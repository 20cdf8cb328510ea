import Mathlib

/-!
# Bisection and insertion after equal keys

The bisection loop of a standard library `Search(n, f)`: it keeps `f` false
below `i` and true from `j` on, and returns `i` once the interval is empty.
Fuel is explicit and never runs out, since every round shrinks `[i, j)`.
When `f` has a threshold on `[0, n)` the loop returns it.

Inserting an element at the threshold of "the key of the element at `i` is
above the new key" places it after every element of equal key: that is
`orderedInsert` for the strict order on keys. Insertion sort for `≤` on keys
is the stable sort, and the two insertions commute, so growing a list at its
end grows its stable sort by an after-equal insertion. Keeping only a prefix commutes with the
insertion as well.
-/

namespace SortedInsert

universe u v

/-- One bisection round per unit of fuel, as in the library loop. -/
def searchLoop (f : Nat → Bool) : Nat → Nat → Nat → Nat
  | 0, i, _ => i
  | fuel + 1, i, j =>
    if i < j then
      if f ((i + j) / 2) then searchLoop f fuel i ((i + j) / 2)
      else searchLoop f fuel ((i + j) / 2 + 1) j
    else i

/-- `Search(n, f)`: the width of the interval is enough fuel. -/
def search (n : Nat) (f : Nat → Bool) : Nat := searchLoop f n 0 n

/-- `t` separates the false indices of `f` below `n` from the true ones. -/
def Threshold (f : Nat → Bool) (n t : Nat) : Prop :=
  t ≤ n ∧ ∀ k, k < n → (f k = true ↔ t ≤ k)

/-- The loop invariant: the threshold stays inside `[i, j]`. -/
theorem searchLoop_eq {f : Nat → Bool} {n t : Nat} (ht : Threshold f n t) :
    ∀ fuel i j, j ≤ n → i ≤ t → t ≤ j → j - i ≤ fuel → searchLoop f fuel i j = t := by
  intro fuel
  induction fuel with
  | zero =>
    intro i j _ hi hj hw
    simp only [searchLoop]
    omega
  | succ fuel ih =>
    intro i j hjn hi hj hw
    simp only [searchLoop]
    by_cases hij : i < j
    · have hm : (i + j) / 2 < n := by omega
      have hf := ht.2 _ hm
      rw [if_pos hij]
      by_cases hfm : f ((i + j) / 2) = true
      · rw [if_pos hfm]
        exact ih i _ (by omega) hi (hf.mp hfm) (by omega)
      · rw [if_neg hfm]
        have : (i + j) / 2 < t := by
          by_contra hle
          exact hfm (hf.mpr (by omega))
        exact ih _ j hjn (by omega) hj (by omega)
    · rw [if_neg hij]
      omega

theorem search_eq {f : Nat → Bool} {n t : Nat} (ht : Threshold f n t) : search n f = t :=
  searchLoop_eq ht n 0 n le_rfl (Nat.zero_le t) ht.1 (Nat.sub_le n 0)

section Keys

variable {α : Type u} {β : Type v} [LinearOrder β] (key : α → β)

/-- The after-equal insertion: before the first element of strictly larger key. -/
def insertAfter (x : α) (l : List α) : List α :=
  l.orderedInsert (fun a b => key a < key b) x

/-- The stable sort by key. -/
def stableSort (l : List α) : List α :=
  l.insertionSort (fun a b => key a ≤ key b)

@[simp] theorem insertAfter_nil (x : α) : insertAfter key x [] = [x] := rfl

theorem insertAfter_cons (x b : α) (l : List α) :
    insertAfter key x (b :: l) =
      if key x < key b then x :: b :: l else b :: insertAfter key x l := by
  simp [insertAfter, List.orderedInsert_cons]

@[simp] theorem length_insertAfter (x : α) (l : List α) :
    (insertAfter key x l).length = l.length + 1 :=
  List.orderedInsert_length _ l x

/-- Writing `x` at a threshold of "the key there is above `key x`" is the
after-equal insertion. -/
theorem take_append_drop_eq_insertAfter {x : α} :
    ∀ {l : List α} {t : Nat}, t ≤ l.length →
      (∀ k (hk : k < l.length), key x < key l[k] ↔ t ≤ k) →
      l.take t ++ x :: l.drop t = insertAfter key x l
  | [], t, ht, _ => by
    have : t = 0 := by simpa using ht
    subst this
    rfl
  | b :: l, t, ht, hk => by
    rw [insertAfter_cons]
    by_cases hxb : key x < key b
    · have : t = 0 := by have := (hk 0 (by simp)).mp hxb; omega
      subst this
      simp [hxb]
    · obtain ⟨t, rfl⟩ : ∃ s, t = s + 1 := by
        have : ¬ t ≤ 0 := fun h => hxb ((hk 0 (by simp)).mpr h)
        exact ⟨t - 1, by omega⟩
      rw [if_neg hxb, List.take_succ_cons, List.drop_succ_cons, List.cons_append]
      congr 1
      refine take_append_drop_eq_insertAfter (by simpa using ht) (fun k hk' => ?_)
      have := hk (k + 1) (by simpa using hk')
      simpa using this

/-- A list sorted by key has a threshold for every new key. -/
theorem exists_threshold (x : α) :
    ∀ {l : List α}, l.Pairwise (fun a b => key a ≤ key b) →
      ∃ t ≤ l.length, ∀ k (hk : k < l.length), key x < key l[k] ↔ t ≤ k
  | [], _ => ⟨0, le_rfl, fun k hk => absurd hk (by simp)⟩
  | b :: l, hl => by
    rw [List.pairwise_cons] at hl
    by_cases hxb : key x < key b
    · refine ⟨0, Nat.zero_le _, fun k hk => ?_⟩
      simp only [Nat.zero_le, iff_true]
      cases k with
      | zero => simpa using hxb
      | succ k =>
        have hk2 : k < l.length := by simpa using hk
        have hmem : l[k] ∈ l := List.getElem_mem hk2
        simpa using lt_of_lt_of_le hxb (hl.1 _ hmem)
    · obtain ⟨t, ht, hk⟩ := exists_threshold x hl.2
      refine ⟨t + 1, by simpa using ht, fun k hk' => ?_⟩
      cases k with
      | zero => simpa using hxb
      | succ k => simpa using hk k (by simpa using hk')

/-- Inserting after equals and before smaller keys commute. -/
theorem orderedInsert_insertAfter (a x : α) :
    ∀ l : List α,
      (insertAfter key x l).orderedInsert (fun a b => key a ≤ key b) a =
        insertAfter key x (l.orderedInsert (fun a b => key a ≤ key b) a)
  | [] => by
    by_cases h : key a ≤ key x
    · simp [insertAfter, h, not_lt.mpr h]
    · simp [insertAfter, h, lt_of_not_ge h]
  | b :: l => by
    by_cases hxb : key x < key b
    · by_cases hab : key a ≤ key b
      · by_cases hax : key a ≤ key x
        · simp [insertAfter, hxb, hab, hax, not_lt.mpr hax]
        · simp [insertAfter, hxb, hab, hax, lt_of_not_ge hax]
      · have hax : ¬ key a ≤ key x := fun h => hab (le_trans h (le_of_lt hxb))
        simp [insertAfter, hxb, hab, hax]
    · by_cases hab : key a ≤ key b
      · have hxa : ¬ key x < key a := fun h => hxb (lt_of_lt_of_le h hab)
        simp [insertAfter, hxb, hab, hxa]
      · have ih := orderedInsert_insertAfter a x l
        simp only [insertAfter] at ih
        simp [insertAfter, hxb, hab, ih]

/-- The stable sort of a list grown at its end is an after-equal insertion. -/
theorem stableSort_append_singleton (x : α) :
    ∀ l : List α, stableSort key (l ++ [x]) = insertAfter key x (stableSort key l)
  | [] => rfl
  | a :: l => by
    have ih := stableSort_append_singleton x l
    simp only [stableSort] at ih ⊢
    rw [List.cons_append, List.insertionSort_cons, ih, List.insertionSort_cons,
      orderedInsert_insertAfter]

theorem take_cons_take (b : α) (k : Nat) (l : List α) :
    (b :: l.take k).take k = (b :: l).take k := by
  cases k with
  | zero => rfl
  | succ k => simp [List.take_take]

/-- Keeping the first `k` elements before or after an insertion. -/
theorem take_insertAfter_take (x : α) :
    ∀ (k : Nat) (l : List α), (insertAfter key x (l.take k)).take k = (insertAfter key x l).take k
  | 0, l => by simp
  | _ + 1, [] => by simp
  | k + 1, b :: l => by
    rw [List.take_succ_cons, insertAfter_cons, insertAfter_cons]
    by_cases hxb : key x < key b
    · simp only [hxb, if_true, List.take_succ_cons, take_cons_take]
    · simp only [hxb, if_false, List.take_succ_cons, take_insertAfter_take x k l]

/-- Insertion before the first larger-or-equal key puts the new element
first among those of its key. -/
theorem filter_orderedInsert (a : α) (r : β) :
    ∀ l : List α,
      (l.orderedInsert (fun a b => key a ≤ key b) a).filter (fun c => key c == r) =
        if key a = r then a :: l.filter (fun c => key c == r) else l.filter (fun c => key c == r)
  | [] => by by_cases h : key a = r <;> simp [h]
  | b :: l => by
    rw [List.orderedInsert_cons]
    by_cases hab : key a ≤ key b
    · rw [if_pos hab]
      by_cases h : key a = r <;> simp [h, List.filter_cons]
    · rw [if_neg hab]
      have ih := filter_orderedInsert a r l
      have hba : key b < key a := lt_of_not_ge hab
      by_cases ha : key a = r
      · have hb : ¬ key b = r := fun h => (ne_of_lt hba) (h.trans ha.symm)
        rw [if_pos ha] at ih
        simp [ha, hb, ih]
      · rw [if_neg ha] at ih
        by_cases hb : key b = r <;> simp [ha, hb, ih]

/-- Stability: the elements of one key keep their order. -/
theorem filter_stableSort (r : β) (l : List α) :
    (stableSort key l).filter (fun c => key c == r) = l.filter (fun c => key c == r) := by
  induction l with
  | nil => rfl
  | cons a l ih =>
    simp only [stableSort, List.insertionSort_cons] at ih ⊢
    rw [filter_orderedInsert, ih]
    by_cases h : key a = r <;> simp [h]

/-- In a list sorted by key, a prefix keeps every element of smaller key than
one it keeps. -/
theorem mem_take_of_lt {l : List α} (hs : l.Pairwise (fun a b => key a ≤ key b)) {k : Nat}
    {x y : α} (hy : y ∈ l.take k) (hx : x ∈ l) (hxy : key x < key y) : x ∈ l.take k := by
  obtain ⟨j, hj, rfl⟩ := List.getElem_of_mem hy
  obtain ⟨i, hi, rfl⟩ := List.getElem_of_mem hx
  rw [List.length_take] at hj
  have hij : i < j := by
    by_contra hji
    rcases Nat.lt_or_eq_of_le (Nat.le_of_not_lt hji) with hlt | heq
    · have := List.pairwise_iff_getElem.mp hs j i (by omega) hi hlt
      rw [List.getElem_take] at hxy
      exact absurd hxy (not_lt.mpr this)
    · subst heq
      rw [List.getElem_take] at hxy
      exact lt_irrefl _ hxy
  exact List.mem_iff_getElem.mpr ⟨i, by rw [List.length_take]; omega, by rw [List.getElem_take]⟩

end Keys

end SortedInsert
