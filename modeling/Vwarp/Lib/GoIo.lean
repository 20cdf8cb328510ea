import Mathlib

/-!
# Readers

Go's `io.Reader` as a function `rd : σ → Nat → Chunk σ` on the state of a
source: a `Read` with a buffer of length `n` returns the bytes it copied,
whether it returned an error, and the state after. `flat s` is the stream the
source still holds.

A source is `Faithful` when each read returns a prefix of its stream and keeps
the rest, and `Live` on the states satisfying `good` when moreover a read of a
positive length returns at most that many bytes, fails exactly at the end of
the stream, and otherwise returns at least one byte (a TCP connection does, a
reader returning `0, nil` does not). `io.ReadFull` and the one-byte reads of
the SOCKS code are defined here over any source, with the laws that over a
live source they return the front of the stream and leave the rest.
-/

namespace GoIo

structure Chunk (σ : Type) where
  data : List UInt8
  err : Bool
  rest : σ

section Source

variable {σ : Type} (rd : σ → Nat → Chunk σ) (flat : σ → List UInt8)

def Faithful : Prop := ∀ s n, (rd s n).data ++ flat (rd s n).rest = flat s

structure Live (good : σ → Prop) : Prop where
  faithful : Faithful rd flat
  good_rest : ∀ s n, good s → good (rd s n).rest
  length_le : ∀ s n, good s → (rd s n).data.length ≤ n
  err_iff : ∀ s n, good s → 0 < n → ((rd s n).err = true ↔ flat s = [])
  progress : ∀ s n, good s → 0 < n → flat s ≠ [] → (rd s n).data ≠ []

/-- The loop of `io.ReadAtLeast(r, buf, len(buf))` for `k` more bytes; a live
source needs at most `k` reads, the fuel. -/
def readFullLoop : Nat → σ → Nat → Option (List UInt8 × σ)
  | _, s, 0 => some ([], s)
  | 0, _, _ + 1 => none
  | fuel + 1, s, k + 1 =>
    let c := rd s (k + 1)
    if c.err then (if k + 1 ≤ c.data.length then some (c.data, c.rest) else none)
    else (readFullLoop fuel c.rest (k + 1 - c.data.length)).map fun r => (c.data ++ r.1, r.2)

/-- `io.ReadFull(r, buf)` with `len(buf) = n`. -/
def readFull (s : σ) (n : Nat) : Option (List UInt8 × σ) := readFullLoop rd n s n

/-- The reads of `io.CopyBuffer(dst, src, buf)` with `len(buf) = n`: the
bytes it copies until a read returns an error (write errors left out). -/
def copyLoop (n : Nat) : Nat → σ → List UInt8
  | 0, _ => []
  | fuel + 1, s =>
    let c := rd s n
    if c.err then c.data else c.data ++ copyLoop n fuel c.rest

/-- `r.Read(buf[:1])` followed by `buf[0]`, as the SOCKS code reads single
bytes: a read that returns no byte and no error leaves the zero byte. -/
def readByte (s : σ) : Option (UInt8 × σ) :=
  let c := rd s 1
  if c.err then none else some (c.data.headD 0, c.rest)

end Source

/-! ## Two sources -/

/-- A stream as a TCP connection delivers it, in segments: a read returns the
front of the first segment, at most the buffer's length, and the end of the
stream after the last segment. -/
def segmentsRead : List (List UInt8) → Nat → Chunk (List (List UInt8))
  | [], _ => ⟨[], true, []⟩
  | seg :: rest, n =>
    if seg.length ≤ n then ⟨seg, false, rest⟩ else ⟨seg.take n, false, seg.drop n :: rest⟩

/-- `bytes.Buffer.Read`. -/
def bufferRead (s : List UInt8) (n : Nat) : Chunk (List UInt8) :=
  if s = [] then ⟨[], decide (n ≠ 0), []⟩ else ⟨s.take n, false, s.drop n⟩

/-- Go's `copy(dst, src)`: as much of `src` as fits overwrites the front of
`dst`, and the rest of `dst` keeps its old bytes. -/
def copy {α : Type} (dst src : List α) : List α := src.take dst.length ++ dst.drop src.length

@[simp] theorem length_copy {α : Type} (dst src : List α) : (copy dst src).length = dst.length := by
  simp only [copy, List.length_append, List.length_take, List.length_drop]
  omega

theorem copy_of_length_le {α : Type} {dst src : List α} (h : src.length ≤ dst.length) :
    copy dst src = src ++ dst.drop src.length := by
  rw [copy, List.take_of_length_le h]

theorem take_copy {α : Type} {dst src : List α} (h : src.length ≤ dst.length) :
    (copy dst src).take src.length = src := by
  rw [copy_of_length_le h, List.take_left' rfl]

/-! ## Reading the front of a live stream -/

section Laws

variable {σ : Type} {rd : σ → Nat → Chunk σ} {flat : σ → List UInt8} {good : σ → Prop}

theorem Live.rest_nil_of_err (hl : Live rd flat good) {s : σ} {n : Nat} (hs : good s)
    (hn : 0 < n) (he : (rd s n).err = true) : flat (rd s n).rest = [] := by
  have hnil : flat s = [] := (hl.err_iff s n hs hn).mp he
  have hc := hl.faithful s n
  rw [hnil] at hc
  exact (List.append_eq_nil_iff.mp hc).2

theorem readByte_some (hl : Live rd flat good) {s s' : σ} {b : UInt8} (hs : good s)
    (h : readByte rd s = some (b, s')) : flat s = b :: flat s' ∧ good s' := by
  by_cases he : (rd s 1).err = true
  · simp [readByte, he] at h
  · simp only [readByte, he, Bool.false_eq_true, ↓reduceIte, Option.some.injEq,
      Prod.mk.injEq] at h
    obtain ⟨rfl, rfl⟩ := h
    have hne : flat s ≠ [] := fun hnil =>
      he ((hl.err_iff s 1 hs Nat.one_pos).mpr hnil)
    have hd := hl.progress s 1 hs Nat.one_pos hne
    have hlen := hl.length_le s 1 hs
    obtain ⟨x, hx⟩ : ∃ x, (rd s 1).data = [x] := by
      match hdx : (rd s 1).data, hd, hlen with
      | [x], _, _ => exact ⟨x, rfl⟩
      | _ :: _ :: _, _, hlen => simp at hlen
    refine ⟨?_, hl.good_rest s 1 hs⟩
    rw [← hl.faithful s 1, hx]
    rfl

theorem readByte_cons (hl : Live rd flat good) {s : σ} {b : UInt8} {t : List UInt8}
    (hs : good s) (hst : flat s = b :: t) :
    ∃ s', readByte rd s = some (b, s') ∧ flat s' = t ∧ good s' := by
  have hne : flat s ≠ [] := by simp [hst]
  have he : (rd s 1).err = false := by
    cases h : (rd s 1).err
    · rfl
    · exact absurd ((hl.err_iff s 1 hs Nat.one_pos).mp h) hne
  have hsome : readByte rd s = some ((rd s 1).data.headD 0, (rd s 1).rest) := by
    simp [readByte, he]
  obtain ⟨hflat, hgood⟩ := readByte_some hl hs hsome
  rw [hst] at hflat
  obtain ⟨hb, ht⟩ := List.cons.inj hflat
  exact ⟨(rd s 1).rest, hb ▸ hsome, ht.symm, hgood⟩

theorem readFullLoop_some (hl : Live rd flat good) (fuel : Nat) {s s' : σ} {k : Nat}
    {d : List UInt8} (hs : good s) (h : readFullLoop rd fuel s k = some (d, s')) :
    flat s = d ++ flat s' ∧ d.length = k ∧ good s' := by
  induction fuel generalizing s k d with
  | zero =>
    cases k with
    | zero =>
      simp only [readFullLoop, Option.some.injEq, Prod.mk.injEq] at h
      obtain ⟨rfl, rfl⟩ := h
      exact ⟨rfl, rfl, hs⟩
    | succ k => simp [readFullLoop] at h
  | succ fuel ih =>
    cases k with
    | zero =>
      simp only [readFullLoop, Option.some.injEq, Prod.mk.injEq] at h
      obtain ⟨rfl, rfl⟩ := h
      exact ⟨rfl, rfl, hs⟩
    | succ k =>
      have hc := hl.faithful s (k + 1)
      have hlen := hl.length_le s (k + 1) hs
      simp only [readFullLoop] at h
      split at h
      · split at h
        · simp only [Option.some.injEq, Prod.mk.injEq] at h
          obtain ⟨rfl, rfl⟩ := h
          exact ⟨hc.symm, by omega, hl.good_rest s (k + 1) hs⟩
        · cases h
      · obtain ⟨⟨d', s''⟩, hr, hd⟩ := Option.map_eq_some_iff.mp h
        simp only [Prod.mk.injEq] at hd
        obtain ⟨rfl, rfl⟩ := hd
        obtain ⟨hflat, hlen', hgood⟩ := ih (hl.good_rest s (k + 1) hs) hr
        refine ⟨?_, ?_, hgood⟩
        · rw [← hc, hflat, List.append_assoc]
        · simp only [List.length_append, hlen']
          omega

theorem readFull_some (hl : Live rd flat good) {s s' : σ} {n : Nat} {d : List UInt8}
    (hs : good s) (h : readFull rd s n = some (d, s')) :
    flat s = d ++ flat s' ∧ d.length = n ∧ good s' :=
  readFullLoop_some hl n hs h

/-- A read of at most `d.length` bytes from the stream `d ++ t` returns a
front of `d`; the source keeps the rest of `d`, then `t`. -/
theorem Faithful.read_front (hf : Faithful rd flat) {s : σ} {n : Nat} {d t : List UInt8}
    (hst : flat s = d ++ t) (hlen : (rd s n).data.length ≤ d.length) :
    d = (rd s n).data ++ d.drop (rd s n).data.length ∧
      flat (rd s n).rest = d.drop (rd s n).data.length ++ t := by
  have hc := hf s n
  rw [hst] at hc
  have htake : (rd s n).data = d.take (rd s n).data.length := by
    have := congrArg (List.take (rd s n).data.length) hc
    rwa [List.take_left' rfl, List.take_append_of_le_length hlen] at this
  have hdrop : flat (rd s n).rest = d.drop (rd s n).data.length ++ t := by
    have := congrArg (List.drop (rd s n).data.length) hc
    rwa [List.drop_left' rfl, List.drop_append_of_le_length hlen] at this
  refine ⟨?_, hdrop⟩
  conv_lhs => rw [← List.take_append_drop (rd s n).data.length d, ← htake]

theorem readFullLoop_append (hl : Live rd flat good) {fuel k : Nat} (hk : k ≤ fuel) {s : σ}
    {d t : List UInt8} (hs : good s) (hst : flat s = d ++ t) (hd : d.length = k) :
    ∃ s', readFullLoop rd fuel s k = some (d, s') ∧ flat s' = t ∧ good s' := by
  induction fuel generalizing s k d with
  | zero =>
    obtain rfl : k = 0 := by omega
    obtain rfl : d = [] := List.eq_nil_of_length_eq_zero hd
    exact ⟨s, by simp [readFullLoop], by simpa using hst, hs⟩
  | succ fuel ih =>
    cases k with
    | zero =>
      obtain rfl : d = [] := List.eq_nil_of_length_eq_zero hd
      exact ⟨s, by simp [readFullLoop], by simpa using hst, hs⟩
    | succ k =>
      have hne : flat s ≠ [] := by
        intro hnil
        have := congrArg List.length (hnil ▸ hst)
        simp at this
        omega
      have he : (rd s (k + 1)).err = false := by
        cases h : (rd s (k + 1)).err
        · rfl
        · exact absurd ((hl.err_iff s (k + 1) hs (Nat.succ_pos k)).mp h) hne
      have hpos := List.length_pos_of_ne_nil (hl.progress s (k + 1) hs (Nat.succ_pos k) hne)
      have hlen := hl.length_le s (k + 1) hs
      obtain ⟨hd', hrest⟩ := hl.faithful.read_front (n := k + 1) hst (by omega)
      obtain ⟨s', hr, hs't, hgood⟩ := ih (k := k + 1 - (rd s (k + 1)).data.length) (by omega)
        (hl.good_rest s (k + 1) hs) hrest (by simp [hd])
      refine ⟨s', ?_, hs't, hgood⟩
      simp only [readFullLoop, he, Bool.false_eq_true, ↓reduceIte, hr, Option.map_some]
      rw [← hd']

theorem readFull_append (hl : Live rd flat good) {s : σ} {d t : List UInt8} (hs : good s)
    (hst : flat s = d ++ t) :
    ∃ s', readFull rd s d.length = some (d, s') ∧ flat s' = t ∧ good s' :=
  readFullLoop_append hl (Nat.le_refl _) hs hst rfl

theorem copyLoop_eq (hl : Live rd flat good) {n : Nat} (hn : 0 < n) {fuel : Nat} {s : σ}
    (hs : good s) (hfuel : (flat s).length < fuel) : copyLoop rd n fuel s = flat s := by
  induction fuel generalizing s with
  | zero => omega
  | succ fuel ih =>
    have hc := hl.faithful s n
    simp only [copyLoop]
    split
    · next he =>
      rw [← hc, hl.rest_nil_of_err hs hn he, List.append_nil]
    · next he =>
      have hne : flat s ≠ [] := fun hnil => he ((hl.err_iff s n hs hn).mpr hnil)
      have hpos := List.length_pos_of_ne_nil (hl.progress s n hs hn hne)
      have hlen : (flat (rd s n).rest).length < fuel := by
        have := congrArg List.length hc
        simp only [List.length_append] at this
        omega
      rw [ih (hl.good_rest s n hs) hlen, hc]

end Laws

/-! ## The two sources are live -/

theorem segmentsRead_live :
    Live segmentsRead List.flatten (fun segs => ∀ seg ∈ segs, seg ≠ []) where
  faithful := by
    intro segs n
    cases segs with
    | nil => rfl
    | cons seg rest =>
      simp only [segmentsRead]
      split
      · simp
      · simp only [List.flatten_cons]
        rw [← List.append_assoc, List.take_append_drop]
  good_rest := by
    intro segs n hsegs
    cases segs with
    | nil => simp [segmentsRead]
    | cons seg rest =>
      simp only [segmentsRead]
      split
      · exact fun x hx => hsegs x (List.mem_cons_of_mem _ hx)
      · next hlong =>
        intro x hx
        rcases List.mem_cons.mp hx with rfl | hx
        · simp only [ne_eq, List.drop_eq_nil_iff]
          omega
        · exact hsegs x (List.mem_cons_of_mem _ hx)
  length_le := by
    intro segs n _
    cases segs with
    | nil => simp [segmentsRead]
    | cons seg rest =>
      simp only [segmentsRead]
      split
      · assumption
      · exact List.length_take_le _ _
  err_iff := by
    intro segs n hsegs _
    cases segs with
    | nil => simp [segmentsRead]
    | cons seg rest =>
      have hseg := hsegs seg List.mem_cons_self
      simp only [segmentsRead]
      split <;> simp [hseg]
  progress := by
    intro segs n hsegs hn _
    cases segs with
    | nil => simp_all
    | cons seg rest =>
      have hseg := hsegs seg List.mem_cons_self
      simp only [segmentsRead]
      split
      · exact hseg
      · simp only [ne_eq, List.take_eq_nil_iff, not_or]
        exact ⟨by omega, hseg⟩

theorem bufferRead_live : Live bufferRead id (fun _ => True) where
  faithful := by
    intro s n
    unfold bufferRead
    split
    · next hs => simp [hs]
    · simp
  good_rest := fun _ _ _ => trivial
  length_le := by
    intro s n _
    unfold bufferRead
    split
    · simp
    · exact List.length_take_le _ _
  err_iff := by
    intro s n _ hn
    unfold bufferRead
    split
    · next hs => simp [hs]; omega
    · next hs => simp [hs]
  progress := by
    intro s n _ hn hs
    have hs' : s ≠ [] := hs
    simp only [bufferRead, hs', ↓reduceIte, ne_eq, List.take_eq_nil_iff, or_false]
    omega

end GoIo
