import Vwarp.Lib.GoIo

/-!
# Buffered readers

Go's `bufio.Reader` over any source: the reader holds its size, the buffered
bytes `b.buf[b.r:b.w]` as `pending`, the source and its sticky error. `Read`,
`fill`, `Peek`, `ReadSlice` and `ReadLine` follow the library's code, their
loops on explicit fuel; `read rd` is itself a source, so readers stack.

The content of a reader is its pending bytes followed by the stream of its
source. Every operation returns a front of the content and keeps the rest, and
a reader over a live source is a live source with that content
(`Reader.live`): wrapping a connection loses and invents nothing, except the
bytes still pending in a reader that is dropped.
-/

namespace Bufio

open GoIo

structure Reader (σ : Type) where
  size : Nat
  pending : List UInt8
  src : σ
  err : Bool

def minReadBufferSize : Nat := 16

def defaultBufSize : Nat := 4096

def maxConsecutiveEmptyReads : Nat := 100

def newReaderSize {σ : Type} (src : σ) (size : Nat) : Reader σ :=
  { size := max size minReadBufferSize, pending := [], src, err := false }

def newReader {σ : Type} (src : σ) : Reader σ := newReaderSize src defaultBufSize

inductive SliceError
  | bufferFull
  | readErr
  deriving DecidableEq, Repr

section Ops

variable {σ : Type} (rd : σ → Nat → Chunk σ)

/-- The read loop of `fill`, after the buffered bytes were slid to the front;
`i` reads are left before `io.ErrNoProgress`. -/
def fillLoop : Nat → Reader σ → Reader σ
  | 0, b => { b with err := true }
  | i + 1, b =>
    let c := rd b.src (b.size - b.pending.length)
    let b' := { b with pending := b.pending ++ c.data, src := c.rest }
    if c.err then { b' with err := true }
    else if c.data ≠ [] then b'
    else fillLoop i b'

def fill (b : Reader σ) : Reader σ := fillLoop rd maxConsecutiveEmptyReads b

/-- `Read(p)` with `len(p) = n`; the returned error is cleared (`readErr`). -/
def read (b : Reader σ) (n : Nat) : Chunk (Reader σ) :=
  if n = 0 then
    if b.pending = [] then ⟨[], b.err, { b with err := false }⟩ else ⟨[], false, b⟩
  else if b.pending = [] then
    if b.err then ⟨[], true, { b with err := false }⟩
    else if b.size ≤ n then
      let c := rd b.src n
      ⟨c.data, c.err, { b with src := c.rest }⟩
    else
      let c := rd b.src b.size
      if c.data = [] then ⟨[], c.err, { b with src := c.rest }⟩
      else ⟨c.data.take n, false, { b with pending := c.data.drop n, src := c.rest, err := c.err }⟩
  else ⟨b.pending.take n, false, { b with pending := b.pending.drop n }⟩

/-- The fill loop of `Peek(n)`. -/
def peekLoop (n : Nat) : Nat → Reader σ → Reader σ
  | 0, b => b
  | fuel + 1, b =>
    if b.pending.length < n ∧ b.pending.length < b.size ∧ b.err = false then
      peekLoop n fuel (fill rd b)
    else b

/-- `Peek(n)` for `n ≤ size`: the bytes, or `none` for an error, and the
reader after. -/
def peek (b : Reader σ) (n : Nat) : Option (List UInt8) × Reader σ :=
  let b := peekLoop rd n n b
  if n ≤ b.pending.length then (some (b.pending.take n), b)
  else (none, if b.err then { b with err := false } else b)

/-- The search loop of `ReadSlice(delim)`. -/
def readSliceLoop (delim : UInt8) : Nat → Reader σ → List UInt8 × Option SliceError × Reader σ
  | 0, b => ([], some .readErr, b)
  | fuel + 1, b =>
    match b.pending.idxOf? delim with
    | some i => (b.pending.take (i + 1), none, { b with pending := b.pending.drop (i + 1) })
    | none =>
      if b.err then (b.pending, some .readErr, { b with pending := [], err := false })
      else if b.size ≤ b.pending.length then (b.pending, some .bufferFull, { b with pending := [] })
      else readSliceLoop delim fuel (fill rd b)

def readSlice (delim : UInt8) (b : Reader σ) : List UInt8 × Option SliceError × Reader σ :=
  readSliceLoop rd delim (b.size + 1) b

/-- The line of `ReadLine` without its end of line. -/
def dropEol (line : List UInt8) : List UInt8 :=
  if line.getLast? = some 10 then
    if line.dropLast.getLast? = some 13 then line.dropLast.dropLast else line.dropLast
  else line

/-- `ReadLine()`: the line, `isPrefix`, whether an error is returned, and the
reader after; a line cut by a full buffer keeps a final carriage return
buffered for the next call. -/
def readLine (b : Reader σ) : List UInt8 × Bool × Bool × Reader σ :=
  let r := readSlice rd 10 b
  match r.2.1 with
  | some .bufferFull =>
    if r.1.getLast? = some 13 then
      (r.1.dropLast, true, false, { r.2.2 with pending := 13 :: r.2.2.pending })
    else (r.1, true, false, r.2.2)
  | e =>
    if r.1 = [] then ([], false, e.isSome, r.2.2)
    else (dropEol r.1, false, false, r.2.2)

end Ops

/-! ## Content -/

section Content

variable {σ : Type} {rd : σ → Nat → Chunk σ} {flat : σ → List UInt8}

variable (flat) in
/-- The bytes a reader will still deliver. -/
def Reader.content (b : Reader σ) : List UInt8 := b.pending ++ flat b.src

theorem fillLoop_content (h : Faithful rd flat) (i : Nat) (b : Reader σ) :
    (fillLoop rd i b).content flat = b.content flat := by
  induction i generalizing b with
  | zero => rfl
  | succ i ih =>
    have hc := h b.src (b.size - b.pending.length)
    simp only [fillLoop]
    split
    · simp [Reader.content, ← hc]
    · split
      · simp [Reader.content, ← hc]
      · rw [ih]
        simp [Reader.content, ← hc]

theorem fill_content (h : Faithful rd flat) (b : Reader σ) :
    (fill rd b).content flat = b.content flat :=
  fillLoop_content h _ b

theorem read_content (h : Faithful rd flat) (b : Reader σ) (n : Nat) :
    (read rd b n).data ++ (read rd b n).rest.content flat = b.content flat := by
  unfold read
  dsimp only
  split
  · split <;> simp [Reader.content]
  · split
    · next hp =>
      split
      · simp [Reader.content, hp]
      · split
        · simp [Reader.content, hp, h b.src n]
        · have hc := h b.src b.size
          split
          · next hd =>
            simp only [hd, List.nil_append] at hc
            simp [Reader.content, hp, hc]
          · simp only [Reader.content, hp, List.nil_append, ← List.append_assoc,
              List.take_append_drop, hc]
    · simp only [Reader.content, ← List.append_assoc, List.take_append_drop]

theorem read_faithful (h : Faithful rd flat) : Faithful (read rd) (Reader.content flat) :=
  read_content h

theorem peekLoop_content (h : Faithful rd flat) (n fuel : Nat) (b : Reader σ) :
    (peekLoop rd n fuel b).content flat = b.content flat := by
  induction fuel generalizing b with
  | zero => rfl
  | succ fuel ih =>
    simp only [peekLoop]
    split
    · rw [ih, fill_content h]
    · rfl

theorem peek_content (h : Faithful rd flat) (b : Reader σ) (n : Nat) :
    (peek rd b n).2.content flat = b.content flat := by
  unfold peek
  dsimp only
  split
  · exact peekLoop_content h n n b
  · split <;> exact peekLoop_content h n n b

end Content

/-! ## What the operations do to the source

A reader touches its source only by reads, so any property of source states
that reads keep holds of the source after every operation: that its stream
is a suffix of an earlier one, or that the source is in a good state. -/

section Src

variable {σ : Type} {rd : σ → Nat → Chunk σ} (P : σ → Prop)
  (hP : ∀ s n, P s → P (rd s n).rest)

include hP

theorem fillLoop_src (i : Nat) {b : Reader σ} (hb : P b.src) : P (fillLoop rd i b).src := by
  induction i generalizing b with
  | zero => exact hb
  | succ i ih =>
    simp only [fillLoop]
    split
    · exact hP _ _ hb
    · split
      · exact hP _ _ hb
      · exact ih (hP _ _ hb)

theorem fill_src {b : Reader σ} (hb : P b.src) : P (fill rd b).src :=
  fillLoop_src P hP _ hb

theorem readSliceLoop_src (delim : UInt8) (fuel : Nat) {b : Reader σ} (hb : P b.src) :
    P (readSliceLoop rd delim fuel b).2.2.src := by
  induction fuel generalizing b with
  | zero => exact hb
  | succ fuel ih =>
    simp only [readSliceLoop]
    split
    · exact hb
    · split
      · exact hb
      · split
        · exact hb
        · exact ih (fill_src P hP hb)

theorem readLine_src {b : Reader σ} (hb : P b.src) : P (readLine rd b).2.2.2.src := by
  have hs := readSliceLoop_src P hP 10 (b.size + 1) hb
  unfold readLine readSlice
  dsimp only
  split
  · split <;> exact hs
  · split <;> exact hs

/-- From an empty buffer without error, `ReadLine` first fills the buffer: what
holds of the source after that fill holds of the source after the line. -/
theorem readLine_src_fill {b : Reader σ} (hp : b.pending = []) (he : b.err = false)
    (hsize : 0 < b.size) (hb : P (fill rd b).src) : P (readLine rd b).2.2.2.src := by
  have hloop : readSliceLoop rd 10 (b.size + 1) b = readSliceLoop rd 10 b.size (fill rd b) := by
    simp only [readSliceLoop, hp, List.idxOf?_nil, he, Bool.false_eq_true, ↓reduceIte,
      List.length_nil, Nat.le_zero, Nat.pos_iff_ne_zero.mp hsize]
  have hs := readSliceLoop_src P hP 10 b.size hb
  rw [← hloop] at hs
  unfold readLine readSlice
  dsimp only
  split
  · split <;> exact hs
  · split <;> exact hs

end Src

/-! ## Readers over live sources -/

section Live

variable {σ : Type} {rd : σ → Nat → Chunk σ} {flat : σ → List UInt8} {good : σ → Prop}

variable (flat good) in
/-- A reader over a good state of its source, whose sticky error comes only
at the end of the stream. -/
def Reader.Good (b : Reader σ) : Prop :=
  good b.src ∧ (b.err = true → flat b.src = []) ∧ 0 < b.size

theorem newReaderSize_good {src : σ} (hs : good src) (size : Nat) :
    (newReaderSize src size).Good flat good :=
  ⟨hs, by simp [newReaderSize], Nat.lt_of_lt_of_le (by decide) (Nat.le_max_right _ _)⟩

/-- Over a live source the fill loop reads once: the read returns bytes or
the end of the stream. -/
theorem fill_good (hl : Live rd flat good) {b : Reader σ} (hb : b.Good flat good)
    (hroom : b.pending.length < b.size) : (fill rd b).Good flat good := by
  obtain ⟨hs, herr, hsize⟩ := hb
  have hn : 0 < b.size - b.pending.length := by omega
  have hgood := hl.good_rest b.src (b.size - b.pending.length) hs
  have hfill : fill rd b = fillLoop rd (99 + 1) b := rfl
  rw [hfill, fillLoop]
  dsimp only
  split
  · next he => exact ⟨hgood, fun _ => hl.rest_nil_of_err hs hn he, hsize⟩
  · next he =>
    split
    · exact ⟨hgood, fun he' => absurd (herr he') (by
        intro hnil
        exact he ((hl.err_iff _ _ hs hn).mpr hnil)), hsize⟩
    · next hd =>
      exfalso
      apply hd
      apply hl.progress _ _ hs hn
      intro hnil
      exact he ((hl.err_iff _ _ hs hn).mpr hnil)

theorem peekLoop_good (hl : Live rd flat good) (n fuel : Nat) {b : Reader σ}
    (hb : b.Good flat good) : (peekLoop rd n fuel b).Good flat good := by
  induction fuel generalizing b with
  | zero => exact hb
  | succ fuel ih =>
    simp only [peekLoop]
    split
    · next hc => exact ih (fill_good hl hb hc.2.1)
    · exact hb

theorem peek_good (hl : Live rd flat good) {b : Reader σ} (hb : b.Good flat good) (n : Nat) :
    (peek rd b n).2.Good flat good := by
  have hp := peekLoop_good hl n n hb
  unfold peek
  dsimp only
  split
  · exact hp
  · split
    · exact ⟨hp.1, by simp, hp.2.2⟩
    · exact hp

/-- A buffered reader over a live source is a live source with the same
stream. -/
theorem Reader.live (hl : Live rd flat good) :
    Live (read rd) (Reader.content flat) (Reader.Good flat good) where
  faithful := read_faithful hl.faithful
  good_rest := by
    intro b n ⟨hs, herr, hsize⟩
    unfold read
    dsimp only
    split
    · split
      · exact ⟨hs, by simp, hsize⟩
      · exact ⟨hs, herr, hsize⟩
    · split
      · split
        · exact ⟨hs, by simp, hsize⟩
        · split
          · exact ⟨hl.good_rest _ _ hs, by simp_all, hsize⟩
          · split
            · exact ⟨hl.good_rest _ _ hs, by simp_all, hsize⟩
            · exact ⟨hl.good_rest _ _ hs, hl.rest_nil_of_err hs hsize, hsize⟩
      · exact ⟨hs, herr, hsize⟩
  length_le := by
    intro b n ⟨hs, _, _⟩
    unfold read
    dsimp only
    split
    · split <;> simp
    · split
      · split
        · simp
        · split
          · exact hl.length_le _ _ hs
          · split
            · simp
            · exact List.length_take_le _ _
      · exact List.length_take_le _ _
  err_iff := by
    intro b n ⟨hs, herr, hsize⟩ hn
    unfold read
    dsimp only
    simp only [Nat.pos_iff_ne_zero.mp hn, ↓reduceIte, Reader.content]
    split
    · next hp =>
      simp only [hp, List.nil_append]
      split
      · next he => simp [herr he]
      · split
        · exact hl.err_iff _ _ hs hn
        · split
          · exact hl.err_iff _ _ hs hsize
          · next hd =>
            have hne : flat b.src ≠ [] := by
              intro hnil
              have hc := hl.faithful b.src b.size
              rw [hnil] at hc
              exact hd (List.append_eq_nil_iff.mp hc).1
            simp [hne]
    · next hp => simp [hp]
  progress := by
    intro b n ⟨hs, herr, hsize⟩ hn hne
    unfold read
    dsimp only
    simp only [Nat.pos_iff_ne_zero.mp hn, ↓reduceIte]
    split
    · next hp =>
      simp only [Reader.content, hp, List.nil_append] at hne
      split
      · next he => exact absurd (herr he) hne
      · split
        · exact hl.progress _ _ hs hn hne
        · split
          · next hd => exact absurd hd (hl.progress _ _ hs hsize hne)
          · next hd => simpa [List.take_eq_nil_iff, Nat.pos_iff_ne_zero.mp hn] using hd
    · next hp => simpa [List.take_eq_nil_iff, Nat.pos_iff_ne_zero.mp hn] using hp

end Live

end Bufio
