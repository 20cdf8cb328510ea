import Mathlib

/-!
# Tags of the custom protocol signature format

Both signature parsers find their tags with
`regexp.MustCompile("<([" ++ letters ++ "])\\s*([^>]*)>").FindAllStringSubmatch(s, -1)`.
For this pattern the leftmost-first matches are found by one left-to-right pass:
a `<` followed by a tag letter opens a tag, the first `>` after it closes it,
and a tag still open at the end of the string is no match (no later `<` can
match then either, since none is followed by a `>`). The second group is the
body with the leading `\s` characters (RE2's `[\t\n\f\r ]`) removed.
-/

namespace Cps

/-- RE2's `\s`. -/
def reSpace (c : Char) : Bool :=
  c = '\t' || c = '\n' || c.toNat = 0x0c || c = '\r' || c = ' '

inductive ScanState where
  | outside
  | sawLt
  | inTag (tag : Char) (body : List Char)
  deriving DecidableEq, Repr

/-- The matches of the tag pattern over the letters in `letters`, as pairs of
the first group and the unstripped body. -/
def scanTags (letters : List Char) : ScanState → List Char → List (Char × List Char)
  | _, [] => []
  | .outside, ch :: rest => scanTags letters (if ch = '<' then .sawLt else .outside) rest
  | .sawLt, ch :: rest =>
    scanTags letters
      (if ch ∈ letters then .inTag ch [] else if ch = '<' then .sawLt else .outside) rest
  | .inTag t body, ch :: rest =>
    if ch = '>' then (t, body) :: scanTags letters .outside rest
    else scanTags letters (.inTag t (body ++ [ch])) rest

/-- The match groups of every tag, in order: the tag letter and the body after
the leading spaces. -/
def findTags (letters : List Char) (s : List Char) : List (Char × List Char) :=
  (scanTags letters .outside s).map fun m => (m.1, m.2.dropWhile reSpace)

section Spec

variable (letters : List Char)

theorem scanTags_body (t : Char) (body pre rest : List Char) (h : '>' ∉ body) :
    scanTags letters (.inTag t pre) (body ++ '>' :: rest) =
      (t, pre ++ body) :: scanTags letters .outside rest := by
  induction body generalizing pre with
  | nil => simp [scanTags]
  | cons c body ih =>
    have hc : c ≠ '>' := fun e => h (e ▸ List.mem_cons_self)
    have hb : '>' ∉ body := fun m => h (List.mem_cons_of_mem _ m)
    simp only [List.cons_append, scanTags, if_neg hc, ih _ hb, List.append_assoc,
      List.nil_append]

/-- A complete tag at the front is the first match, and scanning resumes after
its closing bracket. -/
theorem scanTags_tag {t : Char} (ht : t ∈ letters) (body rest : List Char) (h : '>' ∉ body) :
    scanTags letters .outside ('<' :: t :: body ++ '>' :: rest) =
      (t, body) :: scanTags letters .outside rest := by
  simp only [List.cons_append, scanTags, if_pos ht, ↓reduceIte]
  simpa using scanTags_body letters t body [] rest h

/-- A string made of complete tags, none of whose bodies holds a `>`, yields
exactly those tags. -/
theorem findTags_flatMap (tags : List (Char × List Char))
    (h : ∀ m ∈ tags, m.1 ∈ letters ∧ '>' ∉ m.2) :
    findTags letters (tags.flatMap fun m => '<' :: m.1 :: m.2 ++ ['>']) =
      tags.map fun m => (m.1, m.2.dropWhile reSpace) := by
  suffices hscan : scanTags letters .outside (tags.flatMap fun m => '<' :: m.1 :: m.2 ++ ['>']) =
      tags by
    rw [findTags, hscan]
  induction tags with
  | nil => rfl
  | cons m tags ih =>
    obtain ⟨hl, hb⟩ := h m List.mem_cons_self
    rw [List.flatMap_cons, List.append_assoc, List.singleton_append,
      scanTags_tag letters hl _ _ hb, ih fun m' hm' => h m' (List.mem_cons_of_mem m hm')]

end Spec

end Cps
