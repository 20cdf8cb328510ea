import Mathlib

/-!
# Text functions of the Go library

`strings.TrimSpace`, `strings.ToLower`, `hex.DecodeString` and
`strconv.Atoi` on strings taken as lists of characters. Configuration strings come from JSON, which makes them
valid UTF-8, so characters and Go's runes agree. A hex string decodes when all
its characters are hex digits and there is an even number of them; the error
names the first offending character or the odd length, as Go's does up to the
byte it prints. `ParseUint` reads the digits from the left and reports a value
past its bound as soon as it reads it, before any later non-digit; `Atoi` returns
Go's pair: a syntax error gives `0`, and a range error the nearest `int64` bound.

Error messages print durations with `time.Duration.String` and floats with
`%f`. A float read from JSON is finite, so it is the rational it denotes.
-/

namespace GoText

/-- `unicode.IsSpace`. -/
def isSpace (c : Char) : Bool :=
  c = '\t' || c = '\n' || c.toNat = 0x0b || c.toNat = 0x0c || c = '\r' || c = ' ' ||
    c.toNat = 0x85 || c.toNat = 0xA0 || c.toNat = 0x1680 ||
    (0x2000 ≤ c.toNat && c.toNat ≤ 0x200A) || c.toNat = 0x2028 || c.toNat = 0x2029 ||
    c.toNat = 0x202F || c.toNat = 0x205F || c.toNat = 0x3000

/-- `strings.TrimSpace`. -/
def trimSpace (s : List Char) : List Char :=
  ((s.dropWhile isSpace).reverse.dropWhile isSpace).reverse

/-- The value of a hex digit. -/
def hexVal (c : Char) : Option Nat :=
  if '0' ≤ c ∧ c ≤ '9' then some (c.toNat - '0'.toNat)
  else if 'a' ≤ c ∧ c ≤ 'f' then some (c.toNat - 'a'.toNat + 10)
  else if 'A' ≤ c ∧ c ≤ 'F' then some (c.toNat - 'A'.toNat + 10)
  else none

inductive HexError where
  | invalidByte (c : Char)
  | oddLength
  deriving DecidableEq, Repr

/-- `hex.DecodeString`, pair by pair from the left. -/
def hexDecode : List Char → Except HexError (List UInt8)
  | [] => .ok []
  | [c] => if (hexVal c).isNone then .error (.invalidByte c) else .error .oddLength
  | a :: b :: rest =>
    match hexVal a, hexVal b with
    | some x, some y => (hexDecode rest).map (UInt8.ofNat (x * 16 + y) :: ·)
    | none, _ => .error (.invalidByte a)
    | some _, none => .error (.invalidByte b)

inductive NumError where
  | invalid
  | outOfRange
  deriving DecidableEq, Repr

/-- The value of the digits `s` read after the value `n`, if every character is a digit. -/
def decimalFrom (n : Nat) (s : List Char) : Option Nat :=
  s.foldl (fun acc c => acc.bind fun n =>
    if '0' ≤ c ∧ c ≤ '9' then some (n * 10 + (c.toNat - '0'.toNat)) else none) (some n)

/-- The decimal value of a digit string, if every character is a digit. -/
def decimal (s : List Char) : Option Nat := decimalFrom 0 s

/-- `strconv.ParseUint`'s cutoff in base 10: the least value whose tenfold passes `2 ^ 64 - 1`. -/
def cutoff10 : Nat := (2 ^ 64 - 1) / 10 + 1

/-- The digit loop of `strconv.ParseUint(s, 10, bitSize)`, from the value `n` read so far,
with Go's value beside the error: a non-digit is a syntax error with the value `0`, and a
value past `maxVal` is a range error with the value `maxVal` as soon as its digit is read,
before the rest of the string. -/
def parseUintLoop (maxVal n : Nat) : List Char → Nat × Option NumError
  | [] => (n, none)
  | c :: s =>
    if '0' ≤ c ∧ c ≤ '9' then
      if cutoff10 ≤ n then (maxVal, some .outOfRange)
      else
        let n1 := n * 10 + (c.toNat - '0'.toNat)
        if maxVal < n1 then (maxVal, some .outOfRange) else parseUintLoop maxVal n1 s
    else (0, some .invalid)

/-- `strconv.ParseUint(s, 10, bitSize)` for `bitSize` from `1` to `64`, as every caller
passes, with the value Go returns beside the error. -/
def parseUintValue (s : List Char) (bitSize : Nat) : Nat × Option NumError :=
  match s with
  | [] => (0, some .invalid)
  | _ => parseUintLoop (2 ^ bitSize - 1) 0 s

/-- The leading sign `ParseInt` picks off: whether it is `-`, and the rest. -/
def splitSign : List Char → Bool × List Char
  | '+' :: rest => (false, rest)
  | '-' :: rest => (true, rest)
  | s => (false, s)

/-- `strconv.Atoi` on 64-bit Go, which is `ParseInt(s, 10, 0)`: an optional sign, then
`ParseUint` of the rest, whose range error is kept and clamped to the `int64` bounds. The
fast path of `Atoi` for strings shorter than 19 bytes gives the same results, as no
value of 18 digits passes either bound. -/
def atoi (s : List Char) : Int × Option NumError :=
  let (neg, digits) := splitSign s
  match parseUintValue digits 64 with
  | (_, some .invalid) => (0, some .invalid)
  | (un, _) =>
    if !neg ∧ 2 ^ 63 ≤ un then (2 ^ 63 - 1, some .outOfRange)
    else if neg ∧ 2 ^ 63 < un then (-2 ^ 63, some .outOfRange)
    else if neg then (-(un : Int), none) else ((un : Int), none)

/-- `strconv.ParseUint(s, 10, bitSize)` where the caller drops the value on an error. -/
def parseUint (s : List Char) (bitSize : Nat) : Except NumError Nat :=
  match parseUintValue s bitSize with
  | (n, none) => .ok n
  | (_, some e) => .error e

theorem trimSpace_eq_self {s : List Char} (h : ∀ c ∈ s, isSpace c = false) :
    trimSpace s = s := by
  have hdrop : ∀ l : List Char, (∀ c ∈ l, isSpace c = false) → l.dropWhile isSpace = l := by
    intro l hl
    cases l with
    | nil => rfl
    | cons c l => simp [hl c List.mem_cons_self]
  rw [trimSpace, hdrop s h, hdrop s.reverse (by simpa using h), List.reverse_reverse]

theorem foldl_none {f : Option Nat → Char → Option Nat} (hf : ∀ c, f none c = none)
    (s : List Char) : s.foldl f none = none := by
  induction s with
  | nil => rfl
  | cons c s ih => rw [List.foldl_cons, hf, ih]

/-! ## Reading decimal digits -/

section Decimal

variable {maxVal n v : Nat} {s : List Char}

theorem decimalFrom_cons (n : Nat) (c : Char) (s : List Char) :
    decimalFrom n (c :: s) =
      if '0' ≤ c ∧ c ≤ '9' then decimalFrom (n * 10 + (c.toNat - '0'.toNat)) s else none := by
  unfold decimalFrom
  rw [List.foldl_cons]
  by_cases hc : '0' ≤ c ∧ c ≤ '9'
  · simp only [Option.bind_some, if_pos hc]
  · simp only [Option.bind_some, if_neg hc]
    exact foldl_none (fun _ => rfl) s

/-- Digits only add to the value read before them. -/
theorem le_of_decimalFrom (h : decimalFrom n s = some v) : n ≤ v := by
  induction s generalizing n with
  | nil => exact le_of_eq (Option.some.inj h)
  | cons c s ih =>
    rw [decimalFrom_cons] at h
    split at h
    · exact le_trans (by omega) (ih h)
    · cases h

theorem digits_of_decimalFrom (h : decimalFrom n s = some v) : ∀ c ∈ s, '0' ≤ c ∧ c ≤ '9' := by
  induction s generalizing n with
  | nil => simp
  | cons c s ih =>
    rw [decimalFrom_cons] at h
    split at h
    · next hc =>
      intro x hx
      rcases List.mem_cons.mp hx with rfl | hx
      · exact hc
      · exact ih h x hx
    · cases h

theorem digits_of_decimal (h : decimal s = some v) : ∀ c ∈ s, '0' ≤ c ∧ c ≤ '9' :=
  digits_of_decimalFrom h

/-- Digits whose value stays within `maxVal`, below `2 ^ 64`, are read without error. -/
theorem parseUintLoop_of_decimalFrom (h : decimalFrom n s = some v) (hv : v ≤ maxVal)
    (hmax : maxVal < 2 ^ 64) : parseUintLoop maxVal n s = (v, none) := by
  induction s generalizing n with
  | nil => rw [Option.some.inj h]; rfl
  | cons c s ih =>
    rw [decimalFrom_cons] at h
    split at h
    · next hc =>
      have hle := le_of_decimalFrom h
      have hcut : ¬cutoff10 ≤ n := by
        simp only [cutoff10]
        omega
      have hover : ¬maxVal < n * 10 + (c.toNat - '0'.toNat) := by omega
      simp only [parseUintLoop, if_pos hc, if_neg hcut, if_neg hover]
      exact ih h
    · cases h

/-- What the loop reads without error is digits, and their value. -/
theorem decimalFrom_of_parseUintLoop (h : parseUintLoop maxVal n s = (v, none)) :
    decimalFrom n s = some v := by
  induction s generalizing n with
  | nil => exact congrArg some (Prod.mk.inj h).1
  | cons c s ih =>
    simp only [parseUintLoop] at h
    split_ifs at h with hc hcut hover
    · cases h
    · cases h
    · rw [decimalFrom_cons, if_pos hc]
      exact ih h
    · cases h

/-- A range error comes with the bound as its value. -/
theorem parseUintLoop_outOfRange (h : parseUintLoop maxVal n s = (v, some .outOfRange)) :
    v = maxVal := by
  induction s generalizing n with
  | nil => cases h
  | cons c s ih =>
    simp only [parseUintLoop] at h
    split_ifs at h
    · exact (Prod.mk.inj h).1.symm
    · exact (Prod.mk.inj h).1.symm
    · exact ih h
    · cases h

theorem parseUint_of_decimal {bits : Nat} (hne : s ≠ []) (h : decimal s = some n)
    (hn : n < 2 ^ bits) (hbits : bits ≤ 64) : parseUint s bits = .ok n := by
  obtain ⟨c, s', rfl⟩ := List.exists_cons_of_ne_nil hne
  have hmax : 2 ^ bits - 1 < 2 ^ 64 := by
    have := Nat.pow_le_pow_right (show 0 < 2 by decide) hbits
    omega
  have hloop := parseUintLoop_of_decimalFrom h (by omega) hmax
  simp only [parseUint, parseUintValue, hloop]

@[simp] theorem parseUint_nil (bits : Nat) : parseUint [] bits = .error .invalid := rfl

end Decimal

/-! ## `Atoi` -/

section Atoi

variable {s : List Char}

/-- With no error, `ParseUint` read the digits after the sign. -/
theorem atoi_snd_eq_none (h : (atoi s).2 = none) :
    ∃ un, parseUintValue (splitSign s).2 64 = (un, none) ∧
      atoi s = if (splitSign s).1 then (-(un : Int), none) else ((un : Int), none) := by
  unfold atoi at h ⊢
  generalize splitSign s = p at h ⊢
  obtain ⟨neg, digits⟩ := p
  dsimp only at h ⊢
  rcases hp : parseUintValue digits 64 with ⟨un, _ | _ | _⟩
  · refine ⟨un, rfl, ?_⟩
    dsimp only at h ⊢
    split_ifs at h ⊢ <;> simp_all
  · simp [hp] at h
  · have hun : un = 2 ^ 64 - 1 := by
      cases digits with
      | nil => cases hp
      | cons c r => exact parseUintLoop_outOfRange hp
    subst hun
    cases neg <;> simp [hp] at h

theorem splitSign_snd_of_head {c : Char} {r : List Char} (hplus : c ≠ '+') (hminus : c ≠ '-') :
    splitSign (c :: r) = (false, c :: r) := by
  unfold splitSign
  split
  · next heq => exact absurd (List.cons.inj heq).1 hplus
  · next heq => exact absurd (List.cons.inj heq).1 hminus
  · rfl

/-- A decimal numeral that fits in an `int` is read without error. -/
theorem atoi_of_decimal {n : Nat} (hne : s ≠ []) (h : decimal s = some n) (hn : n < 2 ^ 63) :
    atoi s = ((n : Int), none) := by
  obtain ⟨c, s', rfl⟩ := List.exists_cons_of_ne_nil hne
  have hc := digits_of_decimal h c List.mem_cons_self
  have hplus : c ≠ '+' := by rintro rfl; simp at hc
  have hminus : c ≠ '-' := by rintro rfl; simp at hc
  have hloop : parseUintValue (c :: s') 64 = (n, none) :=
    parseUintLoop_of_decimalFrom h (by omega) (by norm_num)
  have hlt : n < 9223372036854775808 := hn
  simp [atoi, splitSign_snd_of_head hplus hminus, hloop, hlt]

/-- What `Atoi` reads without error is a sign and decimal digits. -/
theorem digits_of_atoi (h : (atoi s).2 = none) :
    ∀ c ∈ s, c = '+' ∨ c = '-' ∨ ('0' ≤ c ∧ c ≤ '9') := by
  obtain ⟨un, hp, -⟩ := atoi_snd_eq_none h
  have hdigits : ∀ c ∈ (splitSign s).2, '0' ≤ c ∧ c ≤ '9' := by
    cases hd : (splitSign s).2 with
    | nil => rw [hd] at hp; cases hp
    | cons c r =>
      rw [hd] at hp
      exact digits_of_decimalFrom (decimalFrom_of_parseUintLoop hp)
  intro c hc
  unfold splitSign at hdigits
  split at hdigits
  · rcases List.mem_cons.mp hc with rfl | hrest
    · exact .inl rfl
    · exact .inr (.inr (hdigits c hrest))
  · rcases List.mem_cons.mp hc with rfl | hrest
    · exact .inr (.inl rfl)
    · exact .inr (.inr (hdigits c hrest))
  · exact .inr (.inr (hdigits c hc))

/-- A port that `Atoi` reads below `2 ^ 16` and not below zero is read by `ParseUint` too,
unless it carries a sign, which `ParseUint` refuses. -/
theorem parseUint_of_atoi (h : (atoi s).2 = none) (hlo : 0 ≤ (atoi s).1)
    (hhi : (atoi s).1 < 2 ^ 16) :
    parseUint s 16 =
      if s.head? = some '+' ∨ s.head? = some '-' then .error .invalid else .ok (atoi s).1.toNat := by
  cases s with
  | nil => simp [atoi, splitSign, parseUintValue] at h
  | cons c r =>
    by_cases hplus : c = '+'
    · subst hplus
      simp [parseUint, parseUintValue, parseUintLoop]
    by_cases hminus : c = '-'
    · subst hminus
      simp [parseUint, parseUintValue, parseUintLoop]
    obtain ⟨un, hp, hatoi⟩ := atoi_snd_eq_none h
    rw [splitSign_snd_of_head hplus hminus] at hp hatoi
    simp only [Bool.false_eq_true, if_false] at hatoi
    rw [hatoi] at hhi ⊢
    have hun : un < 2 ^ 16 := by
      simp only at hhi
      exact_mod_cast hhi
    have hdec : decimal (c :: r) = some un := decimalFrom_of_parseUintLoop hp
    simp [parseUint_of_decimal (List.cons_ne_nil c r) hdec hun (by decide), hplus, hminus]

end Atoi

/-- Text `hex.DecodeString` accepts: hex digits only, an even number of them. -/
def HexText (s : List Char) : Prop := (∀ c ∈ s, (hexVal c).isSome) ∧ s.length % 2 = 0

/-- Decided through the list: a search over all characters would also fit the goal. -/
instance (s : List Char) : Decidable (HexText s) :=
  @instDecidableAnd _ _ (List.decidableBAll _ s) inferInstance

/-- Valid hex decodes, to half as many bytes as it has digits. -/
theorem hexDecode_ok {s : List Char} (h : HexText s) :
    ∃ bs, hexDecode s = .ok bs ∧ bs.length = s.length / 2 := by
  induction s using hexDecode.induct with
  | case1 => exact ⟨[], rfl, rfl⟩
  | case2 c _ | case3 c _ => simp [HexText] at h
  | case4 a b rest x y hy hx ih =>
    have hrest : HexText rest := by
      refine ⟨fun c hc => h.1 c (by simp [hc]), ?_⟩
      have hlen := h.2
      simp only [List.length_cons] at hlen
      omega
    obtain ⟨bs, hbs, hlen⟩ := ih hrest
    refine ⟨_, by rw [hexDecode, hx, hy, hbs]; rfl, ?_⟩
    simp only [List.length_cons, hlen]
    omega
  | case5 a b rest ha => simpa [ha] using h.1 a List.mem_cons_self
  | case6 a b rest val hb ha => simpa [hb] using h.1 b (by simp)

/-- Anything else is refused. -/
theorem hexDecode_error {s : List Char} (h : ¬HexText s) : ∃ e, hexDecode s = .error e := by
  induction s using hexDecode.induct with
  | case1 => exact absurd ⟨by simp, rfl⟩ h
  | case2 c hc => exact ⟨.invalidByte c, by simp [hexDecode, hc]⟩
  | case3 c hc => exact ⟨.oddLength, by simp [hexDecode, hc]⟩
  | case4 a b rest x y hy hx ih =>
    have hrest : ¬HexText rest := by
      rintro ⟨hdigits, hlen⟩
      apply h
      refine ⟨fun c hc => ?_, by simp only [List.length_cons]; omega⟩
      rcases List.mem_cons.mp hc with rfl | hc
      · simp [hx]
      rcases List.mem_cons.mp hc with rfl | hc
      · simp [hy]
      · exact hdigits c hc
    obtain ⟨e, he⟩ := ih hrest
    exact ⟨e, by rw [hexDecode, hx, hy, he]; rfl⟩
  | case5 a b rest ha => exact ⟨_, by rw [hexDecode, ha]⟩
  | case6 a b rest val hb ha => exact ⟨_, by rw [hexDecode, ha, hb]⟩

/-- `unicode.ToLower` as far as it matters to a comparison with ASCII text:
the ASCII capitals and the two runes whose lower case is an ASCII letter,
U+0130 and the Kelvin sign U+212A, are lowered; every other rune is kept,
where Go lowers a non-ASCII capital to another non-ASCII rune. -/
def toLowerRune (c : Char) : Char :=
  if 'A' ≤ c ∧ c ≤ 'Z' then Char.ofNat (c.toNat + 32)
  else if c.toNat = 0x130 then 'i'
  else if c.toNat = 0x212A then 'k'
  else c

/-- `strings.ToLower`, rune by rune. -/
def toLower (s : List Char) : List Char := s.map toLowerRune

/-- `time.fmtFrac`: the low `prec` digits of `v` after a point, trailing zeros
and a point with nothing after it dropped, and `v / 10 ^ prec`. -/
def fmtFracLoop : Nat → Nat → Bool → List Char → List Char × Nat
  | 0, v, print, buf => (if print then '.' :: buf else buf, v)
  | prec + 1, v, print, buf =>
    let digit := v % 10
    let print := print || digit != 0
    fmtFracLoop prec (v / 10) print (if print then Char.ofNat (digit + '0'.toNat) :: buf else buf)

def fmtFrac (v prec : Nat) : List Char × Nat := fmtFracLoop prec v false []

/-- `time.Duration.String`, for a duration of `d` nanoseconds. -/
def durationString (d : Int) : String :=
  let u := d.natAbs
  let body : List Char :=
    if u < 10 ^ 9 then
      if u = 0 then ['0', 's']
      else
        let (unit, prec) : List Char × Nat :=
          if u < 10 ^ 3 then (['n', 's'], 0)
          else if u < 10 ^ 6 then (['µ', 's'], 3)
          else (['m', 's'], 6)
        let (frac, v) := fmtFrac u prec
        (toString v).toList ++ frac ++ unit
    else
      let (frac, v) := fmtFrac u 9
      let sec := (toString (v % 60)).toList ++ frac ++ ['s']
      let m := v / 60
      if 0 < m then
        let min := (toString (m % 60)).toList ++ 'm' :: sec
        if 0 < m / 60 then (toString (m / 60)).toList ++ 'h' :: min else min
      else sec
  String.ofList ((if d < 0 then ['-'] else []) ++ body)

/-- `%f` of a finite float `q`: six decimals, the exact value rounded half to even. -/
def formatFloat6 (q : ℚ) : String :=
  let scaled := q.num.natAbs * 10 ^ 6
  let whole := scaled / q.den
  let rem := scaled % q.den
  let r := if q.den < 2 * rem ∨ (2 * rem = q.den ∧ whole % 2 = 1) then whole + 1 else whole
  let frac := (toString (r % 10 ^ 6)).toList
  (if q < 0 then "-" else "") ++ toString (r / 10 ^ 6) ++ "." ++
    String.ofList (List.replicate (6 - frac.length) '0' ++ frac)

end GoText
