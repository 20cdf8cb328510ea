import Vwarp.Config.Validator
import Vwarp.Noize.Signature
import Vwarp.Preflight.Bind

/-!
# Signature packets: what the validators admit, what the parsers read

The validators check only the length of a signature packet, and the two CPS
parsers read the same tags in slightly different ways. The sample
configuration shipped in the documentation sets `I2` to a `<b>` tag with an
odd number of hex digits: both validators accept it, and both parsers reject
it, so the packet is never sent.

On the tags both parsers document, written as the documentation writes
them, the parsers agree (`parseCPSPacket_agree`): both fail, or both succeed
and each tag gives the two outputs segments of one length, the same bytes
for a `<b>` tag. Outside that language they part ways: on an `<r>` length
that is not an `int` (`validated_signatures_unread`), on `<b 0x0X..>`, and on
the tags only the MASQUE parser reads.
-/

namespace Signatures

open ConfigValidator ExceptStep GoText Preflight

/-- The parsers part ways on an `<r>` length beyond `int64`; the validators
admit a signature that no parser reads: as `I1` it makes
`NewWithAtomicNoize` fail, as `I2` the preflight sends nothing for it. -/
theorem validated_signatures_unread (pd : Preflight.CpsDraws) (md : MasqueNoize.CpsDraws)
    (minInterval : Int) (d : SendDraws) :
    MasqueNoize.parseCPSPacket md "<r 9223372036854775808>" =
        .ok ((List.range 1000).map (md.bytes 0)) ∧
      Preflight.parseCPSPacket pd "<r 9223372036854775808>" =
        .error (.invalidLength .outOfRange) ∧
      validateAtomicNoizeConfig { i1 := "<b 0xc80000000108ce1bf31000a>" } = .ok () ∧
      newWithAtomicNoize (some { i1 := "<b 0xc80000000108ce1bf31000a>" }) minInterval pd =
        .error (.invalidHex .oddLength) ∧
      validateAtomicNoizeConfig { i2 := "<b 0xc80000000108ce1bf31000a>" } = .ok () ∧
      executeAtomicNoizePreflightUsingSameSocket { i2 := "<b 0xc80000000108ce1bf31000a>" } [] d =
        .ok [] ∧
      validateNoizeConfig { i2 := "<b 0xc80000000108ce1bf31000a>" } = .ok () ∧
      MasqueNoize.parseCPSPacket md "<b 0xc80000000108ce1bf31000a>" =
        .error (.invalidHex .oddLength) := by
  have hfind : Cps.findTags ['b', 't', 'c', 'r', 'n', 'x'] "<r 9223372036854775808>".toList =
      [('r', "9223372036854775808".toList)] := by decide
  have htrim : trimSpace "9223372036854775808".toList = "9223372036854775808".toList := by decide
  have hlen : MasqueNoize.randomLength "9223372036854775808".toList = 1000 := by decide
  have h1000 : (1000 : Int).toNat = 1000 := rfl
  refine ⟨?_, rfl, rfl, rfl, rfl, rfl, rfl, rfl⟩
  rw [MasqueNoize.parseCPSPacket, if_neg (by decide), hfind, MasqueNoize.parseTags, htrim,
    MasqueNoize.tagStep_r, hlen, if_pos (by decide), bind_ok, MasqueNoize.parseTags,
    List.nil_append, h1000]

/-! ## The language both parsers document -/

/-- A tag as the documentation writes it: `<b hex>` or `<b 0xhex>`, `<c>`,
`<t>` and `<r N>`. -/
inductive DocTag where
  | b (prefixed : Bool) (hex : List Char)
  | c
  | t
  | r (digits : List Char)
  deriving DecidableEq, Repr

namespace DocTag

def letter : DocTag → Char
  | .b .. => 'b'
  | .c => 'c'
  | .t => 't'
  | .r _ => 'r'

/-- The tag's data, as `strings.TrimSpace` leaves it. -/
def data : DocTag → List Char
  | .b prefixed hex => (if prefixed then ['0', 'x'] else []) ++ hex
  | .c | .t => []
  | .r digits => digits

/-- The text between the letter and the closing bracket. -/
def body (tag : DocTag) : List Char :=
  match tag with
  | .c | .t => []
  | _ => ' ' :: tag.data

def render (tag : DocTag) : List Char := '<' :: tag.letter :: tag.body ++ ['>']

def isB : DocTag → Bool
  | .b .. => true
  | _ => false

/-- Hex digits in a `<b>` tag, an `int` in decimal in an `<r>` tag. -/
def Valid : DocTag → Prop
  | .b _ hex => ∀ ch ∈ hex, (hexVal ch).isSome
  | .c | .t => True
  | .r digits => digits ≠ [] ∧ ∃ n, decimal digits = some n ∧ n < 2 ^ 63

theorem letter_ne_x (tag : DocTag) : tag.letter ≠ 'x' := by
  cases tag <;> simp [letter]

theorem letter_mem (tag : DocTag) : tag.letter ∈ ['b', 't', 'c', 'r'] := by
  cases tag <;> simp [letter]

theorem letter_mem_masque (tag : DocTag) : tag.letter ∈ ['b', 't', 'c', 'r', 'n', 'x'] := by
  cases tag <;> simp [letter]

/-- A digit, hex or decimal, is no space, no `>` and no `x` or `X`. -/
theorem plain_of_toNat {ch : Char} (h : (48 ≤ ch.toNat ∧ ch.toNat ≤ 57) ∨
    (97 ≤ ch.toNat ∧ ch.toNat ≤ 102) ∨ (65 ≤ ch.toNat ∧ ch.toNat ≤ 70)) :
    isSpace ch = false ∧ Cps.reSpace ch = false ∧ ch ≠ '>' ∧ ch ≠ 'X' ∧ ch ≠ 'x' := by
  simp only [isSpace, Cps.reSpace, ne_eq, ← Char.toNat_inj]
  simp
  omega

theorem hexDigit_plain {ch : Char} (h : (hexVal ch).isSome) :
    isSpace ch = false ∧ Cps.reSpace ch = false ∧ ch ≠ '>' ∧ ch ≠ 'X' ∧ ch ≠ 'x' := by
  apply plain_of_toNat
  simp only [hexVal, Char.le_def, UInt32.le_iff_toNat_le] at h
  split_ifs at h with h1 h2 h3
  · simp at h1; omega
  · simp at h2; omega
  · simp at h3; omega
  · simp at h

theorem digit_plain {ch : Char} (h : '0' ≤ ch ∧ ch ≤ '9') :
    isSpace ch = false ∧ Cps.reSpace ch = false ∧ ch ≠ '>' ∧ ch ≠ 'X' ∧ ch ≠ 'x' := by
  apply plain_of_toNat
  simp only [Char.le_def, UInt32.le_iff_toNat_le] at h
  simp at h
  omega

/-- No character of a valid tag's data is a space or a `>`. -/
theorem data_plain {tag : DocTag} (hv : tag.Valid) :
    ∀ ch ∈ tag.data, isSpace ch = false ∧ Cps.reSpace ch = false ∧ ch ≠ '>' := by
  intro ch hch
  cases tag with
  | b prefixed hex =>
    have hhex : ch ∈ hex → isSpace ch = false ∧ Cps.reSpace ch = false ∧ ch ≠ '>' :=
      fun hc => (hexDigit_plain (hv ch hc)).imp_right fun h => ⟨h.1, h.2.1⟩
    cases prefixed with
    | false => exact hhex (by simpa [data] using hch)
    | true =>
      simp only [data, if_true, List.cons_append, List.nil_append, List.mem_cons] at hch
      rcases hch with rfl | rfl | hc
      · decide
      · decide
      · exact hhex hc
  | c => simp [data] at hch
  | t => simp [data] at hch
  | r digits =>
    obtain ⟨_, n, hn, _⟩ := hv
    exact (digit_plain (digits_of_decimal hn ch hch)).imp_right fun h => ⟨h.1, h.2.1⟩

theorem gt_not_mem_body {tag : DocTag} (hv : tag.Valid) : '>' ∉ tag.body := by
  intro hgt
  have hdata : '>' ∉ tag.data := fun h => (data_plain hv '>' h).2.2 rfl
  cases tag <;> simp_all [body]

/-- The regexp drops the space after the letter and `strings.TrimSpace` leaves
the rest: the parsers read the tag's data. -/
theorem trimSpace_body {tag : DocTag} (hv : tag.Valid) :
    trimSpace (tag.body.dropWhile Cps.reSpace) = tag.data := by
  have hplain := data_plain hv
  have hdrop : tag.data.dropWhile Cps.reSpace = tag.data := by
    cases h : tag.data with
    | nil => rfl
    | cons ch rest => simp [(hplain ch (by simp [h])).2.1]
  have hbody : tag.body.dropWhile Cps.reSpace = tag.data := by
    cases tag <;> simp_all [body, data, Cps.reSpace]
  rw [hbody, trimSpace_eq_self fun ch hch => (hplain ch hch).1]

/-- Both parsers read the hex digits of a valid `<b>` tag, with or without
its `0x`. -/
theorem hexData_b {prefixed : Bool} {hex : List Char} (hv : (DocTag.b prefixed hex).Valid) :
    Preflight.hexData (DocTag.b prefixed hex).data = hex ∧
      MasqueNoize.hexData (DocTag.b prefixed hex).data = hex := by
  have hplain : ∀ ch ∈ hex, ch ≠ ' ' ∧ ch ≠ 'X' ∧ ch ≠ 'x' := by
    intro ch hc
    obtain ⟨h1, _, _, h4, h5⟩ := hexDigit_plain (hv ch hc)
    exact ⟨fun e => by simp [e, isSpace] at h1, h4, h5⟩
  have hx : ∀ rest, hex ≠ '0' :: 'x' :: rest := by
    rintro rest rfl
    exact (hplain 'x' (by simp)).2.2 rfl
  have hX : ∀ rest, hex ≠ '0' :: 'X' :: rest := by
    rintro rest rfl
    exact (hplain 'X' (by simp)).2.1 rfl
  have hfilter : hex.filter (· ≠ ' ') = hex :=
    List.filter_eq_self.mpr fun ch hc => by simpa using (hplain ch hc).1
  cases prefixed with
  | false =>
    have hd : (DocTag.b false hex).data = hex := by simp [data]
    rw [hd]
    constructor
    · unfold Preflight.hexData
      split <;> simp_all
    · unfold MasqueNoize.hexData
      dsimp only
      split <;> (try split) <;> simp_all
  | true =>
    constructor
    · simpa [data, Preflight.hexData] using hfilter
    · simp only [data, if_true, List.cons_append, List.nil_append, MasqueNoize.hexData]
      exact hfilter

/-- What one tag gives the two outputs: segments of one length, the same
bytes for a `<b>` tag. -/
def Agree (tag : DocTag) (seg : List UInt8 × List UInt8) : Prop :=
  seg.1.length = seg.2.length ∧ (tag.isB = true → seg.1 = seg.2)

/-- One tag: both parsers fail on it, or both read agreeing segments. -/
theorem tag_agree {tag : DocTag} (hv : tag.Valid) (pd : Preflight.CpsDraws)
    (md : MasqueNoize.CpsDraws) (k k' : Nat) :
    (∃ e e', Preflight.tagBytes pd k tag.letter tag.data = .error e ∧
        MasqueNoize.tagStep md k' [] tag.letter tag.data = .error e') ∨
      ∃ seg, Preflight.tagBytes pd k tag.letter tag.data = .ok seg.1 ∧
        MasqueNoize.tagStep md k' [] tag.letter tag.data = .ok seg.2 ∧ Agree tag seg := by
  cases tag with
  | b prefixed hex =>
    obtain ⟨hp, hm⟩ := hexData_b hv
    simp only [letter, Preflight.tagBytes, MasqueNoize.tagStep, if_true, hp, hm]
    split
    · exact Or.inr ⟨([], []), rfl, rfl, rfl, fun _ => rfl⟩
    · cases hexDecode hex with
      | error e => exact Or.inl ⟨_, _, rfl, rfl⟩
      | ok bytes => exact Or.inr ⟨(bytes, bytes), rfl, by simp [Except.mapError], rfl, fun _ => rfl⟩
  | c => exact Or.inr ⟨(_, _), rfl, rfl, by simp [Agree, isB]⟩
  | t => exact Or.inr ⟨(_, _), rfl, rfl, by simp [Agree, isB]⟩
  | r digits =>
    obtain ⟨hne, n, hn, hlt⟩ := hv
    have hatoi := atoi_of_decimal hne hn hlt
    have hlen : MasqueNoize.randomLength digits = min (n : Int) 1000 := by
      simp [MasqueNoize.randomLength, hne, hatoi]
    let length : Int := min (n : Int) 1000
    refine Or.inr ⟨(if 0 < length then (List.range length.toNat).map (pd.bytes k) else [],
      if 0 < length then (List.range length.toNat).map (md.bytes k') else []), ?_, ?_, ?_⟩
    · simp [letter, data, Preflight.tagBytes, hne, hatoi, length]
    · rw [letter, data, MasqueNoize.tagStep_r, hlen]
      split <;> simp [length]
    · simp only [Agree, isB]
      split <;> simp

/-- The two groups the tag pattern captures for this tag. -/
def toMatch (tag : DocTag) : Char × List Char := (tag.letter, tag.body.dropWhile Cps.reSpace)

end DocTag

open DocTag

/-- Both parsers fail, or both succeed with outputs made of agreeing
segments, one per tag. -/
def BothAgree (ts : List DocTag) (p : Except Preflight.CpsError (List UInt8))
    (q : Except MasqueNoize.CpsError (List UInt8)) : Prop :=
  (∃ e e', p = .error e ∧ q = .error e') ∨
    ∃ segs, List.Forall₂ Agree ts segs ∧ p = .ok (segs.map Prod.fst).flatten ∧
      q = .ok (segs.map Prod.snd).flatten

/-- The tag loops of the two parsers, by induction over the tags. -/
theorem parseTags_agree (pd : Preflight.CpsDraws) (md : MasqueNoize.CpsDraws) :
    ∀ (ts : List DocTag) (k : Nat), (∀ tag ∈ ts, tag.Valid) →
      BothAgree ts (Preflight.parseTags pd k (ts.map toMatch))
        (MasqueNoize.parseTags md k [] (ts.map toMatch)) := by
  intro ts
  induction ts with
  | nil => exact fun _ _ => Or.inr ⟨[], .nil, rfl, rfl⟩
  | cons tag ts ih =>
    intro k hv
    have hvt := hv tag List.mem_cons_self
    have hrest : ∀ m ∈ ts.map toMatch, m.1 ≠ 'x' := by simp [toMatch, letter_ne_x]
    rw [List.map_cons, toMatch, Preflight.parseTags, MasqueNoize.parseTags, trimSpace_body hvt]
    rcases tag_agree hvt pd md k k with ⟨e, e', hp, hm⟩ | ⟨seg, hp, hm, hagree⟩
    · rw [hp, hm]
      exact Or.inl ⟨e, e', rfl, rfl⟩
    · rw [hp, hm, bind_ok, bind_ok, MasqueNoize.parseTags_append _ _ _ _ hrest]
      rcases ih (k + 1) fun tag' ht => hv tag' (List.mem_cons_of_mem _ ht) with
        ⟨e, e', hp', hm'⟩ | ⟨segs, hall, hp', hm'⟩
      · rw [hp', hm']
        exact Or.inl ⟨e, e', rfl, rfl⟩
      · rw [hp', hm']
        exact Or.inr ⟨seg :: segs, .cons hagree hall, by simp, by simp⟩

/-- The tags of a rendered string are found again, in order. -/
theorem findTags_render (ts : List DocTag) {letters : List Char}
    (hl : ∀ tag ∈ ts, tag.letter ∈ letters) (hv : ∀ tag ∈ ts, tag.Valid) :
    Cps.findTags letters (String.ofList (ts.flatMap render)).toList = ts.map toMatch := by
  have h := Cps.findTags_flatMap letters (ts.map fun tag => (tag.letter, tag.body))
    (by simpa using fun tag htag => ⟨hl tag htag, gt_not_mem_body (hv tag htag)⟩)
  rw [List.flatMap_map, List.map_map] at h
  rw [String.toList_ofList]
  exact h

/-- On strings of documented tags, the two CPS parsers agree: both fail, or
both succeed, each tag giving the two outputs segments of one length and a
`<b>` tag the same bytes. -/
theorem parseCPSPacket_agree (ts : List DocTag) (hv : ∀ tag ∈ ts, tag.Valid)
    (pd : Preflight.CpsDraws) (md : MasqueNoize.CpsDraws) :
    BothAgree ts (Preflight.parseCPSPacket pd (String.ofList (ts.flatMap render)))
      (MasqueNoize.parseCPSPacket md (String.ofList (ts.flatMap render))) := by
  by_cases hts : ts = []
  · subst hts
    exact Or.inr ⟨[], .nil, rfl, rfl⟩
  · have hne : String.ofList (ts.flatMap render) ≠ "" := by
      intro h
      obtain ⟨tag, rest, rfl⟩ := List.exists_cons_of_ne_nil hts
      have := congrArg String.toList h
      simp [render] at this
    rw [Preflight.parseCPSPacket, if_neg hne, findTags_render ts (fun tag _ => letter_mem tag) hv,
      MasqueNoize.parseCPSPacket, if_neg hne,
      findTags_render ts (fun tag _ => letter_mem_masque tag) hv]
    exact parseTags_agree pd md ts 0 hv

end Signatures
