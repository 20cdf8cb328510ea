import Vwarp.Noize.Signature

/-!
# What a MASQUE signature produces

The bytes of `parseCPSPacket` given tag by tag. Each tag but `<x>` contributes
bytes of its own (`tagBytes`), and an `<x k>` tag XORs everything produced
before it with `byte(k)`: so a tag's bytes leave the parser XORed with the keys
of all the `<x>` tags after it (`keysOf`). The parse fails exactly when some
`<b>` tag holds hex that does not decode, and otherwise its length is the sum of
the tags' own lengths.
-/

namespace MasqueNoize

open BigEndian ExceptStep GoText

/-- A match with its data trimmed, as the loop reads it. -/
def trimTag (m : Char × List Char) : Char × List Char := (m.1, trimSpace m.2)

/-- The matches of a signature, each with its trimmed data. -/
def cpsTags (cps : String) : List (Char × List Char) :=
  (Cps.findTags ['b', 't', 'c', 'r', 'n', 'x'] cps.toList).map trimTag

/-- A `<b>` tag whose hex does not decode. -/
def BadHex (m : Char × List Char) : Prop := m.1 = 'b' ∧ m.2 ≠ [] ∧ ¬HexText (hexData m.2)

instance : DecidablePred BadHex := fun _ => inferInstanceAs (Decidable (_ ∧ _ ∧ _))

/-- The key of an `<x>` tag: `byte` of the value Atoi returns. -/
def xorKey (data : List Char) : UInt8 := UInt8.ofNat ((atoi data).1 % 256).toNat

/-- The combined key of the `<x>` tags of a list of (trimmed) matches. -/
def keysOf : List (Char × List Char) → UInt8
  | [] => 0
  | m :: rest => (if m.1 = 'x' ∧ m.2 ≠ [] then xorKey m.2 else 0) ^^^ keysOf rest

/-- The bytes a (trimmed) tag adds of its own, before any later `<x>`. -/
def tagBytes (d : CpsDraws) (k : Nat) (m : Char × List Char) : List UInt8 :=
  if m.1 = 'b' then (hexDecode (hexData m.2)).toOption.getD []
  else if m.1 = 'c' then toBytes 4 (d.unix.tmod 0xFFFFFFFF % 2 ^ 32).toNat
  else if m.1 = 't' then toBytes 4 (d.unix % 2 ^ 32).toNat
  else if m.1 = 'r' then (List.range (randomLength m.2).toNat).map (d.bytes k)
  else if m.1 = 'n' then toBytes 8 (d.unixNano % 2 ^ 64).toNat
  else []

/-- How many bytes a (trimmed) tag adds. -/
def tagLength (m : Char × List Char) : Nat :=
  if m.1 = 'b' then (hexData m.2).length / 2
  else if m.1 = 'c' ∨ m.1 = 't' then 4
  else if m.1 = 'r' then (randomLength m.2).toNat
  else if m.1 = 'n' then 8
  else 0

/-- The output of a list of trimmed matches: each tag's bytes XORed with the keys
of the `<x>` tags after it; `k` numbers the first tag. -/
def signatureBytes (d : CpsDraws) : Nat → List (Char × List Char) → List UInt8
  | _, [] => []
  | k, m :: rest => (tagBytes d k m).map (· ^^^ keysOf rest) ++ signatureBytes d (k + 1) rest

section Tags

variable (d : CpsDraws) (k : Nat)

theorem hexData_nil : hexData [] = [] := rfl

/-- The data of a `<b>` tag that is not bad decodes, to half as many bytes as it has
hex digits; empty data decodes to nothing. -/
theorem hexDecode_of_not_badHex {data : List Char} (hb : ¬BadHex ('b', data)) :
    ∃ bs, hexDecode (hexData data) = .ok bs ∧ bs.length = (hexData data).length / 2 := by
  by_cases hdata : data = []
  · subst hdata
    exact ⟨[], rfl, rfl⟩
  · exact hexDecode_ok (by simpa [BadHex, hdata] using hb)

/-- A tag other than `<x>` with decodable data adds its `tagBytes`. -/
theorem tagStep_nil {t : Char} (data : List Char) (hx : t ≠ 'x') (hb : ¬BadHex (t, data)) :
    tagStep d k [] t data = .ok (tagBytes d k (t, data)) := by
  unfold tagStep tagBytes
  by_cases hbt : t = 'b'
  · subst hbt
    by_cases hdata : data = []
    · simp [hdata, hexData_nil, hexDecode, Except.toOption]
    · obtain ⟨bs, hbs, -⟩ := hexDecode_of_not_badHex hb
      simp [hdata, hbs, Except.mapError, Except.toOption]
  by_cases hr : t = 'r'
  · subst hr
    by_cases hpos : 0 < randomLength data
    · simp [hpos]
    · have hzero : (randomLength data).toNat = 0 := Int.toNat_eq_zero.mpr (by omega)
      simp [hpos, hzero]
  · simp only [if_neg hbt, if_neg hr, if_neg hx]
    split_ifs <;> rfl

theorem tagStep_of_ne_x (result : List UInt8) {t : Char} (data : List Char) (hx : t ≠ 'x')
    (hb : ¬BadHex (t, data)) : tagStep d k result t data = .ok (result ++ tagBytes d k (t, data)) := by
  rw [tagStep_append d k result hx, tagStep_nil d k data hx hb, map_ok]

theorem tagStep_x (result : List UInt8) (data : List Char) :
    tagStep d k result 'x' data = .ok (if data = [] then result else result.map (· ^^^ xorKey data)) := by
  by_cases hdata : data = [] <;> simp [tagStep, xorKey, hdata]

theorem tagStep_bad (result : List UInt8) {t : Char} {data : List Char} (hb : BadHex (t, data)) :
    ∃ e, tagStep d k result t data = .error e := by
  obtain ⟨hbt, hdata, hhex⟩ := hb
  obtain ⟨e, he⟩ := hexDecode_error hhex
  subst hbt
  exact ⟨.invalidHex e, by simp [tagStep, hdata, he, Except.mapError]⟩

/-- A tag that is not a bad `<b>` never fails. -/
theorem tagStep_ok (result : List UInt8) {t : Char} {data : List Char} (hb : ¬BadHex (t, data)) :
    ∃ r, tagStep d k result t data = .ok r := by
  by_cases hx : t = 'x'
  · subst hx
    exact ⟨_, tagStep_x d k result data⟩
  · exact ⟨_, tagStep_of_ne_x d k result data hx hb⟩

theorem length_tagBytes {m : Char × List Char} (hb : ¬BadHex m) :
    (tagBytes d k m).length = tagLength m := by
  obtain ⟨t, data⟩ := m
  unfold tagBytes tagLength
  by_cases hbt : t = 'b'
  · subst hbt
    obtain ⟨bs, hbs, hlen⟩ := hexDecode_of_not_badHex hb
    simp [hbs, hlen, Except.toOption]
  · simp only [if_neg hbt]
    split_ifs <;> simp_all

end Tags

section Xor

@[simp] theorem keysOf_cons_of_ne_x {m : Char × List Char} (hx : m.1 ≠ 'x')
    (rest : List (Char × List Char)) : keysOf (m :: rest) = keysOf rest := by
  simp [keysOf, hx]

theorem map_xor_xor (bs : List UInt8) (a b : UInt8) :
    (bs.map (· ^^^ a)).map (· ^^^ b) = bs.map (· ^^^ (a ^^^ b)) := by
  simp [Function.comp_def, UInt8.xor_assoc]

end Xor

section Loop

variable (d : CpsDraws)

/-- The loop from any tag number and any bytes already produced: those bytes are
XORed with every key still to come, and the tags add their `signatureBytes`. -/
theorem parseTags_spec (k : Nat) (result : List UInt8) (tags : List (Char × List Char))
    (h : ∀ m ∈ tags, ¬BadHex (trimTag m)) :
    parseTags d k result tags =
      .ok (result.map (· ^^^ keysOf (tags.map trimTag)) ++ signatureBytes d k (tags.map trimTag)) := by
  induction tags generalizing k result with
  | nil => simp [parseTags, keysOf, signatureBytes]
  | cons m tags ih =>
    obtain ⟨t, data⟩ := m
    obtain ⟨hm, hrest⟩ := List.forall_mem_cons.mp h
    rw [parseTags, List.map_cons, signatureBytes]
    by_cases hx : t = 'x'
    · subst hx
      have hnone : tagBytes d k (trimTag ('x', data)) = [] := by simp [tagBytes, trimTag]
      rw [tagStep_x, bind_ok, ih _ _ hrest, hnone]
      by_cases hdata : trimSpace data = []
      · simp [keysOf, trimTag, hdata]
      · rw [if_neg hdata, map_xor_xor]
        simp [keysOf, trimTag, hdata]
    · have hkeys : keysOf (trimTag (t, data) :: tags.map trimTag) = keysOf (tags.map trimTag) :=
        keysOf_cons_of_ne_x hx _
      rw [tagStep_of_ne_x d k result _ hx hm, bind_ok, ih _ _ hrest, hkeys]
      simp [trimTag]

/-- A bad `<b>` tag anywhere makes the loop fail. -/
theorem parseTags_error (k : Nat) (result : List UInt8) (tags : List (Char × List Char))
    (h : ∃ m ∈ tags, BadHex (trimTag m)) : ∃ e, parseTags d k result tags = .error e := by
  induction tags generalizing k result with
  | nil => simp at h
  | cons m tags ih =>
    obtain ⟨t, data⟩ := m
    rw [parseTags]
    by_cases hm : BadHex (t, trimSpace data)
    · obtain ⟨e, he⟩ := tagStep_bad d k result hm
      exact ⟨e, by rw [he, bind_error]⟩
    · have hrest : ∃ m ∈ tags, BadHex (trimTag m) :=
        ((List.exists_mem_cons_iff _ _ tags).mp h).resolve_left hm
      obtain ⟨r, hr⟩ := tagStep_ok d k result hm
      rw [hr, bind_ok]
      exact ih _ _ hrest

theorem length_signatureBytes (k : Nat) (tags : List (Char × List Char))
    (h : ∀ m ∈ tags, ¬BadHex m) : (signatureBytes d k tags).length = (tags.map tagLength).sum := by
  induction tags generalizing k with
  | nil => rfl
  | cons m tags ih =>
    obtain ⟨hm, hrest⟩ := List.forall_mem_cons.mp h
    rw [signatureBytes, List.length_append, List.length_map, length_tagBytes d k hm, ih _ hrest,
      List.map_cons, List.sum_cons]

end Loop

theorem cpsTags_empty : cpsTags "" = [] := rfl

/-- `parseCPSPacket` fails exactly on a bad `<b>` tag; otherwise it returns the
tags' bytes with the `<x>` keys applied, and as many bytes as the tags' lengths add
up to. -/
theorem parseCPSPacket_bytes (d : CpsDraws) (cps : String) :
    ((∃ e, parseCPSPacket d cps = .error e) ↔ ∃ m ∈ cpsTags cps, BadHex m) ∧
      ((∀ m ∈ cpsTags cps, ¬BadHex m) →
        parseCPSPacket d cps = .ok (signatureBytes d 0 (cpsTags cps)) ∧
          (signatureBytes d 0 (cpsTags cps)).length = ((cpsTags cps).map tagLength).sum) := by
  by_cases hempty : cps = ""
  · subst hempty
    simp [parseCPSPacket, cpsTags_empty, signatureBytes]
  have hparse : parseCPSPacket d cps =
      parseTags d 0 [] (Cps.findTags ['b', 't', 'c', 'r', 'n', 'x'] cps.toList) := if_neg hempty
  have hok : (∀ m ∈ cpsTags cps, ¬BadHex m) →
      parseCPSPacket d cps = .ok (signatureBytes d 0 (cpsTags cps)) := by
    intro h
    rw [hparse, parseTags_spec d 0 [] _ fun m hm => h _ (List.mem_map_of_mem hm)]
    simp [cpsTags]
  refine ⟨⟨?_, ?_⟩, fun h => ⟨hok h, length_signatureBytes d 0 _ h⟩⟩
  · rintro ⟨e, he⟩
    by_contra hnone
    rw [hok fun m hm hbad => hnone ⟨m, hm, hbad⟩] at he
    cases he
  · rintro ⟨m, hm, hbad⟩
    obtain ⟨m', hm', rfl⟩ := List.mem_map.mp hm
    rw [hparse]
    exact parseTags_error d 0 [] _ ⟨m', hm', hbad⟩

theorem parseCPSPacket_bytes_xor_tail :
    parseCPSPacket {} "<b 0102><x 3>" = .ok (signatureBytes {} 0 (cpsTags "<b 0102><x 3>")) ∧
      signatureBytes {} 0 (cpsTags "<b 0102><x 3>") = [2, 1] :=
  ⟨((parseCPSPacket_bytes {} "<b 0102><x 3>").2 (by decide)).1, by decide⟩

/-- The key of an `<x>` tag and the length of an `<r>` tag are Atoi's value, which a
decimal past the 64-bit range clamps to the bound: `byte(2 ^ 63)` would be `0`, but the
byte XORed in is `byte(2 ^ 63 - 1) = 0xff`; and `99999999999999999999x`, which is no
decimal, asks for 1000 random bytes, since Atoi stops at the range error before it
reads the `x`. -/
theorem parseCPSPacket_clamps_atoi :
    parseCPSPacket {} "<b 00><x 9223372036854775808>" = .ok [0xff] ∧
      (9223372036854775808 : Int) % 256 = 0 ∧
      (parseCPSPacket {} "<r 99999999999999999999x>").map List.length = .ok 1000 := by
  decide +kernel

end MasqueNoize
