import Vwarp.Noize.Obfuscate
import Vwarp.Config.Validator

/-!
# Padding and junk sizes under a validated configuration

What `ValidateNoizeConfig` accepts keeps `addPadding` and
`generateJunkPacket` away from their panics and bounds what they add: the
padding by the configured range and the 1200-byte cap, the junk by `Jmin`
and `Jmax`, with the zero-size rules. Lengths are Go `int`s; a packet is a
slice Go can hold, whose length plus the 500-byte padding limit does not
overflow.
-/

namespace MasqueNoize

open BigEndian GoRuntime ExceptStep ConfigValidator

theorem length_putBytes {junk bs : List UInt8} {off : Nat} (h : off + bs.length ≤ junk.length) :
    (putBytes junk off bs).length = junk.length := by
  simp only [putBytes, List.length_append, List.length_take, List.length_drop]
  omega

/-- The protocol mimic rewrites a junk packet's header bytes in place. -/
theorem length_applyProtocolMimic (c : NoizeConfig) (junk : List UInt8) (r : Nat) :
    (applyProtocolMimic c junk r).length = junk.length := by
  unfold applyProtocolMimic
  split
  · split
    · have hid : (putBytes junk 0 (toBytes 2 (r % 65536))).length = junk.length :=
        length_putBytes (by simp; omega)
      rw [length_putBytes (by simp; omega), hid]
    · rfl
  · split
    · exact length_putBytes (by simp; omega)
    · rfl
  · split
    · exact length_putBytes (by simp; omega)
    · rfl
  · split
    · have htype : (putBytes junk 0 [0x00, 0x01]).length = junk.length :=
        length_putBytes (by simp; omega)
      rw [length_putBytes (by simp; omega), htype]
    · rfl
  · rfl

/-- A draw of `Intn(hi - lo + 1)` moved up by `lo`, as both size draws make it, lies in
`[lo, hi]` when the range fits an `int`. -/
theorem drawIn_range {lo hi : Int} (h0 : 0 ≤ lo) (hle : lo ≤ hi) (hhi : hi < 2 ^ 62) (r : Nat) :
    ∃ v, ((intn (wrap64 (wrap64 (hi - lo) + 1)) r).map fun v => wrap64 (lo + v)) = .ok v ∧
      lo ≤ v ∧ v ≤ hi := by
  have hd : wrap64 (hi - lo) = hi - lo := wrap64_of_bounds (by omega) (by omega)
  have hn : wrap64 (hi - lo + 1) = hi - lo + 1 := wrap64_of_bounds (by omega) (by omega)
  have hv0 : 0 ≤ (r : Int) % (hi - lo + 1) := Int.emod_nonneg _ (by omega)
  have hv1 : (r : Int) % (hi - lo + 1) < hi - lo + 1 := Int.emod_lt_of_pos _ (by omega)
  refine ⟨lo + (r : Int) % (hi - lo + 1), ?_, by omega, by omega⟩
  rw [hd, hn, intn_ok (by omega), map_ok, wrap64_of_bounds (by omega) (by omega)]

/-! ## Padding -/

/-- The padding size `addPadding` settles on: `PaddingMax`, or a draw in
`[PaddingMin, PaddingMax]`. -/
theorem paddingSize_spec {c : NoizeConfig} (hmin : 0 ≤ c.paddingMin)
    (hle : c.paddingMin ≤ c.paddingMax) (hmax : c.paddingMax ≤ 500) (r : Nat) :
    ∃ size, (if c.randomPadding then
        (intn (wrap64 (wrap64 (c.paddingMax - c.paddingMin) + 1)) r).map
          fun v => wrap64 (c.paddingMin + v)
      else .ok c.paddingMax : Except Panic Int) = .ok size ∧
      (c.randomPadding = true → c.paddingMin ≤ size ∧ size ≤ c.paddingMax) ∧
      (c.randomPadding = false → size = c.paddingMax) := by
  cases hr : c.randomPadding with
  | false => exact ⟨c.paddingMax, rfl, nofun, fun _ => rfl⟩
  | true =>
    obtain ⟨v, hv, hlo, hhi⟩ := drawIn_range hmin hle (by omega) r
    exact ⟨v, hv, fun _ => ⟨hlo, hhi⟩, nofun⟩

/-- Once the size is drawn, `addPadding` appends that many bytes, or what fills
the packet to 1200 bytes when the sum would pass them. -/
theorem padTail_spec (p : List UInt8) (size : Int) (h0 : 0 ≤ size)
    (hp : (p.length : Int) + size < 2 ^ 63) (bytes : Nat → UInt8) :
    ∃ q, (if size ≤ 0 then .ok p
      else if 1200 < wrap64 (p.length + size) then
        if 1200 - (p.length : Int) ≤ 0 then .ok p
        else (makeRandom (1200 - p.length) bytes).map (p ++ ·)
      else (makeRandom size bytes).map (p ++ ·) : Except Panic (List UInt8)) = .ok (p ++ q) ∧
      (q.length : Int) = if 1200 < (p.length : Int) + size then max (1200 - (p.length : Int)) 0 else size := by
  rw [wrap64_of_bounds (by omega) hp]
  by_cases hz : size ≤ 0
  · refine ⟨[], by rw [if_pos hz, List.append_nil], ?_⟩
    simp only [List.length_nil, Nat.cast_zero]
    split <;> omega
  rw [if_neg hz]
  by_cases hcap : 1200 < (p.length : Int) + size
  · rw [if_pos hcap, if_pos hcap]
    by_cases hfull : 1200 - (p.length : Int) ≤ 0
    · exact ⟨[], by rw [if_pos hfull, List.append_nil], by simp only [List.length_nil, Nat.cast_zero]; omega⟩
    · rw [if_neg hfull, makeRandom_ok (by omega), map_ok]
      exact ⟨_, rfl, by simp; omega⟩
  · rw [if_neg hcap, if_neg hcap, makeRandom_ok h0, map_ok]
    exact ⟨_, rfl, by simp; omega⟩

/-- `addPadding` under a padding range `ValidateNoizeConfig` accepts. -/
theorem addPadding_spec {c : NoizeConfig} (hmin : 0 ≤ c.paddingMin)
    (hle : c.paddingMin ≤ c.paddingMax) (hmax : c.paddingMax ≤ 500) (p : List UInt8)
    (hp : p.length + 500 < 2 ^ 63) (d : Draws) :
    ∃ q, addPadding c p d = .ok (p ++ q) ∧ (c.paddingMax = 0 ∨ p.length < 16 → q = []) ∧
      (c.paddingMax ≠ 0 → 16 ≤ p.length → ∃ size : Int,
        (c.randomPadding = true → c.paddingMin ≤ size ∧ size ≤ c.paddingMax) ∧
        (c.randomPadding = false → size = c.paddingMax) ∧
        (q.length : Int) = if 1200 < (p.length : Int) + size then max (1200 - (p.length : Int)) 0 else size) := by
  by_cases h0 : c.paddingMax = 0
  · exact ⟨[], by simp [addPadding, h0], fun _ => rfl, fun h => absurd h0 h⟩
  by_cases h16 : p.length < 16
  · exact ⟨[], by simp [addPadding, h0, h16], fun _ => rfl, fun _ h => absurd h16 (by omega)⟩
  obtain ⟨size, hsize, hrand, hfixed⟩ := paddingSize_spec hmin hle hmax d.padding
  have hs0 : 0 ≤ size := by
    cases hr : c.randomPadding
    · rw [hfixed hr]; omega
    · exact le_trans hmin (hrand hr).1
  have hs1 : size ≤ c.paddingMax := by
    cases hr : c.randomPadding
    · rw [hfixed hr]
    · exact (hrand hr).2
  obtain ⟨q, hq, hlen⟩ := padTail_spec p size hs0 (by omega) d.bytes
  refine ⟨q, ?_, fun h => absurd h (by omega), fun _ _ => ⟨size, hrand, hfixed, hlen⟩⟩
  simp only [addPadding, if_neg h0, if_neg h16]
  rw [hsize, bind_ok]
  exact hq

/-! ## Junk packets -/

/-- The junk size draw lies in `[lo, hi]`. -/
theorem junkSize_spec {lo hi : Int} (h0 : 0 ≤ lo) (hle : lo ≤ hi) (hhi : hi ≤ 1400) (r : Nat) :
    ∃ size, (if hi = lo then .ok lo
      else if lo < hi then
        (intn (wrap64 (wrap64 (hi - lo) + 1)) r).map fun v => wrap64 (lo + v)
      else .ok lo : Except Panic Int) = .ok size ∧ lo ≤ size ∧ size ≤ hi := by
  by_cases heq : hi = lo
  · exact ⟨lo, by rw [if_pos heq], le_refl lo, hle⟩
  · obtain ⟨v, hv, hlo, hhi'⟩ := drawIn_range h0 hle (by omega) r
    exact ⟨v, by rw [if_neg heq, if_pos (by omega), hv], hlo, hhi'⟩

/-- A junk packet of a drawn size has that many bytes, mimic header or not. -/
theorem junkBody_length (c : NoizeConfig) (d : Draws) {size : Int} (h0 : 0 ≤ size) :
    ∃ junk, (if size = 0 ∧ c.allowZeroSize = true then .ok []
      else (makeRandom size d.bytes).map fun junk =>
        if c.mimicProtocol ≠ "" ∧ 10 < size then applyProtocolMimic c junk d.header else junk :
        Except Panic (List UInt8)) = .ok junk ∧ (junk.length : Int) = size := by
  by_cases hz : size = 0 ∧ c.allowZeroSize = true
  · exact ⟨[], by rw [if_pos hz], by simp [hz.1]⟩
  rw [if_neg hz, makeRandom_ok h0, map_ok]
  refine ⟨_, rfl, ?_⟩
  have hrandom : ((List.range size.toNat).map d.bytes).length = size.toNat := by simp
  split
  · rw [length_applyProtocolMimic, hrandom]; omega
  · rw [hrandom]; omega

/-- Once its range is settled, `generateJunkPacket` returns a packet of a length in it. -/
theorem junk_in_range (c : NoizeConfig) (d : Draws) (lo hi : Int) (h0 : 0 ≤ lo) (hle : lo ≤ hi)
    (hhi : hi ≤ 1400) :
    ∃ junk, ((if hi = lo then .ok lo
      else if lo < hi then
        (intn (wrap64 (wrap64 (hi - lo) + 1)) d.padding).map fun v => wrap64 (lo + v)
      else .ok lo : Except Panic Int).bind fun size =>
        if size = 0 ∧ c.allowZeroSize = true then .ok []
        else (makeRandom size d.bytes).map fun junk =>
          if c.mimicProtocol ≠ "" ∧ 10 < size then applyProtocolMimic c junk d.header
          else junk) = .ok junk ∧ lo ≤ junk.length ∧ (junk.length : Int) ≤ hi := by
  obtain ⟨size, hsize, hlo, hhi'⟩ := junkSize_spec h0 hle hhi d.padding
  obtain ⟨junk, hjunk, hlen⟩ := junkBody_length c d (le_trans h0 hlo)
  refine ⟨junk, ?_, by omega, by omega⟩
  rw [hsize, bind_ok]
  exact hjunk

/-- `generateJunkPacket` under a junk range `ValidateNoizeConfig` accepts. -/
theorem generateJunkPacket_spec {c : NoizeConfig} (h0 : 0 ≤ c.jmin) (hle : c.jmin ≤ c.jmax)
    (hmax : c.jmax ≤ 1400) (d : Draws) :
    ∃ junk, generateJunkPacket c d = .ok junk ∧
      (c.jmin = 0 ∧ c.jmax = 0 → (c.allowZeroSize = true → junk = []) ∧
        (c.allowZeroSize = false → 40 ≤ junk.length ∧ junk.length ≤ 90)) ∧
      (¬(c.jmin = 0 ∧ c.jmax = 0) →
        (if c.allowZeroSize then c.jmin else max c.jmin 1) ≤ junk.length ∧
          (junk.length : Int) ≤ c.jmax) := by
  by_cases hz : c.jmin = 0 ∧ c.jmax = 0 ∧ c.allowZeroSize = true
  · refine ⟨[], by simp [generateJunkPacket, hz], fun _ => ⟨fun _ => rfl, ?_⟩,
      fun h => absurd ⟨hz.1, hz.2.1⟩ h⟩
    intro h
    simp [hz.2.2] at h
  by_cases hdef : c.jmin = 0 ∧ c.jmax = 0
  · have hallow : c.allowZeroSize = false := by simpa [hdef] using hz
    obtain ⟨junk, hjunk, hlo, hhi⟩ := junk_in_range c d 40 90 (by decide) (by decide) (by decide)
    refine ⟨junk, ?_, fun _ => ⟨fun h => by simp [hallow] at h, fun _ => ⟨by omega, by omega⟩⟩,
      fun h => absurd hdef h⟩
    have h40 : ¬(40 : Int) < 1 := by decide
    rw [generateJunkPacket, if_neg hz]
    simpa only [if_pos hdef, hallow, Bool.not_false, true_and, if_neg h40] using hjunk
  cases hallow : c.allowZeroSize with
  | true =>
    obtain ⟨junk, hjunk, hlo, hhi⟩ := junk_in_range c d c.jmin c.jmax h0 hle hmax
    refine ⟨junk, ?_, fun h => absurd h hdef, fun _ => ⟨by simpa using hlo, hhi⟩⟩
    rw [generateJunkPacket, if_neg hz]
    simpa only [if_neg hdef, hallow, Bool.not_true, Bool.false_eq_true, false_and, if_false]
      using hjunk
  | false =>
    obtain ⟨junk, hjunk, hlo, hhi⟩ :=
      junk_in_range c d (max c.jmin 1) c.jmax (by omega) (by omega) hmax
    refine ⟨junk, ?_, fun h => absurd h hdef, fun _ => ⟨by simpa using hlo, hhi⟩⟩
    have hraise : (if c.jmin < 1 then 1 else c.jmin) = max c.jmin 1 := by split <;> omega
    rw [generateJunkPacket, if_neg hz]
    simpa only [if_neg hdef, hallow, Bool.not_false, true_and, hraise] using hjunk

/-- Under a configuration `ValidateNoizeConfig` accepts, `addPadding` leaves a packet of
fewer than 16 bytes, and every packet when padding is off, as it is; otherwise it appends
`PaddingMax` bytes, or a drawn number in `[PaddingMin, PaddingMax]`, cut to what fills the
packet to 1200 bytes. `generateJunkPacket` returns a packet of a length in `[Jmin', Jmax]`,
and for `Jmin = Jmax = 0` the empty packet with zero-size packets allowed and one of 40 to
90 bytes without them. A packet is a slice Go can allocate, far below the `int` range, so
its length plus the padding does not wrap. -/
theorem noize_sizes_in_range (c : NoizeConfig) (hc : validateNoizeConfig c = .ok ())
    (p : List UInt8) (hp : p.length + 500 < 2 ^ 63) (d : Draws) :
    (∃ q, addPadding c p d = .ok (p ++ q) ∧ (c.paddingMax = 0 ∨ p.length < 16 → q = []) ∧
      (c.paddingMax ≠ 0 → 16 ≤ p.length → ∃ size : Int,
        (c.randomPadding = true → c.paddingMin ≤ size ∧ size ≤ c.paddingMax) ∧
        (c.randomPadding = false → size = c.paddingMax) ∧
        (q.length : Int) =
          if 1200 < (p.length : Int) + size then max (1200 - (p.length : Int)) 0 else size)) ∧
    (∃ junk, generateJunkPacket c d = .ok junk ∧
      (c.jmin = 0 ∧ c.jmax = 0 → (c.allowZeroSize = true → junk = []) ∧
        (c.allowZeroSize = false → 40 ≤ junk.length ∧ junk.length ≤ 90)) ∧
      (¬(c.jmin = 0 ∧ c.jmax = 0) →
        (if c.allowZeroSize then c.jmin else max c.jmin 1) ≤ junk.length ∧
          (junk.length : Int) ≤ c.jmax)) := by
  have hacc : NoizeAccepted c := (validateNoizeConfig_ok c).mp hc
  constructor
  · exact addPadding_spec hacc.paddingMin_nonneg hacc.paddingMin_le_paddingMax
      hacc.paddingMax_le p hp d
  · exact generateJunkPacket_spec hacc.jmin_nonneg hacc.jmin_le_jmax hacc.jmax_le d

/-- A fixed padding of 8 bytes on a 16-byte packet, and junk of 2 to 4 bytes. -/
theorem noize_sizes_fixed_padding :
    (∃ q, addPadding { paddingMax := 8, jmin := 2, jmax := 4 } (List.replicate 16 0) {} =
      .ok (List.replicate 16 0 ++ q) ∧ q.length = 8) ∧
    ∃ junk, generateJunkPacket { paddingMax := 8, jmin := 2, jmax := 4 } {} = .ok junk ∧
      2 ≤ junk.length ∧ junk.length ≤ 4 := by
  obtain ⟨⟨q, hq, -, hsize⟩, junk, hjunk, -, hrange⟩ :=
    noize_sizes_in_range { paddingMax := 8, jmin := 2, jmax := 4 } rfl (List.replicate 16 0)
      (by simp) {}
  obtain ⟨size, -, hfixed, hlen⟩ := hsize (by decide) (by simp)
  obtain ⟨hlo, hhi⟩ := hrange (by decide)
  rw [hfixed rfl] at hlen
  refine ⟨⟨q, hq, ?_⟩, junk, hjunk, ?_, ?_⟩
  · simp only [List.length_replicate] at hlen
    omega
  · simpa using hlo
  · have h4 : (junk.length : Int) ≤ 4 := hhi
    omega

end MasqueNoize
