import Mathlib
import Vwarp.Iterator.Generate

/-!
# The segments of `generateIPsFromRange`

`generateIPsFromRange` cuts a range of `size` addresses into `count`
segments of `size / count` addresses, the last one taking the remainder, and
draws at most one address from each. Whether an address keeps the family of
the range's start depends on `addIP`'s `Unmap`: an IPv6 range whose values
reach `::ffff:0:0/96` gives IPv4 addresses there.
-/

namespace Iterator

open Netip GoRuntime ExceptStep

/-- The values `s .. s+n-1` are addresses of `s`'s family as `addIP` returns
them: below `2^32` past an IPv4 start, and below `2^128` and outside
`::ffff:0:0/96` past an IPv6 one. -/
def FamilyRange (s : Addr) (n : Nat) : Prop :=
  match s with
  | .v4 a => a.val + n ≤ 2 ^ 32
  | .v6 a _ => a.val + n ≤ 2 ^ 128 ∧ ∀ k < n, (a.val + k) / 2 ^ 32 ≠ 0xffff
  | .invalid => False

instance (s : Addr) (n : Nat) : Decidable (FamilyRange s n) :=
  match s with
  | .v4 a => inferInstanceAs (Decidable (a.val + n ≤ 2 ^ 32))
  | .v6 a _ => inferInstanceAs (Decidable (a.val + n ≤ 2 ^ 128 ∧ ∀ k < n, (a.val + k) / 2 ^ 32 ≠ 0xffff))
  | .invalid => isFalse id

/-- An address drawn from the offsets `[lo, hi)` past `s`: of `s`'s family,
and not ending in `.0` or `.255` if it is IPv4. -/
structure Picked (s : Addr) (lo hi : Nat) (ip : Addr) : Prop where
  lower : s.u128 + lo ≤ ip.u128
  upper : ip.u128 < s.u128 + hi
  family : ip.bitLen = s.bitLen
  octet : ∀ a, ip = .v4 a → a.val % 256 ≠ 0 ∧ a.val % 256 ≠ 255

/-- Within a range of its family, `addIP` moves the value by the offset and
keeps the family. -/
theorem addIP_family {s : Addr} {n k : Nat} (hfam : FamilyRange s n) (hk : k < n) :
    ∃ ip, addIP s k = .ok ip ∧ ip.u128 = s.u128 + k ∧ ip.bitLen = s.bitLen := by
  match s, hfam with
  | .v4 a, hfam =>
    have hlt : a.val + k < 2 ^ 32 := by simp only [FamilyRange] at hfam; omega
    have hsum : Addr.u128 (.v4 a) + k < 2 ^ 128 := by simp only [Addr.u128, mappedBase]; omega
    have hdiv : (Addr.u128 (.v4 a) + k) / 2 ^ 32 = 0xffff := by
      simp only [Addr.u128, mappedBase]; omega
    have hmod : (Addr.u128 (.v4 a) + k) % 2 ^ 32 = a.val + k := by
      simp only [Addr.u128, mappedBase]; omega
    refine ⟨.v4 ⟨a.val + k, hlt⟩, ?_, ?_, rfl⟩
    · unfold addIP
      rw [dif_neg (Nat.not_le.mpr hsum)]
      simp only [Addr.unmap, hdiv, if_true, hmod]
    · simp only [Addr.u128]
      omega
  | .v6 a z, hfam =>
    obtain ⟨hle, hmapped⟩ := hfam
    have hsum : a.val + k < 2 ^ 128 := by omega
    refine ⟨.v6 ⟨a.val + k, hsum⟩ "", ?_, rfl, rfl⟩
    unfold addIP
    dsimp only [Addr.u128]
    rw [dif_neg (Nat.not_le.mpr hsum)]
    simp only [Addr.unmap, hmapped k hk, if_false]


theorem FamilyRange.ne_invalid {s : Addr} {n : Nat} (hfam : FamilyRange s n) : s.bitLen ≠ 0 := by
  match s, hfam with
  | .v4 _, _ => simp [Addr.bitLen]
  | .v6 _ _, _ => simp [Addr.bitLen]

/-- A draw in a segment of the range yields an address of the segment, or
after `attempts` refused IPv4 candidates none. -/
theorem tryAttempts_picked {s : Addr} {n segStart segSize : Nat} (hfam : FamilyRange s n)
    (hpos : 0 < segSize) (hend : segStart + segSize ≤ n) (draw : Nat → Nat) :
    ∀ attempts k, ∃ r, tryAttempts s segStart segSize draw attempts k = .ok r ∧
      ∀ ip, r = some ip → Picked s segStart (segStart + segSize) ip := by
  intro attempts
  induction attempts with
  | zero =>
    intro k
    exact ⟨none, rfl, by simp⟩
  | succ attempts ih =>
    intro k
    have hoff : segStart + draw k % segSize < n := by
      have := Nat.mod_lt (draw k) hpos
      omega
    obtain ⟨ip, hadd, hval, hfamily⟩ := addIP_family hfam hoff
    have hpick : ∀ a, ip = .v4 a → a.val % 256 ≠ 0 ∧ a.val % 256 ≠ 255 →
        Picked s segStart (segStart + segSize) ip := by
      intro a hip hoct
      refine ⟨by omega, ?_, hfamily, ?_⟩
      · have := Nat.mod_lt (draw k) hpos
        omega
      · intro a' ha'
        rw [hip] at ha'
        cases ha'
        exact hoct
    unfold tryAttempts
    rw [hadd, bind_ok]
    match ip, hfamily, hpick, hval with
    | .invalid, hfamily, _, _ => exact absurd hfamily.symm (by simpa [Addr.bitLen] using hfam.ne_invalid)
    | .v4 a, _, hpick, _ =>
      by_cases hoct : a.val % 256 ≠ 0 ∧ a.val % 256 ≠ 255
      · refine ⟨some (.v4 a), by simp [Addr.isValid, hoct], ?_⟩
        rintro ip ⟨⟩
        exact hpick a rfl hoct
      · simp only [Addr.isValid, Bool.not_true, Bool.false_eq_true, if_false, if_neg hoct]
        exact ih (k + 1)
    | .v6 a z, hfamily, _, hval =>
      refine ⟨some (.v6 a z), by simp [Addr.isValid], ?_⟩
      rintro ip ⟨⟩
      refine ⟨by omega, ?_, hfamily, by simp⟩
      have := Nat.mod_lt (draw k) hpos
      omega


/-- Where segment `i` starts, as the loop computes it. -/
def segStartOf (segmentSize i : Nat) : Nat := i * segmentSize

/-- Where segment `i` ends: the last one at the end of the range. -/
def segEndOf (size count segmentSize i : Nat) : Nat :=
  if i = count - 1 then size else i * segmentSize + segmentSize

section Bounds

/-! The bounds hold for `count` segments of `size / count` addresses, with
`0 < count ≤ size`. -/

variable {n c : Nat} (hc : 0 < c) (hcn : c ≤ n)

include hc hcn

omit hc hcn in
theorem segEndOf_le {i : Nat} (hi : i < c) : segEndOf n c (n / c) i ≤ n := by
  unfold segEndOf
  split
  · exact Nat.le_refl n
  · have h1 : (i + 1) * (n / c) ≤ c * (n / c) := Nat.mul_le_mul_right _ hi
    have h2 : c * (n / c) ≤ n := Nat.mul_div_le n c
    rw [Nat.succ_mul] at h1
    omega

theorem segStartOf_lt {i : Nat} (hi : i < c) : segStartOf (n / c) i < segEndOf n c (n / c) i := by
  have hpos : 0 < n / c := Nat.div_pos hcn hc
  unfold segStartOf segEndOf
  split
  · have h1 : (i + 1) * (n / c) ≤ c * (n / c) := Nat.mul_le_mul_right _ hi
    have h2 : c * (n / c) ≤ n := Nat.mul_div_le n c
    rw [Nat.succ_mul] at h1
    omega
  · omega

omit hcn in
/-- Segments follow one another: a segment ends where a later one may start. -/
theorem segEndOf_le_segStartOf {i j : Nat} (hij : i < j) (hj : j < c) :
    segEndOf n c (n / c) i ≤ segStartOf (n / c) j := by
  have hlast : i ≠ c - 1 := by omega
  have h1 : (i + 1) * (n / c) ≤ j * (n / c) := Nat.mul_le_mul_right _ hij
  rw [Nat.succ_mul] at h1
  simp only [segEndOf, segStartOf, if_neg hlast]
  exact h1

omit hcn in
/-- Two segments holding one offset are the same segment. -/
theorem segment_eq {i j k : Nat} (hi : i < c) (hj : j < c)
    (hki : segStartOf (n / c) i ≤ k ∧ k < segEndOf n c (n / c) i)
    (hkj : segStartOf (n / c) j ≤ k ∧ k < segEndOf n c (n / c) j) : i = j := by
  by_contra hne
  rcases Nat.lt_or_gt_of_ne hne with hlt | hgt
  · have : segEndOf n c (n / c) i ≤ segStartOf (n / c) j := segEndOf_le_segStartOf hc hlt hj
    omega
  · have : segEndOf n c (n / c) j ≤ segStartOf (n / c) i := segEndOf_le_segStartOf hc hgt hi
    omega

/-- The segments partition the range: each offset lies in exactly one. -/
theorem segments_partition {k : Nat} (hk : k < n) :
    ∃! i, i < c ∧ segStartOf (n / c) i ≤ k ∧ k < segEndOf n c (n / c) i := by
  have hpos : 0 < n / c := Nat.div_pos hcn hc
  have hstart : segStartOf (n / c) (min (k / (n / c)) (c - 1)) ≤ k := by
    have h1 : min (k / (n / c)) (c - 1) * (n / c) ≤ k / (n / c) * (n / c) :=
      Nat.mul_le_mul_right _ (Nat.min_le_left _ _)
    exact h1.trans (Nat.div_mul_le_self k _)
  have hend : k < segEndOf n c (n / c) (min (k / (n / c)) (c - 1)) := by
    unfold segEndOf
    split
    · exact hk
    · have hq : min (k / (n / c)) (c - 1) = k / (n / c) := by omega
      rw [hq]
      exact Nat.lt_div_mul_add hpos
  refine ⟨min (k / (n / c)) (c - 1), ⟨by omega, hstart, hend⟩, ?_⟩
  rintro j ⟨hj, hkj⟩
  exact segment_eq hc hj (by omega) hkj ⟨hstart, hend⟩

end Bounds

theorem segmentLoop_succ (start : Addr) (size count segmentSize : Nat) (draw : Nat → Nat → Nat)
    (remaining i : Nat) :
    segmentLoop start size count segmentSize draw (remaining + 1) i =
      if segEndOf size count segmentSize i ≤ segStartOf segmentSize i then
        segmentLoop start size count segmentSize draw remaining (i + 1)
      else
        (tryAttempts start (segStartOf segmentSize i)
            (segEndOf size count segmentSize i - segStartOf segmentSize i) (draw i) maxRetries 0).bind
          fun found => (segmentLoop start size count segmentSize draw remaining (i + 1)).map
            fun ips => found.toList ++ ips := rfl

theorem segStartOf_mono {seg i j : Nat} (h : i ≤ j) : segStartOf seg i ≤ segStartOf seg j :=
  Nat.mul_le_mul_right seg h

/-- The segment loop from segment `i` on draws at most one address from each
segment, in the order of the segments, so in increasing order past the start
of segment `i`. -/
theorem segmentLoop_picked {s : Addr} {n c : Nat} (hfam : FamilyRange s n) (hc : 0 < c) (hcn : c ≤ n)
    (draw : Nat → Nat → Nat) :
    ∀ remaining i, i + remaining = c → ∃ ips idx,
      segmentLoop s n c (n / c) draw remaining i = .ok ips ∧ idx.Pairwise (· < ·) ∧
      List.Forall₂ (fun j ip => i ≤ j ∧ j < c ∧
        Picked s (segStartOf (n / c) j) (segEndOf n c (n / c) j) ip) idx ips ∧
      (ips.map Addr.u128).Pairwise (· < ·) ∧ ∀ ip ∈ ips, s.u128 + segStartOf (n / c) i ≤ ip.u128 := by
  intro remaining
  induction remaining with
  | zero =>
    intro i _
    exact ⟨[], [], rfl, List.Pairwise.nil, List.Forall₂.nil, List.Pairwise.nil, by simp⟩
  | succ r ih =>
    intro i hi
    have hic : i < c := by omega
    obtain ⟨ips, idx, hloop, hsorted, hall, hincr, hlower⟩ := ih (i + 1) (by omega)
    have hlt := segStartOf_lt hc hcn hic
    have hle : segEndOf n c (n / c) i ≤ n := segEndOf_le hic
    obtain ⟨found, htry, hfound⟩ := tryAttempts_picked hfam (by omega)
      (by omega : segStartOf (n / c) i + (segEndOf n c (n / c) i - segStartOf (n / c) i) ≤ n)
      (draw i) maxRetries 0
    have hsum : segStartOf (n / c) i + (segEndOf n c (n / c) i - segStartOf (n / c) i) =
        segEndOf n c (n / c) i := by omega
    have hrest : List.Forall₂ (fun j ip => i ≤ j ∧ j < c ∧
        Picked s (segStartOf (n / c) j) (segEndOf n c (n / c) j) ip) idx ips :=
      hall.imp fun j ip ⟨h1, h2, h3⟩ => ⟨by omega, h2, h3⟩
    have hlower' : ∀ ip ∈ ips, s.u128 + segStartOf (n / c) i ≤ ip.u128 := by
      intro ip hip
      have := hlower ip hip
      have hmono : segStartOf (n / c) i ≤ segStartOf (n / c) (i + 1) :=
        segStartOf_mono (Nat.le_add_right i 1)
      omega
    rw [segmentLoop_succ, if_neg (by omega), htry, bind_ok, hloop, map_ok]
    cases found with
    | none => exact ⟨ips, idx, rfl, hsorted, hrest, hincr, hlower'⟩
    | some ip =>
      have hpick : Picked s (segStartOf (n / c) i) (segEndOf n c (n / c) i) ip := hsum ▸ hfound ip rfl
      refine ⟨ip :: ips, i :: idx, rfl, List.pairwise_cons.mpr ⟨?_, hsorted⟩,
        List.Forall₂.cons ⟨le_refl i, hic, hpick⟩ hrest, ?_, ?_⟩
      · have hafter := ((List.forall₂_and_left idx ips).mp hall).1
        intro j hj
        have := hafter j hj
        omega
      · refine List.pairwise_cons.mpr ⟨?_, hincr⟩
        simp only [List.mem_map]
        rintro _ ⟨ip', hip', rfl⟩
        have hnext : i + 1 < c := by
          by_contra hlast
          obtain rfl : r = 0 := by omega
          cases hloop
          simp at hip'
        have : segEndOf n c (n / c) i ≤ segStartOf (n / c) (i + 1) :=
          segEndOf_le_segStartOf hc (Nat.lt_add_one i) hnext
        have := hlower ip' hip'
        have := hpick.upper
        omega
      · intro ip' hip'
        rcases List.mem_cons.mp hip' with rfl | hip'
        · exact hpick.lower
        · exact hlower' ip' hip'

/-- What a relation says of the right-hand elements holds of all of them. -/
theorem forall_mem_of_forall₂ {α β : Type} {R : α → β → Prop} {p : β → Prop}
    (hR : ∀ a b, R a b → p b) : ∀ {l₁ : List α} {l₂ : List β}, List.Forall₂ R l₁ l₂ → ∀ b ∈ l₂, p b
  | _, _, .nil => by simp
  | _, _, .cons hab h => by
    intro b hb
    rcases List.mem_cons.mp hb with rfl | hb
    · exact hR _ _ hab
    · exact forall_mem_of_forall₂ hR h b hb

theorem Addr.compare_lt_of_u128_lt {a b : Addr} (hfam : a.bitLen = b.bitLen) (h : a.u128 < b.u128) :
    Addr.compare a b = .lt := by
  simp [Addr.compare, hfam, compare_lt_iff_lt.mpr h]

/-- With a positive count, `generateIPsFromRange` runs the segment loop over
`min count size` segments. -/
theorem generateIPsFromRange_eq (s : Addr) (n : Nat) (count : Int) (hcount : 0 < count)
    (draw : Nat → Nat → Nat) :
    generateIPsFromRange s n count draw =
      segmentLoop s n (min count.toNat n) (n / min count.toNat n) draw (min count.toNat n) 0 := by
  have hclamp : (if (n : Int) < count then (n : Int) else count) = ((min count.toNat n : Nat) : Int) := by
    split <;> omega
  unfold generateIPsFromRange
  dsimp only
  rw [hclamp]
  by_cases hn : min count.toNat n = 0
  · rw [hn]
    rfl
  · rw [if_neg (by omega), Int.toNat_natCast]

/-- `generateIPsFromRange` on a range of its start's family: the
`min count size` segments partition the range, and without failing it
returns at most one address per segment, in segment order, so strictly
increasing; each lies in the range, has the start's family, and if IPv4 does
not end in `.0` or `.255`. -/
theorem generate_ips_in_segments (s : Addr) (n : Nat) (hfam : FamilyRange s n) (count : Int)
    (hcount : 0 < count) (hn : 0 < n) (draw : Nat → Nat → Nat) :
    (∀ k < n, ∃! i, i < min count.toNat n ∧ segStartOf (n / min count.toNat n) i ≤ k ∧
      k < segEndOf n (min count.toNat n) (n / min count.toNat n) i) ∧
    ∃ ips, generateIPsFromRange s n count draw = .ok ips ∧ ips.length ≤ min count.toNat n ∧
      ips.Pairwise (fun a b => Addr.compare a b = .lt) ∧
      (∀ ip ∈ ips, s.u128 ≤ ip.u128 ∧ ip.u128 < s.u128 + n ∧ ip.bitLen = s.bitLen ∧
        ∀ a, ip = .v4 a → a.val % 256 ≠ 0 ∧ a.val % 256 ≠ 255) ∧
      ∃ idx : List Nat, idx.Pairwise (· < ·) ∧
        List.Forall₂ (fun i ip => i < min count.toNat n ∧
          s.u128 + segStartOf (n / min count.toNat n) i ≤ ip.u128 ∧
          ip.u128 < s.u128 + segEndOf n (min count.toNat n) (n / min count.toNat n) i) idx ips := by
  have hc : 0 < min count.toNat n := by omega
  have hcn : min count.toNat n ≤ n := Nat.min_le_right _ _
  refine ⟨fun k hk => segments_partition hc hcn hk, ?_⟩
  obtain ⟨ips, idx, hloop, hsorted, hall, hincr, -⟩ :=
    segmentLoop_picked hfam hc hcn draw (min count.toNat n) 0 (Nat.zero_add _)
  have hmem : ∀ ip ∈ ips, s.u128 ≤ ip.u128 ∧ ip.u128 < s.u128 + n ∧ ip.bitLen = s.bitLen ∧
      ∀ a, ip = .v4 a → a.val % 256 ≠ 0 ∧ a.val % 256 ≠ 255 := by
    refine forall_mem_of_forall₂ (fun j ip h => ?_) hall
    obtain ⟨-, hj, hpick⟩ := h
    have hend : segEndOf n (min count.toNat n) (n / min count.toNat n) j ≤ n := segEndOf_le hj
    have hlower := hpick.lower
    have hupper := hpick.upper
    exact ⟨by omega, by omega, hpick.family, hpick.octet⟩
  have hlen : ips.length ≤ min count.toNat n := by
    rw [← hall.length_eq]
    have hsub : idx ⊆ List.range (min count.toNat n) := by
      intro j hj
      exact List.mem_range.mpr (((List.forall₂_and_left idx ips).mp
        (hall.imp fun j ip h => ⟨h.2.1, h⟩)).1 j hj)
    have hnodup : idx.Nodup := hsorted.imp Nat.ne_of_lt
    simpa using (hnodup.subperm hsub).length_le
  refine ⟨ips, (generateIPsFromRange_eq s n count hcount draw).trans hloop, hlen, ?_, hmem, idx, hsorted,
    hall.imp fun j ip h => ⟨h.2.1, h.2.2.lower, h.2.2.upper⟩⟩
  apply (List.pairwise_map.mp hincr).imp_of_mem
  intro a b ha hb hab
  exact Addr.compare_lt_of_u128_lt ((hmem a ha).2.2.1.trans (hmem b hb).2.2.1.symm) hab

/-- The segments of `1.2.3.0/24` for four draws: four addresses, one per
quarter, at offset 5 of each. -/
theorem generate_ips_in_segments_quarters :
    ∃ ips, generateIPsFromRange (.v4 ⟨0x01020300, by decide⟩) 256 4 (fun _ _ => 5) = .ok ips ∧
      ips.length ≤ min (4 : Int).toNat 256 :=
  have ⟨_, ips, hgen, hlen, _⟩ := generate_ips_in_segments (.v4 ⟨0x01020300, by decide⟩) 256
    (by decide) 4 (by decide) (by decide) (fun _ _ => 5)
  ⟨ips, hgen, hlen⟩

/-- The masked prefix `::ffff:1.2.3.0/120` is an IPv6 range, and the address
drawn from it comes back IPv4: `addIP` unmaps it. -/
theorem mapped_prefix_yields_ipv4 :
    (newIPRange (prefixFrom (.v6 ⟨0xffff01020300, by decide⟩ "") 120).masked).start.is6 = true ∧
      generateIPsFromRange (newIPRange (prefixFrom (.v6 ⟨0xffff01020300, by decide⟩ "") 120).masked).start
        (newIPRange (prefixFrom (.v6 ⟨0xffff01020300, by decide⟩ "") 120).masked).size 1 (fun _ _ => 5) =
        .ok [.v4 ⟨0x01020305, by decide⟩] := by
  decide

end Iterator
