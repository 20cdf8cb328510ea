import Vwarp.Lib.BitString
import Vwarp.Lib.PrefixMatch

/-!
# The allowed-IPs trie

`AllowedIPs` routes a packet to the peer whose allowed prefix holds its address,
the longest such prefix when several do. Each address family has a binary trie of
`trieEntry` nodes; a node holds a prefix (its address `bits` masked to `cidr`), the
peer of that prefix or none for a node that only branches, and two children split
on bit `cidr` of the address. `insert` walks down with `nodePlacement` while the
node's prefix covers the new one; it then replaces the peer of an equal prefix, hangs
the new node in an empty slot, puts it above the subtree it covers, or joins it and
that subtree under a new branching node at their first differing bit. `lookup` walks
down while the node's prefix holds the address, remembering the last peer it saw.

What a trie holds is a map from prefixes to peers (`Trie.view`), each prefix its
first bits as a list. On every trie `insert` builds (`WF`), `insert` adds one entry to
that map (`insert_spec`) and `lookup` is the longest-prefix match in it
(`lookup_eq_lpm`).

The parent pointers and per-peer lists serve `RemoveByPeer` and `EntriesForPeer`,
which are not modelled; nor is the table's lock.
-/

namespace AllowedIPs

open BigEndian BitString PrefixMatch

universe u

/-- The two address families, each with its own trie, of `net.IPv4len` and
`net.IPv6len` bytes. -/
inductive Family
  | v4
  | v6
  deriving DecidableEq, Repr

def Family.len : Family → Nat
  | .v4 => 4
  | .v6 => 16

/-- `commonBits`: the leading bits two addresses share. Go picks the branch by
`len(ip1)`; every call passes two addresses of the trie's family, so the `panic`
on other lengths is never reached and the family stands for the length. -/
def commonBits (fam : Family) (ip1 ip2 : List UInt8) : Nat :=
  match fam with
  | .v4 => leadingZeros 32 (ofBytes (ip1.take 4) ^^^ ofBytes (ip2.take 4))
  | .v6 =>
    let x := ofBytes (ip1.take 8) ^^^ ofBytes (ip2.take 8)
    if x ≠ 0 then leadingZeros 64 x
    else 64 + leadingZeros 64 (ofBytes ((ip1.drop 8).take 8) ^^^ ofBytes ((ip2.drop 8).take 8))

/-- `choose`: bit `cidr` of `ip`, `(ip[bitAtByte] >> bitAtShift) & 1` with
`bitAtByte = cidr / 8` and `bitAtShift = 7 - cidr % 8` as every node sets them.
Every call asks for a bit inside the address. -/
def choose (cidr : Nat) (ip : List UInt8) : UInt8 :=
  (ip.getD (cidr / 8) 0 >>> (7 - cidr % 8).toUInt8) &&& 1

/-- The loop of `net.CIDRMask` on `l` bytes: `n` ones, then zeros. -/
def maskBytes : Nat → Nat → List UInt8
  | _, 0 => []
  | n, l + 1 =>
    if 8 ≤ n then 0xff :: maskBytes (n - 8) l
    else ~~~((0xff : UInt8) >>> n.toUInt8) :: maskBytes 0 l

/-- `net.CIDRMask(ones, bits)`: `nil` unless `bits` is an address length and `ones`
at most `bits`. -/
def cidrMask (ones bits : Nat) : List UInt8 :=
  if bits ≠ 8 * 4 ∧ bits ≠ 8 * 16 then []
  else if ones > bits then []
  else maskBytes ones (bits / 8)

/-- `maskSelf`: `bits[i] &= mask[i]` over the mask of `cidr` ones. -/
def maskSelf (bits : List UInt8) (cidr : Nat) : List UInt8 :=
  let mask := cidrMask cidr (bits.length * 8)
  List.zipWith (fun x m => x &&& m) bits mask ++ bits.drop mask.length

/-- `trieEntry`: the peer, none for a node that only branches; the address masked
to `cidr`; the children for bit `cidr` equal to `0` and to `1`. -/
inductive Trie (α : Type u) where
  | nil
  | node (peer : Option α) (bits : List UInt8) (cidr : Nat) (child0 child1 : Trie α)
  deriving Repr

namespace Trie

variable {α : Type u}

/-- `node.bits`; every node it is read from is not `nil`. -/
def bits : Trie α → List UInt8
  | nil => []
  | node _ b _ _ _ => b

@[simp] theorem bits_node (p : Option α) (b : List UInt8) (c : Nat) (t0 t1 : Trie α) :
    (node p b c t0 t1).bits = b := rfl

/-- `node.child[bit] = x` on a node. -/
def setChild : Trie α → UInt8 → Trie α → Trie α
  | nil, _, _ => nil
  | node p b c t0 t1, bit, x => if bit = 0 then node p b c x t1 else node p b c t0 x

end Trie

open Trie

variable {α : Type u}

/-- The test of `nodePlacement`'s loop:
`node != nil && node.cidr <= cidr && commonBits(node.bits, ip) >= node.cidr`. -/
def enters (fam : Family) (ip : List UInt8) (cidr : Nat) : Trie α → Bool
  | nil => false
  | node _ b c _ _ => decide (c ≤ cidr) && decide (c ≤ commonBits fam b ip)

/-- Lines 146–180 of `insert`: `down`, the subtree `nodePlacement` stopped at, and
`newNode` go under one subtree, `newNode` above `down` when its prefix covers `down`'s
and else both under a new branching node at their first differing bit. `ip` is
already masked: `newNode.maskSelf()` masks the caller's slice, which `newNode.bits`
shares. -/
def split (fam : Family) (ip : List UInt8) (cidr : Nat) (peer : α) (down : Trie α) : Trie α :=
  let newNode : Trie α := node (some peer) ip cidr nil nil
  let common := commonBits fam down.bits ip
  let cidr' := if common < cidr then common else cidr
  if cidr = cidr' then
    newNode.setChild (choose cidr down.bits) down
  else
    let branch : Trie α := node none (maskSelf ip cidr') cidr' nil nil
    (branch.setChild (choose cidr' down.bits) down).setChild (choose cidr' ip) newNode

/-- Lines 124–188 of `insert` below the parent `node p b c t0 t1` that
`nodePlacement` returned: the new node goes into the empty slot on its side, or the
subtree there is `split` and hung back on the side of its new top. -/
def attach (fam : Family) (ip : List UInt8) (cidr : Nat) (peer : α)
    (p : Option α) (b : List UInt8) (c : Nat) (t0 t1 : Trie α) : Trie α :=
  let ip := maskSelf ip cidr
  let parent := node p b c t0 t1
  let bit := choose c ip
  let down := if bit = 0 then t0 else t1
  match down with
  | nil => parent.setChild bit (node (some peer) ip cidr nil nil)
  | node .. =>
    let r := split fam ip cidr peer down
    parent.setChild (choose c r.bits) r

/-- `nodePlacement` from a node its loop has entered, and the rest of `insert`: an
equal prefix takes the new peer; else the loop goes on into the child on `ip`'s side
when it enters that too, and otherwise this node is the parent of the new one. -/
def insertBelow (fam : Family) (ip : List UInt8) (cidr : Nat) (peer : α) : Trie α → Trie α
  | nil => nil
  | node p b c t0 t1 =>
    if c = cidr then node (some peer) b c t0 t1
    else if choose c ip = 0 then
      if enters fam ip cidr t0 then node p b c (insertBelow fam ip cidr peer t0) t1
      else attach fam ip cidr peer p b c t0 t1
    else
      if enters fam ip cidr t1 then node p b c t0 (insertBelow fam ip cidr peer t1)
      else attach fam ip cidr peer p b c t0 t1

/-- `parentIndirection.insert` on the root of a trie: a new root in an empty trie;
else `nodePlacement` from the root, and when the root does not enter its loop the
root is `down` and there is no parent. -/
def insert (fam : Family) (ip : List UInt8) (cidr : Nat) (peer : α) (root : Trie α) : Trie α :=
  match root with
  | nil => node (some peer) (maskSelf ip cidr) cidr nil nil
  | node .. =>
    if enters fam ip cidr root then insertBelow fam ip cidr peer root
    else split fam (maskSelf ip cidr) cidr peer root

/-- `lookup`: down from the root while the node's prefix holds `ip`, keeping the
last peer seen, and no further than a node of full length (`bitAtByte == size`). -/
def lookup (fam : Family) (ip : List UInt8) : Trie α → Option α → Option α
  | nil, found => found
  | node p b c t0 t1, found =>
    if c ≤ commonBits fam b ip then
      if c / 8 = ip.length then p.or found
      else if choose c ip = 0 then lookup fam ip t0 (p.or found)
      else lookup fam ip t1 (p.or found)
    else found

/-! ## Bits of addresses

Every word operation of the trie reads or compares bits of addresses: `choose` reads
one (`choose_eq`), `commonBits` compares prefixes (`le_commonBits_iff`), and
`maskSelf` clears the bits past the prefix and keeps the ones before it
(`bit_maskSelf`). The proofs below use only these three facts. -/

section Bits

variable {fam : Family} {b ip : List UInt8} {c d i : Nat}

/-- The bits of the bytes `net.CIDRMask` writes: `0xff`, and `n` ones then zeros. -/
theorem full_byte : ∀ i : Fin 8, (0xff : UInt8).toNat.testBit (7 - i) = true := by
  decide

theorem mask_byte : ∀ n : Fin 8, ∀ i : Fin 8,
    (~~~((0xff : UInt8) >>> (n : Nat).toUInt8)).toNat.testBit (7 - i) = decide ((i : Nat) < n) := by
  decide

theorem shiftRight_and_one {x : UInt8} {k : Nat} (hk : k < 8) :
    (x >>> k.toUInt8 &&& 1) = if x.toNat.testBit k then 1 else 0 := by
  apply UInt8.toNat_inj.mp
  have hk' : k.toUInt8.toNat % 8 = k := by
    rw [Nat.toUInt8_eq, UInt8.toNat_ofNat']
    omega
  rw [UInt8.toNat_and, UInt8.toNat_shiftRight, hk', UInt8.toNat_one, Nat.and_one_is_mod,
    Nat.shiftRight_eq_div_pow, Nat.testBit_eq_decide_div_mod_eq]
  split <;> rename_i h
  · simpa using h
  · simp only [decide_eq_true_eq] at h
    simp only [UInt8.toNat_zero]
    omega

theorem choose_eq (cidr : Nat) (ip : List UInt8) :
    choose cidr ip = if bit ip cidr then 1 else 0 := by
  rw [choose, shiftRight_and_one (by omega), bit]

theorem choose_eq_zero_iff : choose c ip = 0 ↔ bit ip c = false := by
  rw [choose_eq]
  cases bit ip c <;> decide

/-- `commonBits` on two words of `8 * n` bits, as `BitString` has it. -/
theorem le_leadingZeros_take_iff {n : Nat} (hb : n ≤ b.length) (hip : n ≤ ip.length)
    (hd : d ≤ 8 * n) :
    d ≤ leadingZeros (8 * n) (ofBytes (b.take n) ^^^ ofBytes (ip.take n)) ↔
      ∀ i < d, bit b i = bit ip i := by
  have hlen : (b.take n).length = n := List.length_take_of_le hb
  have h := le_leadingZeros_ofBytes_iff (show (b.take n).length = (ip.take n).length by
    rw [hlen, List.length_take_of_le hip]) (show d ≤ 8 * (b.take n).length by rw [hlen]; exact hd)
  rw [hlen, prefixBits_eq_iff] at h
  rw [h]
  refine forall₂_congr fun i hi => ?_
  rw [bit_take (by omega), bit_take (by omega)]

theorem commonBits_le (fam : Family) (b ip : List UInt8) : commonBits fam b ip ≤ 8 * fam.len := by
  cases fam with
  | v4 => exact leadingZeros_le _ _
  | v6 =>
    simp only [commonBits]
    split
    · exact (leadingZeros_le _ _).trans (by decide)
    · have := leadingZeros_le 64
        (ofBytes ((b.drop 8).take 8) ^^^ ofBytes ((ip.drop 8).take 8))
      simp only [Family.len]
      omega

/-- `commonBits` counts the leading bits two addresses of the family share. -/
theorem le_commonBits_iff (hb : b.length = fam.len) (hip : ip.length = fam.len)
    (hc : c ≤ 8 * fam.len) :
    c ≤ commonBits fam b ip ↔ prefixBits b c = prefixBits ip c := by
  rw [prefixBits_eq_iff]
  cases fam with
  | v4 =>
    simp only [Family.len] at hb hip hc
    exact le_leadingZeros_take_iff (n := 4) (by omega) (by omega) hc
  | v6 =>
    simp only [Family.len] at hb hip hc
    have hhigh : ∀ {d}, d ≤ 64 →
        (d ≤ leadingZeros 64 (ofBytes (b.take 8) ^^^ ofBytes (ip.take 8)) ↔
          ∀ i < d, bit b i = bit ip i) :=
      fun hd => le_leadingZeros_take_iff (n := 8) (by omega) (by omega) hd
    have hlow : ∀ {d}, d ≤ 64 →
        (d ≤ leadingZeros 64 (ofBytes ((b.drop 8).take 8) ^^^ ofBytes ((ip.drop 8).take 8)) ↔
          ∀ i < d, bit b (64 + i) = bit ip (64 + i)) := by
      intro d hd
      rw [le_leadingZeros_take_iff (n := 8) (by simp; omega) (by simp; omega) hd]
      simp only [bit_drop]
    simp only [commonBits]
    split
    · rename_i hx
      have hlt := leadingZeros_lt (show 0 < 64 by decide) hx
      by_cases hc64 : c ≤ 64
      · exact hhigh hc64
      · refine ⟨fun h => absurd h (by omega), fun h => absurd ((hhigh le_rfl).mpr ?_) (by omega)⟩
        exact fun i hi => h i (by omega)
    · rename_i hx
      have hx0 : ofBytes (b.take 8) ^^^ ofBytes (ip.take 8) = 0 := not_not.mp hx
      have hagree := (hhigh (d := 64) le_rfl).mp (by rw [hx0, leadingZeros_zero])
      by_cases hc64 : c ≤ 64
      · exact ⟨fun _ i hi => hagree i (by omega), fun _ => by omega⟩
      · have hshift : ∀ y, c ≤ 64 + y ↔ c - 64 ≤ y := fun y => by omega
        rw [hshift, hlow (by omega)]
        constructor
        · intro h i hi
          by_cases hi64 : i < 64
          · exact hagree i hi64
          · simpa [show 64 + (i - 64) = i by omega] using h (i - 64) (by omega)
        · exact fun h i hi => h (64 + i) (by omega)

theorem length_maskBytes (n l : Nat) : (maskBytes n l).length = l := by
  induction l generalizing n with
  | zero => rfl
  | succ l ih =>
    simp only [maskBytes]
    split <;> simp [ih]

theorem bit_maskBytes {n l : Nat} (h : n ≤ 8 * l) (i : Nat) :
    bit (maskBytes n l) i = decide (i < n) := by
  induction l generalizing n i with
  | zero => simp [maskBytes, bit, show n = 0 by omega]
  | succ l ih =>
    simp only [maskBytes]
    split <;> rename_i h8
    · rw [bit_cons]
      split <;> rename_i hi
      · simpa [hi, show i < n by omega] using full_byte ⟨i, hi⟩
      · rw [ih (by omega)]
        exact decide_eq_decide.mpr (by omega)
    · rw [bit_cons]
      split <;> rename_i hi
      · have := mask_byte ⟨n, by omega⟩ ⟨i, hi⟩
        simpa using this
      · rw [ih (by omega)]
        exact decide_eq_decide.mpr (by omega)

theorem bit_zipWith_and {u v : List UInt8} (h : u.length = v.length) (i : Nat) :
    bit (List.zipWith (fun x m => x &&& m) u v) i = (bit u i && bit v i) := by
  simp only [bit, List.getD_eq_getElem?_getD, List.getElem?_zipWith]
  by_cases hk : i / 8 < u.length
  · rw [List.getElem?_eq_getElem hk, List.getElem?_eq_getElem (h ▸ hk)]
    simp [UInt8.toNat_and, Nat.testBit_and]
  · rw [List.getElem?_eq_none (by omega), List.getElem?_eq_none (by omega)]
    simp

theorem maskSelf_eq (hb : b.length = fam.len) (hc : c ≤ 8 * fam.len) :
    maskSelf b c = List.zipWith (fun x m => x &&& m) b (maskBytes c fam.len) := by
  have hmask : cidrMask c (b.length * 8) = maskBytes c fam.len := by
    cases fam with
    | v4 =>
      simp only [Family.len] at hb hc ⊢
      simp [cidrMask, hb, show ¬ c > 32 by omega]
    | v6 =>
      simp only [Family.len] at hb hc ⊢
      simp [cidrMask, hb, show ¬ c > 128 by omega]
  rw [maskSelf, hmask, length_maskBytes, ← hb, List.drop_length, List.append_nil]

@[simp] theorem length_maskSelf (hb : b.length = fam.len) (hc : c ≤ 8 * fam.len) :
    (maskSelf b c).length = fam.len := by
  rw [maskSelf_eq hb hc, List.length_zipWith, length_maskBytes, hb, Nat.min_self]

/-- `maskSelf` keeps the prefix and clears the bits after it. -/
theorem bit_maskSelf (hb : b.length = fam.len) (hc : c ≤ 8 * fam.len) (i : Nat) :
    bit (maskSelf b c) i = (bit b i && decide (i < c)) := by
  rw [maskSelf_eq hb hc, bit_zipWith_and (by rw [hb, length_maskBytes]), bit_maskBytes hc]

theorem prefixBits_maskSelf (hb : b.length = fam.len) (hc : c ≤ 8 * fam.len) (hd : d ≤ c) :
    prefixBits (maskSelf b c) d = prefixBits b d := by
  rw [prefixBits_eq_iff]
  intro i hi
  rw [bit_maskSelf hb hc, decide_eq_true (by omega), Bool.and_true]

end Bits

/-! ## What a trie holds -/

/-- The map a trie holds: the prefix of each node, the first `cidr` bits of its
address, to its peer. -/
def Trie.view : Trie α → List Bool → Option α
  | nil, _ => none
  | node p b c t0 t1, q => if q = prefixBits b c then p else (t0.view q).or (t1.view q)

/-- The shape of the tries `insert` builds: addresses of the family's length,
prefixes no longer than them, and every node's prefix extending `lo`, for a child
its parent's prefix and the bit it hangs on. -/
inductive WF (fam : Family) : List Bool → Trie α → Prop
  | nil (lo : List Bool) : WF fam lo nil
  | node {lo : List Bool} {p : Option α} {b : List UInt8} {c : Nat} {t0 t1 : Trie α}
      (length_bits : b.length = fam.len) (cidr_le : c ≤ 8 * fam.len)
      (lo_below : lo <+: prefixBits b c)
      (wf0 : WF fam (prefixBits b c ++ [false]) t0)
      (wf1 : WF fam (prefixBits b c ++ [true]) t1) : WF fam lo (node p b c t0 t1)

section View

variable {fam : Family} {lo q : List Bool} {p : Option α} {b : List UInt8} {c : Nat}
  {t t0 t1 : Trie α}

theorem prefix_append_singleton_eq {l : List Bool} {x y : Bool} (hx : l ++ [x] <+: q)
    (hy : l ++ [y] <+: q) : x = y := by
  have h := List.prefix_of_prefix_length_le hx hy (by simp)
  have := h.eq_of_length (by simp)
  simpa using this

theorem view_node_self : (node p b c t0 t1).view (prefixBits b c) = p := by
  simp [Trie.view]

/-- A trie below `lo` holds nothing outside `lo`. -/
theorem WF.view_eq_none (h : WF fam lo t) (hq : ¬ lo <+: q) : t.view q = none := by
  induction h with
  | nil => rfl
  | @node lo p b c t0 t1 _ _ hlo _ _ ih0 ih1 =>
    have hne : q ≠ prefixBits b c := fun heq => hq (heq ▸ hlo)
    have hbelow : ∀ x, ¬ prefixBits b c ++ [x] <+: q := fun x hx =>
      hq (hlo.trans ((List.prefix_append _ _).trans hx))
    rw [Trie.view, if_neg hne, ih0 (hbelow false), ih1 (hbelow true)]
    rfl

/-- A node can stand below any prefix of its own prefix. -/
theorem WF.node_below {lo' : List Bool} (h : WF fam lo (Trie.node p b c t0 t1))
    (hlo : lo' <+: prefixBits b c) : WF fam lo' (Trie.node p b c t0 t1) := by
  cases h with
  | node hb hc _ h0 h1 => exact .node hb hc hlo h0 h1

/-- Below a node and on the side of bit `x`, the node holds what that child holds. -/
theorem WF.view_of_prefix {x : Bool} (h : WF fam lo (Trie.node p b c t0 t1))
    (hq : prefixBits b c ++ [x] <+: q) :
    (Trie.node p b c t0 t1).view q = (if x then t1 else t0).view q := by
  cases h with
  | node _ _ _ h0 h1 =>
    have hne : q ≠ prefixBits b c := fun heq => by simpa [heq] using hq.length_le
    rw [Trie.view, if_neg hne]
    cases x with
    | false =>
      rw [h1.view_eq_none fun h' => absurd (prefix_append_singleton_eq hq h') (by decide),
        Option.or_none]
      rfl
    | true =>
      rw [h0.view_eq_none fun h' => absurd (prefix_append_singleton_eq hq h') (by decide),
        Option.none_or]
      rfl

theorem eq_bit_of_append_eq {ip : List UInt8} {rest : List Bool} {x : Bool} {n : Nat}
    (h : lo ++ x :: rest = prefixBits ip n) : x = bit ip lo.length := by
  have := congrArg (fun l => l[lo.length]?) h
  by_cases hn : lo.length < n
  · simpa [prefixBits, hn] using this
  · have hlen := congrArg List.length h
    simp at hlen
    omega

end View

/-! ## `lookup` -/

section Lookup

variable {fam : Family} {ip : List UInt8} {lo : List Bool} {t : Trie α}

/-- On every trie `insert` builds, `lookup` is the longest-prefix match in the map
the trie holds: `lookup` from a subtree below `lo` matches the rest of the address
after `lo`. -/
theorem lookup_eq_lpm (hip : ip.length = fam.len) (h : WF fam lo t) {rest : List Bool}
    (hrest : lo ++ rest = prefixBits ip (8 * fam.len)) (found : Option α) :
    lookup fam ip t found = (lpm t.view lo rest).or found := by
  induction h generalizing rest found with
  | nil lo =>
    have : lpm (nil : Trie α).view lo rest = none :=
      (lpm_eq_none_iff _).mpr fun _ _ _ => rfl
    rw [this, Option.none_or]
    rfl
  | @node lo p b c t0 t1 hb hc hlo h0 h1 ih0 ih1 =>
    have hwf : WF fam lo (node p b c t0 t1) := .node hb hc hlo h0 h1
    by_cases hent : c ≤ commonBits fam b ip
    · have hpfx : prefixBits b c = prefixBits ip c := (le_commonBits_iff hb hip hc).mp hent
      obtain ⟨mid, hmid⟩ := hlo
      have hmidrest : mid <+: rest := by
        rw [← List.prefix_append_right_inj lo, hmid, hrest, hpfx]
        exact prefixBits_prefix hc
      obtain ⟨rest', hrest'⟩ := hmidrest
      have hK : prefixBits b c ++ rest' = prefixBits ip (8 * fam.len) := by
        rw [← hmid, List.append_assoc, hrest', hrest]
      have hskip : lpm (node p b c t0 t1).view lo rest =
          lpm (node p b c t0 t1).view (prefixBits b c) rest' := by
        rw [← hrest', lpm_append, hmid]
        intro q _ hq hlen
        refine (hwf.node_below (List.prefix_refl _)).view_eq_none fun h' => ?_
        have := h'.length_le
        rw [hmid] at hlen
        omega
      rw [hskip]
      have hlen : c + rest'.length = 8 * fam.len := by
        simpa using congrArg List.length hK
      cases rest' with
      | nil =>
        have hfull : c / 8 = ip.length := by
          rw [hip]
          simp at hlen
          omega
        simp only [lookup, if_pos hent, if_pos hfull, lpm_nil, view_node_self]
      | cons x rest'' =>
        have hx : x = bit ip c := by simpa using eq_bit_of_append_eq hK
        have hnotfull : c / 8 ≠ ip.length := by
          simp at hlen
          omega
        have hnext : lpm (node p b c t0 t1).view (prefixBits b c ++ [x]) rest'' =
            lpm (if x then t1 else t0).view (prefixBits b c ++ [x]) rest'' :=
          lpm_congr _ _ fun q hq _ => hwf.view_of_prefix hq
        have hK' : prefixBits b c ++ [x] ++ rest'' = prefixBits ip (8 * fam.len) := by
          rw [List.append_assoc, List.singleton_append, hK]
        rw [lpm_cons, hnext, view_node_self]
        simp only [lookup, if_pos hent, if_neg hnotfull]
        cases x with
        | false =>
          rw [if_pos (choose_eq_zero_iff.mpr hx.symm), ih0 hK', Option.or_assoc]
          rfl
        | true =>
          rw [if_neg (fun h0 => by simp [choose_eq_zero_iff.mp h0] at hx), ih1 hK', Option.or_assoc]
          rfl
    · have hnone : lpm (node p b c t0 t1).view lo rest = none := by
        refine (lpm_eq_none_iff _).mpr fun q _ hq => ?_
        refine (hwf.node_below (List.prefix_refl _)).view_eq_none fun hpq => hent ?_
        have hpK : prefixBits b c <+: prefixBits ip (8 * fam.len) := hrest ▸ hpq.trans hq
        obtain ⟨-, hpfx⟩ := prefix_prefixBits_iff.mp hpK
        rw [le_commonBits_iff hb hip hc]
        simpa using hpfx
      simp only [lookup, if_neg hent, hnone, Option.none_or]

end Lookup

/-! ## `insert`

Every case of `insert` ends in a node with a new subtree on one side, the side of
the new prefix's bit at the node's `cidr`, and an old one on the other: `sides`
names that shape, `setChild_choose` puts `insert`'s writes in it, and `WF.sides`
and `view_sides` say what such a node is and holds. -/

/-- The node with `s` on the side of bit `x` and `s'` on the other. -/
def sides (p : Option α) (b : List UInt8) (c : Nat) (x : Bool) (s s' : Trie α) : Trie α :=
  if x then node p b c s' s else node p b c s s'

section Sides

variable {fam : Family} {lo q key : List Bool} {p : Option α} {b d : List UInt8} {c : Nat}
  {x : Bool} {s s' t0 t1 : Trie α}

theorem setChild_choose (hx : bit d c = x) :
    (node p b c t0 t1).setChild (choose c d) s = sides p b c x s (if x then t0 else t1) := by
  cases x <;> simp [Trie.setChild, choose_eq, hx, sides]

theorem node_eq_sides (x : Bool) :
    node p b c t0 t1 = sides p b c x (if x then t1 else t0) (if x then t0 else t1) := by
  cases x <;> rfl

theorem WF.sides (hb : b.length = fam.len) (hc : c ≤ 8 * fam.len) (hlo : lo <+: prefixBits b c)
    (hs : WF fam (prefixBits b c ++ [x]) s) (hs' : WF fam (prefixBits b c ++ [!x]) s') :
    WF fam lo (AllowedIPs.sides p b c x s s') := by
  cases x
  · exact .node hb hc hlo hs hs'
  · exact .node hb hc hlo hs' hs

theorem WF.this_side (h : WF fam lo (Trie.node p b c t0 t1)) :
    WF fam (prefixBits b c ++ [x]) (if x then t1 else t0) := by
  cases h with
  | node _ _ _ h0 h1 => cases x <;> assumption

theorem WF.other_side (h : WF fam lo (Trie.node p b c t0 t1)) :
    WF fam (prefixBits b c ++ [!x]) (if x then t0 else t1) := by
  cases h with
  | node _ _ _ h0 h1 => cases x <;> assumption

/-- Two subtrees on the two sides of a node never both hold a prefix, so the node
holds what either holds. -/
theorem view_sides (hs : WF fam (prefixBits b c ++ [x]) s)
    (hs' : WF fam (prefixBits b c ++ [!x]) s') :
    (AllowedIPs.sides p b c x s s').view q =
      if q = prefixBits b c then p else (s.view q).or (s'.view q) := by
  cases x with
  | false => rfl
  | true =>
    simp only [AllowedIPs.sides, if_true, Trie.view]
    split
    · rfl
    · by_cases hq : prefixBits b c ++ [true] <+: q
      · rw [hs'.view_eq_none fun h' => absurd (prefix_append_singleton_eq hq h') (by decide),
          Option.none_or, Option.or_none]
      · rw [hs.view_eq_none hq, Option.none_or, Option.or_none]

theorem view_leaf (peer : α) :
    (node (some peer) b c nil nil).view = Function.update (nil : Trie α).view (prefixBits b c) (some peer) := by
  funext q
  by_cases hq : q = prefixBits b c <;> simp [Trie.view, Function.update_apply, hq]

theorem WF.leaf (hb : b.length = fam.len) (hc : c ≤ 8 * fam.len) (hlo : lo <+: prefixBits b c)
    (peer : α) : WF fam lo (Trie.node (some peer) b c Trie.nil Trie.nil) :=
  .node hb hc hlo (.nil _) (.nil _)

/-- Replacing the subtree on the side of a new prefix by one that holds it as well
makes the node hold it too. -/
theorem WF.view_replace {v : Option α} {t' : Trie α} (h : WF fam lo (Trie.node p b c t0 t1))
    (hkey : prefixBits b c ++ [x] <+: key) (ht' : WF fam (prefixBits b c ++ [x]) t')
    (hview : t'.view = Function.update (if x then t1 else t0).view key v) :
    (AllowedIPs.sides p b c x t' (if x then t0 else t1)).view =
      Function.update (Trie.node p b c t0 t1).view key v := by
  funext q
  rw [view_sides ht' h.other_side, hview]
  by_cases hq : q = key
  · subst hq
    have hne : q ≠ prefixBits b c := fun heq => by simpa [heq] using hkey.length_le
    have hother : (if x then t0 else t1).view q = none :=
      h.other_side.view_eq_none fun h' => by
        have := prefix_append_singleton_eq hkey h'
        cases x <;> simp at this
    simp [hne, hother]
  · rw [Function.update_of_ne hq, Function.update_of_ne hq, node_eq_sides x,
      view_sides h.this_side h.other_side]

theorem sides_setChild_choose {s'' : Trie α} (hx : bit d c = !x) :
    (AllowedIPs.sides p b c x s s').setChild (choose c d) s'' = AllowedIPs.sides p b c (!x) s'' s := by
  cases x <;> simp [AllowedIPs.sides, Trie.setChild, choose_eq, hx]

theorem WF.replace {t' : Trie α} (h : WF fam lo (Trie.node p b c t0 t1))
    (ht' : WF fam (prefixBits b c ++ [x]) t') :
    WF fam lo (AllowedIPs.sides p b c x t' (if x then t0 else t1)) := by
  have hother := h.other_side (x := x)
  cases h with
  | node hb hc hlo _ _ => exact .sides hb hc hlo ht' hother

/-- The root of a subtree below `l ++ [x]` has bit `x` after `l`. -/
theorem WF.bit_bits {l : List Bool} {t : Trie α} (h : WF fam (l ++ [x]) t) (ht : t ≠ Trie.nil) :
    bit t.bits l.length = x := by
  cases h with
  | nil => exact absurd rfl ht
  | node _ _ hlo _ _ =>
    obtain ⟨rest, hrest⟩ := hlo
    simp only [Trie.bits]
    exact (eq_bit_of_append_eq (by simpa using hrest)).symm

/-- An equal prefix takes the new peer. -/
theorem view_setPeer (peer : α) :
    (node (some peer) b c t0 t1).view =
      Function.update (node p b c t0 t1).view (prefixBits b c) (some peer) := by
  funext q
  by_cases hq : q = prefixBits b c <;> simp [Trie.view, Function.update_apply, hq]

end Sides

section Insert

variable {fam : Family} {ip : List UInt8} {cidr : Nat} {lo : List Bool} (peer : α)

theorem split_eq (down : Trie α) :
    split fam ip cidr peer down =
      if commonBits fam down.bits ip < cidr then
        ((node none (maskSelf ip (commonBits fam down.bits ip)) (commonBits fam down.bits ip) nil
            nil).setChild (choose (commonBits fam down.bits ip) down.bits) down).setChild
          (choose (commonBits fam down.bits ip) ip) (node (some peer) ip cidr nil nil)
      else (node (some peer) ip cidr nil nil).setChild (choose cidr down.bits) down := by
  unfold split
  by_cases h : commonBits fam down.bits ip < cidr
  · simp [h, Nat.ne_of_gt h]
  · simp [h]

/-- `split` under `nodePlacement`'s stop: `down`'s prefix is longer than the new one
or leaves it. The result holds the new prefix and all `down` held, below the same `lo`. -/
theorem split_spec {dp : Option α} {db : List UInt8} {dc : Nat} {d0 d1 : Trie α}
    (hip : ip.length = fam.len) (hcidr : cidr ≤ 8 * fam.len)
    (hdown : WF fam lo (node dp db dc d0 d1)) (hlo : lo <+: prefixBits ip cidr)
    (hstop : enters fam ip cidr (node dp db dc d0 d1) = false) :
    WF fam lo (split fam (maskSelf ip cidr) cidr peer (node dp db dc d0 d1)) ∧
      (split fam (maskSelf ip cidr) cidr peer (node dp db dc d0 d1)).view =
        Function.update (node dp db dc d0 d1).view (prefixBits ip cidr) (some peer) := by
  obtain ⟨hdb, hdc, hdlo⟩ : db.length = fam.len ∧ dc ≤ 8 * fam.len ∧ lo <+: prefixBits db dc := by
    cases hdown with
    | node hb hc hlo _ _ => exact ⟨hb, hc, hlo⟩
  have hlen' : (maskSelf ip cidr).length = fam.len := length_maskSelf hip hcidr
  have hmask : ∀ {d}, d ≤ cidr → prefixBits (maskSelf ip cidr) d = prefixBits ip d :=
    fun hd => prefixBits_maskSelf hip hcidr hd
  have hstop' : dc ≤ cidr → prefixBits db dc ≠ prefixBits ip dc := by
    intro hle heq
    simp [enters, hle, (le_commonBits_iff hdb hip hdc).mpr heq] at hstop
  have hcommon := commonBits_le fam db (maskSelf ip cidr)
  rw [split_eq, bits_node]
  by_cases hlt : commonBits fam db (maskSelf ip cidr) < cidr
  · rw [if_pos hlt]
    set common := commonBits fam db (maskSelf ip cidr)
    have hagree : prefixBits db common = prefixBits ip common :=
      ((le_commonBits_iff hdb hlen' hcommon).mp le_rfl).trans (hmask hlt.le)
    have hy : bit (maskSelf ip cidr) common = bit ip common := by
      rw [bit_maskSelf hip hcidr, decide_eq_true hlt, Bool.and_true]
    have hdiff : bit db common = !bit ip common := by
      have hne : bit db common ≠ bit (maskSelf ip cidr) common := fun heq => by
        have := (le_commonBits_iff hdb hlen' (show common + 1 ≤ 8 * fam.len by omega)).mpr
          (by rw [prefixBits_succ, prefixBits_succ, hagree, ← hmask hlt.le, heq])
        omega
      rw [hy] at hne
      revert hne
      cases bit db common <;> cases bit ip common <;> decide
    have hshort : common < dc := by
      by_contra hle
      exact hstop' (by omega) (prefixBits_congr (by omega) hagree)
    have hlolen : lo.length ≤ common := by
      obtain ⟨hle1, heq1⟩ := prefix_prefixBits_iff.mp hlo
      obtain ⟨-, heq2⟩ := prefix_prefixBits_iff.mp hdlo
      exact (le_commonBits_iff hdb hlen' (by omega)).mpr (by rw [← heq2, hmask hle1, ← heq1])
    have hbranch : prefixBits (maskSelf (maskSelf ip cidr) common) common = prefixBits ip common :=
      (prefixBits_maskSelf hlen' hcommon le_rfl).trans (hmask hlt.le)
    have hnew : WF fam (prefixBits ip common ++ [bit ip common])
        (node (some peer) (maskSelf ip cidr) cidr nil nil) :=
      .leaf hlen' hcidr (by rw [← prefixBits_succ, hmask le_rfl]; exact prefixBits_prefix hlt) peer
    have hold : WF fam (prefixBits ip common ++ [!bit ip common]) (node dp db dc d0 d1) :=
      hdown.node_below (by rw [← hagree, ← hdiff, ← prefixBits_succ]; exact prefixBits_prefix hshort)
    rw [setChild_choose hdiff, ite_self, sides_setChild_choose (by rw [hy, Bool.not_not]),
      Bool.not_not]
    refine ⟨.sides (length_maskSelf hlen' hcommon) hcommon ?_ (hbranch ▸ hnew) (hbranch ▸ hold), ?_⟩
    · rw [hbranch, (prefix_prefixBits_iff.mp hlo).2]
      exact prefixBits_prefix hlolen
    · funext q
      rw [view_sides (hbranch ▸ hnew) (hbranch ▸ hold), hbranch, view_leaf, hmask le_rfl]
      by_cases hq : q = prefixBits ip cidr
      · subst hq
        have hne : prefixBits ip cidr ≠ prefixBits ip common := fun heq => by
          have := congrArg List.length heq
          simp only [length_prefixBits] at this
          omega
        simp [hne]
      · rw [Function.update_of_ne hq, Function.update_of_ne hq]
        by_cases hP : q = prefixBits ip common
        · rw [if_pos hP, hold.view_eq_none fun h' => by simpa [hP] using h'.length_le]
        · rw [if_neg hP]
          simp [Trie.view]
  · rw [if_neg hlt]
    have hagree : prefixBits db cidr = prefixBits ip cidr :=
      ((le_commonBits_iff hdb hlen' hcidr).mp (by omega)).trans (hmask le_rfl)
    have hlong : cidr < dc := by
      by_contra hle
      exact hstop' (by omega) (prefixBits_congr (by omega) hagree)
    have hold : WF fam (prefixBits (maskSelf ip cidr) cidr ++ [bit db cidr]) (node dp db dc d0 d1) :=
      hdown.node_below (by rw [hmask le_rfl, ← hagree, ← prefixBits_succ]; exact prefixBits_prefix hlong)
    rw [setChild_choose rfl, ite_self]
    refine ⟨.sides hlen' hcidr (by rw [hmask le_rfl]; exact hlo) hold (.nil _), ?_⟩
    funext q
    rw [view_sides hold (.nil _), hmask le_rfl, Function.update_apply,
      show (nil : Trie α).view q = none from rfl, Option.or_none]

/-- `attach` below the parent `nodePlacement` returned: the slot on the new prefix's
side is empty or holds a subtree the loop stopped at. -/
theorem attach_spec {p : Option α} {b : List UInt8} {c : Nat} {t0 t1 : Trie α}
    (hip : ip.length = fam.len) (hcidr : cidr ≤ 8 * fam.len) (h : WF fam lo (node p b c t0 t1))
    (hpfx : prefixBits b c = prefixBits ip c) (hlt : c < cidr)
    (hstop : enters fam ip cidr (if bit ip c then t1 else t0) = false) :
    WF fam lo (attach fam ip cidr peer p b c t0 t1) ∧
      (attach fam ip cidr peer p b c t0 t1).view =
        Function.update (node p b c t0 t1).view (prefixBits ip cidr) (some peer) := by
  have hlen' : (maskSelf ip cidr).length = fam.len := length_maskSelf hip hcidr
  have hx : bit (maskSelf ip cidr) c = bit ip c := by
    rw [bit_maskSelf hip hcidr, decide_eq_true hlt, Bool.and_true]
  have hkey : prefixBits b c ++ [bit ip c] <+: prefixBits ip cidr := by
    rw [hpfx, ← prefixBits_succ]
    exact prefixBits_prefix hlt
  have hside : (if choose c (maskSelf ip cidr) = 0 then t0 else t1) = (if bit ip c then t1 else t0) := by
    rw [choose_eq, hx]
    cases bit ip c <;> simp
  have hdown : WF fam (prefixBits b c ++ [bit ip c]) (if bit ip c then t1 else t0) := h.this_side
  simp only [attach]
  rw [hside]
  generalize hd : (if bit ip c then t1 else t0) = down at hstop hdown
  cases down with
  | nil =>
    have hleaf : WF fam (prefixBits b c ++ [bit ip c]) (node (some peer) (maskSelf ip cidr) cidr nil nil) :=
      .leaf hlen' hcidr (by rw [prefixBits_maskSelf hip hcidr le_rfl]; exact hkey) peer
    simp only
    rw [setChild_choose hx]
    refine ⟨h.replace hleaf, h.view_replace hkey hleaf ?_⟩
    rw [hd, view_leaf, prefixBits_maskSelf hip hcidr le_rfl]
  | node dp db dc d0 d1 =>
    obtain ⟨hwf, hview⟩ := split_spec peer hip hcidr hdown hkey hstop
    have hne : split fam (maskSelf ip cidr) cidr peer (node dp db dc d0 d1) ≠ nil := fun hnil => by
      have := congrFun hview (prefixBits ip cidr)
      rw [hnil] at this
      simp [Trie.view] at this
    have hbit := hwf.bit_bits hne
    rw [length_prefixBits] at hbit
    simp only
    rw [setChild_choose hbit]
    exact ⟨h.replace hwf, h.view_replace hkey hwf (by rw [hview, hd])⟩

theorem insertBelow_node {p : Option α} {b : List UInt8} {c : Nat} {t0 t1 : Trie α} (hne : c ≠ cidr) :
    insertBelow fam ip cidr peer (node p b c t0 t1) =
      if enters fam ip cidr (if bit ip c then t1 else t0) then
        sides p b c (bit ip c) (insertBelow fam ip cidr peer (if bit ip c then t1 else t0))
          (if bit ip c then t0 else t1)
      else attach fam ip cidr peer p b c t0 t1 := by
  rw [insertBelow, if_neg hne, choose_eq]
  cases bit ip c <;> simp [sides]

/-- `insertBelow` from a node `nodePlacement`'s loop enters; the induction follows
the loop down the trie. -/
theorem insertBelow_spec {t : Trie α} (hip : ip.length = fam.len) (hcidr : cidr ≤ 8 * fam.len)
    (h : WF fam lo t) (hent : enters fam ip cidr t = true) :
    WF fam lo (insertBelow fam ip cidr peer t) ∧
      (insertBelow fam ip cidr peer t).view = Function.update t.view (prefixBits ip cidr) (some peer) := by
  induction h with
  | nil => simp [enters] at hent
  | @node lo p b c t0 t1 hb hc hlo h0 h1 ih0 ih1 =>
    have hwf : WF fam lo (node p b c t0 t1) := .node hb hc hlo h0 h1
    obtain ⟨hle, hcom⟩ : c ≤ cidr ∧ c ≤ commonBits fam b ip := by simpa [enters] using hent
    have hpfx : prefixBits b c = prefixBits ip c := (le_commonBits_iff hb hip hc).mp hcom
    by_cases heq : c = cidr
    · subst heq
      simp only [insertBelow]
      exact ⟨.node hb hc hlo h0 h1, by rw [← hpfx]; exact view_setPeer peer⟩
    · have hkey : prefixBits b c ++ [bit ip c] <+: prefixBits ip cidr := by
        rw [hpfx, ← prefixBits_succ]
        exact prefixBits_prefix (by omega)
      have ih : ∀ x, enters fam ip cidr (if x then t1 else t0) = true →
          WF fam (prefixBits b c ++ [x]) (insertBelow fam ip cidr peer (if x then t1 else t0)) ∧
            (insertBelow fam ip cidr peer (if x then t1 else t0)).view =
              Function.update (if x then t1 else t0).view (prefixBits ip cidr) (some peer) := by
        intro x
        cases x
        exacts [ih0, ih1]
      rw [insertBelow_node peer heq]
      by_cases hent' : enters fam ip cidr (if bit ip c then t1 else t0) = true
      · rw [if_pos hent']
        obtain ⟨hwf', hview'⟩ := ih (bit ip c) hent'
        exact ⟨hwf.replace hwf', hwf.view_replace hkey hwf' hview'⟩
      · rw [if_neg hent']
        exact attach_spec peer hip hcidr hwf hpfx (by omega) (by simpa using hent')

/-- `insert` keeps the shape of the trie and adds one entry to the map it holds: the
prefix of length `cidr` of `ip` now routes to `peer`. -/
theorem insert_spec {t : Trie α} (hip : ip.length = fam.len) (hcidr : cidr ≤ 8 * fam.len)
    (h : WF fam [] t) :
    WF fam [] (insert fam ip cidr peer t) ∧
      (insert fam ip cidr peer t).view = Function.update t.view (prefixBits ip cidr) (some peer) := by
  cases t with
  | nil =>
    refine ⟨.leaf (length_maskSelf hip hcidr) hcidr List.nil_prefix peer, ?_⟩
    simp only [insert]
    rw [view_leaf, prefixBits_maskSelf hip hcidr le_rfl]
  | node p b c t0 t1 =>
    simp only [insert]
    split
    · rename_i hent
      exact insertBelow_spec peer hip hcidr h hent
    · rename_i hstop
      exact split_spec peer hip hcidr h List.nil_prefix (by simpa using hstop)

end Insert

end AllowedIPs
