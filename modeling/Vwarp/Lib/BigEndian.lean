import Mathlib

/-!
# Big-endian byte strings

The value of a byte string read most significant byte first, and the `len`
low-order bytes of a number written the same way. Network code reads ports,
lengths and addresses through these two maps; the lemmas say they are inverse
on the right lengths and how they split at an append.
-/

namespace BigEndian

/-- The big-endian value of a byte string. -/
def ofBytes (bs : List UInt8) : Nat :=
  bs.foldl (fun acc b => acc * 256 + b.toNat) 0

/-- The `len` low-order bytes of `n`, most significant first. -/
def toBytes : Nat → Nat → List UInt8
  | 0, _ => []
  | len + 1, n => toBytes len (n / 256) ++ [UInt8.ofNat (n % 256)]

theorem foldl_eq (acc : Nat) (bs : List UInt8) :
    bs.foldl (fun acc b => acc * 256 + b.toNat) acc = acc * 256 ^ bs.length + ofBytes bs := by
  induction bs generalizing acc with
  | nil => simp [ofBytes]
  | cons b bs ih =>
    simp only [List.foldl_cons, ofBytes, List.length_cons]
    rw [ih, ih (0 * 256 + b.toNat), pow_succ]
    ring

@[simp] theorem ofBytes_nil : ofBytes [] = 0 := rfl

theorem ofBytes_append (xs ys : List UInt8) :
    ofBytes (xs ++ ys) = ofBytes xs * 256 ^ ys.length + ofBytes ys := by
  simp only [ofBytes, List.foldl_append]
  exact foldl_eq _ ys

@[simp] theorem ofBytes_cons (b : UInt8) (bs : List UInt8) :
    ofBytes (b :: bs) = b.toNat * 256 ^ bs.length + ofBytes bs := by
  simpa [ofBytes] using ofBytes_append [b] bs

theorem ofBytes_lt (bs : List UInt8) : ofBytes bs < 256 ^ bs.length := by
  induction bs with
  | nil => simp
  | cons b bs ih =>
    have hb : b.toNat < 256 := b.toNat_lt
    rw [ofBytes_cons, List.length_cons, pow_succ]
    have : b.toNat * 256 ^ bs.length + ofBytes bs < (b.toNat + 1) * 256 ^ bs.length := by
      rw [add_mul, one_mul]
      omega
    calc b.toNat * 256 ^ bs.length + ofBytes bs
        < (b.toNat + 1) * 256 ^ bs.length := this
      _ ≤ 256 * 256 ^ bs.length := Nat.mul_le_mul_right _ hb
      _ = 256 ^ bs.length * 256 := Nat.mul_comm _ _

@[simp] theorem length_toBytes (len n : Nat) : (toBytes len n).length = len := by
  induction len generalizing n with
  | zero => rfl
  | succ len ih => simp [toBytes, ih]

theorem ofBytes_toBytes (len n : Nat) : ofBytes (toBytes len n) = n % 256 ^ len := by
  induction len generalizing n with
  | zero => simp [toBytes, Nat.mod_one]
  | succ len ih =>
    have h8 : (2 : Nat) ^ 8 = 256 := rfl
    rw [toBytes, ofBytes_append, ih]
    simp only [List.length_singleton, pow_one, ofBytes_cons, List.length_nil, pow_zero,
      mul_one, ofBytes_nil, add_zero, UInt8.toNat_ofNat', h8, Nat.mod_mod]
    rw [pow_succ', Nat.mod_mul]
    ring

theorem toBytes_ofBytes (bs : List UInt8) : toBytes bs.length (ofBytes bs) = bs := by
  induction bs using List.reverseRecOn with
  | nil => rfl
  | append_singleton bs b ih =>
    have hb : b.toNat < 256 := b.toNat_lt
    have hdiv : ofBytes (bs ++ [b]) / 256 = ofBytes bs := by
      rw [ofBytes_append]
      simp only [List.length_singleton, pow_one, ofBytes_cons, List.length_nil, pow_zero,
        mul_one, ofBytes_nil, add_zero]
      omega
    have hmod : UInt8.ofNat (ofBytes (bs ++ [b]) % 256) = b := by
      rw [ofBytes_append]
      simp only [List.length_singleton, pow_one, ofBytes_cons, List.length_nil, pow_zero,
        mul_one, ofBytes_nil, add_zero]
      apply UInt8.toNat_inj.mp
      simp only [UInt8.toNat_ofNat']
      omega
    rw [List.length_append, List.length_singleton, toBytes, hdiv, ih, hmod]

/-- Splitting a written number into its high and its low bytes. -/
theorem toBytes_add (a b n : Nat) :
    toBytes (a + b) n = toBytes a (n / 256 ^ b) ++ toBytes b n := by
  induction b generalizing n with
  | zero => simp [toBytes]
  | succ b ih =>
    rw [← Nat.add_assoc, toBytes, ih, toBytes, List.append_assoc, Nat.div_div_eq_div_mul,
      ← pow_succ']

theorem toBytes_mod (len n : Nat) : toBytes len (n % 256 ^ len) = toBytes len n := by
  rw [← ofBytes_toBytes len n]
  have h := toBytes_ofBytes (toBytes len n)
  rwa [length_toBytes] at h

end BigEndian
