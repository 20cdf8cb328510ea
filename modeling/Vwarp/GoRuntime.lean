import Mathlib
import Vwarp.Lib.ExceptStep

/-!
# The Go runtime the models meet

Integers are Go's 64-bit `int` and `time.Duration`: arithmetic wraps, which
`wrap64` makes explicit. The runtime calls that can panic are models of their
own: `rng.Intn` and `rng.Int63n` on a bound that is not positive, `make` on a
negative length, `big.Int.FillBytes` on a value too large for the buffer,
slicing an array or a slice past its capacity, and indexing a slice past its end.
A random draw is an argument, the generator's raw output; the value the call
returns is its remainder by the bound, so every value in range is reachable.
-/

namespace GoRuntime

/-- Two's-complement wrap-around of a 64-bit `int` or `time.Duration`. -/
def wrap64 (x : Int) : Int := (x + 2 ^ 63) % 2 ^ 64 - 2 ^ 63

theorem wrap64_of_bounds {x : Int} (h1 : -2 ^ 63 ≤ x) (h2 : x < 2 ^ 63) : wrap64 x = x := by
  unfold wrap64
  rw [Int.emod_eq_of_lt (by omega) (by omega)]
  ring

/-- The runtime panics the models can reach. -/
inductive Panic where
  | intnArgument
  | int63nArgument
  | makeSliceLen
  | bufferTooSmall
  | sliceBoundsOutOfRange
  | indexOutOfRange
  deriving DecidableEq, Repr

/-- `rng.Intn(n)`; `r` is the generator's draw. -/
def intn (n : Int) (r : Nat) : Except Panic Int :=
  if n ≤ 0 then .error .intnArgument else .ok ((r : Int) % n)

/-- `rng.Int63n(n)`. -/
def int63n (n : Int) (r : Nat) : Except Panic Int :=
  if n ≤ 0 then .error .int63nArgument else .ok ((r : Int) % n)

/-- `make([]byte, n)` filled by `rand.Read` from the byte source `src`. -/
def makeRandom (n : Int) (src : Nat → UInt8) : Except Panic (List UInt8) :=
  if n < 0 then .error .makeSliceLen else .ok ((List.range n.toNat).map src)

theorem intn_ok {n : Int} (hn : 0 < n) (r : Nat) : intn n r = .ok ((r : Int) % n) := by
  simp [intn, not_le.mpr hn]

theorem makeRandom_ok {n : Int} (hn : 0 ≤ n) (src : Nat → UInt8) :
    makeRandom n src = .ok ((List.range n.toNat).map src) := by
  simp [makeRandom, not_lt.mpr hn]

end GoRuntime
