import Mathlib

/-!
# The AtomicNoize configuration

`preflightbind.AtomicNoizeConfig`, with Go's zero values as defaults.
Durations are nanoseconds.
-/

namespace Preflight

structure AtomicNoizeConfig where
  i1 : String := ""
  i2 : String := ""
  i3 : String := ""
  i4 : String := ""
  i5 : String := ""
  s1 : Int := 0
  s2 : Int := 0
  jc : Int := 0
  jmin : Int := 0
  jmax : Int := 0
  jcAfterI1 : Int := 0
  jcBeforeHS : Int := 0
  jcAfterHS : Int := 0
  junkInterval : Int := 0
  allowZeroSize : Bool := false
  handshakeDelay : Int := 0
  deriving DecidableEq, Repr

/-- The signature packets in the order the validator and the preflight read them. -/
def AtomicNoizeConfig.signatures (c : AtomicNoizeConfig) : List String :=
  [c.i1, c.i2, c.i3, c.i4, c.i5]

end Preflight
