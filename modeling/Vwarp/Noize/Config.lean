import Vwarp.GoRuntime

/-!
# MASQUE obfuscation settings

`NoizeConfig` with the fields the obfuscator and its validator read, each
defaulting to Go's zero value, so a configuration loaded from JSON is any
record of this type: neither `LoadConfigFromFile` nor
`UnifiedConfig.GetNoizeConfig` checks a range. Durations are nanoseconds.
`FakeLoss` is a `float32` read from JSON, hence finite: the rational it
denotes.
-/

namespace MasqueNoize

open GoRuntime

/-- `noize.NoizeConfig`: the fields read by the obfuscator and its validator. -/
structure NoizeConfig where
  i1 : String := ""
  i2 : String := ""
  i3 : String := ""
  i4 : String := ""
  i5 : String := ""
  fragmentSize : Int := 0
  fragmentInitial : Bool := false
  fragmentDelay : Int := 0
  paddingMin : Int := 0
  paddingMax : Int := 0
  randomPadding : Bool := false
  jc : Int := 0
  jmin : Int := 0
  jmax : Int := 0
  jcBeforeHS : Int := 0
  jcAfterI1 : Int := 0
  jcDuringHS : Int := 0
  jcAfterHS : Int := 0
  junkInterval : Int := 0
  junkRandom : Bool := false
  mimicProtocol : String := ""
  handshakeDelay : Int := 0
  packetDelay : Int := 0
  randomDelay : Bool := false
  delayMin : Int := 0
  delayMax : Int := 0
  sniFragment : Int := 0
  allowZeroSize : Bool := false
  fakeLoss : ℚ := 0
  deriving DecidableEq, Repr

/-- `DefaultConfig`, durations in nanoseconds. -/
def defaultConfig : NoizeConfig where
  i1 := "<b 0d0a0d0a><t><r 16>"
  fragmentSize := 512
  fragmentInitial := true
  fragmentDelay := 2000000
  paddingMin := 16
  paddingMax := 64
  randomPadding := true
  jc := 5
  jmin := 64
  jmax := 256
  jcBeforeHS := 2
  jcAfterI1 := 1
  jcDuringHS := 1
  jcAfterHS := 1
  junkInterval := 5000000
  junkRandom := true
  mimicProtocol := "h3"
  handshakeDelay := 10000000
  randomDelay := true
  delayMin := 1000000
  delayMax := 10000000
  sniFragment := 32

end MasqueNoize
