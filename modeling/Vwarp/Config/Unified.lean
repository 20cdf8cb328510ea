import Vwarp.GoRuntime
import Vwarp.Noize.Config
import Vwarp.Preflight.Config

/-!
# The unified obfuscation configuration

`UnifiedNoizeConfig` of the `config/noize` package: optional WireGuard and
MASQUE sections, each with a preset name and an optional custom
configuration, and optional metadata. A nil pointer is `none`.
`UnifiedNoizeConfig.Validate`, the check `LoadFromFile` runs, looks only at
enabled sections: it refuses a preset next to a custom configuration and
checks a few ranges of the custom one. `Version`, which the validators
default to `"1.0"`, is read by nothing modelled and left out.
-/

namespace ConfigNoize

open GoRuntime ExceptStep MasqueNoize Preflight

structure ConfigMetadata where
  name : String := ""
  description : String := ""
  author : String := ""
  createdAt : String := ""
  deriving DecidableEq, Repr

structure WireGuardNoize where
  enabled : Bool := false
  preset : String := ""
  atomicNoize : Option AtomicNoizeConfig := none
  deriving DecidableEq, Repr

structure MASQUENoize where
  enabled : Bool := false
  preset : String := ""
  config : Option NoizeConfig := none
  deriving DecidableEq, Repr

structure UnifiedNoizeConfig where
  wireGuard : Option WireGuardNoize := none
  masque : Option MASQUENoize := none
  metadata : Option ConfigMetadata := none
  deriving DecidableEq, Repr

namespace UnifiedNoizeConfig

def isWireGuardEnabled (c : UnifiedNoizeConfig) : Bool :=
  match c.wireGuard with
  | some wg => wg.enabled
  | none => false

def isMASQUEEnabled (c : UnifiedNoizeConfig) : Bool :=
  match c.masque with
  | some m => m.enabled
  | none => false

/-- `UnifiedNoizeConfig.validateAtomicNoizeConfig`; the sum is Go's `int` sum. -/
def validateAtomicNoizeConfig (config : AtomicNoizeConfig) : Except String Unit := do
  failIf (config.jc < 0 ∨ 128 < config.jc) "junk packet count must be between 0 and 128"
  failIf (config.jmin < 0 ∨ config.jmax < config.jmin) "invalid junk packet size range"
  failIf (config.jcAfterI1 < 0 ∨ config.jcBeforeHS < 0 ∨ config.jcAfterHS < 0)
    "junk packet counts cannot be negative"
  failIf (config.jc < wrap64 (wrap64 (config.jcAfterI1 + config.jcBeforeHS) + config.jcAfterHS))
    "sum of specific junk packet counts exceeds total count"

/-- `UnifiedNoizeConfig.validateMASQUEConfig`. -/
def validateMASQUEConfig (config : NoizeConfig) : Except String Unit := do
  failIf (config.jc < 0 ∨ 20 < config.jc) "MASQUE junk packet count must be between 0 and 20"
  failIf (config.jmin < 0 ∨ config.jmax < config.jmin) "invalid MASQUE junk packet size range"
  failIf (config.fragmentSize < 0) "fragment size cannot be negative"

/-- `UnifiedNoizeConfig.Validate`: `fmt.Errorf("...: %w", err)` prefixes the
inner message. -/
def validate (c : UnifiedNoizeConfig) : Except String Unit := do
  if let some wg := c.wireGuard then
    if wg.enabled then
      failIf (wg.preset ≠ "" ∧ wg.atomicNoize.isSome)
        "cannot specify both preset and custom AtomicNoize config"
      if let some a := wg.atomicNoize then
        (validateAtomicNoizeConfig a).mapError ("invalid AtomicNoize config: " ++ ·)
  if let some m := c.masque then
    if m.enabled then
      failIf (m.preset ≠ "" ∧ m.config.isSome) "cannot specify both preset and custom MASQUE config"
      if let some n := m.config then
        (validateMASQUEConfig n).mapError ("invalid MASQUE config: " ++ ·)

end UnifiedNoizeConfig

end ConfigNoize
