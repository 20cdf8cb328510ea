import Vwarp.GoRuntime
import Vwarp.Lib.GoText
import Vwarp.Config.Unified

/-!
# The configuration validator

`ConfigValidator.ValidateAtomicNoizeConfig`, `ValidateNoizeConfig` and the
signature check both call, and `ValidateConfig` over a whole unified
configuration. Each guard returns its own message, as
`fmt.Errorf` formats it; `Accepted` and `NoizeAccepted` list the guards'
negations, and `validateAtomicNoizeConfig_ok` and `validateNoizeConfig_ok` say
the validators accept exactly those configurations. The sums of the junk
counts are Go's `int` sums and wrap.
-/

namespace ConfigValidator

open GoRuntime ExceptStep GoText MasqueNoize Preflight ConfigNoize

/-- `ConfigValidator.validateSignaturePacket`: only the length in bytes is
checked; the format test returns nil on both of its branches. -/
def validateSignaturePacket (packet name : String) : Except String Unit :=
  let n := packet.utf8ByteSize
  if n = 0 then .ok ()
  else failIf (1000 < n) s!"signature packet {name} is too long ({n} chars), should be under 1000"

/-- The loop over the signatures, numbered from `I1`. -/
def validateSignatures : Nat → List String → Except String Unit
  | _, [] => .ok ()
  | i, sig :: rest => do
    if sig ≠ "" then
      let name := s!"I{i + 1}"
      validateSignaturePacket sig name
    validateSignatures (i + 1) rest

def validateAtomicNoizeConfig (config : AtomicNoizeConfig) : Except String Unit := do
  let jc := config.jc
  let jmin := config.jmin
  let jmax := config.jmax
  failIf (jc < 0 ∨ 128 < jc) s!"junk packet count (Jc) must be between 0 and 128, got {jc}"
  failIf (jmin < 0) s!"minimum junk packet size cannot be negative, got {jmin}"
  failIf (jmax < jmin)
    s!"maximum junk packet size ({jmax}) cannot be less than minimum ({jmin})"
  failIf (1400 < jmax)
    s!"maximum junk packet size should not exceed 1400 bytes to avoid fragmentation, got {jmax}"
  let afterI1 := config.jcAfterI1
  let beforeHS := config.jcBeforeHS
  let afterHS := config.jcAfterHS
  failIf (afterI1 < 0) s!"junk packets after I1 cannot be negative, got {afterI1}"
  failIf (beforeHS < 0) s!"junk packets before handshake cannot be negative, got {beforeHS}"
  failIf (afterHS < 0) s!"junk packets after handshake cannot be negative, got {afterHS}"
  let totalSpecific := wrap64 (wrap64 (afterI1 + beforeHS) + afterHS)
  failIf (jc < totalSpecific)
    s!"sum of specific junk packet counts ({totalSpecific}) exceeds total count ({jc})"
  failIf (config.junkInterval < 0) "junk interval cannot be negative"
  failIf (5 * 10 ^ 9 < config.junkInterval)
    "junk interval should not exceed 5 seconds to maintain effectiveness"
  failIf (config.handshakeDelay < 0) "handshake delay cannot be negative"
  failIf (10 * 10 ^ 9 < config.handshakeDelay)
    "handshake delay should not exceed 10 seconds to avoid timeouts"
  validateSignatures 0 config.signatures
  failIf (config.s1 ≠ 0) "S1 parameter should be 0 for WARP compatibility"
  failIf (config.s2 ≠ 0) "S2 parameter should be 0 for WARP compatibility"

/-- `ConfigValidator.stringInSlice`. -/
def stringInSlice (str : String) (slice : List String) : Bool :=
  slice.any (· == str)

def validProtocols : List String := ["quic", "dns", "https", "h3", "dtls", "stun"]

/-- `ConfigValidator.ValidateNoizeConfig`, for the MASQUE obfuscator. -/
def validateNoizeConfig (config : NoizeConfig) : Except String Unit := do
  failIf (config.jc < 0 ∨ 20 < config.jc)
    s!"MASQUE junk packet count (Jc) must be between 0 and 20, got {config.jc}"
  failIf (config.jmin < 0) s!"minimum junk packet size cannot be negative, got {config.jmin}"
  failIf (config.jmax < config.jmin)
    s!"maximum junk packet size ({config.jmax}) cannot be less than minimum ({config.jmin})"
  failIf (1400 < config.jmax)
    s!"maximum junk packet size should not exceed 1400 bytes, got {config.jmax}"
  failIf (config.jcBeforeHS < 0)
    s!"junk packets before handshake cannot be negative, got {config.jcBeforeHS}"
  failIf (config.jcAfterI1 < 0) s!"junk packets after I1 cannot be negative, got {config.jcAfterI1}"
  failIf (config.jcDuringHS < 0)
    s!"junk packets during handshake cannot be negative, got {config.jcDuringHS}"
  failIf (config.jcAfterHS < 0)
    s!"junk packets after handshake cannot be negative, got {config.jcAfterHS}"
  let totalSpecific :=
    wrap64 (wrap64 (wrap64 (config.jcBeforeHS + config.jcAfterI1) + config.jcDuringHS) +
      config.jcAfterHS)
  failIf (config.jc < totalSpecific)
    s!"sum of specific junk packet counts ({totalSpecific}) exceeds total count ({config.jc})"
  failIf (config.fragmentSize < 0) s!"fragment size cannot be negative, got {config.fragmentSize}"
  failIf (0 < config.fragmentSize ∧ config.fragmentSize < 64)
    s!"fragment size should be at least 64 bytes if enabled, got {config.fragmentSize}"
  failIf (config.fragmentDelay < 0) "fragment delay cannot be negative"
  failIf (config.paddingMin < 0) s!"minimum padding cannot be negative, got {config.paddingMin}"
  failIf (config.paddingMax < config.paddingMin)
    s!"maximum padding ({config.paddingMax}) cannot be less than minimum ({config.paddingMin})"
  failIf (500 < config.paddingMax)
    s!"maximum padding should not exceed 500 bytes to avoid overhead, got {config.paddingMax}"
  failIf (config.junkInterval < 0) "junk interval cannot be negative"
  failIf (5 * 10 ^ 9 < config.junkInterval) "junk interval should not exceed 5 seconds"
  failIf (config.handshakeDelay < 0) "handshake delay cannot be negative"
  failIf (10 * 10 ^ 9 < config.handshakeDelay) "handshake delay should not exceed 10 seconds"
  failIf (config.packetDelay < 0) "packet delay cannot be negative"
  failIf (config.delayMin < 0 ∨ config.delayMax < config.delayMin)
    s!"invalid delay range: min={durationString config.delayMin}, max={durationString config.delayMax}"
  failIf (config.mimicProtocol ≠ "" ∧ stringInSlice config.mimicProtocol validProtocols = false)
    s!"invalid mimic protocol {config.mimicProtocol}, must be one of: [quic dns https h3 dtls stun]"
  failIf (config.sniFragment < 0) "SNI fragment size cannot be negative"
  failIf (0 < config.sniFragment ∧ config.sniFragment < 8)
    "SNI fragment size should be at least 8 bytes if enabled"
  failIf (config.fakeLoss < 0 ∨ 1 < config.fakeLoss)
    s!"fake loss ratio must be between 0.0 and 1.0, got {formatFloat6 config.fakeLoss}"
  validateSignatures 0 [config.i1, config.i2, config.i3, config.i4, config.i5]

/-- `ConfigValidator.isValidPreset`. -/
def isValidPreset (preset : String) : Bool :=
  stringInSlice preset ["minimal", "light", "medium", "heavy", "stealth", "gfw", "firewall"]

/-- `ConfigValidator.ValidateWireGuardConfig`, for the non-nil section
`ValidateConfig` passes it. -/
def validateWireGuardConfig (config : WireGuardNoize) : Except String Unit := do
  failIf (config.preset ≠ "" ∧ config.atomicNoize.isSome)
    s!"cannot specify both preset ({config.preset}) and custom AtomicNoize config"
  failIf (config.preset ≠ "" ∧ isValidPreset config.preset = false)
    s!"invalid WireGuard preset: {config.preset}"
  if let some a := config.atomicNoize then
    (validateAtomicNoizeConfig a).mapError ("AtomicNoize configuration error: " ++ ·)

/-- `ConfigValidator.ValidateMASQUEConfig`, for the non-nil section
`ValidateConfig` passes it. -/
def validateMASQUEConfig (config : MASQUENoize) : Except String Unit := do
  failIf (config.preset ≠ "" ∧ config.config.isSome)
    s!"cannot specify both preset ({config.preset}) and custom MASQUE config"
  failIf (config.preset ≠ "" ∧ isValidPreset config.preset = false)
    s!"invalid MASQUE preset: {config.preset}"
  if let some n := config.config then
    (validateNoizeConfig n).mapError ("MASQUE Noize configuration error: " ++ ·)

/-- `ConfigValidator.ValidateConfig`. -/
def validateConfig (config : Option UnifiedNoizeConfig) : Except String Unit := do
  let some config := config | throw "configuration cannot be nil"
  failIf (config.isWireGuardEnabled = false ∧ config.isMASQUEEnabled = false)
    "at least one protocol (WireGuard or MASQUE) must be enabled"
  if let some wg := config.wireGuard then
    if wg.enabled then
      (validateWireGuardConfig wg).mapError ("WireGuard configuration error: " ++ ·)
  if let some m := config.masque then
    if m.enabled then
      (validateMASQUEConfig m).mapError ("MASQUE configuration error: " ++ ·)

/-- The configurations `validateAtomicNoizeConfig` accepts. -/
structure Accepted (c : AtomicNoizeConfig) : Prop where
  jc_nonneg : 0 ≤ c.jc
  jc_le : c.jc ≤ 128
  jmin_nonneg : 0 ≤ c.jmin
  jmin_le_jmax : c.jmin ≤ c.jmax
  jmax_le : c.jmax ≤ 1400
  jcAfterI1_nonneg : 0 ≤ c.jcAfterI1
  jcBeforeHS_nonneg : 0 ≤ c.jcBeforeHS
  jcAfterHS_nonneg : 0 ≤ c.jcAfterHS
  total_le : wrap64 (wrap64 (c.jcAfterI1 + c.jcBeforeHS) + c.jcAfterHS) ≤ c.jc
  junkInterval_nonneg : 0 ≤ c.junkInterval
  junkInterval_le : c.junkInterval ≤ 5 * 10 ^ 9
  handshakeDelay_nonneg : 0 ≤ c.handshakeDelay
  handshakeDelay_le : c.handshakeDelay ≤ 10 * 10 ^ 9
  signatures_short : ∀ sig ∈ c.signatures, sig.utf8ByteSize ≤ 1000
  s1_zero : c.s1 = 0
  s2_zero : c.s2 = 0

theorem validateSignaturePacket_ok (packet name : String) :
    validateSignaturePacket packet name = .ok () ↔ packet.utf8ByteSize ≤ 1000 := by
  by_cases h : packet.utf8ByteSize = 0
  · simp [validateSignaturePacket, h]
  · simp [validateSignaturePacket, h, failIf_ok]

theorem validateSignatures_ok (i : Nat) (sigs : List String) :
    validateSignatures i sigs = .ok () ↔ ∀ sig ∈ sigs, sig.utf8ByteSize ≤ 1000 := by
  induction sigs generalizing i with
  | nil => simp [validateSignatures]
  | cons sig rest ih =>
    by_cases h : sig = ""
    · simp [validateSignatures, h, ih]
    · simp only [validateSignatures, h, ne_eq, not_false_eq_true, ↓reduceIte]
      rw [unit_bind_eq_ok, ih, validateSignaturePacket_ok, List.forall_mem_cons]

theorem validateAtomicNoizeConfig_ok (c : AtomicNoizeConfig) :
    validateAtomicNoizeConfig c = .ok () ↔ Accepted c := by
  simp only [validateAtomicNoizeConfig, failIf_ok, unit_bind_eq_ok,
    validateSignatures_ok, not_or, Int.not_lt, not_not]
  constructor
  · rintro ⟨⟨h1, h2⟩, h3, h4, h5, h6, h7, h8, h9, h10, h11, h12, h13, h14, h15, h16⟩
    exact ⟨h1, h2, h3, h4, h5, h6, h7, h8, h9, h10, h11, h12, h13, h14, h15, h16⟩
  · rintro ⟨h1, h2, h3, h4, h5, h6, h7, h8, h9, h10, h11, h12, h13, h14, h15, h16⟩
    exact ⟨⟨h1, h2⟩, h3, h4, h5, h6, h7, h8, h9, h10, h11, h12, h13, h14, h15, h16⟩

/-- The configurations `validateNoizeConfig` accepts. -/
structure NoizeAccepted (c : NoizeConfig) : Prop where
  jc_nonneg : 0 ≤ c.jc
  jc_le : c.jc ≤ 20
  jmin_nonneg : 0 ≤ c.jmin
  jmin_le_jmax : c.jmin ≤ c.jmax
  jmax_le : c.jmax ≤ 1400
  jcBeforeHS_nonneg : 0 ≤ c.jcBeforeHS
  jcAfterI1_nonneg : 0 ≤ c.jcAfterI1
  jcDuringHS_nonneg : 0 ≤ c.jcDuringHS
  jcAfterHS_nonneg : 0 ≤ c.jcAfterHS
  total_le : wrap64 (wrap64 (wrap64 (c.jcBeforeHS + c.jcAfterI1) + c.jcDuringHS) +
    c.jcAfterHS) ≤ c.jc
  fragmentSize_nonneg : 0 ≤ c.fragmentSize
  fragmentSize_large : 0 < c.fragmentSize → 64 ≤ c.fragmentSize
  fragmentDelay_nonneg : 0 ≤ c.fragmentDelay
  paddingMin_nonneg : 0 ≤ c.paddingMin
  paddingMin_le_paddingMax : c.paddingMin ≤ c.paddingMax
  paddingMax_le : c.paddingMax ≤ 500
  junkInterval_nonneg : 0 ≤ c.junkInterval
  junkInterval_le : c.junkInterval ≤ 5 * 10 ^ 9
  handshakeDelay_nonneg : 0 ≤ c.handshakeDelay
  handshakeDelay_le : c.handshakeDelay ≤ 10 * 10 ^ 9
  packetDelay_nonneg : 0 ≤ c.packetDelay
  delayMin_nonneg : 0 ≤ c.delayMin
  delayMin_le_delayMax : c.delayMin ≤ c.delayMax
  mimicProtocol_valid : c.mimicProtocol ≠ "" → c.mimicProtocol ∈ validProtocols
  sniFragment_nonneg : 0 ≤ c.sniFragment
  sniFragment_large : 0 < c.sniFragment → 8 ≤ c.sniFragment
  fakeLoss_nonneg : 0 ≤ c.fakeLoss
  fakeLoss_le : c.fakeLoss ≤ 1
  signatures_short : ∀ sig ∈ [c.i1, c.i2, c.i3, c.i4, c.i5], sig.utf8ByteSize ≤ 1000

theorem stringInSlice_eq_true (str : String) (slice : List String) :
    stringInSlice str slice = true ↔ str ∈ slice := by
  simp only [stringInSlice, List.any_eq_true, beq_iff_eq, exists_eq_right]

theorem validateNoizeConfig_ok (c : NoizeConfig) :
    validateNoizeConfig c = .ok () ↔ NoizeAccepted c := by
  simp only [validateNoizeConfig, failIf_ok, unit_bind_eq_ok, validateSignatures_ok, not_or,
    not_and, not_lt, Bool.not_eq_false, stringInSlice_eq_true]
  constructor
  · rintro ⟨⟨h1, h2⟩, h3, h4, h5, h6, h7, h8, h9, h10, h11, h12, h13, h14, h15, h16, h17, h18,
      h19, h20, h21, ⟨h22, h23⟩, h24, h25, h26, ⟨h27, h28⟩, h29⟩
    exact ⟨h1, h2, h3, h4, h5, h6, h7, h8, h9, h10, h11, h12, h13, h14, h15, h16, h17, h18, h19,
      h20, h21, h22, h23, h24, h25, h26, h27, h28, h29⟩
  · rintro ⟨h1, h2, h3, h4, h5, h6, h7, h8, h9, h10, h11, h12, h13, h14, h15, h16, h17, h18, h19,
      h20, h21, h22, h23, h24, h25, h26, h27, h28, h29⟩
    exact ⟨⟨h1, h2⟩, h3, h4, h5, h6, h7, h8, h9, h10, h11, h12, h13, h14, h15, h16, h17, h18,
      h19, h20, h21, ⟨h22, h23⟩, h24, h25, h26, ⟨h27, h28⟩, h29⟩

end ConfigValidator
