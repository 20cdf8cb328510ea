import Vwarp.Config.Validator
import Vwarp.Lib.GoText

/-!
# Presets and merged configurations

`ConfigLoader.MergeConfigs` and the merges it calls, the built-in presets of
`PresetManager` and `ConfigLoader.LoadMixed`, which merges a validated custom
configuration over a preset. Every field merge is "the override wins when it
is not the zero value" (`mergeField`), except the flags, which the override
sets outright. The deep copies of `GetPreset` and `MergeConfigs` go through
JSON, which is exact on every field modelled, so a copy is the value itself.
Fields of `NoizeConfig` that no modelled function reads (`CustomWrapper`,
`FakeALPN` and the other feature flags) are left out.

Every preset sets its own name next to a custom section, so a merged
configuration is rejected by both validators (`merged_preset_rejected`); and
a merge of two valid size ranges need not be one (`merge_breaks_size_range`).
-/

namespace ConfigNoize

open GoRuntime ExceptStep GoText MasqueNoize Preflight ConfigValidator

/-- `if override.X != zero { base.X = override.X }`. -/
def mergeField {α : Type} [DecidableEq α] (zero base override : α) : α :=
  if override ≠ zero then override else base

/-- A merged field is one of the two. -/
theorem mergeField_mem {α : Type} [DecidableEq α] (zero base override : α) :
    mergeField zero base override = base ∨ mergeField zero base override = override := by
  unfold mergeField
  split <;> simp

/-- A property of both fields holds of the merged one. -/
theorem mergeField_of {α : Type} [DecidableEq α] (P : α → Prop) (zero : α) {base override : α}
    (hb : P base) (ho : P override) : P (mergeField zero base override) := by
  rcases mergeField_mem zero base override with h | h <;> rw [h] <;> assumption

/-- A set field stays set, whatever the override. -/
theorem mergeField_ne {α : Type} [DecidableEq α] {zero base : α} (hb : base ≠ zero)
    (override : α) : mergeField zero base override ≠ zero := by
  unfold mergeField
  split <;> assumption

def mergeMetadata (base override : ConfigMetadata) : ConfigMetadata where
  name := mergeField "" base.name override.name
  description := mergeField "" base.description override.description
  author := mergeField "" base.author override.author
  createdAt := mergeField "" base.createdAt override.createdAt

def mergeAtomicNoizeConfig (base override : AtomicNoizeConfig) : AtomicNoizeConfig where
  i1 := mergeField "" base.i1 override.i1
  i2 := mergeField "" base.i2 override.i2
  i3 := mergeField "" base.i3 override.i3
  i4 := mergeField "" base.i4 override.i4
  i5 := mergeField "" base.i5 override.i5
  s1 := mergeField 0 base.s1 override.s1
  s2 := mergeField 0 base.s2 override.s2
  jc := mergeField 0 base.jc override.jc
  jmin := mergeField 0 base.jmin override.jmin
  jmax := mergeField 0 base.jmax override.jmax
  jcAfterI1 := mergeField 0 base.jcAfterI1 override.jcAfterI1
  jcBeforeHS := mergeField 0 base.jcBeforeHS override.jcBeforeHS
  jcAfterHS := mergeField 0 base.jcAfterHS override.jcAfterHS
  junkInterval := mergeField 0 base.junkInterval override.junkInterval
  allowZeroSize := override.allowZeroSize
  handshakeDelay := mergeField 0 base.handshakeDelay override.handshakeDelay

def mergeNoizeConfig (base override : NoizeConfig) : NoizeConfig where
  i1 := mergeField "" base.i1 override.i1
  i2 := mergeField "" base.i2 override.i2
  i3 := mergeField "" base.i3 override.i3
  i4 := mergeField "" base.i4 override.i4
  i5 := mergeField "" base.i5 override.i5
  fragmentSize := mergeField 0 base.fragmentSize override.fragmentSize
  fragmentInitial := override.fragmentInitial
  fragmentDelay := mergeField 0 base.fragmentDelay override.fragmentDelay
  paddingMin := mergeField 0 base.paddingMin override.paddingMin
  paddingMax := mergeField 0 base.paddingMax override.paddingMax
  randomPadding := override.randomPadding
  jc := mergeField 0 base.jc override.jc
  jmin := mergeField 0 base.jmin override.jmin
  jmax := mergeField 0 base.jmax override.jmax
  jcBeforeHS := mergeField 0 base.jcBeforeHS override.jcBeforeHS
  jcAfterI1 := mergeField 0 base.jcAfterI1 override.jcAfterI1
  jcDuringHS := mergeField 0 base.jcDuringHS override.jcDuringHS
  jcAfterHS := mergeField 0 base.jcAfterHS override.jcAfterHS
  junkInterval := mergeField 0 base.junkInterval override.junkInterval
  junkRandom := override.junkRandom
  mimicProtocol := mergeField "" base.mimicProtocol override.mimicProtocol
  handshakeDelay := mergeField 0 base.handshakeDelay override.handshakeDelay
  packetDelay := mergeField 0 base.packetDelay override.packetDelay
  randomDelay := override.randomDelay
  delayMin := mergeField 0 base.delayMin override.delayMin
  delayMax := mergeField 0 base.delayMax override.delayMax
  sniFragment := mergeField 0 base.sniFragment override.sniFragment
  allowZeroSize := override.allowZeroSize
  fakeLoss := mergeField 0 base.fakeLoss override.fakeLoss

/-- A missing custom section is first created empty, then merged into. -/
def mergeWireGuardConfig (base override : WireGuardNoize) : WireGuardNoize where
  enabled := override.enabled
  preset := mergeField "" base.preset override.preset
  atomicNoize :=
    match override.atomicNoize with
    | some o => some (mergeAtomicNoizeConfig (base.atomicNoize.getD {}) o)
    | none => base.atomicNoize

def mergeMASQUEConfig (base override : MASQUENoize) : MASQUENoize where
  enabled := override.enabled
  preset := mergeField "" base.preset override.preset
  config :=
    match override.config with
    | some o => some (mergeNoizeConfig (base.config.getD {}) o)
    | none => base.config

/-- `ConfigLoader.deepCopy`: a JSON round trip, exact on these fields. -/
def deepCopy (src : UnifiedNoizeConfig) : UnifiedNoizeConfig := src

/-- `ConfigLoader.MergeConfigs`. -/
def mergeConfigs (base override : UnifiedNoizeConfig) : UnifiedNoizeConfig :=
  let merged := deepCopy base
  { metadata :=
      match override.metadata with
      | some o => some (mergeMetadata (merged.metadata.getD {}) o)
      | none => merged.metadata
    wireGuard :=
      match override.wireGuard with
      | some o => some (mergeWireGuardConfig (merged.wireGuard.getD {}) o)
      | none => merged.wireGuard
    masque :=
      match override.masque with
      | some o => some (mergeMASQUEConfig (merged.masque.getD {}) o)
      | none => merged.masque }

/-! ## The built-in presets -/

/-- `NewUnifiedConfig` with the preset's metadata; `createdAt` is the clock
reading `time.Now().UTC().Format(time.RFC3339)`. -/
def presetConfig (createdAt name description : String) (atomicNoize : AtomicNoizeConfig)
    (noize : NoizeConfig) (preset : String) : UnifiedNoizeConfig where
  metadata := some { name, description, createdAt }
  wireGuard := some { enabled := true, preset, atomicNoize := some atomicNoize }
  masque := some { enabled := true, preset, config := some noize }

/-- `time.Millisecond` in nanoseconds. -/
def ms : Int := 1000000

def createMinimalPreset (createdAt : String) : UnifiedNoizeConfig :=
  presetConfig createdAt "Minimal" "Minimal obfuscation, maximum performance" {} {} "minimal"

def createLightPreset (createdAt : String) : UnifiedNoizeConfig :=
  presetConfig createdAt "Light" "Light obfuscation, good performance, basic DPI evasion"
    { i1 := "<b 0c0d0e0f>", jc := 2, jmin := 20, jmax := 50, jcAfterI1 := 1, jcBeforeHS := 1,
      junkInterval := 10 * ms, handshakeDelay := 5 * ms }
    { i1 := "<b 0d0a0d0a>", jc := 2, jmin := 20, jmax := 50, jcBeforeHS := 2,
      junkInterval := 5 * ms, handshakeDelay := 10 * ms, mimicProtocol := "quic" }
    "light"

def createMediumPreset (createdAt : String) : UnifiedNoizeConfig :=
  presetConfig createdAt "Medium" "Balanced obfuscation and performance"
    { i1 := "<b 0xc200><t><r 16>", jc := 4, jmin := 40, jmax := 70, jcAfterI1 := 1,
      jcBeforeHS := 2, jcAfterHS := 1, junkInterval := 10 * ms, handshakeDelay := 10 * ms }
    { i1 := "<b 0d0a0d0a><t><r 16>", jc := 3, jmin := 40, jmax := 80, jcBeforeHS := 2,
      jcAfterI1 := 1, junkInterval := 10 * ms, fragmentInitial := true, fragmentSize := 512,
      fragmentDelay := 2 * ms, paddingMin := 16, paddingMax := 32, randomPadding := true,
      handshakeDelay := 15 * ms, mimicProtocol := "h3" }
    "medium"

def createHeavyPreset (createdAt : String) : UnifiedNoizeConfig :=
  presetConfig createdAt "Heavy" "Heavy obfuscation, higher latency, strong DPI evasion"
    { i1 := "<b 0xc200><t><r 32><p 64>", i2 := "<r 16>", i3 := "<r 24>", jc := 8, jmin := 60,
      jmax := 120, jcAfterI1 := 2, jcBeforeHS := 3, jcAfterHS := 3, junkInterval := 15 * ms,
      handshakeDelay := 25 * ms }
    { i1 := "<b 0d0a0d0a><t><r 32><p 64>", i2 := "<r 16>", i3 := "<r 24>", jc := 6,
      jmin := 64, jmax := 128, jcBeforeHS := 3, jcAfterI1 := 1, jcDuringHS := 1,
      jcAfterHS := 1, junkInterval := 20 * ms, junkRandom := true, fragmentInitial := true,
      fragmentSize := 256, fragmentDelay := 5 * ms, paddingMin := 32, paddingMax := 128,
      randomPadding := true, handshakeDelay := 50 * ms, randomDelay := true,
      delayMin := 5 * ms, delayMax := 25 * ms, mimicProtocol := "https" }
    "heavy"

def createStealthPreset (createdAt : String) : UnifiedNoizeConfig :=
  presetConfig createdAt "Stealth" "Maximum stealth, advanced protocol mimicry"
    { i1 := "<b 0xc200><t><r 48><p 128>", i2 := "<r 32><t>", i3 := "<r 16><p 32>",
      i4 := "<r 24>", jc := 12, jmin := 80, jmax := 200, jcAfterI1 := 3, jcBeforeHS := 4,
      jcAfterHS := 5, junkInterval := 25 * ms, handshakeDelay := 50 * ms }
    { i1 := "<b 0d0a0d0a><t><r 48><p 128>", i2 := "<r 32><t>", i3 := "<r 16><p 32>",
      i4 := "<r 24>", jc := 8, jmin := 100, jmax := 256, jcBeforeHS := 4, jcAfterI1 := 1,
      jcDuringHS := 2, jcAfterHS := 1, junkInterval := 30 * ms, junkRandom := true,
      fragmentInitial := true, fragmentSize := 200, fragmentDelay := 10 * ms, paddingMin := 64,
      paddingMax := 200, randomPadding := true, handshakeDelay := 100 * ms, randomDelay := true,
      delayMin := 10 * ms, delayMax := 50 * ms, mimicProtocol := "dtls", sniFragment := 32 }
    "stealth"

def createGFWPreset (createdAt : String) : UnifiedNoizeConfig :=
  presetConfig createdAt "GFW" "Optimized for Great Firewall bypass"
    { i1 := "<b 0x16030100><r 32><t>", i2 := "<r 16><b 0x140303>", jc := 6, jmin := 50,
      jmax := 100, jcAfterI1 := 1, jcBeforeHS := 3, jcAfterHS := 2, junkInterval := 20 * ms,
      handshakeDelay := 30 * ms }
    { i1 := "<b 16030100><r 32><t>", i2 := "<r 16><b 140303>", jc := 5, jmin := 64,
      jmax := 120, jcBeforeHS := 3, jcAfterI1 := 1, jcDuringHS := 1, junkInterval := 25 * ms,
      junkRandom := true, fragmentInitial := true, fragmentSize := 300, fragmentDelay := 8 * ms,
      paddingMin := 32, paddingMax := 80, randomPadding := true, handshakeDelay := 40 * ms,
      randomDelay := true, delayMin := 5 * ms, delayMax := 20 * ms, mimicProtocol := "https",
      sniFragment := 16 }
    "gfw"

def createFirewallPreset (createdAt : String) : UnifiedNoizeConfig :=
  presetConfig createdAt "Firewall" "Corporate firewall circumvention"
    { i1 := "<b 0x45000028><r 20>", jc := 3, jmin := 30, jmax := 60, jcAfterI1 := 1,
      jcBeforeHS := 1, jcAfterHS := 1, junkInterval := 15 * ms, handshakeDelay := 20 * ms }
    { i1 := "<b 45000028><r 20>", jc := 4, jmin := 32, jmax := 64, jcBeforeHS := 2,
      jcAfterI1 := 1, jcDuringHS := 1, junkInterval := 12 * ms, paddingMin := 16,
      paddingMax := 48, handshakeDelay := 25 * ms, mimicProtocol := "stun" }
    "firewall"

structure PresetManager where
  builtinPresets : List (String × UnifiedNoizeConfig)

/-- `NewPresetManager`, with the clock reading its presets record. -/
def newPresetManager (createdAt : String) : PresetManager where
  builtinPresets :=
    [("minimal", createMinimalPreset createdAt), ("light", createLightPreset createdAt),
      ("medium", createMediumPreset createdAt), ("heavy", createHeavyPreset createdAt),
      ("stealth", createStealthPreset createdAt), ("gfw", createGFWPreset createdAt),
      ("firewall", createFirewallPreset createdAt)]

/-- `PresetManager.GetPreset`. -/
def PresetManager.getPreset (pm : PresetManager) (name : String) :
    Except String UnifiedNoizeConfig :=
  let name := String.ofList (toLower (trimSpace name.toList))
  match pm.builtinPresets.lookup name with
  | some preset => .ok (deepCopy preset)
  | none => .error s!"unknown preset: {name}"

/-- `ConfigLoader.LoadFromFile` after the file is read and decoded to `config`. -/
def loadFromFile (filepath : String) (config : UnifiedNoizeConfig) :
    Except String UnifiedNoizeConfig :=
  (config.validate.mapError (s!"invalid config in file {filepath}: " ++ ·)).map fun _ => config

/-- `ConfigLoader.LoadMixed`; `file` is what the custom file decodes to. -/
def loadMixed (pm : PresetManager) (presetName configPath : String) (file : UnifiedNoizeConfig) :
    Except String UnifiedNoizeConfig := do
  let baseConfig ← (pm.getPreset presetName).mapError (s!"failed to load preset {presetName}: " ++ ·)
  if configPath = "" then return baseConfig
  let customConfig ← (loadFromFile configPath file).mapError ("failed to load custom config: " ++ ·)
  return mergeConfigs baseConfig customConfig

/-! ## What a merge keeps -/

/-- A custom configuration with `Jmax = 10` and `Jmin` unset passes both
validators, and merged over the `light` preset it gives `Jmin = 20 > Jmax`. -/
theorem merge_breaks_size_range (createdAt : String) :
    let custom : UnifiedNoizeConfig :=
      { wireGuard := some { enabled := true, atomicNoize := some { jmax := 10 } } }
    custom.validate = .ok () ∧ validateAtomicNoizeConfig { jmax := 10 } = .ok () ∧
      ∃ merged : AtomicNoizeConfig,
        (mergeConfigs (createLightPreset createdAt) custom).wireGuard =
          some { enabled := true, preset := "light", atomicNoize := some merged } ∧
        merged.jmin = 20 ∧ merged.jmax = 10 ∧
        validateAtomicNoizeConfig merged =
          .error "maximum junk packet size (10) cannot be less than minimum (20)" :=
  ⟨rfl, rfl, _, rfl, rfl, rfl, rfl⟩

/-! ## Merged presets -/

/-- Both sections name a preset next to a custom configuration, as every
built-in preset does. -/
def PresetAndCustom (c : UnifiedNoizeConfig) : Prop :=
  (∃ wg, c.wireGuard = some wg ∧ wg.preset ≠ "" ∧ wg.atomicNoize.isSome) ∧
    ∃ m, c.masque = some m ∧ m.preset ≠ "" ∧ m.config.isSome

theorem presetConfig_presetAndCustom {preset : String} (h : preset ≠ "")
    (createdAt name description : String) (a : AtomicNoizeConfig) (n : NoizeConfig) :
    PresetAndCustom (presetConfig createdAt name description a n preset) :=
  ⟨⟨_, rfl, h, rfl⟩, ⟨_, rfl, h, rfl⟩⟩

theorem getPreset_presetAndCustom {createdAt name : String} {preset : UnifiedNoizeConfig}
    (h : (newPresetManager createdAt).getPreset name = .ok preset) : PresetAndCustom preset := by
  have hall : ∀ entry ∈ (newPresetManager createdAt).builtinPresets,
      PresetAndCustom entry.2 := by
    simp only [newPresetManager, List.mem_cons, List.not_mem_nil, or_false]
    rintro entry (rfl | rfl | rfl | rfl | rfl | rfl | rfl) <;>
      exact presetConfig_presetAndCustom (by decide) _ _ _ _ _
  unfold PresetManager.getPreset at h
  dsimp only at h
  split at h
  · next found hfound =>
    cases h
    obtain ⟨l₁, l₂, hl, -⟩ := List.lookup_eq_some_iff.mp hfound
    exact hall _ (hl ▸ List.mem_append_right l₁ List.mem_cons_self)
  · cases h

/-- Merging over a preset keeps its preset names and its custom sections. -/
theorem mergeConfigs_presetAndCustom {base : UnifiedNoizeConfig} (hb : PresetAndCustom base)
    (override : UnifiedNoizeConfig) : PresetAndCustom (mergeConfigs base override) := by
  obtain ⟨⟨wg, hwg, hwgp, hwga⟩, ⟨m, hm, hmp, hmc⟩⟩ := hb
  constructor
  · cases ho : override.wireGuard with
    | none => exact ⟨wg, by simp [mergeConfigs, deepCopy, ho, hwg], hwgp, hwga⟩
    | some o =>
      refine ⟨mergeWireGuardConfig wg o, by simp [mergeConfigs, deepCopy, ho, hwg],
        mergeField_ne hwgp _, ?_⟩
      cases hoa : o.atomicNoize <;> simp [mergeWireGuardConfig, hoa, hwga]
  · cases ho : override.masque with
    | none => exact ⟨m, by simp [mergeConfigs, deepCopy, ho, hm], hmp, hmc⟩
    | some o =>
      refine ⟨mergeMASQUEConfig m o, by simp [mergeConfigs, deepCopy, ho, hm],
        mergeField_ne hmp _, ?_⟩
      cases hoc : o.config <;> simp [mergeMASQUEConfig, hoc, hmc]

/-- `Validate` refuses such a configuration unless both sections are off. -/
theorem validate_presetAndCustom {c : UnifiedNoizeConfig} (h : PresetAndCustom c) :
    c.validate = .ok () ↔ c.isWireGuardEnabled = false ∧ c.isMASQUEEnabled = false := by
  obtain ⟨⟨wg, hwg, hwgp, hwga⟩, ⟨m, hm, hmp, hmc⟩⟩ := h
  simp only [UnifiedNoizeConfig.validate, UnifiedNoizeConfig.isWireGuardEnabled,
    UnifiedNoizeConfig.isMASQUEEnabled, hwg, hm]
  cases hwe : wg.enabled <;> cases hme : m.enabled <;>
    simp [failIf, hwgp, hwga, hmp, hmc, bind, Except.bind, pure, Except.pure]

/-- `ValidateConfig` refuses such a configuration: an enabled section names a
preset next to a custom one, and with both off no protocol is enabled. -/
theorem validateConfig_presetAndCustom {c : UnifiedNoizeConfig} (h : PresetAndCustom c) :
    validateConfig (some c) ≠ .ok () := by
  obtain ⟨⟨wg, hwg, hwgp, hwga⟩, ⟨m, hm, hmp, hmc⟩⟩ := h
  simp only [validateConfig, UnifiedNoizeConfig.isWireGuardEnabled,
    UnifiedNoizeConfig.isMASQUEEnabled, hwg, hm]
  cases hwe : wg.enabled <;> cases hme : m.enabled <;>
    simp [failIf, validateWireGuardConfig, validateMASQUEConfig, hwgp, hwga, hmp, hmc, bind,
      Except.bind, Except.mapError]

/-- No merged preset passes `ValidateConfig`, and one passes `Validate` only
with both sections switched off: for every preset and every custom
configuration. -/
theorem merged_preset_rejected {createdAt name : String} {preset : UnifiedNoizeConfig}
    (h : (newPresetManager createdAt).getPreset name = .ok preset) (custom : UnifiedNoizeConfig) :
    validateConfig (some (mergeConfigs preset custom)) ≠ .ok () ∧
      ((mergeConfigs preset custom).validate = .ok () ↔
        (mergeConfigs preset custom).isWireGuardEnabled = false ∧
          (mergeConfigs preset custom).isMASQUEEnabled = false) := by
  have hmerged := mergeConfigs_presetAndCustom (getPreset_presetAndCustom h) custom
  exact ⟨validateConfig_presetAndCustom hmerged, validate_presetAndCustom hmerged⟩

theorem merged_preset_rejected_minimal :
    (newPresetManager "").getPreset "minimal" = .ok (createMinimalPreset "") ∧
      (validateConfig (some (mergeConfigs (createMinimalPreset "") {})) ≠ .ok () ∧
        ((mergeConfigs (createMinimalPreset "") {}).validate = .ok () ↔
          (mergeConfigs (createMinimalPreset "") {}).isWireGuardEnabled = false ∧
            (mergeConfigs (createMinimalPreset "") {}).isMASQUEEnabled = false)) :=
  ⟨rfl, merged_preset_rejected
    (show (newPresetManager "").getPreset "minimal" = .ok (createMinimalPreset "") from rfl) {}⟩

end ConfigNoize
