import Mathlib
import Vwarp.Wiresocks.Config
import Vwarp.Preflight.Config

/-!
# The UAPI request of `establishWireguard`

`establishWireguard` writes the configuration as a UAPI `set` request, one
`key=value` line for each setting, and hands it to `IpcSet` of a new device.
The request is modelled as its lines joined by newlines. The `trick` line
carries `t`, or `t0` when AtomicNoize replaces the old obfuscation. The bind,
the tunnel and the wait for the handshake that follow are not modelled.

The device reads the request back into the configuration with one change of
its own: its allowed-IP table maps each masked prefix to a single peer, so
a prefix that two peers list ends with the later one, and a prefix with host
bits is kept masked.
-/

namespace App

open GoText ExceptStep NetText Netip Uapi Wiresocks Preflight

/-- A request line `key=value`. -/
def uapiLine (key : String) (value : List Char) : List Char := key.toList ++ '=' :: value

/-- `%d` of a Go `int`. -/
def intText (n : Int) : List Char := if n < 0 then '-' :: itoa n.natAbs else itoa n.toNat

/-- `%d,%d,%d` of the reserved bytes. -/
def reservedText (r : List UInt8) : List Char :=
  itoa (r.getD 0 0).toNat ++ ',' :: itoa (r.getD 1 0).toNat ++ ',' :: itoa (r.getD 2 0).toNat

/-- The lines of one peer, its allowed IPs last. -/
def peerLines (trick : List Char) (peer : PeerConfig) : List (List Char) :=
  [uapiLine "public_key" peer.publicKey.toList,
    uapiLine "persistent_keepalive_interval" (intText peer.keepAlive),
    uapiLine "preshared_key" peer.preSharedKey.toList,
    uapiLine "endpoint" peer.endpoint.toList,
    uapiLine "trick" trick,
    uapiLine "reserved" (reservedText peer.reserved)] ++
  peer.allowedIPs.map fun cidr => uapiLine "allowed_ip" (prefixString cidr)

def requestLines (conf : Configuration) (fwmark : UInt32) (trick : List Char) :
    List (List Char) :=
  uapiLine "private_key" conf.interface.privateKey.toList ::
    ((if fwmark ≠ 0 then [uapiLine "fwmark" (itoa fwmark.toNat)] else []) ++
      conf.peers.flatMap (peerLines trick))

/-- The value of the `trick` line. -/
def trickValue (t : String) (atomicNoize : Option AtomicNoizeConfig) : List Char :=
  if atomicNoize.isNone then t.toList else "t0".toList

def establishRequest (conf : Configuration) (fwmark : UInt32) (t : String)
    (atomicNoize : Option AtomicNoizeConfig) : List Char :=
  (requestLines conf fwmark (trickValue t atomicNoize)).flatMap (· ++ ['\n'])

/-- The device `establishWireguard` configures: `IpcSet` of its request on a
new device. -/
def configureDevice (pub : NoiseKey → NoiseKey) (conf : Configuration) (fwmark : UInt32)
    (t : String) (atomicNoize : Option AtomicNoizeConfig) : Except IpcError Device :=
  ipcSet pub {} (establishRequest conf fwmark t atomicNoize)

/-! ## The values as the device reads them -/

theorem intText_of_nonneg {n : Int} (h : 0 ≤ n) : intText n = itoa n.toNat := by
  simp [intText, Int.not_lt.mpr h]

theorem comma_not_mem_itoa (n : Nat) : ',' ∉ itoa n := itoa_not_mem (by decide) n

/-- The device reads the printed reserved bytes back. -/
theorem reservedTriple_reservedText {ε : Type} (a : ε) (f : NumError → ε) {r : List UInt8}
    (hr : r.length = 3) : reservedTriple a f (reservedText r) = .ok r := by
  obtain ⟨b₀, b₁, b₂, rfl⟩ : ∃ b₀ b₁ b₂, r = [b₀, b₁, b₂] := by
    match r, hr with
    | [b₀, b₁, b₂], _ => exact ⟨b₀, b₁, b₂, rfl⟩
  have hsplit : (reservedText [b₀, b₁, b₂]).splitOn ',' =
      [itoa b₀.toNat, itoa b₁.toNat, itoa b₂.toNat] := by
    simp only [reservedText, List.getD_cons_zero, List.getD_cons_succ, List.append_assoc,
      List.cons_append]
    rw [List.splitOn_append_cons_self_of_not_mem (comma_not_mem_itoa _),
      List.splitOn_append_cons_self_of_not_mem (comma_not_mem_itoa _),
      List.splitOn_eq_singleton (comma_not_mem_itoa _)]
  have hbyte : ∀ b : UInt8, atoi (itoa b.toNat) = ((b.toNat : Int), none) := fun b =>
    atoi_itoa (lt_trans b.toNat_lt (by decide))
  have hrange : ∀ b : UInt8, ¬((b.toNat : Int) < 0 ∨ 255 < b.toNat) := fun b => by
    have := b.toNat_lt
    omega
  simp [reservedTriple, hsplit, hbyte, hrange]

theorem uapiLine_ne_nil (key : String) (value : List Char) : uapiLine key value ≠ [] := by
  simp [uapiLine]

theorem requestLines_ne_nil {conf : Configuration} {fwmark : UInt32} {trick : List Char}
    {l : List Char} (hl : l ∈ requestLines conf fwmark trick) : l ≠ [] := by
  simp only [requestLines, peerLines, List.mem_cons, List.mem_append, List.mem_flatMap,
    List.mem_map] at hl
  split at hl <;> grind [uapiLine_ne_nil]

/-- On a new device `SetPrivateKey` sets the key and its public key. -/
theorem setPrivateKey_new (pub : NoiseKey → NoiseKey) (sk : NoiseKey) :
    ({} : Device).setPrivateKey pub sk =
      { privateKey := sk, publicKey := if sk = zeroKey then zeroKey else pub sk } := by
  unfold Device.setPrivateKey
  by_cases hsk : sk = zeroKey
  · subst hsk
    rfl
  · rw [if_neg hsk, if_neg hsk]
    rfl

/-! ## Reading the request back -/

section ReadBack

variable (pub : NoiseKey → NoiseKey) (trick : List Char)

/-- The key the device reads from a peer's public key text. -/
def peerKey (p : PeerConfig) : NoiseKey := ((loadExactHex 32 p.publicKey.toList).toOption).getD zeroKey

def peerPresharedKey (p : PeerConfig) : NoiseKey :=
  ((loadExactHex 32 p.preSharedKey.toList).toOption).getD zeroKey

def peerEndpoint (p : PeerConfig) : AddrPort :=
  ((parseAddrPort p.endpoint.toList).toOption).getD ⟨.invalid, 0⟩

/-- What the device is to hold for a peer: the configured keys, endpoint,
keepalive and reserved bytes, and the request's trick. -/
def configuredState (p : PeerConfig) : PeerState :=
  { presharedKey := peerPresharedKey p, endpoint := some (peerEndpoint p),
    persistentKeepaliveInterval := p.keepAlive.toNat, trick := trick, reserved := p.reserved }

/-- A peer whose every value the device reads. -/
structure PeerReadable (p : PeerConfig) : Prop where
  publicKey : loadExactHex 32 p.publicKey.toList = .ok (peerKey p)
  presharedKey : loadExactHex 32 p.preSharedKey.toList = .ok (peerPresharedKey p)
  endpoint : parseAddrPort p.endpoint.toList = .ok (peerEndpoint p)
  keepAlive : 0 ≤ p.keepAlive ∧ p.keepAlive < 2 ^ 16
  allowedIPs : ∀ a ∈ p.allowedIPs, parsePrefix (prefixString a) = .ok a

/-- What reading a request back needs of a configuration: the device reads
the private key and every peer, every line survives the scanner, and the
peers' keys are distinct, none the device's own, and not too many. -/
structure Readable (conf : Configuration) (fwmark : UInt32) (sk : NoiseKey) : Prop where
  privateKey : privateKeyFromMaybeZeroHex conf.interface.privateKey.toList = .ok sk
  lines : ∀ l ∈ requestLines conf fwmark trick, ScansWhole l
  peers : ∀ p ∈ conf.peers, PeerReadable p
  keys : (conf.peers.map peerKey).Nodup
  notOwn : ∀ p ∈ conf.peers, peerKey p ≠ (({} : Device).setPrivateKey pub sk).publicKey
  count : conf.peers.length ≤ maxPeers

/-- The allowed-IP entries of the peers, in request order. -/
def allowedEntries (ps : List PeerConfig) : List (Prefix × NoiseKey) :=
  ps.flatMap fun p => p.allowedIPs.map (·, peerKey p)

theorem allowedEntries_cons (p : PeerConfig) (ps : List PeerConfig) :
    allowedEntries (p :: ps) = p.allowedIPs.map (·, peerKey p) ++ allowedEntries ps :=
  List.flatMap_cons

/-- The device after inserting `entries` into its allowed-IP table in turn. -/
def insertAll (d : Device) (entries : List (Prefix × NoiseKey)) : Device :=
  entries.foldl (fun d e => d.insertAllowedIP e.1 e.2) d

theorem insertAll_with_peers (d : Device) (peers : List (NoiseKey × PeerState))
    (entries : List (Prefix × NoiseKey)) :
    insertAll { d with peers := peers } entries = { insertAll d entries with peers := peers } := by
  induction entries generalizing d with
  | nil => rfl
  | cons e entries ih => exact ih (d.insertAllowedIP e.1 e.2)

theorem insertAll_append (d : Device) (e₁ e₂ : List (Prefix × NoiseKey)) :
    insertAll d (e₁ ++ e₂) = insertAll (insertAll d e₁) e₂ :=
  List.foldl_append

@[simp] theorem insertAll_peers (d : Device) (entries : List (Prefix × NoiseKey)) :
    (insertAll d entries).peers = d.peers := by
  induction entries generalizing d with
  | nil => rfl
  | cons e entries ih => exact ih (d.insertAllowedIP e.1 e.2)

@[simp] theorem insertAll_publicKey (d : Device) (entries : List (Prefix × NoiseKey)) :
    (insertAll d entries).publicKey = d.publicKey := by
  induction entries generalizing d with
  | nil => rfl
  | cons e entries ih => exact ih (d.insertAllowedIP e.1 e.2)

/-- The session after `public_key` created the peer `k`, which is now in
state `st`. -/
def freshSession (d : Device) (k : NoiseKey) (st : PeerState) : Session :=
  { device := { d with peers := d.peers ++ [(k, st)] }, peer := { key := some k, created := true },
    deviceConfig := false }

/-- A peer key that updates the new peer's state, and nothing else. -/
theorem handleLine_freshSession {d : Device} {k : NoiseKey} (hk : k ∉ d.peers.map (·.1))
    (st : PeerState) {lineKey value : List Char} (hkey : '=' ∉ lineKey)
    (hpk : lineKey ≠ "public_key".toList) {f : PeerState → PeerState}
    (h : ∀ d' : Device, handlePeerLine d' { key := some k, created := true } lineKey value =
      .ok (IpcPeer.update { key := some k, created := true } d' f, { key := some k, created := true })) :
    handleLine pub (freshSession d k st) (lineKey ++ '=' :: value) = .ok (freshSession d k (f st)) := by
  rw [handleLine_peer pub _ hkey hpk rfl (h _)]
  simp [freshSession, IpcPeer.update, updatePeer_append_fresh _ hk]

/-- The allowed IPs of the peer being configured go into the table in turn. -/
theorem allowedLines_foldlM (k : NoiseKey) (as : List Prefix)
    (has : ∀ a ∈ as, parsePrefix (prefixString a) = .ok a) (s : Session)
    (hpeer : s.peer = { key := some k, created := true }) (hmode : s.deviceConfig = false) :
    (as.map fun cidr => uapiLine "allowed_ip" (prefixString cidr)).foldlM (handleLine pub) s =
      .ok { s with device := insertAll s.device (as.map (·, k)) } := by
  induction as generalizing s with
  | nil => rfl
  | cons a as ih =>
    obtain ⟨ha, hrest⟩ := List.forall_mem_cons.mp has
    have hstep := handlePeerLine_allowedIP s.device s.peer ha (by rw [hpeer]) (by rw [hpeer])
    rw [List.map_cons, List.foldlM_cons, uapiLine,
      handleLine_peer pub s (by decide) (by decide) hmode hstep, ok_bind,
      ih hrest { s with device := s.device.insertAllowedIP a k } hpeer hmode]
    rfl

/-- One peer's lines, from any session, when its key is new and not the
device's own: the peer is created with its configured state and its allowed
IPs are inserted. -/
theorem peerLines_foldlM (s : Session) (p : PeerConfig) (hp : PeerReadable p)
    (hpub : peerKey p ≠ s.device.publicKey) (hnew : peerKey p ∉ s.device.peers.map (·.1))
    (hmax : s.device.peers.length < maxPeers) :
    (peerLines trick p).foldlM (handleLine pub) s =
      let fresh := freshSession s.device (peerKey p) (configuredState trick p)
      .ok { fresh with device := insertAll fresh.device (p.allowedIPs.map (·, peerKey p)) } := by
  have hka : intText p.keepAlive = itoa p.keepAlive.toNat := intText_of_nonneg hp.keepAlive.1
  have hka16 : p.keepAlive.toNat < 2 ^ 16 := by have := hp.keepAlive; omega
  have hcreate : handleLine pub s (uapiLine "public_key" p.publicKey.toList) =
      .ok (freshSession s.device (peerKey p) {}) :=
    handleLine_publicKey pub s (handlePublicKeyLine_new s.device hp.publicKey hpub hnew hmax)
  have hsix : (peerLines trick p).foldlM (handleLine pub) s =
      (p.allowedIPs.map fun cidr => uapiLine "allowed_ip" (prefixString cidr)).foldlM (handleLine pub)
        (freshSession s.device (peerKey p) (configuredState trick p)) := by
    rw [peerLines, List.cons_append, List.foldlM_cons, hcreate, ok_bind, List.cons_append, List.foldlM_cons, uapiLine, hka,
      handleLine_freshSession pub hnew _ (by decide) (by decide)
        fun d' => handlePeerLine_keepalive d' _ hka16,
      ok_bind, List.cons_append, List.foldlM_cons, uapiLine,
      handleLine_freshSession pub hnew _ (by decide) (by decide)
        fun d' => handlePeerLine_presharedKey d' _ hp.presharedKey,
      ok_bind, List.cons_append, List.foldlM_cons, uapiLine,
      handleLine_freshSession pub hnew _ (by decide) (by decide)
        fun d' => handlePeerLine_endpoint d' _ hp.endpoint,
      ok_bind, List.cons_append, List.foldlM_cons, uapiLine,
      handleLine_freshSession pub hnew _ (by decide) (by decide)
        fun d' => handlePeerLine_trick d' _ trick,
      ok_bind, List.cons_append, List.foldlM_cons, uapiLine,
      handleLine_freshSession pub hnew _ (by decide) (by decide)
        fun d' => handlePeerLine_reserved d' _ (reservedTriple_reservedText _ _ p.reserved_length),
      ok_bind, List.nil_append]
    rfl
  rw [hsix]
  exact allowedLines_foldlM pub (peerKey p) p.allowedIPs hp.allowedIPs _ rfl rfl

/-- The peers' lines in turn: each peer is created with its configured state,
and the allowed-IP entries of all of them are inserted in request order. The
induction is on the peers; the session moves to the next peer with the
device's public key kept and the created keys all distinct. -/
theorem peersLines_foldlM (ps : List PeerConfig) (s : Session)
    (hr : ∀ p ∈ ps, PeerReadable p) (hkeys : (ps.map peerKey).Nodup)
    (hpub : ∀ p ∈ ps, peerKey p ≠ s.device.publicKey)
    (hnew : ∀ p ∈ ps, peerKey p ∉ s.device.peers.map (·.1))
    (hmax : s.device.peers.length + ps.length ≤ maxPeers) :
    ((ps.flatMap (peerLines trick)).foldlM (handleLine pub) s).map (·.device) =
      .ok (insertAll { s.device with
        peers := s.device.peers ++ ps.map fun p => (peerKey p, configuredState trick p) }
        (allowedEntries ps)) := by
  induction ps generalizing s with
  | nil =>
    simp only [List.flatMap_nil, List.foldlM_nil, List.map_nil, List.append_nil]
    rfl
  | cons p ps ih =>
    have hp := hr p List.mem_cons_self
    have hkp : peerKey p ∉ ps.map peerKey := (List.nodup_cons.mp hkeys).1
    rw [List.flatMap_cons, List.foldlM_append,
      peerLines_foldlM pub trick s p hp (hpub p List.mem_cons_self)
        (hnew p List.mem_cons_self) (by simp at hmax; omega), ok_bind]
    dsimp only
    rw [ih]
    · congr 1
      dsimp only
      rw [allowedEntries_cons, insertAll_append, insertAll_peers, ← insertAll_with_peers]
      simp only [freshSession, List.append_assoc, List.singleton_append, List.map_cons]
    · exact fun q hq => hr q (List.mem_cons_of_mem _ hq)
    · exact (List.nodup_cons.mp hkeys).2
    · intro q hq
      simpa [freshSession] using hpub q (List.mem_cons_of_mem _ hq)
    · intro q hq
      have hqp : peerKey q ≠ peerKey p := fun h => hkp (h ▸ List.mem_map_of_mem hq)
      simpa [freshSession, hqp] using hnew q (List.mem_cons_of_mem _ hq)
    · simp [freshSession] at hmax ⊢
      omega

/-- The device `establishWireguard` configures holds the private key, the
mark, every peer with its configured state, and the table that inserting
every allowed IP in request order gives, when the device reads every value
of the request and every line survives the scanner. -/
theorem configureDevice_eq (conf : Configuration) (fwmark : UInt32) (t : String)
    (atomicNoize : Option AtomicNoizeConfig) (sk : NoiseKey)
    (h : Readable pub (trickValue t atomicNoize) conf fwmark sk) :
    configureDevice pub conf fwmark t atomicNoize =
      .ok (insertAll
        { (({} : Device).setPrivateKey pub sk) with
          fwmark := fwmark.toNat
          peers := conf.peers.map fun p => (peerKey p, configuredState (trickValue t atomicNoize) p) }
        (allowedEntries conf.peers)) := by
  let d₀ : Device := { (({} : Device).setPrivateKey pub sk) with fwmark := fwmark.toNat }
  have hd₀ : d₀.peers = [] := by simp [d₀, setPrivateKey_new]
  have hkeyLine : handleLine pub { device := {} } (uapiLine "private_key" conf.interface.privateKey.toList) =
      .ok { device := ({} : Device).setPrivateKey pub sk } :=
    handleLine_device pub _ (by decide) (by decide) rfl (handleDeviceLine_privateKey pub {} h.privateKey)
  have hmark : (if fwmark ≠ 0 then [uapiLine "fwmark" (itoa fwmark.toNat)] else []).foldlM
      (handleLine pub) { device := ({} : Device).setPrivateKey pub sk } = .ok { device := d₀ } := by
    split
    · rw [List.foldlM_cons, uapiLine,
        handleLine_device pub _ (by decide) (by decide) rfl
          (handleDeviceLine_fwmark pub _ fwmark.toNat_lt), ok_bind]
      rfl
    · next h0 =>
      rw [List.foldlM_nil]
      simp only [d₀, not_not.mp h0, setPrivateKey_new]
      rfl
  rw [configureDevice, establishRequest,
    ipcSet_lines pub {} _ fun l hl => ⟨h.lines l hl, requestLines_ne_nil hl⟩, requestLines,
    List.foldlM_cons, hkeyLine, ok_bind, List.foldlM_append, hmark, ok_bind,
    peersLines_foldlM pub _ conf.peers { device := d₀ } h.peers h.keys h.notOwn
      (by simp [hd₀]) (by simp [hd₀, h.count])]
  simp only [hd₀, List.nil_append]
  rfl

/-! ## The peers and the allowed-IP table the device ends with -/

theorem lookup_configured {ps : List PeerConfig} (hkeys : (ps.map peerKey).Nodup) {p : PeerConfig}
    (hp : p ∈ ps) (g : PeerConfig → PeerState) :
    (ps.map fun q => (peerKey q, g q)).lookup (peerKey p) = some (g p) := by
  induction ps with
  | nil => cases hp
  | cons q ps ih =>
    have hq : peerKey q ∉ ps.map peerKey := (List.nodup_cons.mp hkeys).1
    rcases List.mem_cons.mp hp with rfl | hp
    · simp
    · have hpq : peerKey p ≠ peerKey q := fun h => hq (h ▸ List.mem_map_of_mem hp)
      simp only [List.map_cons, List.lookup_cons, beq_false_of_ne hpq]
      exact ih (List.nodup_cons.mp hkeys).2 hp

/-- Entries with another masked prefix leave a prefix's route alone. -/
theorem mem_insertAll_of_forall_ne {d : Device} {m : Prefix} {k : NoiseKey}
    {entries : List (Prefix × NoiseKey)} (h : ∀ e ∈ entries, m ≠ e.1.masked) :
    (m, k) ∈ (insertAll d entries).allowedIPs ↔ (m, k) ∈ d.allowedIPs := by
  induction entries generalizing d with
  | nil => rfl
  | cons e entries ih =>
    obtain ⟨hm, hrest⟩ := List.forall_mem_cons.mp h
    rw [insertAll, List.foldl_cons, ← insertAll, ih hrest, mem_insertAllowedIP]
    simp [hm]

/-- Once an entry for a masked prefix is inserted, the prefix routes only to
a key of the inserted entries. -/
theorem not_mem_insertAll {d : Device} {m : Prefix} {k : NoiseKey}
    {entries : List (Prefix × NoiseKey)} (hm : ∃ e ∈ entries, e.1.masked = m)
    (hk : ∀ e ∈ entries, e.2 ≠ k) : (m, k) ∉ (insertAll d entries).allowedIPs := by
  induction entries generalizing d with
  | nil => simp at hm
  | cons e entries ih =>
    obtain ⟨hke, hrest⟩ := List.forall_mem_cons.mp hk
    rw [insertAll, List.foldl_cons, ← insertAll]
    by_cases hlater : ∃ e' ∈ entries, e'.1.masked = m
    · exact ih hlater hrest
    · have he : e.1.masked = m :=
        ((List.exists_mem_cons_iff _ e entries).mp hm).resolve_right hlater
      have hne : ∀ e' ∈ entries, m ≠ e'.1.masked := fun e' he' heq =>
        hlater ⟨e', he', heq.symm⟩
      rw [mem_insertAll_of_forall_ne hne, mem_insertAllowedIP]
      grind

/-- Masked prefixes, each listed once, fill the table in their order. -/
theorem insertAll_allowedIPs {d : Device} {entries : List (Prefix × NoiseKey)}
    (hmasked : ∀ e ∈ entries, e.1.masked = e.1) (hdistinct : (entries.map (·.1)).Nodup)
    (hfresh : ∀ e ∈ entries, e.1 ∉ d.allowedIPs.map (·.1)) :
    (insertAll d entries).allowedIPs = d.allowedIPs ++ entries := by
  induction entries generalizing d with
  | nil => simp [insertAll]
  | cons e entries ih =>
    obtain ⟨he, hrest⟩ := List.forall_mem_cons.mp hmasked
    have hfilter : d.allowedIPs.filter (fun x => x.1 ≠ e.1.masked) = d.allowedIPs := by
      rw [List.filter_eq_self]
      intro x hx
      have : x.1 ≠ e.1 := fun h => hfresh e List.mem_cons_self (h ▸ List.mem_map_of_mem hx)
      simpa [he] using this
    have hstep : (d.insertAllowedIP e.1 e.2).allowedIPs = d.allowedIPs ++ [e] := by
      show d.allowedIPs.filter (fun x => x.1 ≠ e.1.masked) ++ [(e.1.masked, e.2)] = _
      rw [hfilter, he]
    rw [insertAll, List.foldl_cons, ← insertAll, ih hrest (List.nodup_cons.mp hdistinct).2, hstep,
      List.append_assoc, List.singleton_append]
    intro e' he'
    have hne : e'.1 ≠ e.1 := fun h =>
      (List.nodup_cons.mp hdistinct).1 (List.mem_map.mpr ⟨e', he', h⟩)
    simpa [hstep, hne] using hfresh e' (List.mem_cons_of_mem _ he')

/-- The entries of one peer among the peers, when their keys are distinct. -/
theorem filter_allowedEntries {ps : List PeerConfig} (hkeys : (ps.map peerKey).Nodup)
    {p : PeerConfig} (hp : p ∈ ps) :
    (allowedEntries ps).filter (fun e => e.2 = peerKey p) = p.allowedIPs.map (·, peerKey p) := by
  induction ps with
  | nil => cases hp
  | cons q ps ih =>
    have hq : peerKey q ∉ ps.map peerKey := (List.nodup_cons.mp hkeys).1
    rw [allowedEntries_cons, List.filter_append]
    rcases List.mem_cons.mp hp with rfl | hp
    · have hrest : (allowedEntries ps).filter (fun e => e.2 = peerKey p) = [] := by
        rw [List.filter_eq_nil_iff]
        intro e he
        obtain ⟨r, hr, he⟩ := List.mem_flatMap.mp he
        obtain ⟨a, -, rfl⟩ := List.mem_map.mp he
        have : peerKey r ≠ peerKey p := fun h => hq (h ▸ List.mem_map_of_mem hr)
        simpa using this
      rw [hrest, List.append_nil, List.filter_eq_self.mpr (by simp)]
    · have hpq : peerKey q ≠ peerKey p := fun h => hq (h ▸ List.mem_map_of_mem hp)
      rw [ih (List.nodup_cons.mp hkeys).2 hp, List.filter_eq_nil_iff.mpr (by simp [hpq]),
        List.nil_append]

/-- Every peer of the request is on the device with its configured state. -/
theorem configureDevice_lookupPeer (conf : Configuration) (fwmark : UInt32) (t : String)
    (atomicNoize : Option AtomicNoizeConfig) (sk : NoiseKey)
    (h : Readable pub (trickValue t atomicNoize) conf fwmark sk) :
    ∃ d, configureDevice pub conf fwmark t atomicNoize = .ok d ∧
      ∀ p ∈ conf.peers, d.lookupPeer (peerKey p) = some (configuredState (trickValue t atomicNoize) p) := by
  refine ⟨_, configureDevice_eq pub conf fwmark t atomicNoize sk h, fun p hp => ?_⟩
  rw [Device.lookupPeer, insertAll_peers]
  exact lookup_configured h.keys hp _

/-- With masked prefixes, none listed twice, every peer's allowed IPs are
read back as configured. -/
theorem configureDevice_allowedIPsOf (conf : Configuration) (fwmark : UInt32) (t : String)
    (atomicNoize : Option AtomicNoizeConfig) (sk : NoiseKey)
    (h : Readable pub (trickValue t atomicNoize) conf fwmark sk)
    (hmasked : ∀ e ∈ allowedEntries conf.peers, e.1.masked = e.1)
    (hdistinct : ((allowedEntries conf.peers).map (·.1)).Nodup) :
    ∃ d, configureDevice pub conf fwmark t atomicNoize = .ok d ∧
      ∀ p ∈ conf.peers, d.allowedIPsOf (peerKey p) = p.allowedIPs := by
  refine ⟨_, configureDevice_eq pub conf fwmark t atomicNoize sk h, fun p hp => ?_⟩
  have htable := insertAll_allowedIPs
    (d := { (({} : Device).setPrivateKey pub sk) with
      fwmark := fwmark.toNat
      peers := conf.peers.map fun p => (peerKey p, configuredState (trickValue t atomicNoize) p) })
    hmasked hdistinct (by simp [setPrivateKey_new])
  rw [Device.allowedIPsOf, htable]
  simp only [setPrivateKey_new, List.nil_append]
  rw [filter_allowedEntries h.keys hp, List.map_map]
  exact List.map_id' _

/-- A prefix that a later peer also lists ends routed to a later peer: the
earlier peer is left without it, whatever else the request holds. -/
theorem shared_prefix_unrouted (conf : Configuration) (fwmark : UInt32) (t : String)
    (atomicNoize : Option AtomicNoizeConfig) (sk : NoiseKey)
    (h : Readable pub (trickValue t atomicNoize) conf fwmark sk) {i j : Nat} (hij : i < j)
    (hj : j < conf.peers.length) {a : Prefix} (hai : a ∈ conf.peers[i].allowedIPs)
    (haj : a ∈ conf.peers[j].allowedIPs) :
    ∃ d, configureDevice pub conf fwmark t atomicNoize = .ok d ∧
      a ∈ conf.peers[i].allowedIPs ∧ a.masked ∉ d.allowedIPsOf (peerKey conf.peers[i]) := by
  refine ⟨_, configureDevice_eq pub conf fwmark t atomicNoize sk h, hai, ?_⟩
  have hsplit : allowedEntries conf.peers =
      allowedEntries (conf.peers.take j) ++ allowedEntries (conf.peers.drop j) := by
    rw [allowedEntries, allowedEntries, allowedEntries, ← List.flatMap_append, List.take_append_drop]
  rw [mem_allowedIPsOf, hsplit, insertAll_append]
  apply not_mem_insertAll
  · refine ⟨(a, peerKey conf.peers[j]), List.mem_flatMap.mpr ⟨conf.peers[j], ?_, ?_⟩, rfl⟩
    · exact List.mem_iff_getElem.mpr ⟨0, by simp; omega, by simp⟩
    · exact List.mem_map_of_mem haj
  · intro e he
    obtain ⟨q, hq, he⟩ := List.mem_flatMap.mp he
    obtain ⟨b, -, rfl⟩ := List.mem_map.mp he
    obtain ⟨n, hn, rfl⟩ := List.mem_iff_getElem.mp hq
    have hjn : j + n < (conf.peers.map peerKey).length := by simp at hn ⊢; omega
    have hi : i < (conf.peers.map peerKey).length := by simp; omega
    intro hk
    have hget : (conf.peers.map peerKey)[j + n] = (conf.peers.map peerKey)[i] := by
      simpa using hk
    have := (List.Nodup.getElem_inj_iff h.keys).mp hget
    omega

/-- Two peers that both route `0.0.0.0/0`, as a file with two `[Peer]`
sections and `AllowedIPs = 0.0.0.0/0` in each gives `ParseConfig`, with its
default preshared key. -/
def sharedDefaultRoute : Configuration where
  interface := { privateKey := "1111111111111111111111111111111111111111111111111111111111111111" }
  peers :=
    [{ publicKey := "2222222222222222222222222222222222222222222222222222222222222222"
       preSharedKey := "0000000000000000000000000000000000000000000000000000000000000000"
       endpoint := "162.159.192.1:2408"
       allowedIPs := [⟨.v4 0, 1⟩] },
     { publicKey := "3333333333333333333333333333333333333333333333333333333333333333"
       preSharedKey := "0000000000000000000000000000000000000000000000000000000000000000"
       endpoint := "162.159.192.2:2408"
       allowedIPs := [⟨.v4 0, 1⟩] }]

/-- Two peers with masked prefixes of their own, `0.0.0.0/0` and `10.0.0.0/8`. -/
def twoRoutes : Configuration where
  interface := { privateKey := "1111111111111111111111111111111111111111111111111111111111111111" }
  peers :=
    [{ publicKey := "2222222222222222222222222222222222222222222222222222222222222222"
       preSharedKey := "0000000000000000000000000000000000000000000000000000000000000000"
       endpoint := "162.159.192.1:2408"
       allowedIPs := [⟨.v4 0, 1⟩] },
     { publicKey := "3333333333333333333333333333333333333333333333333333333333333333"
       preSharedKey := "0000000000000000000000000000000000000000000000000000000000000000"
       endpoint := "162.159.192.2:2408"
       allowedIPs := [⟨.v4 0x0a000000, 9⟩] }]

end ReadBack

end App
