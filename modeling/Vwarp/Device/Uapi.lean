import Mathlib
import Vwarp.NetText
import Vwarp.Lib.ExceptStep

/-!
# The UAPI `set` operation of the WireGuard device

`Device.IpcSetOperation`: the request is read line by line with
`bufio.Scanner`, each line split at its first `=`. Device keys come first;
`public_key` switches to the peer it names, which is looked up, created, or,
when it is the device's own public key, replaced by a placeholder that takes
the peer keys without touching the device. A blank line ends the request.

The device is taken down, as `establishWireguard` has it when it sends its
request: `handlePostConfig` starts nothing, `BindUpdate` opens no socket and
`BindSetMark` only records the mark. The public key of a private key is the
curve25519 base-point product, an argument `pub` here. The allowed-IP table
maps each masked prefix to one peer, as the trie does; `pkaOn` is set but read
by nothing and left out. Errors carry the data `ipcErrorf` formats.
-/

namespace Uapi

open GoText ExceptStep Netip NetText

/-- A Noise key: 32 bytes. -/
abbrev NoiseKey := List UInt8

def zeroKey : NoiseKey := List.replicate 32 0

inductive KeyError where
  | hex (e : HexError)
  | size
  deriving DecidableEq, Repr

/-- `loadExactHex`: the hex text of exactly `n` bytes. -/
def loadExactHex (n : Nat) (src : List Char) : Except KeyError NoiseKey :=
  match hexDecode src with
  | .error e => .error (.hex e)
  | .ok slice => if slice.length = n then .ok slice else .error .size

/-- `NoisePrivateKey.clamp`. -/
def clamp (k : NoiseKey) : NoiseKey :=
  (k.set 0 (k.getD 0 0 &&& 248)).set 31 ((k.getD 31 0 &&& 127) ||| 64)

/-- `NoisePrivateKey.FromMaybeZeroHex`: a zero key is kept, any other clamped. -/
def privateKeyFromMaybeZeroHex (src : List Char) : Except KeyError NoiseKey :=
  (loadExactHex 32 src).map fun k => if k = zeroKey then k else clamp k

/-- `strings.Split(s, ",")` into three decimal bytes, as both readers of the
reserved field do; they differ only in their errors. -/
def reservedTriple {ε : Type} (badFormat : ε) (badNumber : NumError → ε) (s : List Char) :
    Except ε (List UInt8) :=
  let vals := s.splitOn ','
  if vals.length ≠ 3 then .error badFormat
  else
    vals.mapM fun val =>
      match atoi val with
      | (_, some e) => .error (badNumber e)
      | (parsed, none) =>
        if parsed < 0 ∨ 255 < parsed then .error badFormat else .ok (UInt8.ofNat parsed.toNat)

/-- The state of a configured peer that the `set` operation writes. -/
structure PeerState where
  presharedKey : NoiseKey := zeroKey
  endpoint : Option AddrPort := none
  persistentKeepaliveInterval : Nat := 0
  trick : List Char := []
  reserved : List UInt8 := [0, 0, 0]
  deriving DecidableEq, Repr

structure Device where
  privateKey : NoiseKey := zeroKey
  publicKey : NoiseKey := zeroKey
  listenPort : Nat := 0
  fwmark : Nat := 0
  /-- `peers.keyMap`, in the order the peers were created. -/
  peers : List (NoiseKey × PeerState) := []
  /-- The allowed-IP trie: each masked prefix and the key of its peer. -/
  allowedIPs : List (Prefix × NoiseKey) := []
  deriving DecidableEq, Repr

/-- `MaxPeers`. -/
def maxPeers : Nat := 2 ^ 16

namespace Device

def lookupPeer (d : Device) (k : NoiseKey) : Option PeerState := d.peers.lookup k

/-- `removePeerLocked`: the peer and its allowed IPs go. -/
def removePeer (d : Device) (k : NoiseKey) : Device :=
  { d with peers := d.peers.filter (·.1 ≠ k), allowedIPs := d.allowedIPs.filter (·.2 ≠ k) }

/-- `RemoveAllPeers`. -/
def removeAllPeers (d : Device) : Device := { d with peers := [], allowedIPs := [] }

def updatePeer (d : Device) (k : NoiseKey) (f : PeerState → PeerState) : Device :=
  { d with peers := d.peers.map fun e => if e.1 = k then (e.1, f e.2) else e }

/-- `AllowedIPs.Insert`: the masked prefix now routes to `k`. -/
def insertAllowedIP (d : Device) (p : Prefix) (k : NoiseKey) : Device :=
  { d with allowedIPs := d.allowedIPs.filter (·.1 ≠ p.masked) ++ [(p.masked, k)] }

/-- `AllowedIPs.RemoveByPeer`. -/
def removeAllowedIPs (d : Device) (k : NoiseKey) : Device :=
  { d with allowedIPs := d.allowedIPs.filter (·.2 ≠ k) }

/-- `EntriesForPeer`. -/
def allowedIPsOf (d : Device) (k : NoiseKey) : List Prefix :=
  (d.allowedIPs.filter (·.2 = k)).map (·.1)

/-- `SetPrivateKey`: a new key drops the peers holding its public key. -/
def setPrivateKey (pub : NoiseKey → NoiseKey) (d : Device) (sk : NoiseKey) : Device :=
  if sk = d.privateKey then d
  else
    let d := (d.peers.map (·.1)).foldl (fun d k => if k = pub sk then d.removePeer k else d) d
    { d with privateKey := sk, publicKey := pub sk }

end Device

inductive NewPeerError where
  | tooManyPeers
  | existingPeer
  deriving DecidableEq, Repr

/-- `NewPeer` on a device that is not closed. -/
def newPeer (d : Device) (k : NoiseKey) : Except NewPeerError Device :=
  if maxPeers ≤ d.peers.length then .error .tooManyPeers
  else if (d.lookupPeer k).isSome then .error .existingPeer
  else .ok { d with peers := d.peers ++ [(k, {})] }

/-- The error codes of `ipcErrorf`. -/
inductive IpcErrorCode where
  | io
  | protocol
  | invalid
  | portInUse
  deriving DecidableEq, Repr

/-- The errors of the `set` operation, each with what its message prints. -/
inductive IpcError where
  | parseLine (line : List Char)
  | privateKey (e : KeyError)
  | listenPort (e : NumError)
  | fwmark (e : NumError)
  | replacePeers (value : List Char)
  | deviceKey (key : List Char)
  | publicKey (e : KeyError)
  | newPeer (e : NewPeerError)
  | updateOnly (value : List Char)
  | remove (value : List Char)
  | presharedKey (e : KeyError)
  | endpoint (value : List Char) (e : AddrPortError)
  | keepalive (e : NumError)
  | replaceAllowedIPs (value : List Char)
  | allowedIP (e : PrefixError)
  | protocolVersion (value : List Char)
  | reserved (value : List Char)
  | peerKey (key : List Char)
  | tokenTooLong
  deriving DecidableEq, Repr

def IpcError.code : IpcError → IpcErrorCode
  | .parseLine _ => .protocol
  | .tokenTooLong => .io
  | _ => .invalid

/-- `ipcSetPeer`: the peer being configured; `key` is `none` for the
placeholder and before the first `public_key`. -/
structure IpcPeer where
  key : Option NoiseKey := none
  dummy : Bool := false
  created : Bool := false
  deriving DecidableEq, Repr

/-- A peer key's update of the configured peer; the placeholder takes it
without a trace. -/
def IpcPeer.update (p : IpcPeer) (d : Device) (f : PeerState → PeerState) : Device :=
  match p.key with
  | some k => if p.dummy then d else d.updatePeer k f
  | none => d

def handleDeviceLine (pub : NoiseKey → NoiseKey) (d : Device) (key value : List Char) :
    Except IpcError Device :=
  if key = "private_key".toList then
    match privateKeyFromMaybeZeroHex value with
    | .error e => .error (.privateKey e)
    | .ok sk => .ok (d.setPrivateKey pub sk)
  else if key = "listen_port".toList then
    match parseUint value 16 with
    | .error e => .error (.listenPort e)
    | .ok port => .ok { d with listenPort := port }
  else if key = "fwmark".toList then
    match parseUint value 32 with
    | .error e => .error (.fwmark e)
    | .ok mark => .ok { d with fwmark := mark }
  else if key = "replace_peers".toList then
    if value ≠ "true".toList then .error (.replacePeers value) else .ok d.removeAllPeers
  else .error (.deviceKey key)

/-- `handlePublicKeyLine`. -/
def handlePublicKeyLine (d : Device) (value : List Char) : Except IpcError (Device × IpcPeer) :=
  match loadExactHex 32 value with
  | .error e => .error (.publicKey e)
  | .ok pk =>
    if pk = d.publicKey then .ok (d, { key := none, dummy := true, created := false })
    else
      match d.lookupPeer pk with
      | some _ => .ok (d, { key := some pk, dummy := false, created := false })
      | none =>
        match newPeer d pk with
        | .error e => .error (.newPeer e)
        | .ok d => .ok (d, { key := some pk, dummy := false, created := true })

/-- `handlePeerLine`. -/
def handlePeerLine (d : Device) (peer : IpcPeer) (key value : List Char) :
    Except IpcError (Device × IpcPeer) :=
  let placeholder : IpcPeer := { key := none, dummy := true, created := peer.created }
  if key = "update_only".toList then
    if value ≠ "true".toList then .error (.updateOnly value)
    else
      match peer.key with
      | some k => if peer.created ∧ ¬peer.dummy then .ok (d.removePeer k, placeholder) else .ok (d, peer)
      | none => .ok (d, peer)
  else if key = "remove".toList then
    if value ≠ "true".toList then .error (.remove value)
    else
      match peer.key with
      | some k => .ok (if peer.dummy then d else d.removePeer k, placeholder)
      | none => .ok (d, placeholder)
  else if key = "preshared_key".toList then
    match loadExactHex 32 value with
    | .error e => .error (.presharedKey e)
    | .ok psk => .ok (peer.update d fun s => { s with presharedKey := psk }, peer)
  else if key = "endpoint".toList then
    match parseAddrPort value with
    | .error e => .error (.endpoint value e)
    | .ok ep => .ok (peer.update d fun s => { s with endpoint := some ep }, peer)
  else if key = "persistent_keepalive_interval".toList then
    match parseUint value 16 with
    | .error e => .error (.keepalive e)
    | .ok secs => .ok (peer.update d fun s => { s with persistentKeepaliveInterval := secs }, peer)
  else if key = "replace_allowed_ips".toList then
    if value ≠ "true".toList then .error (.replaceAllowedIPs value)
    else
      match peer.key with
      | some k => .ok (if peer.dummy then d else d.removeAllowedIPs k, peer)
      | none => .ok (d, peer)
  else if key = "allowed_ip".toList then
    match parsePrefix value with
    | .error e => .error (.allowedIP e)
    | .ok p =>
      match peer.key with
      | some k => .ok (if peer.dummy then d else d.insertAllowedIP p k, peer)
      | none => .ok (d, peer)
  else if key = "protocol_version".toList then
    if value ≠ "1".toList then .error (.protocolVersion value) else .ok (d, peer)
  else if key = "trick".toList then
    .ok (peer.update d fun s => { s with trick := value }, peer)
  else if key = "reserved".toList then
    match reservedTriple (.reserved value) (fun _ => .reserved value) value with
    | .error e => .error e
    | .ok r => .ok (peer.update d fun s => { s with reserved := r }, peer)
  else .error (.peerKey key)

/-- The loop state of `IpcSetOperation`. -/
structure Session where
  device : Device
  peer : IpcPeer := {}
  deviceConfig : Bool := true
  deriving DecidableEq, Repr

/-- One line that is not blank. -/
def handleLine (pub : NoiseKey → NoiseKey) (s : Session) (line : List Char) :
    Except IpcError Session :=
  match line.idxOf? '=' with
  | none => .error (.parseLine line)
  | some i =>
    let key := line.take i
    let value := line.drop (i + 1)
    if key = "public_key".toList then
      (handlePublicKeyLine s.device value).map fun (d, p) =>
        { device := d, peer := p, deviceConfig := false }
    else if s.deviceConfig then
      (handleDeviceLine pub s.device key value).map fun d => { s with device := d }
    else
      (handlePeerLine s.device s.peer key value).map fun (d, p) => { s with device := d, peer := p }

/-- The scanner loop: a blank line ends the operation. -/
def ipcSetLoop (pub : NoiseKey → NoiseKey) : Session → List (List Char) → Except IpcError Device
  | s, [] => .ok s.device
  | s, line :: rest =>
    if line = [] then .ok s.device
    else (handleLine pub s line).bind fun s => ipcSetLoop pub s rest

/-- `bufio.MaxScanTokenSize`. -/
def maxScanTokenSize : Nat := 65536

/-- The bytes of a line. -/
def byteLength (line : List Char) : Nat := (line.map Char.utf8Size).sum

/-- `bufio.ScanLines`: the lines without their `\n` or `\r\n`, up to the first
one that with its newline does not fit in the scanner's buffer, and whether
there is such a line. -/
def scanLines (text : List Char) : List (List Char) × Bool :=
  let pieces := text.splitOn '\n'
  -- the empty piece after a final newline is no token
  let pieces := if pieces.getLast? = some [] then pieces.dropLast else pieces
  let lines := pieces.map fun l => if l.getLast? = some '\r' then l.dropLast else l
  let fits := pieces.takeWhile fun l => byteLength l + 1 ≤ maxScanTokenSize
  (lines.take fits.length, fits.length < pieces.length)

/-- `Device.IpcSetOperation` on a device that is not up. -/
def ipcSet (pub : NoiseKey → NoiseKey) (d : Device) (request : List Char) :
    Except IpcError Device :=
  let (lines, tooLong) := scanLines request
  match ipcSetLoop pub { device := d } lines with
  | .error e => .error e
  | .ok d' => if tooLong ∧ [] ∉ lines then .error .tokenTooLong else .ok d'

/-! ## A request of whole lines -/

/-- A line the scanner returns as it was written: no newline in it, no
carriage return at its end, and room for it in the buffer. -/
def ScansWhole (line : List Char) : Prop :=
  '\n' ∉ line ∧ line.getLast? ≠ some '\r' ∧ byteLength line + 1 ≤ maxScanTokenSize

instance : DecidablePred ScansWhole := fun line => by
  unfold ScansWhole
  infer_instance

theorem splitOn_lines (ls : List (List Char)) (h : ∀ l ∈ ls, '\n' ∉ l) :
    (ls.flatMap (· ++ ['\n'])).splitOn '\n' = ls ++ [[]] := by
  induction ls with
  | nil => rfl
  | cons l ls ih =>
    obtain ⟨hl, hrest⟩ := List.forall_mem_cons.mp h
    rw [List.flatMap_cons, List.append_assoc, List.singleton_append,
      List.splitOn_append_cons_self_of_not_mem hl, ih hrest, List.cons_append]

/-- The scanner reads back the lines of a request written one per line. -/
theorem scanLines_lines (ls : List (List Char)) (h : ∀ l ∈ ls, ScansWhole l) :
    scanLines (ls.flatMap (· ++ ['\n'])) = (ls, false) := by
  have hsplit := splitOn_lines ls fun l hl => (h l hl).1
  have hcr : ls.map (fun l => if l.getLast? = some '\r' then l.dropLast else l) = ls := by
    conv => rhs; rw [← List.map_id ls]
    apply List.map_congr_left
    intro l hl
    simp [(h l hl).2.1]
  have hfit : ls.takeWhile (fun l => decide (byteLength l + 1 ≤ maxScanTokenSize)) = ls := by
    rw [List.takeWhile_eq_self_iff]
    intro l hl
    exact decide_eq_true (h l hl).2.2
  unfold scanLines
  simp only [hsplit, List.getLast?_concat, if_true, List.dropLast_concat, hcr, hfit,
    List.take_length, Nat.lt_irrefl, decide_false]

/-- Without a blank line the loop is the fold of `handleLine`. -/
theorem ipcSetLoop_foldlM (pub : NoiseKey → NoiseKey) (s : Session) (ls : List (List Char))
    (h : [] ∉ ls) : ipcSetLoop pub s ls = (ls.foldlM (handleLine pub) s).map (·.device) := by
  induction ls generalizing s with
  | nil => rfl
  | cons l ls ih =>
    have hl : l ≠ [] := fun hl => h (hl ▸ List.mem_cons_self)
    rw [ipcSetLoop, if_neg hl, List.foldlM_cons]
    cases handleLine pub s l with
    | error e => rfl
    | ok s' => exact ih s' fun hm => h (List.mem_cons_of_mem _ hm)

/-- A request of whole lines that are not blank is the fold of `handleLine`
over them, from the device with the device keys expected first. -/
theorem ipcSet_lines (pub : NoiseKey → NoiseKey) (d : Device) (ls : List (List Char))
    (h : ∀ l ∈ ls, ScansWhole l ∧ l ≠ []) :
    ipcSet pub d (ls.flatMap (· ++ ['\n'])) =
      (ls.foldlM (handleLine pub) { device := d }).map (·.device) := by
  have hblank : [] ∉ ls := fun hm => (h [] hm).2 rfl
  rw [ipcSet, scanLines_lines ls fun l hl => (h l hl).1]
  dsimp only
  rw [← ipcSetLoop_foldlM pub _ ls hblank]
  cases ipcSetLoop pub { device := d } ls <;> simp

/-- The three moves of the session on a line `key=value`: a `public_key`
switches to peer mode, any other key goes to the device or to the peer. -/
theorem handleLine_key_value (pub : NoiseKey → NoiseKey) (s : Session) {key : List Char}
    (hkey : '=' ∉ key) (value : List Char) :
    handleLine pub s (key ++ '=' :: value) =
      if key = "public_key".toList then
        (handlePublicKeyLine s.device value).map fun (d, p) =>
          { device := d, peer := p, deviceConfig := false }
      else if s.deviceConfig then
        (handleDeviceLine pub s.device key value).map fun d => { s with device := d }
      else
        (handlePeerLine s.device s.peer key value).map fun (d, p) =>
          { s with device := d, peer := p } := by
  have hdrop : (key ++ '=' :: value).drop (key.length + 1) = value := by
    rw [← List.drop_drop, List.drop_left, List.drop_one, List.tail_cons]
  rw [handleLine, idxOf?_append_cons hkey]
  dsimp only
  rw [List.take_left' rfl, hdrop]

/-- A `public_key` line that names a key the device reads moves to peer mode. -/
theorem handleLine_publicKey (pub : NoiseKey → NoiseKey) (s : Session) {value : List Char}
    {d : Device} {p : IpcPeer} (h : handlePublicKeyLine s.device value = .ok (d, p)) :
    handleLine pub s ("public_key".toList ++ '=' :: value) =
      .ok { device := d, peer := p, deviceConfig := false } := by
  rw [handleLine_key_value pub s (by decide), if_pos rfl, h]
  rfl

theorem handleLine_device (pub : NoiseKey → NoiseKey) (s : Session) {key value : List Char}
    (hkey : '=' ∉ key) (hpk : key ≠ "public_key".toList) (hmode : s.deviceConfig = true)
    {d : Device} (h : handleDeviceLine pub s.device key value = .ok d) :
    handleLine pub s (key ++ '=' :: value) = .ok { s with device := d } := by
  rw [handleLine_key_value pub s hkey, if_neg hpk, if_pos hmode, h]
  rfl

theorem handleLine_peer (pub : NoiseKey → NoiseKey) (s : Session) {key value : List Char}
    (hkey : '=' ∉ key) (hpk : key ≠ "public_key".toList) (hmode : s.deviceConfig = false)
    {d : Device} {p : IpcPeer} (h : handlePeerLine s.device s.peer key value = .ok (d, p)) :
    handleLine pub s (key ++ '=' :: value) = .ok { s with device := d, peer := p } := by
  rw [handleLine_key_value pub s hkey, if_neg hpk, hmode, h]
  rfl

theorem parseUint_itoa {n bits : Nat} (h : n < 2 ^ bits) (hbits : bits ≤ 64) :
    parseUint (itoa n) bits = .ok n := by
  obtain ⟨c, rest, hc, -⟩ := itoa_cons n
  have hdec : decimal (itoa n) = some n := decimal_itoaLoop _ _ (Nat.lt_succ_self n)
  exact parseUint_of_decimal (by rw [hc]; exact List.cons_ne_nil c rest) hdec h hbits

section Accepted

variable (pub : NoiseKey → NoiseKey) (d : Device) (peer : IpcPeer)

theorem handleDeviceLine_privateKey {v : List Char} {sk : NoiseKey}
    (h : privateKeyFromMaybeZeroHex v = .ok sk) :
    handleDeviceLine pub d "private_key".toList v = .ok (d.setPrivateKey pub sk) := by
  simp [handleDeviceLine, h]

theorem handleDeviceLine_fwmark {n : Nat} (h : n < 2 ^ 32) :
    handleDeviceLine pub d "fwmark".toList (itoa n) = .ok { d with fwmark := n } := by
  simp [handleDeviceLine, parseUint_itoa h (by decide)]

/-- A key that is neither the device's nor a known peer's creates a peer. -/
theorem handlePublicKeyLine_new {v : List Char} {k : NoiseKey} (hk : loadExactHex 32 v = .ok k)
    (hpub : k ≠ d.publicKey) (hnew : k ∉ d.peers.map (·.1)) (hmax : d.peers.length < maxPeers) :
    handlePublicKeyLine d v =
      .ok ({ d with peers := d.peers ++ [(k, {})] }, { key := some k, created := true }) := by
  have hlookup : d.lookupPeer k = none := by
    simp only [Device.lookupPeer, List.lookup_eq_none_iff]
    intro e he
    have hne : k ≠ e.1 := fun h => hnew (List.mem_map.mpr ⟨e, he, h.symm⟩)
    simpa using hne
  simp [handlePublicKeyLine, hk, hpub, hlookup, newPeer, Nat.not_le.mpr hmax]

theorem handlePeerLine_presharedKey {v : List Char} {psk : NoiseKey}
    (h : loadExactHex 32 v = .ok psk) :
    handlePeerLine d peer "preshared_key".toList v =
      .ok (peer.update d fun s => { s with presharedKey := psk }, peer) := by
  simp [handlePeerLine, h]

theorem handlePeerLine_endpoint {v : List Char} {ep : AddrPort} (h : parseAddrPort v = .ok ep) :
    handlePeerLine d peer "endpoint".toList v =
      .ok (peer.update d fun s => { s with endpoint := some ep }, peer) := by
  simp [handlePeerLine, h]

theorem handlePeerLine_keepalive {n : Nat} (h : n < 2 ^ 16) :
    handlePeerLine d peer "persistent_keepalive_interval".toList (itoa n) =
      .ok (peer.update d fun s => { s with persistentKeepaliveInterval := n }, peer) := by
  simp [handlePeerLine, parseUint_itoa h (by decide)]

theorem handlePeerLine_trick (v : List Char) :
    handlePeerLine d peer "trick".toList v = .ok (peer.update d fun s => { s with trick := v }, peer) := by
  simp [handlePeerLine]

theorem handlePeerLine_reserved {v : List Char} {r : List UInt8}
    (h : reservedTriple (IpcError.reserved v) (fun _ => .reserved v) v = .ok r) :
    handlePeerLine d peer "reserved".toList v =
      .ok (peer.update d fun s => { s with reserved := r }, peer) := by
  simp [handlePeerLine, h]

/-- An allowed IP of a real peer goes into the table under its masked prefix. -/
theorem handlePeerLine_allowedIP {v : List Char} {p : Prefix} {k : NoiseKey}
    (h : parsePrefix v = .ok p) (hk : peer.key = some k) (hd : peer.dummy = false) :
    handlePeerLine d peer "allowed_ip".toList v = .ok (d.insertAllowedIP p k, peer) := by
  simp [handlePeerLine, h, hk, hd]

end Accepted

/-- After an insertion the masked prefix routes to the new peer, and every
other prefix as before. -/
theorem mem_insertAllowedIP {d : Device} {p : Prefix} {k' : NoiseKey} {m : Prefix} {k : NoiseKey} :
    (m, k) ∈ (d.insertAllowedIP p k').allowedIPs ↔
      (m = p.masked ∧ k = k') ∨ (m ≠ p.masked ∧ (m, k) ∈ d.allowedIPs) := by
  simp only [Device.insertAllowedIP, List.mem_append, List.mem_filter, List.mem_singleton,
    Prod.mk.injEq, decide_eq_true_eq]
  tauto

theorem mem_allowedIPsOf {d : Device} {k : NoiseKey} {m : Prefix} :
    m ∈ d.allowedIPsOf k ↔ (m, k) ∈ d.allowedIPs := by
  simp [Device.allowedIPsOf]

/-- Updating the peer just created touches no other peer. -/
theorem updatePeer_append_fresh (d : Device) {ps : List (NoiseKey × PeerState)} {k : NoiseKey}
    (hk : k ∉ ps.map (·.1)) (s : PeerState) (f : PeerState → PeerState) :
    Device.updatePeer { d with peers := ps ++ [(k, s)] } k f = { d with peers := ps ++ [(k, f s)] } := by
  have hps : ps.map (fun e => if e.1 = k then (e.1, f e.2) else e) = ps := by
    conv => rhs; rw [← List.map_id ps]
    apply List.map_congr_left
    rintro ⟨k', s'⟩ hm
    have hne : k' ≠ k := fun he => hk (List.mem_map.mpr ⟨_, hm, he⟩)
    simp [hne]
  simp [Device.updatePeer, hps]

end Uapi
