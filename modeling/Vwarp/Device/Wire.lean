import Vwarp.Lib.BigEndian

/-!
# Reserved bytes on the WireGuard data path

Every message type of the protocol is a little-endian `uint32` below five,
so bytes 1..3 of every message the device writes are zero. The fork uses
them: `Peer.SendBuffers` writes the peer's three reserved bytes there in
every buffer whose first byte is 1..4, unless the buffers are trick packets,
and `RoutineReceiveIncoming` zeroes them in every datagram of at least
`MinMessageSize` bytes before it reads the type.

A message is its type and the bytes after it: the other fields of a
handshake message as `binary.Write` lays them out, or the receiver index,
counter and sealed content of a transport message. MACs are keyed functions
of the bytes they cover, with BLAKE2s-128's sixteen bytes of output. The
bind, the endpoint and the peer's counters are not modelled.
-/

namespace Wire

open BigEndian

def messageInitiationType : Nat := 1

def messageResponseType : Nat := 2

def messageCookieReplyType : Nat := 3

def messageTransportType : Nat := 4

def messageInitiationSize : Nat := 148

def messageResponseSize : Nat := 92

def messageCookieReplySize : Nat := 64

def messageTransportHeaderSize : Nat := 16

/-- `MessageTransportSize`: the header and a Poly1305 tag. -/
def messageTransportSize : Nat := messageTransportHeaderSize + 16

/-- `MinMessageSize`, the size of a keepalive. -/
def minMessageSize : Nat := messageTransportSize

/-- `binary.LittleEndian.PutUint32` and `PutUint64`: the `len` low bytes,
least significant first. -/
def putLE (len x : Nat) : List UInt8 := (toBytes len x).reverse

/-- `binary.LittleEndian.Uint32` of the first four bytes. -/
def uint32LE (b : List UInt8) : Nat := ofBytes (b.take 4).reverse

/-- The messages the device writes. -/
inductive Message where
  | initiation (fields : List UInt8) (h : fields.length = messageInitiationSize - 4)
  | response (fields : List UInt8) (h : fields.length = messageResponseSize - 4)
  | cookieReply (fields : List UInt8) (h : fields.length = messageCookieReplySize - 4)
  | transport (receiver counter : Nat) (content : List UInt8) (h : 16 ≤ content.length)

namespace Message

def msgType : Message → Nat
  | initiation .. => messageInitiationType
  | response .. => messageResponseType
  | cookieReply .. => messageCookieReplyType
  | transport .. => messageTransportType

/-- The bytes after the type field. -/
def fields : Message → List UInt8
  | initiation f _ => f
  | response f _ => f
  | cookieReply f _ => f
  | transport receiver counter content _ => putLE 4 receiver ++ putLE 8 counter ++ content

/-- `binary.Write` of a handshake message in little-endian order, or the
header `RoutineEncryption` writes before the sealed content. -/
def encode (m : Message) : List UInt8 := putLE 4 m.msgType ++ m.fields

end Message

/-- A MAC with BLAKE2s-128's sixteen bytes of output. -/
abbrev Mac := List UInt8 → Vector UInt8 16

/-- `CookieGenerator.AddMacs`: MAC1 over the bytes before it, and MAC2 over
the bytes before it when the cookie is fresh (`mac2` is then `some`). -/
def addMacs (mac1 : Mac) (mac2 : Option Mac) (msg : List UInt8) : List UInt8 :=
  let smac2 := msg.length - 16
  let smac1 := smac2 - 16
  let msg := msg.take smac1 ++ (mac1 (msg.take smac1)).toList ++ msg.drop smac2
  match mac2 with
  | none => msg
  | some mac => msg.take smac2 ++ (mac (msg.take smac2)).toList

/-- `CookieChecker.CheckMAC1`. -/
def checkMAC1 (mac1 : Mac) (msg : List UInt8) : Bool :=
  let smac2 := msg.length - 16
  let smac1 := smac2 - 16
  (mac1 (msg.take smac1)).toList == (msg.drop smac1).take 16

/-- The packet the device sends for a message: the handshake initiation and
response carry their MACs, the cookie reply and transport data go as
written. -/
def Message.packet (mac1 : Mac) (mac2 : Option Mac) (m : Message) : List UInt8 :=
  match m with
  | .initiation .. | .response .. => addMacs mac1 mac2 m.encode
  | .cookieReply .. | .transport .. => m.encode

/-- The loop body of `Peer.SendBuffers`: unless the buffers are trick
packets, a buffer of more than three bytes whose first byte is 1..4 gets the
peer's reserved bytes, a `[3]byte`, at 1..3. -/
def sendBuffer (reserved : List UInt8) (trick : Bool) (buf : List UInt8) : List UInt8 :=
  if trick = false ∧ 3 < buf.length ∧ 0 < buf.getD 0 0 ∧ buf.getD 0 0 < 5 then
    buf.take 1 ++ reserved ++ buf.drop 4
  else buf

/-- What `Peer.SendBuffers` passes to the bind. -/
def sendBuffers (reserved : List UInt8) (trick : Bool) (buffers : List (List UInt8)) :
    List (List UInt8) :=
  buffers.map (sendBuffer reserved trick)

/-- The normalisation of `RoutineReceiveIncoming`: a datagram shorter than a
keepalive is skipped, any other has bytes 1..3 zeroed. -/
def normalize (packet : List UInt8) : Option (List UInt8) :=
  if packet.length < minMessageSize then none else some (((packet.set 1 0).set 2 0).set 3 0)

/-- The type switch of `RoutineReceiveIncoming`: the type of a packet whose
size fits its type, `none` for a packet it drops. -/
def typeSwitch (packet : List UInt8) : Option Nat :=
  let msgType := uint32LE packet
  if msgType = messageTransportType then
    if packet.length < messageTransportSize then none else some msgType
  else if msgType = messageInitiationType then
    if packet.length ≠ messageInitiationSize then none else some msgType
  else if msgType = messageResponseType then
    if packet.length ≠ messageResponseSize then none else some msgType
  else if msgType = messageCookieReplyType then
    if packet.length ≠ messageCookieReplySize then none else some msgType
  else none

/-- What `RoutineReceiveIncoming` hands on for a datagram: its type and the
packet as the type switch read it. -/
def receiveIncoming (packet : List UInt8) : Option (Nat × List UInt8) :=
  (normalize packet).bind fun p => (typeSwitch p).map (·, p)

/-! ## The packets the device writes -/

theorem putLE_type {t : Nat} (ht : t < 256) : putLE 4 t = [UInt8.ofNat t, 0, 0, 0] := by
  have h1 : t / 256 = 0 := Nat.div_eq_of_lt ht
  simp [putLE, toBytes, h1, Nat.mod_eq_of_lt ht]

theorem uint32LE_type (x : UInt8) (rest : List UInt8) :
    uint32LE (x :: 0 :: 0 :: 0 :: rest) = x.toNat := by
  simp [uint32LE]

namespace Message

theorem msgType_pos (m : Message) : 0 < m.msgType ∧ m.msgType < 5 := by
  cases m <;> simp [msgType, messageInitiationType, messageResponseType, messageCookieReplyType,
    messageTransportType]

theorem type_byte (m : Message) : 0 < UInt8.ofNat m.msgType ∧ UInt8.ofNat m.msgType < 5 := by
  cases m <;> simp [msgType, messageInitiationType, messageResponseType, messageCookieReplyType,
    messageTransportType]

theorem encode_eq (m : Message) : m.encode = UInt8.ofNat m.msgType :: 0 :: 0 :: 0 :: m.fields := by
  rw [encode, putLE_type (by have := m.msgType_pos; omega)]
  rfl

theorem minMessageSize_le (m : Message) : minMessageSize ≤ m.fields.length + 4 := by
  cases m <;> simp_all [fields, putLE, minMessageSize, messageTransportSize,
    messageTransportHeaderSize, messageInitiationSize, messageResponseSize, messageCookieReplySize]
  omega

end Message

theorem length_addMacs (mac1 : Mac) (mac2 : Option Mac) {msg : List UInt8} (h : 32 ≤ msg.length) :
    (addMacs mac1 mac2 msg).length = msg.length := by
  unfold addMacs
  cases mac2 <;> simp <;> omega

/-- The MACs leave every byte before MAC1 as it was. -/
theorem take_addMacs (mac1 : Mac) (mac2 : Option Mac) {msg : List UInt8} {n : Nat}
    (h : n + 32 ≤ msg.length) : (addMacs mac1 mac2 msg).take n = msg.take n := by
  have hlen : (msg.take (msg.length - 16 - 16)).length = msg.length - 16 - 16 := by simp; omega
  unfold addMacs
  cases mac2 with
  | none =>
    dsimp only
    rw [List.append_assoc, List.take_append_of_le_length (by omega), List.take_take,
      Nat.min_eq_left (by omega)]
  | some mac2 =>
    dsimp only
    rw [List.take_append_of_le_length (by simp; omega), List.take_take, Nat.min_eq_left (by omega),
      List.append_assoc, List.take_append_of_le_length (by omega), List.take_take,
      Nat.min_eq_left (by omega)]

/-- A message carries the MAC1 of the bytes before it, whatever MAC2 does
after it. -/
theorem checkMAC1_addMacs (mac1 : Mac) (mac2 : Option Mac) {msg : List UInt8}
    (h : 32 ≤ msg.length) : checkMAC1 mac1 (addMacs mac1 mac2 msg) = true := by
  unfold checkMAC1
  dsimp only
  rw [length_addMacs mac1 mac2 h, take_addMacs mac1 mac2 (by omega)]
  have hlen : (msg.take (msg.length - 16 - 16)).length = msg.length - 16 - 16 := by simp; omega
  have hmac1 : ∀ rest : List UInt8,
      ((msg.take (msg.length - 16 - 16) ++ (mac1 (msg.take (msg.length - 16 - 16))).toList ++
        rest).drop (msg.length - 16 - 16)).take 16 =
        (mac1 (msg.take (msg.length - 16 - 16))).toList := by
    intro rest
    rw [List.append_assoc, List.drop_left' hlen, List.take_left' (by simp)]
  unfold addMacs
  cases mac2 with
  | none => simp only [hmac1, beq_self_eq_true]
  | some mac2 =>
    dsimp only
    rw [List.drop_append_of_le_length (by simp; omega),
      List.take_append_of_le_length (by simp; omega), List.drop_take, List.take_take,
      Nat.min_eq_left (by omega), hmac1, beq_self_eq_true]

/-- The MACs leave a message's type field alone. -/
theorem addMacs_header (mac1 : Mac) (mac2 : Option Mac) (x : UInt8) {rest : List UInt8}
    (h : 32 ≤ rest.length) :
    ∃ rest', addMacs mac1 mac2 (x :: 0 :: 0 :: 0 :: rest) = x :: 0 :: 0 :: 0 :: rest' ∧
      rest'.length = rest.length := by
  have hlen : (addMacs mac1 mac2 (x :: 0 :: 0 :: 0 :: rest)).length = rest.length + 4 := by
    rw [length_addMacs mac1 mac2 (by simp; omega)]
    rfl
  have htake : (addMacs mac1 mac2 (x :: 0 :: 0 :: 0 :: rest)).take 4 = [x, 0, 0, 0] := by
    rw [take_addMacs mac1 mac2 (by simp; omega)]
    rfl
  refine ⟨(addMacs mac1 mac2 (x :: 0 :: 0 :: 0 :: rest)).drop 4, ?_, by simp [hlen]⟩
  rw [← List.take_append_drop 4 (addMacs mac1 mac2 (x :: 0 :: 0 :: 0 :: rest)), htake]
  simp

/-- The device's packet for a message starts with its type and three zero
bytes, and has the message's length. -/
theorem Message.packet_eq (mac1 : Mac) (mac2 : Option Mac) (m : Message) :
    ∃ rest, m.packet mac1 mac2 = UInt8.ofNat m.msgType :: 0 :: 0 :: 0 :: rest ∧
      rest.length = m.fields.length := by
  cases m with
  | initiation f h =>
    rw [packet, encode_eq]
    exact addMacs_header mac1 mac2 _ (by simp [fields, h, messageInitiationSize])
  | response f h =>
    rw [packet, encode_eq]
    exact addMacs_header mac1 mac2 _ (by simp [fields, h, messageResponseSize])
  | cookieReply f h => exact ⟨_, encode_eq _, rfl⟩
  | transport receiver counter content h => exact ⟨_, encode_eq _, rfl⟩

/-! ## Sending and receiving -/

theorem sendBuffer_trick (r buf : List UInt8) : sendBuffer r true buf = buf := by
  simp [sendBuffer]

/-- A buffer whose first byte is no message type goes out as it is. -/
theorem sendBuffer_not_message (r : List UInt8) {buf : List UInt8}
    (hbuf : buf.getD 0 0 = 0 ∨ 5 ≤ buf.getD 0 0) : sendBuffer r false buf = buf := by
  unfold sendBuffer
  rw [if_neg]
  rintro ⟨-, -, hlo, hhi⟩
  rcases hbuf with h0 | h5
  · rw [h0] at hlo
    exact absurd hlo (by decide)
  · have h1 := UInt8.le_iff_toNat_le.mp h5
    have h2 := UInt8.lt_iff_toNat_lt.mp hhi
    simp only [UInt8.reduceToNat] at h1 h2
    omega

theorem sendBuffer_message {x : UInt8} (hx : 0 < x ∧ x < 5) (r : List UInt8) (a b c : UInt8)
    (rest : List UInt8) : sendBuffer r false (x :: a :: b :: c :: rest) = x :: r ++ rest := by
  simp [sendBuffer, hx]

theorem normalize_cons {x a b c : UInt8} {rest : List UInt8} (h : minMessageSize ≤ rest.length + 4) :
    normalize (x :: a :: b :: c :: rest) = some (x :: 0 :: 0 :: 0 :: rest) := by
  simp only [normalize, List.length_cons]
  rw [if_neg (by omega)]
  rfl

/-- The type switch passes a message's packet on as its type. -/
theorem typeSwitch_message (m : Message) {rest : List UInt8} (h : rest.length = m.fields.length) :
    typeSwitch (UInt8.ofNat m.msgType :: 0 :: 0 :: 0 :: rest) = some m.msgType := by
  cases m <;> simp_all [typeSwitch, uint32LE_type, Message.msgType, Message.fields, putLE,
    messageInitiationType, messageResponseType, messageCookieReplyType, messageTransportType,
    messageInitiationSize, messageResponseSize, messageCookieReplySize, messageTransportSize,
    messageTransportHeaderSize]
  omega

/-- The receiving device hands on a message's packet as its type. -/
theorem receiveIncoming_packet (mac1 : Mac) (mac2 : Option Mac) (m : Message) :
    receiveIncoming (m.packet mac1 mac2) = some (m.msgType, m.packet mac1 mac2) := by
  obtain ⟨rest, hpacket, hrest⟩ := m.packet_eq mac1 mac2
  have hmin : minMessageSize ≤ rest.length + 4 := hrest ▸ m.minMessageSize_le
  simp [receiveIncoming, hpacket, normalize_cons hmin, typeSwitch_message m hrest]

/-- The sending peer's reserved bytes go where the type's upper bytes were. -/
theorem sendBuffer_packet (mac1 : Mac) (mac2 : Option Mac) (m : Message) (a b c : UInt8) :
    ∃ rest, m.packet mac1 mac2 = UInt8.ofNat m.msgType :: 0 :: 0 :: 0 :: rest ∧
      sendBuffer [a, b, c] false (m.packet mac1 mac2) = UInt8.ofNat m.msgType :: a :: b :: c :: rest ∧
      rest.length = m.fields.length := by
  obtain ⟨rest, hpacket, hrest⟩ := m.packet_eq mac1 mac2
  refine ⟨rest, hpacket, ?_, hrest⟩
  rw [hpacket, sendBuffer_message m.type_byte]
  rfl

/-- Whatever the reserved bytes, the receiving device hands on the packet
the sender wrote. -/
theorem receiveIncoming_sendBuffer (mac1 : Mac) (mac2 : Option Mac) (m : Message) {r : List UInt8}
    (hr : r.length = 3) :
    receiveIncoming (sendBuffer r false (m.packet mac1 mac2)) = some (m.msgType, m.packet mac1 mac2) := by
  obtain ⟨a, b, c, rfl⟩ : ∃ a b c, r = [a, b, c] := by
    match r, hr with
    | [a, b, c], _ => exact ⟨a, b, c, rfl⟩
  obtain ⟨rest, hpacket, hsent, hrest⟩ := sendBuffer_packet mac1 mac2 m a b c
  have hmin : minMessageSize ≤ rest.length + 4 := hrest ▸ m.minMessageSize_le
  rw [hsent, receiveIncoming, normalize_cons hmin, Option.bind_some, typeSwitch_message m hrest, hpacket]
  rfl

/-- Reserved bytes are invisible to the receiving device: the buffer sent for
any message the device writes differs from its packet only in bytes 1..3,
and the receiving device hands on that packet, as its type, whatever the
sending peer's reserved bytes are. Trick packets, and buffers whose first
byte is not a message type, go out as they are. -/
theorem reserved_bytes_transparent (mac1 : Mac) (mac2 : Option Mac) (m : Message)
    (r : List UInt8) (hr : r.length = 3) :
    let packet := m.packet mac1 mac2
    let sent := sendBuffer r false packet
    sent.length = packet.length ∧ (∀ i, (i = 0 ∨ 3 < i) → sent[i]? = packet[i]?) ∧
      receiveIncoming sent = some (m.msgType, packet) ∧
      receiveIncoming packet = some (m.msgType, packet) ∧
      ∀ buf : List UInt8, sendBuffer r true buf = buf ∧
        (buf.getD 0 0 = 0 ∨ 5 ≤ buf.getD 0 0 → sendBuffer r false buf = buf) := by
  have hreceived := receiveIncoming_sendBuffer mac1 mac2 m hr
  obtain ⟨a, b, c, rfl⟩ : ∃ a b c, r = [a, b, c] := by
    match r, hr with
    | [a, b, c], _ => exact ⟨a, b, c, rfl⟩
  obtain ⟨rest, hpacket, hsent, -⟩ := sendBuffer_packet mac1 mac2 m a b c
  intro packet sent
  refine ⟨?_, ?_, hreceived, receiveIncoming_packet mac1 mac2 m,
    fun buf => ⟨sendBuffer_trick _ buf, sendBuffer_not_message _⟩⟩
  · simp [sent, packet, hsent, hpacket]
  · rintro i (rfl | hi)
    · simp [sent, packet, hsent, hpacket]
    · obtain ⟨j, rfl⟩ : ∃ j, i = j + 4 := ⟨i - 4, by omega⟩
      simp [sent, packet, hsent, hpacket]

theorem reserved_bytes_transparent_keepalive :
    ([1, 2, 3] : List UInt8).length = 3 ∧
    let m := Message.transport 0 0 (List.replicate 16 0) (by decide)
    let packet := m.packet (fun _ => Vector.replicate 16 0) none
    let sent := sendBuffer [1, 2, 3] false packet
    sent.length = packet.length ∧ (∀ i, (i = 0 ∨ 3 < i) → sent[i]? = packet[i]?) ∧
      receiveIncoming sent = some (m.msgType, packet) ∧
      receiveIncoming packet = some (m.msgType, packet) ∧
      ∀ buf : List UInt8, sendBuffer [1, 2, 3] true buf = buf ∧
        (buf.getD 0 0 = 0 ∨ 5 ≤ buf.getD 0 0 → sendBuffer [1, 2, 3] false buf = buf) :=
  ⟨rfl, reserved_bytes_transparent _ _ _ _ rfl⟩

/-- A handshake initiation or response still passes `CheckMAC1` after the
trip through reserved bytes: the MAC covers bytes 1..3 as zeros on both
sides. -/
theorem received_checkMAC1 (mac1 : Mac) (mac2 : Option Mac) (m : Message)
    (hm : m.msgType ≤ messageResponseType) {r : List UInt8} (hr : r.length = 3) :
    ∃ p, receiveIncoming (sendBuffer r false (m.packet mac1 mac2)) = some (m.msgType, p) ∧
      checkMAC1 mac1 p = true := by
  refine ⟨_, receiveIncoming_sendBuffer mac1 mac2 m hr, ?_⟩
  have hlen : 32 ≤ m.encode.length := by
    rw [Message.encode_eq, List.length_cons, List.length_cons, List.length_cons, List.length_cons]
    have := m.minMessageSize_le
    simp only [minMessageSize, messageTransportSize, messageTransportHeaderSize] at this
    omega
  cases m with
  | initiation f h => exact checkMAC1_addMacs mac1 mac2 hlen
  | response f h => exact checkMAC1_addMacs mac1 mac2 hlen
  | cookieReply f h => simp [Message.msgType, messageCookieReplyType, messageResponseType] at hm
  | transport receiver counter content h =>
    simp [Message.msgType, messageTransportType, messageResponseType] at hm

theorem received_checkMAC1_response :
    let m := Message.response (List.replicate 88 0) (by decide)
    m.msgType ≤ messageResponseType ∧ ([1, 2, 3] : List UInt8).length = 3 ∧
      ∃ p, receiveIncoming (sendBuffer [1, 2, 3] false (m.packet (fun _ => Vector.replicate 16 0) none)) =
          some (m.msgType, p) ∧ checkMAC1 (fun _ => Vector.replicate 16 0) p = true :=
  ⟨by decide, rfl, received_checkMAC1 _ _ _ (by decide) rfl⟩

end Wire
