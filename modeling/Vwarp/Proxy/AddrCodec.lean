import Vwarp.Proxy.UdpRelay

/-!
# The SOCKS5 address codec

`readAddr` and `writeAddr` against each other, and `ServeConn` over a whole
request. `writeAddr` normalises an IP with `To4`, so an IPv4-mapped IPv6
address goes out as type 1 and reads back as four bytes, equal to it by
`net.IP.Equal`; an empty name with no IP goes out as `0.0.0.0`. Those two
are the encodings a read and a write do not give back as they were.
-/

namespace Socks5

open GoIo BigEndian Netip

/-- The addresses `writeAddr` writes as `readAddr` read them: what a read
returns, not an IPv4-mapped IPv6 address, and not an empty name. -/
def Address.Canonical (a : Address) : Prop :=
  a.Valid ∧ (a.ip.length = 16 → a.ip.take 12 ≠ v4InV6Prefix) ∧ (a.ip = [] → a.name ≠ [])

theorem to4_of_length_four {ip : List UInt8} (h : ip.length = 4) : to4 ip = some ip := by
  simp [to4, h]

theorem to4_of_unmapped {ip : List UInt8} (h : ip.length = 16) (hm : ip.take 12 ≠ v4InV6Prefix) :
    to4 ip = none := by
  simp [to4, h, hm]

theorem ne_nil_of_length_pos {ip : List UInt8} (h : 0 < ip.length) : ip ≠ [] := by
  rintro rfl
  simp at h

/-- A canonical address is written as its wire form: four bytes go out as they are
with type 1, sixteen bytes that are not IPv4-mapped with type 4, a name with its
length. -/
theorem writeAddr_canonical {a : Address} (ha : a.Canonical) : writeAddr a = .ok a.wire := by
  obtain ⟨⟨-, ⟨hname, h4 | h16⟩ | ⟨hip, hlen⟩⟩, hmapped, hnamed⟩ := ha
  · rw [show a = { name := a.name, ip := a.ip, port := a.port } from rfl,
      writeAddr_of_to4 (to4_of_length_four h4)]
    simp [Address.wire, Address.hostWire, h4]
  · have hne := ne_nil_of_length_pos (by omega : 0 < a.ip.length)
    simp [writeAddr, Address.wire, Address.hostWire, hne, to4_of_unmapped h16 (hmapped h16), to16, h16]
  · have hne := hnamed hip
    have hle : ¬ 255 < a.name.length := by omega
    simp [writeAddr, Address.wire, Address.hostWire, hip, hne, hle]


theorem ipEqual_self (ip : List UInt8) : ipEqual ip ip = true := by
  simp [ipEqual]

/-- An IPv4-mapped address equals its last four bytes. -/
theorem ipEqual_drop_mapped {ip : List UInt8} (h : ip.length = 16) (hm : ip.take 12 = v4InV6Prefix) :
    ipEqual (ip.drop 12) ip = true := by
  have hlen : (ip.drop 12).length = 4 := by simp [h]
  have hsplit : v4InV6Prefix ++ ip.drop 12 = ip := by
    rw [← hm, List.take_append_drop]
  simp [ipEqual, hlen, h, hsplit]

/-- What `writeAddr` writes of an IP address or a name is the wire form of an
address `readAddr` returns, equal to it. -/
theorem writeAddr_readable {a : Address} (hport : a.port < 65536)
    (ha : (a.name = [] ∧ (a.ip.length = 4 ∨ a.ip.length = 16)) ∨
      (a.ip = [] ∧ a.name ≠ [] ∧ a.name.length ≤ 255)) :
    ∃ a' : Address, writeAddr a = .ok a'.wire ∧ a'.Valid ∧ a'.name = a.name ∧ ipEqual a'.ip a.ip = true ∧
      a'.port = a.port := by
  by_cases hm : a.ip.length = 16 ∧ a.ip.take 12 = v4InV6Prefix
  · obtain ⟨h16, hpre⟩ := hm
    have hname : a.name = [] := by
      rcases ha with ⟨hname, -⟩ | ⟨hip, -⟩
      · exact hname
      · simp [hip] at h16
    have h4 : to4 a.ip = some (a.ip.drop 12) := by simp [to4, h16, hpre]
    have hlen : (a.ip.drop 12).length = 4 := by simp [h16]
    refine ⟨{ a with ip := a.ip.drop 12 }, ?_, ⟨hport, .inl ⟨hname, .inl hlen⟩⟩, rfl,
      ipEqual_drop_mapped h16 hpre, rfl⟩
    rw [show a = { name := a.name, ip := a.ip, port := a.port } from rfl, writeAddr_of_to4 h4]
    simp [Address.wire, Address.hostWire, hlen]
  · have hc : a.Canonical := by
      refine ⟨⟨hport, ?_⟩, fun h16 hpre => hm ⟨h16, hpre⟩, ?_⟩
      · rcases ha with h | ⟨hip, -, hlen⟩
        · exact .inl h
        · exact .inr ⟨hip, by omega⟩
      · intro hip
        rcases ha with ⟨-, h4 | h16⟩ | ⟨-, hname, -⟩
        · simp [hip] at h4
        · simp [hip] at h16
        · exact hname
    exact ⟨a, writeAddr_canonical hc, hc.1, rfl, ipEqual_self a.ip, rfl⟩

/-- The three encodings of the claim's converse are wire forms of canonical
addresses. -/
theorem canonical_of_encoding {e : List UInt8}
    (he : (∃ ip port, e = ipv4Address :: ip ++ port ∧ ip.length = 4 ∧ port.length = 2) ∨
      (∃ ip port, e = ipv6Address :: ip ++ port ∧ ip.length = 16 ∧ ip.take 12 ≠ v4InV6Prefix ∧
        port.length = 2) ∨
      (∃ name port, e = fqdnAddress :: name.length.toUInt8 :: name ++ port ∧ name ≠ [] ∧
        name.length < 256 ∧ port.length = 2)) :
    ∃ a : Address, a.Canonical ∧ e = a.wire := by
  rcases he with ⟨ip, port, rfl, h4, hp⟩ | ⟨ip, port, rfl, h16, hm, hp⟩ | ⟨name, port, rfl, hne, hlen, hp⟩
  · refine ⟨⟨[], ip, ofBytes port⟩, ⟨⟨?_, .inl ⟨rfl, .inl h4⟩⟩, by simp [h4],
      fun hip => absurd hip (ne_nil_of_length_pos (by simp [h4]))⟩, ?_⟩
    · simpa [hp] using ofBytes_lt port
    · simp [Address.wire, Address.hostWire, h4, ← hp, toBytes_ofBytes]
  · refine ⟨⟨[], ip, ofBytes port⟩, ⟨⟨?_, .inl ⟨rfl, .inr h16⟩⟩, fun _ => hm,
      fun hip => absurd hip (ne_nil_of_length_pos (by simp [h16]))⟩, ?_⟩
    · simpa [hp] using ofBytes_lt port
    · simp [Address.wire, Address.hostWire, h16, ← hp, toBytes_ofBytes]
  · refine ⟨⟨name, [], ofBytes port⟩, ⟨⟨?_, .inr ⟨rfl, hlen⟩⟩, by simp, fun _ => hne⟩, ?_⟩
    · simpa [hp] using ofBytes_lt port
    · simp [Address.wire, Address.hostWire, ← hp, toBytes_ofBytes]


section Spec

variable {σ : Type} {rd : σ → Nat → Chunk σ} {flat : σ → List UInt8} {good : σ → Prop}

/-- A count byte and that many bytes are read back whole. -/
theorem readBytes_append (hl : Live rd flat good) {s : σ} {bs t : List UInt8} (hs : good s)
    (hlen : bs.length < 256) (hst : flat s = bs.length.toUInt8 :: (bs ++ t)) :
    ∃ s', readBytes rd s = some (bs, s') ∧ flat s' = t ∧ good s' := by
  obtain ⟨s₁, hb, hf₁, hg₁⟩ := readByte_cons hl hs hst
  obtain ⟨s₂, hr, hf₂, hg₂⟩ := readFull_append hl hg₁ hf₁
  have hn : bs.length.toUInt8.toNat = bs.length := by simp [Nat.mod_eq_of_lt hlen]
  refine ⟨s₂, ?_, hf₂, hg₂⟩
  simp [readBytes, hb, hn, hr]

/-- A greeting offering no authentication and a request with any command and
destination are read whole, and nothing after them. -/
theorem serveConn_request (hl : Live rd flat good) {s : σ} (hs : good s) {methods : List UInt8}
    (hauth : noAuth ∈ methods) (hlen : methods.length < 256) (cmd rsv : UInt8) {a : Address}
    (ha : a.Valid) {rest : List UInt8}
    (hst : flat s = [socks5Version, methods.length.toUInt8] ++ methods ++
      [socks5Version, cmd, rsv] ++ a.wire ++ rest) :
    ∃ s', serveConn rd s = .ok ({ command := cmd, dest := a }, s') ∧ flat s' = rest ∧ good s' := by
  simp only [List.append_assoc, List.cons_append, List.nil_append] at hst
  obtain ⟨s₁, hb, hf₁, hg₁⟩ := readByte_cons hl hs hst
  obtain ⟨s₂, hm, hf₂, hg₂⟩ := readBytes_append hl hg₁ hlen hf₁
  obtain ⟨s₃, hr, hf₃, hg₃⟩ := readFull_append hl hg₂ (d := [socks5Version, cmd, rsv]) hf₂
  obtain ⟨s₄, hA, hf₄, hg₄⟩ := readAddr_wire hl hg₃ ha hf₃
  refine ⟨s₄, ?_, hf₄, hg₄⟩
  simp only [List.length_cons, List.length_nil] at hr
  simp [serveConn, hb, hm, hr, hA, hauth]

/-- The SOCKS5 address codec round-trips. An IP address or a non-empty name
of at most 255 bytes, with a 16-bit port, is read back from what `writeAddr`
writes, followed by anything, equal to it (the IP by `IP.Equal`). An
encoding of type 1, of type 4 that is not IPv4-mapped, or of type 3 with a
non-zero length, is written back as it was read. And `ServeConn` reads a
greeting offering no authentication and a request exactly, leaving what
follows. -/
theorem address_codec_round_trip (hl : Live rd flat good) :
    (∀ a : Address, a.port < 65536 →
      (a.name = [] ∧ (a.ip.length = 4 ∨ a.ip.length = 16)) ∨
        (a.ip = [] ∧ a.name ≠ [] ∧ a.name.length ≤ 255) →
      ∃ e, writeAddr a = .ok e ∧ ∀ s rest, good s → flat s = e ++ rest →
        ∃ a' s', readAddr rd s = .ok (a', s') ∧ flat s' = rest ∧
          a'.name = a.name ∧ ipEqual a'.ip a.ip = true ∧ a'.port = a.port) ∧
    (∀ e rest s, good s → flat s = e ++ rest →
      (∃ ip port, e = ipv4Address :: ip ++ port ∧ ip.length = 4 ∧ port.length = 2) ∨
        (∃ ip port, e = ipv6Address :: ip ++ port ∧ ip.length = 16 ∧ ip.take 12 ≠ v4InV6Prefix ∧
          port.length = 2) ∨
        (∃ name port, e = fqdnAddress :: name.length.toUInt8 :: name ++ port ∧ name ≠ [] ∧
          name.length < 256 ∧ port.length = 2) →
      ∃ a s', readAddr rd s = .ok (a, s') ∧ flat s' = rest ∧ writeAddr a = .ok e) ∧
    (∀ (methods : List UInt8) (cmd rsv : UInt8) (a : Address) (rest : List UInt8) (s : σ), good s →
      noAuth ∈ methods → methods.length < 256 → a.Valid →
      flat s = [socks5Version, methods.length.toUInt8] ++ methods ++ [socks5Version, cmd, rsv] ++
        a.wire ++ rest →
      ∃ s', serveConn rd s = .ok ({ command := cmd, dest := a }, s') ∧ flat s' = rest) := by
  refine ⟨?_, ?_, ?_⟩
  · intro a hport ha
    obtain ⟨a', hw, hvalid, hname, hip, hp⟩ := writeAddr_readable hport ha
    refine ⟨a'.wire, hw, fun s rest hs hst => ?_⟩
    obtain ⟨s', hr, hrest, -⟩ := readAddr_wire hl hs hvalid hst
    exact ⟨a', s', hr, hrest, hname, hip, hp⟩
  · intro e rest s hs hst he
    obtain ⟨a, hc, rfl⟩ := canonical_of_encoding he
    obtain ⟨s', hr, hrest, -⟩ := readAddr_wire hl hs hc.1 hst
    exact ⟨a, s', hr, hrest, writeAddr_canonical hc⟩
  · intro methods cmd rsv a rest s hs hauth hlen ha hst
    obtain ⟨s', hr, hrest, -⟩ := serveConn_request hl hs hauth hlen cmd rsv ha hst
    exact ⟨s', hr, hrest⟩

end Spec

/-- `::ffff:127.0.0.1` port 1080, written and read back from a buffer: it
comes back as the four bytes of 127.0.0.1. -/
theorem mapped_loopback_round_trip :
    ∃ e, writeAddr ⟨[], v4InV6Prefix ++ [127, 0, 0, 1], 1080⟩ = .ok e ∧
      ∀ s rest : List UInt8, True → id s = e ++ rest →
        ∃ a' s', readAddr bufferRead s = .ok (a', s') ∧ id s' = rest ∧
          a'.name = [] ∧ ipEqual a'.ip (v4InV6Prefix ++ [127, 0, 0, 1]) = true ∧ a'.port = 1080 :=
  (address_codec_round_trip bufferRead_live).1 ⟨[], v4InV6Prefix ++ [127, 0, 0, 1], 1080⟩
    (by decide) (.inl ⟨rfl, .inr (by decide)⟩)

end Socks5
