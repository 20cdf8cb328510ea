import Vwarp.Netip
import Vwarp.Lib.GoText

/-!
# Address text of Go's `net` package

`IP.String`, `net.ParseIP`, `JoinHostPort`, `SplitHostPort`, `UDPAddr.String`
and the decimal `Itoa` of ports, on strings as lists of characters, one
character a byte. The printers follow `netip`'s `appendTo4` and `appendTo6`
(the first longest run of at least two zero groups becomes `::`); the parser
follows `netip.ParseAddr` with its IPv4 field scanner and its IPv6 loop,
including the embedded IPv4 tail and the zone, which `ParseIP` refuses.

The dotted IPv4 form parses back to the address it prints
(`parseIP_string4`), and `SplitHostPort` takes a host and port without
colons or brackets back out of `host:port` (`splitHostPort_append`), which is
what `JoinHostPort` and `UDPAddr.String` print for an IPv4 host
(`splitHostPort_v4`).
-/

namespace NetText

open BigEndian Netip GoText

/-! ## Printing -/

/-- `strconv.Itoa` of a natural number; the fuel is the number itself. -/
def itoaLoop : Nat → Nat → List Char
  | 0, _ => []
  | fuel + 1, n => (if n < 10 then [] else itoaLoop fuel (n / 10)) ++ [Nat.digitChar (n % 10)]

def itoa (n : Nat) : List Char := itoaLoop (n + 1) n

/-- `appendDecimal` of a byte. -/
def appendDecimal (x : Nat) : List Char :=
  (if 100 ≤ x then [Nat.digitChar (x / 100)] else []) ++
    (if 10 ≤ x then [Nat.digitChar (x / 10 % 10)] else []) ++ [Nat.digitChar (x % 10)]

/-- `appendHex` of a 16-bit group: lowercase, without leading zeros. -/
def appendHex (x : Nat) : List Char :=
  (if 0x1000 ≤ x then [Nat.digitChar (x / 0x1000)] else []) ++
    (if 0x100 ≤ x then [Nat.digitChar (x / 0x100 % 16)] else []) ++
    (if 0x10 ≤ x then [Nat.digitChar (x / 0x10 % 16)] else []) ++ [Nat.digitChar (x % 16)]

/-- `appendTo4`. -/
def string4 (ip : List UInt8) : List Char :=
  appendDecimal (ip.getD 0 0).toNat ++ '.' :: appendDecimal (ip.getD 1 0).toNat ++ '.' ::
    appendDecimal (ip.getD 2 0).toNat ++ '.' :: appendDecimal (ip.getD 3 0).toNat

/-- The `i`th 16-bit group of a 16-byte address (`v6u16`). -/
def group (ip : List UInt8) (i : Nat) : Nat :=
  (ip.getD (2 * i) 0).toNat * 256 + (ip.getD (2 * i + 1) 0).toNat

/-- The end of the run of zero groups starting at `i` (the inner loop of the
zero-run search). -/
def zeroRunEnd (ip : List UInt8) : Nat → Nat → Nat
  | 0, j => j
  | fuel + 1, j => if j < 8 ∧ group ip j = 0 then zeroRunEnd ip fuel (j + 1) else j

/-- The search of `appendTo6` for the first longest run of two or more zero
groups, as `(zeroStart, zeroEnd)`; `(255, 255)` when there is none. -/
def zeroRun (ip : List UInt8) : Nat × Nat :=
  (List.range 8).foldl (fun (zs, ze) i =>
    let j := zeroRunEnd ip 8 i
    if 2 ≤ j - i ∧ j - i > ze - zs then (i, j) else (zs, ze)) (255, 255)

/-- The output loop of `appendTo6` from group `i`. -/
def groupsFrom (ip : List UInt8) (zs ze : Nat) : Nat → Nat → List Char
  | 0, _ => []
  | fuel + 1, i =>
    if 8 ≤ i then []
    else if i = zs then
      if 8 ≤ ze then [':', ':']
      else ':' :: ':' :: appendHex (group ip ze) ++ groupsFrom ip zs ze fuel (ze + 1)
    else (if 0 < i then [':'] else []) ++ appendHex (group ip i) ++ groupsFrom ip zs ze fuel (i + 1)

/-- `appendTo6` without a zone. -/
def string6 (ip : List UInt8) : List Char :=
  let (zs, ze) := zeroRun ip
  groupsFrom ip zs ze 8 0

/-- `hexString`, for an IP of a bad length. -/
def hexString (ip : List UInt8) : List Char :=
  ip.flatMap fun b => [Nat.digitChar (b.toNat / 16), Nat.digitChar (b.toNat % 16)]

/-- `IP.String`. -/
def ipString (ip : List UInt8) : List Char :=
  if ip = [] then "<nil>".toList
  else if ip.length ≠ 4 ∧ ip.length ≠ 16 then '?' :: hexString ip
  else match to4 ip with
    | some p4 => string4 p4
    | none => string6 ip

/-- `ipEmptyString`. -/
def ipEmptyString (ip : List UInt8) : List Char := if ip = [] then [] else ipString ip

/-- `JoinHostPort`. -/
def joinHostPort (host port : List Char) : List Char :=
  if ':' ∈ host then '[' :: host ++ ']' :: ':' :: port else host ++ ':' :: port

/-- A UDP address: IP bytes, port and zone. -/
structure UDPAddr where
  ip : List UInt8
  port : Nat
  zone : List Char
  deriving DecidableEq, Repr

/-- `UDPAddr.String`. -/
def UDPAddr.toText (a : UDPAddr) : List Char :=
  if a.zone ≠ [] then joinHostPort (ipEmptyString a.ip ++ '%' :: a.zone) (itoa a.port)
  else joinHostPort (ipEmptyString a.ip) (itoa a.port)

/-! ## Parsing -/

/-- The state of `parseIPv4Fields`: whether the scan is at the start of a field
(`i == 0` or after a dot), the field value, the fields done and the digits of
the current field. -/
def parseIPv4Fields : List Char → Bool → Nat → Nat → Nat → List Nat → Option (List Nat)
  | [], _, val, pos, _, fields => if pos < 3 then none else some (fields ++ [val])
  | c :: rest, atStart, val, pos, digLen, fields =>
    if '0' ≤ c ∧ c ≤ '9' then
      if digLen = 1 ∧ val = 0 then none
      else if 255 < val * 10 + (c.toNat - '0'.toNat) then none
      else parseIPv4Fields rest false (val * 10 + (c.toNat - '0'.toNat)) pos (digLen + 1) fields
    else if c = '.' then
      if atStart ∨ rest = [] then none
      else if pos = 3 then none
      else parseIPv4Fields rest true 0 (pos + 1) 0 (fields ++ [val])
    else none

/-- The four bytes of a dotted IPv4 text. -/
def parseIPv4 (s : List Char) : Option (List UInt8) :=
  (parseIPv4Fields s true 0 0 0 []).map (List.map Nat.toUInt8)

/-- The hex loop of `parseIPv6`: the value, the digits read and the rest;
`none` for a fifth digit. -/
def hexField : List Char → Nat → Nat → Option (Nat × Nat × List Char)
  | [], off, acc => some (acc, off, [])
  | c :: rest, off, acc =>
    match hexVal c with
    | none => some (acc, off, c :: rest)
    | some v =>
      if 3 < off then none
      else if 65535 < acc * 16 + v then none
      else hexField rest (off + 1) (acc * 16 + v)

/-- The field loop of `parseIPv6` from byte `ip.length`: the rest of the text,
the bytes written and the ellipsis. -/
def v6Fields : Nat → List Char → List UInt8 → Option Nat →
    Option (List Char × List UInt8 × Option Nat)
  | 0, s, ip, e => some (s, ip, e)
  | fuel + 1, s, ip, e =>
    if 16 ≤ ip.length then some (s, ip, e)
    else
      match hexField s 0 0 with
      | none => none
      | some (acc, off, s') =>
        if off = 0 then none
        else if s'.head? = some '.' then
          if e.isNone ∧ ip.length ≠ 12 then none
          else if 16 < ip.length + 4 then none
          else (parseIPv4 s).map fun f => ([], ip ++ f, e)
        else
          let ip := ip ++ [(acc / 256).toUInt8, (acc % 256).toUInt8]
          match s' with
          | [] => some ([], ip, e)
          | c :: rest =>
            if c ≠ ':' then none
            else if rest = [] then none
            else if rest.head? = some ':' then
              if e.isSome then none
              else if rest.tail = [] then some ([], ip, some ip.length)
              else v6Fields fuel rest.tail ip (some ip.length)
            else v6Fields fuel rest ip e

/-- `parseIPv6` after the zone is split off: the sixteen bytes. -/
def parseIPv6Body (s : List Char) : Option (List UInt8) :=
  let (s, e) : List Char × Option Nat :=
    if s.take 2 = [':', ':'] then (s.drop 2, some 0) else (s, none)
  if s = [] ∧ e = some 0 then some (List.replicate 16 0)
  else
    match v6Fields 8 s [] e with
    | none => none
    | some (rest, ip, e) =>
      if rest ≠ [] then none
      else if ip.length < 16 then
        match e with
        | none => none
        | some k => some (ip.take k ++ List.replicate (16 - ip.length) 0 ++ ip.drop k)
      else if e.isSome then none
      else some ip

/-- `parseIPv6`: the bytes and the zone. -/
def parseIPv6 (s : List Char) : Option (List UInt8 × List Char) :=
  match s.idxOf? '%' with
  | some i =>
    if s.drop (i + 1) = [] then none
    else (parseIPv6Body (s.take i)).map fun ip => (ip, s.drop (i + 1))
  | none => (parseIPv6Body s).map fun ip => (ip, [])

/-- `netip.ParseAddr`, as sixteen bytes and a zone. -/
def parseAddr (s : List Char) : Option (List UInt8 × List Char) :=
  match s.find? fun c => c = '.' ∨ c = ':' ∨ c = '%' with
  | some '.' => (parseIPv4 s).map fun ip => (v4InV6Prefix ++ ip, [])
  | some ':' => parseIPv6 s
  | _ => none

/-- `net.ParseIP`: sixteen bytes, or `nil` (`none`) for a bad text or a zone. -/
def parseIP (s : List Char) : Option (List UInt8) :=
  match parseAddr s with
  | some (ip, []) => some ip
  | _ => none

inductive AddrError where
  | missingPort
  | tooManyColons
  | missingBracket
  | unexpectedOpen
  | unexpectedClose
  deriving DecidableEq, Repr

/-- `SplitHostPort`. -/
def splitHostPort (hostport : List Char) : Except AddrError (List Char × List Char) :=
  match hostport.reverse.idxOf? ':' with
  | none => .error .missingPort
  | some ri =>
    let i := hostport.length - 1 - ri
    let hostAndBounds : Except AddrError (List Char × Nat × Nat) :=
      if hostport.head? = some '[' then
        match hostport.idxOf? ']' with
        | none => .error .missingBracket
        | some e =>
          if e + 1 = hostport.length then .error .missingPort
          else if e + 1 = i then .ok ((hostport.take e).drop 1, 1, e + 1)
          else if hostport.getD (e + 1) ' ' = ':' then .error .tooManyColons
          else .error .missingPort
      else
        if ':' ∈ hostport.take i then .error .tooManyColons
        else .ok (hostport.take i, 0, 0)
    match hostAndBounds with
    | .error err => .error err
    | .ok (host, j, k) =>
      if '[' ∈ hostport.drop j then .error .unexpectedOpen
      else if ']' ∈ hostport.drop k then .error .unexpectedClose
      else .ok (host, hostport.drop (i + 1))

/-! ## `netip` text -/

/-- `netip.Addr.String`. -/
def addrString : Addr → List Char
  | .invalid => "invalid IP".toList
  | .v4 a => string4 (toBytes 4 a.val)
  | .v6 a z =>
    let body :=
      if (Addr.v6 a z).is4In6 then "::ffff:".toList ++ string4 ((toBytes 16 a.val).drop 12)
      else string6 (toBytes 16 a.val)
    if z = "" then body else body ++ '%' :: z.toList

/-- `netip.Prefix.String`. -/
def prefixString (p : Prefix) : List Char :=
  if p.isValid then addrString p.ip ++ '/' :: itoa (p.bitsPlusOne - 1) else "invalid Prefix".toList

/-- `netip.ParseAddr`. -/
def parseNetipAddr (s : List Char) : Option Addr :=
  match s.find? fun c => c = '.' ∨ c = ':' ∨ c = '%' with
  | some '.' => (parseIPv4 s).map addrFrom4
  | some ':' =>
    (parseIPv6 s).map fun (ip, z) =>
      .v6 ⟨ofBytes ip % 2 ^ 128, ofBytes_mod_lt_v6 ip⟩ (String.ofList z)
  | _ => none

inductive PrefixError where
  | noSlash
  | badAddr
  | zone
  | badBits
  | outOfRange
  deriving DecidableEq, Repr

/-- `netip.ParsePrefix`: the bits after the last `/`, without a sign or a
leading zero. -/
def parsePrefix (s : List Char) : Except PrefixError Prefix :=
  match s.reverse.idxOf? '/' with
  | none => .error .noSlash
  | some ri =>
    let i := s.length - 1 - ri
    match parseNetipAddr (s.take i) with
    | none => .error .badAddr
    | some ip =>
      if ip.is6 ∧ ip.zone ≠ "" then .error .zone
      else
        let bitsStr := s.drop (i + 1)
        if 1 < bitsStr.length ∧ ¬('1' ≤ bitsStr.getD 0 ' ' ∧ bitsStr.getD 0 ' ' ≤ '9') then
          .error .badBits
        else
          match atoi bitsStr with
          | (_, some _) => .error .badBits
          | (bits, none) =>
            if bits < 0 ∨ (ip.bitLen : Int) < bits then .error .outOfRange
            else .ok (prefixFrom ip bits)

inductive AddrPortError where
  | notIpPort
  | noIP
  | noPort
  | missingBracket
  | badPort
  | badAddr
  | bracketedV4
  | bareV6
  deriving DecidableEq, Repr

/-- `netip.ParseAddrPort`: `splitAddrPort` at the last colon, the port, then
the address and its brackets. -/
def parseAddrPort (s : List Char) : Except AddrPortError AddrPort :=
  match s.reverse.idxOf? ':' with
  | none => .error .notIpPort
  | some ri =>
    let i := s.length - 1 - ri
    let ip := s.take i
    let port := s.drop (i + 1)
    if ip = [] then .error .noIP
    else if port = [] then .error .noPort
    else
      let split : Except AddrPortError (List Char × Bool) :=
        if ip.head? = some '[' then
          if ip.length < 2 ∨ ip.getLast? ≠ some ']' then .error .missingBracket
          else .ok ((ip.drop 1).dropLast, true)
        else .ok (ip, false)
      split.bind fun (ip, v6) =>
        match parseUint port 16 with
        | .error _ => .error .badPort
        | .ok port16 =>
          match parseNetipAddr ip with
          | none => .error .badAddr
          | some addr =>
            if v6 ∧ addr.is4 then .error .bracketedV4
            else if ¬v6 ∧ addr.is6 then .error .bareV6
            else .ok ⟨addr, port16.toUInt16⟩

/-! ## IPv4 text round trip -/

section Spec

theorem digitChar_decimal : ∀ d, d < 10 →
    '0' ≤ Nat.digitChar d ∧ Nat.digitChar d ≤ '9' ∧ (Nat.digitChar d).toNat - '0'.toNat = d := by
  decide
theorem decimal_append_digit (l : List Char) {d : Nat} (hd : d < 10) :
    decimal (l ++ [Nat.digitChar d]) = (decimal l).map (· * 10 + d) := by
  obtain ⟨hlo, hhi, hval⟩ := digitChar_decimal d hd
  simp only [decimal, decimalFrom, List.foldl_append, List.foldl_cons, List.foldl_nil]
  generalize List.foldl _ (some 0) l = acc
  have hval' : (Nat.digitChar d).toNat - 48 = d := hval
  cases acc <;> simp [hlo, hhi, hval']
theorem decimal_itoaLoop (f n : Nat) (h : n < f) : decimal (itoaLoop f n) = some n := by
  induction f generalizing n with
  | zero => omega
  | succ f ih =>
    simp only [itoaLoop]
    split
    · next hn =>
      rw [List.nil_append, show [Nat.digitChar (n % 10)] = [] ++ [Nat.digitChar (n % 10)] from rfl,
        decimal_append_digit _ (Nat.mod_lt _ (by decide))]
      simp [decimal, decimalFrom, Nat.mod_eq_of_lt hn]
    · rw [decimal_append_digit _ (Nat.mod_lt _ (by decide)), ih (n / 10) (by omega)]
      simp only [Option.map_some, Option.some.injEq]
      omega
theorem isDigit_digitChar : ∀ d, d < 10 → (Nat.digitChar d).isDigit = true := by
  decide
theorem itoaLoop_digits (f n : Nat) : ∀ c ∈ itoaLoop f n, c.isDigit = true := by
  induction f generalizing n with
  | zero => simp [itoaLoop]
  | succ f ih =>
    intro c hc
    simp only [itoaLoop, List.mem_append, List.mem_singleton] at hc
    rcases hc with hc | rfl
    · split at hc
      · simp at hc
      · exact ih _ c hc
    · exact isDigit_digitChar _ (Nat.mod_lt _ (by decide))
theorem itoa_cons (n : Nat) : ∃ c rest, itoa n = c :: rest ∧ c.isDigit = true := by
  have hne : itoa n ≠ [] := by simp [itoa, itoaLoop]
  obtain ⟨c, rest, h⟩ := List.exists_cons_of_ne_nil hne
  exact ⟨c, rest, h, itoaLoop_digits _ _ c (h ▸ List.mem_cons_self)⟩
theorem atoi_itoa {n : Nat} (hn : n < 2 ^ 63) : atoi (itoa n) = ((n : Int), none) := by
  obtain ⟨c, rest, hc, -⟩ := itoa_cons n
  have hdec : decimal (itoa n) = some n := decimal_itoaLoop _ _ (Nat.lt_succ_self n)
  exact atoi_of_decimal (by rw [hc]; exact List.cons_ne_nil c rest) hdec hn
theorem parseIPv4Fields_digit {d : Nat} (hd : d < 10) (rest : List Char) (atStart : Bool)
    {val : Nat} (pos : Nat) {digLen : Nat} (fields : List Nat) (hlead : ¬(digLen = 1 ∧ val = 0))
    (hle : val * 10 + d ≤ 255) :
    parseIPv4Fields (Nat.digitChar d :: rest) atStart val pos digLen fields =
      parseIPv4Fields rest false (val * 10 + d) pos (digLen + 1) fields := by
  obtain ⟨hlo, hhi, hval⟩ := digitChar_decimal d hd
  rw [parseIPv4Fields, if_pos ⟨hlo, hhi⟩, if_neg hlead, hval, if_neg (by omega)]

theorem parseIPv4Fields_decimal {x : Nat} (hx : x < 256) (rest : List Char) (pos : Nat)
    (fields : List Nat) :
    ∃ k, parseIPv4Fields (appendDecimal x ++ rest) true 0 pos 0 fields =
      parseIPv4Fields rest false x pos k fields := by
  have h1 : x % 10 < 10 := Nat.mod_lt _ (by decide)
  have h2 : x / 10 % 10 < 10 := Nat.mod_lt _ (by decide)
  by_cases hx10 : x < 10
  · refine ⟨1, ?_⟩
    have happ : appendDecimal x = [Nat.digitChar (x % 10)] := by
      simp [appendDecimal, show ¬100 ≤ x by omega, show ¬10 ≤ x by omega]
    rw [happ, List.singleton_append, parseIPv4Fields_digit h1 _ _ _ _ (by omega) (by omega)]
    congr 1
    omega
  · by_cases hx100 : x < 100
    · refine ⟨2, ?_⟩
      have happ : appendDecimal x = [Nat.digitChar (x / 10 % 10), Nat.digitChar (x % 10)] := by
        simp [appendDecimal, show ¬100 ≤ x by omega, show 10 ≤ x by omega]
      rw [happ, List.cons_append, List.singleton_append,
        parseIPv4Fields_digit h2 _ _ _ _ (by omega) (by omega),
        parseIPv4Fields_digit h1 _ _ _ _ (by omega) (by omega)]
      congr 1
      omega
    · refine ⟨3, ?_⟩
      have h3 : x / 100 < 10 := by omega
      have happ : appendDecimal x =
          [Nat.digitChar (x / 100), Nat.digitChar (x / 10 % 10), Nat.digitChar (x % 10)] := by
        simp [appendDecimal, show 100 ≤ x by omega, show 10 ≤ x by omega]
      rw [happ, List.cons_append, List.cons_append, List.singleton_append,
        parseIPv4Fields_digit h3 _ _ _ _ (by omega) (by omega),
        parseIPv4Fields_digit h2 _ _ _ _ (by omega) (by omega),
        parseIPv4Fields_digit h1 _ _ _ _ (by omega) (by omega)]
      congr 1
      omega
theorem parseIPv4Fields_dot {rest : List Char} (hrest : rest ≠ []) {pos : Nat} (hpos : pos ≠ 3)
    (val k : Nat) (fields : List Nat) :
    parseIPv4Fields ('.' :: rest) false val pos k fields =
      parseIPv4Fields rest true 0 (pos + 1) 0 (fields ++ [val]) := by
  rw [parseIPv4Fields, if_neg (by decide), if_pos rfl]
  simp [hrest, hpos]

theorem appendDecimal_ne_nil (x : Nat) : appendDecimal x ≠ [] := by
  simp [appendDecimal]

theorem parseIPv4_string4 (a b c d : UInt8) : parseIPv4 (string4 [a, b, c, d]) = some [a, b, c, d] := by
  have hs : string4 [a, b, c, d] = appendDecimal a.toNat ++ '.' :: (appendDecimal b.toNat ++
      '.' :: (appendDecimal c.toNat ++ '.' :: (appendDecimal d.toNat ++ []))) := by
    simp [string4]
  obtain ⟨k₁, h₁⟩ := parseIPv4Fields_decimal a.toNat_lt _ 0 []
  obtain ⟨k₂, h₂⟩ := parseIPv4Fields_decimal b.toNat_lt _ 1 [a.toNat]
  obtain ⟨k₃, h₃⟩ := parseIPv4Fields_decimal c.toNat_lt _ 2 [a.toNat, b.toNat]
  obtain ⟨k₄, h₄⟩ := parseIPv4Fields_decimal d.toNat_lt [] 3 [a.toNat, b.toNat, c.toNat]
  have hne : ∀ x (l : List Char), appendDecimal x ++ l ≠ [] := fun x l => by
    simp [appendDecimal_ne_nil]
  unfold parseIPv4
  rw [hs, h₁, parseIPv4Fields_dot (hne _ _) (by decide)]
  simp only [Nat.reduceAdd, List.nil_append]
  rw [h₂, parseIPv4Fields_dot (hne _ _) (by decide)]
  simp only [Nat.reduceAdd, List.cons_append, List.nil_append]
  rw [h₃, parseIPv4Fields_dot (hne _ _) (by decide)]
  simp only [Nat.reduceAdd, List.cons_append, List.nil_append]
  rw [h₄]
  simp [parseIPv4Fields]
theorem appendDecimal_digits {x : Nat} (hx : x < 1000) : ∀ c ∈ appendDecimal x, c.isDigit = true := by
  intro c hc
  simp only [appendDecimal, List.mem_append] at hc
  rcases hc with (hc | hc) | hc
  · split at hc
    · rw [List.mem_singleton.mp hc]; exact isDigit_digitChar _ (by omega)
    · simp at hc
  · split at hc
    · rw [List.mem_singleton.mp hc]; exact isDigit_digitChar _ (Nat.mod_lt _ (by decide))
    · simp at hc
  · rw [List.mem_singleton.mp hc]; exact isDigit_digitChar _ (Nat.mod_lt _ (by decide))

/-- The characters of a dotted IPv4 text are digits and dots. -/
theorem string4_chars (a b c d : UInt8) :
    ∀ ch ∈ string4 [a, b, c, d], ch.isDigit = true ∨ ch = '.' := by
  intro ch hch
  have hdig : ∀ x : UInt8, ∀ ch ∈ appendDecimal x.toNat, ch.isDigit = true := fun x =>
    appendDecimal_digits (Nat.lt_trans x.toNat_lt (by decide))
  simp only [string4, List.getD_cons_zero, List.getD_cons_succ, List.mem_append,
    List.mem_cons] at hch
  rcases hch with ((h | h | h) | h | h) | h | h
  all_goals first | exact .inr h | exact .inl (hdig _ _ h)

theorem not_mem_string4 {ch : Char} (hch : ch.isDigit = false) (hdot : ch ≠ '.') (a b c d : UInt8) :
    ch ∉ string4 [a, b, c, d] := by
  intro hmem
  rcases string4_chars a b c d ch hmem with h | h
  · rw [hch] at h; cases h
  · exact hdot h

theorem parseIP_string4 (a b c d : UInt8) :
    parseIP (string4 [a, b, c, d]) = some (Netip.v4InV6Prefix ++ [a, b, c, d]) := by
  have hfind : (string4 [a, b, c, d]).find? (fun c => c = '.' ∨ c = ':' ∨ c = '%') = some '.' := by
    have hs : string4 [a, b, c, d] = appendDecimal a.toNat ++ '.' :: (appendDecimal b.toNat ++
        '.' :: (appendDecimal c.toNat ++ '.' :: appendDecimal d.toNat)) := by
      simp [string4]
    have hnone : (appendDecimal a.toNat).find? (fun c => c = '.' ∨ c = ':' ∨ c = '%') = none := by
      rw [List.find?_eq_none]
      intro ch hch
      have := appendDecimal_digits (Nat.lt_trans a.toNat_lt (by decide)) ch hch
      simp only [decide_eq_true_eq, not_or]
      refine ⟨?_, ?_, ?_⟩ <;> rintro rfl <;> exact absurd this (by decide)
    rw [hs, List.find?_append, hnone]
    simp
  unfold parseIP parseAddr
  rw [hfind]
  simp [parseIPv4_string4]
theorem idxOf?_append_cons {c : Char} {l : List Char} (h : c ∉ l) (m : List Char) :
    (l ++ c :: m).idxOf? c = some l.length := by
  induction l with
  | nil => simp [List.idxOf?_cons]
  | cons x l ih =>
    simp only [List.mem_cons, not_or] at h
    simp [List.idxOf?_cons, Ne.symm h.1, ih h.2]

theorem joinHostPort_of_not_mem {host : List Char} (h : ':' ∉ host) (port : List Char) :
    joinHostPort host port = host ++ ':' :: port := by
  simp [joinHostPort, h]

theorem splitHostPort_append {host port : List Char} (hh : ':' ∉ host ∧ '[' ∉ host ∧ ']' ∉ host)
    (hp : ':' ∉ port ∧ '[' ∉ port ∧ ']' ∉ port) :
    splitHostPort (host ++ ':' :: port) = .ok (host, port) := by
  obtain ⟨hhc, hho, hhb⟩ := hh
  obtain ⟨hpc, hpo, hpb⟩ := hp
  have hrev : (host ++ ':' :: port).reverse = port.reverse ++ ':' :: host.reverse := by simp
  have hidx : (host ++ ':' :: port).reverse.idxOf? ':' = some port.length := by
    rw [hrev, idxOf?_append_cons (by simpa using hpc), List.length_reverse]
  have hi : (host ++ ':' :: port).length - 1 - port.length = host.length := by simp
  have hhead : (host ++ ':' :: port).head? ≠ some '[' := by
    cases host with
    | nil => simp
    | cons c t =>
      simp only [List.cons_append, List.head?_cons, ne_eq, Option.some.injEq]
      rintro rfl
      exact hho List.mem_cons_self
  have htake : (host ++ ':' :: port).take host.length = host := by simp
  have hdrop : (host ++ ':' :: port).drop (host.length + 1) = port := by simp
  unfold splitHostPort
  rw [hidx]
  simp only [hi, if_neg hhead, htake, if_neg hhc, List.drop_zero, hdrop]
  simp [hho, hpo, hhb, hpb]
theorem to4_length {ip p4 : List UInt8} (h : Netip.to4 ip = some p4) : p4.length = 4 := by
  unfold Netip.to4 at h
  split at h
  · cases h; assumption
  · split at h
    · cases h; simp [*]
    · cases h

theorem ipString_of_to4 {ip p4 : List UInt8} (h : Netip.to4 ip = some p4) : ipString ip = string4 p4 := by
  have hlen : ip.length = 4 ∨ ip.length = 16 := by
    unfold Netip.to4 at h
    split at h
    · exact .inl ‹_›
    · split at h
      · exact .inr ‹_ ∧ _›.1
      · cases h
  have hne : ip ≠ [] := by
    rintro rfl
    simp at hlen
  unfold ipString
  rw [if_neg hne, if_neg (by omega), h]

theorem itoa_not_mem {ch : Char} (hch : ch.isDigit = false) (n : Nat) : ch ∉ itoa n := by
  intro hmem
  have := itoaLoop_digits _ _ ch hmem
  rw [hch] at this
  cases this

/-- The text of an IPv4 UDP address without zone: the dotted address and the port. -/
theorem udpAddr_toText_v4 {ip p4 : List UInt8} (h : Netip.to4 ip = some p4) (port : Nat) :
    UDPAddr.toText ⟨ip, port, []⟩ = string4 p4 ++ ':' :: itoa port := by
  have hne : ip ≠ [] := by
    rintro rfl
    simp [Netip.to4] at h
  obtain ⟨a, b, c, d, rfl⟩ : ∃ a b c d, p4 = [a, b, c, d] := by
    match p4, to4_length h with
    | [a, b, c, d], _ => exact ⟨a, b, c, d, rfl⟩
  simp only [UDPAddr.toText, ne_eq, not_true_eq_false, ↓reduceIte, ipEmptyString, hne,
    ipString_of_to4 h]
  exact joinHostPort_of_not_mem (not_mem_string4 (by decide) (by decide) a b c d) _

theorem splitHostPort_v4 (a b c d : UInt8) (port : Nat) :
    splitHostPort (string4 [a, b, c, d] ++ ':' :: itoa port) = .ok (string4 [a, b, c, d], itoa port) :=
  splitHostPort_append
    ⟨not_mem_string4 (by decide) (by decide) a b c d, not_mem_string4 (by decide) (by decide) a b c d,
      not_mem_string4 (by decide) (by decide) a b c d⟩
    ⟨itoa_not_mem (by decide) port, itoa_not_mem (by decide) port, itoa_not_mem (by decide) port⟩

end Spec

/-! ## Host and port texts

What `ParseAddrPort`, `ParseAddr` and `SplitHostPort` make of `JoinHostPort` of an
IP literal and a port. A literal without a zone is written with hex digits, dots
and colons only; a port that `Atoi` reads has a sign and decimal digits. -/

section HostPort

/-- The characters of an IP literal without a zone. -/
def LiteralText (s : List Char) : Prop := ∀ c ∈ s, c = '.' ∨ c = ':' ∨ (hexVal c).isSome

/-- Decided through the list: a search over all characters would also fit the goal. -/
instance (s : List Char) : Decidable (LiteralText s) := List.decidableBAll _ s

/-- The characters of a port text: a sign or a decimal digit. -/
def PortText (s : List Char) : Prop := ∀ c ∈ s, c = '+' ∨ c = '-' ∨ ('0' ≤ c ∧ c ≤ '9')

instance (s : List Char) : Decidable (PortText s) := List.decidableBAll _ s

theorem LiteralText.not_mem {s : List Char} (h : LiteralText s) {c : Char}
    (hc : c ≠ '.' ∧ c ≠ ':' ∧ hexVal c = none) : c ∉ s := by
  intro hmem
  rcases h c hmem with h1 | h2 | h3
  · exact hc.1 h1
  · exact hc.2.1 h2
  · rw [hc.2.2] at h3
    cases h3

theorem PortText.not_mem {s : List Char} (h : PortText s) {c : Char}
    (hc : c ≠ '+' ∧ c ≠ '-' ∧ ¬('0' ≤ c ∧ c ≤ '9')) : c ∉ s := by
  intro hmem
  rcases h c hmem with h1 | h2 | h3
  · exact hc.1 h1
  · exact hc.2.1 h2
  · exact hc.2.2 h3

/-- The delimiters `JoinHostPort` adds are in neither text. -/
theorem LiteralText.no_brackets {s : List Char} (h : LiteralText s) : '[' ∉ s ∧ ']' ∉ s :=
  ⟨h.not_mem (by decide), h.not_mem (by decide)⟩

theorem PortText.no_delimiters {s : List Char} (h : PortText s) : ':' ∉ s ∧ '[' ∉ s ∧ ']' ∉ s :=
  ⟨h.not_mem (by decide), h.not_mem (by decide), h.not_mem (by decide)⟩

/-- A printable ASCII character other than the space. -/
def Printable (c : Char) : Prop := 0x21 ≤ c.toNat ∧ c.toNat ≤ 0x7e

instance (c : Char) : Decidable (Printable c) := inferInstanceAs (Decidable (_ ∧ _))

theorem isSpace_of_printable {c : Char} (h : Printable c) : isSpace c = false := by
  obtain ⟨hlo, hhi⟩ := h
  cases hs : isSpace c with
  | false => rfl
  | true =>
    simp only [isSpace, Bool.or_eq_true, decide_eq_true_eq, Bool.and_eq_true, ← Char.toNat_inj,
      Char.reduceToNat] at hs
    omega

theorem LiteralText.printable {s : List Char} (h : LiteralText s) : ∀ c ∈ s, Printable c := by
  intro c hc
  rcases h c hc with rfl | rfl | hx
  · decide
  · decide
  · unfold hexVal at hx
    split_ifs at hx with h1 h2 h3
    · have hlo : 48 ≤ c.toNat := h1.1
      have hhi : c.toNat ≤ 57 := h1.2
      exact ⟨by omega, by omega⟩
    · have hlo : 97 ≤ c.toNat := h2.1
      have hhi : c.toNat ≤ 102 := h2.2
      exact ⟨by omega, by omega⟩
    · have hlo : 65 ≤ c.toNat := h3.1
      have hhi : c.toNat ≤ 70 := h3.2
      exact ⟨by omega, by omega⟩
    · simp at hx

theorem PortText.printable {s : List Char} (h : PortText s) : ∀ c ∈ s, Printable c := by
  intro c hc
  rcases h c hc with rfl | rfl | ⟨h0, h9⟩
  · decide
  · decide
  · have hlo : 48 ≤ c.toNat := h0
    have hhi : c.toNat ≤ 57 := h9
    exact ⟨by omega, by omega⟩

/-- `JoinHostPort` adds only brackets and a colon to the host and the port. -/
theorem mem_joinHostPort {host port : List Char} {c : Char} (h : c ∈ joinHostPort host port) :
    c ∈ host ∨ c ∈ port ∨ c = '[' ∨ c = ']' ∨ c = ':' := by
  unfold joinHostPort at h
  split at h <;> simp at h <;> tauto

/-- What `Atoi` reads without error is a sign and digits. -/
theorem portText_of_atoi {s : List Char} (h : (atoi s).2 = none) : PortText s :=
  digits_of_atoi h

/-- The IPv4 field scanner stops at a colon. -/
theorem parseIPv4Fields_colon {s : List Char} (h : ':' ∈ s) (atStart : Bool)
    (val pos digLen : Nat) (fields : List Nat) : parseIPv4Fields s atStart val pos digLen fields = none := by
  induction s generalizing atStart val pos digLen fields with
  | nil => simp at h
  | cons c s ih =>
    by_cases hc : c = ':'
    · subst hc
      simp [parseIPv4Fields]
    · have hs : ':' ∈ s := (List.mem_cons.mp h).resolve_left fun e => hc e.symm
      rw [parseIPv4Fields]
      split_ifs <;> first | rfl | exact ih hs _ _ _ _ _

theorem parseIPv4_colon {s : List Char} (h : ':' ∈ s) : parseIPv4 s = none := by
  rw [parseIPv4, parseIPv4Fields_colon h, Option.map_none]

theorem parseIPv6Body_bracket (s : List Char) : parseIPv6Body ('[' :: s) = none := by
  simp [parseIPv6Body, v6Fields, hexField, hexVal]

theorem parseIPv6_bracket (s : List Char) : parseIPv6 ('[' :: s) = none := by
  unfold parseIPv6
  split
  · next i _ =>
    split
    · rfl
    · cases i with
      | zero => simp [parseIPv6Body, v6Fields, hexField]
      | succ i => rw [List.take_succ_cons, parseIPv6Body_bracket, Option.map_none]
  · rw [parseIPv6Body_bracket, Option.map_none]

/-- `netip.ParseAddr` refuses a bracketed text. -/
theorem parseNetipAddr_bracket (s : List Char) : parseNetipAddr ('[' :: s) = none := by
  unfold parseNetipAddr
  split
  · simp [parseIPv4, parseIPv4Fields]
  · rw [parseIPv6_bracket, Option.map_none]
  · rfl

/-- The first dot, colon or percent sign of a literal is a dot or a colon. -/
theorem find?_literal {s : List Char} (h : LiteralText s) :
    s.find? (fun c => c = '.' ∨ c = ':' ∨ c = '%') = none ∨
      s.find? (fun c => c = '.' ∨ c = ':' ∨ c = '%') = some '.' ∨
      s.find? (fun c => c = '.' ∨ c = ':' ∨ c = '%') = some ':' := by
  cases hf : s.find? (fun c => c = '.' ∨ c = ':' ∨ c = '%') with
  | none => exact .inl rfl
  | some c =>
    have hmem : c ∈ s := List.mem_of_find?_eq_some hf
    have hsp : c = '.' ∨ c = ':' ∨ c = '%' := by simpa using List.find?_some hf
    have hpct : '%' ∉ s := h.not_mem (by decide)
    rcases hsp with rfl | rfl | rfl
    · exact .inr (.inl rfl)
    · exact .inr (.inr rfl)
    · exact absurd hmem hpct

/-- A literal without a colon that parses is IPv4, found at its first dot. -/
theorem parseNetipAddr_of_not_colon {s : List Char} {a : Addr} (hlit : LiteralText s)
    (hc : ':' ∉ s) (ha : parseNetipAddr s = some a) :
    a.is4 = true ∧ s.find? (fun c => c = '.' ∨ c = ':' ∨ c = '%') = some '.' := by
  rcases find?_literal hlit with hf | hf | hf
  · rw [parseNetipAddr, hf] at ha
    cases ha
  · rw [parseNetipAddr, hf] at ha
    simp only [Option.map_eq_some_iff] at ha
    obtain ⟨_, -, rfl⟩ := ha
    exact ⟨rfl, hf⟩
  · exact absurd (List.mem_of_find?_eq_some hf) hc

/-- A literal with a colon that parses is IPv6. -/
theorem parseNetipAddr_of_colon {s : List Char} {a : Addr} (hlit : LiteralText s)
    (hc : ':' ∈ s) (ha : parseNetipAddr s = some a) : a.is6 = true := by
  rcases find?_literal hlit with hf | hf | hf
  · rw [parseNetipAddr, hf] at ha
    cases ha
  · rw [parseNetipAddr, hf, parseIPv4_colon hc] at ha
    cases ha
  · rw [parseNetipAddr, hf] at ha
    simp only [Option.map_eq_some_iff] at ha
    obtain ⟨_, -, rfl⟩ := ha
    rfl

/-- An IPv4 literal followed by a colon is no address. -/
theorem parseNetipAddr_append_colon {s : List Char} {a : Addr} (hlit : LiteralText s)
    (hc : ':' ∉ s) (ha : parseNetipAddr s = some a) (rest : List Char) :
    parseNetipAddr (s ++ ':' :: rest) = none := by
  have hf := (parseNetipAddr_of_not_colon hlit hc ha).2
  have hcolon : ':' ∈ s ++ ':' :: rest := List.mem_append_right _ List.mem_cons_self
  rw [parseNetipAddr, List.find?_append, hf, Option.some_or, parseIPv4_colon hcolon]
  rfl

theorem ne_nil_of_parseNetipAddr {s : List Char} {a : Addr} (ha : parseNetipAddr s = some a) :
    s ≠ [] := by
  rintro rfl
  simp [parseNetipAddr] at ha

/-! The last colon of `s ++ ':' :: p`, for a `p` without one, is the one after `s`. -/

theorem reverse_idxOf?_colon (s : List Char) {p : List Char} (hp : ':' ∉ p) :
    (s ++ ':' :: p).reverse.idxOf? ':' = some p.length := by
  rw [List.reverse_append, List.reverse_cons, List.append_assoc, List.singleton_append,
    idxOf?_append_cons (by simpa using hp), List.length_reverse]

theorem colon_index (s p : List Char) : (s ++ ':' :: p).length - 1 - p.length = s.length := by
  simp

theorem take_colon (s p : List Char) : (s ++ ':' :: p).take s.length = s := by simp

theorem drop_colon (s p : List Char) : (s ++ ':' :: p).drop (s.length + 1) = p := by simp

/-- `ParseAddrPort` of an unbracketed address and a port it reads. -/
theorem parseAddrPort_plain {ip p : List Char} {a : Addr} {n : Nat} (hp : ':' ∉ p)
    (hhead : ip.head? ≠ some '[') (ha : parseNetipAddr ip = some a) (ha6 : a.is6 = false)
    (hn : parseUint p 16 = .ok n) : parseAddrPort (ip ++ ':' :: p) = .ok ⟨a, n.toUInt16⟩ := by
  have hip := ne_nil_of_parseNetipAddr ha
  have hpne : p ≠ [] := by
    rintro rfl
    simp at hn
  unfold parseAddrPort
  rw [reverse_idxOf?_colon ip hp]
  simp only [colon_index, take_colon, drop_colon, if_neg hip, if_neg hpne, if_neg hhead]
  simp [Except.bind, hn, ha, ha6]

/-- `ParseAddrPort` of a bracketed address and a port it reads. -/
theorem parseAddrPort_bracket {h p : List Char} {a : Addr} {n : Nat} (hp : ':' ∉ p)
    (ha : parseNetipAddr h = some a) (ha4 : a.is4 = false) (hn : parseUint p 16 = .ok n) :
    parseAddrPort (('[' :: h ++ [']']) ++ ':' :: p) = .ok ⟨a, n.toUInt16⟩ := by
  have hpne : p ≠ [] := by
    rintro rfl
    simp at hn
  have hlast : ('[' :: (h ++ [']'])).getLast? = some ']' := by
    rw [← List.cons_append, List.getLast?_append]
    rfl
  have hlen : ¬(h.length + 1 + 1 < 2) := by omega
  unfold parseAddrPort
  rw [reverse_idxOf?_colon _ hp]
  simp only [colon_index, take_colon, drop_colon, if_neg hpne]
  simp [Except.bind, hlast, hlen, hn, ha, ha4]

/-- `ParseAddrPort` fails on a port that `ParseUint` refuses. -/
theorem parseAddrPort_badPort (ip : List Char) {p : List Char} (hp : ':' ∉ p)
    (hn : ∃ e, parseUint p 16 = .error e) : ∃ e, parseAddrPort (ip ++ ':' :: p) = .error e := by
  obtain ⟨e, he⟩ := hn
  unfold parseAddrPort
  rw [reverse_idxOf?_colon ip hp]
  simp only [colon_index, take_colon, drop_colon]
  split_ifs <;> simp [Except.bind, he]

theorem splitHostPort_of_not_colon {s : List Char} (h : ':' ∉ s) :
    splitHostPort s = .error .missingPort := by
  rw [splitHostPort, List.idxOf?_eq_none_iff.mpr (by simpa using h)]

theorem parsePrefix_of_not_slash {s : List Char} (h : '/' ∉ s) :
    parsePrefix s = .error .noSlash := by
  rw [parsePrefix, List.idxOf?_eq_none_iff.mpr (by simpa using h)]

/-- The hex loop reads no colon. -/
theorem hexField_count {s s' : List Char} {off acc v off' : Nat}
    (h : hexField s off acc = some (v, off', s')) : s'.count ':' = s.count ':' := by
  induction s generalizing off acc with
  | nil =>
    simp only [hexField, Option.some.injEq, Prod.mk.injEq] at h
    rw [← h.2.2]
  | cons c s ih =>
    rw [hexField] at h
    cases hc : hexVal c with
    | none =>
      simp only [hc, Option.some.injEq, Prod.mk.injEq] at h
      rw [← h.2.2]
    | some x =>
      have hcolon : c ≠ ':' := by
        rintro rfl
        simp [hexVal] at hc
      simp only [hc] at h
      split_ifs at h
      rw [ih h, List.count_cons_of_ne hcolon]

/-- What the IPv6 field loop reads: `k` colons, of which at least two when it finds
the ellipsis, and without the ellipsis a colon after every field but the last, or
before an IPv4 tail that starts at byte twelve. -/
theorem v6Fields_colons {fuel : Nat} {s rest : List Char} {ip ip' : List UInt8}
    {e e' : Option Nat} (h : v6Fields fuel s ip e = some (rest, ip', e')) :
    ∃ k, s.count ':' = rest.count ':' + k ∧
      (e' = none → e = none ∧ min ip'.length 12 ≤ ip.length + 2 * k + 2) ∧
      (e = none → e'.isSome → 2 ≤ k) := by
  induction fuel generalizing s ip e with
  | zero =>
    simp only [v6Fields, Option.some.injEq, Prod.mk.injEq] at h
    obtain ⟨rfl, rfl, rfl⟩ := h
    exact ⟨0, rfl, fun he => ⟨he, by omega⟩, fun he he' => by simp [he] at he'⟩
  | succ fuel ih =>
    rw [v6Fields] at h
    by_cases hfull : 16 ≤ ip.length
    · rw [if_pos hfull, Option.some.injEq, Prod.mk.injEq, Prod.mk.injEq] at h
      obtain ⟨rfl, rfl, rfl⟩ := h
      exact ⟨0, rfl, fun he => ⟨he, by omega⟩, fun he he' => by simp [he] at he'⟩
    rw [if_neg hfull] at h
    cases hhex : hexField s 0 0 with
    | none =>
      rw [hhex] at h
      cases h
    | some r =>
      obtain ⟨acc, off, s'⟩ := r
      have hs' := hexField_count hhex
      rw [hhex] at h
      simp only at h
      by_cases hoff : off = 0
      · rw [if_pos hoff] at h
        cases h
      rw [if_neg hoff] at h
      by_cases hdot : s'.head? = some '.'
      · rw [if_pos hdot] at h
        split_ifs at h with hv4 hlen
        obtain ⟨f, -, hf⟩ := Option.map_eq_some_iff.mp h
        rw [Prod.mk.injEq, Prod.mk.injEq] at hf
        obtain ⟨rfl, rfl, rfl⟩ := hf
        refine ⟨s.count ':', by simp, fun he => ⟨he, ?_⟩, fun he he' => by simp [he] at he'⟩
        simp only [he, Option.isNone_none, true_and, not_not] at hv4
        simp only [List.length_append]
        omega
      rw [if_neg hdot] at h
      have hlen2 : (ip ++ [(acc / 256).toUInt8, (acc % 256).toUInt8]).length = ip.length + 2 := by
        simp
      cases s' with
      | nil =>
        rw [Option.some.injEq, Prod.mk.injEq, Prod.mk.injEq] at h
        obtain ⟨rfl, rfl, rfl⟩ := h
        exact ⟨s.count ':', by simp, fun he => ⟨he, by omega⟩, fun he he' => by simp [he] at he'⟩
      | cons c r =>
        simp only at h
        by_cases hc : c = ':'
        swap
        · rw [if_pos hc] at h
          cases h
        subst hc
        rw [if_neg (fun hne => hne rfl)] at h
        by_cases hr : r = []
        · rw [if_pos hr] at h
          cases h
        rw [if_neg hr] at h
        have hcount : s.count ':' = r.count ':' + 1 := by
          rw [← hs', List.count_cons_self]
        by_cases hdd : r.head? = some ':'
        · obtain ⟨r', rfl⟩ : ∃ r', r = ':' :: r' := by
            cases r with
            | nil => exact absurd rfl hr
            | cons d r' =>
              simp only [List.head?_cons, Option.some.injEq] at hdd
              exact ⟨r', by rw [hdd]⟩
          rw [if_pos hdd] at h
          by_cases hsome : e.isSome = true
          · rw [if_pos hsome] at h
            cases h
          rw [if_neg hsome] at h
          have hcount' : s.count ':' = r'.count ':' + 2 := by
            rw [hcount, List.count_cons_self]
          by_cases ht : (':' :: r').tail = []
          · rw [if_pos ht, Option.some.injEq, Prod.mk.injEq, Prod.mk.injEq] at h
            obtain ⟨rfl, rfl, rfl⟩ := h
            refine ⟨s.count ':', by simp, (fun he' => nomatch he'), fun _ _ => ?_⟩
            omega
          · rw [if_neg ht] at h
            obtain ⟨k, hk, hnone, -⟩ := ih h
            refine ⟨k + 2, by simp only [List.tail_cons] at hk; omega, fun he' => ?_, fun _ _ => by omega⟩
            exact absurd (hnone he').1 (by simp)
        · rw [if_neg hdd] at h
          obtain ⟨k, hk, hnone, hsome⟩ := ih h
          refine ⟨k + 1, by omega, fun he' => ?_, fun he he' => ?_⟩
          · obtain ⟨he, hmin⟩ := hnone he'
            exact ⟨he, by omega⟩
          · have := hsome he he'
            omega

/-- An IPv6 text without a zone has at least two colons. -/
theorem parseIPv6Body_colons {s : List Char} {ip : List UInt8} (h : parseIPv6Body s = some ip) :
    2 ≤ s.count ':' := by
  by_cases htake : s.take 2 = [':', ':']
  · rw [← List.take_append_drop 2 s, htake]
    simp
  unfold parseIPv6Body at h
  rw [if_neg htake] at h
  simp only [reduceCtorEq, and_false, if_false] at h
  split at h
  · cases h
  next rest ip' e' hfields =>
  obtain ⟨k, hk, hnone, hsome⟩ := v6Fields_colons hfields
  by_cases hrest : rest = []
  swap
  · rw [if_pos hrest] at h
    cases h
  subst hrest
  rw [if_neg (fun hne => hne rfl)] at h
  simp only [List.count_nil, Nat.zero_add] at hk
  by_cases hshort : ip'.length < 16
  · rw [if_pos hshort] at h
    cases e' with
    | none => cases h
    | some _ =>
      have := hsome rfl rfl
      omega
  · rw [if_neg hshort] at h
    cases e' with
    | none =>
      have hmin := (hnone rfl).2
      simp only [List.length_nil] at hmin
      omega
    | some _ => simp at h

/-- A literal with a colon that parses has at least two. -/
theorem parseNetipAddr_colons {s : List Char} {a : Addr} (hlit : LiteralText s) (hc : ':' ∈ s)
    (ha : parseNetipAddr s = some a) : 2 ≤ s.count ':' := by
  have hpct : '%' ∉ s := hlit.not_mem (by decide)
  rcases find?_literal hlit with hf | hf | hf
  · rw [parseNetipAddr, hf] at ha
    cases ha
  · rw [parseNetipAddr, hf, parseIPv4_colon hc] at ha
    cases ha
  · rw [parseNetipAddr, hf] at ha
    simp only [Option.map_eq_some_iff] at ha
    obtain ⟨⟨ip, z⟩, hip, -⟩ := ha
    rw [parseIPv6, List.idxOf?_eq_none_iff.mpr hpct, Option.map_eq_some_iff] at hip
    obtain ⟨body, hbody, -⟩ := hip
    exact parseIPv6Body_colons hbody

theorem exists_last_mem {c : Char} {s : List Char} (hs : c ∈ s) :
    ∃ pre post, s = pre ++ c :: post ∧ c ∉ post := by
  induction s using List.reverseRecOn with
  | nil => simp at hs
  | append_singleton l d ih =>
    by_cases hd : d = c
    · exact ⟨l, [], by rw [hd], by simp⟩
    · have hl : c ∈ l := by simpa [Ne.symm hd] using hs
      obtain ⟨pre, post, rfl, hpost⟩ := ih hl
      exact ⟨pre, post ++ [d], by simp, by simp [hpost, Ne.symm hd]⟩

/-- `SplitHostPort` refuses an unbracketed text with two colons. -/
theorem splitHostPort_of_colons {s : List Char} (hhead : s.head? ≠ some '[')
    (h2 : 2 ≤ s.count ':') : splitHostPort s = .error .tooManyColons := by
  obtain ⟨pre, post, rfl, hpost⟩ := exists_last_mem (List.count_pos_iff.mp (by omega : 0 < s.count ':'))
  have hpre : ':' ∈ pre := by
    have hcount : (pre ++ ':' :: post).count ':' = pre.count ':' + 1 := by
      simp [List.count_eq_zero.mpr hpost]
    exact List.count_pos_iff.mp (by omega)
  unfold splitHostPort
  rw [reverse_idxOf?_colon pre hpost]
  simp only [colon_index, take_colon, if_neg hhead, if_pos hpre]

/-- `SplitHostPort` takes a bracketed host and a port back apart. -/
theorem splitHostPort_bracket {host port : List Char} (hh : '[' ∉ host ∧ ']' ∉ host)
    (hp : ':' ∉ port ∧ '[' ∉ port ∧ ']' ∉ port) :
    splitHostPort (('[' :: host ++ [']']) ++ ':' :: port) = .ok (host, port) := by
  obtain ⟨hho, hhc⟩ := hh
  obtain ⟨hpc, hpo, hpb⟩ := hp
  have hclose : ('[' :: (host ++ ']' :: ':' :: port)).idxOf? ']' = some (host.length + 1) := by
    have hnot : ']' ∉ '[' :: host := by simpa using hhc
    simpa using idxOf?_append_cons hnot (':' :: port)
  unfold splitHostPort
  rw [reverse_idxOf?_colon _ hpc]
  simp only [colon_index, take_colon, drop_colon]
  simp [hclose, hho, hpo, hpb]

/-! `JoinHostPort` of a zone-free literal and a port text, read back. -/

theorem joinHostPort_bracket {host : List Char} (h : ':' ∈ host) (port : List Char) :
    joinHostPort host port = ('[' :: host ++ [']']) ++ ':' :: port := by
  simp [joinHostPort, h]

/-- `JoinHostPort` ends in a colon and the port. -/
theorem joinHostPort_eq_append (host port : List Char) :
    ∃ ip, joinHostPort host port = ip ++ ':' :: port := by
  by_cases hc : ':' ∈ host
  · exact ⟨_, joinHostPort_bracket hc port⟩
  · exact ⟨_, joinHostPort_of_not_mem hc port⟩

theorem splitHostPort_joinHostPort {host port : List Char} (hlit : LiteralText host)
    (hport : PortText port) : splitHostPort (joinHostPort host port) = .ok (host, port) := by
  by_cases hc : ':' ∈ host
  · rw [joinHostPort_bracket hc]
    exact splitHostPort_bracket hlit.no_brackets hport.no_delimiters
  · rw [joinHostPort_of_not_mem hc]
    exact splitHostPort_append ⟨hc, hlit.no_brackets⟩ hport.no_delimiters

/-- `ParseAddr` refuses the joined text: a bracket, or a colon after an IPv4 literal. -/
theorem parseNetipAddr_joinHostPort {host : List Char} {a : Addr} (hlit : LiteralText host)
    (ha : parseNetipAddr host = some a) (port : List Char) :
    parseNetipAddr (joinHostPort host port) = none := by
  by_cases hc : ':' ∈ host
  · rw [joinHostPort_bracket hc]
    exact parseNetipAddr_bracket _
  · rw [joinHostPort_of_not_mem hc]
    exact parseNetipAddr_append_colon hlit hc ha _

/-- `ParseAddrPort` reads the address and the port back when `ParseUint` reads the port. -/
theorem parseAddrPort_joinHostPort {host port : List Char} {a : Addr} {n : Nat}
    (hlit : LiteralText host) (ha : parseNetipAddr host = some a) (hport : PortText port)
    (hn : parseUint port 16 = .ok n) :
    parseAddrPort (joinHostPort host port) = .ok ⟨a, n.toUInt16⟩ := by
  obtain ⟨hpc, -, -⟩ := hport.no_delimiters
  by_cases hc : ':' ∈ host
  · have ha4 : a.is4 = false := by
      have h6 := parseNetipAddr_of_colon hlit hc ha
      cases a <;> simp_all [Addr.is4, Addr.is6]
    rw [joinHostPort_bracket hc]
    exact parseAddrPort_bracket hpc ha ha4 hn
  · have hv4 := parseNetipAddr_of_not_colon hlit hc ha
    have ha6 : a.is6 = false := by
      cases a <;> simp_all [Addr.is4, Addr.is6]
    have hhead : host.head? ≠ some '[' := fun hh => hlit.no_brackets.1 (List.mem_of_mem_head? hh)
    rw [joinHostPort_of_not_mem hc]
    exact parseAddrPort_plain hpc hhead ha ha6 hn

theorem parseAddrPort_joinHostPort_badPort (host : List Char) {port : List Char}
    (hport : PortText port) (hn : ∃ e, parseUint port 16 = .error e) :
    ∃ e, parseAddrPort (joinHostPort host port) = .error e := by
  obtain ⟨ip, hip⟩ := joinHostPort_eq_append host port
  rw [hip]
  exact parseAddrPort_badPort ip hport.no_delimiters.1 hn

end HostPort

end NetText

