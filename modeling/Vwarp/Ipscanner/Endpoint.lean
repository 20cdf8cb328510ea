import Vwarp.NetText

/-!
# Custom endpoints of the IP scanner

`IPScanner.addEndpoint` and the options that `RunScan` passes to `NewScanner`,
on the fields of the scanner options they read and write: the address
families, the default port, the prefix list and the custom endpoints.

An endpoint is tried as `ip:port` (`netip.ParseAddrPort`), then as a bare
address with the scanner's port, then as `host:port` through `LookupIP`, and
last as a bare host. `LookupIP` answers an IP literal itself, in its 16-byte
form and without a query; any other name goes to the resolver, an argument
here. A failed lookup or a port that `ParseUint` refuses is logged and the
endpoint is skipped: the options are left as they were.
-/

namespace Ipscanner

open Netip NetText GoText

/-- The fields of `statute.ScannerOptions` that the endpoint options read and write,
with `NewScanner`'s defaults. -/
structure ScannerOptions where
  useIPv4 : Bool := true
  useIPv6 : Bool := true
  port : UInt16 := 2408
  cidrList : List Prefix := []
  customEndpoints : List AddrPort := []
  deriving DecidableEq, Repr

/-- `net.IPv6unspecified`. -/
def ipv6Unspecified : List UInt8 := List.replicate 16 0

/-- `Resolver.LookupIP(ctx, "ip", host)`. An IP literal is its own answer,
`IP(ip.AsSlice()).To16()`, and `::` is followed by `0.0.0.0`; other names are asked
of `resolve`, which gives the answers as `net.IP` slices or `none` for a failure. -/
def lookupIP (resolve : List Char → Option (List (List UInt8))) (host : List Char) :
    Option (List (List UInt8)) :=
  if host = [] then none
  else
    match parseNetipAddr host with
    | some ip => some (if ip.as16 = ipv6Unspecified then [ip.as16, ipv4 0 0 0 0] else [ip.as16])
    | none => resolve host

/-- The answers whose family is enabled, each with the port. -/
def admitted (o : ScannerOptions) (ips : List (List UInt8)) (port : UInt16) : List AddrPort :=
  ips.filterMap fun ip =>
    match addrFromSlice ip with
    | none => none
    | some addr =>
      if (addr.is4 && o.useIPv4) || (addr.is6 && o.useIPv6) then some ⟨addr, port⟩ else none

/-- The scanner's port, `2408` when it was set to `0`. -/
def defaultPort (o : ScannerOptions) : UInt16 := if o.port = 0 then 2408 else o.port

def appendEndpoints (o : ScannerOptions) (es : List AddrPort) : ScannerOptions :=
  { o with customEndpoints := o.customEndpoints ++ es }

/-- `addEndpoint` on an endpoint without a comma. -/
def addSingleEndpoint (resolve : List Char → Option (List (List UInt8))) (o : ScannerOptions)
    (endpoint : List Char) : ScannerOptions :=
  match parseAddrPort endpoint with
  | .ok addrPort => appendEndpoints o [addrPort]
  | .error _ =>
    match parseNetipAddr endpoint with
    | some addr => appendEndpoints o [⟨addr, defaultPort o⟩]
    | none =>
      match splitHostPort endpoint with
      | .ok (host, portStr) =>
        match lookupIP resolve host with
        | none => o
        | some ips =>
          match parseUint portStr 16 with
          | .error _ => o
          | .ok port => appendEndpoints o (admitted o ips port.toUInt16)
      | .error _ =>
        match lookupIP resolve endpoint with
        | none => o
        | some ips => appendEndpoints o (admitted o ips (defaultPort o))

/-- `IPScanner.addEndpoint`. A comma-separated list is split, trimmed and added part
by part; a part holds no comma, so the recursive call adds it directly. -/
def addEndpoint (resolve : List Char → Option (List (List UInt8))) (o : ScannerOptions)
    (endpoint : List Char) : ScannerOptions :=
  if ',' ∈ endpoint then
    (endpoint.splitOn ',').foldl (fun o part =>
      let p := trimSpace part
      if p = [] then o else addSingleEndpoint resolve o p) o
  else addSingleEndpoint resolve o endpoint

/-- The options `RunScan` passes that set these fields. -/
inductive ScanOption where
  | useIPv4 (useIPv4 : Bool)
  | useIPv6 (useIPv6 : Bool)
  | cidrList (cidrList : List Prefix)
  | appendCidrList (cidr : Prefix)
  | appendCustomEndpoint (endpoint : List Char)
  deriving DecidableEq, Repr

/-- `WithUseIPv4`, `WithUseIPv6`, `WithCidrList`, `WithAppendCidrList` and
`WithAppendCustomEndpoint`. -/
def ScanOption.apply (resolve : List Char → Option (List (List UInt8))) :
    ScanOption → ScannerOptions → ScannerOptions
  | .useIPv4 b, o => { o with useIPv4 := b }
  | .useIPv6 b, o => { o with useIPv6 := b }
  | .cidrList cidrs, o => { o with cidrList := cidrs }
  | .appendCidrList cidr, o => { o with cidrList := o.cidrList ++ [cidr] }
  | .appendCustomEndpoint endpoint, o => addEndpoint resolve o endpoint

/-- `statute.DefaultCFRanges`. -/
def defaultCFRanges : List Prefix := [
  ⟨.v4 0x6715f400, 23⟩,
  ⟨.v4 0x6716c800, 23⟩,
  ⟨.v4 0x671f0400, 23⟩,
  ⟨.v4 0x68100000, 13⟩,
  ⟨.v4 0x6ca2c000, 19⟩,
  ⟨.v4 0x83004800, 23⟩,
  ⟨.v4 0x8d654000, 19⟩,
  ⟨.v4 0xa29e0000, 16⟩,
  ⟨.v4 0xac400000, 14⟩,
  ⟨.v4 0xadf53000, 21⟩,
  ⟨.v4 0xbc726000, 21⟩,
  ⟨.v4 0xbe5df000, 21⟩,
  ⟨.v4 0xc5eaf000, 23⟩,
  ⟨.v4 0xc6298000, 18⟩,
  ⟨.v6 0x2400cb00000000000000000000000000 "", 33⟩,
  ⟨.v6 0x24058100000000000000000000000000 "", 33⟩,
  ⟨.v6 0x2405b500000000000000000000000000 "", 33⟩,
  ⟨.v6 0x26064700000000000000000000000000 "", 33⟩,
  ⟨.v6 0x2803f800000000000000000000000000 "", 33⟩,
  ⟨.v6 0x2c0ff248000000000000000000000000 "", 33⟩,
  ⟨.v6 0x2a0698c0000000000000000000000000 "", 30⟩]

/-- `NewScanner` on these fields: the defaults, the options in order, then the
default ranges when neither a prefix nor an endpoint was set. No option here sets
`TestPortsForIPs`, so it is empty. -/
def newScanner (resolve : List Char → Option (List (List UInt8))) (options : List ScanOption) :
    ScannerOptions :=
  let o := options.foldl (fun o opt => opt.apply resolve o) {}
  if o.cidrList = [] ∧ o.customEndpoints = [] then { o with cidrList := defaultCFRanges } else o

section Spec

variable (resolve : List Char → Option (List (List UInt8))) (o : ScannerOptions)

@[simp] theorem appendEndpoints_customEndpoints (es : List AddrPort) :
    (appendEndpoints o es).customEndpoints = o.customEndpoints ++ es := rfl

@[simp] theorem appendEndpoints_nil : appendEndpoints o [] = o := by
  simp [appendEndpoints]

/-- `NewScanner` keeps the endpoints the options set. -/
theorem newScanner_customEndpoints (options : List ScanOption) :
    (newScanner resolve options).customEndpoints =
      (options.foldl (fun o (opt : ScanOption) => opt.apply resolve o) {}).customEndpoints := by
  unfold newScanner
  dsimp only
  split_ifs <;> rfl

/-- `NewScanner` keeps the prefixes the options set, or takes the default ranges when
the options set neither a prefix nor an endpoint. -/
theorem newScanner_cidrList (options : List ScanOption) :
    (newScanner resolve options).cidrList =
      if (options.foldl (fun o (opt : ScanOption) => opt.apply resolve o) {}).cidrList = [] ∧
          (options.foldl (fun o (opt : ScanOption) => opt.apply resolve o) {}).customEndpoints = [] then
        defaultCFRanges
      else (options.foldl (fun o (opt : ScanOption) => opt.apply resolve o) {}).cidrList := by
  unfold newScanner
  dsimp only
  split_ifs <;> rfl

/-! One lemma per way `addSingleEndpoint` can end. -/

theorem addSingleEndpoint_of_addrPort {endpoint : List Char} {ap : AddrPort}
    (h : parseAddrPort endpoint = .ok ap) :
    addSingleEndpoint resolve o endpoint = appendEndpoints o [ap] := by
  rw [addSingleEndpoint, h]

/-- The `host:port` fallback, after the host was looked up. -/
theorem addSingleEndpoint_of_hostPort {endpoint host portStr : List Char} {ips : List (List UInt8)}
    (hap : ∃ e, parseAddrPort endpoint = .error e) (haddr : parseNetipAddr endpoint = none)
    (hsplit : splitHostPort endpoint = .ok (host, portStr)) (hlook : lookupIP resolve host = some ips) :
    addSingleEndpoint resolve o endpoint =
      match parseUint portStr 16 with
      | .error _ => o
      | .ok port => appendEndpoints o (admitted o ips port.toUInt16) := by
  obtain ⟨e, he⟩ := hap
  rw [addSingleEndpoint, he]
  simp only [haddr, hsplit, hlook]

theorem addEndpoint_of_not_comma {endpoint : List Char} (h : ',' ∉ endpoint) :
    addEndpoint resolve o endpoint = addSingleEndpoint resolve o endpoint := by
  rw [addEndpoint, if_neg h]

theorem lookupIP_literal {host : List Char} {a : Addr} (ha : parseNetipAddr host = some a) :
    ∃ ips, lookupIP resolve host = some ips := by
  rw [lookupIP, if_neg (ne_nil_of_parseNetipAddr ha), ha]
  exact ⟨_, rfl⟩

/-- `addEndpoint` on `JoinHostPort` of a zone-free IP literal and a port text adds the
address with the port when `ParseUint` reads the port, and nothing otherwise: a
refused port goes on to the `host:port` fallback, whose lookup of the literal
succeeds and whose `ParseUint` fails again. -/
theorem addSingleEndpoint_joinHostPort {host port : List Char} {a : Addr}
    (hlit : LiteralText host) (ha : parseNetipAddr host = some a) (hport : PortText port) :
    addSingleEndpoint resolve o (joinHostPort host port) =
      match parseUint port 16 with
      | .ok n => appendEndpoints o [⟨a, n.toUInt16⟩]
      | .error _ => o := by
  obtain ⟨ips, hlook⟩ := lookupIP_literal resolve ha
  cases hn : parseUint port 16 with
  | ok n => exact addSingleEndpoint_of_addrPort resolve o (parseAddrPort_joinHostPort hlit ha hport hn)
  | error e =>
    rw [addSingleEndpoint_of_hostPort resolve o (parseAddrPort_joinHostPort_badPort host hport ⟨e, hn⟩)
      (parseNetipAddr_joinHostPort hlit ha port) (splitHostPort_joinHostPort hlit hport) hlook, hn]

theorem not_comma_joinHostPort {host port : List Char} (hlit : LiteralText host)
    (hport : PortText port) : ',' ∉ joinHostPort host port := by
  have hh : ',' ∉ host := hlit.not_mem (by decide)
  have hp : ',' ∉ port := hport.not_mem (by decide)
  unfold joinHostPort
  split <;> simp [hh, hp]

end Spec

end Ipscanner
