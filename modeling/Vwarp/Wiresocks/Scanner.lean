import Vwarp.Lib.ExceptStep
import Vwarp.Ipscanner.Endpoint

/-!
# The endpoints of a scan

How `RunScan` reads its `Endpoints` option and what the scanner it builds ends up
with. `RunScan` splits the text at commas, trims each part and takes it as a
prefix, as `host:port` with a port `strconv.Atoi` reads in `[0, 65535]`, as a bare
IP or as a bare domain; the last two get port `0`. Everything but a prefix is
handed to `addEndpoint`, which reads the text again with `netip.ParseAddrPort` and
`strconv.ParseUint`. `Atoi` takes a sign that `ParseUint` refuses, so an
`ip:+80` that `RunScan` accepts reaches the `host:port` fallback of `addEndpoint`,
which logs the port and skips the endpoint.
-/

namespace Wiresocks

open Netip NetText GoText Ipscanner ExceptStep

/-- `warp.WarpPrefixes`. -/
def warpPrefixes : List Prefix := [
  ⟨.v4 0xa29fc000, 25⟩,
  ⟨.v4 0xa29fc300, 25⟩,
  ⟨.v4 0xbc726000, 25⟩,
  ⟨.v4 0xbc726100, 25⟩,
  ⟨.v4 0xbc726200, 25⟩,
  ⟨.v4 0xbc726300, 25⟩,
  ⟨.v6 0x2606470000d000000000000000000000 "", 65⟩,
  ⟨.v6 0x2606470000d100000000000000000000 "", 65⟩]

/-- What `RunScan` makes of one trimmed, non-empty part of `Endpoints`. -/
def classifyPart (trimmedPart : List Char) : Except String ScanOption :=
  match parsePrefix trimmedPart with
  | .ok cidr => .ok (.appendCidrList cidr)
  | .error _ =>
    match splitHostPort trimmedPart with
    | .ok (_, portStr) =>
      let port := atoi portStr
      if port.2.isSome ∨ port.1 < 0 ∨ 65535 < port.1 then
        .error ("invalid port number: " ++ String.ofList portStr)
      else .ok (.appendCustomEndpoint trimmedPart)
    | .error _ =>
      match parseNetipAddr trimmedPart with
      | some _ => .ok (.appendCustomEndpoint (joinHostPort trimmedPart ['0']))
      | none =>
        -- a domain without a port
        if '.' ∈ trimmedPart ∧ '/' ∉ trimmedPart ∧ ':' ∉ trimmedPart then
          .ok (.appendCustomEndpoint (joinHostPort trimmedPart ['0']))
        else .error ("invalid endpoint format: " ++ String.ofList trimmedPart)

/-- The loop over the comma-separated parts: empty parts are skipped and the first
bad part ends `RunScan` with its error. -/
def endpointOptions : List (List Char) → Except String (List ScanOption)
  | [] => .ok []
  | part :: parts =>
    let trimmedPart := trimSpace part
    if trimmedPart = [] then endpointOptions parts
    else (classifyPart trimmedPart).bind fun opt => (endpointOptions parts).map (opt :: ·)

/-- The options of `RunScan` that set the scanner's families and address lists, in
order: the WARP prefixes when `Endpoints` is empty, its parts otherwise. -/
def runScanOptions (endpoints : List Char) (v4 v6 : Bool) : Except String (List ScanOption) :=
  let base := [ScanOption.useIPv4 v4, .useIPv6 v6]
  if endpoints = [] then .ok (base ++ [.cidrList warpPrefixes])
  else (endpointOptions (endpoints.splitOn ',')).map (base ++ ·)

/-- A part of `Endpoints` in one of the forms a scan takes without DNS: a prefix, a
zone-free IP literal, or `JoinHostPort` of a zone-free IP literal and a port `Atoi`
reads. Each form carries the facts that make it one. -/
inductive EndpointPart where
  | cidr (text : List Char) (cidr : Prefix) (parses : parsePrefix text = .ok cidr)
      (plain : ∀ c ∈ text, c ≠ ',' ∧ isSpace c = false)
  | bare (text : List Char) (addr : Addr) (parses : parseNetipAddr text = some addr)
      (literal : LiteralText text)
  | hostPort (host port : List Char) (addr : Addr) (parses : parseNetipAddr host = some addr)
      (literal : LiteralText host) (portRead : (atoi port).2 = none)

namespace EndpointPart

def text : EndpointPart → List Char
  | cidr text .. => text
  | bare text .. => text
  | hostPort host port .. => joinHostPort host port

/-- Whether `RunScan` takes the part: the port of a `host:port` must be in `[0, 65535]`. -/
def accepted : EndpointPart → Bool
  | hostPort _ port .. => decide (0 ≤ (atoi port).1 ∧ (atoi port).1 ≤ 65535)
  | _ => true

/-- The option `RunScan` passes for the part once it is accepted. -/
def option : EndpointPart → ScanOption
  | cidr _ p .. => .appendCidrList p
  | bare text .. => .appendCustomEndpoint (joinHostPort text ['0'])
  | hostPort host port .. => .appendCustomEndpoint (joinHostPort host port)

/-- The prefixes a part stands for. -/
def cidrs : EndpointPart → List Prefix
  | cidr _ p .. => [p]
  | _ => []

/-- The addresses with ports a part stands for: port `0` for a bare IP, the port
`Atoi` reads for a `host:port`. -/
def endpoints : EndpointPart → List AddrPort
  | cidr .. => []
  | bare _ addr .. => [⟨addr, 0⟩]
  | hostPort _ port addr .. => [⟨addr, (atoi port).1.toNat.toUInt16⟩]

/-- A `host:port` whose port starts with a sign: `Atoi` reads it, `ParseUint` does not. -/
def signedPort : EndpointPart → Bool
  | hostPort _ port .. => port.head? = some '+' || port.head? = some '-'
  | _ => false

end EndpointPart

section Parts

open EndpointPart

/-- The text of a `host:port` part has no slash, so it is no prefix. -/
theorem slash_not_mem_joinHostPort {host port : List Char} (literal : LiteralText host)
    (hport : PortText port) : '/' ∉ joinHostPort host port := by
  intro hmem
  rcases mem_joinHostPort hmem with h | h | h | h | h
  · exact literal.not_mem (by decide) h
  · exact hport.not_mem (by decide) h
  all_goals exact absurd h (by decide)

/-- The text of a part is non-empty, without a comma and without white space, so
splitting at commas and trimming give it back. -/
theorem text_plain (q : EndpointPart) :
    q.text ≠ [] ∧ ∀ c ∈ q.text, c ≠ ',' ∧ isSpace c = false := by
  cases q with
  | cidr text p parses plain =>
    refine ⟨?_, plain⟩
    rintro rfl
    simp [parsePrefix] at parses
  | bare text addr parses literal =>
    refine ⟨ne_nil_of_parseNetipAddr parses, fun c hc => ⟨?_, ?_⟩⟩
    · rintro rfl
      exact literal.not_mem (by decide) hc
    · exact isSpace_of_printable (literal.printable c hc)
  | hostPort host port addr parses literal portRead =>
    have hport := portText_of_atoi portRead
    refine ⟨by simp [EndpointPart.text, joinHostPort]; split <;> simp, fun c hc => ?_⟩
    rcases mem_joinHostPort hc with h | h | rfl | rfl | rfl
    · exact ⟨fun e => literal.not_mem (by decide) (e ▸ h),
        isSpace_of_printable (literal.printable c h)⟩
    · exact ⟨fun e => hport.not_mem (by decide) (e ▸ h), isSpace_of_printable (hport.printable c h)⟩
    all_goals decide

theorem trimSpace_text (q : EndpointPart) : trimSpace q.text = q.text :=
  trimSpace_eq_self fun c hc => ((text_plain q).2 c hc).2

/-- `RunScan` on `JoinHostPort` of a literal and a port `Atoi` reads: the port is checked
against `[0, 65535]`. -/
theorem classifyPart_joinHostPort {host port : List Char} (literal : LiteralText host)
    (portRead : (atoi port).2 = none) :
    classifyPart (joinHostPort host port) =
      if (atoi port).1 < 0 ∨ 65535 < (atoi port).1 then
        .error ("invalid port number: " ++ String.ofList port)
      else .ok (.appendCustomEndpoint (joinHostPort host port)) := by
  have hport := portText_of_atoi portRead
  simp [classifyPart, parsePrefix_of_not_slash (slash_not_mem_joinHostPort literal hport),
    splitHostPort_joinHostPort literal hport, portRead]

/-- `RunScan` takes an accepted part to its option. -/
theorem classifyPart_text {q : EndpointPart} (h : q.accepted = true) :
    classifyPart q.text = .ok q.option := by
  cases q with
  | cidr text p parses plain =>
    simp [classifyPart, EndpointPart.text, option, parses]
  | bare text addr parses literal =>
    have hslash : '/' ∉ text := literal.not_mem (by decide)
    have hsplit : ∃ e, splitHostPort text = .error e := by
      by_cases hc : ':' ∈ text
      · have hhead : text.head? ≠ some '[' := fun hh =>
          literal.no_brackets.1 (List.mem_of_mem_head? hh)
        exact ⟨_, splitHostPort_of_colons hhead (parseNetipAddr_colons literal hc parses)⟩
      · exact ⟨_, splitHostPort_of_not_colon hc⟩
    obtain ⟨e, he⟩ := hsplit
    simp [classifyPart, EndpointPart.text, option, parsePrefix_of_not_slash hslash, he, parses]
  | hostPort host port addr parses literal portRead =>
    have hrange : 0 ≤ (atoi port).1 ∧ (atoi port).1 ≤ 65535 := by
      simpa [accepted] using h
    rw [EndpointPart.text, classifyPart_joinHostPort literal portRead, if_neg (by omega), option]

/-- A `host:port` whose port is out of range ends `RunScan` with the port's text. -/
theorem classifyPart_rejected {q : EndpointPart} (h : q.accepted = false) :
    ∃ e, classifyPart q.text = .error e := by
  cases q with
  | cidr => simp [accepted] at h
  | bare => simp [accepted] at h
  | hostPort host port addr parses literal portRead =>
    have hrange : ¬(0 ≤ (atoi port).1 ∧ (atoi port).1 ≤ 65535) := by
      simpa [accepted] using h
    rw [EndpointPart.text, classifyPart_joinHostPort literal portRead, if_pos (by omega)]
    exact ⟨_, rfl⟩

/-! The loop over the parts, and what the options do to the scanner. -/

theorem endpointOptions_accepted (parts : List EndpointPart) (h : ∀ q ∈ parts, q.accepted = true) :
    endpointOptions (parts.map text) = .ok (parts.map option) := by
  induction parts with
  | nil => rfl
  | cons q parts ih =>
    obtain ⟨hq, hrest⟩ := List.forall_mem_cons.mp h
    rw [List.map_cons, endpointOptions]
    simp only [trimSpace_text, if_neg (text_plain q).1, classifyPart_text hq, bind_ok, ih hrest,
      map_ok, List.map_cons]

theorem endpointOptions_rejected (parts : List EndpointPart) (h : ∃ q ∈ parts, q.accepted = false) :
    ∃ e, endpointOptions (parts.map text) = .error e := by
  induction parts with
  | nil => simp at h
  | cons q parts ih =>
    rw [List.map_cons, endpointOptions]
    simp only [trimSpace_text, if_neg (text_plain q).1]
    cases hq : q.accepted
    · obtain ⟨e, he⟩ := classifyPart_rejected hq
      exact ⟨e, by rw [he, bind_error]⟩
    · have hrest : ∃ q ∈ parts, q.accepted = false :=
        ((List.exists_mem_cons_iff _ q parts).mp h).resolve_left (by simp [hq])
      obtain ⟨e, he⟩ := ih hrest
      rw [classifyPart_text hq, bind_ok, he]
      exact ⟨e, rfl⟩

theorem splitOn_texts {parts : List EndpointPart} (hne : parts ≠ []) :
    ([','].intercalate (parts.map text)).splitOn ',' = parts.map text := by
  apply List.splitOn_intercalate
  · intro l hl
    obtain ⟨q, -, rfl⟩ := List.mem_map.mp hl
    exact fun hc => ((text_plain q).2 ',' hc).1 rfl
  · simpa using hne

theorem runScanOptions_parts (v4 v6 : Bool) {parts : List EndpointPart} (hne : parts ≠ []) :
    runScanOptions ([','].intercalate (parts.map text)) v4 v6 =
      (endpointOptions (parts.map text)).map ([.useIPv4 v4, .useIPv6 v6] ++ ·) := by
  have hjoined : [','].intercalate (parts.map text) ≠ [] := by
    intro hnil
    obtain ⟨q, rest, rfl⟩ := List.exists_cons_of_ne_nil hne
    have hsplit := splitOn_texts hne
    rw [hnil, List.splitOn_nil, List.map_cons, List.cons.injEq] at hsplit
    exact (text_plain q).1 hsplit.1.symm
  rw [runScanOptions, if_neg hjoined, splitOn_texts hne]

variable (resolve : List Char → Option (List (List UInt8)))

/-- One accepted part appends its prefixes and, unless its port carries a sign, its
endpoints. -/
theorem apply_option {q : EndpointPart} (h : q.accepted = true) (o : ScannerOptions) :
    q.option.apply resolve o =
      { o with cidrList := o.cidrList ++ q.cidrs,
               customEndpoints := o.customEndpoints ++ if q.signedPort then [] else q.endpoints } := by
  cases q with
  | cidr text p parses plain => simp [option, ScanOption.apply, cidrs, signedPort, endpoints]
  | bare text addr parses literal =>
    have hzero : PortText ['0'] := by decide
    rw [option, ScanOption.apply, addEndpoint_of_not_comma _ _ (not_comma_joinHostPort literal hzero),
      addSingleEndpoint_joinHostPort _ _ literal parses hzero]
    simp [parseUint, parseUintValue, parseUintLoop, cutoff10, appendEndpoints, cidrs, signedPort,
      endpoints]
  | hostPort host port addr parses literal portRead =>
    have hport := portText_of_atoi portRead
    have hrange : 0 ≤ (atoi port).1 ∧ (atoi port).1 ≤ 65535 := by
      simpa [accepted] using h
    rw [option, ScanOption.apply, addEndpoint_of_not_comma _ _ (not_comma_joinHostPort literal hport),
      addSingleEndpoint_joinHostPort _ _ literal parses hport,
      parseUint_of_atoi portRead hrange.1 (by omega)]
    by_cases hsign : port.head? = some '+' ∨ port.head? = some '-'
    · have hs : signedPort (hostPort host port addr parses literal portRead) = true := by
        simpa [signedPort] using hsign
      simp [hsign, hs, cidrs]
    · have hs : signedPort (hostPort host port addr parses literal portRead) = false := by
        simpa [signedPort] using hsign
      simp [hsign, hs, cidrs, endpoints, appendEndpoints]

/-- The run over the options of accepted parts, from any options. -/
theorem foldl_apply_options (parts : List EndpointPart) (h : ∀ q ∈ parts, q.accepted = true)
    (o : ScannerOptions) :
    (parts.map option).foldl (fun o opt => opt.apply resolve o) o =
      { o with cidrList := o.cidrList ++ parts.flatMap cidrs,
               customEndpoints := o.customEndpoints ++
                 (parts.filter fun q => !q.signedPort).flatMap endpoints } := by
  induction parts generalizing o with
  | nil => simp
  | cons q parts ih =>
    obtain ⟨hq, hrest⟩ := List.forall_mem_cons.mp h
    rw [List.map_cons, List.foldl_cons, apply_option resolve hq, ih hrest]
    cases hs : q.signedPort <;> simp [hs]

end Parts

/-- `RunScan` on an `Endpoints` list of prefixes, IP literals and `host:port`
parts refuses it exactly when a port is out of range. Otherwise the scanner keeps the
prefixes in order and the addresses with their ports in order, except for the
`host:port` parts whose port carries a sign, which `addEndpoint` skips; with nothing
kept, it falls back to the default ranges. -/
theorem runScan_endpoints_scanned (resolve : List Char → Option (List (List UInt8)))
    (v4 v6 : Bool) (parts : List EndpointPart) (hne : parts ≠ []) :
    ((∃ e, runScanOptions ([','].intercalate (parts.map EndpointPart.text)) v4 v6 = .error e) ↔
        ∃ q ∈ parts, q.accepted = false) ∧
      ∀ os, runScanOptions ([','].intercalate (parts.map EndpointPart.text)) v4 v6 = .ok os →
        (newScanner resolve os).customEndpoints =
            (parts.filter fun q => !q.signedPort).flatMap EndpointPart.endpoints ∧
          (newScanner resolve os).cidrList =
            if parts.flatMap EndpointPart.cidrs = [] ∧
                (parts.filter fun q => !q.signedPort).flatMap EndpointPart.endpoints = [] then
              defaultCFRanges
            else parts.flatMap EndpointPart.cidrs := by
  rw [runScanOptions_parts v4 v6 hne]
  by_cases hall : ∀ q ∈ parts, q.accepted = true
  · rw [endpointOptions_accepted parts hall, map_ok]
    refine ⟨⟨?_, ?_⟩, ?_⟩
    · rintro ⟨e, he⟩
      cases he
    · rintro ⟨q, hq, hbad⟩
      rw [hall q hq] at hbad
      cases hbad
    · rintro os hos
      cases hos
      rw [newScanner_customEndpoints, newScanner_cidrList, List.foldl_append,
        foldl_apply_options resolve parts hall]
      simp only [List.foldl_cons, List.foldl_nil, ScanOption.apply, List.nil_append, true_and]
      rfl
  · have hbad : ∃ q ∈ parts, q.accepted = false := by
      simp only [not_forall, Bool.not_eq_true] at hall
      obtain ⟨q, hq, hfalse⟩ := hall
      exact ⟨q, hq, hfalse⟩
    obtain ⟨e, he⟩ := endpointOptions_rejected parts hbad
    rw [he, map_error]
    refine ⟨⟨fun _ => hbad, fun _ => ⟨e, rfl⟩⟩, ?_⟩
    rintro os hos
    cases hos

theorem runScan_drops_plus_port :
    runScanOptions ['1', '.', '1', '.', '1', '.', '1', ':', '5', '0', '0', ',',
        '1', '.', '2', '.', '3', '.', '4', ':', '+', '8', '0'] true false =
      .ok [.useIPv4 true, .useIPv6 false,
        .appendCustomEndpoint ['1', '.', '1', '.', '1', '.', '1', ':', '5', '0', '0'],
        .appendCustomEndpoint ['1', '.', '2', '.', '3', '.', '4', ':', '+', '8', '0']] ∧
    (newScanner (fun _ => none) [.useIPv4 true, .useIPv6 false,
        .appendCustomEndpoint ['1', '.', '1', '.', '1', '.', '1', ':', '5', '0', '0'],
        .appendCustomEndpoint ['1', '.', '2', '.', '3', '.', '4', ':', '+', '8', '0']]).customEndpoints =
      [⟨.v4 0x01010101, 500⟩] := by
  have hrun : runScanOptions ['1', '.', '1', '.', '1', '.', '1', ':', '5', '0', '0', ',',
        '1', '.', '2', '.', '3', '.', '4', ':', '+', '8', '0'] true false =
      .ok [.useIPv4 true, .useIPv6 false,
        .appendCustomEndpoint ['1', '.', '1', '.', '1', '.', '1', ':', '5', '0', '0'],
        .appendCustomEndpoint ['1', '.', '2', '.', '3', '.', '4', ':', '+', '8', '0']] := rfl
  refine ⟨hrun, ?_⟩
  have hscan := (runScan_endpoints_scanned (fun _ => none) true false
    [.hostPort ['1', '.', '1', '.', '1', '.', '1'] ['5', '0', '0'] (.v4 0x01010101)
        (by decide) (by decide) (by decide),
      .hostPort ['1', '.', '2', '.', '3', '.', '4'] ['+', '8', '0'] (.v4 0x01020304)
        (by decide) (by decide) (by decide)] (by simp)).2 _ hrun
  exact hscan.1.trans (by decide)

end Wiresocks
