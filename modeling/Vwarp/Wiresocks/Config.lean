import Vwarp.Device.Uapi

/-!
# The WireGuard configuration

`wiresocks.Configuration` as `ParseConfig` returns it: the keys are the hex
text `EncodeBase64ToHex` makes of the base64 in the file, the endpoint is
the text as written, the allowed IPs are parsed prefixes. The ini reader
itself is not part of the repository; a configuration is any value of these
types. `ParseReserved` reads the `Reserved` key with the same `d,d,d`
grammar as the UAPI `reserved` key, and takes three random bytes for
`random`. The interface's addresses, DNS servers and MTU and the peer's
`Trick` flag are read by nothing modelled and left out.
-/

namespace Wiresocks

open GoText ExceptStep Netip Uapi

structure PeerConfig where
  publicKey : String := ""
  preSharedKey : String := ""
  endpoint : String := ""
  keepAlive : Int := 0
  allowedIPs : List Prefix := []
  /-- A `[3]byte`. -/
  reserved : List UInt8 := [0, 0, 0]
  reserved_length : reserved.length = 3 := by decide
  deriving DecidableEq

structure InterfaceConfig where
  privateKey : String := ""
  deriving DecidableEq, Repr

structure Configuration where
  interface : InterfaceConfig
  peers : List PeerConfig
  deriving DecidableEq

/-- The errors of `ParseReserved`; `%w` keeps Atoi's. -/
inductive ReservedError where
  | format
  | number (e : NumError)
  deriving DecidableEq, Repr

/-- `ParseReserved`; `draw` is what `rand.Read` fills the array with. -/
def parseReserved (draw : UInt8 × UInt8 × UInt8) (str : String) : Except ReservedError (List UInt8) :=
  if str = "random" then .ok [draw.1, draw.2.1, draw.2.2]
  else reservedTriple .format .number str.toList

/-- `reservedTriple` succeeds or fails, and with which bytes, whatever its
errors are. -/
theorem reservedTriple_toOption {ε ε' : Type} (a : ε) (f : NumError → ε) (a' : ε')
    (f' : NumError → ε') (s : List Char) :
    (reservedTriple a f s).toOption = (reservedTriple a' f' s).toOption := by
  unfold reservedTriple
  dsimp only
  by_cases hlen : (s.splitOn ',').length ≠ 3
  · rw [if_pos hlen, if_pos hlen]
    rfl
  · rw [if_neg hlen, if_neg hlen]
    apply mapM_toOption
    intro val _
    rcases atoi val with ⟨parsed, _ | e⟩
    · dsimp only
      split <;> rfl
    · rfl

/-- Outside `random`, `ParseReserved` and the device's `reserved` key accept
the same strings, with the same bytes. -/
theorem parseReserved_toOption (draw : UInt8 × UInt8 × UInt8) {str : String} (h : str ≠ "random") :
    (parseReserved draw str).toOption =
      (reservedTriple (IpcError.reserved str.toList) (fun _ => .reserved str.toList) str.toList).toOption := by
  rw [parseReserved, if_neg h]
  exact reservedTriple_toOption _ _ _ _ _

end Wiresocks
