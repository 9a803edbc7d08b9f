import Mathlib.Data.BitVec
import Membrane.Foundation.Dict

/-!
# The outbound URL policy

Requests to other nodes may only leave for addresses that are not in a private,
loopback, link-local, multicast, reserved or unspecified range, unless the operator
allows the network or the host.  The ranges are those of the address library of
Python 3.14.  How a URL is taken apart is a parameter, and so are the answers of the
name resolution.
-/

namespace Membrane
namespace Network

/-!
# Addresses and networks
-/

inductive IPAddress where
  | v4 (bits : BitVec 32)
  | v6 (bits : BitVec 128) (scopeId : Option String)
  deriving DecidableEq

inductive IPNetwork where
  | v4 (address : BitVec 32) (prefixLength : Nat)
  | v6 (address : BitVec 128) (prefixLength : Nat)
  deriving DecidableEq

def agreeOn {width : Nat} (length : Nat) (x y : BitVec width) : Bool :=
  x >>> (width - length) == y >>> (width - length)

/-- An address is in a network of its own version if their first bits agree. -/
def IPNetwork.contains : IPNetwork -> IPAddress -> Bool
  | .v4 address length, .v4 bits => agreeOn length bits address
  | .v6 address length, .v6 bits _ => agreeOn length bits address
  | _, _ => false

def quad (a b c d : Nat) : BitVec 32 :=
  BitVec.ofNat 32 (((a * 256 + b) * 256 + c) * 256 + d)

def groups (a b c last : Nat) : BitVec 128 :=
  BitVec.ofNat 128 (((a * 65536 + b) * 65536 + c) * 2 ^ 80 + last)

namespace IPv4

def privateNetworks : List (BitVec 32 × Nat) :=
  [(quad 0 0 0 0, 8), (quad 10 0 0 0, 8), (quad 127 0 0 0, 8), (quad 169 254 0 0, 16),
    (quad 172 16 0 0, 12), (quad 192 0 0 0, 24), (quad 192 0 0 170, 31),
    (quad 192 0 2 0, 24), (quad 192 168 0 0, 16), (quad 198 18 0 0, 15),
    (quad 198 51 100 0, 24), (quad 203 0 113 0, 24), (quad 240 0 0 0, 4),
    (quad 255 255 255 255, 32)]

def privateExceptions : List (BitVec 32 × Nat) :=
  [(quad 192 0 0 9, 32), (quad 192 0 0 10, 32)]

def isPrivate (bits : BitVec 32) : Bool :=
  privateNetworks.any (fun net => agreeOn net.2 bits net.1) &&
    privateExceptions.all (fun net => !agreeOn net.2 bits net.1)

def isLoopback (bits : BitVec 32) : Bool := agreeOn 8 bits (quad 127 0 0 0)

def isLinkLocal (bits : BitVec 32) : Bool := agreeOn 16 bits (quad 169 254 0 0)

def isMulticast (bits : BitVec 32) : Bool := agreeOn 4 bits (quad 224 0 0 0)

def isUnspecified (bits : BitVec 32) : Bool := bits == quad 0 0 0 0

def isReserved (bits : BitVec 32) : Bool := agreeOn 4 bits (quad 240 0 0 0)

def isBlocked (bits : BitVec 32) : Bool :=
  isPrivate bits || isLoopback bits || isLinkLocal bits || isMulticast bits ||
    isUnspecified bits || isReserved bits

end IPv4

namespace IPv6

def privateNetworks : List (BitVec 128 × Nat) :=
  [(groups 0 0 0 1, 128), (groups 0 0 0 0, 128), (groups 0 0 0 0xffff00000000, 96),
    (groups 0x64 0xff9b 1 0, 48), (groups 0x100 0 0 0, 64), (groups 0x2001 0 0 0, 23),
    (groups 0x2001 0xdb8 0 0, 32), (groups 0x2002 0 0 0, 16), (groups 0x3fff 0 0 0, 20),
    (groups 0xfc00 0 0 0, 7), (groups 0xfe80 0 0 0, 10)]

def privateExceptions : List (BitVec 128 × Nat) :=
  [(groups 0x2001 1 0 1, 128), (groups 0x2001 1 0 2, 128), (groups 0x2001 3 0 0, 32),
    (groups 0x2001 4 0x112 0, 48), (groups 0x2001 0x20 0 0, 28),
    (groups 0x2001 0x30 0 0, 28)]

def reservedNetworks : List (BitVec 128 × Nat) :=
  [(groups 0 0 0 0, 8), (groups 0x100 0 0 0, 8), (groups 0x200 0 0 0, 7),
    (groups 0x400 0 0 0, 6), (groups 0x800 0 0 0, 5), (groups 0x1000 0 0 0, 4),
    (groups 0x4000 0 0 0, 3), (groups 0x6000 0 0 0, 3), (groups 0x8000 0 0 0, 3),
    (groups 0xa000 0 0 0, 3), (groups 0xc000 0 0 0, 3), (groups 0xe000 0 0 0, 4),
    (groups 0xf000 0 0 0, 5), (groups 0xf800 0 0 0, 6), (groups 0xfe00 0 0 0, 9)]

def ipv4Mapped (bits : BitVec 128) : Option (BitVec 32) :=
  if agreeOn 96 bits (groups 0 0 0 0xffff00000000) then some (bits.truncate 32) else none

def isPrivate (bits : BitVec 128) : Bool :=
  privateNetworks.any (fun net => agreeOn net.2 bits net.1) &&
    privateExceptions.all (fun net => !agreeOn net.2 bits net.1)

/-- A mapped address is judged as the IPv4 address it stands for. -/
def isBlocked (bits : BitVec 128) : Bool :=
  match ipv4Mapped bits with
  | some mapped => IPv4.isBlocked mapped
  | none =>
    isPrivate bits || bits == groups 0 0 0 1 || agreeOn 10 bits (groups 0xfe80 0 0 0) ||
      agreeOn 8 bits (groups 0xff00 0 0 0) || bits == groups 0 0 0 0 ||
      reservedNetworks.any (fun net => agreeOn net.2 bits net.1)

end IPv6

def isBlockedIp : IPAddress -> Bool
  | .v4 bits => IPv4.isBlocked bits
  | .v6 bits _ => IPv6.isBlocked bits

/-!
# The policy
-/

structure URLAllowlist where
  allowlist : Finset String
  blockPrivate : Bool
  allowedNetworks : List IPNetwork

def URLAllowlist.isIpAllowed (policy : URLAllowlist) (ip : IPAddress) : Bool :=
  policy.allowedNetworks.any (fun net => net.contains ip)

structure ParsedUrl where
  scheme : String
  hostname : Option String
  /-- Reading a port that is not a number or out of range raises. -/
  port : Except String (Option Nat)
  path : String

/-- Taking URLs apart and lower-casing. -/
class UrlParser where
  urlparse : String -> Except String ParsedUrl
  lower : String -> String
  lower_empty : lower "" = ""

@[reducible] def UrlParser.single (parsed : ParsedUrl) : UrlParser where
  urlparse _ := .ok parsed
  lower s := s
  lower_empty := rfl

inductive ResolveError where
  | gaierror (message : String)
  | os (message : String)
  | other (message : String)
  deriving DecidableEq

abbrev Resolution := Except ResolveError (List IPAddress)

inductive SSRFError where
  | emptyUrl
  | malformedUrl (message : String)
  | schemeNotAllowed (scheme : String)
  | missingHost
  | dnsResolutionFailed (host message : String)
  | noAddresses (host : String)
  | blockedAddress (host : String) (ip : IPAddress)
  deriving DecidableEq

inductive OutboundError where
  | ssrf (e : SSRFError)
  | resolve (e : ResolveError)
  deriving DecidableEq

namespace URLAllowlist

variable (policy : URLAllowlist)

def Permits (ip : IPAddress) : Prop :=
  isBlockedIp ip = false ∨ policy.isIpAllowed ip = true

instance (ip : IPAddress) : Decidable (policy.Permits ip) :=
  inferInstanceAs (Decidable (_ ∨ _))

variable [UrlParser]

def isHostAllowed (hostname : String) : Bool :=
  decide (UrlParser.lower hostname ∈ policy.allowlist)

def checkAddresses (host : String) : Resolution -> Except OutboundError Unit
  | .error (.gaierror message) =>
    .error (.ssrf (.dnsResolutionFailed host message))
  | .error e => .error (.resolve e)
  | .ok [] => .error (.ssrf (.noAddresses host))
  | .ok addresses =>
    match addresses.find? (fun ip => isBlockedIp ip && !policy.isIpAllowed ip) with
    | some ip => .error (.ssrf (.blockedAddress host ip))
    | none => .ok ()

def allowedSchemes : List String := ["http", "https"]

def validateOutboundUrl (resolve : String -> Resolution) (url : String) :
    Except OutboundError String :=
  if url = "" then .error (.ssrf .emptyUrl)
  else
    match UrlParser.urlparse url with
    | .error message => .error (.ssrf (.malformedUrl message))
    | .ok parsed =>
      if UrlParser.lower parsed.scheme ∉ allowedSchemes then
        .error (.ssrf (.schemeNotAllowed parsed.scheme))
      else
        let host := UrlParser.lower (parsed.hostname.getD "")
        if host = "" then .error (.ssrf .missingHost)
        else if policy.isHostAllowed host then .ok url
        else if ¬ policy.blockPrivate then .ok url
        else (policy.checkAddresses host (resolve host)).map (fun _ => url)

theorem validateOutboundUrl_eq_ok {policy : URLAllowlist} {resolve : String -> Resolution}
    {url validated : String} (h : policy.validateOutboundUrl resolve url = .ok validated) :
    validated = url ∧ exists parsed, UrlParser.urlparse url = .ok parsed ∧
      parsed.hostname.getD "" ≠ "" := by
  unfold validateOutboundUrl at h
  by_cases hurl : url = ""
  · rw [if_pos hurl] at h
    cases h
  rw [if_neg hurl] at h
  cases hparsed : UrlParser.urlparse url with
  | error message =>
    rw [hparsed] at h
    cases h
  | ok parsed =>
    simp only [hparsed] at h
    by_cases hscheme : UrlParser.lower parsed.scheme ∉ allowedSchemes
    · rw [if_pos hscheme] at h
      cases h
    rw [if_neg hscheme] at h
    by_cases hempty : UrlParser.lower (parsed.hostname.getD "") = ""
    · rw [if_pos hempty] at h
      cases h
    rw [if_neg hempty] at h
    refine ⟨?_, parsed, rfl, fun hhost => hempty (by rw [hhost, UrlParser.lower_empty])⟩
    cases hchecked : policy.checkAddresses (UrlParser.lower (parsed.hostname.getD ""))
        (resolve (UrlParser.lower (parsed.hostname.getD ""))) with
    | error e | ok _ =>
      simp only [hchecked, Except.map] at h
      split_ifs at h <;> cases h <;> rfl

end URLAllowlist

end Network
end Membrane
