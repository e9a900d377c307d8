import EmuChef.Artifact.LocalName
import EmuChef.Planner.Bindings

/-! The source URLs that the resolver accepts. A URL library parses them. -/

namespace EmuChef.Artifact

open Split (stripLead)
open Planner (trim)

structure Ipv4Addr where
  first : UInt8
  second : UInt8
  third : UInt8
  fourth : UInt8
  deriving DecidableEq

structure Ipv6Addr where
  segments : Vector UInt16 8
  deriving DecidableEq

inductive Host where
  | domain (name : String)
  | ipv4 (address : Ipv4Addr)
  | ipv6 (address : Ipv6Addr)
  deriving DecidableEq

namespace Ipv4Addr

variable (address : Ipv4Addr)

def isPrivate : Bool :=
  address.first = 10 || (address.first = 172 && 16 ≤ address.second && address.second ≤ 31) ||
    (address.first = 192 && address.second = 168)

def isLoopback : Bool := address.first = 127

def isLinkLocal : Bool := address.first = 169 && address.second = 254

def isUnspecified : Bool := address = ⟨0, 0, 0, 0⟩

def isMulticast : Bool := 224 ≤ address.first && address.first ≤ 239

def isBroadcast : Bool := address = ⟨255, 255, 255, 255⟩

def isDocumentation : Bool :=
  (address.first = 192 && address.second = 0 && address.third = 2) ||
    (address.first = 198 && address.second = 51 && address.third = 100) ||
    (address.first = 203 && address.second = 0 && address.third = 113)

end Ipv4Addr

def ipv4IsNonPublic (address : Ipv4Addr) : Bool :=
  address.isPrivate || address.isLoopback || address.isLinkLocal || address.isUnspecified ||
    address.first = 0 || address.isMulticast || address.isBroadcast || address.isDocumentation ||
    (address.first = 100 && 64 ≤ address.second && address.second ≤ 127) ||
    (address.first = 192 && address.second = 0) ||
    (address.first = 198 && (address.second = 18 || address.second = 19)) ||
    240 ≤ address.first

def Ipv6Addr.toIpv4Mapped (address : Ipv6Addr) : Option Ipv4Addr :=
  let segments := address.segments
  if segments.toList.take 6 = [0, 0, 0, 0, 0, 0xFFFF] then
    some ⟨(segments[6] >>> 8).toUInt8, segments[6].toUInt8, (segments[7] >>> 8).toUInt8,
      segments[7].toUInt8⟩
  else none

def ipv6IsNonPublic (address : Ipv6Addr) : Bool :=
  let segments := address.segments
  segments.toList = [0, 0, 0, 0, 0, 0, 0, 1] || segments.toList = List.replicate 8 0 ||
    segments[0] &&& 0xFF00 = 0xFF00 || address.toIpv4Mapped.any ipv4IsNonPublic ||
    segments[0] &&& 0xFE00 = 0xFC00 || segments[0] &&& 0xFFC0 = 0xFE80 ||
    segments[0] &&& 0xFFC0 = 0xFEC0 || (segments[0] = 0x2001 && segments[1] = 0x0DB8) ||
    (segments[0] = 0x3FFF && segments[1] &&& 0xF000 = 0)

def trimDots (text : List Char) : List Char := (text.reverse.dropWhile (· = '.')).reverse

def hostIsNonPublic : Host → Bool
  | .domain name =>
      let name := trimDots (trim name).toList
      name.isEmpty || name.map Char.toLower = "localhost".toList ||
        ".localhost".toList.isSuffixOf name
  | .ipv4 address => ipv4IsNonPublic address
  | .ipv6 address => ipv6IsNonPublic address

structure Url where
  text : String
  scheme : String
  host : Option Host
  username : String
  hasPassword : Bool
  path : String
  hasQuery : Bool
  hasFragment : Bool
  deriving DecidableEq

structure UrlLibrary where
  parse : String → Option Url

def parsePublicHttpsUrl (library : UrlLibrary) (value : String) : Option Url :=
  (library.parse value).bind fun parsed => parsed.host.bind fun host =>
    if parsed.scheme = "https" ∧ hostIsNonPublic host = false ∧ parsed.username = "" ∧
        parsed.hasPassword = false ∧ parsed.hasFragment = false then some parsed
    else none

def isPublicHttpsUrl (library : UrlLibrary) (value : String) : Bool :=
  (parsePublicHttpsUrl library value).isSome

def isServiceOrigin (library : UrlLibrary) (value : String) : Bool :=
  (parsePublicHttpsUrl library value).any fun parsed =>
    !parsed.hasQuery && (parsed.path = "" || parsed.path = "/")

/-- The errors of a transfer. Connecting, the certificates and the destination file fail where a
request is sent or a body is written. -/
inductive ArtifactResolveError where
  | schemeUnsupported (scheme : String)
  | downloadFailed
  | httpStatus (status : Nat)
  | redirectLimitExceeded (redirects : Nat)
  | redirectDowngradeRejected
  | redirectPolicyRejected
  | connectTimeout
  | requestTimeout
  | tlsVerificationFailed
  | responseIncomplete
  | responseTooLarge
  | cacheWriteFailed
  deriving DecidableEq

inductive ResolveStop where
  | panicked
  deriving DecidableEq

def fileUrlToPath (url : String) : Except ResolveStop (Option String) :=
  match stripLead "file://".toList url.toList with
  | none => .ok none
  | some rest =>
      let path := if rest.head? = some '/' then rest else rest.dropWhile (· ≠ '/')
      if path = [] then .ok none
      else match percentDecode path with
        | some path => .ok (some path)
        | none => .error .panicked

end EmuChef.Artifact
