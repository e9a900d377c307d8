import EmuChef.Artifact.SourceUrl

/-! The downloads of `artifact_transport`, one request a hop, each recorded with the addresses that
its client may connect to where no proxy is configured. -/

namespace EmuChef.Artifact.Transport

inductive IpAddr where
  | v4 (address : Ipv4Addr)
  | v6 (address : Ipv6Addr)
  deriving DecidableEq

def isPublicIp : IpAddr → Bool
  | .v4 address => !ipv4IsNonPublic address
  | .v6 address => !ipv6IsNonPublic address

inductive RedirectPolicy where
  | existing
  | publicHttps
  deriving DecidableEq

structure UrlOperations extends UrlLibrary where
  join : Url → String → Option Url
  hostStr : Url → Option String
  portOrKnownDefault : Url → Option Nat

structure Response where
  status : Nat
  location : Option (Option String)
  contentLength : Option Nat
  headers : List (String × String)
  /-- What reading at most so many bytes of the body gives. -/
  read : Nat → Except ArtifactResolveError (List UInt8)
  /-- What writing the whole body to the destination gives. -/
  stream : Except ArtifactResolveError Nat

/-- A client connects to the addresses of its override for that host, and elsewhere resolves again. -/
structure Client where
  resolveToAddrs : Option (String × List IpAddr)

/-- What the clock, the resolver, the client library and the server do during one hop. -/
structure Hop where
  inTime : Bool
  toSocketAddrs : String → Option (List IpAddr)
  builds : Bool
  resolveAgain : String → List IpAddr
  send : Url → Except ArtifactResolveError Response
  inTimeAfterBody : Bool

structure SentRequest where
  url : Url
  addresses : List IpAddr
  deriving DecidableEq

structure DownloadMetadata where
  bytesWritten : Nat
  contentLength : Option Nat
  observedFinalUrl : String
  deriving DecidableEq

structure MetadataResponse where
  body : List UInt8
  headers : List (String × String)
  finalUrl : Url
  deriving DecidableEq

def maxRedirects : Nat := 5

variable (urls : UrlOperations)

def publicHttpsAddresses (hop : Hop) (url : Url) : Except ArtifactResolveError (List IpAddr) :=
  match url.host with
  | none => .error .redirectPolicyRejected
  | some (.ipv4 address) =>
      if isPublicIp (.v4 address) then .ok [.v4 address] else .error .redirectPolicyRejected
  | some (.ipv6 address) =>
      if isPublicIp (.v6 address) then .ok [.v6 address] else .error .redirectPolicyRejected
  | some (.domain host) =>
      match hop.toSocketAddrs host with
      | none => .error .downloadFailed
      | some resolved =>
          if resolved = [] ∨ (resolved.any fun address => !isPublicIp address) = true then
            .error .redirectPolicyRejected
          else .ok resolved

def isDomain : Option Host → Bool
  | some (.domain _) => true
  | _ => false

def publicHttpsClient (hop : Hop) (url : Url) : Except ArtifactResolveError Client :=
  match urls.hostStr url with
  | none => .error .redirectPolicyRejected
  | some host =>
      match publicHttpsAddresses hop url with
      | .error error => .error error
      | .ok addresses =>
          if hop.builds then
            .ok { resolveToAddrs := if isDomain url.host then some (host, addresses) else none }
          else .error .downloadFailed

/-- The addresses that a client may connect to for a URL: an address that is the host itself, the
override for the host, or what the client resolves. -/
def Client.connects (client : Client) (hop : Hop) (url : Url) : List IpAddr :=
  match url.host with
  | none => []
  | some (.ipv4 address) => [.v4 address]
  | some (.ipv6 address) => [.v6 address]
  | some (.domain domain) =>
      match client.resolveToAddrs with
      | some (host, addresses) =>
          if urls.hostStr url = some host then addresses else hop.resolveAgain domain
      | none => hop.resolveAgain domain

structure RedirectState where
  redirects : Nat
  visited : List String
  deriving DecidableEq

def validateRedirect (currentUrl nextUrl : Url) (state : RedirectState) (policy : RedirectPolicy) :
    Except ArtifactResolveError RedirectState :=
  if nextUrl.scheme ≠ "http" ∧ nextUrl.scheme ≠ "https" then
    .error (.schemeUnsupported nextUrl.scheme)
  else if currentUrl.scheme = "https" ∧ nextUrl.scheme = "http" then
    .error .redirectDowngradeRejected
  else if policy = .publicHttps ∧ parsePublicHttpsUrl urls.toUrlLibrary nextUrl.text = none then
    .error .redirectPolicyRejected
  else if maxRedirects < state.redirects + 1 ∨ nextUrl.text ∈ state.visited then
    .error (.redirectLimitExceeded (state.redirects + 1))
  else .ok { redirects := state.redirects + 1, visited := state.visited ++ [nextUrl.text] }

def eqIgnoreAsciiCase (left right : String) : Bool :=
  left.toList.map Char.toLower = right.toList.map Char.toLower

def sameOrigin (left right : Url) : Bool :=
  left.scheme = right.scheme &&
    ((urls.hostStr left).any fun host =>
      (urls.hostStr right).any fun nextHost => eqIgnoreAsciiCase host nextHost) &&
    urls.portOrKnownDefault left = urls.portOrKnownDefault right

def Response.isRedirection (response : Response) : Bool :=
  300 ≤ response.status && response.status ≤ 399

def Response.isSuccess (response : Response) : Bool :=
  200 ≤ response.status && response.status ≤ 299

def redirectTarget (currentUrl : Url) (response : Response) : Except ArtifactResolveError Url :=
  match response.location with
  | some (some location) =>
      match urls.join currentUrl location with
      | some nextUrl => .ok nextUrl
      | none => .error .downloadFailed
  | _ => .error .downloadFailed

section

structure Transfer where
  currentUrl : Url
  redirect : RedirectState
  sent : List SentRequest
  deriving DecidableEq

def Transfer.start (initialUrl : Url) : Transfer :=
  { currentUrl := initialUrl
    redirect := { redirects := 0, visited := [initialUrl.text] }
    sent := [] }

inductive Progress (α : Type) where
  | redirected (transfer : Transfer)
  | finished (sent : List SentRequest) (result : Except ArtifactResolveError α)

variable {α : Type}

def sendRequest (policy : RedirectPolicy) (mayFollow : Url → Bool)
    (finish : Response → Except ArtifactResolveError α) (hop : Hop) (client : Client)
    (transfer : Transfer) : Progress α :=
  let sent := transfer.sent ++
    [{ url := transfer.currentUrl, addresses := client.connects urls hop transfer.currentUrl }]
  match hop.send transfer.currentUrl with
  | .error error => .finished sent (.error error)
  | .ok response =>
      if response.isRedirection then
        match redirectTarget urls transfer.currentUrl response with
        | .error error => .finished sent (.error error)
        | .ok nextUrl =>
            match validateRedirect urls transfer.currentUrl nextUrl transfer.redirect policy with
            | .error error => .finished sent (.error error)
            | .ok redirect =>
                if mayFollow nextUrl then
                  .redirected { currentUrl := nextUrl, redirect := redirect, sent := sent }
                else .finished sent (.error .redirectPolicyRejected)
      else if response.isSuccess then .finished sent (finish response)
      else .finished sent (.error (.httpStatus response.status))

def streamResponse (finalUrl : Url) (response : Response) :
    Except ArtifactResolveError DownloadMetadata :=
  response.stream.map fun bytesWritten =>
    { bytesWritten := bytesWritten
      contentLength := response.contentLength
      observedFinalUrl := finalUrl.text }

def downloadHop (policy : RedirectPolicy) (hop : Hop) (transfer : Transfer) :
    Progress DownloadMetadata :=
  if hop.inTime = false then .finished transfer.sent (.error .requestTimeout)
  else
    match policy with
    | .existing =>
        sendRequest urls policy (fun _ => true) (streamResponse transfer.currentUrl) hop
          { resolveToAddrs := none } transfer
    | .publicHttps =>
        match publicHttpsClient urls hop transfer.currentUrl with
        | .error error => .finished transfer.sent (.error error)
        | .ok client =>
            sendRequest urls policy (fun _ => true) (streamResponse transfer.currentUrl) hop client
              transfer

def metadataBody (maxBytes : Nat) (hop : Hop) (finalUrl : Url) (response : Response) :
    Except ArtifactResolveError MetadataResponse :=
  if (response.contentLength.any fun length => maxBytes < length) = true then
    .error .responseTooLarge
  else
    match response.read (maxBytes + 1) with
    | .error error => .error error
    | .ok body =>
        if maxBytes < body.length then .error .responseTooLarge
        else if (response.contentLength.any fun expected => expected ≠ body.length) = true then
          .error .responseIncomplete
        else if hop.inTimeAfterBody = false then .error .requestTimeout
        else .ok { body := body, headers := response.headers, finalUrl := finalUrl }

/-- One turn of the loop of `get_public_metadata`, where the client comes before the clock. -/
def metadataHop (maxBytes : Nat) (hop : Hop) (transfer : Transfer) : Progress MetadataResponse :=
  match publicHttpsClient urls hop transfer.currentUrl with
  | .error error => .finished transfer.sent (.error error)
  | .ok client =>
      if hop.inTime = false then .finished transfer.sent (.error .requestTimeout)
      else
        sendRequest urls .publicHttps (sameOrigin urls transfer.currentUrl)
          (metadataBody maxBytes hop transfer.currentUrl) hop client transfer

def follow (turn : Hop → Transfer → Progress α) :
    Nat → (Nat → Hop) → Transfer → Option (List SentRequest × Except ArtifactResolveError α)
  | 0, _, _ => none
  | fuel + 1, hops, transfer =>
      match turn (hops 0) transfer with
      | .finished sent result => some (sent, result)
      | .redirected transfer => follow turn fuel (fun index => hops (index + 1)) transfer

def downloadWithPolicy (fuel : Nat) (hops : Nat → Hop) (initialUrl : Url) (policy : RedirectPolicy) :
    Option (List SentRequest × Except ArtifactResolveError DownloadMetadata) :=
  if policy = .publicHttps ∧ parsePublicHttpsUrl urls.toUrlLibrary initialUrl.text = none then
    some ([], .error .redirectPolicyRejected)
  else follow (downloadHop urls policy) fuel hops (Transfer.start initialUrl)

def getPublicMetadata (fuel : Nat) (hops : Nat → Hop) (initialUrl : Url) (maxBytes : Nat) :
    Option (List SentRequest × Except ArtifactResolveError MetadataResponse) :=
  if parsePublicHttpsUrl urls.toUrlLibrary initialUrl.text = none then
    some ([], .error .redirectPolicyRejected)
  else follow (metadataHop urls maxBytes) fuel hops (Transfer.start initialUrl)

end

end EmuChef.Artifact.Transport
