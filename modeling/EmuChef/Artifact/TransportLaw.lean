import EmuChef.Artifact.Transport

/-! Where the requests of a public download go, and which addresses pass for public. -/

namespace EmuChef.Artifact.Transport

variable (urls : UrlOperations)

section

structure PublicRequest (request : SentRequest) : Prop where
  named : (urls.hostStr request.url).isSome = true
  accepted : parsePublicHttpsUrl urls.toUrlLibrary request.url.text ≠ none
  publicAddresses : ∀ address ∈ request.addresses, isPublicIp address = true

/-- The requests of one transfer: public, to different URLs, and at most five after the first. -/
structure PublicRequests (sent : List SentRequest) : Prop where
  each : ∀ request ∈ sent, PublicRequest urls request
  different : (sent.map fun request => request.url.text).Nodup
  bounded : sent.length ≤ maxRedirects + 1

variable {urls} {hop : Hop} {url : Url}

theorem publicHttpsAddresses_public {addresses : List IpAddr}
    (allowed : publicHttpsAddresses hop url = .ok addresses) :
    ∀ address ∈ addresses, isPublicIp address = true := by
  unfold publicHttpsAddresses at allowed
  split at allowed
  next => cases allowed
  next address _ =>
    split_ifs at allowed with isPublic
    cases allowed
    simpa using isPublic
  next address _ =>
    split_ifs at allowed with isPublic
    cases allowed
    simpa using isPublic
  next host _ =>
    split at allowed
    next => cases allowed
    next resolved _ =>
      split_ifs at allowed with rejected
      cases allowed
      rw [not_or] at rejected
      simpa using rejected.2

theorem publicHttpsClient_connects {client : Client}
    (built : publicHttpsClient urls hop url = .ok client) :
    ∃ addresses, publicHttpsAddresses hop url = .ok addresses ∧
      client.connects urls hop url = addresses := by
  unfold publicHttpsClient at built
  split at built
  next => cases built
  next host named =>
    split at built
    next => cases built
    next addresses allowed =>
      by_cases builds : hop.builds = true
      swap
      · rw [if_neg builds] at built
        cases built
      rw [if_pos builds] at built
      cases built
      refine ⟨addresses, allowed, ?_⟩
      unfold publicHttpsAddresses at allowed
      unfold Client.connects
      cases target : url.host with
      | none =>
          rw [target] at allowed
          cases allowed
      | some host =>
          rw [target] at allowed
          cases host with
          | ipv4 address =>
              change (if _ then _ else _) = _ at allowed
              split_ifs at allowed
              cases allowed
              rfl
          | ipv6 address =>
              change (if _ then _ else _) = _ at allowed
              split_ifs at allowed
              cases allowed
              rfl
          | domain name =>
              change (if urls.hostStr url = some _ then addresses else _) = addresses
              rw [if_pos named]

theorem publicHttpsClient_public {client : Client}
    (built : publicHttpsClient urls hop url = .ok client) :
    ∀ address ∈ client.connects urls hop url, isPublicIp address = true := by
  obtain ⟨addresses, allowed, connects⟩ := publicHttpsClient_connects built
  rw [connects]
  exact publicHttpsAddresses_public allowed

theorem publicHttpsClient_named {client : Client}
    (built : publicHttpsClient urls hop url = .ok client) : (urls.hostStr url).isSome = true := by
  unfold publicHttpsClient at built
  split at built
  next => cases built
  next host named => simp [named]

theorem validateRedirect_ok {currentUrl nextUrl : Url} {state state' : RedirectState}
    {policy : RedirectPolicy}
    (valid : validateRedirect urls currentUrl nextUrl state policy = .ok state') :
    (policy = .publicHttps → parsePublicHttpsUrl urls.toUrlLibrary nextUrl.text ≠ none) ∧
      state.redirects + 1 ≤ maxRedirects ∧ nextUrl.text ∉ state.visited ∧
      state' =
        { redirects := state.redirects + 1, visited := state.visited ++ [nextUrl.text] } := by
  unfold validateRedirect at valid
  split_ifs at valid with unsupported downgraded rejected repeated
  cases valid
  obtain ⟨fewer, fresh⟩ := not_or.mp repeated
  refine ⟨fun isPublic refused => rejected ⟨isPublic, refused⟩, Nat.le_of_not_lt fewer, fresh, rfl⟩

end

section

variable {urls} {left middle right : Url}

theorem eqIgnoreAsciiCase_trans {left middle right : String}
    (first : eqIgnoreAsciiCase left middle = true)
    (second : eqIgnoreAsciiCase middle right = true) : eqIgnoreAsciiCase left right = true := by
  simp only [eqIgnoreAsciiCase, decide_eq_true_eq] at *
  rw [first, second]

theorem sameOrigin_iff : sameOrigin urls left right = true ↔ left.scheme = right.scheme ∧
    (∃ host nextHost, urls.hostStr left = some host ∧ urls.hostStr right = some nextHost ∧
      eqIgnoreAsciiCase host nextHost = true) ∧
    urls.portOrKnownDefault left = urls.portOrKnownDefault right := by
  simp only [sameOrigin, Bool.and_eq_true, decide_eq_true_eq, Option.any_eq_true, and_assoc]
  constructor
  · rintro ⟨scheme, ⟨host, named, nextHost, nextNamed, same⟩, port⟩
    exact ⟨scheme, ⟨host, nextHost, named, nextNamed, same⟩, port⟩
  · rintro ⟨scheme, ⟨host, nextHost, named, nextNamed, same⟩, port⟩
    exact ⟨scheme, ⟨host, named, nextHost, nextNamed, same⟩, port⟩

theorem sameOrigin_refl (named : (urls.hostStr left).isSome = true) :
    sameOrigin urls left left = true := by
  obtain ⟨host, named⟩ := Option.isSome_iff_exists.mp named
  rw [sameOrigin_iff]
  exact ⟨rfl, ⟨host, host, named, named, by simp [eqIgnoreAsciiCase]⟩, rfl⟩

theorem sameOrigin_trans (first : sameOrigin urls left middle = true)
    (second : sameOrigin urls middle right = true) : sameOrigin urls left right = true := by
  rw [sameOrigin_iff] at *
  obtain ⟨scheme, ⟨host, nextHost, named, nextNamed, same⟩, port⟩ := first
  obtain ⟨scheme', ⟨host', nextHost', named', nextNamed', same'⟩, port'⟩ := second
  rw [nextNamed] at named'
  cases named'
  exact ⟨scheme.trans scheme', ⟨host, nextHost', named, nextNamed',
    eqIgnoreAsciiCase_trans same same'⟩, port.trans port'⟩

end

section

variable {α : Type}

/-- What holds of a public transfer before every hop; `reach` is what else is known of its URLs. -/
structure TransferSafe (reach : Url → Prop) (transfer : Transfer) : Prop where
  accepted : parsePublicHttpsUrl urls.toUrlLibrary transfer.currentUrl.text ≠ none
  reached : reach transfer.currentUrl
  visited : transfer.redirect.visited =
    transfer.sent.map (fun request => request.url.text) ++ [transfer.currentUrl.text]
  different : transfer.redirect.visited.Nodup
  counted : transfer.sent.length = transfer.redirect.redirects
  bounded : transfer.redirect.redirects ≤ maxRedirects
  requests : ∀ request ∈ transfer.sent, PublicRequest urls request ∧ reach request.url

structure SentSafe (reach : Url → Prop) (sent : List SentRequest) : Prop where
  requests : PublicRequests urls sent
  reached : ∀ request ∈ sent, reach request.url

/-- A turn leads from safe transfers to safe transfers, or ends with safe requests. -/
structure TurnSafe (reach : Url → Prop) (turn : Hop → Transfer → Progress α) : Prop where
  redirected : ∀ {hop transfer transfer'}, TransferSafe urls reach transfer →
    turn hop transfer = .redirected transfer' → TransferSafe urls reach transfer' ∧
      transfer'.redirect.redirects = transfer.redirect.redirects + 1
  finished : ∀ {hop transfer sent result}, TransferSafe urls reach transfer →
    turn hop transfer = .finished sent result → SentSafe urls reach sent

variable {urls} {reach : Url → Prop} {transfer : Transfer}

theorem TransferSafe.sentSafe (safe : TransferSafe urls reach transfer) :
    SentSafe urls reach transfer.sent := by
  refine ⟨⟨fun request member => (safe.requests request member).1, ?_, ?_⟩,
    fun request member => (safe.requests request member).2⟩
  · have different := safe.different
    rw [safe.visited] at different
    exact different.of_append_left
  · rw [safe.counted]
    exact Nat.le_succ_of_le safe.bounded

theorem TransferSafe.sentSafe_append (safe : TransferSafe urls reach transfer)
    {addresses : List IpAddr} (named : (urls.hostStr transfer.currentUrl).isSome = true)
    (isPublic : ∀ address ∈ addresses, isPublicIp address = true) :
    SentSafe urls reach (transfer.sent ++ [⟨transfer.currentUrl, addresses⟩]) := by
  have each (request : SentRequest)
      (member : request ∈ transfer.sent ++ [⟨transfer.currentUrl, addresses⟩]) :
      PublicRequest urls request ∧ reach request.url := by
    rcases List.mem_append.mp member with earlier | last
    · exact safe.requests request earlier
    · cases List.mem_singleton.mp last
      exact ⟨⟨named, safe.accepted, isPublic⟩, safe.reached⟩
  refine ⟨⟨fun request member => (each request member).1, ?_, ?_⟩,
    fun request member => (each request member).2⟩
  · rw [List.map_append]
    change (_ ++ [transfer.currentUrl.text]).Nodup
    rw [← safe.visited]
    exact safe.different
  · rw [List.length_append, safe.counted]
    exact Nat.succ_le_succ safe.bounded

variable {mayFollow : Url → Bool} {client : Client}
  {finish : Response → Except ArtifactResolveError α}

theorem sendRequest_finished {policy : RedirectPolicy} {hop : Hop} {sent : List SentRequest}
    {result : Except ArtifactResolveError α}
    (ended : sendRequest urls policy mayFollow finish hop client transfer = .finished sent result) :
    sent = transfer.sent ++
      [⟨transfer.currentUrl, client.connects urls hop transfer.currentUrl⟩] := by
  unfold sendRequest at ended
  cases received : hop.send transfer.currentUrl with
  | error error =>
      rw [received] at ended
      cases ended
      rfl
  | ok response =>
      rw [received] at ended
      change (if _ then _ else _) = _ at ended
      split_ifs at ended with redirection success
      · cases target : redirectTarget urls transfer.currentUrl response with
        | error error =>
            rw [target] at ended
            cases ended
            rfl
        | ok nextUrl =>
            rw [target] at ended
            cases valid : validateRedirect urls transfer.currentUrl nextUrl transfer.redirect
                policy with
            | error error =>
                simp only [valid] at ended
                cases ended
                rfl
            | ok redirect =>
                simp only [valid] at ended
                split_ifs at ended
                cases ended
                rfl
      · cases ended
        rfl
      · cases ended
        rfl

theorem sendRequest_redirected {policy : RedirectPolicy} {hop : Hop} {transfer' : Transfer}
    (followed : sendRequest urls policy mayFollow finish hop client transfer =
      .redirected transfer') :
    ∃ redirect, validateRedirect urls transfer.currentUrl transfer'.currentUrl transfer.redirect
        policy = .ok redirect ∧ mayFollow transfer'.currentUrl = true ∧
      transfer' = { currentUrl := transfer'.currentUrl, redirect := redirect, sent :=
        transfer.sent ++
          [⟨transfer.currentUrl, client.connects urls hop transfer.currentUrl⟩] } := by
  unfold sendRequest at followed
  cases received : hop.send transfer.currentUrl with
  | error error =>
      rw [received] at followed
      cases followed
  | ok response =>
      rw [received] at followed
      change (if _ then _ else _) = _ at followed
      split_ifs at followed with redirection success
      cases target : redirectTarget urls transfer.currentUrl response with
      | error error =>
          rw [target] at followed
          cases followed
      | ok nextUrl =>
          rw [target] at followed
          cases valid : validateRedirect urls transfer.currentUrl nextUrl transfer.redirect
              policy with
          | error error =>
              simp only [valid] at followed
              cases followed
          | ok redirect =>
              simp only [valid] at followed
              split_ifs at followed with allowed
              cases followed
              exact ⟨redirect, valid, allowed, rfl⟩

theorem TransferSafe.redirected (safe : TransferSafe urls reach transfer) {hop : Hop}
    {transfer' : Transfer} (built : publicHttpsClient urls hop transfer.currentUrl = .ok client)
    (keeps : ∀ url, mayFollow url = true → reach url)
    (followed : sendRequest urls .publicHttps mayFollow finish hop client transfer =
      .redirected transfer') :
    TransferSafe urls reach transfer' ∧
      transfer'.redirect.redirects = transfer.redirect.redirects + 1 := by
  obtain ⟨redirect, valid, allowed, result⟩ := sendRequest_redirected followed
  obtain ⟨accepted, bounded, fresh, rfl⟩ := validateRedirect_ok valid
  have sentSafe := safe.sentSafe_append (publicHttpsClient_named built)
    (publicHttpsClient_public built)
  rw [result]
  refine ⟨⟨accepted rfl, keeps _ allowed, ?_, ?_, ?_, bounded, ?_⟩, rfl⟩
  · rw [List.map_append, safe.visited]
    rfl
  · exact List.nodup_append.mpr ⟨safe.different, List.nodup_singleton _, by
      intro seen member last isLast
      cases List.mem_singleton.mp isLast
      rintro rfl
      exact fresh member⟩
  · rw [List.length_append, safe.counted]
    rfl
  · intro request member
    exact ⟨sentSafe.requests.each request member, sentSafe.reached request member⟩

theorem sendRequest_turnSafe {hop : Hop} (safe : TransferSafe urls reach transfer)
    (built : publicHttpsClient urls hop transfer.currentUrl = .ok client)
    (keeps : ∀ url, mayFollow url = true → reach url) :
    (∀ transfer', sendRequest urls .publicHttps mayFollow finish hop client transfer =
        .redirected transfer' → TransferSafe urls reach transfer' ∧
          transfer'.redirect.redirects = transfer.redirect.redirects + 1) ∧
      ∀ sent result, sendRequest urls .publicHttps mayFollow finish hop client transfer =
        .finished sent result → SentSafe urls reach sent := by
  refine ⟨fun transfer' followed => safe.redirected built keeps followed,
    fun sent result ended => ?_⟩
  rw [sendRequest_finished ended]
  exact safe.sentSafe_append (publicHttpsClient_named built) (publicHttpsClient_public built)

theorem downloadHop_safe : TurnSafe urls (fun _ => True) (downloadHop urls .publicHttps) := by
  constructor
  · intro hop transfer transfer' safe followed
    unfold downloadHop at followed
    split_ifs at followed
    cases built : publicHttpsClient urls hop transfer.currentUrl with
    | error error =>
        rw [built] at followed
        cases followed
    | ok client =>
        rw [built] at followed
        exact (sendRequest_turnSafe safe built fun _ _ => trivial).1 transfer' followed
  · intro hop transfer sent result safe ended
    unfold downloadHop at ended
    split_ifs at ended
    · cases ended
      exact safe.sentSafe
    · cases built : publicHttpsClient urls hop transfer.currentUrl with
      | error error =>
          rw [built] at ended
          cases ended
          exact safe.sentSafe
      | ok client =>
          rw [built] at ended
          exact (sendRequest_turnSafe safe built fun _ _ => trivial).2 sent result ended

def OfOrigin (urls : UrlOperations) (initialUrl url : Url) : Prop :=
  url = initialUrl ∨ sameOrigin urls initialUrl url = true

theorem OfOrigin.follow {initialUrl url nextUrl : Url} (reached : OfOrigin urls initialUrl url)
    (same : sameOrigin urls url nextUrl = true) : OfOrigin urls initialUrl nextUrl := by
  rcases reached with rfl | before
  · exact Or.inr same
  · exact Or.inr (sameOrigin_trans before same)

theorem metadataHop_safe (initialUrl : Url) (maxBytes : Nat) :
    TurnSafe urls (OfOrigin urls initialUrl) (metadataHop urls maxBytes) := by
  constructor
  · intro hop transfer transfer' safe followed
    unfold metadataHop at followed
    cases built : publicHttpsClient urls hop transfer.currentUrl with
    | error error =>
        rw [built] at followed
        cases followed
    | ok client =>
        rw [built] at followed
        change (if _ then _ else _) = _ at followed
        split_ifs at followed
        exact (sendRequest_turnSafe safe built fun _ same => safe.reached.follow same).1 transfer'
          followed
  · intro hop transfer sent result safe ended
    unfold metadataHop at ended
    cases built : publicHttpsClient urls hop transfer.currentUrl with
    | error error =>
        rw [built] at ended
        cases ended
        exact safe.sentSafe
    | ok client =>
        rw [built] at ended
        change (if _ then _ else _) = _ at ended
        split_ifs at ended
        · cases ended
          exact safe.sentSafe
        · exact (sendRequest_turnSafe safe built fun _ same => safe.reached.follow same).2 sent
            result ended

end

section

variable {urls} {α : Type} {reach : Url → Prop} {turn : Hop → Transfer → Progress α}

theorem start_safe {initialUrl : Url} (reached : reach initialUrl)
    (accepted : parsePublicHttpsUrl urls.toUrlLibrary initialUrl.text ≠ none) :
    TransferSafe urls reach (Transfer.start initialUrl) := by
  refine ⟨accepted, reached, rfl, List.nodup_singleton _, rfl, Nat.zero_le _, ?_⟩
  intro request member
  cases member

theorem follow_safe (turnSafe : TurnSafe urls reach turn) {fuel : Nat} (hops : Nat → Hop)
    {transfer : Transfer} (safe : TransferSafe urls reach transfer)
    (enough : maxRedirects + 1 ≤ fuel + transfer.redirect.redirects) :
    ∃ sent result, follow turn fuel hops transfer = some (sent, result) ∧
      SentSafe urls reach sent := by
  induction fuel generalizing hops transfer with
  | zero =>
      have bounded := safe.bounded
      omega
  | succ fuel ih =>
      unfold follow
      cases progress : turn (hops 0) transfer with
      | finished sent result =>
          exact ⟨sent, result, rfl, turnSafe.finished safe progress⟩
      | redirected transfer' =>
          obtain ⟨safe', counted⟩ := turnSafe.redirected safe progress
          exact ih _ safe' (by omega)

end

theorem exists_segments (address : Ipv6Addr) : ∃ a b c d e f g h : UInt16,
    address = ⟨#v[a, b, c, d, e, f, g, h]⟩ := by
  obtain ⟨⟨⟨segments⟩, size⟩⟩ := address
  rcases segments with _ | ⟨a, _ | ⟨b, _ | ⟨c, _ | ⟨d, _ | ⟨e, _ | ⟨f, _ | ⟨g, _ | ⟨h, _ | ⟨i, segments⟩⟩⟩⟩⟩⟩⟩⟩⟩ <;>
    simp at size
  exact ⟨a, b, c, d, e, f, g, h, rfl⟩

def ipv4OfSegments (high low : UInt16) : Ipv4Addr :=
  ⟨(high >>> 8).toUInt8, high.toUInt8, (low >>> 8).toUInt8, low.toUInt8⟩

def ipv4From (address : Ipv6Addr) (place : Nat) : Ipv4Addr :=
  ipv4OfSegments (address.segments.toList.getD place 0) (address.segments.toList.getD (place + 1) 0)

def toIpv4Compatible (address : Ipv6Addr) : Option Ipv4Addr :=
  if address.segments.toList.take 6 = [0, 0, 0, 0, 0, 0] then some (ipv4From address 6) else none

def to6to4 (address : Ipv6Addr) : Option Ipv4Addr :=
  if address.segments.toList.take 1 = [0x2002] then some (ipv4From address 1) else none

def toNat64 (address : Ipv6Addr) : Option Ipv4Addr :=
  if address.segments.toList.take 6 = [0x64, 0xFF9B, 0, 0, 0, 0] then some (ipv4From address 6)
  else none

inductive Embeds : IpAddr → Ipv4Addr → Prop
  | v4 (address : Ipv4Addr) : Embeds (.v4 address) address
  | mapped {address inner} : address.toIpv4Mapped = some inner → Embeds (.v6 address) inner
  | compatible {address inner} : toIpv4Compatible address = some inner → Embeds (.v6 address) inner
  | sixToFour {address inner} : to6to4 address = some inner → Embeds (.v6 address) inner
  | nat64 {address inner} : toNat64 address = some inner → Embeds (.v6 address) inner

def ClassifiedSoundly (address : IpAddr) : Prop :=
  isPublicIp address = true → ∀ inner, Embeds address inner → ipv4IsNonPublic inner = false

def HiddenIpv4 (address : Ipv6Addr) (inner : Ipv4Addr) : Prop :=
  toIpv4Compatible address = some inner ∨ to6to4 address = some inner ∨ toNat64 address = some inner

def isUnspecifiedOrLoopback (address : Ipv6Addr) : Bool :=
  address.segments.toList = [0, 0, 0, 0, 0, 0, 0, 0] ||
    address.segments.toList = [0, 0, 0, 0, 0, 0, 0, 1]

def NoHiddenNonPublic (address : IpAddr) : Prop :=
  ∀ inside, address = .v6 inside → isUnspecifiedOrLoopback inside = false →
    ∀ inner, HiddenIpv4 inside inner → ipv4IsNonPublic inner = false

theorem ipv6IsNonPublic_eq_false {a b c d e f g h : UInt16}
    (other : isUnspecifiedOrLoopback ⟨#v[a, b, c, d, e, f, g, h]⟩ = false)
    (unmapped : Ipv6Addr.toIpv4Mapped ⟨#v[a, b, c, d, e, f, g, h]⟩ = none)
    (multicast : a &&& 0xFF00 ≠ 0xFF00) (uniqueLocal : a &&& 0xFE00 ≠ 0xFC00)
    (linkLocal : a &&& 0xFFC0 ≠ 0xFE80) (siteLocal : a &&& 0xFFC0 ≠ 0xFEC0)
    (documentation : a ≠ 0x2001) (benchmark : a ≠ 0x3FFF) :
    ipv6IsNonPublic ⟨#v[a, b, c, d, e, f, g, h]⟩ = false := by
  simp only [isUnspecifiedOrLoopback, Bool.or_eq_false_iff, decide_eq_false_iff_not] at other
  obtain ⟨unspecified, loopback⟩ := other
  simp only [ipv6IsNonPublic, List.replicate, Bool.or_eq_false_iff, Bool.and_eq_false_iff,
    decide_eq_false_iff_not, unmapped, Option.any_none]
  exact ⟨⟨⟨⟨⟨⟨⟨⟨loopback, unspecified⟩, multicast⟩, trivial⟩, uniqueLocal⟩, linkLocal⟩, siteLocal⟩,
    Or.inl documentation⟩, Or.inl benchmark⟩

theorem hidden_isPublic {address : Ipv6Addr} {inner : Ipv4Addr} (hidden : HiddenIpv4 address inner)
    (other : isUnspecifiedOrLoopback address = false) : ipv6IsNonPublic address = false := by
  obtain ⟨a, b, c, d, e, f, g, h, rfl⟩ := exists_segments address
  rcases hidden with compatible | sixToFour | nat64
  · unfold toIpv4Compatible at compatible
    split_ifs at compatible with zeros
    obtain ⟨rfl, rfl, rfl, rfl, rfl, rfl⟩ : a = 0 ∧ b = 0 ∧ c = 0 ∧ d = 0 ∧ e = 0 ∧ f = 0 := by
      simpa using zeros
    have first : (0 : UInt16) &&& 0xFF00 ≠ 0xFF00 ∧ (0 : UInt16) &&& 0xFE00 ≠ 0xFC00 ∧
        (0 : UInt16) &&& 0xFFC0 ≠ 0xFE80 ∧ (0 : UInt16) &&& 0xFFC0 ≠ 0xFEC0 ∧
        (0 : UInt16) ≠ 0x2001 ∧ (0 : UInt16) ≠ 0x3FFF := by decide
    exact ipv6IsNonPublic_eq_false other (by simp [Ipv6Addr.toIpv4Mapped]) first.1 first.2.1
      first.2.2.1 first.2.2.2.1 first.2.2.2.2.1 first.2.2.2.2.2
  · unfold to6to4 at sixToFour
    split_ifs at sixToFour with lead
    obtain rfl : a = 0x2002 := by simpa using lead
    have first : (0x2002 : UInt16) &&& 0xFF00 ≠ 0xFF00 ∧ (0x2002 : UInt16) &&& 0xFE00 ≠ 0xFC00 ∧
        (0x2002 : UInt16) &&& 0xFFC0 ≠ 0xFE80 ∧ (0x2002 : UInt16) &&& 0xFFC0 ≠ 0xFEC0 ∧
        (0x2002 : UInt16) ≠ 0x2001 ∧ (0x2002 : UInt16) ≠ 0x3FFF := by decide
    exact ipv6IsNonPublic_eq_false other (by simp [Ipv6Addr.toIpv4Mapped]) first.1 first.2.1
      first.2.2.1 first.2.2.2.1 first.2.2.2.2.1 first.2.2.2.2.2
  · unfold toNat64 at nat64
    split_ifs at nat64 with lead
    obtain ⟨rfl, rfl, rfl, rfl, rfl, rfl⟩ :
        a = 0x64 ∧ b = 0xFF9B ∧ c = 0 ∧ d = 0 ∧ e = 0 ∧ f = 0 := by
      simpa using lead
    have first : (0x64 : UInt16) &&& 0xFF00 ≠ 0xFF00 ∧ (0x64 : UInt16) &&& 0xFE00 ≠ 0xFC00 ∧
        (0x64 : UInt16) &&& 0xFFC0 ≠ 0xFE80 ∧ (0x64 : UInt16) &&& 0xFFC0 ≠ 0xFEC0 ∧
        (0x64 : UInt16) ≠ 0x2001 ∧ (0x64 : UInt16) ≠ 0x3FFF := by decide
    exact ipv6IsNonPublic_eq_false other (by simp [Ipv6Addr.toIpv4Mapped]) first.1 first.2.1
      first.2.2.1 first.2.2.2.1 first.2.2.2.2.1 first.2.2.2.2.2

theorem isUnspecifiedOrLoopback_nonPublic {address : Ipv6Addr}
    (named : isUnspecifiedOrLoopback address = true) : ipv6IsNonPublic address = true := by
  rw [isUnspecifiedOrLoopback, Bool.or_eq_true, decide_eq_true_eq, decide_eq_true_eq] at named
  rcases named with zero | one
  · simp [ipv6IsNonPublic, zero, List.replicate]
  · simp [ipv6IsNonPublic, one]

theorem mapped_isPublic {address : Ipv6Addr} {inner : Ipv4Addr}
    (isPublic : ipv6IsNonPublic address = false) (mapped : address.toIpv4Mapped = some inner) :
    ipv4IsNonPublic inner = false := by
  simp only [ipv6IsNonPublic, Bool.or_eq_false_iff, mapped, Option.any_some] at isPublic
  tauto

theorem classifiedSoundly_iff (address : IpAddr) :
    ClassifiedSoundly address ↔ NoHiddenNonPublic address := by
  constructor
  · rintro sound inside rfl other inner hidden
    have isPublic : isPublicIp (.v6 inside) = true := by
      rw [isPublicIp, hidden_isPublic hidden other]
      rfl
    refine sound isPublic inner ?_
    rcases hidden with compatible | sixToFour | nat64
    · exact .compatible compatible
    · exact .sixToFour sixToFour
    · exact .nat64 nat64
  · intro clean isPublic inner embeds
    have looked {inside : Ipv6Addr} (same : address = .v6 inside)
        (hidden : HiddenIpv4 inside inner) : ipv4IsNonPublic inner = false := by
      subst same
      refine clean inside rfl ?_ inner hidden
      by_contra named
      rw [Bool.not_eq_false] at named
      rw [isPublicIp, isUnspecifiedOrLoopback_nonPublic named] at isPublic
      cases isPublic
    cases embeds with
    | v4 =>
        rw [isPublicIp, Bool.not_eq_true'] at isPublic
        exact isPublic
    | mapped found =>
        rw [isPublicIp, Bool.not_eq_true'] at isPublic
        exact mapped_isPublic isPublic found
    | compatible found => exact looked rfl (Or.inl found)
    | sixToFour found => exact looked rfl (Or.inr (Or.inl found))
    | nat64 found => exact looked rfl (Or.inr (Or.inr found))

section

def EndsPublicly {α : Type} (reach : Url → Prop)
    (run : Option (List SentRequest × Except ArtifactResolveError α)) : Prop :=
  ∃ sent result, run = some (sent, result) ∧ PublicRequests urls sent ∧
    ∀ request ∈ sent, reach request.url

variable {urls}

theorem endsPublicly_refused {α : Type} {reach : Url → Prop}
    {result : Except ArtifactResolveError α} : EndsPublicly urls reach (some ([], result)) := by
  refine ⟨[], result, rfl, ⟨?_, List.nodup_nil, Nat.zero_le _⟩, ?_⟩
  · intro request member
    cases member
  · intro request member
    cases member

theorem downloadWithPolicy_public (hops : Nat → Hop) (initialUrl : Url) :
    EndsPublicly urls (fun _ => True)
      (downloadWithPolicy urls (maxRedirects + 1) hops initialUrl .publicHttps) := by
  unfold downloadWithPolicy
  by_cases refused : parsePublicHttpsUrl urls.toUrlLibrary initialUrl.text = none
  · rw [if_pos ⟨rfl, refused⟩]
    exact endsPublicly_refused
  · rw [if_neg fun both => refused both.2]
    obtain ⟨sent, result, ended, safe⟩ :=
      follow_safe downloadHop_safe hops (start_safe trivial refused) (Nat.le_add_right _ _)
    exact ⟨sent, result, ended, safe.requests, safe.reached⟩

theorem getPublicMetadata_public (hops : Nat → Hop) (initialUrl : Url) (maxBytes : Nat) :
    EndsPublicly urls (fun url => sameOrigin urls initialUrl url = true)
      (getPublicMetadata urls (maxRedirects + 1) hops initialUrl maxBytes) := by
  unfold getPublicMetadata
  by_cases refused : parsePublicHttpsUrl urls.toUrlLibrary initialUrl.text = none
  · rw [if_pos refused]
    exact endsPublicly_refused
  · rw [if_neg refused]
    obtain ⟨sent, result, ended, safe⟩ :=
      follow_safe (metadataHop_safe initialUrl maxBytes) hops (start_safe (Or.inl rfl) refused)
        (Nat.le_add_right _ _)
    refine ⟨sent, result, ended, safe.requests, fun request member => ?_⟩
    rcases safe.reached request member with first | later
    · have named := (safe.requests.each request member).named
      rw [first] at named ⊢
      exact sameOrigin_refl named
    · exact later

variable (urls)

/-- Public transfers keep to public addresses as they are classified; an address passes for public
that holds a non-public one in a form that the classification does not look into. -/
theorem public_transfers (hops : Nat → Hop) (initialUrl : Url) (maxBytes : Nat)
    (address : IpAddr) :
    EndsPublicly urls (fun _ => True)
        (downloadWithPolicy urls (maxRedirects + 1) hops initialUrl .publicHttps) ∧
      EndsPublicly urls (fun url => sameOrigin urls initialUrl url = true)
        (getPublicMetadata urls (maxRedirects + 1) hops initialUrl maxBytes) ∧
      (ClassifiedSoundly address ↔ NoHiddenNonPublic address) :=
  ⟨downloadWithPolicy_public hops initialUrl, getPublicMetadata_public hops initialUrl maxBytes,
    classifiedSoundly_iff address⟩

/-- The private address 10.0.0.1 passes for public as 2002:a00:1::, 64:ff9b::a00:1 and ::a00:1. -/
theorem not_classifiedSoundly : ¬ ClassifiedSoundly (.v6 ⟨#v[0x2002, 0x0A00, 1, 0, 0, 0, 0, 0]⟩) ∧
    ¬ ClassifiedSoundly (.v6 ⟨#v[0x64, 0xFF9B, 0, 0, 0, 0, 0x0A00, 1]⟩) ∧
    ¬ ClassifiedSoundly (.v6 ⟨#v[0, 0, 0, 0, 0, 0, 0x0A00, 1]⟩) := by
  have inner : ipv4IsNonPublic ⟨10, 0, 0, 1⟩ = true := by decide
  refine ⟨fun sound => ?_, fun sound => ?_, fun sound => ?_⟩
  · have hidden := sound (by decide) ⟨10, 0, 0, 1⟩ (.sixToFour (by decide))
    rw [inner] at hidden
    cases hidden
  · have hidden := sound (by decide) ⟨10, 0, 0, 1⟩ (.nat64 (by decide))
    rw [inner] at hidden
    cases hidden
  · have hidden := sound (by decide) ⟨10, 0, 0, 1⟩ (.compatible (by decide))
    rw [inner] at hidden
    cases hidden

end

end EmuChef.Artifact.Transport
