import Mathlib.Algebra.Order.Field.Rat
import Membrane.Network.OutboundPolicy
import Membrane.Store.ContentStore

/-!
# The HTTP transport

A request is validated, its host is resolved once more, and the first address of that
second answer is put into the URL in place of the host.  If the second resolution fails
or answers nothing, the URL keeps its host and the HTTP client resolves it.

The client is a parameter: it may answer anything, and the only laws it keeps are about
the address it connects to.
-/

namespace Membrane
namespace Network

open Foundation Store

inductive Authority where
  | named
  | pinned (ip : IPAddress) (port : Option Nat)
  deriving DecidableEq

structure OutboundRequest where
  method : String
  url : String
  body : Option Bytes
  headers : Dict String String
  timeoutSec : ℚ

structure ClientRequest where
  request : OutboundRequest
  authority : Authority
  sniHostname : Option String

structure HttpResponse where
  statusCode : Nat
  headers : Dict String String
  content : Bytes
  text : String

inductive NetworkError where
  | notInstalled
  | transportFailure (method host message : String)
  | redirect (statusCode : Nat) (method url : String)
  | httpStatus (statusCode : Nat) (method url : String)
  deriving DecidableEq

inductive TransportError where
  | network (e : NetworkError)
  | resolve (e : ResolveError)
  | malformed (message : String)
  | undecodable
  | other (message : String)
  deriving DecidableEq

structure HttpClient where
  contacts : ClientRequest -> Option IPAddress
  answers : ClientRequest -> Except String HttpResponse

structure Exchange (rho : Type) where
  result : Except TransportError rho
  contacted : Option IPAddress

def Exchange.bind {rho omega : Type} (e : Exchange rho)
    (f : rho -> Except TransportError omega) : Exchange omega :=
  { result := e.result.bind f, contacted := e.contacted }

section Laws

variable [UrlParser]

def hostAddresses (resolve : String -> Resolution) (url : String) : List IPAddress :=
  match UrlParser.urlparse url with
  | .error _ => []
  | .ok parsed =>
    match resolve (parsed.hostname.getD "") with
    | .error _ => []
    | .ok addresses => addresses

/-- A request goes to an address its host stands for.  An IPv6 address without brackets is not a
valid host in a URL. -/
structure HttpClient.Follows (client : HttpClient) (resolve : String -> Resolution) :
    Prop where
  named : forall r ip, r.authority = .named -> client.contacts r = some ip ->
    ip ∈ hostAddresses resolve r.request.url
  pinned : forall r bits port ip, r.authority = .pinned (.v4 bits) port ->
    client.contacts r = some ip -> ip = .v4 bits
  bracketless : forall r bits scopeId port, r.authority = .pinned (.v6 bits scopeId) port ->
    client.contacts r = none

def HttpClient.preferring (resolve : String -> Resolution) (ip : IPAddress)
    (answer : Except String HttpResponse) : HttpClient where
  contacts r :=
    match r.authority with
    | .named => if ip ∈ hostAddresses resolve r.request.url then some ip else none
    | .pinned (.v4 bits) _ => some (.v4 bits)
    | .pinned (.v6 _ _) _ => none
  answers _ := answer

theorem HttpClient.preferring_follows (resolve : String -> Resolution) (ip : IPAddress)
    (answer : Except String HttpResponse) :
    (preferring resolve ip answer).Follows resolve where
  named r other hnamed hcontacts := by
    unfold preferring at hcontacts
    simp only [hnamed] at hcontacts
    split_ifs at hcontacts with hmem
    cases hcontacts
    exact hmem
  pinned r bits port other hpinned hcontacts := by
    unfold preferring at hcontacts
    simp only [hpinned] at hcontacts
    cases hcontacts
    rfl
  bracketless r bits scopeId port hpinned := by
    unfold preferring
    simp only [hpinned]

end Laws

namespace HTTPTransport

def unpinned (request : OutboundRequest) : ClientRequest :=
  { request := request, authority := .named, sniHostname := none }

/-- Put the first address of an answer into the URL.  An operating system error is ignored. -/
def pin (request : OutboundRequest) (parsed : ParsedUrl) (host : String) :
    Resolution -> Except TransportError ClientRequest
  | .error (.other message) => .error (.resolve (.other message))
  | .error _ => .ok (unpinned request)
  | .ok [] => .ok (unpinned request)
  | .ok (ip :: _) =>
    match parsed.port with
    | .error message => .error (.malformed message)
    | .ok port =>
      .ok
        { request := { request with headers := request.headers.set "Host" host }
          authority := .pinned ip port
          sniHostname := some host }

def dispatch (client : HttpClient) (host : String) (r : ClientRequest) :
    Exchange (Option HttpResponse) where
  contacted := client.contacts r
  result :=
    match client.answers r with
    | .error message =>
      .error (.network (.transportFailure r.request.method host message))
    | .ok response =>
      if 300 ≤ response.statusCode ∧ response.statusCode < 400 then
        .error (.network (.redirect response.statusCode r.request.method
          r.request.url))
      else .ok (some response)

variable [UrlParser]

def target (policy : URLAllowlist) (resolve : String -> Resolution)
    (request : OutboundRequest) (parsed : ParsedUrl) : Except TransportError ClientRequest :=
  let host := parsed.hostname.getD ""
  if policy.blockPrivate ∧ host ≠ "" ∧ ¬ policy.isHostAllowed (UrlParser.lower host) then
    pin request parsed host (resolve host)
  else .ok (unpinned request)

/-- The first resolution is the one of the validation, the second one pins the address. -/
def send (policy : URLAllowlist) (resolve : Nat -> String -> Resolution)
    (client : Option HttpClient) (request : OutboundRequest) :
    Exchange (Option HttpResponse) :=
  match policy.validateOutboundUrl (resolve 0) request.url with
  | .error (.ssrf _) => { result := .ok none, contacted := none }
  | .error (.resolve e) =>
    { result := .error (.resolve e), contacted := none }
  | .ok _ =>
    match client, UrlParser.urlparse request.url with
    | none, _ => { result := .error (.network .notInstalled), contacted := none }
    | some _, .error message =>
      { result := .error (.malformed message), contacted := none }
    | some client, .ok parsed =>
      match target policy (resolve 1) request parsed with
      | .error e => { result := .error e, contacted := none }
      | .ok r => dispatch client (parsed.hostname.getD request.url) r

end HTTPTransport

class JsonCodec (json : Type) where
  dumps : Dict String json -> Bytes
  loads : String -> Option json
  emptyObject : json

structure RawResponse where
  status : Nat
  headers : Dict String String
  body : Bytes

namespace HTTPTransport

variable [UrlParser] (policy : URLAllowlist) (resolve : Nat -> String -> Resolution)
  (client : Option HttpClient) (r : OutboundRequest)

def request {json : Type} [JsonCodec json] : Exchange (Option json) :=
  (send policy resolve client r).bind (fun response =>
    match response with
    | none => .ok none
    | some response =>
      if 400 ≤ response.statusCode then
        .error (.network (.httpStatus response.statusCode r.method r.url))
      else if response.text = "" then .ok (some JsonCodec.emptyObject)
      else
        match JsonCodec.loads response.text with
        | none => .error .undecodable
        | some value => .ok (some value))

/-!
# Where requests go
-/

def PinsSafely (parsed : ParsedUrl) (later : List IPAddress) : Resolution -> Prop
  | .error (.other _) => True
  | .error _ => forall ip, ip ∈ later -> policy.Permits ip
  | .ok [] => forall ip, ip ∈ later -> policy.Permits ip
  | .ok (.v4 bits :: _) =>
    forall port, parsed.port = .ok port -> policy.Permits (.v4 bits)
  | .ok (.v6 _ _ :: _) => True

variable {policy resolve r}

theorem target_eq_pin {parsed : ParsedUrl} (hblock : policy.blockPrivate = true)
    (hhost : parsed.hostname.getD "" ≠ "")
    (hlisted : policy.isHostAllowed (UrlParser.lower (parsed.hostname.getD "")) = false)
    (answer : String -> Resolution) :
    target policy answer r parsed =
      pin r parsed (parsed.hostname.getD "") (answer (parsed.hostname.getD "")) := by
  unfold target
  rw [if_pos ⟨hblock, hhost, by rw [hlisted]; decide⟩]

theorem unpinned_permitted_iff (answer : String -> Resolution) :
    (forall client : HttpClient, client.Follows answer -> forall ip,
      client.contacts (unpinned r) = some ip -> policy.Permits ip) <->
      forall ip, ip ∈ hostAddresses answer r.url -> policy.Permits ip := by
  constructor
  · intro h ip hip
    apply h _ (HttpClient.preferring_follows answer ip (.error "")) ip
    unfold HttpClient.preferring unpinned
    simp only [if_pos hip]
  · intro h client hclient ip hcontacts
    exact h ip (hclient.named (unpinned r) ip rfl hcontacts)

theorem pin_permitted_iff (parsed : ParsedUrl) (host : String)
    (answer : String -> Resolution) (resolution : Resolution) :
    (forall client : HttpClient, client.Follows answer ->
      forall sent, pin r parsed host resolution = .ok sent ->
        forall ip, client.contacts sent = some ip -> policy.Permits ip) <->
      PinsSafely policy parsed (hostAddresses answer r.url) resolution := by
  have hleft : (forall client : HttpClient, client.Follows answer ->
      forall sent, (.ok (unpinned r) : Except TransportError _) = .ok sent ->
        forall ip, client.contacts sent = some ip -> policy.Permits ip) <->
      forall ip, ip ∈ hostAddresses answer r.url -> policy.Permits ip := by
    rw [← unpinned_permitted_iff]
    exact ⟨fun h client hclient => h client hclient _ rfl,
      fun h client hclient sent hsent => by cases hsent; exact h client hclient⟩
  cases resolution with
  | error e =>
    cases e with
    | gaierror message | os message => exact hleft
    | other message => exact ⟨fun _ => trivial, fun _ _ _ sent hsent => by cases hsent⟩
  | ok addresses =>
    cases addresses with
    | nil => exact hleft
    | cons first rest =>
      cases hport : parsed.port with
      | error message =>
        unfold pin PinsSafely
        simp only [hport]
        have hunsent : forall client : HttpClient, client.Follows answer ->
            forall sent, (.error (.malformed message) : Except TransportError _) =
              .ok sent -> forall ip, client.contacts sent = some ip ->
                policy.Permits ip := by
          intro client _ sent hsent
          cases hsent
        cases first with
        | v4 bits => exact ⟨fun _ port hok => absurd hok nofun, fun _ => hunsent⟩
        | v6 bits scopeId => exact ⟨fun _ => trivial, fun _ => hunsent⟩
      | ok port =>
        unfold pin PinsSafely
        simp only [hport]
        cases first with
        | v4 bits =>
          constructor
          · intro h other _
            exact h _ (HttpClient.preferring_follows answer (.v4 bits)
              (.error "")) _ rfl _ rfl
          · intro h client hclient sent hsent ip hcontacts
            cases hsent
            rw [hclient.pinned _ bits port ip rfl hcontacts]
            exact h port rfl
        | v6 bits scopeId =>
          refine ⟨fun _ => trivial, fun _ client hclient sent hsent ip hcontacts => ?_⟩
          cases hsent
          rw [hclient.bracketless _ bits scopeId port rfl] at hcontacts
          cases hcontacts

theorem send_contacted_iff {parsed : ParsedUrl} {ip : IPAddress} {client : HttpClient}
    (hblock : policy.blockPrivate = true)
    (hlisted : policy.isHostAllowed (UrlParser.lower (parsed.hostname.getD "")) = false)
    (hparsed : UrlParser.urlparse r.url = .ok parsed)
    (hvalid : policy.validateOutboundUrl (resolve 0) r.url = .ok r.url) :
    (send policy resolve (some client) r).contacted = some ip <->
      exists sent, pin r parsed (parsed.hostname.getD "")
        (resolve 1 (parsed.hostname.getD "")) = .ok sent ∧
          client.contacts sent = some ip := by
  have hhost : parsed.hostname.getD "" ≠ "" := by
    rcases (URLAllowlist.validateOutboundUrl_eq_ok hvalid).right with ⟨other, hother, hhost⟩
    cases hparsed.symm.trans hother
    exact hhost
  unfold send
  simp only [hvalid, hparsed, target_eq_pin hblock hhost hlisted]
  cases pin r parsed (parsed.hostname.getD "") (resolve 1 (parsed.hostname.getD "")) with
  | error e =>
    constructor
    · intro h
      cases h
    · rintro ⟨sent, hsent, _⟩
      cases hsent
  | ok sent =>
    constructor
    · intro h
      exact ⟨sent, rfl, h⟩
    · rintro ⟨other, hother, hcontacts⟩
      cases hother
      exact hcontacts

/-- Under a policy that blocks private addresses, and for a host that is not exempt, all
requests go to permitted addresses exactly when a URL that passes the validation gets
safe answers from the later resolutions. -/
theorem send_permitted_iff (hblock : policy.blockPrivate = true)
    (hlisted : forall parsed, UrlParser.urlparse r.url = .ok parsed ->
      policy.isHostAllowed (UrlParser.lower (parsed.hostname.getD "")) = false) :
    (forall client : HttpClient, client.Follows (resolve 2) -> forall ip,
      (send policy resolve (some client) r).contacted = some ip -> policy.Permits ip) <->
      forall parsed, UrlParser.urlparse r.url = .ok parsed ->
        policy.validateOutboundUrl (resolve 0) r.url = .ok r.url ->
          PinsSafely policy parsed (hostAddresses (resolve 2) r.url)
            (resolve 1 (parsed.hostname.getD "")) := by
  constructor
  · intro h parsed hparsed hvalid
    apply (pin_permitted_iff parsed _ (resolve 2) _).mp
    intro client hclient sent hsent ip hcontacts
    exact h client hclient ip
      ((send_contacted_iff hblock (hlisted parsed hparsed) hparsed hvalid).mpr
        ⟨sent, hsent, hcontacts⟩)
  · intro h client hclient ip hcontacted
    cases hvalid : policy.validateOutboundUrl (resolve 0) r.url with
    | error e =>
      unfold send at hcontacted
      rw [hvalid] at hcontacted
      cases e <;> cases hcontacted
    | ok validated =>
      rcases URLAllowlist.validateOutboundUrl_eq_ok hvalid with ⟨rfl, parsed, hparsed, _⟩
      rcases (send_contacted_iff hblock (hlisted parsed hparsed) hparsed hvalid).mp
        hcontacted with ⟨sent, hsent, hcontacts⟩
      exact (pin_permitted_iff parsed _ (resolve 2) _).mpr (h parsed hparsed hvalid) client
        hclient sent hsent ip hcontacts

end HTTPTransport

/-!
# A name that changes its address
-/

section Rebinding

def heartbeatUrl : ParsedUrl where
  scheme := "http"
  hostname := some "peer.example"
  port := .ok (some 8080)
  path := "/heartbeat"

@[reducible] def peerParser : UrlParser := UrlParser.single heartbeatUrl

attribute [local instance] peerParser

def strictPolicy : URLAllowlist where
  allowlist := ∅
  blockPrivate := true
  allowedNetworks := []

def heartbeatRequest : OutboundRequest where
  method := "GET"
  url := "http://peer.example:8080/heartbeat"
  body := none
  headers := Dict.empty
  timeoutSec := 5

def publicAddress : IPAddress := .v4 (quad 8 8 8 8)

def privateAddress : IPAddress := .v4 (quad 10 0 0 1)

def metadataAddress : IPAddress := .v4 (quad 169 254 169 254)

def resolving : List Resolution -> Nat -> String -> Resolution
  | [], _, _ => .error (.gaierror "no such host")
  | first :: _, 0, _ => first
  | _ :: rest, n + 1, host => resolving rest n host

theorem steadyName_permitted :
    strictPolicy.Permits publicAddress ∧
      forall client : HttpClient,
        client.Follows (resolving [.ok [publicAddress], .ok [publicAddress]] 2) ->
        forall ip, (HTTPTransport.send strictPolicy
          (resolving [.ok [publicAddress], .ok [publicAddress]]) (some client)
          heartbeatRequest).contacted = some ip -> strictPolicy.Permits ip := by
  have hpublic : strictPolicy.Permits publicAddress := by decide
  refine ⟨hpublic, (HTTPTransport.send_permitted_iff rfl ?_).mpr ?_⟩
  · intro parsed _
    rfl
  · intro parsed hparsed _ port _
    exact hpublic

theorem rebound_not_permitted :
    (exists client : HttpClient,
      client.Follows (resolving [.ok [publicAddress], .ok [privateAddress]] 2) ∧
        (HTTPTransport.send strictPolicy
          (resolving [.ok [publicAddress], .ok [privateAddress]]) (some client)
          heartbeatRequest).contacted = some privateAddress) ∧
      ¬ strictPolicy.Permits privateAddress ∧
    (exists client : HttpClient,
      client.Follows (resolving [.ok [publicAddress], .error (.gaierror "try again"),
          .ok [metadataAddress]] 2) ∧
        (HTTPTransport.send strictPolicy
          (resolving [.ok [publicAddress], .error (.gaierror "try again"),
            .ok [metadataAddress]]) (some client) heartbeatRequest).contacted =
          some metadataAddress) ∧
      ¬ strictPolicy.Permits metadataAddress := by
  refine ⟨⟨_, HttpClient.preferring_follows _ privateAddress (.error ""), ?_⟩, ?_,
    ⟨_, HttpClient.preferring_follows _ metadataAddress (.error ""), ?_⟩, ?_⟩
  · decide
  · decide
  · decide
  · decide

end Rebinding

end Network
end Membrane
