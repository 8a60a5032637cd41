import AiGateway.Lib.Utf8
import AiGateway.Transforms.Headers

/-! Which client headers the gateway takes, and the last check before a request leaves it. -/
namespace AiGateway.RequestPolicy
open Lib Transforms

inductive RequestInterface where
  | chatCompletions
  | responsesHttp
  | responsesWebSocket
  | standaloneWebSearch
  | imagesGeneration
  | imagesEdit
  deriving DecidableEq

inductive RequestPolicyLayer where
  | client
  deriving DecidableEq

inductive RequestPolicyLocation where
  | header
  | body
  deriving DecidableEq

inductive RequestPolicyFailure where
  | invalidBody
  | unsupportedField
  | unsupportedValue
  deriving DecidableEq

structure RequestPolicyError where
  connectorCode : Option String
  layer : RequestPolicyLayer
  interface : RequestInterface
  location : RequestPolicyLocation
  failure : RequestPolicyFailure
  field : Option Bytes
  deriving DecidableEq

/-- Header names are ASCII, so characters are bytes. -/
def boundedHeaderName (name : HeaderName) : Bytes :=
  name.take 128 ++ if 128 < name.length then utf8 "…" else []

inductive UnknownAction where
  | allow
  | ignore
  | reject
  deriving DecidableEq

structure HeaderPolicy where
  unknown : UnknownAction
  allow : List HeaderName
  allowPrefixes : List Bytes
  ignore : List HeaderName

/-- The header part of the embedded contract. Both lists are sorted, so that searching them finds
every member. -/
def clientHeaders : HeaderPolicy where
  unknown := .ignore
  allow := ["accept", "accept-encoding", "authorization", "baggage", "connection",
    "content-digest", "content-encoding", "content-length", "content-md5", "content-type", "digest",
    "etag", "idempotency-key", "last-modified", "openai-beta", "openai-organization",
    "openai-project", "originator", "range", "repr-digest", "session-id", "session_id", "thread-id",
    "thread_id", "traceparent", "tracestate", "user-agent", "x-client-request-id",
    "x-codex-beta-features", "x-codex-image-turn-id", "x-codex-routing-hint",
    "x-codex-turn-metadata", "x-codex-turn-state", "x-codex-window-id",
    "x-openai-client-user-agent", "x-openai-internal-codex-responses-lite", "x-request-id",
    "x-responsesapi-include-timing-metrics", "x-session-id"].map utf8
  allowPrefixes := ["x-stainless-"].map utf8
  ignore := ["cf-connecting-ip", "cf-connecting-ipv6", "cf-ipcountry", "cf-pseudo-ipv4", "cf-ray",
    "cf-visitor", "forwarded", "true-client-ip", "via", "x-client-ip", "x-forwarded-for",
    "x-forwarded-host", "x-forwarded-port", "x-forwarded-proto", "x-original-forwarded-for",
    "x-real-ip"].map utf8

def headerAction (policy : HeaderPolicy) (name : HeaderName) : UnknownAction :=
  if policy.allow.contains name then .allow
  else if policy.ignore.contains name then .ignore
  else if policy.allowPrefixes.any (fun start => start.isPrefixOf name) then .allow
  else policy.unknown

def clientHeaderExplicitlyIgnored (name : HeaderName) : Bool := clientHeaders.ignore.contains name

def isTextByte (byte : UInt8) : Bool := (32 ≤ byte && byte < 127) || byte == 9

/-- `HeaderValue::to_str`. -/
def toStr (value : HeaderValue) : Option Bytes :=
  if value.all isTextByte then some value else none

/-- A value with other bytes than visible ASCII declares nothing here. -/
def textConnectionHeaderNames (headers : HeaderMap) : List HeaderName :=
  (((headers.getAll (utf8 "connection")).filterMap toStr).flatMap (·.splitOn 44)).filterMap
    (fun name => headerNameFromBytes (trim name))

section Filter
variable (layer : RequestPolicyLayer) (interface : RequestInterface) (policy : HeaderPolicy)
  (internalConnectionNames : Option (List HeaderName))

/-- Connection-scoped headers stay although they are ignored: the stages behind see them. -/
def filterHeader (filtered : HeaderMap) (entry : HeaderName × HeaderValue) :
    Except RequestPolicyError HeaderMap :=
  let internalConnectionHeader := internalConnectionNames.any (fun names =>
    names.contains entry.1 || entry.1 == utf8 "connection")
  match headerAction policy entry.1 with
  | .allow => .ok (filtered.append entry.1 entry.2)
  | .ignore =>
    if internalConnectionHeader then .ok (filtered.append entry.1 entry.2) else .ok filtered
  | .reject => .error ⟨none, layer, interface, .header, .unsupportedField,
      some (boundedHeaderName entry.1)⟩

def filterHeaders (headers : HeaderMap) : Except RequestPolicyError HeaderMap :=
  headers.foldlM (filterHeader layer interface policy internalConnectionNames) []

end Filter

def filterClientHeaders (interface : RequestInterface) (headers : HeaderMap) :
    Except RequestPolicyError HeaderMap :=
  filterHeaders .client interface clientHeaders (some (textConnectionHeaderNames headers)) headers

def connectorHeaderIsForbidden (name : HeaderName) : Bool :=
  (name != utf8 "authorization" && requestHeaderIsProtected name) ||
    (utf8 "sec-websocket-").isPrefixOf name || clientHeaderExplicitlyIgnored name

/-- Cookies may be credentials the gateway itself holds. -/
def outboundRequestHeaderIsRemoved (connectionNames : List HeaderName) (name : HeaderName) : Bool :=
  (name != utf8 "cookie" && connectorHeaderIsForbidden name) ||
    (name != utf8 "authorization" && connectionNames.contains name)

def sanitizeOutboundRequestHeaders (headers : HeaderMap) : HeaderMap :=
  let connectionNames := textConnectionHeaderNames headers
  let removed := (headers.map (·.1)).dedup.filter (outboundRequestHeaderIsRemoved connectionNames)
  removed.foldl HeaderMap.remove headers

/-- `is_hop_by_hop` of the proxy. -/
def isHopByHop (connectionNames : List HeaderName) (name : HeaderName) : Bool :=
  connectionNames.contains name || headerIsHopByHop name

/-- The proxy reads the declared names byte by byte, as the plans do. -/
def forwardHeaders (headers : HeaderMap) (request : Bool) : HeaderMap :=
  let connectionNames := connectionHeaderNames headers
  headers.filter (fun entry => !(isHopByHop connectionNames entry.1 ||
    (request && ([utf8 "host", utf8 "content-length", utf8 "authorization",
      utf8 "proxy-authorization", utf8 "accept-encoding"].contains entry.1 ||
        clientHeaderExplicitlyIgnored entry.1))))

end AiGateway.RequestPolicy
