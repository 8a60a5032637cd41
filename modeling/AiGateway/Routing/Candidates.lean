import AiGateway.Domain.CompiledRouting

/-! What a request asks of a channel, and the identities under which channels and
candidates are tracked across snapshots. -/
namespace AiGateway.Routing
open Domain

inductive ChannelCapability where
  | any
  | unsupportedProtocol
  | responsesWebSocket
  | standaloneWebSearch
  | transport (transport : CapabilityTransport)
  | responsesNonStream
  deriving DecidableEq

namespace ChannelCapability

def permits (capability : ChannelCapability) (channel : CompiledChannel) : Bool :=
  match capability with
  | .any => true
  | .unsupportedProtocol => false
  | .responsesWebSocket => channel.supportsWebsocket && channel.permitsTransport .websocket
  | .standaloneWebSearch =>
    channel.supportsStandaloneWebSearch && channel.permitsTransport .httpJson
  | .transport wanted => channel.permitsTransport wanted
  | .responsesNonStream =>
    channel.permitsTransport .httpJson ||
      (decide (channel.connectorKind = .codexOauth) && !channel.hasStrictTransportContract &&
        channel.permitsTransport .httpSse)

def forOperation (operation : ApiOperation) (protocol : RequestProtocol) : ChannelCapability :=
  if decide (protocol = .webSocket) ≠ decide (operation = .responsesWebSocket) then
    .unsupportedProtocol
  else
    match operation with
    | .responsesWebSocket => .responsesWebSocket
    | .standaloneWebSearch => .standaloneWebSearch
    | .imagesGeneration => .transport .httpJson
    | .imagesEdit => .transport .multipart
    | .chatCompletions => if protocol = .sse then .transport .httpSse else .transport .httpJson
    | .responses => if protocol = .sse then .transport .httpSse else .responsesNonStream

/-- For WebSocket requests the flag alone decides. -/
theorem permits_responsesWebSocket (ch : CompiledChannel) :
    permits .responsesWebSocket ch = ch.supportsWebsocket := by
  have hf := ch.websocket_flag
  unfold permits CompiledChannel.permitsTransport
  rw [← hf, Bool.and_self]

end ChannelCapability

structure ChannelIdentity where
  id : Uuid
  connectivityFingerprint : String
  outboundNetworkPolicyFingerprint : Digest
  deriving DecidableEq

def ChannelIdentity.fromChannel (channel : CompiledChannel) : ChannelIdentity :=
  ⟨channel.id, channel.connectivityFingerprint, channel.outboundNetworkPolicyFingerprint⟩

structure RouteCandidateIdentity where
  channelId : Uuid
  upstreamModel : String
  deriving DecidableEq

namespace RouteCandidateIdentity

def fromCandidate (candidate : CompiledCandidate) : RouteCandidateIdentity :=
  ⟨candidate.channel.id, candidate.upstreamModel⟩

def isMatch (identity : RouteCandidateIdentity) (candidate : CompiledCandidate) : Bool :=
  decide (identity.channelId = candidate.channel.id) &&
    decide (identity.upstreamModel = candidate.upstreamModel)

end RouteCandidateIdentity

def plainChannel (id : Uuid) : CompiledChannel :=
  .newWithConnectorPolicyAutomationAndBilling id 0 .openAiResponses .openAiCompatible
    "https://upstream.example/v1" ["large", "small"] true false false false none 0

end AiGateway.Routing
