import AiGateway.Admission.Retry
import AiGateway.Billing.CostSum
import AiGateway.Billing.TimeRules
import AiGateway.Codex.History
import AiGateway.Codex.Runtime
import AiGateway.Codex.Status
import AiGateway.ControlPlane.Publication
import AiGateway.Journal.RoundTrip
import AiGateway.Pipeline.Projection
import AiGateway.RequestBody.Base64Field
import AiGateway.RequestBody.PatternMatcher
import AiGateway.RequestLog.Capacity
import AiGateway.RequestPolicy.Outbound
import AiGateway.Routing.AffinityCache
import AiGateway.Routing.Authorized
import AiGateway.Routing.Interleaving
import AiGateway.Routing.Periodic
import AiGateway.Routing.Preflight
import AiGateway.Routing.Probe
import AiGateway.Routing.Stickiness
import AiGateway.Streaming.Guarded
import AiGateway.Streaming.RoundTrip
import AiGateway.Topology.SelfService
import AiGateway.Transforms.HeaderOrder
import AiGateway.Transforms.Rewrite
import AiGateway.Upstream.Timeouts
import AiGateway.Usage.Canonical
import AiGateway.Usage.Chunking
import AiGateway.WebSocket.Lifecycle
