import AiGateway.Routing.Candidates
import AiGateway.RuntimeConfig.Validate

/-! The timeouts of a channel: validation resolves them by the format of the channel, a request by
its operation. -/
namespace AiGateway.Upstream
open Domain Lib RuntimeConfig Routing

structure UpstreamTimeoutDefaults where
  connect : Duration
  responseHeader : Duration
  imagesResponseHeader : Duration
  standaloneWebSearchResponseHeader : Duration
  streamIdle : Duration

namespace UpstreamTimeoutDefaults

def responseHeaderFor (defaults : UpstreamTimeoutDefaults) : ApiFormat → Duration
  | .openAiImages => defaults.imagesResponseHeader
  | .openAiChatCompletions | .openAiResponses => defaults.responseHeader

def responseHeaderForOperation (defaults : UpstreamTimeoutDefaults) : ApiOperation → Duration
  | .standaloneWebSearch => defaults.standaloneWebSearchResponseHeader
  | operation => defaults.responseHeaderFor operation.apiFormat

end UpstreamTimeoutDefaults

structure ResolvedUpstreamTimeouts where
  connect : Duration
  responseHeader : Duration
  streamIdle : Duration
  deriving DecidableEq

inductive ResolvedUpstreamPolicyError where
  | invalidTimeoutOrdering
  deriving DecidableEq

section Resolve
variable (defaults : UpstreamTimeoutDefaults) (overrides : ChannelTimeoutPolicy)

def resolveWithResponseHeader (responseHeader : Duration) : ResolvedUpstreamTimeouts :=
  ⟨overrides.connect.getD defaults.connect, overrides.responseHeader.getD responseHeader,
    overrides.streamIdle.getD defaults.streamIdle⟩

def validate (timeouts : ResolvedUpstreamTimeouts) :
    Except ResolvedUpstreamPolicyError ResolvedUpstreamTimeouts :=
  if timeouts.connect < timeouts.responseHeader then .ok timeouts
  else .error .invalidTimeoutOrdering

def tryResolve : Except ResolvedUpstreamPolicyError ResolvedUpstreamTimeouts :=
  validate (resolveWithResponseHeader defaults overrides defaults.responseHeader)

def tryResolveFor (format : ApiFormat) :
    Except ResolvedUpstreamPolicyError ResolvedUpstreamTimeouts :=
  validate (resolveWithResponseHeader defaults overrides (defaults.responseHeaderFor format))

def tryResolveForOperation (operation : ApiOperation) :
    Except ResolvedUpstreamPolicyError ResolvedUpstreamTimeouts :=
  validate (resolveWithResponseHeader defaults overrides
    (defaults.responseHeaderForOperation operation))

end Resolve

/-- A compiled channel with the timeouts of its upstream policy. -/
structure ProbeChannel where
  channel : CompiledChannel
  timeouts : ChannelTimeoutPolicy

structure TimeoutSnapshot where
  upstreamTimeouts : UpstreamTimeoutDefaults
  probeChannels : List ProbeChannel

def validateSnapshotUpstreamPolicies (snapshot : TimeoutSnapshot) :
    Except ResolvedUpstreamPolicyError Unit :=
  forM snapshot.probeChannels (fun probe => do
    let _ ← tryResolveFor snapshot.upstreamTimeouts probe.timeouts probe.channel.apiFormat
    .ok ())

/-- Requests for the operation can be routed to the channel. -/
def Serves (channel : CompiledChannel) (operation : ApiOperation) : Prop :=
  operation.apiFormat = channel.apiFormat ∧
    ∃ protocol, (ChannelCapability.forOperation operation protocol).permits channel = true

section Proofs
variable {defaults : UpstreamTimeoutDefaults} {overrides : ChannelTimeoutPolicy}

theorem validate_eq_ok {timeouts : ResolvedUpstreamTimeouts} :
    (∃ rsv, validate timeouts = .ok rsv) ↔ timeouts.connect < timeouts.responseHeader := by
  unfold validate
  split_ifs with hor
  · exact iff_of_true ⟨timeouts, rfl⟩ hor
  · exact iff_of_false (fun ⟨_, h⟩ => by cases h) hor

/-- For every other operation the request takes the default that validation took. -/
theorem responseHeaderForOperation_eq {op : ApiOperation}
    (h : op ≠ .standaloneWebSearch) : defaults.responseHeaderForOperation op =
      defaults.responseHeaderFor op.apiFormat := by
  cases op with
  | standaloneWebSearch => exact absurd rfl h
  | chatCompletions => rfl
  | responses => rfl
  | responsesWebSocket => rfl
  | imagesGeneration => rfl
  | imagesEdit => rfl

theorem tryResolveFor_of_validate {snap : TimeoutSnapshot}
    (h : validateSnapshotUpstreamPolicies snap = .ok ()) {probe : ProbeChannel}
    (hp : probe ∈ snap.probeChannels) :
    ∃ rsv, tryResolveFor snap.upstreamTimeouts probe.timeouts probe.channel.apiFormat =
      .ok rsv := by
  obtain ⟨rsv, hr, -⟩ := Stage.bind_eq_ok.mp (Stage.forM_eq_ok.mp h probe hp)
  exact ⟨rsv, hr⟩

end Proofs

/-- In an accepted snapshot the timeouts of a request resolve for every operation a channel serves,
except that a web search fails when the channel does not override the response header timeout and
the default for web searches does not exceed the connect timeout. A WebSocket session resolves
them always. -/
theorem accepted_timeouts_resolve (snapshot : TimeoutSnapshot)
    (h : validateSnapshotUpstreamPolicies snapshot = .ok ()) :
    ∀ probe ∈ snapshot.probeChannels, ∀ operation, Serves probe.channel operation →
      ((∃ resolved, tryResolveForOperation snapshot.upstreamTimeouts probe.timeouts operation =
          .ok resolved) ↔
        (operation = .standaloneWebSearch → probe.timeouts.responseHeader = none →
          probe.timeouts.connect.getD snapshot.upstreamTimeouts.connect <
            snapshot.upstreamTimeouts.standaloneWebSearchResponseHeader)) ∧
      (operation = .responsesWebSocket →
        ∃ resolved, tryResolve snapshot.upstreamTimeouts probe.timeouts = .ok resolved) := by
  intro probe hp operation hse
  have hv := tryResolveFor_of_validate h hp
  rw [← hse.1] at hv
  have hor := validate_eq_ok.mp hv
  refine ⟨?_, fun hw => ?_⟩
  · rw [tryResolveForOperation, validate_eq_ok]
    by_cases hs : operation = .standaloneWebSearch
    · subst hs
      cases hov : probe.timeouts.responseHeader with
      | none =>
        refine Iff.trans ?_ (forall_prop_of_true rfl).symm
        refine Iff.trans ?_ (forall_prop_of_true rfl).symm
        simp only [resolveWithResponseHeader, hov, Option.getD_none]
        rfl
      | some override =>
        refine iff_of_true ?_ (fun _ hn => by cases hn)
        simp only [resolveWithResponseHeader, hov, Option.getD_some] at hor ⊢
        exact hor
    · rw [responseHeaderForOperation_eq hs]
      exact iff_of_true hor (fun hot => absurd hot hs)
  · subst hw
    exact hv

/-- A channel for web searches that takes up to 40 s to connect, under defaults of 10 s to connect
and 60 s for response headers. -/
def searchChannel : ProbeChannel :=
  ⟨.newWithConnectorPolicyAutomationAndBilling 1 0 .openAiResponses .openAiCompatible
      "https://upstream.example/v1" ["large"] true true false false none 0,
    ⟨some (Duration.fromSecs 40), none, none⟩⟩

def searchSnapshot (searchResponseHeader : Duration) : TimeoutSnapshot :=
  ⟨⟨Duration.fromSecs 10, Duration.fromSecs 60, Duration.fromSecs 60, searchResponseHeader,
    Duration.fromSecs 90⟩, [searchChannel]⟩

theorem serves_search : Serves searchChannel.channel .standaloneWebSearch :=
  ⟨rfl, .nonStream, by decide⟩

theorem accepted_timeouts_resolve_search : ∃ resolved,
    tryResolveForOperation (searchSnapshot (Duration.fromSecs 50)).upstreamTimeouts
      searchChannel.timeouts .standaloneWebSearch = .ok resolved :=
  ((accepted_timeouts_resolve (searchSnapshot (Duration.fromSecs 50)) (by decide) searchChannel
    List.mem_cons_self .standaloneWebSearch serves_search).1).mpr (fun _ _ => by decide)

/-- The defaults are ordered and the snapshot is accepted, and every web search on the channel
fails. -/
theorem accepted_search_fails :
    validateSnapshotUpstreamPolicies (searchSnapshot (Duration.fromSecs 30)) = .ok () ∧
      Serves searchChannel.channel .standaloneWebSearch ∧
      (searchSnapshot (Duration.fromSecs 30)).upstreamTimeouts.connect <
        (searchSnapshot (Duration.fromSecs 30)).upstreamTimeouts.standaloneWebSearchResponseHeader ∧
      tryResolveForOperation (searchSnapshot (Duration.fromSecs 30)).upstreamTimeouts
        searchChannel.timeouts .standaloneWebSearch = .error .invalidTimeoutOrdering :=
  ⟨by decide, serves_search, by decide, by decide⟩

end AiGateway.Upstream
