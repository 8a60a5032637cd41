import AiGateway.Routing.FirstTier
import AiGateway.RuntimeConfig.Authorization

/-! What a selection and the calls on its lease do to the session-affinity cache. The search
through the tiers leaves it alone; only the lookup before it and the removal after it touch it. -/
namespace AiGateway.Routing
open Domain Lib FirstTier RuntimeConfig List

def SessionAffinityMatch.cacheKey (affinity : SessionAffinityMatch) (key : CompiledApiKey)
    (rule : CompiledModelRule) : AffinityCacheKey :=
  ⟨affinity.ruleFingerprint, key.id, rule.id, affinity.sessionHash⟩

namespace AffinityFrame

theorem tryAcquireChannel_affinity (s : RoutingState) (i : ChannelIdentity)
    (now : Duration) : (s.tryAcquireChannel i now).2.affinity = s.affinity := by
  have hin : (s.channelStateOrInsert i).2.affinity = s.affinity := by
    unfold RoutingState.channelStateOrInsert
    split <;> rfl
  unfold RoutingState.tryAcquireChannel
  dsimp only
  split
  · exact hin
  · exact hin

section Search
variable {q : Query} {rule : CompiledModelRule} {preferred : Option RouteCandidateIdentity}
  {tier : CompiledRouteTier} {fuel : ℕ} {s s' : RoutingState} {allow : Bool}
  {outcome : Option Acquired}

theorem selectInTier_affinity
    (h : selectInTier q rule tier preferred allow fuel s = some (outcome, s')) :
    s'.affinity = s.affinity := by
  induction fuel generalizing allow s with
  | zero => cases h
  | succ fuel ih =>
    rw [selectInTier] at h
    cases hpi : pick q rule tier preferred allow fuel s with
    | none => simp [hpi] at h
    | some picked =>
      obtain ⟨choice, s₁⟩ := picked
      obtain ⟨-, hp⟩ := pick_same hpi
      cases choice with
      | none =>
        simp only [hpi, Option.some.injEq, Prod.mk.injEq] at h
        rw [← h.2]
        exact hp
      | some choice =>
        obtain ⟨c, cacheHit⟩ := choice
        simp only [hpi] at h
        have ha := tryAcquireChannel_affinity s₁
          (ChannelIdentity.fromChannel c.channel) q.now
        cases hac :
            s₁.tryAcquireChannel (ChannelIdentity.fromChannel c.channel) q.now with
        | mk hd s₂ =>
          rw [hac] at ha
          cases hd with
          | none =>
            simp only [hac] at h
            exact (ih h).trans (ha.trans hp)
          | some hd =>
            simp only [hac, Option.some.injEq, Prod.mk.injEq] at h
            rw [← h.2]
            exact ha.trans hp

theorem selectInTiers_affinity {tiers : List CompiledRouteTier}
    (h : selectInTiers q rule preferred fuel tiers s = some (outcome, s')) :
    s'.affinity = s.affinity := by
  induction tiers generalizing s with
  | nil =>
    cases h
    rfl
  | cons tier tiers ih =>
    rw [selectInTiers] at h
    cases ht : selectInTier q rule tier preferred true fuel s with
    | none => simp [ht] at h
    | some res =>
      obtain ⟨acq, s₁⟩ := res
      have hf : s₁.affinity = s.affinity := selectInTier_affinity ht
      cases acq with
      | none =>
        simp only [ht] at h
        exact (ih h).trans hf
      | some acq =>
        simp only [ht, Option.some.injEq, Prod.mk.injEq] at h
        rw [← h.2]
        exact hf

variable {snapshot : CompiledRuntimeConfig} {key : CompiledApiKey} {operation : ApiOperation}
  {model : String} {affinity : Option SessionAffinityMatch} {excludedCandidateSlots : List ℕ}
  {capability : ChannelCapability} {lookupAt now : Duration}

/-- The two ways a selection by a usable rule ends. -/
theorem select_cases {res : SelectionResult}
    (hrule : UsableRule snapshot key operation model rule)
    (h : selectWithAffinityExcludingCapability snapshot key operation model affinity
      excludedCandidateSlots capability lookupAt now fuel s = some (res, s'))
    {prep : Option PreparedAffinity} {s₁ : RoutingState}
    (hp : prepareAffinity s key rule affinity lookupAt = (prep, s₁)) {preserve : Bool}
    (hpr : preserveInapplicableAffinity ⟨key, excludedCandidateSlots, capability, now⟩ s₁ rule
      (prep.bind PreparedAffinity.preferredCandidate) = preserve) :
    ∃ outcome s₂, selectInTiers ⟨key, excludedCandidateSlots, capability, now⟩ rule
        (prep.bind PreparedAffinity.preferredCandidate) fuel rule.tiers s₁ = some (outcome, s₂) ∧
      ((outcome = none ∧ res = .noHealthyChannel rule ∧
          s' = removeAffinityIf (fun _ => !preserve) prep s₂) ∨
        ∃ acq, outcome = some acq ∧ res = .selected (acq.route rule prep !preserve) ∧
          s' = removeAffinityIf (fun _ => !acq.cacheHit && !preserve) prep s₂) := by
  unfold selectWithAffinityExcludingCapability at h
  rw [hrule.1] at h
  dsimp only at h
  rw [if_pos hrule.2, hp] at h
  rw [hpr] at h
  split at h
  · cases h
  · rename_i s₂ ht
    cases h
    exact ⟨none, s₂, ht, .inl ⟨rfl, rfl, rfl⟩⟩
  · rename_i acq s₂ ht
    cases h
    exact ⟨some acq, s₂, ht, .inr ⟨acq, rfl, rfl, rfl⟩⟩

theorem removeAffinityIf_never {stale : RouteCandidateIdentity → Bool}
    (hs : ∀ c, stale c = false) (prep : Option PreparedAffinity)
    (s : RoutingState) : removeAffinityIf stale prep s = s := by
  unfold removeAffinityIf
  split
  · rfl
  · split
    · rfl
    · rw [hs]
      rfl

end Search

inductive LeaseCall where
  | requestSucceeded (now : Duration)
  | requestFailed
  | responseHeadersReceived
  | connectionFailed (now : Duration)
  | probeFailed (now : Duration)
  | drop
  deriving DecidableEq

def LeaseCall.perform (lease : ChannelLease) (s : RoutingState) : LeaseCall → RoutingState
  | .requestSucceeded now => lease.requestSucceeded s now
  | .requestFailed => lease.requestFailed s
  | .responseHeadersReceived => lease.responseHeadersReceived s
  | .connectionFailed now => lease.connectionFailed s now
  | .probeFailed now => lease.probeFailed s now
  | .drop => lease.drop s

theorem drop_affinity (lease : ChannelLease) (s : RoutingState) :
    (lease.drop s).affinity = s.affinity := by
  unfold ChannelLease.drop
  dsimp only
  split_ifs <;> rfl

/-- A lease without a binding never reaches the cache. -/
theorem perform_affinity {lease : ChannelLease} (hl : lease.affinity = none)
    (s : RoutingState) (call : LeaseCall) : (call.perform lease s).affinity = s.affinity := by
  cases call with
  | requestSucceeded now => simp only [LeaseCall.perform, ChannelLease.requestSucceeded, hl]
  | requestFailed => simp only [LeaseCall.perform, ChannelLease.requestFailed, hl]
  | responseHeadersReceived => rfl
  | connectionFailed now => rfl
  | probeFailed now =>
    simp only [LeaseCall.perform, ChannelLease.probeFailed]
    split_ifs <;> rfl
  | drop => exact drop_affinity lease s

/-- The session prefers a candidate that could serve the key now, but not over the transport. -/
def Inapplicable (q : Query) (s : RoutingState) (rule : CompiledModelRule)
    (preferred : RouteCandidateIdentity) : Prop :=
  ∃ tier ∈ rule.tiers, ∃ candidate ∈ tier.candidates, preferred.isMatch candidate = true ∧
    q.admits candidate = true ∧ q.capability.permits candidate.channel = false ∧
    s.usable (ChannelIdentity.fromChannel candidate.channel) q.now = true

theorem preserve_iff (q : Query) (s : RoutingState) (rule : CompiledModelRule)
    (preferred : RouteCandidateIdentity) :
    preserveInapplicableAffinity q s rule (some preferred) = true ↔
      Inapplicable q s rule preferred := by
  simp only [preserveInapplicableAffinity, Inapplicable, Option.any_some, any_eq_true,
    mem_flatMap, Bool.and_eq_true, Bool.not_eq_true', and_assoc]
  constructor
  · rintro ⟨c, ⟨tier, ht, hm⟩, hr⟩
    exact ⟨tier, ht, c, hm, hr⟩
  · rintro ⟨tier, ht, c, hm, hr⟩
    exact ⟨c, ⟨tier, ht, hm⟩, hr⟩

variable {c preferred : RouteCandidateIdentity}

theorem affinityLookup_some {st : AffinityState} {key : AffinityCacheKey} {now : Duration}
    (h : (st.affinityLookup key now).1 = some c) :
    (st.affinityLookup key now).2 = st := by
  unfold AffinityState.affinityLookup at h ⊢
  split_ifs at h ⊢
  split
  · rfl
  · rename_i e hg
    rw [hg] at h
    dsimp only at h
    split_ifs at h ⊢
    rfl

theorem prepareAffinity_some {s : RoutingState} {key : CompiledApiKey} {rule : CompiledModelRule}
    {affinity : SessionAffinityMatch} {lookupAt : Duration}
    (h : (s.affinity.affinityLookup (affinity.cacheKey key rule) lookupAt).1 = some preferred) :
    prepareAffinity s key rule (some affinity) lookupAt =
      (some ⟨affinity.cacheKey key rule, affinity.ruleName, affinity.ttl, some preferred⟩, s) := by
  have hs := affinityLookup_some h
  unfold SessionAffinityMatch.cacheKey at h hs
  simp only [prepareAffinity, h, hs, SessionAffinityMatch.cacheKey]

section Kept
variable {snapshot : CompiledRuntimeConfig} {key : CompiledApiKey} {operation : ApiOperation}
  {model : String} {affinity : SessionAffinityMatch} {excludedCandidateSlots : List ℕ}
  {capability : ChannelCapability} {lookupAt now : Duration} {s : RoutingState}
  {rule : CompiledModelRule} {preferred : RouteCandidateIdentity} {s' : RoutingState}

section
variable (hrule : UsableRule snapshot key operation model rule)
  (hpreferred : (s.affinity.affinityLookup (affinity.cacheKey key rule) lookupAt).1 = some preferred)
include hrule hpreferred

theorem select_keeps (hin : Inapplicable ⟨key, excludedCandidateSlots, capability, now⟩ s rule preferred)
    {fuel : ℕ} {res : SelectionResult}
    (h : selectWithAffinityExcludingCapability snapshot key operation model (some affinity)
      excludedCandidateSlots capability lookupAt now fuel s = some (res, s')) :
    s'.affinity = s.affinity ∧ ∀ lease, res.lease = some lease → lease.affinity = none := by
  obtain ⟨outcome, s₂, ht, he⟩ :=
    select_cases hrule h (prepareAffinity_some hpreferred) ((preserve_iff _ _ _ _).mpr hin)
  have hse : s₂.affinity = s.affinity := selectInTiers_affinity ht
  rcases he with ⟨-, rfl, hs⟩ | ⟨acq, -, rfl, hs⟩
  · have hk : s' = s₂ := hs.trans (removeAffinityIf_never (fun _ => rfl) _ _)
    rw [hk]
    exact ⟨hse, fun lease hl => by cases hl⟩
  · have hk : s' = s₂ := hs.trans (removeAffinityIf_never (fun _ => Bool.and_false _) _ _)
    rw [hk]
    refine ⟨hse, fun lease hl => ?_⟩
    cases hl
    rfl

end

/-- Every channel record has its operation, as all that are built from the stored capabilities do. -/
def Built (records : ControlPlaneRecords) : Prop :=
  ∀ channel ∈ records.channels, channel.apiOperation.isSome = true

/-- What the selections of a pinned channel ask for: nothing, or WebSockets under that operation. -/
def Pinned (operation : ApiOperation) (capability : ChannelCapability) : Prop :=
  capability = .any ∨ capability = .responsesWebSocket ∧ operation = .responsesWebSocket

/-- A compiled rule of the WebSocket operation has only channels that support it. -/
theorem compiled_supportsWebsocket {Plan Proxy : Type} {env : Env Plan Proxy}
    {recs : ControlPlaneRecords} {settings : SystemRuntimeSettings}
    (hc : compileControlPlane env recs settings = .ok snapshot) (hb : Built recs)
    (hr : snapshot.operationRule .responsesWebSocket model = some rule)
    {tier : CompiledRouteTier} (ht : tier ∈ rule.tiers) {c : CompiledCandidate}
    (hm : c ∈ tier.candidates) : c.channel.supportsWebsocket = true := by
  obtain ⟨rt, keys, -, hrt, -, rfl⟩ := compileControlPlane_ok hc
  obtain ⟨rec, -, -, hk, hf⟩ := hrt.rules.source ⟨.responsesWebSocket, model⟩ rule
    ((CompiledModelRoutes.get_fromFlat _ _ _).symm.trans hr)
  have hop : rule.apiOperation = .responsesWebSocket :=
    congrArg ModelRouteKey.apiOperation (hf.key_eq.symm.trans hk)
  obtain ⟨ch, hch, hfr, hall⟩ := hf.origin tier ht c hm
  obtain ⟨op, ho⟩ := Option.isSome_iff_exists.mp (hb ch hch)
  rw [ho, Option.all_some, hop, beq_iff_eq] at hall
  exact hfr.websocket (hall ▸ ho)

/-- A selection whose capability rules out the healthy candidate the session prefers leaves the
cache as it is, and its lease never reaches it. In a compiled configuration the selection of a pinned
channel rules out no candidate. -/
theorem inapplicable_affinity_is_kept (hrule : UsableRule snapshot key operation model rule)
    (hpreferred : (s.affinity.affinityLookup (affinity.cacheKey key rule) lookupAt).1 =
      some preferred)
    (hinapplicable : Inapplicable ⟨key, excludedCandidateSlots, capability, now⟩ s rule preferred) :
    (∀ fuel result s',
      selectWithAffinityExcludingCapability snapshot key operation model (some affinity)
        excludedCandidateSlots capability lookupAt now fuel s = some (result, s') →
      s'.affinity = s.affinity ∧ ∀ lease, result.lease = some lease →
        ∀ (call : LeaseCall) (t : RoutingState), (call.perform lease t).affinity = t.affinity) ∧
    ∀ {Plan Proxy : Type} (env : Env Plan Proxy) (records : ControlPlaneRecords)
      (settings : SystemRuntimeSettings), compileControlPlane env records settings = .ok snapshot →
      Built records → ¬ Pinned operation capability := by
  constructor
  · intro fuel result s' h
    obtain ⟨hs, hl⟩ := select_keeps hrule hpreferred hinapplicable h
    exact ⟨hs, fun lease hr call t => perform_affinity (hl lease hr) t call⟩
  · rintro Plan Proxy env records settings hc hb hpinned
    obtain ⟨tier, ht, c, hm, -, -, hruled, -⟩ := hinapplicable
    obtain rfl | ⟨rfl, rfl⟩ := hpinned
    · cases hruled
    · change ChannelCapability.permits .responsesWebSocket _ = false at hruled
      rw [ChannelCapability.permits_responsesWebSocket,
        compiled_supportsWebsocket hc hb hrule.1 ht hm] at hruled
      cases hruled

end Kept

/-- A channel whose plugin only streams. -/
def streamingChannel : CompiledChannel := (plainChannel 1).restrictTransports [.httpSse]

def mixedRule : CompiledModelRule where
  routeSlot := 0
  id := 7
  modelId := 7
  clientModel := "large"
  apiOperation := .responses
  tiers := [⟨0, .weightedRoundRobin, 0,
    [⟨0, 0, streamingChannel, "large", 1⟩, ⟨1, 1, plainChannel 2, "large", 1⟩]⟩]
  unavailableCandidates := []
  targetCandidates := [3#64]
  modelCapableCandidates := [3#64]
  targetCandidateCount := 2
  modelCapableCandidateCount := 2

def mixedSnapshot : CompiledRuntimeConfig where
  apiKeys := ∅
  modelRules := .fromFlat
    ((∅ : Table ModelRouteKey CompiledModelRule).insert ⟨.responses, "large"⟩ mixedRule)
  channels := ∅
  sessionAffinity := ⟨true, 8, []⟩

def chatSession : SessionAffinityMatch := ⟨"chat", 3, 5, 60⟩

/-- A fresh runtime in which the session is bound to the streaming channel. -/
def boundRuntime : RoutingState := { constantState 5#64 with
    affinity := ⟨true, 8, (∅ : Table Digest String).insert 3 "chat",
      (∅ : Table AffinityCacheKey AffinityEntry).insert (chatSession.cacheKey openKey mixedRule)
        ⟨⟨1, "large"⟩, 100, 1⟩, [(chatSession.cacheKey openKey mixedRule, 1)], 1⟩ }

theorem mixedSnapshot_rule :
    UsableRule mixedSnapshot openKey .responses "large" mixedRule := by
  constructor
  · exact (CompiledModelRoutes.get_fromFlat _ _ _).trans (Table.get_insert_self _ _ _)
  · show openKey.permitsRoute 0 = true
    decide

theorem boundRuntime_prefers :
    (boundRuntime.affinity.affinityLookup (chatSession.cacheKey openKey mixedRule) 0).1 =
      some ⟨1, "large"⟩ := by
  decide +kernel

theorem boundRuntime_inapplicable :
    Inapplicable ⟨openKey, [], .responsesNonStream, 0⟩ boundRuntime mixedRule ⟨1, "large"⟩ :=
  ⟨_, mem_singleton_self _, _, mem_cons_self, by decide +kernel⟩

/-- A request without streaming is answered by the other channel and keeps the session. -/
theorem inapplicable_affinity_is_kept_mixed :
    (selectWithAffinityExcludingCapability mixedSnapshot openKey .responses "large"
      (some chatSession) [] .responsesNonStream 0 0 3 boundRuntime).isSome = true ∧
    ∀ result s', selectWithAffinityExcludingCapability mixedSnapshot openKey .responses
        "large" (some chatSession) [] .responsesNonStream 0 0 3 boundRuntime = some (result, s') →
      s'.affinity = boundRuntime.affinity := by
  refine ⟨by decide +kernel, fun result s' h => ?_⟩
  exact ((inapplicable_affinity_is_kept mixedSnapshot_rule boundRuntime_prefers
    boundRuntime_inapplicable).1 3 result s' h).1

end AffinityFrame
end AiGateway.Routing
