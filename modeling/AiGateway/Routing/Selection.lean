import AiGateway.Routing.Runtime

/-! Route selection: the first priority tier with an eligible candidate serves the request,
by session affinity where the cached candidate lies in that tier, by weight otherwise. -/
namespace AiGateway.Routing
open Domain Lib WeightedTicket

/-- A matched and hashed session-affinity rule of the request. -/
structure SessionAffinityMatch where
  ruleName : String
  ruleFingerprint : Digest
  sessionHash : Digest
  ttl : Duration
  deriving DecidableEq

structure SessionAffinitySelection where
  ruleName : String
  cacheHit : Bool
  deriving DecidableEq

structure PreparedAffinity where
  key : AffinityCacheKey
  ruleName : String
  ttl : Duration
  preferredCandidate : Option RouteCandidateIdentity
  deriving DecidableEq

structure SelectedRoute where
  rule : CompiledModelRule
  channel : CompiledChannel
  candidateSlot : ℕ
  channelSlot : ℕ
  upstreamModel : String
  sessionAffinity : Option SessionAffinitySelection
  lease : ChannelLease
  deriving DecidableEq

inductive SelectionResult where
  | unknownOrInaccessibleModel
  | noHealthyChannel (rule : CompiledModelRule)
  | selected (route : SelectedRoute)
  deriving DecidableEq

/-- What one call requires of a candidate, with the clock reading it uses throughout. -/
structure Query where
  key : CompiledApiKey
  excludedCandidateSlots : List ℕ
  capability : ChannelCapability
  now : Duration

namespace Query

/-- The part of eligibility that health does not touch, capability aside. -/
def admits (q : Query) (candidate : CompiledCandidate) : Bool :=
  q.key.permitsRouteCandidate candidate.channelSlot &&
    !q.excludedCandidateSlots.contains candidate.candidateSlot

def eligible (q : Query) (s : RoutingState) (candidate : CompiledCandidate) : Bool :=
  q.capability.permits candidate.channel && q.admits candidate &&
    s.usable (ChannelIdentity.fromChannel candidate.channel) q.now

end Query

def prepareAffinity (s : RoutingState) (key : CompiledApiKey) (rule : CompiledModelRule)
    (affinity : Option SessionAffinityMatch) (now : Duration) :
    Option PreparedAffinity × RoutingState :=
  match affinity with
  | none => (none, s)
  | some affinity =>
    let cacheKey : AffinityCacheKey :=
      ⟨affinity.ruleFingerprint, key.id, rule.id, affinity.sessionHash⟩
    let (preferred, cache) := s.affinity.affinityLookup cacheKey now
    (some ⟨cacheKey, affinity.ruleName, affinity.ttl, preferred⟩, { s with affinity := cache })

/-- The cached candidate can serve the key, but not over the requested transport. -/
def preserveInapplicableAffinity (q : Query) (s : RoutingState) (rule : CompiledModelRule)
    (preferred : Option RouteCandidateIdentity) : Bool :=
  preferred.any (fun preferred =>
    (rule.tiers.flatMap CompiledRouteTier.candidates).any (fun candidate =>
      preferred.isMatch candidate && q.admits candidate &&
        !q.capability.permits candidate.channel &&
        s.usable (ChannelIdentity.fromChannel candidate.channel) q.now))

def affinityCandidate (q : Query) (s : RoutingState) (tier : CompiledRouteTier)
    (preferred : Option RouteCandidateIdentity) : Option CompiledCandidate :=
  preferred.bind (fun preferred =>
    tier.candidates.find? (fun candidate => preferred.isMatch candidate && q.eligible s candidate))

def candidatesAreActive (q : Query) (s : RoutingState) (tier : CompiledRouteTier) : Bool :=
  (tier.candidates.filter (fun candidate =>
    q.capability.permits candidate.channel && q.admits candidate)).all (fun candidate =>
      s.channelIsActive (ChannelIdentity.fromChannel candidate.channel))

def roundRobinKey (q : Query) (rule : CompiledModelRule) (tier : CompiledRouteTier) :
    RoundRobinKey :=
  ⟨rule.id, tier.priority, tier.fingerprint, q.key.routingScopeFingerprint, q.capability⟩

/-- A tier that holds candidates of a retired snapshot uses a cursor that is thrown away. -/
def selectByStrategy (q : Query) (rule : CompiledModelRule) (tier : CompiledRouteTier)
    (fuel : ℕ) (s : RoutingState) : Option (Option CompiledCandidate × RoutingState) :=
  match tier.strategy with
  | .weightedRandom =>
    (weightedTicket tier.candidates (q.eligible s) fuel s.entropy).map
      (fun draw => (draw.1, { s with entropy := draw.2 }))
  | .weightedRoundRobin =>
    if candidatesAreActive q s tier then
      let key := roundRobinKey q rule tier
      let choice := RoundRobin.smoothRoundRobin RoundRobin.wrapI64
        ((s.roundRobin.get key).getD ∅) tier.candidates (q.eligible s)
      some (choice.1, { s with roundRobin := s.roundRobin.insert key choice.2 })
    else
      some ((RoundRobin.smoothRoundRobin RoundRobin.wrapI64 ∅ tier.candidates (q.eligible s)).1, s)

structure Acquired where
  candidate : CompiledCandidate
  cacheHit : Bool
  state : ℕ
  halfOpenClaim : Word

/-- A candidate of the tier and whether affinity chose it. -/
def pick (q : Query) (rule : CompiledModelRule) (tier : CompiledRouteTier)
    (preferred : Option RouteCandidateIdentity) (allowAffinity : Bool) (fuel : ℕ)
    (s : RoutingState) : Option (Option (CompiledCandidate × Bool) × RoutingState) :=
  match if allowAffinity then affinityCandidate q s tier preferred else none with
  | some candidate => some (some (candidate, true), s)
  | none =>
    (selectByStrategy q rule tier fuel s).map
      (fun choice => (choice.1.map (fun candidate => (candidate, false)), choice.2))

/-- The loop of one tier; `none` when the fuel runs out. -/
def selectInTier (q : Query) (rule : CompiledModelRule) (tier : CompiledRouteTier)
    (preferred : Option RouteCandidateIdentity) :
    Bool → ℕ → RoutingState → Option (Option Acquired × RoutingState)
  | _, 0, _ => none
  | allowAffinity, fuel + 1, s =>
    match pick q rule tier preferred allowAffinity fuel s with
    | none => none
    | some (none, s) => some (none, s)
    | some (some (candidate, cacheHit), s) =>
      match s.tryAcquireChannel (ChannelIdentity.fromChannel candidate.channel) q.now with
      | (none, s) => selectInTier q rule tier preferred false fuel s
      | (some (state, claim), s) => some (some ⟨candidate, cacheHit, state, claim⟩, s)

def selectInTiers (q : Query) (rule : CompiledModelRule)
    (preferred : Option RouteCandidateIdentity) (fuel : ℕ) :
    List CompiledRouteTier → RoutingState → Option (Option Acquired × RoutingState)
  | [], s => some (none, s)
  | tier :: tiers, s =>
    match selectInTier q rule tier preferred true fuel s with
    | none => none
    | some (none, s) => selectInTiers q rule preferred fuel tiers s
    | some (some acquired, s) => some (some acquired, s)

/-- The route of an acquired candidate. The lease keeps a binding only if `bind` is set. -/
def Acquired.route (acquired : Acquired) (rule : CompiledModelRule)
    (affinity : Option PreparedAffinity) (bind : Bool) : SelectedRoute where
  rule := rule
  channel := acquired.candidate.channel
  candidateSlot := acquired.candidate.candidateSlot
  channelSlot := acquired.candidate.channelSlot
  upstreamModel := acquired.candidate.upstreamModel
  sessionAffinity := affinity.map (fun affinity => ⟨affinity.ruleName, acquired.cacheHit⟩)
  lease :=
    { identity := ChannelIdentity.fromChannel acquired.candidate.channel
      state := acquired.state
      halfOpenClaim := acquired.halfOpenClaim
      affinity := (affinity.filter (fun _ => bind)).map (fun affinity =>
        ⟨affinity.key, affinity.ttl, .fromCandidate acquired.candidate, acquired.cacheHit⟩) }

/-- Forget the cached candidate of the session if the predicate says so. -/
def removeAffinityIf (stale : RouteCandidateIdentity → Bool) (affinity : Option PreparedAffinity)
    (s : RoutingState) : RoutingState :=
  match affinity with
  | none => s
  | some affinity =>
    match affinity.preferredCandidate with
    | none => s
    | some candidate => if stale candidate then s.removeIfCandidate affinity.key candidate else s

/-- `lookupAt` is the clock reading of the affinity lookup, `now` the one taken after it. -/
def selectWithAffinityExcludingCapability (snapshot : CompiledRuntimeConfig)
    (key : CompiledApiKey) (operation : ApiOperation) (model : String)
    (affinity : Option SessionAffinityMatch) (excludedCandidateSlots : List ℕ)
    (capability : ChannelCapability) (lookupAt now : Duration) (fuel : ℕ) (s : RoutingState) :
    Option (SelectionResult × RoutingState) :=
  match snapshot.operationRule operation model with
  | none => some (.unknownOrInaccessibleModel, s)
  | some rule =>
    if key.permitsRoute rule.routeSlot then
      let (affinity, s) := prepareAffinity s key rule affinity lookupAt
      let q : Query := ⟨key, excludedCandidateSlots, capability, now⟩
      let preferred := affinity.bind PreparedAffinity.preferredCandidate
      let preserve := preserveInapplicableAffinity q s rule preferred
      match selectInTiers q rule preferred fuel rule.tiers s with
      | none => none
      | some (none, s) =>
        some (.noHealthyChannel rule, removeAffinityIf (fun _ => !preserve) affinity s)
      | some (some acquired, s) =>
        some (.selected (acquired.route rule affinity !preserve),
          removeAffinityIf (fun _ => !acquired.cacheHit && !preserve) affinity s)
    else some (.unknownOrInaccessibleModel, s)

/-- The candidate of the tier a stateful transport is pinned to. -/
def preferredInTier (q : Query) (s : RoutingState) (tier : CompiledRouteTier)
    (preferredChannelId : Uuid) : Option String → Option CompiledCandidate
  | some upstreamModel =>
    tier.candidates.find? (fun candidate =>
      decide (candidate.channel.id = preferredChannelId) &&
        decide (candidate.upstreamModel = upstreamModel) && q.eligible s candidate)
  | none =>
    match tier.candidates.filter (fun candidate =>
      decide (candidate.channel.id = preferredChannelId) && q.eligible s candidate) with
    | [candidate] => some candidate
    | _ => none

def selectPreferredChannelWithCapability (snapshot : CompiledRuntimeConfig)
    (key : CompiledApiKey) (operation : ApiOperation) (model : String) (preferredChannelId : Uuid)
    (preferredUpstreamModel : Option String) (affinity : Option SessionAffinityMatch)
    (excludedCandidateSlots : List ℕ) (capability : ChannelCapability)
    (lookupAt now : Duration) (s : RoutingState) : Option SelectedRoute × RoutingState :=
  match snapshot.operationRule operation model with
  | none => (none, s)
  | some rule =>
    if key.permitsRoute rule.routeSlot then
      let (affinity, s) := prepareAffinity s key rule affinity lookupAt
      let q : Query := ⟨key, excludedCandidateSlots, capability, now⟩
      let preferred := affinity.bind PreparedAffinity.preferredCandidate
      match rule.tiers.find? (fun tier => tier.candidates.any (q.eligible s)) with
      | none => (none, s)
      | some tier =>
        match (affinityCandidate q s tier preferred).or
          (preferredInTier q s tier preferredChannelId preferredUpstreamModel) with
        | none => (none, s)
        | some candidate =>
          match s.tryAcquireChannel (ChannelIdentity.fromChannel candidate.channel) now with
          | (none, s) => (none, s)
          | (some (state, claim), s) =>
            let identity := RouteCandidateIdentity.fromCandidate candidate
            let acquired : Acquired := ⟨candidate, decide (preferred = some identity), state, claim⟩
            (some (acquired.route rule affinity true),
              removeAffinityIf (fun cached => decide (cached ≠ identity)) affinity s)
    else (none, s)

/-- A WebSocket request matches channels by their WebSocket capability. -/
def selectWebsocketWithAffinityExcluding (snapshot : CompiledRuntimeConfig)
    (key : CompiledApiKey) (format : ApiFormat) (model : String)
    (affinity : Option SessionAffinityMatch) (excludedCandidateSlots : List ℕ)
    (lookupAt now : Duration) (fuel : ℕ) (s : RoutingState) :
    Option (SelectionResult × RoutingState) :=
  if format ≠ .openAiResponses then some (.unknownOrInaccessibleModel, s)
  else
    selectWithAffinityExcludingCapability snapshot key .responsesWebSocket model affinity
      excludedCandidateSlots .responsesWebSocket lookupAt now fuel s

/-- The read-only check made before an upgrade. -/
def hasAvailableWebsocketRoute (snapshot : CompiledRuntimeConfig) (key : CompiledApiKey)
    (connectorAvailable : CompiledChannel → Bool) (now : Duration) (s : RoutingState) : Bool :=
  snapshot.modelRules.values.any (fun rule =>
    decide (rule.apiOperation = .responsesWebSocket) && key.permitsRoute rule.routeSlot &&
      rule.tiers.any (fun tier => tier.candidates.any (fun candidate =>
        candidate.channel.supportsWebsocket &&
          key.permitsRouteCandidate candidate.channelSlot &&
          connectorAvailable candidate.channel &&
          s.usable (ChannelIdentity.fromChannel candidate.channel) now)))

/-- The registry of channel states, and with it every channel's health, is the same. -/
structure SameChannels (s s' : RoutingState) : Prop where
  states : s'.channelStates = s.channelStates
  heap : s'.heap = s.heap
  next : s'.nextRef = s.nextRef
  active : s'.activeChannels = s.activeChannels

namespace SameChannels

theorem refl (s : RoutingState) : SameChannels s s := ⟨rfl, rfl, rfl, rfl⟩

theorem trans {s₁ s₂ s₃ : RoutingState} (h : SameChannels s₁ s₂) (h' : SameChannels s₂ s₃) :
    SameChannels s₁ s₃ :=
  ⟨h'.states.trans h.states, h'.heap.trans h.heap, h'.next.trans h.next,
    h'.active.trans h.active⟩

theorem eligible {s s' : RoutingState} (h : SameChannels s s') (q : Query) :
    q.eligible s' = q.eligible s := by
  unfold Query.eligible RoutingState.usable
  rw [h.states, h.heap]

end SameChannels

/-- The channels change by one acquisition that returns the handle. -/
def Acquires (s s' : RoutingState) (identity : ChannelIdentity) (now : Duration)
    (handle : ℕ × Word) : Prop :=
  ∃ s₁ s₂, SameChannels s s₁ ∧ s₁.tryAcquireChannel identity now = (some handle, s₂) ∧
    SameChannels s₂ s'

theorem prepareAffinity_same (s : RoutingState) (key : CompiledApiKey) (rule : CompiledModelRule)
    (aff : Option SessionAffinityMatch) (now : Duration) :
    SameChannels s (prepareAffinity s key rule aff now).2 ∧
      (prepareAffinity s key rule aff now).2.entropy = s.entropy := by
  cases aff with
  | none => exact ⟨SameChannels.refl s, rfl⟩
  | some aff => exact ⟨⟨rfl, rfl, rfl, rfl⟩, rfl⟩

theorem removeAffinityIf_same (stale : RouteCandidateIdentity → Bool)
    (aff : Option PreparedAffinity) (s : RoutingState) :
    SameChannels s (removeAffinityIf stale aff s) := by
  unfold removeAffinityIf
  split
  · exact SameChannels.refl s
  · split
    · exact SameChannels.refl s
    · split_ifs
      · exact ⟨rfl, rfl, rfl, rfl⟩
      · exact SameChannels.refl s

/-- With no other thread acting, acquisition succeeds exactly on a usable channel. -/
theorem tryAcquireChannel_isSome (s : RoutingState) (i : ChannelIdentity)
    (now : Duration) : (s.tryAcquireChannel i now).1.isSome = s.usable i now := by
  unfold RoutingState.tryAcquireChannel RoutingState.channelStateOrInsert RoutingState.usable
  cases hg : s.channelStates.get i with
  | none =>
    have hn : ((s.insertState i (s.inActiveSet i)).heap s.nextRef) =
        ChannelState.new (s.inActiveSet i) := by simp [RoutingState.insertState]
    simp only [hn]
    rfl
  | some ref =>
    have ha := (s.heap ref).tryAcquire_isSome now
    dsimp only
    cases hr : (s.heap ref).tryAcquire now with
    | none => rw [← ha, hr]; rfl
    | some res => rw [← ha, hr]; rfl

/-- A refused acquisition changes nothing: a fresh state is never refused. -/
theorem tryAcquireChannel_none {s s' : RoutingState} {i : ChannelIdentity}
    {now : Duration} (h : s.tryAcquireChannel i now = (none, s')) : s' = s := by
  unfold RoutingState.tryAcquireChannel RoutingState.channelStateOrInsert at h
  cases hg : s.channelStates.get i with
  | none =>
    have hn : ((s.insertState i (s.inActiveSet i)).heap s.nextRef) =
        ChannelState.new (s.inActiveSet i) := by simp [RoutingState.insertState]
    simp only [hg, hn] at h
    cases h
  | some ref =>
    simp only [hg] at h
    cases hr : (s.heap ref).tryAcquire now with
    | none =>
      simp only [hr] at h
      exact (Prod.mk.inj h).2.symm
    | some res =>
      simp only [hr] at h
      cases h

section Effect
variable {q : Query} {rule : CompiledModelRule} {pref : Option RouteCandidateIdentity}
  {tier : CompiledRouteTier} {fuel : ℕ} {s s' : RoutingState}
  {outcome : Option Acquired × RoutingState}

theorem selectByStrategy_same {choice : Option CompiledCandidate}
    (h : selectByStrategy q rule tier fuel s = some (choice, s')) :
    SameChannels s s' ∧ s'.affinity = s.affinity := by
  unfold selectByStrategy at h
  cases hs : tier.strategy with
  | weightedRandom =>
    simp only [hs] at h
    obtain ⟨draw, -, heq⟩ := Option.map_eq_some_iff.mp h
    cases heq
    exact ⟨⟨rfl, rfl, rfl, rfl⟩, rfl⟩
  | weightedRoundRobin =>
    simp only [hs] at h
    split_ifs at h
    all_goals
      cases h
      exact ⟨⟨rfl, rfl, rfl, rfl⟩, rfl⟩

variable {allow : Bool} {s₁ s₂ : RoutingState} {now : Duration}

theorem pick_same {picked : Option (CompiledCandidate × Bool)}
    (h : pick q rule tier pref allow fuel s = some (picked, s')) :
    SameChannels s s' ∧ s'.affinity = s.affinity := by
  unfold pick at h
  split at h
  · cases h
    exact ⟨SameChannels.refl s, rfl⟩
  · obtain ⟨⟨choice, s''⟩, hs, heq⟩ := Option.map_eq_some_iff.mp h
    cases heq
    exact selectByStrategy_same hs

/-- How a search through tiers changes the channels. -/
def SearchEffect (q : Query) (s : RoutingState) : Option Acquired × RoutingState → Prop
  | (none, s') => SameChannels s s'
  | (some acquired, s') =>
    Acquires s s' (ChannelIdentity.fromChannel acquired.candidate.channel) q.now
      (acquired.state, acquired.halfOpenClaim)

theorem SearchEffect.of_same (hs : SameChannels s₁ s₂) (h : SearchEffect q s₂ outcome) :
    SearchEffect q s₁ outcome := by
  obtain ⟨acq, s'⟩ := outcome
  cases acq with
  | none => exact hs.trans h
  | some acq =>
    obtain ⟨s₃, s₄, hb, ha, haf⟩ := h
    exact ⟨s₃, s₄, hs.trans hb, ha, haf⟩

theorem selectInTier_effect
    (h : selectInTier q rule tier pref allow fuel s = some outcome) :
    SearchEffect q s outcome := by
  induction fuel generalizing allow s with
  | zero => cases h
  | succ fuel ih =>
    rw [selectInTier] at h
    cases hp : pick q rule tier pref allow fuel s with
    | none => simp [hp] at h
    | some picked =>
      obtain ⟨choice, s₁⟩ := picked
      obtain ⟨hs, -⟩ := pick_same hp
      cases choice with
      | none =>
        simp only [hp, Option.some.injEq] at h
        subst h
        exact hs
      | some choice =>
        obtain ⟨c, cacheHit⟩ := choice
        simp only [hp] at h
        cases ha :
            s₁.tryAcquireChannel (ChannelIdentity.fromChannel c.channel) q.now with
        | mk hd s₂ =>
          cases hd with
          | none =>
            simp only [ha] at h
            rw [tryAcquireChannel_none ha] at h
            exact (ih h).of_same hs
          | some hd =>
            simp only [ha, Option.some.injEq] at h
            subst h
            exact ⟨s₁, s₂, hs, ha, SameChannels.refl s₂⟩

theorem selectInTiers_effect {tiers : List CompiledRouteTier}
    (h : selectInTiers q rule pref fuel tiers s = some outcome) :
    SearchEffect q s outcome := by
  induction tiers generalizing s with
  | nil =>
    cases h
    exact SameChannels.refl s
  | cons tier tiers ih =>
    rw [selectInTiers] at h
    cases ht : selectInTier q rule tier pref true fuel s with
    | none => simp [ht] at h
    | some res =>
      obtain ⟨acq, s₁⟩ := res
      have he := selectInTier_effect ht
      cases acq with
      | none =>
        simp only [ht] at h
        exact (ih h).of_same he
      | some acq =>
        simp only [ht, Option.some.injEq] at h
        subst h
        exact he

/-- A call changes the channels by the acquisition of the lease it hands out, if any. -/
def CallEffect (now : Duration) (s s' : RoutingState) : Option ChannelLease → Prop
  | none => SameChannels s s'
  | some lease => Acquires s s' lease.identity now (lease.state, lease.halfOpenClaim)

theorem Acquires.trans_same {s₃ s₄ : RoutingState} {i : ChannelIdentity}
    {hd : ℕ × Word} (hb : SameChannels s₁ s₂)
    (h : Acquires s₂ s₃ i now hd) (haf : SameChannels s₃ s₄) :
    Acquires s₁ s₄ i now hd := by
  obtain ⟨s₅, s₆, hs, ha, hs'⟩ := h
  exact ⟨s₅, s₆, hb.trans hs, ha, hs'.trans haf⟩

def SelectionResult.lease : SelectionResult → Option ChannelLease
  | .selected route => some route.lease
  | _ => none

theorem select_effect {snap : CompiledRuntimeConfig} {key : CompiledApiKey}
    {op : ApiOperation} {model : String} {aff : Option SessionAffinityMatch}
    {excl : List ℕ} {cap : ChannelCapability} {lat : Duration}
    {res : SelectionResult}
    (h : selectWithAffinityExcludingCapability snap key op model aff
      excl cap lat now fuel s = some (res, s')) :
    CallEffect now s s' res.lease := by
  unfold selectWithAffinityExcludingCapability at h
  split at h
  · cases h
    exact SameChannels.refl s
  · rename_i rule hr
    split_ifs at h with hp
    · obtain ⟨hs, -⟩ := prepareAffinity_same s key rule aff lat
      generalize prepareAffinity s key rule aff lat = prep at h hs
      obtain ⟨prep, s₁⟩ := prep
      dsimp only at h hs
      split at h
      · cases h
      · rename_i s₂ ht
        have ht : SameChannels s₁ s₂ := selectInTiers_effect ht
        cases h
        exact (hs.trans ht).trans (removeAffinityIf_same _ _ _)
      · rename_i acq s₂ ht
        have ha := selectInTiers_effect ht
        cases h
        exact Acquires.trans_same hs ha (removeAffinityIf_same _ _ _)
    · cases h
      exact SameChannels.refl s

theorem selectPreferred_effect (snap : CompiledRuntimeConfig) (key : CompiledApiKey)
    (op : ApiOperation) (model : String) (pc : Uuid)
    (pm : Option String) (aff : Option SessionAffinityMatch)
    (excl : List ℕ) (cap : ChannelCapability) (lat now : Duration)
    {route : Option SelectedRoute}
    (h : selectPreferredChannelWithCapability snap key op model pc
      pm aff excl cap lat now s =
        (route, s')) :
    CallEffect now s s' (route.map SelectedRoute.lease) := by
  unfold selectPreferredChannelWithCapability at h
  split at h
  · cases h
    exact SameChannels.refl s
  · rename_i rule hr
    split_ifs at h with hp
    · obtain ⟨hs, -⟩ := prepareAffinity_same s key rule aff lat
      generalize prepareAffinity s key rule aff lat = prep at h hs
      obtain ⟨prep, s₁⟩ := prep
      dsimp only at h hs
      split at h
      · cases h
        exact hs
      · split at h
        · cases h
          exact hs
        · rename_i c hc
          split at h
          · rename_i s₂ ha
            cases h
            rw [tryAcquireChannel_none ha]
            exact hs
          · rename_i st claim s₂ ha
            cases h
            exact ⟨s₁, s₂, hs, ha, removeAffinityIf_same _ _ _⟩
    · cases h
      exact SameChannels.refl s

end Effect
end AiGateway.Routing
