import AiGateway.Lib.PackedBits
import AiGateway.RuntimeConfig.Validate

/-! Compilation of the control-plane records into a routing snapshot. Sets of identifiers are
kept as lists; indexing that would abort the source is a panic here. -/
namespace AiGateway.RuntimeConfig
open Domain Lib Checked Stage

abbrev Compile := Checked String

abbrev Words := List (BitVec 64)

def setBit (words : Words) (slot : ℕ) : Compile Words := demand (PackedBits.set? words slot)

def indexGroups (groups : List ChannelGroupRecord) :
    Except String (Table Uuid ChannelGroupRecord) :=
  groups.foldlM (fun allGroups group => do
    validateGroup group
    ensure (allGroups.get group.id).isNone (dup "channel group")
    pure (allGroups.insert group.id group)) ∅

def allowedProtocols : ApiOperation → List ConnectorProtocol
  | .chatCompletions | .responses => [.nonStream, .sse]
  | .responsesWebSocket => [.websocket]
  | .standaloneWebSearch | .imagesGeneration | .imagesEdit => [.nonStream]

def validateForOperation (operation : ApiOperation) (protocols : List ConnectorProtocol) : Bool :=
  !protocols.isEmpty && decide (protocols.length ≤ (allowedProtocols operation).length) &&
    protocols.all (allowedProtocols operation).contains && decide protocols.Nodup

def protocolTransport (operation : ApiOperation) : ConnectorProtocol → CapabilityTransport
  | .nonStream => if operation = .imagesEdit then .multipart else .httpJson
  | .sse => .httpSse
  | .websocket => .websocket

section Channels
variable {Plan Proxy : Type} (env : Env Plan Proxy) (settings : SystemRuntimeSettings)
  (resources : Resources Plan Proxy) (allGroups : Table Uuid ChannelGroupRecord)

def indexChannels (channels : List ChannelRecord) : Except String (Table Uuid ChannelRecord) :=
  channels.foldlM (fun allChannels channel => do
    ensure (allChannels.get channel.id).isNone (dup "channel id")
    validateChannel env channel allGroups
    validateChannelResources channel resources
    pure (allChannels.insert channel.id channel)) ∅

def compileProxy (channel : ChannelRecord) : Compile (Option Proxy) :=
  match channel.proxyId with
  | none => pure none
  | some id => (demand (resources.proxies.get id)).map some

/-- The transforms of the template, or none. -/
def compileDefaults (channel : ChannelRecord) (apiFormat : ApiFormat) : Compile Plan :=
  match channel.configTemplateId with
  | none => pure (env.noop apiFormat)
  | some id =>
    (demand (resources.templates.get id)).map (fun template => template.transformPlan apiFormat)

def pluginTransports (connectorKind : ConnectorKind) (operation : ApiOperation) :
    Option (List CapabilityTransport) :=
  ((env.pluginProtocols connectorKind operation).filter (validateForOperation operation)).map
    (fun protocols => protocols.map (protocolTransport operation))

def compileChannel (channel : ChannelRecord) : Compile CompiledChannel := do
  lift (env.compileAuth channel)
  let apiFormat ← lift (parseFormat channel.apiFormat)
  let proxy ← compileProxy resources channel
  let defaults ← compileDefaults env resources channel apiFormat
  let channelOverride ← lift (compileChannelDocument env channel apiFormat)
  let effectiveTransforms ← lift ((env.compose defaults channelOverride).mapError
    ("channel effective transform plan is invalid: " ++ ·))
  lift (ensure (!(channel.supportsStandaloneWebSearch &&
    !env.requestJsonIsEmpty effectiveTransforms))
    "standalone web search channels do not support request JSON transforms")
  let timeouts ← lift (compileTimeouts channel)
  let group ← demand (allGroups.get channel.channelGroupId)
  let connectorKind ← lift (channelConnectorKind channel group)
  let _ ← lift (channelRequestCompression channel group)
  let identity ← lift (compiledChannelIdentity channel)
  let baseUrl ← lift (env.parseUrl channel.id channel.baseUrl)
  let compiled := ((CompiledChannel.newWithConnectorPolicyAutomationAndBilling channel.id
    channel.channelGroupId apiFormat connectorKind baseUrl channel.availableModels
    channel.supportsWebsocket channel.supportsStandaloneWebSearch channel.autoDisableAllowed
    channel.autoDisabled channel.testModel
    (env.outboundNetworkPolicyFingerprint proxy (timeouts.connect.getD settings.connectTimeout))
    ).withChannelIdentity identity).withTransports channel.transports
  pure (match pluginTransports env connectorKind identity.apiOperation with
    | some transports => compiled.restrictTransports transports
    | none => compiled)

/-- Channels that are disabled, by hand or automatically, or whose group is, are left out. -/
def addChannel (channels : Table Uuid CompiledChannel) (channel : ChannelRecord) :
    Compile (Table Uuid CompiledChannel) :=
  if channel.enabled then do
    let compiled ← compileChannel env settings resources allGroups channel
    let group ← demand (allGroups.get channel.channelGroupId)
    pure (if !channel.autoDisabled && group.enabled then channels.insert channel.id compiled
      else channels)
  else pure channels

end Channels

/-- Slots are positions in the sorted list of channel ids. -/
def assignSlots (sortedChannelIds : List Uuid) : Table Uuid ℕ := Table.ofList sortedChannelIds.zipIdx

def addToGroup (allChannels : Table Uuid ChannelRecord) (channelsByGroup : Table Uuid (List Uuid))
    (id : Uuid) : Compile (Table Uuid (List Uuid)) := do
  let channel ← demand (allChannels.get id)
  let members := (channelsByGroup.get channel.channelGroupId).getD []
  pure (channelsByGroup.insert channel.channelGroupId (members ++ [id]))

structure RuleScan where
  unavailableCandidates : Table Uuid Uuid
  targetCandidates : List Uuid
  modelCapableCandidates : List Uuid
  targetCandidateCount : ℕ
  modelCapableCandidateCount : ℕ
  tierChannels : Table ℤ (List CompiledCandidate)
  tierStrategies : Table ℤ SelectionStrategy
  candidateSlots : Table (Uuid × String) ℕ

def RuleScan.init : RuleScan := ⟨∅, [], [], 0, 0, ∅, ∅, ∅⟩

structure RuleContext where
  allGroups : Table Uuid ChannelGroupRecord
  allChannels : Table Uuid ChannelRecord
  channelSlots : Table Uuid ℕ
  channels : Table Uuid CompiledChannel

section Rules
variable {Plan Proxy : Type} (env : Env Plan Proxy) (ctx : RuleContext)

/-- An exact pair of channel and model keeps one slot across the tiers of a rule. -/
def addCandidate (priority : ℤ) (scan : RuleScan) (candidate : ModelRuleRouteCandidate) :
    Compile RuleScan := do
  let compiled ← lift (orReject (ctx.channels.get candidate.channelId)
    "eligible route channel was not compiled")
  let candidateKey := (candidate.channelId, candidate.upstreamModel)
  let candidateSlot := (scan.candidateSlots.get candidateKey).getD scan.candidateSlots.len
  let channelSlot ← demand (ctx.channelSlots.get candidate.channelId)
  let tierCandidates := (scan.tierChannels.get priority).getD []
  pure { scan with
    candidateSlots := scan.candidateSlots.insert candidateKey candidateSlot
    tierChannels := scan.tierChannels.insert priority (tierCandidates ++
      [⟨candidateSlot, channelSlot, compiled, candidate.upstreamModel, candidate.weight.toNat⟩]) }

def visitCapable (record : ModelRuleRecord) (priority : ℤ) (scan : RuleScan)
    (candidate : ModelRuleRouteCandidate) (channel : ChannelRecord) (group : ChannelGroupRecord) :
    Compile RuleScan := do
  lift (env.validateEffectiveChannelPrices record channel.billingMultiplier)
  let scan := { scan with
    modelCapableCandidateCount := scan.modelCapableCandidateCount + 1
    modelCapableCandidates := scan.modelCapableCandidates.insert candidate.channelId }
  if group.enabled && channel.enabled && !channel.autoDisabled then
    addCandidate ctx priority scan candidate
  else
    pure { scan with unavailableCandidates :=
      scan.unavailableCandidates.insert candidate.channelId channel.channelGroupId }

def visitCandidate (record : ModelRuleRecord) (priority : ℤ) (scan : RuleScan)
    (candidate : ModelRuleRouteCandidate) : Compile RuleScan := do
  let channel ← lift (orReject (ctx.allChannels.get candidate.channelId)
    "enabled model rule references a missing channel")
  let group ← lift (orReject (ctx.allGroups.get channel.channelGroupId)
    "enabled model rule channel belongs to a missing channel group")
  let scan := { scan with
    targetCandidateCount := scan.targetCandidateCount + 1
    targetCandidates := scan.targetCandidates.insert candidate.channelId }
  if channel.availableModels.contains candidate.upstreamModel then
    visitCapable env ctx record priority scan candidate channel group
  else pure scan

def visitTier (record : ModelRuleRecord) (scan : RuleScan) (tier : ModelRuleRoutingTier) :
    Compile RuleScan := do
  let strategy ← lift (parseStrategy tier.selectionStrategy)
  let scan := { scan with tierStrategies := scan.tierStrategies.insert tier.priority strategy }
  tier.candidates.foldlM (visitCandidate env ctx record tier.priority) scan

def candidateOrder (left right : CompiledCandidate) : Prop :=
  left.channel.id < right.channel.id ∨
    (left.channel.id = right.channel.id ∧ left.upstreamModel ≤ right.upstreamModel)

instance : DecidableRel candidateOrder := fun _ _ => by
  unfold candidateOrder
  infer_instance

def addWeight (aggregateWeight : ℕ) (candidate : CompiledCandidate) : Except String ℕ := do
  ensure (decide (aggregateWeight + candidate.weight < 2 ^ 63))
    "route tier aggregate candidate weight overflowed"
  pure (aggregateWeight + candidate.weight)

def buildTier (scan : RuleScan) (priority : ℤ) : Compile CompiledRouteTier := do
  let tierCandidates ← demand (scan.tierChannels.get priority)
  let tierCandidates := tierCandidates.insertionSort candidateOrder
  let strategy ← demand (scan.tierStrategies.get priority)
  let aggregateWeight ← lift (tierCandidates.foldlM addWeight 0)
  lift (ensure (decide (0 < aggregateWeight))
    "route tier aggregate candidate weight must be positive")
  pure (.new env.sha256 priority strategy tierCandidates)

def packSlot (channelSlots : Table Uuid ℕ) (words : Words) (channelId : Uuid) : Compile Words := do
  let slot ← demand (channelSlots.get channelId)
  setBit words slot

def packSlots (channelSlots : Table Uuid ℕ) (channelIds : List Uuid) : Compile Words :=
  channelIds.foldlM (packSlot channelSlots) (PackedBits.zeros 64 channelSlots.len)

def pushRoute (channelSlots : Table Uuid ℕ) (routeSlot : ℕ) (routesByChannelSlot : List (List ℕ))
    (channelId : Uuid) : Compile (List (List ℕ)) := do
  let slot ← demand (channelSlots.get channelId)
  let routes ← demand routesByChannelSlot[slot]?
  pure (routesByChannelSlot.set slot (routes ++ [routeSlot]))

structure CompiledRules where
  modelRules : Table ModelRouteKey CompiledModelRule
  routesByChannelSlot : List (List ℕ)
  ids : List Uuid

def newRule (record : ModelRuleRecord) (routeSlot : ℕ) (scan : RuleScan)
    (tiers : List CompiledRouteTier) (targetCandidates modelCapableCandidates : Words) :
    CompiledModelRule where
  routeSlot := routeSlot
  id := record.id
  modelId := record.modelId
  clientModel := record.clientModel
  apiOperation := record.apiOperation
  tiers := tiers
  unavailableCandidates :=
    (scan.unavailableCandidates.toList.insertionSort (fun a b => a.1 ≤ b.1)).map
      (fun entry => ⟨entry.1, entry.2⟩)
  targetCandidates := targetCandidates
  modelCapableCandidates := modelCapableCandidates
  targetCandidateCount := scan.targetCandidateCount
  modelCapableCandidateCount := scan.modelCapableCandidateCount

def RuleScan.authorizationCandidates (scan : RuleScan) : List Uuid :=
  if scan.modelCapableCandidates.isEmpty then scan.targetCandidates
  else scan.modelCapableCandidates

def addRule (rules : CompiledRules) (record : ModelRuleRecord) : Compile CompiledRules := do
  let format ← lift (parseFormat record.apiFormat)
  lift (ensure (record.apiOperation.apiFormat == format)
    "model rule api_operation does not match its api_format")
  let scan ← record.routingTiers.foldlM (visitTier env ctx record) .init
  let tiers ← (scan.tierChannels.keys.insertionSort (· ≤ ·)).mapM (buildTier env scan)
  let targetCandidates ← packSlots ctx.channelSlots scan.targetCandidates
  let modelCapableCandidates ← packSlots ctx.channelSlots scan.modelCapableCandidates
  let routeSlot := rules.modelRules.len
  let routes ← scan.authorizationCandidates.foldlM (pushRoute ctx.channelSlots routeSlot)
    rules.routesByChannelSlot
  lift (compileModelPriceSnapshot record)
  lift (env.compileAdvancedBilling record.advancedBilling)
  let key : ModelRouteKey := ⟨record.apiOperation, record.clientModel⟩
  lift (ensure (rules.modelRules.get key).isNone
    "duplicate enabled model rule for the same client model and API format")
  pure
    { rules with
      routesByChannelSlot := routes
      modelRules := rules.modelRules.insert key
        (newRule record routeSlot scan tiers targetCandidates modelCapableCandidates) }

def compileRule (rules : CompiledRules) (record : ModelRuleRecord) : Compile CompiledRules := do
  lift (ensure (!rules.ids.contains record.id) (dup "model rule id"))
  lift (validateRule record)
  lift (validateRuleReferences record ctx.allGroups ctx.allChannels)
  let rules := { rules with ids := record.id :: rules.ids }
  if record.enabled && record.modelEnabled then addRule env ctx rules record else pure rules

def compileRules (records : List ModelRuleRecord) : Compile CompiledRules :=
  records.foldlM (compileRule env ctx)
    ⟨∅, List.replicate ctx.channelSlots.len [], []⟩

end Rules

def allow (channelSlots : Table Uuid ℕ) (granted : Words × List Uuid) (channelId : Uuid) :
    Compile (Words × List Uuid) := do
  let slot ← demand (channelSlots.get channelId)
  let words ← setBit granted.1 slot
  pure (words, granted.2.insert channelId)

def compileAllowedChannelSlots (record : ApiKeyRecord) (channelsByGroup : Table Uuid (List Uuid))
    (channelSlots : Table Uuid ℕ) : Compile (Words × List Uuid) := do
  let granted ← record.allowedGroupIds.foldlM (fun granted groupId =>
      ((channelsByGroup.get groupId).getD []).foldlM (allow channelSlots) granted)
    (PackedBits.zeros 64 channelSlots.len, [])
  record.allowedChannelIds.foldlM (allow channelSlots) granted

def compileAccessibleRouteSlots (rules : CompiledRules) (allowedChannelIds : List Uuid)
    (allowedChannelSlots : Words) (channelSlots : Table Uuid ℕ) : Compile Words := do
  let words ← allowedChannelIds.foldlM (fun words channelId => do
      let slot ← demand (channelSlots.get channelId)
      let routes ← demand rules.routesByChannelSlot[slot]?
      routes.foldlM setBit words)
    (PackedBits.zeros 64 rules.modelRules.len)
  assert (rules.modelRules.values.all (fun rule =>
    bitIsSet words rule.routeSlot == rule.authorizationCandidatesIntersect allowedChannelSlots))
  pure words

structure CompiledRouting extends RuleContext where
  channelsByGroup : Table Uuid (List Uuid)
  rules : CompiledRules

structure CompiledKeys where
  apiKeys : Table Digest CompiledApiKey
  ids : List Uuid
  authorizationProfiles : Table Words AuthorizationProfile

section Keys
variable {Plan Proxy : Type} (env : Env Plan Proxy) (routing : CompiledRouting)

def compileProfile (granted : Words × List Uuid) : Compile AuthorizationProfile := do
  let accessibleRouteSlots ←
    compileAccessibleRouteSlots routing.rules granted.2 granted.1 routing.channelSlots
  pure (.new env.sha256 granted.2 granted.1 accessibleRouteSlots)

/-- Keys with the same allowed slots share the profile compiled for the first of them. -/
def shareProfile (profiles : Table Words AuthorizationProfile) (granted : Words × List Uuid) :
    Compile AuthorizationProfile :=
  match profiles.get granted.1 with
  | some profile => pure profile
  | none => compileProfile env routing granted

def addKey (keys : CompiledKeys) (record : ApiKeyRecord) : Compile CompiledKeys := do
  let formats ← lift (record.allowedApiFormats.mapM parseFormat)
  let permissions ← lift (record.permissions.mapM parsePermission)
  let granted ← compileAllowedChannelSlots record routing.channelsByGroup routing.channelSlots
  let authorization ← shareProfile env routing keys.authorizationProfiles granted
  let requestsPerMinute ← lift (positivePolicy record.requestsPerMinute "requests_per_minute")
  let maxConcurrentRequests ←
    lift (positivePolicy record.maxConcurrentRequests "max_concurrent_requests")
  let hash := env.apiKeyHash record.secretValue
  lift (ensure (keys.apiKeys.get hash).isNone "duplicate active API key secret")
  pure
    { keys with
      authorizationProfiles := keys.authorizationProfiles.insert granted.1 authorization
      apiKeys := keys.apiKeys.insert hash
        { id := record.id
          userId := record.userId
          websocketEnabled := record.userWebsocketEnabled
          filterFastMode := record.userFilterFastMode
          allowedApiFormats := formats
          permissions := permissions
          authorization := authorization
          expiresAt := record.expiresAt
          requestsPerMinute := requestsPerMinute
          maxConcurrentRequests := maxConcurrentRequests
          quotaLimitAmount := record.quotaLimitAmount
          quotaUsedAmount := record.quotaUsedAmount } }

def ApiKeyRecord.isActive (record : ApiKeyRecord) : Bool :=
  record.status == "active" && record.userStatus == "active"

def compileKey (keys : CompiledKeys) (record : ApiKeyRecord) : Compile CompiledKeys := do
  lift (ensure (!keys.ids.contains record.id) (dup "API key id"))
  lift (validateKey record routing.allGroups routing.allChannels)
  let keys := { keys with ids := record.id :: keys.ids }
  if record.isActive then addKey env routing keys record else pure keys

def compileKeys (records : List ApiKeyRecord) : Compile CompiledKeys :=
  records.foldlM (compileKey env routing) ⟨∅, [], ∅⟩

variable (records : ControlPlaneRecords) (settings : SystemRuntimeSettings)

def compileRouting : Compile CompiledRouting := do
  let allGroups ← lift (indexGroups records.groups)
  let resources ← lift env.compileResources
  let allChannels ← lift (indexChannels env resources allGroups records.channels)
  let sortedChannelIds := allChannels.keys.insertionSort (· ≤ ·)
  let channelSlots := assignSlots sortedChannelIds
  let channelsByGroup ← sortedChannelIds.foldlM (addToGroup allChannels) ∅
  lift (env.compileScheduledTestModels allChannels.values)
  let channels ← records.channels.foldlM (addChannel env settings resources allGroups) ∅
  let context : RuleContext := ⟨allGroups, allChannels, channelSlots, channels⟩
  let rules ← compileRules env context records.modelRules
  pure { context with channelsByGroup := channelsByGroup, rules := rules }

def compileControlPlane : Compile CompiledRuntimeConfig := do
  let routing ← compileRouting env records settings
  let keys ← compileKeys env routing records.apiKeys
  pure
    { apiKeys := keys.apiKeys
      modelRules := .fromFlat routing.rules.modelRules
      channels := routing.channels
      sessionAffinity := settings.sessionAffinity }

end Keys
end AiGateway.RuntimeConfig
