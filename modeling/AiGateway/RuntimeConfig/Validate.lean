import AiGateway.RuntimeConfig.Records

/-! Validation of the control-plane records. Every check names what it rejects. -/
namespace AiGateway.RuntimeConfig
open Domain Lib Stage List

def dup (field : String) : String := "duplicate " ++ field

def require (field value : String) : Except String Unit :=
  ensure (!isBlank value) (field ++ " must not be blank")

def unique {α : Type} [DecidableEq α] (items : List α) (field : String) : Except String Unit :=
  ensure (decide items.Nodup) ("duplicate " ++ field ++ " item")

def parseFormat (value : String) : Except String ApiFormat :=
  orReject (ApiFormat.parse value) "unsupported API format"

def parseConnectorKind (value : String) : Except String ConnectorKind :=
  orReject (ConnectorKind.parse value) "unsupported upstream connector kind"

def parseRequestCompression (value : String) : Except String RequestCompression :=
  orReject (RequestCompression.parse value) "unsupported channel group request compression"

def parseStrategy (value : String) : Except String SelectionStrategy :=
  orReject (SelectionStrategy.parse value) "unsupported route tier selection strategy"

def parsePermission (value : String) : Except String ApiKeyPermission :=
  match value with
  | "proxy" => .ok .proxy
  | "models.read" => .ok .modelsRead
  | _ => .error "unsupported API key permission"

def positiveWhenConfigured (value : Option ℤ) (error : String) : Except String (Option ℕ) :=
  match value with
  | none => .ok none
  | some value => if 0 < value then .ok (some value.toNat) else .error error

def positiveTimeout (value : Option ℤ) (name : String) : Except String (Option Duration) :=
  (positiveWhenConfigured value ("channel " ++ name ++ " must be positive when configured")).map
    (Option.map Duration.fromMillis)

def positivePolicy (value : Option ℤ) (name : String) : Except String (Option ℕ) :=
  positiveWhenConfigured value ("API key " ++ name ++ " must be positive when configured")

structure ChannelTimeoutPolicy where
  connect : Option Duration
  responseHeader : Option Duration
  streamIdle : Option Duration

def compileTimeouts (channel : ChannelRecord) : Except String ChannelTimeoutPolicy := do
  let connect ← positiveTimeout channel.connectTimeoutMs "connect_timeout_ms"
  let responseHeader ← positiveTimeout channel.responseHeaderTimeoutMs "response_header_timeout_ms"
  let streamIdle ← positiveTimeout channel.streamIdleTimeoutMs "stream_idle_timeout_ms"
  pure ⟨connect, responseHeader, streamIdle⟩

def neutralGroup (record : ChannelGroupRecord) : Bool :=
  record.apiFormat.isEmpty && record.connectorKind.isEmpty && record.requestCompression.isEmpty

def validateGroupProtocol (record : ChannelGroupRecord) : Except String Unit := do
  ensure (!(record.apiFormat.isEmpty || record.connectorKind.isEmpty ||
    record.requestCompression.isEmpty)) "channel group has incomplete protocol metadata"
  let apiFormat ← parseFormat record.apiFormat
  let connectorKind ← parseConnectorKind record.connectorKind
  let requestCompression ← parseRequestCompression record.requestCompression
  ensure (!(connectorKind == .codexOauth &&
    !(apiFormat == .openAiResponses || apiFormat == .openAiImages)))
    "Codex OAuth channel groups must use Responses or Images"
  ensure (!(requestCompression.isEncoded && apiFormat != .openAiResponses))
    "request compression is supported only for Responses channel groups"

def validateGroup (record : ChannelGroupRecord) : Except String Unit := do
  require "channel group name" record.name
  if neutralGroup record then pure () else validateGroupProtocol record

def channelConnectorKind (record : ChannelRecord) (group : ChannelGroupRecord) :
    Except String ConnectorKind :=
  if record.connectorKind.isEmpty then parseConnectorKind group.connectorKind
  else parseConnectorKind record.connectorKind

def channelRequestCompression (record : ChannelRecord) (group : ChannelGroupRecord) :
    Except String RequestCompression :=
  if record.requestCompression.isEmpty then parseRequestCompression group.requestCompression
  else parseRequestCompression record.requestCompression

def channelApiOperation (record : ChannelRecord) : Except String ApiOperation :=
  match record.apiOperation with
  | some operation => do
    let format ← parseFormat record.apiFormat
    ensure (format == operation.apiFormat) "channel api_operation does not match its api_format"
    pure operation
  | none => pure (ApiOperation.forLegacyFormat record.apiFormat)

def compiledChannelIdentity (record : ChannelRecord) : Except String Domain.ChannelIdentity := do
  let operation ← channelApiOperation record
  pure
    { logicalChannelId :=
        if record.logicalChannelId = Uuid.nil then record.id else record.logicalChannelId
      accessId := record.accessId
      apiOperation := operation
      credentialId := record.credential.map CredentialIdentity.id
      credentialRevision := record.credential.map CredentialIdentity.revision
      bindingRevision := record.credentialBindingRevision
      accessRevision := record.accessRevision
      capabilityRevision := record.capabilityRevision }

structure CapabilitySettings where
  operation : ApiOperation
  availableModels : List String
  requestCompression : RequestCompression
  testModel : Option String
  testPricingModelId : Option Uuid

def CapabilitySettings.validate (settings : CapabilitySettings) (connector : ConnectorKind) :
    Except String Unit := do
  ensure (!(connector == .codexOauth && settings.operation == .chatCompletions))
    "operation is not implemented by this connector"
  ensure (!(settings.requestCompression.isEncoded && settings.operation != .responses))
    "compression requires HTTP Responses"
  ensure (!(settings.availableModels.any isBlank) && decide settings.availableModels.Nodup)
    "invalid capability model catalogue"
  ensure (settings.testModel.isSome == settings.testPricingModelId.isSome &&
    !(settings.testModel.any (fun model => connector != .openAiCompatible ||
      !(settings.operation == .chatCompletions || settings.operation == .responses) ||
      !(settings.availableModels.contains model))))
    "invalid capability probe configuration"

def validateTestModel (record : ChannelRecord) (format : ApiFormat) : Except String Unit :=
  match record.testModel with
  | none => pure ()
  | some testModel => do
    ensure (format != .openAiImages) "Images channels do not support scheduled test models"
    require "channel test model" testModel
    ensure (record.availableModels.contains testModel)
      "channel test model must be one of its available models"

/-- A legacy channel has no operation of its own and follows the format of its group. -/
def validateLegacyFormat (record : ChannelRecord) (group : ChannelGroupRecord)
    (format : ApiFormat) : Except String Unit :=
  if record.apiOperation.isNone then do
    let groupFormat ← parseFormat group.apiFormat
    ensure (groupFormat == format) "channel and group use different API formats"
  else pure ()

def validateCapability (record : ChannelRecord) (operation : ApiOperation)
    (connectorKind : ConnectorKind) : Except String Unit :=
  if record.apiOperation.isSome then do
    let requestCompression ← parseRequestCompression record.requestCompression
    CapabilitySettings.validate ⟨operation, record.availableModels, requestCompression,
      record.testModel, record.testPricingModelId⟩ connectorKind
    ensure (record.transports == operation.transports &&
      record.supportsWebsocket == (operation == .responsesWebSocket) &&
      record.supportsStandaloneWebSearch == (operation == .standaloneWebSearch))
      "capability transport flags do not match its operation settings"
  else pure ()

def codexProtocolValid (record : ChannelRecord) : ApiOperation → Bool
  | .chatCompletions => false
  | .responses => record.apiOperation.isSome || record.supportsWebsocket
  | .responsesWebSocket => record.supportsWebsocket && !record.supportsStandaloneWebSearch
  | .standaloneWebSearch => !record.supportsWebsocket
  | .imagesGeneration | .imagesEdit =>
    !record.supportsWebsocket && !record.supportsStandaloneWebSearch

def managedCodexChannel (record : ChannelRecord) (operation : ApiOperation) : Bool :=
  codexProtocolValid record operation && record.upstreamAuthKind == "none" &&
    record.upstreamAuthHeaderName.isNone && record.upstreamApiKey.isNone &&
    record.testModel.isNone && record.testPricingModelId.isNone

section Channels
variable {Plan Proxy : Type} (env : Env Plan Proxy)

def compileChannelDocument (channel : ChannelRecord) (format : ApiFormat) : Except String Plan :=
  (env.compileDocument channel.overrideDocument format).mapError
    ("channel override document is invalid: " ++ ·)

def validateEnabledChannel (record : ChannelRecord) : Except String Unit :=
  if record.enabled then do
    let _ ← env.parseUrl record.id record.baseUrl
    env.compileAuth record
  else pure ()

def validateChannel (record : ChannelRecord) (groups : Table Uuid ChannelGroupRecord) :
    Except String Unit := do
  require "channel name" record.name
  let format ← parseFormat record.apiFormat
  ensure (!(record.supportsWebsocket && format != .openAiResponses))
    "only Responses channels can support WebSocket forwarding"
  ensure (!(record.supportsStandaloneWebSearch && format != .openAiResponses))
    "only Responses channels can support standalone web search"
  let _ ← compileChannelDocument env record format
  let _ ← compileTimeouts record
  ensure (!decide (record.billingMultiplier < 0)) "channel billing multiplier must be non-negative"
  unique record.availableModels "channel available_models"
  forM record.availableModels (require "channel available model")
  ensure (record.testModel.isSome == record.testPricingModelId.isSome)
    "channel test model and pricing model must be configured together"
  validateTestModel record format
  ensure (["none", "bearer", "header"].contains record.upstreamAuthKind)
    "unsupported upstream auth kind"
  let group ← orReject (groups.get record.channelGroupId) "channel references a missing group"
  validateLegacyFormat record group format
  let connectorKind ← channelConnectorKind record group
  let operation ← channelApiOperation record
  validateCapability record operation connectorKind
  ensure (!(connectorKind == .codexOauth && !managedCodexChannel record operation))
    "invalid Codex OAuth managed channel configuration"
  validateEnabledChannel env record

def validateTemplate (resources : Resources Plan Proxy) (format : ApiFormat) (templateId : Uuid) :
    Except String Unit := do
  let template ← orReject (resources.templates.get templateId)
    "channel references a missing or disabled template"
  ensure (!(template.apiFormat.any (· != format))) "channel references a cross-format template"

def validateChannelResources (record : ChannelRecord) (resources : Resources Plan Proxy) :
    Except String Unit := do
  let format ← parseFormat record.apiFormat
  ensure (record.proxyId.all (fun id => (resources.proxies.get id).isSome))
    "channel references a missing or disabled proxy"
  match record.configTemplateId with
  | none => pure ()
  | some templateId => validateTemplate resources format templateId

end Channels

/-- Access by group or by channel is limited to the formats the key allows. -/
def validateAccess (formats : List ApiFormat) (apiFormat : String) (error : String) :
    Except String Unit := do
  let format ← parseFormat apiFormat
  ensure (formats.contains format) error

def validateKey (record : ApiKeyRecord) (groups : Table Uuid ChannelGroupRecord)
    (channels : Table Uuid ChannelRecord) : Except String Unit := do
  require "API key secret" record.secretValue
  ensure (["active", "disabled", "revoked", "expired"].contains record.status &&
    ["active", "suspended", "disabled"].contains record.userStatus)
    "invalid API key or user status"
  ensure (!(record.allowedApiFormats.isEmpty || record.permissions.isEmpty))
    "API key must allow formats and grant permissions"
  unique record.allowedApiFormats "API key allowed_api_formats"
  unique record.permissions "API key permissions"
  let formats ← record.allowedApiFormats.mapM parseFormat
  let _ ← record.permissions.mapM parsePermission
  unique record.allowedGroupIds "API key allowed_group_ids"
  unique record.allowedChannelIds "API key allowed_channel_ids"
  forM record.allowedGroupIds (fun id => do
    let group ← orReject (groups.get id) "API key references a missing group"
    validateAccess formats group.apiFormat "API key group access references a disallowed format")
  forM record.allowedChannelIds (fun id => do
    let channel ← orReject (channels.get id) "API key references a missing channel"
    validateAccess formats channel.apiFormat
      "API key channel access references a disallowed format")
  let _ ← positivePolicy record.requestsPerMinute "requests_per_minute"
  let _ ← positivePolicy record.maxConcurrentRequests "max_concurrent_requests"
  ensure (!(record.quotaLimitAmount.any (fun amount => decide (amount < 0)) ||
    decide (record.quotaUsedAmount < 0))) "API key quota amounts must be non-negative"

def validCandidate (candidate : ModelRuleRouteCandidate) : Bool :=
  decide (0 < candidate.weight) && !isBlank candidate.upstreamModel &&
    decide (candidate.upstreamModel.length ≤ 300)

def validateTier (tier : ModelRuleRoutingTier) : Except String Unit := do
  ensure (decide (0 ≤ tier.priority) && (SelectionStrategy.parse tier.selectionStrategy).isSome &&
    !tier.candidates.isEmpty) "model rule has invalid routing tier metadata"
  ensure (tier.candidates.all validCandidate &&
    decide (tier.candidates.map (fun c => (c.channelId, c.upstreamModel))).Nodup)
    "model rule has duplicate candidates or invalid route metadata"

/-- Each tier is checked after the priorities before it are known to be distinct. -/
def validateTiers : List ℤ → List ModelRuleRoutingTier → Except String Unit
  | _, [] => pure ()
  | priorities, tier :: tiers => do
    ensure (!priorities.contains tier.priority) "model rule has invalid routing tier metadata"
    validateTier tier
    validateTiers (tier.priority :: priorities) tiers

def validateRule (record : ModelRuleRecord) : Except String Unit := do
  require "model rule client_model" record.clientModel
  let _ ← parseFormat record.apiFormat
  if record.routingTiers.isEmpty then
    ensure (!record.enabled) "enabled model protocol rule must select at least one candidate"
  else validateTiers [] record.routingTiers

def validateReference (record : ModelRuleRecord) (groups : Table Uuid ChannelGroupRecord)
    (channels : Table Uuid ChannelRecord) (format : ApiFormat)
    (candidate : ModelRuleRouteCandidate) : Except String Unit := do
  let channel ← orReject (channels.get candidate.channelId) "model rule references a missing channel"
  ensure (groups.get channel.channelGroupId).isSome
    "model rule channel belongs to a missing channel group"
  let channelFormat ← parseFormat channel.apiFormat
  ensure (channelFormat == format) "model rule references a cross-format channel"
  ensure (channel.apiOperation.all (· == record.apiOperation))
    "model rule references a channel for a different operation"

def validateRuleReferences (record : ModelRuleRecord) (groups : Table Uuid ChannelGroupRecord)
    (channels : Table Uuid ChannelRecord) : Except String Unit := do
  let format ← parseFormat record.apiFormat
  forM record.routingTiers (fun tier =>
    forM tier.candidates (validateReference record groups channels format))

def compileModelPriceSnapshot (record : ModelRuleRecord) : Except String Unit :=
  ensure (record.modelCurrency == "USD" && decide (0 < record.priceUnitTokens) &&
    [record.inputUnitPrice, record.cachedInputUnitPrice, record.cacheWriteUnitPrice,
      record.outputUnitPrice].all (fun price => decide (0 ≤ price)))
    "model protocol rule references invalid price metadata"

section Accepted
variable {groups : Table Uuid ChannelGroupRecord} {chs : Table Uuid ChannelRecord} {u : Unit}
  {Plan Proxy : Type} {rec : ChannelRecord}

theorem validateChannel_group {env : Env Plan Proxy}
    (h : validateChannel env rec groups = .ok u) :
    ∃ group, groups.get rec.channelGroupId = some group := by
  unfold validateChannel at h
  simp only [bind_eq_ok, orReject_eq_ok] at h
  grind

/-- A channel for the WebSocket operation has that transport alone. -/
theorem validateChannel_websocket {env : Env Plan Proxy} (h : validateChannel env rec groups = .ok u)
    (hop : rec.apiOperation = some .responsesWebSocket) : rec.transports = [.websocket] := by
  unfold validateChannel at h
  simp only [bind_eq_ok] at h
  obtain ⟨op, kind, ho, hc⟩ : ∃ op kind, channelApiOperation rec = .ok op ∧
      validateCapability rec op kind = .ok () := by grind
  simp only [channelApiOperation, hop, bind_eq_ok] at ho
  obtain ⟨-, -, -, -, ho⟩ := ho
  cases ho
  simp only [validateCapability, hop, Option.isSome_some, if_true, bind_eq_ok, ensure_eq_ok,
    Bool.and_eq_true, beq_iff_eq] at hc
  obtain ⟨-, -, -, -, ⟨ht, -⟩, -⟩ := hc
  exact ht

theorem validateChannelResources_ok {rscs : Resources Plan Proxy} (h : validateChannelResources rec rscs = .ok u) :
    (∀ id, rec.proxyId = some id → ∃ proxy, rscs.proxies.get id = some proxy) ∧
      ∀ id, rec.configTemplateId = some id → ∃ template, rscs.templates.get id = some template := by
  unfold validateChannelResources at h
  simp only [bind_eq_ok, ensure_eq_ok] at h
  obtain ⟨fmt, -, -, hp, ht⟩ := h
  constructor
  · intro id hid
    rw [hid] at hp
    exact Option.isSome_iff_exists.mp hp
  · intro id hid
    simp only [hid, validateTemplate, bind_eq_ok, orReject_eq_ok] at ht
    obtain ⟨template, hg, -⟩ := ht
    exact ⟨template, hg⟩

theorem validateKey_channels {rec : ApiKeyRecord}
    (h : validateKey rec groups chs = .ok u) :
    ∀ id ∈ rec.allowedChannelIds, ∃ ch, chs.get id = some ch := by
  unfold validateKey at h
  simp only [bind_eq_ok, forM_eq_ok, orReject_eq_ok] at h
  grind

theorem validateTiers_ok {priorities : List ℤ} {tiers : List ModelRuleRoutingTier}
    (h : validateTiers priorities tiers = .ok u) :
    (∀ tier ∈ tiers, tier.priority ∉ priorities) ∧ (tiers.map ModelRuleRoutingTier.priority).Nodup ∧
      ∀ tier ∈ tiers, validateTier tier = .ok () := by
  induction tiers generalizing priorities with
  | nil => simp
  | cons tier tiers ih =>
    simp only [validateTiers, bind_eq_ok, ensure_eq_ok] at h
    obtain ⟨_, hne, _, ht, hr⟩ := h
    obtain ⟨hf, hn, ha⟩ := ih hr
    refine ⟨?_, ?_, ?_⟩
    · intro o hm
      rcases mem_cons.mp hm with rfl | hm
      · simpa using hne
      · exact fun hin => hf o hm (mem_cons_of_mem _ hin)
    · rw [map_cons, nodup_cons]
      refine ⟨fun hin => ?_, hn⟩
      obtain ⟨o, hm, heq⟩ := mem_map.mp hin
      exact hf o hm (heq ▸ mem_cons_self)
    · intro o hm
      rcases mem_cons.mp hm with rfl | hm
      · exact ht
      · exact ha o hm

/-- Priorities of an accepted rule are distinct, its weights positive and the candidates of a
tier distinct. -/
theorem validateRule_ok {rec : ModelRuleRecord} (h : validateRule rec = .ok u) :
    (rec.routingTiers.map ModelRuleRoutingTier.priority).Nodup ∧
      ∀ tier ∈ rec.routingTiers, (∀ c ∈ tier.candidates, 0 < c.weight) ∧
        (tier.candidates.map (fun c => (c.channelId, c.upstreamModel))).Nodup := by
  unfold validateRule at h
  simp only [bind_eq_ok] at h
  obtain ⟨-, -, -, -, ht⟩ := h
  split_ifs at ht with he
  · rw [List.isEmpty_iff] at he
    simp [he]
  · obtain ⟨-, hn, ha⟩ := validateTiers_ok ht
    refine ⟨hn, fun tier hm => ?_⟩
    have hti := ha tier hm
    simp only [validateTier, bind_eq_ok, ensure_eq_ok, Bool.and_eq_true, decide_eq_true_eq,
      all_eq_true, validCandidate] at hti
    obtain ⟨-, -, hv, hd⟩ := hti
    exact ⟨fun c hc => (hv c hc).1.1, hd⟩

/-- A rule's candidates name channels of its operation, or of none. -/
theorem validateRuleReferences_ok {rec : ModelRuleRecord}
    (h : validateRuleReferences rec groups chs = .ok u) :
    ∀ tier ∈ rec.routingTiers, ∀ c ∈ tier.candidates, ∃ ch, chs.get c.channelId = some ch ∧
      ch.apiOperation.all (· == rec.apiOperation) = true := by
  simp only [validateRuleReferences, bind_eq_ok, forM_eq_ok] at h
  obtain ⟨fmt, -, h⟩ := h
  intro tier ht c hc
  have hr := h tier ht c hc
  simp only [validateReference, bind_eq_ok, orReject_eq_ok, ensure_eq_ok] at hr
  obtain ⟨ch, hg, -, -, -, -, -, -, hop⟩ := hr
  exact ⟨ch, hg, hop⟩

end Accepted
end AiGateway.RuntimeConfig
