import AiGateway.Domain.CompiledRouting
import AiGateway.Lib.Checked

/-! The control-plane records and the parts of the compiler that routing does not look into. -/
namespace AiGateway.RuntimeConfig
open Domain Lib

structure ChannelGroupRecord where
  id : Uuid
  name : String
  apiFormat : String
  connectorKind : String
  requestCompression : String
  enabled : Bool
  deriving DecidableEq

structure CredentialIdentity where
  id : Uuid
  revision : Uuid
  deriving DecidableEq

/-- Amounts are exact decimals, documents are JSON texts. -/
structure ChannelRecord where
  id : Uuid
  channelGroupId : Uuid
  apiFormat : String
  logicalChannelId : Uuid
  accessId : Uuid
  apiOperation : Option ApiOperation
  connectorKind : String
  requestCompression : String
  accessRevision : Uuid
  capabilityRevision : Uuid
  transports : List CapabilityTransport
  name : String
  baseUrl : String
  enabled : Bool
  supportsWebsocket : Bool
  supportsStandaloneWebSearch : Bool
  autoDisabled : Bool
  autoDisableAllowed : Bool
  billingMultiplier : ℚ
  proxyId : Option Uuid
  configTemplateId : Option Uuid
  overrideDocument : String
  connectTimeoutMs : Option ℤ
  responseHeaderTimeoutMs : Option ℤ
  streamIdleTimeoutMs : Option ℤ
  upstreamAuthKind : String
  upstreamAuthHeaderName : Option String
  upstreamApiKey : Option String
  availableModels : List String
  testModel : Option String
  testPricingModelId : Option Uuid
  credential : Option CredentialIdentity
  credentialBindingRevision : Uuid
  deriving DecidableEq

structure ModelRuleRouteCandidate where
  channelId : Uuid
  upstreamModel : String
  weight : ℤ
  deriving DecidableEq

structure ModelRuleRoutingTier where
  priority : ℤ
  selectionStrategy : String
  candidates : List ModelRuleRouteCandidate
  deriving DecidableEq

structure ModelRuleRecord where
  id : Uuid
  clientModel : String
  apiFormat : String
  apiOperation : ApiOperation
  modelId : Uuid
  modelEnabled : Bool
  modelCurrency : String
  priceUnitTokens : ℤ
  inputUnitPrice : ℚ
  cachedInputUnitPrice : ℚ
  cacheWriteUnitPrice : ℚ
  outputUnitPrice : ℚ
  advancedBilling : String
  routingTiers : List ModelRuleRoutingTier
  enabled : Bool
  deriving DecidableEq

structure ApiKeyRecord where
  id : Uuid
  userId : Uuid
  userStatus : String
  userWebsocketEnabled : Bool
  userFilterFastMode : Bool
  secretValue : String
  status : String
  expiresAt : Option ℤ
  allowedApiFormats : List String
  permissions : List String
  allowedGroupIds : List Uuid
  allowedChannelIds : List Uuid
  requestsPerMinute : Option ℤ
  maxConcurrentRequests : Option ℤ
  quotaLimitAmount : Option ℚ
  quotaUsedAmount : ℚ
  deriving DecidableEq

structure ControlPlaneRecords where
  apiKeys : List ApiKeyRecord
  modelRules : List ModelRuleRecord
  groups : List ChannelGroupRecord
  channels : List ChannelRecord

structure SystemRuntimeSettings where
  connectTimeout : Duration
  sessionAffinity : SessionAffinitySettings

structure CompiledConfigTemplate (Plan : Type) where
  apiFormat : Option ApiFormat
  transformPlan : ApiFormat → Plan

structure Resources (Plan Proxy : Type) where
  proxies : Table Uuid Proxy
  templates : Table Uuid (CompiledConfigTemplate Plan)

inductive ConnectorProtocol where
  | nonStream
  | sse
  | websocket
  deriving DecidableEq

/-- Compilation steps taken as given: digests, transform plans, the proxy, template and model
records with what is compiled from them, upstream credentials, URLs, plugins and prices. -/
structure Env (Plan Proxy : Type) where
  sha256 : Sha256
  apiKeyHash : String → Digest
  compileResources : Except String (Resources Plan Proxy)
  compileDocument : String → ApiFormat → Except String Plan
  noop : ApiFormat → Plan
  compose : Plan → Plan → Except String Plan
  requestJsonIsEmpty : Plan → Bool
  outboundNetworkPolicyFingerprint : Option Proxy → Duration → Digest
  compileAuth : ChannelRecord → Except String Unit
  parseUrl : Uuid → String → Except String String
  /-- What the plugin of a connector describes, before the check for the operation. -/
  pluginProtocols : ConnectorKind → ApiOperation → Option (List ConnectorProtocol)
  compileScheduledTestModels : List ChannelRecord → Except String Unit
  validateEffectiveChannelPrices : ModelRuleRecord → ℚ → Except String Unit
  compileAdvancedBilling : String → Except String Unit

/-- The characters with the Unicode property White_Space. -/
def isWhiteSpace (c : Char) : Bool :=
  let code := c.toNat
  (decide (0x9 ≤ code) && decide (code ≤ 0xd)) ||
    (decide (0x2000 ≤ code) && decide (code ≤ 0x200a)) ||
    [0x20, 0x85, 0xa0, 0x1680, 0x2028, 0x2029, 0x202f, 0x205f, 0x3000].contains code

def isBlank (value : String) : Bool := value.toList.all isWhiteSpace

end AiGateway.RuntimeConfig
