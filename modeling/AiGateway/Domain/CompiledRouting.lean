import AiGateway.Domain.Basic
import AiGateway.Lib.Table
import Mathlib.Data.List.Sort
import Mathlib.Data.Rat.Defs

/-! The immutable routing snapshot: keys with their packed authorization bitmaps,
channels with their transport masks, and model rules with their priority tiers. -/
namespace AiGateway.Domain
open Lib List Table

inductive ApiKeyPermission where
  | proxy
  | modelsRead
  deriving DecidableEq

/-- The digest function of the SHA-256 library. -/
abbrev Sha256 := List UInt8 → Digest

def bitIsSet (words : List (BitVec 64)) (slot : ℕ) : Bool :=
  match words[slot / 64]? with
  | some bits => bits &&& (1#64 <<< (slot % 64)) != 0#64
  | none => false

/-- The routing scope shared by keys with the same expanded channel access. -/
structure AuthorizationProfile where
  allowedChannelSlots : List (BitVec 64)
  accessibleRouteSlots : List (BitVec 64)
  fingerprint : Digest
  deriving DecidableEq

def routingScopeFingerprint (sha256 : Sha256) (groups channels : List Uuid) : Digest :=
  let groups := groups.insertionSort (· ≤ ·)
  let channels := channels.insertionSort (· ≤ ·)
  sha256 ("ai-gateway:routing-scope:v1\x00".toUTF8.toList ++
    groups.flatMap Uuid.asBytes ++ [0] ++ channels.flatMap Uuid.asBytes)

namespace AuthorizationProfile

def permitsRouteCandidate (profile : AuthorizationProfile) (slot : ℕ) : Bool :=
  bitIsSet profile.allowedChannelSlots slot

def permitsRoute (profile : AuthorizationProfile) (slot : ℕ) : Bool :=
  bitIsSet profile.accessibleRouteSlots slot

def new (sha256 : Sha256) (allowedChannelIds : List Uuid)
    (allowedChannelSlots accessibleRouteSlots : List (BitVec 64)) : AuthorizationProfile :=
  ⟨allowedChannelSlots, accessibleRouteSlots, routingScopeFingerprint sha256 [] allowedChannelIds⟩

end AuthorizationProfile

/-- Amounts are exact decimals and instants are Unix times. -/
structure CompiledApiKey where
  id : Uuid
  userId : Uuid
  websocketEnabled : Bool
  filterFastMode : Bool
  allowedApiFormats : List ApiFormat
  permissions : List ApiKeyPermission
  authorization : AuthorizationProfile
  expiresAt : Option ℤ
  requestsPerMinute : Option ℕ
  maxConcurrentRequests : Option ℕ
  quotaLimitAmount : Option ℚ
  quotaUsedAmount : ℚ
  deriving DecidableEq

namespace CompiledApiKey

def permitsRouteCandidate (key : CompiledApiKey) (slot : ℕ) : Bool :=
  key.authorization.permitsRouteCandidate slot

def permitsRoute (key : CompiledApiKey) (slot : ℕ) : Bool := key.authorization.permitsRoute slot

def routingScopeFingerprint (key : CompiledApiKey) : Digest := key.authorization.fingerprint

def quotaExhaustedAt (key : CompiledApiKey) (quotaUsedAmount : ℚ) : Bool :=
  key.quotaLimitAmount.any (fun limit => decide (limit ≤ quotaUsedAmount))

end CompiledApiKey

def transportBit : CapabilityTransport → BitVec 8
  | .httpJson => 1#8
  | .httpSse => 2#8
  | .websocket => 4#8
  | .multipart => 8#8

def transportMaskOf (transports : List CapabilityTransport) : BitVec 8 :=
  transports.foldl (fun mask transport => mask ||| transportBit transport) 0#8

def maskPermits (mask : BitVec 8) (transport : CapabilityTransport) : Bool :=
  mask &&& transportBit transport != 0#8

/-- A compiled channel. Every way to build one keeps the WebSocket flag equal to the
WebSocket bit of the transport mask. -/
structure CompiledChannel where
  id : Uuid
  groupId : Uuid
  apiFormat : ApiFormat
  logicalChannelId : Uuid
  accessId : Uuid
  apiOperation : ApiOperation
  credentialId : Option Uuid
  connectorKind : ConnectorKind
  baseUrl : String
  connectivityFingerprint : String
  accessRevision : Uuid
  capabilityRevision : Uuid
  supportsWebsocket : Bool
  supportsStandaloneWebSearch : Bool
  transportMask : BitVec 8
  strictTransportContract : Bool
  availableModels : List String
  autoDisableAllowed : Bool
  autoDisabled : Bool
  testModel : Option String
  outboundNetworkPolicyFingerprint : Digest
  websocket_flag : supportsWebsocket = maskPermits transportMask .websocket
  deriving DecidableEq

structure ChannelIdentity where
  logicalChannelId : Uuid
  accessId : Uuid
  apiOperation : ApiOperation
  credentialId : Option Uuid
  credentialRevision : Option Uuid
  bindingRevision : Uuid
  accessRevision : Uuid
  capabilityRevision : Uuid

namespace CompiledChannel

def permitsTransport (channel : CompiledChannel) (transport : CapabilityTransport) : Bool :=
  maskPermits channel.transportMask transport

def hasStrictTransportContract (channel : CompiledChannel) : Bool := channel.strictTransportContract

/-- The transports a format offers before any capability record narrows them. -/
def formatMask (apiFormat : ApiFormat) (connectorKind : ConnectorKind) : BitVec 8 :=
  match apiFormat with
  | .openAiChatCompletions => transportBit .httpJson ||| transportBit .httpSse
  | .openAiResponses =>
    transportBit .httpSse |||
      if connectorKind = .codexOauth then 0#8 else transportBit .httpJson
  | .openAiImages => transportBit .httpJson ||| transportBit .multipart

theorem formatMask_websocket (apiFormat : ApiFormat) (connectorKind : ConnectorKind)
    (websocket : Bool) :
    websocket = maskPermits (if websocket then
      formatMask apiFormat connectorKind ||| transportBit .websocket
      else formatMask apiFormat connectorKind) .websocket := by
  have hm : formatMask apiFormat connectorKind ∈ [2#8, 3#8, 9#8] := by
    cases apiFormat with
    | openAiChatCompletions =>
      show 3#8 ∈ [2#8, 3#8, 9#8]
      decide
    | openAiResponses =>
      by_cases hc : connectorKind = .codexOauth <;> simp [formatMask, hc] <;> decide
    | openAiImages =>
      show 9#8 ∈ [2#8, 3#8, 9#8]
      decide
  generalize formatMask apiFormat connectorKind = mask at hm ⊢
  simp only [mem_cons, not_mem_nil, or_false] at hm
  rcases hm with rfl | rfl | rfl <;> cases websocket <;> decide

def newWithConnectorPolicyAutomationAndBilling (id groupId : Uuid) (apiFormat : ApiFormat)
    (connectorKind : ConnectorKind) (baseUrl : String) (availableModels : List String)
    (supportsWebsocket supportsStandaloneWebSearch autoDisableAllowed autoDisabled : Bool)
    (testModel : Option String) (outboundNetworkPolicyFingerprint : Digest) : CompiledChannel where
  id := id
  groupId := groupId
  apiFormat := apiFormat
  logicalChannelId := id
  accessId := Uuid.nil
  apiOperation := ApiOperation.legacyDefault apiFormat
  credentialId := none
  connectorKind := connectorKind
  baseUrl := baseUrl
  connectivityFingerprint := baseUrl
  accessRevision := Uuid.nil
  capabilityRevision := Uuid.nil
  supportsWebsocket := supportsWebsocket
  supportsStandaloneWebSearch := supportsStandaloneWebSearch
  transportMask :=
    if supportsWebsocket then formatMask apiFormat connectorKind ||| transportBit .websocket
    else formatMask apiFormat connectorKind
  strictTransportContract := false
  availableModels := availableModels
  autoDisableAllowed := autoDisableAllowed
  autoDisabled := autoDisabled
  testModel := testModel
  outboundNetworkPolicyFingerprint := outboundNetworkPolicyFingerprint
  websocket_flag := formatMask_websocket apiFormat connectorKind supportsWebsocket

/-- Replace the mask, and the flag with it. -/
def setTransports (channel : CompiledChannel) (mask : BitVec 8) : CompiledChannel := { channel with
    transportMask := mask
    supportsWebsocket := maskPermits mask .websocket
    websocket_flag := rfl }

def withTransports (channel : CompiledChannel) (transports : List CapabilityTransport) :
    CompiledChannel :=
  let channel := if transports = [] then channel else
    channel.setTransports (transportMaskOf transports)
  { channel with
    connectivityFingerprint :=
      channel.connectivityFingerprint ++ "#transport=" ++ toString channel.transportMask.toNat }

def restrictTransports (channel : CompiledChannel) (transports : List CapabilityTransport) :
    CompiledChannel :=
  let channel := { channel with strictTransportContract := true }.setTransports
    (channel.transportMask &&& transportMaskOf transports)
  { channel with
    connectivityFingerprint := channel.connectivityFingerprint ++ "#restricted-transport=" ++
      toString channel.transportMask.toNat }

def withChannelIdentity (channel : CompiledChannel) (identity : ChannelIdentity) :
    CompiledChannel :=
  let channel := { channel with
      logicalChannelId := identity.logicalChannelId
      accessId := identity.accessId
      apiOperation := identity.apiOperation
      credentialId := identity.credentialId
      accessRevision := identity.accessRevision
      capabilityRevision := identity.capabilityRevision }
  if identity.credentialId.isSome ∨ identity.bindingRevision ≠ Uuid.nil ∨
      identity.accessRevision ≠ Uuid.nil ∨ identity.capabilityRevision ≠ Uuid.nil then
    { channel with
      connectivityFingerprint :=
        channel.baseUrl ++ "#" ++ identity.logicalChannelId.hyphenated ++ "/" ++
        identity.apiOperation.asStr ++ "#" ++ identity.bindingRevision.hyphenated ++ "/" ++
        identity.accessRevision.hyphenated ++ "#" ++ identity.accessId.hyphenated ++ "/" ++
        identity.capabilityRevision.hyphenated ++ "#" ++
        (identity.credentialId.getD Uuid.nil).hyphenated ++ "/" ++
        (identity.credentialRevision.getD Uuid.nil).hyphenated }
  else channel

end CompiledChannel

structure CompiledCandidate where
  candidateSlot : ℕ
  channelSlot : ℕ
  channel : CompiledChannel
  upstreamModel : String
  weight : ℕ
  deriving DecidableEq

structure CompiledRouteTier where
  priority : ℤ
  strategy : SelectionStrategy
  fingerprint : Digest
  candidates : List CompiledCandidate
  deriving DecidableEq

def leBytes (value : BitVec 32) : List UInt8 :=
  (List.range 4).map (fun i => ⟨value.extractLsb' (8 * i) 8⟩)

def CompiledRouteTier.new (sha256 : Sha256) (priority : ℤ) (strategy : SelectionStrategy)
    (candidates : List CompiledCandidate) : CompiledRouteTier where
  priority := priority
  strategy := strategy
  candidates := candidates
  fingerprint := sha256 ("ai-gateway:route-tier:v1\x00".toUTF8.toList ++
    leBytes (BitVec.ofInt 32 priority) ++
    [match strategy with
      | .weightedRandom => 0
      | .weightedRoundRobin => 1] ++
    candidates.flatMap (fun candidate =>
      candidate.channel.id.asBytes ++ candidate.upstreamModel.toUTF8.toList ++ [0] ++
        leBytes (BitVec.ofNat 32 candidate.weight)))

structure CompiledUnavailableRouteCandidate where
  channelId : Uuid
  groupId : Uuid
  deriving DecidableEq

structure CompiledModelRule where
  routeSlot : ℕ
  id : Uuid
  modelId : Uuid
  clientModel : String
  apiOperation : ApiOperation
  tiers : List CompiledRouteTier
  unavailableCandidates : List CompiledUnavailableRouteCandidate
  targetCandidates : List (BitVec 64)
  modelCapableCandidates : List (BitVec 64)
  targetCandidateCount : ℕ
  modelCapableCandidateCount : ℕ
  deriving DecidableEq

def CompiledModelRule.authorizationCandidatesIntersect (rule : CompiledModelRule)
    (allowedChannelSlots : List (BitVec 64)) : Bool :=
  let candidates :=
    if rule.modelCapableCandidates.any (· != 0#64) then rule.modelCapableCandidates
    else rule.targetCandidates
  (candidates.zip allowedChannelSlots).any (fun pair => pair.1 &&& pair.2 != 0#64)

structure ModelRouteKey where
  apiOperation : ApiOperation
  clientModel : String
  deriving DecidableEq

structure CompiledModelRoutes where
  byOperation : Table ApiOperation (Table String CompiledModelRule)

namespace CompiledModelRoutes

def insertFlat (routes : CompiledModelRoutes) (entry : ModelRouteKey × CompiledModelRule) :
    CompiledModelRoutes :=
  let models := (routes.byOperation.get entry.1.apiOperation).getD ∅
  ⟨routes.byOperation.insert entry.1.apiOperation (models.insert entry.1.clientModel entry.2)⟩

def fromFlat (routes : Table ModelRouteKey CompiledModelRule) : CompiledModelRoutes :=
  routes.toList.foldl insertFlat ⟨∅⟩

def get (routes : CompiledModelRoutes) (operation : ApiOperation) (model : String) :
    Option CompiledModelRule :=
  (routes.byOperation.get operation).bind (fun models => models.get model)

def values (routes : CompiledModelRoutes) : List CompiledModelRule :=
  routes.byOperation.values.flatMap Table.values

theorem mem_values_iff (routes : CompiledModelRoutes) (rule : CompiledModelRule) :
    rule ∈ routes.values ↔ ∃ op model, routes.get op model = some rule := by
  simp only [values, mem_flatMap, Table.mem_values_iff, get, Option.bind_eq_some_iff]
  constructor
  · rintro ⟨models, ⟨op, hop⟩, model, hm⟩
    exact ⟨op, model, models, hop, hm⟩
  · rintro ⟨op, model, models, hop, hm⟩
    exact ⟨models, ⟨op, hop⟩, model, hm⟩

theorem get_insertFlat (routes : CompiledModelRoutes) (e : ModelRouteKey × CompiledModelRule)
    (op : ApiOperation) (model : String) :
    (routes.insertFlat e).get op model =
      if ⟨op, model⟩ = e.1 then some e.2 else routes.get op model := by
  obtain ⟨⟨entryOperation, entryModel⟩, rule⟩ := e
  simp only [insertFlat, get, get_insert, ModelRouteKey.mk.injEq]
  by_cases hop : op = entryOperation
  · subst hop
    by_cases hmo : model = entryModel
    · simp [hmo]
    · cases hm : routes.byOperation.get op <;> simp [hmo, get_insert]
  · simp [hop]

theorem get_foldl_insertFlat (es : List (ModelRouteKey × CompiledModelRule))
    (hn : (es.map Prod.fst).Nodup) (routes : CompiledModelRoutes)
    (hf : ∀ e ∈ es, routes.get e.1.apiOperation e.1.clientModel = none)
    (key : ModelRouteKey) (rule : CompiledModelRule) :
    (es.foldl insertFlat routes).get key.apiOperation key.clientModel = some rule ↔
      (key, rule) ∈ es ∨ routes.get key.apiOperation key.clientModel = some rule := by
  induction es generalizing routes with
  | nil => simp
  | cons e es ih =>
    rw [map_cons, nodup_cons] at hn
    have hne : ∀ o ∈ es, o.1 ≠ e.1 := by
      intro o hm heq
      exact hn.1 (mem_map.mpr ⟨o, hm, heq⟩)
    have hnx : ∀ o ∈ es, (routes.insertFlat e).get o.1.apiOperation o.1.clientModel = none := by
      intro o hm
      rw [get_insertFlat, if_neg (hne o hm)]
      exact hf o (mem_cons_of_mem _ hm)
    rw [foldl_cons, ih hn.2 _ hnx, get_insertFlat]
    have hh := hf e mem_cons_self
    by_cases hk : key = e.1
    · have hm : (key, rule) ∉ es := fun h => hne _ h hk
      subst hk
      simp [hm, hh, Prod.ext_iff, eq_comm]
    · simp [hk, Prod.ext_iff]

theorem get_fromFlat (routes : Table ModelRouteKey CompiledModelRule) (op : ApiOperation)
    (model : String) : (fromFlat routes).get op model = routes.get ⟨op, model⟩ := by
  apply Option.ext
  intro rule
  have hk : (routes.toList.map Prod.fst).Nodup := routes.keys_eq_map_toList ▸ routes.keys_nodup
  have hg := get_foldl_insertFlat routes.toList hk ⟨∅⟩ (by simp [get])
    ⟨op, model⟩ rule
  rw [get_eq_some_iff]
  simpa [get, fromFlat] using hg

end CompiledModelRoutes

structure SessionAffinityRule where
  name : String
  fingerprint : Digest
  deriving DecidableEq

structure SessionAffinitySettings where
  enabled : Bool
  maxEntries : ℕ
  rules : List SessionAffinityRule
  deriving DecidableEq

structure CompiledRuntimeConfig where
  apiKeys : Table Digest CompiledApiKey
  modelRules : CompiledModelRoutes
  channels : Table Uuid CompiledChannel
  sessionAffinity : SessionAffinitySettings

def CompiledRuntimeConfig.operationRule (snapshot : CompiledRuntimeConfig)
    (operation : ApiOperation) (model : String) : Option CompiledModelRule :=
  snapshot.modelRules.get operation model

/-- What rule compilation promises about the tiers of a rule: priorities increase, weights
are positive with a total that fits a signed 64-bit integer, and no candidate is listed twice. -/
structure CompiledModelRule.WellFormed (rule : CompiledModelRule) : Prop where
  priorities : rule.tiers.Pairwise (fun a b => a.priority < b.priority)
  weights : ∀ tier ∈ rule.tiers, ∀ candidate ∈ tier.candidates, 0 < candidate.weight
  total : ∀ tier ∈ rule.tiers, (tier.candidates.map CompiledCandidate.weight).sum < 2 ^ 63
  distinct : ∀ tier ∈ rule.tiers,
    (tier.candidates.map (fun c => (c.channel.id, c.upstreamModel))).Nodup

/-- A snapshot whose rules are well formed and stored under their own operation and model. -/
structure CompiledSnapshot extends CompiledRuntimeConfig where
  wellFormed : ∀ operation model rule, modelRules.get operation model = some rule → rule.WellFormed
  stored : ∀ operation model rule, modelRules.get operation model = some rule →
    rule.apiOperation = operation ∧ rule.clientModel = model

namespace CompiledSnapshot

/-- A snapshot from the flat route table that rule compilation fills. -/
def ofFlat (apiKeys : Table Digest CompiledApiKey) (routes : Table ModelRouteKey CompiledModelRule)
    (channels : Table Uuid CompiledChannel) (sessionAffinity : SessionAffinitySettings)
    (hwf : ∀ key rule, routes.get key = some rule → rule.WellFormed)
    (hkey : ∀ key rule, routes.get key = some rule → key = ⟨rule.apiOperation, rule.clientModel⟩) :
    CompiledSnapshot where
  apiKeys := apiKeys
  modelRules := .fromFlat routes
  channels := channels
  sessionAffinity := sessionAffinity
  wellFormed := fun operation model rule h =>
    hwf ⟨operation, model⟩ rule (CompiledModelRoutes.get_fromFlat routes operation model ▸ h)
  stored := fun operation model rule h => by
    rw [CompiledModelRoutes.get_fromFlat] at h
    have hk := hkey ⟨operation, model⟩ rule h
    rw [ModelRouteKey.mk.injEq] at hk
    exact ⟨hk.1.symm, hk.2.symm⟩

theorem operationRule_of_mem (snap : CompiledSnapshot) {rule : CompiledModelRule}
    (h : rule ∈ snap.modelRules.values) :
    snap.operationRule rule.apiOperation rule.clientModel = some rule := by
  obtain ⟨op, model, hg⟩ := (CompiledModelRoutes.mem_values_iff _ _).mp h
  obtain ⟨rfl, rfl⟩ := snap.stored op model rule hg
  exact hg

end CompiledSnapshot

end AiGateway.Domain
