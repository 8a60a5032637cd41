import AiGateway.Lib.SlotSet
import AiGateway.RuntimeConfig.Compile

/-! Who may use what, as the records say it, and the indexes the compiler builds over them. -/
namespace AiGateway.RuntimeConfig
open Domain Lib Checked Stage SlotSet List

/-- The channels a key may use: those it lists, and those of the groups it lists. -/
def ApiKeyRecord.allowed (key : ApiKeyRecord) (channels : List ChannelRecord) : Set Uuid :=
  {id | id ∈ key.allowedChannelIds ∨
    ∃ channel ∈ channels, channel.id = id ∧ channel.channelGroupId ∈ key.allowedGroupIds}

def ModelRuleRouteCandidate.Served (candidate : ModelRuleRouteCandidate)
    (channels : List ChannelRecord) : Prop :=
  ∃ channel ∈ channels, channel.id = candidate.channelId ∧
    candidate.upstreamModel ∈ channel.availableModels

namespace ModelRuleRecord

/-- The candidates of a rule in the order they are visited, each with its priority. -/
def entries (rule : ModelRuleRecord) : List (ℤ × ModelRuleRouteCandidate) :=
  rule.routingTiers.flatMap (fun tier => tier.candidates.map (fun c => (tier.priority, c)))

def isActive (rule : ModelRuleRecord) : Bool := rule.enabled && rule.modelEnabled

def targets (rule : ModelRuleRecord) : Set Uuid :=
  {id | ∃ entry ∈ rule.entries, entry.2.channelId = id}

/-- The targets whose channel offers the model the rule asks of it. -/
def modelCapable (rule : ModelRuleRecord) (channels : List ChannelRecord) : Set Uuid :=
  {id | ∃ entry ∈ rule.entries, entry.2.channelId = id ∧ entry.2.Served channels}

def authorizing (rule : ModelRuleRecord) (channels : List ChannelRecord) : Set Uuid :=
  {id | id ∈ rule.modelCapable channels ∨ rule.modelCapable channels = ∅ ∧ id ∈ rule.targets}

variable {rule : ModelRuleRecord} {chs : List ChannelRecord}

theorem authorizing_of_capable (h : (rule.modelCapable chs).Nonempty) :
    rule.authorizing chs = rule.modelCapable chs := by
  simp [authorizing, h.ne_empty]

theorem authorizing_of_none
    (h : rule.modelCapable chs = ∅) : rule.authorizing chs = rule.targets := by
  simp [authorizing, h]

def routingKey (rule : ModelRuleRecord) : ModelRouteKey := ⟨rule.apiOperation, rule.clientModel⟩

end ModelRuleRecord

/-- What the compiled channel of a record keeps: its identifier, and the WebSocket transport if that is
its operation. -/
structure ChannelFrom (record : ChannelRecord) (channel : CompiledChannel) : Prop where
  id_eq : channel.id = record.id
  websocket : record.apiOperation = some .responsesWebSocket → channel.supportsWebsocket = true

/-- What the indexes hold once the channels are compiled. -/
structure RuleContext.Indexes (ctx : RuleContext) (channels : List ChannelRecord) : Prop where
  listed : ∀ id channel,
    ctx.allChannels.get id = some channel ↔ channel ∈ channels ∧ channel.id = id
  numbered : Numbered ctx.channelSlots
  slotted : ∀ id, (∃ slot, ctx.channelSlots.get id = some slot) ↔
    ∃ channel, ctx.allChannels.get id = some channel
  compiled : ∀ id channel, ctx.channels.get id = some channel →
    ∃ record ∈ channels, record.id = id ∧ ChannelFrom record channel

theorem RuleContext.Indexes.served_iff {ctx : RuleContext} {chs : List ChannelRecord}
    (h : ctx.Indexes chs) {c : ModelRuleRouteCandidate} {ch : ChannelRecord}
    (hg : ctx.allChannels.get c.channelId = some ch) :
    c.Served chs ↔ c.upstreamModel ∈ ch.availableModels := by
  constructor
  · rintro ⟨o, hme, hid, hm⟩
    have hot := (h.listed _ o).mpr ⟨hme, hid⟩
    exact Option.some.inj (hg.symm.trans hot) ▸ hm
  · intro hm
    obtain ⟨hme, hid⟩ := (h.listed _ ch).mp hg
    exact ⟨ch, hme, hid, hm⟩

section Channels
variable {Plan Proxy : Type} {env : Env Plan Proxy} {settings : SystemRuntimeSettings}
  {rscs : Resources Plan Proxy} {allGroups : Table Uuid ChannelGroupRecord}
  {allChannels : Table Uuid ChannelRecord} {chs : List ChannelRecord} {ch : ChannelRecord}

theorem indexChannels_ok (h : indexChannels env rscs allGroups chs = .ok allChannels) :
    (∀ id ch, allChannels.get id = some ch ↔ ch ∈ chs ∧ ch.id = id) ∧
      ∀ ch ∈ chs, validateChannel env ch allGroups = .ok () ∧
        validateChannelResources ch rscs = .ok () := by
  refine foldlM_invariant (fun (done : List ChannelRecord) table =>
    (∀ id ch, table.get id = some ch ↔ ch ∈ done ∧ ch.id = id) ∧
      ∀ ch ∈ done, validateChannel env ch allGroups = .ok () ∧
        validateChannelResources ch rscs = .ok ()) (by simp) ?_ h
  intro done ch table table' _ ⟨hl, hv⟩ hs
  simp only [bind_eq_ok, ensure_eq_ok] at hs
  obtain ⟨_, hf, _, hc, _, hr, hp⟩ := hs
  cases hp
  constructor
  · intro id o
    rw [Table.get_insert]
    by_cases hid : id = ch.id
    · subst hid
      grind
    · rw [if_neg hid, hl, mem_append, mem_singleton]
      grind
  · intro o hm
    rcases mem_append.mp hm with hm | hm
    · exact hv o hm
    · rw [mem_singleton.mp hm]
      exact ⟨hc, hr⟩

theorem compileProxy_meets (h : validateChannelResources ch rscs = .ok ()) :
    Meets True (compileProxy rscs ch) (fun _ => True) := by
  unfold compileProxy
  cases hid : ch.proxyId with
  | none => exact meets_pure trivial
  | some id =>
    obtain ⟨proxy, hg⟩ := (validateChannelResources_ok h).1 id hid
    simp only [hg]
    trivial

theorem compileDefaults_meets {apiFormat : ApiFormat}
    (h : validateChannelResources ch rscs = .ok ()) :
    Meets True (compileDefaults env rscs ch apiFormat) (fun _ => True) := by
  unfold compileDefaults
  cases hid : ch.configTemplateId with
  | none => exact meets_pure trivial
  | some id =>
    obtain ⟨template, hg⟩ := (validateChannelResources_ok h).2 id hid
    simp only [hg]
    trivial

theorem withChannelIdentity_id (ch : CompiledChannel) (i : ChannelIdentity) :
    (ch.withChannelIdentity i).id = ch.id := by
  unfold CompiledChannel.withChannelIdentity
  split_ifs <;> rfl

theorem withTransports_id (ch : CompiledChannel) (transports : List CapabilityTransport) :
    (ch.withTransports transports).id = ch.id := by
  unfold CompiledChannel.withTransports
  split_ifs <;> rfl

theorem restricted_websocket (ch : CompiledChannel) :
    ((ch.withTransports [.websocket]).restrictTransports [.websocket]).supportsWebsocket = true := by
  simp only [CompiledChannel.withTransports, CompiledChannel.restrictTransports,
    CompiledChannel.setTransports, if_neg (cons_ne_nil _ _)]
  decide

/-- A plugin that passes the check for the WebSocket operation offers that transport. -/
theorem pluginTransports_websocket {kind : ConnectorKind} {transports : List CapabilityTransport}
    (h : pluginTransports env kind .responsesWebSocket = some transports) :
    transports = [.websocket] := by
  obtain ⟨protocols, hp, rfl⟩ := Option.map_eq_some_iff.mp h
  have hv := (Option.filter_eq_some_iff.mp hp).2
  match protocols with
  | [] => cases hv
  | [protocol] =>
    simp only [validateForOperation, Bool.and_eq_true, all_eq_true, contains_iff_mem] at hv
    rw [mem_singleton.mp (hv.1.2 protocol mem_cons_self)]
    rfl
  | _ :: _ :: _ => simp [validateForOperation, allowedProtocols] at hv

theorem compileChannel_meets (hv : validateChannel env ch allGroups = .ok ())
    (hr : validateChannelResources ch rscs = .ok ()) :
    Meets True (compileChannel env settings rscs allGroups ch) (ChannelFrom ch) := by
  apply meets_lift_bind; intro _ _
  apply meets_lift_bind; intro apiFormat _
  refine (compileProxy_meets hr).bind (fun proxy _ => ?_)
  refine (compileDefaults_meets hr).bind (fun defaults _ => ?_)
  apply meets_lift_bind; intro channelOverride _
  apply meets_lift_bind; intro effectiveTransforms _
  apply meets_lift_bind; intro _ _
  apply meets_lift_bind; intro timeouts _
  obtain ⟨group, hg⟩ := validateChannel_group hv
  apply meets_demand_bind hg
  apply meets_lift_bind; intro connectorKind _
  apply meets_lift_bind; intro _ _
  apply meets_lift_bind; intro i hi
  apply meets_lift_bind; intro baseUrl _
  split
  next ts hts =>
    refine meets_pure ⟨(withTransports_id _ _).trans (withChannelIdentity_id _ _), fun hop => ?_⟩
    simp only [compiledChannelIdentity, channelApiOperation, hop, bind_eq_ok] at hi
    obtain ⟨op, ⟨-, -, -, -, ho⟩, hi⟩ := hi
    cases ho
    cases hi
    rw [validateChannel_websocket hv hop, pluginTransports_websocket hts]
    exact restricted_websocket _
  next =>
    refine meets_pure ⟨(withTransports_id _ _).trans (withChannelIdentity_id _ _), fun hop => ?_⟩
    rw [validateChannel_websocket hv hop]
    rfl

theorem addChannels_meets
    (hv : ∀ ch ∈ chs, validateChannel env ch allGroups = .ok () ∧
      validateChannelResources ch rscs = .ok ()) :
    Meets True (chs.foldlM (addChannel env settings rscs allGroups) ∅)
      (fun compiled => ∀ id ch, compiled.get id = some ch →
        ∃ rec ∈ chs, rec.id = id ∧ ChannelFrom rec ch) := by
  refine meets_foldlM (fun _ (compiled : Table Uuid CompiledChannel) => ∀ id ch,
    compiled.get id = some ch → ∃ rec ∈ chs, rec.id = id ∧ ChannelFrom rec ch) (by simp) ?_
  intro done ch compiled hm hin
  unfold addChannel
  split_ifs with he
  · obtain ⟨hc, hr⟩ := hv ch hm
    refine (compileChannel_meets hc hr).bind (fun res hre => ?_)
    obtain ⟨group, hgr⟩ := validateChannel_group hc
    apply meets_demand_bind hgr
    split_ifs
    · intro id o hg
      rw [Table.get_insert] at hg
      split_ifs at hg with hid
      · cases hg
        exact ⟨ch, hm, hid.symm, hre⟩
      · exact hin id o hg
    · exact hin
  · exact meets_pure hin

/-- The inverted index lists under a group exactly its channels. -/
theorem addToGroups_meets {ids : List Uuid}
    (hid : ∀ id ∈ ids, ∃ ch, allChannels.get id = some ch) :
    Meets True (ids.foldlM (addToGroup allChannels) ∅)
      (fun byGroup => ∀ gid id, id ∈ (byGroup.get gid).getD [] ↔
        id ∈ ids ∧ ∃ ch, allChannels.get id = some ch ∧ ch.channelGroupId = gid) := by
  refine meets_foldlM (fun done (byGroup : Table Uuid (List Uuid)) => ∀ gid id,
    id ∈ (byGroup.get gid).getD [] ↔ id ∈ done ∧ ∃ ch,
      allChannels.get id = some ch ∧ ch.channelGroupId = gid) (by simp) ?_
  intro done id byGroup hm hin
  obtain ⟨ch, hge⟩ := hid id hm
  apply meets_demand_bind hge
  intro gid o
  rw [Table.get_insert]
  split_ifs with hg
  · rw [Option.getD_some, mem_append, hin, ← hg]
    grind
  · rw [hin, mem_append, mem_singleton]
    grind

end Channels
end AiGateway.RuntimeConfig
