import AiGateway.Topology.Records
import AiGateway.RuntimeConfig.Records
import AiGateway.Lib.Index
import Mathlib.Data.List.Dedup

/-! Folding the channel grants into the API keys of a snapshot. -/
namespace AiGateway.Topology
open Domain Lib RuntimeConfig Lib.Stage List

inductive CanonicalGraphError where
  | duplicateId (kind : String)
  | missingReference (kind : String)
  | deletedReference (kind : String)
  | unknownGrantTarget
  /-- An access, credential, name or setting is invalid. -/
  | invalid
  deriving DecidableEq

/-- The checks on accesses, credentials, names and settings, which do not touch the grants. -/
structure GraphChecks where
  rows : UpstreamTopologyRecords → Except CanonicalGraphError Unit
  access : LogicalChannelRecord → Except CanonicalGraphError Unit
  capability : ChannelCapabilityRecord → LogicalChannelRecord → Except CanonicalGraphError Unit

/-- A live capability with its resolved owners. -/
structure LiveCapability where
  capability : ChannelCapabilityRecord
  logical : LogicalChannelRecord
  group : RoutingGroupRecord

section Resolve
variable (checks : GraphChecks) (logical : Table Uuid LogicalChannelRecord)
  (groups : Table Uuid RoutingGroupRecord)

def resolveCapability (capability : ChannelCapabilityRecord) :
    Except CanonicalGraphError LiveCapability := do
  let channel ← orReject (logical.get capability.channelId)
    (.missingReference "logical channel")
  ensure channel.deletedAt.isNone (.deletedReference "logical channel")
  checks.access channel
  let group ← orReject (groups.get channel.groupId) (.missingReference "routing group")
  ensure group.deletedAt.isNone (.deletedReference "routing group")
  checks.capability capability channel
  .ok ⟨capability, channel, group⟩

def resolveCapabilities (capabilities : Table Uuid ChannelCapabilityRecord) :
    Except CanonicalGraphError (List LiveCapability) :=
  ((capabilities.values.mergeSort (fun a b => decide (a.id ≤ b.id))).filter
    (·.deletedAt.isNone)).mapM (resolveCapability checks logical groups)

end Resolve

def grantMatchesOrigin (grant : ChannelGrantRecord) (capability : LiveCapability) : Bool :=
  match grant.originKind with
  | .group => capability.group.id == grant.originId
  | .channel => capability.logical.id == grant.originId
  | .capability => false

/-- The capabilities the grants of a key reach in this snapshot. -/
def allowedCapabilities (grants : List ChannelGrantRecord) (live : List LiveCapability)
    (keyId : Uuid) : List Uuid :=
  ((grants.filter (fun grant => grant.ownerId == keyId)).flatMap (fun grant =>
    (live.filter (fun capability =>
      capability.logical.id == grant.channelId && grantMatchesOrigin grant capability)).map
        (·.capability.id))).dedup.mergeSort (fun a b => decide (a ≤ b))

def foldGrants (keys : List ApiKeyRecord) (grants : List ChannelGrantRecord)
    (live : List LiveCapability) (knownChannels : List Uuid) :
    Except CanonicalGraphError (List ApiKeyRecord) := do
  forM grants (fun grant => ensure
    (knownChannels.contains grant.channelId && grant.originKind != .capability) .unknownGrantTarget)
  .ok (keys.map (fun key =>
    { key with
      allowedGroupIds := []
      allowedChannelIds := allowedCapabilities grants live key.id
      allowedApiFormats := ["open_ai_chat_completions", "open_ai_responses", "open_ai_images"] }))

/-- The part of `resolve_runtime` that decides what the keys reach. -/
def resolveKeys (checks : GraphChecks) (topology : UpstreamTopologyRecords)
    (keys : List ApiKeyRecord) : Except CanonicalGraphError (List ApiKeyRecord) := do
  let groups ← uniqueIndex (.duplicateId "routing group") (·.id) topology.routingGroups
  let logical ← uniqueIndex (.duplicateId "logical channel") (·.id) topology.logicalChannels
  let capabilities ← uniqueIndex (.duplicateId "channel capability") (·.id)
    topology.channelCapabilities
  checks.rows topology
  let live ← resolveCapabilities checks logical groups capabilities
  foldGrants keys topology.apiKeyGrants live logical.keys

section Proofs
variable {checks : GraphChecks} {logical : Table Uuid LogicalChannelRecord}
  {groups : Table Uuid RoutingGroupRecord} {capabilities : Table Uuid ChannelCapabilityRecord}
  {top : UpstreamTopologyRecords} {live : List LiveCapability}

theorem resolveCapability_eq_ok {cap : ChannelCapabilityRecord} {found : LiveCapability}
    (h : resolveCapability checks logical groups cap = .ok found) :
    found.capability = cap ∧ logical.get cap.channelId = some found.logical ∧
      groups.get found.logical.groupId = some found.group := by
  obtain ⟨ch, hc, h⟩ := bind_eq_ok.mp h
  obtain ⟨⟨⟩, -, h⟩ := bind_eq_ok.mp h
  obtain ⟨⟨⟩, -, h⟩ := bind_eq_ok.mp h
  obtain ⟨group, hg, h⟩ := bind_eq_ok.mp h
  obtain ⟨⟨⟩, -, h⟩ := bind_eq_ok.mp h
  obtain ⟨⟨⟩, -, h⟩ := bind_eq_ok.mp h
  cases h
  exact ⟨rfl, orReject_eq_ok.mp hc, orReject_eq_ok.mp hg⟩

/-- The live capabilities are the rows that are not deleted, with the channel they are on and
the group that channel is in. -/
theorem mem_resolveCapabilities (hg : ∀ id row, groups.get id = some row → row.id = id)
    (hlg : ∀ id row, logical.get id = some row → row ∈ top.logicalChannels ∧ row.id = id)
    (hc : ∀ id row, capabilities.get id = some row ↔ row ∈ top.channelCapabilities ∧ row.id = id)
    (h : resolveCapabilities checks logical groups capabilities = .ok live) :
    (∀ found ∈ live, found.capability ∈ top.channelCapabilities ∧
        found.capability.deletedAt = none ∧ found.logical ∈ top.logicalChannels ∧
        found.logical.id = found.capability.channelId ∧ found.group.id = found.logical.groupId) ∧
      ∀ cap ∈ top.channelCapabilities, cap.deletedAt = none →
        ∃ found ∈ live, found.capability = cap := by
  have hv : ∀ cap, cap ∈ (capabilities.values.mergeSort
      (fun a b => decide (a.id ≤ b.id))).filter (·.deletedAt.isNone) ↔
        cap ∈ top.channelCapabilities ∧ cap.deletedAt = none := by
    intro cap
    rw [mem_filter, mem_mergeSort, Table.mem_values_iff, Option.isNone_iff_eq_none]
    refine and_congr_left' ⟨?_, fun hm => ⟨cap.id, (hc _ _).mpr ⟨hm, rfl⟩⟩⟩
    rintro ⟨id, hge⟩
    exact ((hc id cap).mp hge).1
  obtain ⟨hre, he⟩ := mem_of_mapM_eq_ok h
  refine ⟨fun found hf => ?_, fun cap hm hli => ?_⟩
  · obtain ⟨cap, hca, hr⟩ := hre found hf
    obtain ⟨rfl, hch, hgr⟩ := resolveCapability_eq_ok hr
    obtain ⟨hm, hd⟩ := (hv found.capability).mp hca
    obtain ⟨hl, hlo⟩ := hlg _ _ hch
    exact ⟨hm, hd, hl, hlo, hg _ _ hgr⟩
  · obtain ⟨found, hf, hr⟩ := he cap ((hv cap).mpr ⟨hm, hli⟩)
    exact ⟨found, hf, (resolveCapability_eq_ok hr).1⟩

theorem mem_allowedCapabilities {grants : List ChannelGrantRecord} {kid id : Uuid} :
    id ∈ allowedCapabilities grants live kid ↔ ∃ grant ∈ grants, grant.ownerId = kid ∧
      ∃ found ∈ live, found.logical.id = grant.channelId ∧
        grantMatchesOrigin grant found = true ∧ found.capability.id = id := by
  simp only [allowedCapabilities, mem_mergeSort, mem_dedup, mem_flatMap,
    mem_filter, mem_map, beq_iff_eq, Bool.and_eq_true]
  constructor
  · rintro ⟨grant, ⟨hg, how⟩, found, ⟨hf, hc, hor⟩, hid⟩
    exact ⟨grant, hg, how, found, hf, hc, hor, hid⟩
  · rintro ⟨grant, hg, how, found, hf, hc, hor, hid⟩
    exact ⟨grant, ⟨hg, how⟩, found, ⟨hf, hc, hor⟩, hid⟩

end Proofs

/-- A grant for the channel whose origin is the channel itself or the group it is in now. -/
def ChannelGrantRecord.Reaches (grant : ChannelGrantRecord) (keyId : Uuid)
    (channel : LogicalChannelRecord) : Prop :=
  grant.ownerId = keyId ∧ grant.channelId = channel.id ∧
    (grant.originKind = .channel ∧ grant.originId = channel.id ∨
      grant.originKind = .group ∧ grant.originId = channel.groupId)

/-- What a folded key reaches. -/
def Folded (topology : UpstreamTopologyRecords) (key key' : ApiKeyRecord) : Prop :=
  key'.id = key.id ∧ key'.allowedGroupIds = [] ∧
    ∀ id, id ∈ key'.allowedChannelIds ↔ ∃ capability ∈ topology.channelCapabilities,
      capability.id = id ∧ capability.deletedAt = none ∧
      ∃ channel ∈ topology.logicalChannels, channel.id = capability.channelId ∧
        ∃ grant ∈ topology.apiKeyGrants, grant.Reaches key.id channel

theorem grantMatchesOrigin_iff {grant : ChannelGrantRecord} {found : LiveCapability}
    (hg : found.group.id = found.logical.groupId) (hc : found.logical.id = grant.channelId) :
    grantMatchesOrigin grant found = true ↔ grant.Reaches grant.ownerId found.logical := by
  unfold grantMatchesOrigin ChannelGrantRecord.Reaches
  cases hk : grant.originKind with
  | group =>
    rw [beq_iff_eq, hg]
    constructor
    · intro h
      exact ⟨rfl, hc.symm, .inr ⟨rfl, h.symm⟩⟩
    · rintro ⟨-, -, ⟨hot, -⟩ | ⟨-, h⟩⟩
      · cases hot
      · exact h.symm
  | channel =>
    rw [beq_iff_eq]
    constructor
    · intro h
      exact ⟨rfl, hc.symm, .inl ⟨rfl, h.symm⟩⟩
    · rintro ⟨-, -, ⟨-, h⟩ | ⟨hot, -⟩⟩
      · exact h.symm
      · cases hot
  | capability =>
    constructor
    · intro h
      cases h
    · rintro ⟨-, -, ⟨hot, -⟩ | ⟨hot, -⟩⟩
      · cases hot
      · cases hot

theorem folded_of_resolveKeys {checks : GraphChecks} {top : UpstreamTopologyRecords}
    {keys keys' : List ApiKeyRecord} (h : resolveKeys checks top keys = .ok keys') :
    List.Forall₂ (Folded top) keys keys' := by
  obtain ⟨groups, hgp, h⟩ := bind_eq_ok.mp h
  obtain ⟨logical, hlg, h⟩ := bind_eq_ok.mp h
  obtain ⟨capabilities, hca, h⟩ := bind_eq_ok.mp h
  obtain ⟨⟨⟩, -, h⟩ := bind_eq_ok.mp h
  obtain ⟨live, hli, h⟩ := bind_eq_ok.mp h
  obtain ⟨⟨⟩, -, h⟩ := bind_eq_ok.mp h
  cases h
  have hch := (uniqueIndex_eq_ok hlg).2
  obtain ⟨hs, hco⟩ := mem_resolveCapabilities
    (fun id row hge => (((uniqueIndex_eq_ok hgp).2 id row).mp hge).2)
    (fun id row hge => (hch id row).mp hge) (uniqueIndex_eq_ok hca).2 hli
  rw [forall₂_map_right_iff, forall₂_same]
  intro key _
  refine ⟨rfl, rfl, fun id => ?_⟩
  rw [mem_allowedCapabilities]
  constructor
  · rintro ⟨grant, hgr, how, found, hf, hc, hor, rfl⟩
    obtain ⟨hm, hd, hl, hlo, hg⟩ := hs found hf
    have hr := (grantMatchesOrigin_iff hg hc).mp hor
    rw [how] at hr
    exact ⟨found.capability, hm, rfl, hd, found.logical, hl, hlo, grant, hgr, hr⟩
  · rintro ⟨cap, hm, rfl, hd, ch, hcn, hcl, grant, hgr, hr⟩
    obtain ⟨found, hf, rfl⟩ := hco cap hm hd
    obtain ⟨-, -, hl, hlo, hg⟩ := hs found hf
    -- The channel of the capability is unique.
    obtain rfl : ch = found.logical := by
      have hfi := (hch _ ch).mpr ⟨hcn, hcl⟩
      have hse := (hch _ found.logical).mpr ⟨hl, hlo⟩
      exact Option.some.inj (hfi.symm.trans hse)
    obtain ⟨how, hc, hor⟩ := hr
    refine ⟨grant, hgr, how, found, hf, hc.symm, ?_, rfl⟩
    exact (grantMatchesOrigin_iff hg hc.symm).mpr ⟨rfl, hc, hor⟩

end AiGateway.Topology
