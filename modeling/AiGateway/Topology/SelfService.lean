import AiGateway.Topology.Grants

/-! What a user may grant their own key: live channels of the requested targets that the default
policy covers now, whatever grants are left from earlier memberships. -/
namespace AiGateway.Topology
open Domain Lib Lib.Stage List Bool

namespace UpstreamTopologyRecords
variable (topology : UpstreamTopologyRecords)

def LiveGroup (id : Uuid) : Prop :=
  ∃ group ∈ topology.routingGroups, group.id = id ∧ group.deletedAt = none

/-- The channel and its group are not deleted; of several live rows with one id the last counts. -/
def LiveChannel (channel : LogicalChannelRecord) : Prop :=
  channel ∈ topology.logicalChannels ∧ channel.deletedAt = none ∧
    topology.LiveGroup channel.groupId ∧ topology.liveChannels.get channel.id = some channel

/-- The present and enabled policy has a grant for the channel that comes from the channel itself
or from the group it is in now. -/
def CoveredBy (policy : Option SelfApiKeyPolicy) (channel : LogicalChannelRecord) : Prop :=
  ∃ present, policy = some present ∧ present.enabled = true ∧
    ∃ grant ∈ topology.policyGrants, grant.Reaches present.id channel

end UpstreamTopologyRecords

section
variable {topology : UpstreamTopologyRecords} {groups chs : List Uuid}
  {policy : Option SelfApiKeyPolicy} {id : Uuid} {ch : LogicalChannelRecord}

theorem liveGroups_contains_iff :
    topology.liveGroups.contains id = true ↔ topology.LiveGroup id := by
  refine ⟨liveGroups_contains, ?_⟩
  rintro ⟨group, hm, rfl, hl⟩
  refine Table.contains_ofList (mem_map.mpr ⟨group, mem_filter.mpr ⟨hm, ?_⟩, rfl⟩)
  rw [hl, Option.isNone_none]

theorem get_liveChannels (h : topology.liveChannels.get id = some ch) :
    ch.id = id ∧ topology.LiveChannel ch := by
  obtain ⟨found, hf, heq⟩ := mem_map.mp (Table.mem_of_get_ofList h)
  cases heq
  obtain ⟨hm, hl⟩ := mem_filter.mp hf
  obtain ⟨hd, hg⟩ := and_eq_true_iff.mp hl
  exact ⟨rfl, hm, Option.isNone_iff_eq_none.mp hd, liveGroups_contains hg, h⟩

theorem mem_values_liveChannels :
    ch ∈ topology.liveChannels.values ↔ topology.LiveChannel ch := by
  rw [Table.mem_values_iff]
  constructor
  · rintro ⟨id, hg⟩
    exact (get_liveChannels hg).2
  · intro h
    exact ⟨ch.id, h.2.2.2⟩

theorem liveChannels_contains_iff : topology.liveChannels.contains id = true ↔
    ∃ ch, topology.LiveChannel ch ∧ ch.id = id := by
  constructor
  · intro h
    obtain ⟨ch, hg⟩ := Option.isSome_iff_exists.mp h
    obtain ⟨hid, hl⟩ := get_liveChannels hg
    exact ⟨ch, hl, hid⟩
  · rintro ⟨ch, hl, rfl⟩
    rw [Table.contains, hl.2.2.2, Option.isSome_some]

theorem policyAllows_iff :
    topology.policyAllows policy ch = true ↔ topology.CoveredBy policy ch := by
  unfold UpstreamTopologyRecords.policyAllows UpstreamTopologyRecords.CoveredBy
  cases policy with
  | none =>
    constructor
    · intro h
      cases h
    · rintro ⟨present, hn, -⟩
      cases hn
  | some present =>
    simp only [Option.any_some, and_eq_true, any_eq_true, beq_iff_eq]
    constructor
    · rintro ⟨he, grant, hg, ⟨how, hc⟩, hor⟩
      refine ⟨present, rfl, he, grant, hg, how, hc, ?_⟩
      cases hk : grant.originKind with
      | group =>
        rw [hk] at hor
        exact .inr ⟨rfl, beq_iff_eq.mp hor⟩
      | channel =>
        rw [hk] at hor
        exact .inl ⟨rfl, beq_iff_eq.mp hor⟩
      | capability =>
        rw [hk] at hor
        cases hor
    · rintro ⟨found, hf, he, grant, hg, how, hc, hor⟩
      cases hf
      refine ⟨he, grant, hg, ⟨how, hc⟩, ?_⟩
      rcases hor with ⟨hk, hor⟩ | ⟨hk, hor⟩
      · rw [hk]
        exact beq_iff_eq.mpr hor
      · rw [hk]
        exact beq_iff_eq.mpr hor

/-- What a call resolves to before the check that every target is covered; an administrator's is
without a policy. -/
theorem mem_allGrants {policy : Option (Option SelfApiKeyPolicy)} {grant : Grant} :
    grant ∈ topology.liveChannels.values.flatMap (topology.channelGrants groups chs policy) ↔
      ∃ ch, topology.LiveChannel ch ∧ (∀ present ∈ policy, topology.CoveredBy present ch) ∧
        (grant = ⟨ch.id, true, ch.groupId⟩ ∧ ch.groupId ∈ groups ∨
          grant = ⟨ch.id, false, ch.id⟩ ∧ ch.id ∈ chs) := by
  rw [mem_flatMap]
  refine exists_congr (fun ch => ?_)
  rw [mem_values_liveChannels]
  unfold UpstreamTopologyRecords.channelGrants
  rw [mem_append, mem_ite_nil_right, mem_ite_nil_right]
  simp only [and_eq_true, contains_iff_mem, mem_singleton, Option.all_eq_true,
    policyAllows_iff, Option.mem_def]
  tauto

def LiveTargets (topology : UpstreamTopologyRecords) (groups channels : List Uuid) : Prop :=
  (∀ id ∈ groups, topology.LiveGroup id) ∧
    ∀ id ∈ channels, ∃ channel, topology.LiveChannel channel ∧ channel.id = id

/-- Every target has a live channel the policy covers. -/
def CoveredTargets (topology : UpstreamTopologyRecords) (groups channels : List Uuid)
    (policy : Option SelfApiKeyPolicy) : Prop :=
  (∀ id ∈ groups, ∃ channel, topology.LiveChannel channel ∧ channel.groupId = id ∧
      topology.CoveredBy policy channel) ∧
    ∀ id ∈ channels, ∃ channel, topology.LiveChannel channel ∧ channel.id = id ∧
      topology.CoveredBy policy channel

theorem liveTargets_iff :
    (groups.all topology.liveGroups.contains && chs.all topology.liveChannels.contains) = true ↔
      LiveTargets topology groups chs := by
  simp only [and_eq_true, all_eq_true, liveGroups_contains_iff, liveChannels_contains_iff]
  rfl

theorem groupContributes_iff (hid : id ∈ groups) :
    (∃ grant ∈ topology.liveChannels.values.flatMap
        (topology.channelGrants groups chs (some policy)),
      grant.group = true ∧ grant.originId = id) ↔
      ∃ ch, topology.LiveChannel ch ∧ ch.groupId = id ∧ topology.CoveredBy policy ch := by
  constructor
  · rintro ⟨grant, hg, hgr, rfl⟩
    obtain ⟨ch, hl, hc, ⟨rfl, -⟩ | ⟨rfl, -⟩⟩ := mem_allGrants.mp hg
    · exact ⟨ch, hl, rfl, hc _ rfl⟩
    · cases hgr
  · rintro ⟨ch, hl, rfl, hc⟩
    exact ⟨_, mem_allGrants.mpr ⟨ch, hl, by simpa using hc, .inl ⟨rfl, hid⟩⟩, rfl,
      rfl⟩

theorem channelContributes_iff (hid : id ∈ chs) :
    (∃ grant ∈ topology.liveChannels.values.flatMap
        (topology.channelGrants groups chs (some policy)),
      grant.group = false ∧ grant.originId = id) ↔
      ∃ ch, topology.LiveChannel ch ∧ ch.id = id ∧ topology.CoveredBy policy ch := by
  constructor
  · rintro ⟨grant, hg, hgr, rfl⟩
    obtain ⟨ch, hl, hc, ⟨rfl, -⟩ | ⟨rfl, -⟩⟩ := mem_allGrants.mp hg
    · cases hgr
    · exact ⟨ch, hl, rfl, hc _ rfl⟩
  · rintro ⟨ch, hl, rfl, hc⟩
    exact ⟨_, mem_allGrants.mpr ⟨ch, hl, by simpa using hc, .inr ⟨rfl, hid⟩⟩, rfl,
      rfl⟩

/-- A self-service call succeeds exactly when every target is live and covered. -/
theorem resolve_self_service_iff {grants : List Grant} :
    topology.resolve groups chs (some policy) = .ok grants ↔
      LiveTargets topology groups chs ∧ CoveredTargets topology groups chs policy ∧
        grants = topology.liveChannels.values.flatMap
          (topology.channelGrants groups chs (some policy)) := by
  have hc : ((groups.all (fun id => (topology.liveChannels.values.flatMap
        (topology.channelGrants groups chs (some policy))).any
          (fun grant => grant.group && grant.originId == id)) &&
      chs.all (fun id => (topology.liveChannels.values.flatMap
        (topology.channelGrants groups chs (some policy))).any
          (fun grant => !grant.group && grant.originId == id))) = true) ↔
        CoveredTargets topology groups chs policy := by
    simp only [and_eq_true, all_eq_true, any_eq_true, beq_iff_eq, not_eq_true']
    refine and_congr (forall₂_congr (fun id hid => ?_)) (forall₂_congr (fun id hid => ?_))
    · exact groupContributes_iff hid
    · exact channelContributes_iff hid
  unfold UpstreamTopologyRecords.resolve
  rw [bind_eq_ok]
  simp only [ensure_eq_ok, liveTargets_iff]
  rw [← hc]
  constructor
  · rintro ⟨-, hl, h⟩
    split_ifs at h with ha
    exact ⟨hl, ha, (Except.ok.inj h).symm⟩
  · rintro ⟨hl, ha, rfl⟩
    exact ⟨(), hl, if_pos ha⟩

theorem resolve_admin_iff {grants : List Grant} :
    topology.resolve groups chs none = .ok grants ↔ LiveTargets topology groups chs ∧
      grants = topology.liveChannels.values.flatMap
        (topology.channelGrants groups chs none) := by
  unfold UpstreamTopologyRecords.resolve
  rw [bind_eq_ok]
  simp only [ensure_eq_ok, liveTargets_iff]
  constructor
  · rintro ⟨-, hl, h⟩
    exact ⟨hl, (Except.ok.inj h).symm⟩
  · rintro ⟨hl, rfl⟩
    exact ⟨(), hl, rfl⟩

end

/-- A user can give their key only live channels of the requested targets that their policy covers
now: every target contributes, an administrator would get no fewer grants, and the call fails only
for a target that is not live or not covered. -/
theorem self_service_stays_within_policy (topology : UpstreamTopologyRecords)
    (policy : Option SelfApiKeyPolicy) (groups channels : List Uuid) :
    (∀ grants, topology.resolve groups channels (some policy) = .ok grants →
      (∀ grant ∈ grants, ∃ channel, topology.LiveChannel channel ∧ channel.id = grant.channelId ∧
        (channel.groupId ∈ groups ∨ channel.id ∈ channels) ∧
        topology.CoveredBy policy channel) ∧
      (∀ id ∈ groups, ∃ grant ∈ grants, grant.group = true ∧ grant.originId = id) ∧
      (∀ id ∈ channels, ∃ grant ∈ grants, grant.group = false ∧ grant.originId = id) ∧
      ∃ all, topology.resolve groups channels none = .ok all ∧ ∀ grant ∈ grants, grant ∈ all) ∧
    ∀ error, topology.resolve groups channels (some policy) = .error error →
      (∃ id ∈ groups, ¬ topology.LiveGroup id) ∨
      (∃ id ∈ channels, ∀ channel, topology.LiveChannel channel → channel.id ≠ id) ∨
      (∃ id ∈ groups, ∀ channel, topology.LiveChannel channel → channel.groupId = id →
        ¬ topology.CoveredBy policy channel) ∨
      ∃ id ∈ channels, ∀ channel, topology.LiveChannel channel → channel.id = id →
        ¬ topology.CoveredBy policy channel := by
  constructor
  · intro grants h
    obtain ⟨hl, ⟨hg, hc⟩, rfl⟩ := resolve_self_service_iff.mp h
    refine ⟨fun grant hgn => ?_, fun id hid => (groupContributes_iff hid).mpr (hg id hid),
      fun id hid => (channelContributes_iff hid).mpr (hc id hid),
      _, resolve_admin_iff.mpr ⟨hl, rfl⟩, fun grant hgn => ?_⟩
    · obtain ⟨channel, hl, hco, hor⟩ := mem_allGrants.mp hgn
      rcases hor with ⟨rfl, hs⟩ | ⟨rfl, hs⟩
      · exact ⟨channel, hl, rfl, .inl hs, hco _ rfl⟩
      · exact ⟨channel, hl, rfl, .inr hs, hco _ rfl⟩
    · obtain ⟨channel, hl, -, hor⟩ := mem_allGrants.mp hgn
      exact mem_allGrants.mpr ⟨channel, hl, by simp, hor⟩
  · intro error h
    by_contra hn
    push Not at hn
    obtain ⟨hg, hc, hgr, hch⟩ := hn
    have hok := resolve_self_service_iff.mpr
      ⟨⟨hg, hc⟩, ⟨hgr, hch⟩, rfl⟩
    rw [hok] at h
    cases h

end AiGateway.Topology
