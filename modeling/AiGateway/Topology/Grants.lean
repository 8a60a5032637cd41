import AiGateway.Topology.Authorization
import AiGateway.Topology.Snapshot
import Mathlib.Data.List.Induction

/-! Group grants never expand by themselves: whoever holds one was given it by an edit that added
the group while the channel was in it. -/
namespace AiGateway.Topology
open Domain Lib Lib.Stage List Table

/-- The channel is a live member of the live group. -/
def UpstreamTopologyRecords.LiveMember (topology : UpstreamTopologyRecords)
    (channelId groupId : Uuid) : Prop :=
  ∃ channel ∈ topology.logicalChannels, channel.id = channelId ∧ channel.groupId = groupId ∧
    channel.deletedAt = none ∧
    ∃ group ∈ topology.routingGroups, group.id = groupId ∧ group.deletedAt = none

section Resolve
variable {top : UpstreamTopologyRecords} {groups chs : List Uuid}
  {selfService : Option (Option SelfApiKeyPolicy)}

theorem liveGroups_contains {id : Uuid} (h : top.liveGroups.contains id = true) :
    ∃ group ∈ top.routingGroups, group.id = id ∧ group.deletedAt = none := by
  obtain ⟨group, hg⟩ := Option.isSome_iff_exists.mp h
  obtain ⟨found, hf, heq⟩ := mem_map.mp (mem_of_get_ofList hg)
  cases heq
  obtain ⟨hm, hl⟩ := mem_filter.mp hf
  exact ⟨group, hm, rfl, Option.isNone_iff_eq_none.mp hl⟩

variable {ch : LogicalChannelRecord} {grant : Grant} {grants : List Grant}

theorem mem_liveChannels (h : ch ∈ top.liveChannels.values) :
    top.LiveMember ch.id ch.groupId := by
  obtain ⟨id, hge⟩ := (mem_values_iff _ _).mp h
  obtain ⟨found, hf, heq⟩ := mem_map.mp (mem_of_get_ofList hge)
  cases heq
  obtain ⟨hm, hl⟩ := mem_filter.mp hf
  obtain ⟨hd, hg⟩ := Bool.and_eq_true_iff.mp hl
  exact ⟨ch, hm, rfl, rfl, Option.isNone_iff_eq_none.mp hd, liveGroups_contains hg⟩

theorem mem_channelGrants (h : grant ∈ top.channelGrants groups chs selfService ch) :
    grant.channelId = ch.id ∧
      (grant.group = true ∧ grant.originId = ch.groupId ∧ ch.groupId ∈ groups ∨
        grant.group = false ∧ ch.id ∈ chs ∧ grant.originId = ch.id) := by
  rcases mem_append.mp h with hg | hc
  · split_ifs at hg with hs
    · rw [mem_singleton.mp hg]
      rw [Bool.and_eq_true, contains_iff_mem] at hs
      exact ⟨rfl, .inl ⟨rfl, rfl, hs.1⟩⟩
    · exact absurd hg not_mem_nil
  · split_ifs at hc with hs
    · rw [mem_singleton.mp hc]
      rw [Bool.and_eq_true, contains_iff_mem] at hs
      exact ⟨rfl, .inr ⟨rfl, hs.1, rfl⟩⟩
    · exact absurd hc not_mem_nil

theorem resolve_eq_ok (h : top.resolve groups chs selfService = .ok grants) :
    grants = top.liveChannels.values.flatMap
      (top.channelGrants groups chs selfService) := by
  obtain ⟨⟨⟩, -, h⟩ := bind_eq_ok.mp h
  cases selfService with
  | none => exact (Except.ok.inj h).symm
  | some policy =>
    simp only at h
    split_ifs at h
    exact (Except.ok.inj h).symm

/-- Resolving a target list grants the live members of its groups. -/
theorem liveMember_of_resolve (h : top.resolve groups chs selfService = .ok grants)
    (hg : grant ∈ grants) (hgr : grant.group = true) :
    grant.originId ∈ groups ∧ top.LiveMember grant.channelId grant.originId := by
  rw [resolve_eq_ok h] at hg
  obtain ⟨ch, hc, hm⟩ := mem_flatMap.mp hg
  obtain ⟨hid, ⟨-, hor, hs⟩ | ⟨hot, -⟩⟩ := mem_channelGrants hm
  · rw [hid, hor]
    exact ⟨hs, mem_liveChannels hc⟩
  · rw [hgr] at hot
    cases hot

end Resolve

theorem mem_reconcile {ex plan : List Grant} {pre after : Targets} {grant : Grant} :
    grant ∈ reconcile ex plan pre after ↔ grant ∈ ex ∧ after.covers grant = true ∨
        grant ∈ plan ∧ pre.covers grant = false := by
  simp [reconcile]

/-- A grant of the owner for the channel that comes from the group. -/
def UpstreamTopologyRecords.Granted (topology : UpstreamTopologyRecords) (owner : Owner)
    (channelId groupId : Uuid) : Prop :=
  ⟨owner.id, channelId, .group, groupId⟩ ∈ topology.grantsOf owner

theorem mem_replaceGrants {rows : List ChannelGrantRecord} {ownerId : Uuid} {grants : List Grant}
    {row : ChannelGrantRecord} (h : row ∈ replaceGrants rows ownerId grants) :
    row ∈ rows ∧ row.ownerId ≠ ownerId ∨ row.ownerId = ownerId ∧ row.grant ∈ grants := by
  rcases mem_append.mp h with hke | ha
  · obtain ⟨hr, hk⟩ := mem_filter.mp hke
    by_cases how : row.ownerId = ownerId
    · simp only [how, bne_self_eq_false, Bool.false_or, contains_iff_mem] at hk
      exact .inr ⟨how, hk⟩
    · exact .inl ⟨hr, how⟩
  · obtain ⟨grant, hg, rfl⟩ := mem_map.mp (mem_of_mem_filter ha)
    have hs : (grant.record ownerId).grant = grant := by
      obtain ⟨cid, group, originId⟩ := grant
      cases group <;> rfl
    exact .inr ⟨rfl, hs.symm ▸ hg⟩

section Write
variable {top top' : UpstreamTopologyRecords} {owner : Owner} {pre : Option Targets}
  {after : Targets} {plan : Option (List Grant)}

theorem grantsOf_setGrants_self (rows : List ChannelGrantRecord) :
    (top.setGrants owner rows).grantsOf owner = rows := by
  cases owner <;> rfl

/-- What a write can grant: what was granted and is still covered, or what the plan grants for a
new target. -/
theorem write_eq_ok (h : write top owner pre after plan = .ok top') :
    ∃ rsv, (plan = some rsv ∨ plan = none ∧ resolveAdded top (pre.getD .none) after = .ok rsv) ∧
      top' = top.setGrants owner (replaceGrants (top.grantsOf owner) owner.id
        (reconcile (((top.grantsOf owner).filter (fun row => row.ownerId == owner.id)).map
          (·.grant)) rsv (pre.getD .none) after)) := by
  cases plan with
  | some rsv =>
    obtain ⟨found, hf, h⟩ := bind_eq_ok.mp h
    cases hf
    obtain ⟨⟨⟩, -, h⟩ := bind_eq_ok.mp h
    exact ⟨rsv, .inl rfl, (Except.ok.inj h).symm⟩
  | none =>
    obtain ⟨rsv, hr, h⟩ := bind_eq_ok.mp h
    obtain ⟨⟨⟩, -, h⟩ := bind_eq_ok.mp h
    exact ⟨rsv, .inr ⟨rfl, hr⟩, (Except.ok.inj h).symm⟩

variable {cid gid : Uuid}

theorem grantsOf_setGrants_other {o : Owner} {grants : List Grant} (hne : o ≠ owner)
    (h : (top.setGrants owner
      (replaceGrants (top.grantsOf owner) owner.id grants)).Granted o cid gid) :
    top.Granted o cid gid := by
  -- The other owner has another table, or another id in the same one.
  cases owner with
  | key id =>
    cases o with
    | key id' =>
      rcases mem_replaceGrants h with ⟨hr, -⟩ | ⟨how, -⟩
      · exact hr
      · exact absurd (congrArg Owner.key how) hne
    | policy id' => exact h
  | policy id =>
    cases o with
    | key id' => exact h
    | policy id' =>
      rcases mem_replaceGrants h with ⟨hr, -⟩ | ⟨how, -⟩
      · exact hr
      · exact absurd (congrArg Owner.policy how) hne

/-- A group grant after a write was there before, or its group is a new target with the channel
in it. -/
theorem granted_write (h : write top owner pre after plan = .ok top')
    (hp : ∀ rsv, plan = some rsv → ∀ grant ∈ rsv, grant.group = true →
      grant.originId ∈ after.groups ∧ top.LiveMember grant.channelId grant.originId) (hgr : top'.Granted owner cid gid) :
    gid ∈ after.groups ∧ (top.Granted owner cid gid ∨
      gid ∉ (pre.getD .none).groups ∧ top.LiveMember cid gid) := by
  obtain ⟨rsv, hre, rfl⟩ := write_eq_ok h
  have hm : ∀ grant ∈ rsv, grant.group = true →
      grant.originId ∈ after.groups ∧ top.LiveMember grant.channelId grant.originId := by
    rcases hre with hso | ⟨-, ha⟩
    · exact hp rsv hso
    · intro grant hg hgp
      obtain ⟨hn, hl⟩ := liveMember_of_resolve ha hg hgp
      exact ⟨mem_of_mem_filter hn, hl⟩
  rw [UpstreamTopologyRecords.Granted, grantsOf_setGrants_self] at hgr
  rcases mem_replaceGrants hgr with ⟨-, hot⟩ | ⟨-, hg⟩
  · exact absurd rfl hot
  · rcases mem_reconcile.mp hg with ⟨he, hc⟩ | ⟨hn, hc⟩
    · obtain ⟨row, hr, heq⟩ := mem_map.mp he
      obtain ⟨hr, how⟩ := mem_filter.mp hr
      have hs : row = ⟨owner.id, cid, .group, gid⟩ := by
        obtain ⟨ownerId, rowChannel, kind, origin⟩ := row
        have hid : ownerId = owner.id := beq_iff_eq.mp how
        cases kind <;> cases heq
        rw [hid]
      rw [hs] at hr
      exact ⟨contains_iff_mem.mp hc, .inl hr⟩
    · obtain ⟨haf, hl⟩ := hm _ hn rfl
      refine ⟨haf, .inr ⟨fun hme => ?_, hl⟩⟩
      have hol : (pre.getD .none).groups.contains gid = false := hc
      rw [contains_iff_mem.mpr hme] at hol
      cases hol

end Write

namespace Database

def targetsOf (db : Database) (owner : Owner) : Targets := (db.targets.get owner).getD .none

/-- The origins of the group grants are targets. -/
def Covered (db : Database) : Prop :=
  ∀ owner channelId groupId, db.topology.Granted owner channelId groupId →
    groupId ∈ (db.targetsOf owner).groups

/-- What a step does to the group grants: it keeps them while their group is a target, and adds
one only for a group that becomes a target with the channel in it. -/
def Follows (db db' : Database) : Prop :=
  ∀ owner channelId groupId, db'.topology.Granted owner channelId groupId →
    groupId ∈ (db'.targetsOf owner).groups ∧ (db.topology.Granted owner channelId groupId ∨
      groupId ∉ (db.targetsOf owner).groups ∧ db.topology.LiveMember channelId groupId)

variable {db db' : Database}

theorem Follows.refl (h : db.Covered) : db.Follows db :=
  fun owner cid gid hg => ⟨h owner cid gid hg, .inl hg⟩

variable {after : Targets} {id : Uuid} {owner : Owner} {policy : Option SelfApiKeyPolicy}

theorem follows_write (h : db.Covered) {pre : Option Targets}
    {plan : Option (List Grant)} {top : UpstreamTopologyRecords}
    (hw : write db.topology owner pre after plan = .ok top)
    (hb : pre.getD .none = db.targetsOf owner)
    (hp : ∀ rsv, plan = some rsv → ∀ grant ∈ rsv, grant.group = true →
      grant.originId ∈ after.groups ∧ db.topology.LiveMember grant.channelId grant.originId) :
    db.Follows ⟨top, db.targets.insert owner after⟩ := by
  intro o cid gid hg
  by_cases hne : o = owner
  · subst hne
    rw [targetsOf, get_insert_self, ← hb]
    exact granted_write hw hp hg
  · rw [targetsOf, get_insert_ne _ _ hne]
    obtain ⟨rsv, -, rfl⟩ := write_eq_ok hw
    have hol := grantsOf_setGrants_other hne hg
    exact ⟨h o cid gid hol, .inl hol⟩

theorem follows_saveTargets (h : db.Covered)
    (hs : saveTargets db owner after = .ok db') : db.Follows db' := by
  obtain ⟨⟨⟩, -, hs⟩ := bind_eq_ok.mp hs
  obtain ⟨top, hw, hs⟩ := bind_eq_ok.mp hs
  cases hs
  refine follows_write h hw rfl (fun rsv hn => ?_)
  cases hn

theorem follows_createOwnApiKey (h : db.Covered)
    (hc : createOwnApiKey db id after policy = .ok db') : db.Follows db' := by
  obtain ⟨⟨⟩, -, hc⟩ := bind_eq_ok.mp hc
  obtain ⟨plan, hr, hc⟩ := bind_eq_ok.mp hc
  obtain ⟨⟨⟩, hne, hc⟩ := bind_eq_ok.mp hc
  obtain ⟨top, hw, hc⟩ := bind_eq_ok.mp hc
  cases hc
  have hn := Option.isNone_iff_eq_none.mp (ensure_eq_ok.mp hne)
  refine follows_write h hw (by rw [targetsOf, hn]) (fun rsv hp => ?_)
  cases hp
  exact fun grant hg hgr => liveMember_of_resolve hr hg hgr

theorem mem_of_sameUuidSet {left right : List Uuid} (h : sameUuidSet left right = true)
    (hm : id ∈ left) : id ∈ right := by
  simp only [sameUuidSet, Bool.and_eq_true, all_eq_true, contains_iff_mem] at h
  exact h.1.2 id hm

theorem follows_updateOwnApiKey (h : db.Covered)
    (hu : updateOwnApiKey db id after policy = .ok db') : db.Follows db' := by
  obtain ⟨cur, hc, hu⟩ := bind_eq_ok.mp hu
  have hc := orReject_eq_ok.mp hc
  obtain ⟨⟨⟩, -, hu⟩ := bind_eq_ok.mp hu
  split_ifs at hu with hch
  · obtain ⟨plan, hr, hu⟩ := bind_eq_ok.mp hu
    obtain ⟨top, hw, hu⟩ := bind_eq_ok.mp hu
    cases hu
    refine follows_write h hw (by rw [targetsOf, hc]) (fun rsv hp => ?_)
    cases hp
    exact fun grant hgr hgp => liveMember_of_resolve hr hgr hgp
  · cases hu
    -- The list is another spelling of the same set.
    intro o cid gid hg
    refine ⟨?_, .inl hg⟩
    have hm := h o cid gid hg
    by_cases hne : o = .key id
    · subst hne
      rw [targetsOf, hc] at hm
      rw [targetsOf, get_insert_self]
      simp only [Bool.or_eq_true, Bool.not_eq_true', not_or, Bool.not_eq_false] at hch
      exact mem_of_sameUuidSet hch.1 hm
    · rw [targetsOf, get_insert_ne _ _ hne]
      exact hm

theorem follows_commit (h : db.Covered) {res : Except RepositoryError Database}
    (hr : ∀ db', res = .ok db' → db.Follows db') : db.Follows (db.commit res) := by
  cases res with
  | ok db' => exact hr db' rfl
  | error err => exact .refl h

theorem follows_step (h : db.Covered) (ev : Event) : db.Follows (db.step ev) := by
  cases ev with
  | saveGroup group => exact Follows.refl h
  | saveChannel ch => exact Follows.refl h
  | saveCapability cap => exact Follows.refl h
  | saveTargets owner targets => exact follows_commit h fun _ => follows_saveTargets h
  | createOwnApiKey id targets policy => exact follows_commit h fun _ => follows_createOwnApiKey h
  | updateOwnApiKey id targets policy => exact follows_commit h fun _ => follows_updateOwnApiKey h

theorem covered_run (evs : List Event) : (run Database.step Database.empty evs).Covered := by
  have hs : ∀ db ev, db.Covered → (Database.step db ev).Covered :=
    fun db ev h owner cid gid hg => (follows_step h ev owner cid gid hg).1
  refine run_invariant hs ?_ evs
  intro owner cid gid hg
  cases owner with
  | key id => exact absurd hg not_mem_nil
  | policy id => exact absurd hg not_mem_nil

end Database

/-- The group became a target of the owner with an event, has been one ever since, and had the
channel as a live member when the event happened. -/
def LastAdded (events : List Event) (owner : Owner) (channelId groupId : Uuid) : Prop :=
  ∃ before event after, events = before ++ event :: after ∧
    groupId ∉ ((run Database.step Database.empty before).targetsOf owner).groups ∧
    (∀ n, groupId ∈ ((run Database.step Database.empty
      (before ++ event :: after.take n)).targetsOf owner).groups) ∧
    (run Database.step Database.empty before).topology.LiveMember channelId groupId

/-- A group that stays a target has been added when it was. -/
theorem LastAdded.snoc {evs : List Event} {owner : Owner} {cid gid : Uuid}
    (h : LastAdded evs owner cid gid) {ev : Event}
    (hm : gid ∈ ((run Database.step Database.empty (evs ++ [ev])).targetsOf owner).groups) :
    LastAdded (evs ++ [ev]) owner cid gid := by
  obtain ⟨pre, added, after, rfl, hne, hs, hl⟩ := h
  refine ⟨pre, added, after ++ [ev], by simp, hne, fun n => ?_, hl⟩
  rcases Nat.lt_or_ge after.length n with hn | hn
  · have ht : (after ++ [ev]).take n = after ++ [ev] :=
      take_of_length_le (by rw [length_append]; exact hn)
    rw [ht]
    simpa using hm
  · rw [take_append_of_le_length hn]
    exact hs n

theorem lastAdded_of_granted (evs : List Event) (owner : Owner) (cid gid : Uuid)
    (h : (run Database.step Database.empty evs).topology.Granted owner cid gid) :
    LastAdded evs owner cid gid := by
  induction evs using List.reverseRecOn with
  | nil =>
    cases owner with
    | key id => exact absurd h not_mem_nil
    | policy id => exact absurd h not_mem_nil
  | append_singleton evs ev ih =>
    have hs := Database.follows_step (Database.covered_run evs) ev
    have hr : run Database.step Database.empty (evs ++ [ev]) =
        (run Database.step Database.empty evs).step ev := by
      rw [run_append]
      rfl
    rw [hr] at h
    obtain ⟨hm, hol | ⟨hn, hl⟩⟩ := hs owner cid gid h
    · rw [← hr] at hm
      exact (ih hol).snoc hm
    · refine ⟨evs, ev, [], rfl, hn, fun n => ?_, hl⟩
      rw [take_nil, hr]
      exact hm

/-- Over every history of target edits and of channels that are created, moved and deleted: a
group grant exists only for a channel that was a live member of the group when the group was last
newly added to the owner's targets. In a snapshot of any topology a key reaches the capabilities
of a channel exactly by a grant for the channel that comes from the channel itself or from the
group the channel is in now. -/
theorem group_grants_never_expand (events : List Event) :
    (∀ owner channelId groupId,
      (run Database.step Database.empty events).topology.Granted owner channelId groupId →
        LastAdded events owner channelId groupId) ∧
    ∀ checks topology keys keys', resolveKeys checks topology keys = .ok keys' →
      List.Forall₂ (Folded topology) keys keys' :=
  ⟨lastAdded_of_granted events, fun _ _ _ _ => folded_of_resolveKeys⟩

end AiGateway.Topology
