import AiGateway.RuntimeConfig.Rules

/-! Key compilation: what the packed bitmaps of a key permit is what the records say, and
the profile a key shares is the one compiled for it alone. -/
namespace AiGateway.RuntimeConfig
open Domain Lib Checked Stage SlotSet List Table

structure RoutingCompiled (records : ControlPlaneRecords) (routing : CompiledRouting) : Prop where
  indexes : routing.Indexes records.channels
  byGroup : ∀ groupId id, id ∈ (routing.channelsByGroup.get groupId).getD [] ↔
    ∃ channel, routing.allChannels.get id = some channel ∧ channel.channelGroupId = groupId
  rules : RulesCompiled routing.toRuleContext records.channels records.modelRules routing.rules

section Routing
variable {Plan Proxy : Type} {env : Env Plan Proxy} {recs : ControlPlaneRecords}
  {settings : SystemRuntimeSettings}

theorem compileRouting_meets :
    Meets True (compileRouting env recs settings) (RoutingCompiled recs) := by
  apply meets_lift_bind
  intro allGroups _
  apply meets_lift_bind
  intro rscs _
  apply meets_lift_bind
  intro allChannels hc
  obtain ⟨hl, hv⟩ := indexChannels_ok hc
  have hp := perm_insertionSort (· ≤ ·) allChannels.keys
  have hn : (allChannels.keys.insertionSort (· ≤ ·)).Nodup :=
    hp.nodup_iff.mpr allChannels.keys_nodup
  have hk : ∀ id, id ∈ allChannels.keys.insertionSort (· ≤ ·) ↔
      ∃ ch, allChannels.get id = some ch := by
    intro id
    rw [hp.mem_iff, mem_keys_iff]
  refine (addToGroups_meets (fun id hm => (hk id).mp hm)).bind (fun byGroup hb => ?_)
  apply meets_lift_bind
  intro _ _
  refine (addChannels_meets hv).bind (fun compiled hco => ?_)
  have hin : RuleContext.Indexes
      ⟨allGroups, allChannels, assignSlots (allChannels.keys.insertionSort (· ≤ ·)), compiled⟩
      recs.channels :=
    ⟨hl, numbered_positions hn,
      fun id => (positions_known hn id).trans (hk id), hco⟩
  refine (compileRules_meets hin recs.modelRules).bind (fun rules hr => ?_)
  refine meets_pure ⟨hin, fun gid id => ?_, hr⟩
  grind

end Routing

/-- A set of channels granted as words and as a list. -/
structure Granted (slots : Table Uuid ℕ) (granted : Words × List Uuid) (S : Set Uuid) : Prop where
  words : Represents slots granted.1 S
  ids : {id | id ∈ granted.2} = S
  nodup : granted.2.Nodup

section Grants
variable {slots : Table Uuid ℕ} {granted granted' : Words × List Uuid} {S : Set Uuid} {mrej : Prop}

theorem allow_meets (hn : Numbered slots) (h : Granted slots granted S) {id : Uuid} {slot : ℕ}
    (hid : slots.get id = some slot) :
    Meets mrej (allow slots granted id) (fun g => Granted slots g (insert id S)) := by
  apply meets_demand_bind hid
  refine (setBit_meets hn h.words hid).bind (fun words hw => ?_)
  refine meets_pure ⟨hw, ?_, h.nodup.insert⟩
  rw [← h.ids]
  ext o
  simp

theorem allowAll_meets (hn : Numbered slots) (h : Granted slots granted S) {ids : List Uuid}
    (hk : ∀ id ∈ ids, ∃ slot, slots.get id = some slot) :
    Meets mrej (ids.foldlM (allow slots) granted)
      (fun g => Granted slots g (S ∪ {id | id ∈ ids})) := by
  refine meets_foldlM (fun done g => Granted slots g (S ∪ {id | id ∈ done})) ?_ ?_
  · simpa using h
  · intro done id g hm hin
    obtain ⟨slot, hs⟩ := hk id hm
    rw [setOf_mem_append, Set.union_insert]
    exact allow_meets hn hin hs

variable {Plan Proxy : Type} {env : Env Plan Proxy} {recs : ControlPlaneRecords}
  {rt : CompiledRouting}

/-- The channels granted to a key are those the records allow it. -/
theorem compileAllowedChannelSlots_meets (h : RoutingCompiled recs rt)
    {rec : ApiKeyRecord}
    (hv : validateKey rec rt.allGroups rt.allChannels = .ok ()) :
    Meets mrej
      (compileAllowedChannelSlots rec rt.channelsByGroup rt.channelSlots)
      (fun g => Granted rt.channelSlots g (rec.allowed recs.channels)) := by
  have hn := h.indexes.numbered
  refine (meets_foldlM (fun done g => Granted rt.channelSlots g
    {id | ∃ gid ∈ done, id ∈ (rt.channelsByGroup.get gid).getD []}) ?_ ?_).bind
    (fun g hg => ?_)
  · refine ⟨by simpa using Represents.empty, by simp, nodup_nil⟩
  · intro done gid g _ hin
    have hme : ∀ id ∈ (rt.channelsByGroup.get gid).getD [],
        ∃ slot, rt.channelSlots.get id = some slot := by
      intro id hm
      obtain ⟨ch, hge, -⟩ := (h.byGroup gid id).mp hm
      exact (h.indexes.slotted id).mpr ⟨ch, hge⟩
    refine (allowAll_meets hn hin hme).mono (fun g' hg' => ?_)
    convert hg' using 1
    ext id
    simp [or_and_right, exists_or]
  · have hl : ∀ id ∈ rec.allowedChannelIds, ∃ slot, rt.channelSlots.get id = some slot :=
      fun id hm => (h.indexes.slotted id).mpr (validateKey_channels hv id hm)
    refine (allowAll_meets hn hg hl).mono (fun g' hg' => ?_)
    convert hg' using 1
    ext id
    simp only [ApiKeyRecord.allowed, Set.mem_ofPred_eq, Set.mem_union, h.byGroup, h.indexes.listed]
    grind

variable {words : Words}

theorem setBits_meets {n : ℕ} {routes : List ℕ}
    (hl : words.length = (PackedBits.zeros 64 n).length) (hb : ∀ r ∈ routes, r < n) :
    Meets mrej (routes.foldlM setBit words) (fun words' =>
      words'.length = (PackedBits.zeros 64 n).length ∧ ∀ r, PackedBits.test words' r = true ↔
        PackedBits.test words r = true ∨ r ∈ routes) := by
  refine meets_foldlM (fun done words' => words'.length = (PackedBits.zeros 64 n).length ∧
    ∀ r, PackedBits.test words' r = true ↔ PackedBits.test words r = true ∨ r ∈ done) ?_ ?_
  · simpa using hl
  · intro done r words' hm ⟨hle, hin⟩
    obtain ⟨words'', hs⟩ := PackedBits.set?_of_lt
      (hle ▸ PackedBits.zeros_bound (hb r hm) : r / 64 < words'.length)
    refine meets_demand hs ⟨(PackedBits.length_set? hs).trans hle, fun o => ?_⟩
    rw [PackedBits.test_set? hs, hin, mem_append, mem_singleton]
    tauto

/-- The routes opened by the channels of a set. -/
structure Accessible (routing : CompiledRouting) (S : Set Uuid) (words : Words) : Prop where
  length : words.length = (PackedBits.zeros 64 routing.rules.modelRules.len).length
  test_iff : ∀ r, PackedBits.test words r = true ↔ ∃ id ∈ S, ∃ slot,
    routing.channelSlots.get id = some slot ∧ r ∈ routesAt routing.rules.routesByChannelSlot slot

theorem Accessible.route_iff (h : RoutingCompiled recs rt)
    (hw : Accessible rt S words)
    (hk : ∀ id ∈ S, ∃ slot, rt.channelSlots.get id = some slot) {key : ModelRouteKey} {rule : CompiledModelRule} {rec : ModelRuleRecord}
    (hg : rt.rules.modelRules.get key = some rule)
    (hf : CompiledFrom rt.toRuleContext recs.channels rec rule) :
    bitIsSet words rule.routeSlot = true ↔ (S ∩ rec.authorizing recs.channels).Nonempty := by
  rw [bitIsSet_eq_test, hw.test_iff]
  simp only [h.rules.routes, bitIsSet_eq_test]
  constructor
  · rintro ⟨id, hid, slot, hs, key', rule', hg', hr, hb⟩
    have hke := h.rules.distinct key key' rule rule' hg hg' hr.symm
    subst hke
    cases hg.symm.trans hg'
    exact ⟨id, hid, (hf.authorizing.test_key h.indexes.numbered hs).mp hb⟩
  · rintro ⟨id, hid, ha⟩
    obtain ⟨slot, hs⟩ := hk id hid
    exact ⟨id, hid, slot, hs, key, rule, hg, rfl,
      (hf.authorizing.test_key h.indexes.numbered hs).mpr ha⟩

/-- The inverted index opens the same routes as intersecting the bitmaps rule by rule. -/
theorem compileAccessibleRouteSlots_meets (h : RoutingCompiled recs rt)
    (hg : Granted rt.channelSlots granted S) :
    Meets mrej
      (compileAccessibleRouteSlots rt.rules granted.2 granted.1 rt.channelSlots)
      (Accessible rt S) := by
  have hid : ∀ id, id ∈ granted.2 ↔ id ∈ S := fun id => Set.ext_iff.mp hg.ids id
  have hb : ∀ slot, ∀ r ∈ routesAt rt.rules.routesByChannelSlot slot,
      r < rt.rules.modelRules.len := by
    intro slot r hr
    obtain ⟨key, rule, hge, rfl, -⟩ := (h.rules.routes slot r).mp hr
    exact h.rules.bound key rule hge
  refine (meets_foldlM (fun done words => words.length =
      (PackedBits.zeros 64 rt.rules.modelRules.len).length ∧
    ∀ r, PackedBits.test words r = true ↔ ∃ id ∈ done, ∃ slot, rt.channelSlots.get id = some slot ∧
        r ∈ routesAt rt.rules.routesByChannelSlot slot) ?_ ?_).bind (fun words hw => ?_)
  · simp [PackedBits.test_zeros]
  · intro done id words hm ⟨hl, hin⟩
    obtain ⟨slot, hs⟩ := hg.words.known id ((hid id).mp hm)
    have hlt : slot < rt.rules.routesByChannelSlot.length :=
      h.rules.length ▸ h.indexes.numbered.bound id slot hs
    have hro := List.getElem?_eq_getElem hlt
    apply meets_demand_bind hs
    apply meets_demand_bind hro
    have hat : rt.rules.routesByChannelSlot[slot] = routesAt rt.rules.routesByChannelSlot slot := by
      rw [routesAt, hro, Option.getD_some]
    rw [hat]
    refine (setBits_meets hl (hb slot)).mono (fun words' ⟨hl', ht⟩ => ⟨hl', ?_⟩)
    intro r
    rw [ht, hin]
    simp [or_and_right, exists_or, hs]
  · have ha : Accessible rt S words := ⟨hw.1, fun r => by simpa only [hid] using hw.2 r⟩
    refine (meets_assert ?_ trivial).bind (fun _ (_ : True) => meets_pure ha)
    rw [all_eq_true]
    intro rule hm
    obtain ⟨key, hge⟩ := (mem_values_iff _ _).mp hm
    obtain ⟨rec, -, -, -, hf⟩ := h.rules.source key rule hge
    rw [beq_iff_eq, Bool.eq_iff_iff, ha.route_iff h hg.words.known hge hf, Set.inter_comm]
    exact (hf.authorizing.inter_iff h.indexes.numbered hg.words).symm

theorem Accessible.unique {words' : Words} (h : Accessible rt S words)
    (h' : Accessible rt S words') : words = words' := by
  apply PackedBits.eq_of_test_eq (h.length.trans h'.length.symm)
  intro r
  rw [Bool.eq_iff_iff, h.test_iff, h'.test_iff]

theorem routingScopeFingerprint_perm (sha256 : Sha256) {ids ids' : List Uuid}
    (hp : ids.Perm ids') :
    routingScopeFingerprint sha256 [] ids = routingScopeFingerprint sha256 [] ids' := by
  have hs : ids.insertionSort (· ≤ ·) = ids'.insertionSort (· ≤ ·) := by
    apply List.Perm.eq_of_pairwise' (r := (· ≤ ·))
    · exact pairwise_insertionSort _ ids
    · exact pairwise_insertionSort _ ids'
    · calc (ids.insertionSort (· ≤ ·)).Perm ids := perm_insertionSort _ ids
        ids.Perm ids' := hp
        ids'.Perm (ids'.insertionSort (· ≤ ·)) := (perm_insertionSort _ ids').symm
  unfold routingScopeFingerprint
  rw [hs]

theorem compileProfile_returns (env : Env Plan Proxy) (h : RoutingCompiled recs rt)
    (hg : Granted rt.channelSlots granted S) :
    ∃ words, Accessible rt S words ∧
      compileProfile env rt granted = .ok (.new env.sha256 granted.2 granted.1 words) := by
  obtain ⟨words, hok, hw⟩ := (compileAccessibleRouteSlots_meets h hg).returns
  refine ⟨words, hw, ?_⟩
  unfold compileProfile
  rw [hok]
  rfl

/-- The profile depends on nothing but the granted words. -/
theorem compileProfile_eq (h : RoutingCompiled recs rt)
    (hg : Granted rt.channelSlots granted S) {S' : Set Uuid}
    (hg' : Granted rt.channelSlots granted' S') (hw : granted.1 = granted'.1) :
    compileProfile env rt granted = compileProfile env rt granted' := by
  have hs : S = S' := (hw ▸ hg.words).set_eq h.indexes.numbered hg'.words
  subst hs
  obtain ⟨words, ha, hok⟩ := compileProfile_returns env h hg
  obtain ⟨words', ha', hok'⟩ := compileProfile_returns env h hg'
  have hid : granted.2.Perm granted'.2 := by
    rw [perm_ext_iff_of_nodup hg.nodup hg'.nodup]
    intro id
    exact Set.ext_iff.mp (hg.ids.trans hg'.ids.symm) id
  rw [hok, hok', ha.unique ha', hw]
  unfold AuthorizationProfile.new
  rw [routingScopeFingerprint_perm env.sha256 hid]

end Grants

/-- The profile of a key when it shares with no other. -/
def compileOwnProfile {Plan Proxy : Type} (env : Env Plan Proxy) (routing : CompiledRouting)
    (record : ApiKeyRecord) : Compile AuthorizationProfile := do
  let granted ← compileAllowedChannelSlots record routing.channelsByGroup routing.channelSlots
  compileProfile env routing granted

/-- The key's profile, and what it permits in terms of the records. -/
structure KeyFrom {Plan Proxy : Type} (env : Env Plan Proxy) (records : ControlPlaneRecords)
    (routing : CompiledRouting) (record : ApiKeyRecord) (key : CompiledApiKey) : Prop where
  id_eq : key.id = record.id
  own : compileOwnProfile env routing record = .ok key.authorization
  candidates : Represents routing.channelSlots key.authorization.allowedChannelSlots
    (record.allowed records.channels)
  routes : Accessible routing (record.allowed records.channels)
    key.authorization.accessibleRouteSlots

structure KeysCompiled {Plan Proxy : Type} (env : Env Plan Proxy) (records : ControlPlaneRecords)
    (routing : CompiledRouting) (done : List ApiKeyRecord) (keys : CompiledKeys) : Prop where
  source : ∀ hash key, keys.apiKeys.get hash = some key → ∃ record ∈ done,
    record.isActive = true ∧ env.apiKeyHash record.secretValue = hash ∧
      KeyFrom env records routing record key
  complete : ∀ record ∈ done, record.isActive = true → ∃ key,
    keys.apiKeys.get (env.apiKeyHash record.secretValue) = some key ∧
      KeyFrom env records routing record key
  profiles : ∀ granted S profile, Granted routing.channelSlots granted S →
    keys.authorizationProfiles.get granted.1 = some profile →
      compileProfile env routing granted = .ok profile

section Keys
variable {Plan Proxy : Type} {env : Env Plan Proxy} {recs : ControlPlaneRecords}
  {rt : CompiledRouting} {done : List ApiKeyRecord} {keys : CompiledKeys}
  {rec : ApiKeyRecord} {granted : Words × List Uuid} {S : Set Uuid}
  {settings : SystemRuntimeSettings}

/-- A shared profile is the one the key would get by itself. -/
theorem shareProfile_eq (h : KeysCompiled env recs rt done keys) (hg : Granted rt.channelSlots granted S) :
    shareProfile env rt keys.authorizationProfiles granted = compileProfile env rt granted := by
  unfold shareProfile
  cases hge : keys.authorizationProfiles.get granted.1 with
  | none => rfl
  | some profile => exact (h.profiles granted S profile hg hge).symm

section
variable (hrouting : RoutingCompiled recs rt)
  (h : KeysCompiled env recs rt done keys)
include hrouting h

/-- Adding a key under a fresh hash, and its profile for the keys that follow. -/
theorem KeysCompiled.insert (ha : rec.isActive = true)
    (hf : keys.apiKeys.get (env.apiKeyHash rec.secretValue) = none)
    {key : CompiledApiKey} (hk : KeyFrom env recs rt rec key) (hgr : Granted rt.channelSlots granted S)
    (hp : compileProfile env rt granted = .ok key.authorization) :
    KeysCompiled env recs rt (done ++ [rec])
      { keys with
        authorizationProfiles := keys.authorizationProfiles.insert granted.1 key.authorization
        apiKeys := keys.apiKeys.insert (env.apiKeyHash rec.secretValue) key } := by
  have hg := get_insert_fresh hf key
  constructor
  · intro hash o hot
    rcases (hg hash o).mp hot with ⟨rfl, rfl⟩ | hot
    · exact ⟨rec, by simp, ha, rfl, hk⟩
    · obtain ⟨src, hm, hs⟩ := h.source hash o hot
      exact ⟨src, mem_append_left _ hm, hs⟩
  · intro src hm hs
    rcases mem_append.mp hm with hm | hm
    · obtain ⟨o, hot, hfr⟩ := h.complete src hm hs
      exact ⟨o, (hg _ _).mpr (.inr hot), hfr⟩
    · rw [mem_singleton.mp hm]
      exact ⟨key, (hg _ _).mpr (.inl ⟨rfl, rfl⟩), hk⟩
  · intro granted' S' profile hg' hc
    rw [get_insert] at hc
    split_ifs at hc with hw
    · cases hc
      rw [compileProfile_eq hrouting hg' hgr hw]
      exact hp
    · exact h.profiles granted' S' profile hg' hc

theorem addKey_meets (hv : validateKey rec rt.allGroups rt.allChannels = .ok ())
    (ha : rec.isActive = true) :
    Meets True (addKey env rt keys rec)
      (KeysCompiled env recs rt (done ++ [rec])) := by
  apply meets_lift_bind
  intro formats _
  apply meets_lift_bind
  intro permissions _
  obtain ⟨granted, hok, hg⟩ := (compileAllowedChannelSlots_meets hrouting hv).returns
  obtain ⟨words, hw, hp⟩ := compileProfile_returns env hrouting hg
  have how : compileOwnProfile env rt rec = .ok (.new env.sha256 granted.2 granted.1 words) := by
    unfold compileOwnProfile
    rw [hok]
    exact hp
  rw [hok]
  show Meets True (shareProfile env rt keys.authorizationProfiles granted >>= _) _
  rw [shareProfile_eq h hg, hp]
  apply meets_lift_bind
  intro requestsPerMinute _
  apply meets_lift_bind
  intro maxConcurrentRequests _
  apply meets_lift_bind
  intro _ hf
  rw [ensure_eq_ok, Option.isNone_iff_eq_none] at hf
  exact meets_pure (h.insert hrouting ha hf ⟨rfl, how, hg.words, hw⟩ hg hp)

end

theorem KeysCompiled.skip (h : KeysCompiled env recs rt done keys)
    (hin : rec.isActive = false) :
    KeysCompiled env recs rt (done ++ [rec]) keys := by
  refine ⟨?_, ?_, h.profiles⟩
  · intro hash key hg
    obtain ⟨src, hm, hs⟩ := h.source hash key hg
    exact ⟨src, mem_append_left _ hm, hs⟩
  · intro src hm ha
    rcases mem_append.mp hm with hm | hm
    · exact h.complete src hm ha
    · rw [mem_singleton.mp hm, hin] at ha
      cases ha

theorem compileKeys_meets (hrouting : RoutingCompiled recs rt)
    (apiKeys : List ApiKeyRecord) :
    Meets True (compileKeys env rt apiKeys) (KeysCompiled env recs rt apiKeys) := by
  refine meets_foldlM (KeysCompiled env recs rt) ?_ ?_
  · constructor <;> simp
  · intro done rec keys _ hin
    apply meets_lift_bind
    intro _ _
    apply meets_lift_bind
    intro _ hv
    have hk : KeysCompiled env recs rt done { keys with ids := rec.id :: keys.ids } :=
      ⟨hin.source, hin.complete, hin.profiles⟩
    split_ifs with ha
    · exact addKey_meets hrouting hk hv ha
    · exact meets_pure (hk.skip (Bool.not_eq_true _ ▸ ha))

theorem compileControlPlane_ok {config : CompiledRuntimeConfig}
    (h : compileControlPlane env recs settings = .ok config) :
    ∃ rt keys, compileRouting env recs settings = .ok rt ∧
      RoutingCompiled recs rt ∧ KeysCompiled env recs rt recs.apiKeys keys ∧
      config = ⟨keys.apiKeys, .fromFlat rt.rules.modelRules, rt.channels,
        settings.sessionAffinity⟩ := by
  unfold compileControlPlane at h
  rw [bind_eq_ok] at h
  obtain ⟨rt, hrouting, h⟩ := h
  rw [bind_eq_ok] at h
  obtain ⟨keys, hk, h⟩ := h
  cases h
  have hc := compileRouting_meets.of_ok hrouting
  exact ⟨rt, keys, hrouting, hc, (compileKeys_meets hc _).of_ok hk, rfl⟩

theorem compileControlPlane_not_panicked :
    compileControlPlane env recs settings ≠ .error .panicked := by
  have hm : Meets True (compileControlPlane env recs settings) (fun _ => True) :=
    compileRouting_meets.bind (fun rt hrouting =>
      (compileKeys_meets hrouting _).bind (fun keys _ => meets_pure trivial))
  exact hm.not_panicked

variable {config : CompiledRuntimeConfig}

/-- What is compiled is a snapshot routing can rely on. -/
theorem compileControlPlane_snapshot (h : compileControlPlane env recs settings = .ok config) :
    ∃ snap : CompiledSnapshot, snap.toCompiledRuntimeConfig = config := by
  obtain ⟨rt, keys, -, hrouting, -, rfl⟩ := compileControlPlane_ok h
  refine ⟨.ofFlat keys.apiKeys rt.rules.modelRules rt.channels settings.sessionAffinity
    (fun key rule hg => ?_) (fun key rule hg => ?_), rfl⟩
  · obtain ⟨rec, -, -, -, hf⟩ := hrouting.rules.source key rule hg
    exact hf.wellFormed
  · obtain ⟨rec, -, -, hk, hf⟩ := hrouting.rules.source key rule hg
    exact hk.symm.trans hf.key_eq

/-- What a compiled key answers, in terms of the records. -/
structure Answers (records : ControlPlaneRecords) (config : CompiledRuntimeConfig)
    (record : ApiKeyRecord) (key : CompiledApiKey) : Prop where
  candidate : ∀ rule ∈ config.modelRules.values, ∀ tier ∈ rule.tiers, ∀ c ∈ tier.candidates,
    (key.permitsRouteCandidate c.channelSlot = true ↔
      c.channel.id ∈ record.allowed records.channels)
  route : ∀ ruleRecord ∈ records.modelRules, ruleRecord.isActive = true → ∀ rule,
    config.operationRule ruleRecord.apiOperation ruleRecord.clientModel = some rule →
      (key.permitsRoute rule.routeSlot = true ↔
        (record.allowed records.channels ∩ ruleRecord.authorizing records.channels).Nonempty)

theorem mem_fromFlat_iff {routes : Table ModelRouteKey CompiledModelRule}
    {rule : CompiledModelRule} :
    rule ∈ (CompiledModelRoutes.fromFlat routes).values ↔ ∃ key, routes.get key = some rule := by
  rw [CompiledModelRoutes.mem_values_iff]
  simp only [CompiledModelRoutes.get_fromFlat]
  constructor
  · rintro ⟨op, model, hg⟩
    exact ⟨_, hg⟩
  · rintro ⟨key, hg⟩
    exact ⟨key.apiOperation, key.clientModel, hg⟩

theorem KeyFrom.answers {apiKeys : Table Digest CompiledApiKey}
    {sessionAffinity : SessionAffinitySettings} {key : CompiledApiKey}
    (hk : KeyFrom env recs rt rec key) (h : RoutingCompiled recs rt) :
    Answers recs
      ⟨apiKeys, .fromFlat rt.rules.modelRules, rt.channels, sessionAffinity⟩ rec key := by
  have hn := h.indexes.numbered
  constructor
  · intro rule hr tier ht c hc
    obtain ⟨routeKey, hg⟩ := mem_fromFlat_iff.mp hr
    obtain ⟨ruleRecord, -, -, -, hf⟩ := h.rules.source routeKey rule hg
    have hs := hf.slots tier ht c hc
    rw [← hk.candidates.test_key hn hs, ← bitIsSet_eq_test]
    rfl
  · intro ruleRecord hm ha rule hr
    have hg : rt.rules.modelRules.get ruleRecord.routingKey = some rule := by
      rw [← hr]
      exact (CompiledModelRoutes.get_fromFlat _ _ _).symm
    obtain ⟨rule', hg', hf⟩ := h.rules.complete ruleRecord hm ha
    cases hg.symm.trans hg'
    exact hk.routes.route_iff h hk.candidates.known hg hf

/-- Compilation never panics. In a compiled snapshot the keys and rules are those of the active
records; a key permits a candidate exactly when the records allow its channel, and a route
exactly when they allow one of the rule's authorizing channels; route slots are distinct; and the
profile of a key is the one compiled for that key alone. -/
theorem authorization_refines_records (env : Env Plan Proxy) (records : ControlPlaneRecords)
    (settings : SystemRuntimeSettings) :
    compileControlPlane env records settings ≠ .error .panicked ∧
    ∀ config, compileControlPlane env records settings = .ok config →
      (∀ ruleRecord ∈ records.modelRules, ruleRecord.isActive = true →
        ∃ rule, config.operationRule ruleRecord.apiOperation ruleRecord.clientModel = some rule ∧
          rule.id = ruleRecord.id) ∧
      (∀ rule ∈ config.modelRules.values, ∃ ruleRecord ∈ records.modelRules,
        ruleRecord.isActive = true ∧ rule.id = ruleRecord.id ∧
          config.operationRule ruleRecord.apiOperation ruleRecord.clientModel = some rule) ∧
      (∀ rule ∈ config.modelRules.values, ∀ rule' ∈ config.modelRules.values,
        rule.routeSlot = rule'.routeSlot → rule = rule') ∧
      (∀ record ∈ records.apiKeys, record.isActive = true →
        ∃ key, config.apiKeys.get (env.apiKeyHash record.secretValue) = some key ∧
          key.id = record.id ∧ Answers records config record key) ∧
      (∀ hash key, config.apiKeys.get hash = some key → ∃ record ∈ records.apiKeys,
        record.isActive = true ∧ env.apiKeyHash record.secretValue = hash ∧ key.id = record.id) ∧
      ∃ routing, compileRouting env records settings = .ok routing ∧
        ∀ record ∈ records.apiKeys, record.isActive = true → ∀ key,
          config.apiKeys.get (env.apiKeyHash record.secretValue) = some key →
            compileOwnProfile env routing record = .ok key.authorization := by
  refine ⟨compileControlPlane_not_panicked, fun config hc => ?_⟩
  obtain ⟨routing, keys, hok, hrouting, hk, rfl⟩ := compileControlPlane_ok hc
  refine ⟨?_, ?_, ?_, ?_, ?_, routing, hok, ?_⟩
  · intro ruleRecord hm ha
    obtain ⟨rule, hg, hf⟩ := hrouting.rules.complete ruleRecord hm ha
    exact ⟨rule, (CompiledModelRoutes.get_fromFlat _ _ _).trans hg, hf.id_eq⟩
  · intro rule hr
    obtain ⟨key, hg⟩ := mem_fromFlat_iff.mp hr
    obtain ⟨ruleRecord, hm, ha, rfl, hf⟩ := hrouting.rules.source key rule hg
    exact ⟨ruleRecord, hm, ha, hf.id_eq, (CompiledModelRoutes.get_fromFlat _ _ _).trans hg⟩
  · intro rule hr rule' hr' hs
    obtain ⟨key, hg⟩ := mem_fromFlat_iff.mp hr
    obtain ⟨key', hg'⟩ := mem_fromFlat_iff.mp hr'
    have hke := hrouting.rules.distinct key key' rule rule' hg hg' hs
    subst hke
    exact Option.some.inj (hg.symm.trans hg')
  · intro record hm ha
    obtain ⟨key, hg, hf⟩ := hk.complete record hm ha
    exact ⟨key, hg, hf.id_eq, hf.answers hrouting⟩
  · intro hash key hg
    obtain ⟨record, hm, ha, hh, hf⟩ := hk.source hash key hg
    exact ⟨record, hm, ha, hh, hf.id_eq⟩
  · intro record hm ha key hg
    obtain ⟨key', hg', hf⟩ := hk.complete record hm ha
    cases hg.symm.trans hg'
    exact hf.own

end Keys

/-- A compiler without templates, proxies, plugins or prices. -/
def plainEnv : Env Unit Unit where
  sha256 := fun _ => 0
  apiKeyHash := fun secret => BitVec.ofNat 256 secret.length
  compileResources := .ok ⟨∅, ∅⟩
  compileDocument := fun _ _ => .ok ()
  noop := fun _ => ()
  compose := fun _ _ => .ok ()
  requestJsonIsEmpty := fun _ => true
  outboundNetworkPolicyFingerprint := fun _ _ => 0
  compileAuth := fun _ => .ok ()
  parseUrl := fun _ url => .ok url
  pluginProtocols := fun _ _ => none
  compileScheduledTestModels := fun _ => .ok ()
  validateEffectiveChannelPrices := fun _ _ => .ok ()
  compileAdvancedBilling := fun _ => .ok ()

def responsesGroup (id : Uuid) : ChannelGroupRecord :=
  ⟨id, "group", "open_ai_responses", "general", "default", true⟩

def responsesChannel (id groupId : Uuid) (models : List String) : ChannelRecord where
  id := id
  channelGroupId := groupId
  apiFormat := "open_ai_responses"
  logicalChannelId := Uuid.nil
  accessId := Uuid.nil
  apiOperation := none
  connectorKind := ""
  requestCompression := ""
  accessRevision := Uuid.nil
  capabilityRevision := Uuid.nil
  transports := []
  name := "channel"
  baseUrl := "https://upstream.example"
  enabled := true
  supportsWebsocket := false
  supportsStandaloneWebSearch := false
  autoDisabled := false
  autoDisableAllowed := false
  billingMultiplier := 1
  proxyId := none
  configTemplateId := none
  overrideDocument := ""
  connectTimeoutMs := none
  responseHeaderTimeoutMs := none
  streamIdleTimeoutMs := none
  upstreamAuthKind := "none"
  upstreamAuthHeaderName := none
  upstreamApiKey := none
  availableModels := models
  testModel := none
  testPricingModelId := none
  credential := none
  credentialBindingRevision := Uuid.nil

def responsesRule (id : Uuid) (channelIds : List Uuid) : ModelRuleRecord where
  id := id
  clientModel := "model"
  apiFormat := "open_ai_responses"
  apiOperation := .responses
  modelId := 1
  modelEnabled := true
  modelCurrency := "USD"
  priceUnitTokens := 1000000
  inputUnitPrice := 0
  cachedInputUnitPrice := 0
  cacheWriteUnitPrice := 0
  outputUnitPrice := 0
  advancedBilling := ""
  routingTiers := [⟨0, "weighted_random", channelIds.map (fun id => ⟨id, "model", 1⟩)⟩]
  enabled := true

def responsesKey (id : Uuid) (secret : String) (groupIds channelIds : List Uuid) :
    ApiKeyRecord where
  id := id
  userId := 1
  userStatus := "active"
  userWebsocketEnabled := false
  userFilterFastMode := false
  secretValue := secret
  status := "active"
  expiresAt := none
  allowedApiFormats := ["open_ai_responses"]
  permissions := ["proxy"]
  allowedGroupIds := groupIds
  allowedChannelIds := channelIds
  requestsPerMinute := none
  maxConcurrentRequests := none
  quotaLimitAmount := none
  quotaUsedAmount := 0

/-- Two channels in two groups, of which only the second offers the model, and two keys. -/
def twoChannelRecords : ControlPlaneRecords where
  apiKeys := [responsesKey 1 "first" [] [11], responsesKey 2 "second" [2] []]
  modelRules := [responsesRule 1 [11, 12]]
  groups := [responsesGroup 1, responsesGroup 2]
  channels := [responsesChannel 11 1 [], responsesChannel 12 2 ["model"]]

def plainSettings : SystemRuntimeSettings := ⟨Duration.fromSecs 5, ⟨false, 0, []⟩⟩

theorem twoChannelRecords_accepted :
    ∃ config, compileControlPlane plainEnv twoChannelRecords plainSettings = .ok config := by
  have hok : (compileControlPlane plainEnv twoChannelRecords plainSettings).toBool = true := by
    decide +kernel
  cases hc : compileControlPlane plainEnv twoChannelRecords plainSettings with
  | ok config => exact ⟨config, rfl⟩
  | error failure =>
    rw [hc] at hok
    cases hok

/-- The second key reaches the rule through its group. -/
theorem authorization_refines_records_two_channels :
    ∃ config, compileControlPlane plainEnv twoChannelRecords plainSettings = .ok config ∧
      ∃ rule key, config.operationRule .responses "model" = some rule ∧
        config.apiKeys.get (plainEnv.apiKeyHash "second") = some key ∧
        key.permitsRoute rule.routeSlot = true := by
  obtain ⟨config, hco⟩ := twoChannelRecords_accepted
  obtain ⟨hrl, -, -, hke, -⟩ :=
    (authorization_refines_records plainEnv twoChannelRecords plainSettings).2 config hco
  have hr : responsesRule 1 [11, 12] ∈ twoChannelRecords.modelRules := mem_singleton_self _
  have hk : responsesKey 2 "second" [2] [] ∈ twoChannelRecords.apiKeys := by
    simp [twoChannelRecords]
  have hc : responsesChannel 12 2 ["model"] ∈ twoChannelRecords.channels := by
    simp [twoChannelRecords]
  obtain ⟨rule, hru, -⟩ := hrl _ hr (by decide)
  obtain ⟨key, hky, -, ha⟩ := hke _ hk (by decide)
  refine ⟨config, hco, rule, key, hru, hky, ?_⟩
  rw [ha.route _ hr (by decide) rule hru]
  refine ⟨12, .inr ⟨_, hc, by decide, by decide⟩, .inl ⟨(0, ⟨12, "model", 1⟩), ?_, by decide,
    _, hc, by decide, by decide⟩⟩
  simp [ModelRuleRecord.entries, responsesRule]

end AiGateway.RuntimeConfig
