import AiGateway.RuntimeConfig.Access

/-! Rule compilation: the scan over the tiers of a rule, the tiers built from it, and the
inverted index from channel slots to route slots. -/
namespace AiGateway.RuntimeConfig
open Domain Lib Checked Stage SlotSet List Table

/-- The channels collected from the candidates visited so far. -/
structure Collected (channels : List ChannelRecord)
    (visited : List (ℤ × ModelRuleRouteCandidate)) (scan : RuleScan) : Prop where
  targets : ∀ id, id ∈ scan.targetCandidates ↔ ∃ entry ∈ visited, entry.2.channelId = id
  capable : ∀ id, id ∈ scan.modelCapableCandidates ↔
    ∃ entry ∈ visited, entry.2.channelId = id ∧ entry.2.Served channels

/-- The tiers filled so far: their candidates come from the visited ones, in order. -/
structure Tiered (ctx : RuleContext) (visited : List (ℤ × ModelRuleRouteCandidate))
    (scan : RuleScan) : Prop where
  ordered : ∀ priority candidates, scan.tierChannels.get priority = some candidates →
    (candidates.map (fun c => (priority, c.channel.id, c.upstreamModel, c.weight))).Sublist
      (visited.map (fun e => (e.1, e.2.channelId, e.2.upstreamModel, e.2.weight.toNat)))
  slots : ∀ priority candidates, scan.tierChannels.get priority = some candidates →
    ∀ c ∈ candidates, ctx.channelSlots.get c.channel.id = some c.channelSlot ∧
      ctx.channels.get c.channel.id = some c.channel
  strategies : ∀ priority candidates, scan.tierChannels.get priority = some candidates →
    ∃ strategy, scan.tierStrategies.get priority = some strategy

section Scan
variable {Plan Proxy : Type} {env : Env Plan Proxy} {ctx : RuleContext}
  {chs : List ChannelRecord} {visited visited' : List (ℤ × ModelRuleRouteCandidate)}
  {scan scan' : RuleScan} {rec : ModelRuleRecord} {priority : ℤ}
  {candidate : ModelRuleRouteCandidate}

theorem Tiered.mono (h : Tiered ctx visited scan) (hsu : visited.Sublist visited')
    (hc : scan'.tierChannels = scan.tierChannels)
    (hs : scan'.tierStrategies = scan.tierStrategies) : Tiered ctx visited' scan' := by
  constructor <;> rw [hc]
  · intro priority cs hg
    exact (h.ordered priority cs hg).trans (hsu.map _)
  · exact h.slots
  · rw [hs]
    exact h.strategies

section
variable (hctx : ctx.Indexes chs) (h : Tiered ctx visited scan)
  (hstrategy : ∃ strategy, scan.tierStrategies.get priority = some strategy)
include hctx h hstrategy

/-- A tier's strategy is known before any of its candidates is added. -/
theorem addCandidate_meets (hk : ∃ ch, ctx.allChannels.get candidate.channelId = some ch) :
    Meets True (addCandidate ctx priority scan candidate) (fun scan' =>
      Tiered ctx (visited ++ [(priority, candidate)]) scan' ∧
        scan'.targetCandidates = scan.targetCandidates ∧
        scan'.modelCapableCandidates = scan.modelCapableCandidates ∧
        scan'.tierStrategies = scan.tierStrategies) := by
  apply meets_lift_bind
  intro compiled hco
  rw [orReject_eq_ok] at hco
  obtain ⟨ch, -, hch, hfr⟩ := hctx.compiled _ _ hco
  have hid := hfr.id_eq.trans hch
  obtain ⟨slot, hs⟩ := (hctx.slotted _).mpr hk
  apply meets_demand_bind hs
  refine meets_pure ⟨⟨?_, ?_, ?_⟩, rfl, rfl, rfl⟩
  · intro o cs hg
    rw [get_insert] at hg
    rw [map_append]
    split_ifs at hg with hot
    · cases hg
      subst hot
      rw [map_append]
      apply List.Sublist.append
      · cases hol : scan.tierChannels.get o with
        | none => exact nil_sublist _
        | some old => exact h.ordered o old hol
      · simp [hid]
    · exact (h.ordered o cs hg).trans (sublist_append_left _ _)
  · intro o cs hg c hc
    rw [get_insert] at hg
    split_ifs at hg with hot
    · cases hg
      subst hot
      rcases mem_append.mp hc with hc | hc
      · cases hol : scan.tierChannels.get o with
        | none => simp [hol] at hc
        | some old =>
          rw [hol] at hc
          exact h.slots o old hol c hc
      · rw [mem_singleton.mp hc, hid]
        exact ⟨hs, hco⟩
    · exact h.slots o cs hg c hc
  · intro o cs hg
    rw [get_insert] at hg
    split_ifs at hg with hot
    · exact hot ▸ hstrategy
    · exact h.strategies o cs hg

theorem visitCapable_meets {ch : ChannelRecord} {group : ChannelGroupRecord}
    (hc : ctx.allChannels.get candidate.channelId = some ch) :
    Meets True (visitCapable env ctx rec priority scan candidate ch group) (fun scan' =>
      Tiered ctx (visited ++ [(priority, candidate)]) scan' ∧
        scan'.targetCandidates = scan.targetCandidates ∧
        scan'.modelCapableCandidates = scan.modelCapableCandidates.insert candidate.channelId ∧
        scan'.tierStrategies = scan.tierStrategies) := by
  apply meets_lift_bind
  intro _ _
  have hco : Tiered ctx visited { scan with
      modelCapableCandidateCount := scan.modelCapableCandidateCount + 1
      modelCapableCandidates := scan.modelCapableCandidates.insert candidate.channelId } :=
    h.mono (.refl _) rfl rfl
  split_ifs
  · exact addCandidate_meets hctx hco hstrategy ⟨ch, hc⟩
  · exact meets_pure ⟨h.mono (sublist_append_left _ _) rfl rfl, rfl, rfl, rfl⟩

end

/-- What the loop over the candidates keeps. -/
structure Scanned (ctx : RuleContext) (channels : List ChannelRecord)
    (visited : List (ℤ × ModelRuleRouteCandidate)) (scan : RuleScan) : Prop
    extends Collected channels visited scan, Tiered ctx visited scan

theorem visitCandidate_meets (hctx : ctx.Indexes chs) (h : Scanned ctx chs visited scan)
    (hstrategy : ∃ strategy, scan.tierStrategies.get priority = some strategy) :
    Meets True (visitCandidate env ctx rec priority scan candidate) (fun scan' =>
      Scanned ctx chs (visited ++ [(priority, candidate)]) scan' ∧
        scan'.tierStrategies = scan.tierStrategies) := by
  apply meets_lift_bind
  intro ch hc
  rw [orReject_eq_ok] at hc
  apply meets_lift_bind
  intro group _
  have hse := hctx.served_iff hc
  have hta : ∀ id, id ∈ scan.targetCandidates.insert candidate.channelId ↔
      ∃ e ∈ visited ++ [(priority, candidate)], e.2.channelId = id := by
    intro id
    rw [mem_insert_iff, h.targets]
    simp only [mem_append, mem_singleton, or_and_right, exists_or, exists_eq_left]
    rw [or_comm, eq_comm (a := id)]
  have hti : Tiered ctx visited { scan with
      targetCandidateCount := scan.targetCandidateCount + 1
      targetCandidates := scan.targetCandidates.insert candidate.channelId } :=
    h.toTiered.mono (.refl _) rfl rfl
  split_ifs with hmo <;> rw [contains_iff_mem, ← hse] at hmo
  · refine (visitCapable_meets hctx hti hstrategy hc).mono
      (fun scan' ⟨hn, ht, hm, hs⟩ => ⟨⟨⟨?_, ?_⟩, hn⟩, hs⟩)
    · rw [ht]
      exact hta
    · intro id
      rw [hm, mem_insert_iff, h.capable]
      simp only [mem_append, mem_singleton, or_and_right, exists_or, exists_eq_left]
      rw [or_comm, eq_comm (a := id), and_iff_left hmo]
  · refine meets_pure ⟨⟨⟨hta, ?_⟩, h.toTiered.mono (sublist_append_left _ _) rfl rfl⟩, rfl⟩
    intro id
    rw [h.capable]
    simp [or_and_right, exists_or, hmo]

theorem visitTier_meets (hctx : ctx.Indexes chs) (h : Scanned ctx chs visited scan)
    (tier : ModelRuleRoutingTier) :
    Meets True (visitTier env ctx rec scan tier)
      (Scanned ctx chs (visited ++ tier.candidates.map (fun c => (tier.priority, c)))) := by
  apply meets_lift_bind
  intro strategy _
  refine Meets.mono (meets_foldlM (fun done scan' =>
    Scanned ctx chs (visited ++ done.map (fun c => (tier.priority, c))) scan' ∧
      ∃ strategy, scan'.tierStrategies.get tier.priority = some strategy) ?_ ?_)
    (fun _ hscan => hscan.1)
  · refine ⟨⟨⟨by simpa using h.targets, by simpa using h.capable⟩, ⟨?_, h.slots, ?_⟩⟩, ?_⟩
    · simpa using h.ordered
    · intro priority cs hg
      rw [get_insert]
      split_ifs
      · exact ⟨strategy, rfl⟩
      · exact h.strategies priority cs hg
    · exact ⟨strategy, get_insert_self _ _ _⟩
  · intro done candidate scan' _ ⟨hscan, hstrategy⟩
    refine (visitCandidate_meets hctx hscan hstrategy).mono (fun scan'' ⟨hn, hs⟩ => ?_)
    rw [map_append, ← append_assoc, hs]
    exact ⟨hn, hstrategy⟩

/-- The scan of a rule visits every candidate of every tier. -/
theorem scan_meets (hctx : ctx.Indexes chs) (tiers : List ModelRuleRoutingTier) :
    Meets True (tiers.foldlM (visitTier env ctx rec) .init)
      (Scanned ctx chs
        (tiers.flatMap (fun tier => tier.candidates.map (fun c => (tier.priority, c))))) := by
  refine meets_foldlM (fun done scan => Scanned ctx chs
    (done.flatMap (fun tier : ModelRuleRoutingTier => tier.candidates.map (fun c => (tier.priority, c)))) scan) ?_ ?_
  · constructor <;> constructor <;> simp [RuleScan.init]
  · intro done tier scan _ hscan
    rw [flatMap_append, flatMap_singleton]
    exact visitTier_meets hctx hscan tier

theorem addWeights_ok {cs : List CompiledCandidate} {total : ℕ}
    (h : cs.foldlM addWeight 0 = .ok total) :
    (cs.map CompiledCandidate.weight).sum < 2 ^ 63 := by
  have hsu := foldlM_invariant
    (fun done total => total = (done.map CompiledCandidate.weight).sum ∧ total < 2 ^ 63)
    (by simp) (fun done candidate total total' _ ⟨ht, _⟩ hs => by
      simp only [addWeight, bind_eq_ok, ensure_eq_ok, decide_eq_true_eq] at hs
      obtain ⟨_, hlt, hp⟩ := hs
      cases hp
      refine ⟨?_, hlt⟩
      rw [map_append, sum_append, ← ht]
      simp) h
  omega

/-- A compiled tier holds the candidates the scan collected for its priority. -/
structure BuiltTier (scan : RuleScan) (priority : ℤ) (tier : CompiledRouteTier) : Prop where
  priority_eq : tier.priority = priority
  candidates : ∃ collected, scan.tierChannels.get priority = some collected ∧
    tier.candidates.Perm collected
  total : (tier.candidates.map CompiledCandidate.weight).sum < 2 ^ 63

theorem buildTier_meets (h : Tiered ctx visited scan) (hm : priority ∈ scan.tierChannels.keys) :
    Meets True (buildTier env scan priority) (BuiltTier scan priority) := by
  obtain ⟨cold, hg⟩ := (mem_keys_iff _ _).mp hm
  obtain ⟨strategy, hstrategy⟩ := h.strategies priority cold hg
  apply meets_demand_bind hg
  apply meets_demand_bind hstrategy
  apply meets_lift_bind
  intro total ht
  apply meets_lift_bind
  intro _ _
  exact meets_pure ⟨rfl, ⟨cold, hg, perm_insertionSort _ _⟩, addWeights_ok ht⟩

variable {tier : CompiledRouteTier} {tiers : List CompiledRouteTier}

theorem BuiltTier.mem (hb : BuiltTier scan priority tier) (h : Tiered ctx visited scan)
    {c : CompiledCandidate} (hc : c ∈ tier.candidates) :
    (ctx.channelSlots.get c.channel.id = some c.channelSlot ∧
      ctx.channels.get c.channel.id = some c.channel) ∧
      ∃ e ∈ visited, e.2.weight.toNat = c.weight ∧ e.2.channelId = c.channel.id := by
  obtain ⟨cold, hg, hp⟩ := hb.candidates
  rw [hp.mem_iff] at hc
  refine ⟨h.slots priority cold hg c hc, ?_⟩
  have hs := (h.ordered priority cold hg).subset (mem_map_of_mem hc)
  obtain ⟨e, he, heq⟩ := mem_map.mp hs
  simp only [Prod.mk.injEq] at heq
  exact ⟨e, he, heq.2.2.2, heq.2.1⟩

/-- Entries that differ pairwise in priority, channel or model give tiers without repetition. -/
theorem BuiltTier.distinct (hb : BuiltTier scan priority tier) (h : Tiered ctx visited scan)
    (hn : (visited.map (fun e => (e.1, e.2.channelId, e.2.upstreamModel))).Nodup) :
    (tier.candidates.map (fun c => (c.channel.id, c.upstreamModel))).Nodup := by
  obtain ⟨cold, hg, hp⟩ := hb.candidates
  rw [(hp.map _).nodup_iff]
  have hs := (h.ordered priority cold hg).map
    (fun q : ℤ × Uuid × String × ℕ => (q.1, q.2.1, q.2.2.1))
  rw [map_map, map_map] at hs
  have ht := hn.sublist hs
  apply List.Nodup.of_map (fun key => (priority, key))
  rw [map_map]
  exact ht

theorem builtTiers_mem {sorted : List ℤ} (h : List.Forall₂ (BuiltTier scan) sorted tiers) :
    tiers.map CompiledRouteTier.priority = sorted ∧
      ∀ tier ∈ tiers, BuiltTier scan tier.priority tier := by
  induction h with
  | nil => simp
  | cons hb _ ih =>
    refine ⟨by rw [map_cons, hb.priority_eq, ih.1], ?_⟩
    rw [forall_mem_cons, hb.priority_eq]
    exact ⟨hb, ih.2⟩

theorem builtTiers_pairwise
    (h : tiers.map CompiledRouteTier.priority = scan.tierChannels.keys.insertionSort (· ≤ ·)) :
    tiers.Pairwise (fun a b => a.priority < b.priority) := by
  have hn : (scan.tierChannels.keys.insertionSort (· ≤ ·)).Nodup :=
    (perm_insertionSort _ _).nodup_iff.mpr scan.tierChannels.keys_nodup
  have hs := pairwise_insertionSort (· ≤ ·) scan.tierChannels.keys
  rw [← h] at hn hs
  have hle := pairwise_map.mp hs
  have hne := pairwise_map.mp hn
  exact (hle.and hne).imp (fun ⟨h₁, h₂⟩ => lt_of_le_of_ne h₁ h₂)

variable {u : Unit}

/-- The candidates of an accepted rule differ in priority, channel or model. -/
theorem ModelRuleRecord.entries_nodup (h : validateRule rec = .ok u) :
    (rec.entries.map (fun e => (e.1, e.2.channelId, e.2.upstreamModel))).Nodup := by
  obtain ⟨hp, ht⟩ := validateRule_ok h
  rw [ModelRuleRecord.entries, map_flatMap, nodup_flatMap]
  constructor
  · intro tier hm
    rw [map_map]
    have hn := (ht tier hm).2.map (Prod.mk_right_injective tier.priority)
    rwa [map_map] at hn
  · refine (pairwise_map.mp hp).imp (fun {a b} hne => ?_)
    intro triple ha hb
    simp only [map_map, mem_map, Function.comp_apply] at ha hb
    obtain ⟨_, -, rfl⟩ := ha
    obtain ⟨_, -, heq⟩ := hb
    exact hne (congrArg Prod.fst heq).symm

theorem ModelRuleRecord.entries_weight
    (h : validateRule rec = .ok u) : ∀ e ∈ rec.entries, 0 < e.2.weight := by
  intro e hm
  simp only [ModelRuleRecord.entries, mem_flatMap, mem_map] at hm
  obtain ⟨tier, ht, c, hc, rfl⟩ := hm
  exact ((validateRule_ok h).2 tier ht).1 c hc

end Scan

section Packing
variable {slots : Table Uuid ℕ} {words : Words} {S : Set Uuid} {ids : List Uuid}
  {mrej : Prop}

theorem setBit_meets (hn : Numbered slots) (h : Represents slots words S) {id : Uuid} {slot : ℕ}
    (hid : slots.get id = some slot) :
    Meets mrej (setBit words slot) (fun words' => Represents slots words' (insert id S)) := by
  obtain ⟨words', hs, hr⟩ := h.insert hn hid
  exact meets_demand hs hr

theorem setOf_mem_append (id : Uuid) : {x | x ∈ ids ++ [id]} = insert id {x | x ∈ ids} := by
  ext x
  simp [or_comm]

theorem packSlots_meets (hn : Numbered slots) (hk : ∀ id ∈ ids, ∃ slot, slots.get id = some slot) :
    Meets mrej (packSlots slots ids) (fun words => Represents slots words {id | id ∈ ids}) := by
  refine meets_foldlM (fun done words => Represents slots words {id | id ∈ done}) ?_ ?_
  · simpa using Represents.empty
  · intro done id words hm hin
    obtain ⟨slot, hs⟩ := hk id hm
    apply meets_demand_bind hs
    rw [setOf_mem_append]
    exact setBit_meets hn hin hs

def routesAt (routesByChannelSlot : List (List ℕ)) (slot : ℕ) : List ℕ :=
  (routesByChannelSlot[slot]?).getD []

theorem routesAt_replicate (n slot : ℕ) : routesAt (List.replicate n []) slot = [] := by
  unfold routesAt
  cases h : (List.replicate n ([] : List ℕ))[slot]? with
  | none => rfl
  | some routes => exact eq_of_mem_replicate (mem_of_getElem? h)

theorem pushRoutes_meets (hn : Numbered slots) {routeSlot : ℕ} {routes : List (List ℕ)}
    (hl : routes.length = slots.len) (hk : ∀ id ∈ ids, ∃ slot, slots.get id = some slot) :
    Meets mrej (ids.foldlM (pushRoute slots routeSlot) routes) (fun routes' =>
      routes'.length = slots.len ∧ ∀ slot r, r ∈ routesAt routes' slot ↔
        r ∈ routesAt routes slot ∨ r = routeSlot ∧ ∃ id ∈ ids, slots.get id = some slot) := by
  refine meets_foldlM (fun done routes' => routes'.length = slots.len ∧
    ∀ slot r, r ∈ routesAt routes' slot ↔
      r ∈ routesAt routes slot ∨ r = routeSlot ∧ ∃ id ∈ done, slots.get id = some slot) ?_ ?_
  · simpa using hl
  · intro done id routes' hm ⟨hle, hin⟩
    obtain ⟨slot, hs⟩ := hk id hm
    have hlt : slot < routes'.length := hle ▸ hn.bound id slot hs
    apply meets_demand_bind hs
    apply meets_demand_bind (List.getElem?_eq_getElem hlt)
    refine meets_pure ⟨by rw [length_set, hle], fun o r => ?_⟩
    have hot := hin o r
    unfold routesAt at hot ⊢
    simp only [mem_append, mem_singleton, or_and_right, exists_or, exists_eq_left, hs,
      Option.some.injEq, and_or_left, ← or_assoc, ← hot]
    by_cases heq : slot = o
    · subst heq
      simp [List.getElem?_set_self hlt, List.getElem?_eq_getElem hlt]
    · simp [List.getElem?_set_ne heq, heq]

end Packing

theorem bitIsSet_eq_test (words : Words) (slot : ℕ) :
    bitIsSet words slot = PackedBits.test words slot := by
  unfold bitIsSet PackedBits.test
  cases words[slot / 64]? <;> rfl

def authorizationWords (rule : CompiledModelRule) : Words :=
  if rule.modelCapableCandidates.any (· != 0#64) then rule.modelCapableCandidates
  else rule.targetCandidates

structure CompiledFrom (ctx : RuleContext) (channels : List ChannelRecord)
    (record : ModelRuleRecord) (rule : CompiledModelRule) : Prop where
  id_eq : rule.id = record.id
  key_eq : record.routingKey = ⟨rule.apiOperation, rule.clientModel⟩
  wellFormed : rule.WellFormed
  slots : ∀ tier ∈ rule.tiers, ∀ c ∈ tier.candidates,
    ctx.channelSlots.get c.channel.id = some c.channelSlot
  origin : ∀ tier ∈ rule.tiers, ∀ c ∈ tier.candidates, ∃ channel ∈ channels,
    ChannelFrom channel c.channel ∧ channel.apiOperation.all (· == rule.apiOperation) = true
  targets : Represents ctx.channelSlots rule.targetCandidates record.targets
  capable : Represents ctx.channelSlots rule.modelCapableCandidates (record.modelCapable channels)

theorem CompiledFrom.authorizing {ctx : RuleContext} {chs : List ChannelRecord}
    {rec : ModelRuleRecord} {rule : CompiledModelRule}
    (h : CompiledFrom ctx chs rec rule) :
    Represents ctx.channelSlots (authorizationWords rule) (rec.authorizing chs) := by
  unfold authorizationWords
  split_ifs with ha <;> rw [h.capable.any_iff] at ha
  · rw [ModelRuleRecord.authorizing_of_capable ha]
    exact h.capable
  · rw [ModelRuleRecord.authorizing_of_none (Set.not_nonempty_iff_eq_empty.mp ha)]
    exact h.targets

/-- What rule compilation keeps: rules come from active records and every active record has
one, route slots are distinct, and the inverted index lists the routes a channel authorizes. -/
structure RulesCompiled (ctx : RuleContext) (channels : List ChannelRecord)
    (done : List ModelRuleRecord) (rules : CompiledRules) : Prop where
  source : ∀ key rule, rules.modelRules.get key = some rule →
    ∃ record ∈ done, record.isActive = true ∧ record.routingKey = key ∧
      CompiledFrom ctx channels record rule
  complete : ∀ record ∈ done, record.isActive = true →
    ∃ rule, rules.modelRules.get record.routingKey = some rule ∧
      CompiledFrom ctx channels record rule
  bound : ∀ key rule, rules.modelRules.get key = some rule → rule.routeSlot < rules.modelRules.len
  distinct : ∀ key key' rule rule', rules.modelRules.get key = some rule →
    rules.modelRules.get key' = some rule' → rule.routeSlot = rule'.routeSlot → key = key'
  length : rules.routesByChannelSlot.length = ctx.channelSlots.len
  routes : ∀ slot r, r ∈ routesAt rules.routesByChannelSlot slot ↔
    ∃ key rule, rules.modelRules.get key = some rule ∧ rule.routeSlot = r ∧
      bitIsSet (authorizationWords rule) slot = true

section Rules
variable {Plan Proxy : Type} {env : Env Plan Proxy} {ctx : RuleContext}
  {chs : List ChannelRecord} {done : List ModelRuleRecord} {rules : CompiledRules}
  {rec : ModelRuleRecord}

theorem RulesCompiled.insert (h : RulesCompiled ctx chs done rules)
    (ha : rec.isActive = true) {rule : CompiledModelRule} {routes : List (List ℕ)}
    (hf : rules.modelRules.get rec.routingKey = none)
    (hsl : rule.routeSlot = rules.modelRules.len)
    (hr : CompiledFrom ctx chs rec rule) (hl : routes.length = ctx.channelSlots.len)
    (hro : ∀ slot r, r ∈ routesAt routes slot ↔ r ∈ routesAt rules.routesByChannelSlot slot ∨
      r = rule.routeSlot ∧ bitIsSet (authorizationWords rule) slot = true) :
    RulesCompiled ctx chs (done ++ [rec])
      { rules with
        routesByChannelSlot := routes
        modelRules := rules.modelRules.insert rec.routingKey rule } := by
  have hle := len_insert_fresh hf rule
  have hg := get_insert_fresh hf rule
  constructor
  · intro key o hk
    rcases (hg key o).mp hk with ⟨rfl, rfl⟩ | hk
    · exact ⟨rec, by simp, ha, rfl, hr⟩
    · obtain ⟨src, hm, hs⟩ := h.source key o hk
      exact ⟨src, mem_append_left _ hm, hs⟩
  · intro src hm hs
    rcases mem_append.mp hm with hm | hm
    · obtain ⟨o, hot, hfr⟩ := h.complete src hm hs
      exact ⟨o, (hg _ _).mpr (.inr hot), hfr⟩
    · rw [mem_singleton.mp hm]
      exact ⟨rule, (hg _ _).mpr (.inl ⟨rfl, rfl⟩), hr⟩
  · intro key o hk
    rw [hle]
    rcases (hg key o).mp hk with ⟨rfl, rfl⟩ | hk
    · omega
    · have hlt := h.bound key o hk
      omega
  · intro key key' o o' hk hk' heq
    rw [hg] at hk hk'
    rcases hk with ⟨rfl, rfl⟩ | hk <;> rcases hk' with ⟨rfl, rfl⟩ | hk'
    · rfl
    · have hlt := h.bound key' o' hk'
      omega
    · have hlt := h.bound key o hk
      omega
    · exact h.distinct key key' o o' hk hk' heq
  · exact hl
  · intro slot r
    rw [hro, h.routes]
    simp only [hg, or_and_right, exists_or, and_assoc, exists_and_left, exists_eq_left]
    rw [or_comm, eq_comm (a := r)]

section Scanned
variable {scan : RuleScan} (hscan : Scanned ctx chs rec.entries scan)
include hscan

theorem Scanned.authorizing :
    {id | id ∈ scan.authorizationCandidates} = rec.authorizing chs := by
  have hc : {id | id ∈ scan.modelCapableCandidates} = rec.modelCapable chs := Set.ext hscan.capable
  unfold RuleScan.authorizationCandidates
  split_ifs with he <;> rw [List.isEmpty_iff] at he
  · have hn : rec.modelCapable chs = ∅ := by
      rw [← hc, he]
      simp
    rw [ModelRuleRecord.authorizing_of_none hn]
    exact Set.ext hscan.targets
  · have hs : (rec.modelCapable chs).Nonempty := by
      rw [← hc]
      exact exists_mem_of_ne_nil _ he
    rw [ModelRuleRecord.authorizing_of_capable hs]
    exact hc

theorem Scanned.targets_known (hctx : ctx.Indexes chs)
    (hr : validateRuleReferences rec ctx.allGroups ctx.allChannels = .ok ()) :
    ∀ id ∈ scan.targetCandidates, ∃ slot, ctx.channelSlots.get id = some slot := by
  intro id hm
  obtain ⟨e, he, rfl⟩ := (hscan.targets id).mp hm
  rw [hctx.slotted]
  simp only [ModelRuleRecord.entries, mem_flatMap, mem_map] at he
  obtain ⟨tier, ht, c, hc, rfl⟩ := he
  obtain ⟨ch, hg, -⟩ := validateRuleReferences_ok hr tier ht c hc
  exact ⟨ch, hg⟩

theorem Scanned.capable_subset : ∀ id ∈ scan.modelCapableCandidates, id ∈ scan.targetCandidates := by
  intro id hm
  obtain ⟨e, he, hid, -⟩ := (hscan.capable id).mp hm
  exact (hscan.targets id).mpr ⟨e, he, hid⟩

theorem Scanned.newRule (hctx : ctx.Indexes chs) (hv : validateRule rec = .ok ())
    (hr : validateRuleReferences rec ctx.allGroups ctx.allChannels = .ok ())
    {tiers : List CompiledRouteTier}
    (hb : List.Forall₂ (BuiltTier scan) (scan.tierChannels.keys.insertionSort (· ≤ ·)) tiers)
    {targetWords capableWords : Words}
    (hta : Represents ctx.channelSlots targetWords {id | id ∈ scan.targetCandidates})
    (hca : Represents ctx.channelSlots capableWords {id | id ∈ scan.modelCapableCandidates})
    (routeSlot : ℕ) :
    CompiledFrom ctx chs rec
      (newRule rec routeSlot scan tiers targetWords capableWords) := by
  obtain ⟨hp, hti⟩ := builtTiers_mem hb
  have hw :
      (RuntimeConfig.newRule rec routeSlot scan tiers targetWords capableWords).WellFormed := by
    constructor
    · exact builtTiers_pairwise hp
    · intro tier ht c hc
      obtain ⟨-, e, he, hwe, -⟩ := (hti tier ht).mem hscan.toTiered hc
      have hpo := ModelRuleRecord.entries_weight hv e he
      omega
    · intro tier ht
      exact (hti tier ht).total
    · intro tier ht
      exact (hti tier ht).distinct hscan.toTiered (ModelRuleRecord.entries_nodup hv)
  refine ⟨rfl, rfl, hw, ?_, ?_, ?_, ?_⟩
  · intro tier ht c hc
    exact ((hti tier ht).mem hscan.toTiered hc).1.1
  · intro tier ht c hc
    obtain ⟨⟨-, hco⟩, e, he, -, hid⟩ := (hti tier ht).mem hscan.toTiered hc
    obtain ⟨ch, hm, hch, hfr⟩ := hctx.compiled _ _ hco
    simp only [ModelRuleRecord.entries, mem_flatMap, mem_map] at he
    obtain ⟨tier, ht, candidate, hcand, rfl⟩ := he
    obtain ⟨o, hg, hop⟩ := validateRuleReferences_ok hr tier ht candidate hcand
    rw [hid] at hg
    obtain rfl := Option.some.inj (hg.symm.trans ((hctx.listed _ _).mpr ⟨hm, hch⟩))
    exact ⟨o, hm, hfr, hop⟩
  · have heq : {id | id ∈ scan.targetCandidates} = rec.targets := Set.ext hscan.targets
    exact heq ▸ hta
  · have heq : {id | id ∈ scan.modelCapableCandidates} = rec.modelCapable chs :=
      Set.ext hscan.capable
    exact heq ▸ hca

end Scanned

theorem addRule_meets (hctx : ctx.Indexes chs) (h : RulesCompiled ctx chs done rules)
    (hv : validateRule rec = .ok ())
    (hr : validateRuleReferences rec ctx.allGroups ctx.allChannels = .ok ())
    (hac : rec.isActive = true) :
    Meets True (addRule env ctx rules rec) (RulesCompiled ctx chs (done ++ [rec])) := by
  apply meets_lift_bind
  intro fmt _
  apply meets_lift_bind
  intro _ _
  refine (scan_meets hctx rec.routingTiers).bind (fun scan hscan => ?_)
  refine (meets_mapM (fun priority hm => buildTier_meets hscan.toTiered
    ((perm_insertionSort _ _).mem_iff.mp hm))).bind (fun tiers hb => ?_)
  have hk := hscan.targets_known hctx hr
  have hc := fun id hm => hk id (hscan.capable_subset id hm)
  refine (packSlots_meets hctx.numbered hk).bind (fun targetWords ht => ?_)
  refine (packSlots_meets hctx.numbered hc).bind (fun capableWords hca => ?_)
  have hru := hscan.newRule hctx hv hr hb ht hca rules.modelRules.len
  have ha : ∀ id, id ∈ scan.authorizationCandidates ↔ id ∈ rec.authorizing chs :=
    fun id => Set.ext_iff.mp hscan.authorizing id
  refine (pushRoutes_meets hctx.numbered h.length (fun id hm =>
    hru.authorizing.known id ((ha id).mp hm))).bind
    (fun routes ⟨hl, hro⟩ => ?_)
  apply meets_lift_bind
  intro _ _
  apply meets_lift_bind
  intro _ _
  apply meets_lift_bind
  intro _ hf
  rw [ensure_eq_ok, Option.isNone_iff_eq_none] at hf
  refine meets_pure (h.insert hac hf rfl hru hl (fun slot r => ?_))
  rw [bitIsSet_eq_test, hru.authorizing.test_iff slot]
  simp only [hro, ha]
  rfl

theorem RulesCompiled.skip (h : RulesCompiled ctx chs done rules)
    (hin : rec.isActive = false) : RulesCompiled ctx chs (done ++ [rec]) rules := by
  refine ⟨?_, ?_, h.bound, h.distinct, h.length, h.routes⟩
  · intro key rule hg
    obtain ⟨src, hm, hs⟩ := h.source key rule hg
    exact ⟨src, mem_append_left _ hm, hs⟩
  · intro src hm ha
    rcases mem_append.mp hm with hm | hm
    · exact h.complete src hm ha
    · rw [mem_singleton.mp hm, hin] at ha
      cases ha

/-- Rule compilation never panics, whatever the records. -/
theorem compileRules_meets (hctx : ctx.Indexes chs) (recs : List ModelRuleRecord) :
    Meets True (compileRules env ctx recs) (RulesCompiled ctx chs recs) := by
  refine meets_foldlM (RulesCompiled ctx chs) ?_ ?_
  · constructor <;> simp [routesAt_replicate]
  · intro done rec rules _ hin
    apply meets_lift_bind
    intro _ _
    apply meets_lift_bind
    intro _ hv
    apply meets_lift_bind
    intro _ hr
    have hru : RulesCompiled ctx chs done { rules with ids := rec.id :: rules.ids } :=
      ⟨hin.source, hin.complete, hin.bound, hin.distinct, hin.length, hin.routes⟩
    split_ifs with ha
    · exact addRule_meets hctx hru hv hr ha
    · exact meets_pure (hru.skip (Bool.not_eq_true _ ▸ ha))

end Rules
end AiGateway.RuntimeConfig
