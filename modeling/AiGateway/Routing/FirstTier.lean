import AiGateway.Routing.Selection

/-! Selection serves a request exactly when some tier has an eligible candidate, and from
the first such tier. -/
namespace AiGateway.Routing.FirstTier
open Domain Lib WeightedTicket List Option

section Tiers
variable (q : Query) (rule : CompiledModelRule)

def HasEligible (s : RoutingState) (tier : CompiledRouteTier) : Prop :=
  ∃ candidate ∈ tier.candidates, q.eligible s candidate = true

variable {s s' : RoutingState} {tier : CompiledRouteTier} {fuel n : ℕ}
  {pref : Option RouteCandidateIdentity}

theorem hasEligible_congr (h : SameChannels s s')
    (tier : CompiledRouteTier) : HasEligible q s' tier ↔ HasEligible q s tier := by
  unfold HasEligible
  rw [h.eligible q]

/-- What rule compilation promises about one tier. -/
structure TierWellFormed (tier : CompiledRouteTier) : Prop where
  weights : ∀ candidate ∈ tier.candidates, 0 < candidate.weight
  total : weightSum tier.candidates < 2 ^ 64

theorem tierWellFormed {rule : CompiledModelRule} (h : rule.WellFormed)
    (ht : tier ∈ rule.tiers) : TierWellFormed tier :=
  ⟨h.weights tier ht, lt_trans (h.total tier ht) (by norm_num)⟩

/-- What a choice among the candidates of a tier may answer. -/
structure Choice (s : RoutingState) (tier : CompiledRouteTier)
    (choice : Option CompiledCandidate) (s' : RoutingState) : Prop where
  none_iff : choice = none ↔ ¬ HasEligible q s tier
  mem : ∀ candidate, choice = some candidate →
    candidate ∈ tier.candidates ∧ q.eligible s candidate = true
  entropy : choice = none → s'.entropy = s.entropy

theorem not_hasEligible_iff (s : RoutingState) (tier : CompiledRouteTier) :
    ¬ HasEligible q s tier ↔ ∀ c ∈ tier.candidates, q.eligible s c = false := by
  simp [HasEligible]

theorem selectByStrategy_choice (hwf : TierWellFormed tier) {choice : Option CompiledCandidate}
    (h : selectByStrategy q rule tier fuel s = some (choice, s')) : Choice q s tier choice s' := by
  have hr := fun cur =>
    RoundRobin.smoothRoundRobin_eq_none_iff RoundRobin.wrapI64 cur tier.candidates (q.eligible s)
  unfold selectByStrategy at h
  cases hs : tier.strategy with
  | weightedRandom =>
    simp only [hs] at h
    obtain ⟨⟨sel, rest⟩, ht, heq⟩ := map_eq_some_iff.mp h
    cases heq
    obtain ⟨hn, hso⟩ := weightedTicket_sound hwf.total hwf.weights ht
    rw [← not_hasEligible_iff] at hn
    exact ⟨hn, hso, weightedTicket_none_entropy hwf.total hwf.weights ht⟩
  | weightedRoundRobin =>
    simp only [hs] at h
    split_ifs at h with ha
    all_goals
      cases h
      refine ⟨(hr _).trans (not_hasEligible_iff q s tier).symm, ?_,
        fun _ => rfl⟩
      intro c hc
      exact RoundRobin.smoothRoundRobin_eligible RoundRobin.wrapI64 _ hc

theorem selectByStrategy_returns (hwf : TierWellFormed tier) (hn : (s.entropy.get n).toNat < 2 ^ 63)
    (hf : n + 1 < fuel) : (selectByStrategy q rule tier fuel s).isSome = true := by
  unfold selectByStrategy
  cases tier.strategy with
  | weightedRandom =>
    rw [isSome_map]
    exact weightedTicket_returns hwf.total hn hf
  | weightedRoundRobin =>
    split_ifs <;> rfl

theorem affinityCandidate_eligible {c : CompiledCandidate}
    (h : affinityCandidate q s tier pref = some c) :
    c ∈ tier.candidates ∧ q.eligible s c = true := by
  obtain ⟨i, -, hf⟩ := bind_eq_some_iff.mp h
  have hp := List.find?_some hf
  rw [Bool.and_eq_true] at hp
  exact ⟨mem_of_find?_eq_some hf, hp.2⟩

variable {allow : Bool} {out : Option Acquired} {tiers : List CompiledRouteTier}

section
variable (hwf : TierWellFormed tier)
include hwf

theorem pick_choice {picked : Option (CompiledCandidate × Bool)}
    (h : pick q rule tier pref allow fuel s = some (picked, s')) :
    Choice q s tier (picked.map Prod.fst) s' := by
  unfold pick at h
  split at h
  · rename_i c ha
    cases h
    have hc : affinityCandidate q s tier pref = some c := by
      split_ifs at ha
      exact ha
    obtain ⟨hm, he⟩ := affinityCandidate_eligible q hc
    have hh : HasEligible q s tier := ⟨c, hm, he⟩
    refine ⟨by simp [hh], ?_, by simp⟩
    intro o hot
    cases hot
    exact ⟨hm, he⟩
  · obtain ⟨⟨choice, s''⟩, hs, heq⟩ := map_eq_some_iff.mp h
    cases heq
    rw [Option.map_map, show Prod.fst ∘ (fun c : CompiledCandidate => (c, false)) =
      id from rfl, Option.map_id]
    exact selectByStrategy_choice q rule hwf hs

theorem pick_returns (pref : Option RouteCandidateIdentity) (allow : Bool)
    (hn : (s.entropy.get n).toNat < 2 ^ 63)
    (hf : n + 1 < fuel) : (pick q rule tier pref allow fuel s).isSome = true := by
  unfold pick
  split
  · rfl
  · rw [isSome_map]
    exact selectByStrategy_returns q rule hwf hn hf

/-- One turn of the loop of a tier: the candidate picked is acquired at once. -/
theorem selectInTier_succ (pref : Option RouteCandidateIdentity) (allow : Bool) (fuel : ℕ)
    (s : RoutingState) :
    selectInTier q rule tier pref allow (fuel + 1) s =
      (pick q rule tier pref allow fuel s).map (fun picked =>
        match picked.1 with
        | none => (none, picked.2)
        | some choice =>
          let acq := picked.2.tryAcquireChannel
            (ChannelIdentity.fromChannel choice.1.channel) q.now
          (acq.1.map (fun hd => ⟨choice.1, choice.2, hd.1, hd.2⟩), acq.2)) := by
  rw [selectInTier]
  cases hp : pick q rule tier pref allow fuel s with
  | none => rfl
  | some picked =>
    obtain ⟨choice, s'⟩ := picked
    have hc := pick_choice q rule hwf hp
    cases choice with
    | none => rfl
    | some choice =>
      obtain ⟨c, cacheHit⟩ := choice
      have he := (hc.mem c rfl).2
      rw [← (pick_same hp).1.eligible q, Query.eligible, Bool.and_eq_true,
        ← tryAcquireChannel_isSome] at he
      dsimp only
      cases ha : s'.tryAcquireChannel (ChannelIdentity.fromChannel c.channel) q.now with
      | mk hd s'' =>
        cases hd with
        | none => simp [ha] at he
        | some hd => simp [ha]

theorem selectInTier_spec (h : selectInTier q rule tier pref allow fuel s = some (out, s')) :
    Choice q s tier (out.map Acquired.candidate) s' := by
  cases fuel with
  | zero => cases h
  | succ fuel =>
    rw [selectInTier_succ q rule hwf] at h
    obtain ⟨⟨picked, s₁⟩, hp, heq⟩ := map_eq_some_iff.mp h
    have hc := pick_choice q rule hwf hp
    cases picked with
    | none =>
      cases heq
      exact hc
    | some picked =>
      obtain ⟨c, cacheHit⟩ := picked
      obtain ⟨hm, he⟩ := hc.mem c rfl
      have hu : s₁.usable (ChannelIdentity.fromChannel c.channel) q.now = true := by
        have := he
        rw [← (pick_same hp).1.eligible q, Query.eligible, Bool.and_eq_true] at this
        exact this.2
      rw [← tryAcquireChannel_isSome] at hu
      obtain ⟨hd, hh⟩ := isSome_iff_exists.mp hu
      simp only [hh, map_some, Prod.mk.injEq] at heq
      obtain ⟨rfl, rfl⟩ := heq
      exact ⟨by simpa using hc.none_iff, hc.mem, by simp⟩

theorem selectInTier_returns (pref : Option RouteCandidateIdentity) (allow : Bool)
    (hn : (s.entropy.get n).toNat < 2 ^ 63) (hf : n + 2 < fuel) :
    (selectInTier q rule tier pref allow fuel s).isSome = true := by
  cases fuel with
  | zero => omega
  | succ fuel =>
    rw [selectInTier_succ q rule hwf, isSome_map]
    exact pick_returns q rule hwf pref allow hn (by omega)

end

/-- The candidate lies in a tier before which no tier has an eligible candidate. -/
def InFirst (s : RoutingState) (tiers : List CompiledRouteTier) (candidate : CompiledCandidate) :
    Prop :=
  ∃ before tier after, tiers = before ++ tier :: after ∧
    (∀ earlier ∈ before, ¬ HasEligible q s earlier) ∧
    candidate ∈ tier.candidates ∧ q.eligible s candidate = true

theorem selectInTiers_spec (hwf : ∀ tier ∈ tiers, TierWellFormed tier)
    (h : selectInTiers q rule pref fuel tiers s = some (out, s')) :
    (out = none → ∀ tier ∈ tiers, ¬ HasEligible q s tier) ∧
      ∀ acq, out = some acq → InFirst q s tiers acq.candidate := by
  induction tiers generalizing s with
  | nil =>
    cases h
    exact ⟨by simp, by simp⟩
  | cons tier tiers ih =>
    have htr := hwf tier mem_cons_self
    rw [selectInTiers] at h
    cases hti : selectInTier q rule tier pref true fuel s with
    | none => simp [hti] at h
    | some res =>
      obtain ⟨acq, s₁⟩ := res
      have hc := selectInTier_spec q rule htr hti
      cases acq with
      | none =>
        simp only [hti] at h
        have hs : SameChannels s s₁ := selectInTier_effect hti
        have hno := hc.none_iff.mp rfl
        obtain ⟨hn, hso⟩ := ih (fun t ht => hwf t (mem_cons_of_mem _ ht)) h
        simp only [InFirst, hasEligible_congr q hs, hs.eligible] at hn hso
        constructor
        · intro ho t ht
          rcases mem_cons.mp ht with rfl | ht
          · exact hno
          · exact hn ho t ht
        · intro acq ho
          obtain ⟨pre, t, after, rfl, hb, hca⟩ := hso acq ho
          refine ⟨tier :: pre, t, after, rfl, ?_, hca⟩
          intro earlier he
          rcases mem_cons.mp he with rfl | he
          · exact hno
          · exact hb earlier he
      | some acq =>
        simp only [hti, Option.some.injEq, Prod.mk.injEq] at h
        obtain ⟨rfl, rfl⟩ := h
        refine ⟨by simp, ?_⟩
        intro o ho
        cases ho
        exact ⟨[], tier, tiers, rfl, by simp, hc.mem _ rfl⟩

theorem selectInTiers_returns
    (hwf : ∀ tier ∈ tiers, TierWellFormed tier) (pref : Option RouteCandidateIdentity)
    (hn : (s.entropy.get n).toNat < 2 ^ 63)
    (hf : n + 2 < fuel) : (selectInTiers q rule pref fuel tiers s).isSome = true := by
  induction tiers generalizing s with
  | nil => rfl
  | cons tier tiers ih =>
    have hti := hwf tier mem_cons_self
    have hr := selectInTier_returns q rule hti pref true hn hf
    obtain ⟨⟨acq, s₁⟩, htr⟩ := isSome_iff_exists.mp hr
    rw [selectInTiers, htr]
    cases acq with
    | none =>
      have he := (selectInTier_spec q rule hti htr).entropy rfl
      exact ih (fun t ht => hwf t (mem_cons_of_mem _ ht)) (he ▸ hn)
    | some acq => rfl

/-- The tier with the lowest priority number among those with an eligible candidate. -/
def IsFirst (s : RoutingState) (tier : CompiledRouteTier) : Prop :=
  tier ∈ rule.tiers ∧ HasEligible q s tier ∧
    ∀ other ∈ rule.tiers, HasEligible q s other → tier.priority ≤ other.priority

/-- The route is an eligible candidate of the first tier that has one. -/
def Serves (s : RoutingState) (route : SelectedRoute) : Prop :=
  ∃ tier, IsFirst q rule s tier ∧ ∃ candidate ∈ tier.candidates,
    q.eligible s candidate = true ∧ route.rule = rule ∧ route.channel = candidate.channel ∧
    route.candidateSlot = candidate.candidateSlot ∧ route.channelSlot = candidate.channelSlot ∧
    route.upstreamModel = candidate.upstreamModel

theorem serves_of_inFirst (hwf : rule.WellFormed) {acq : Acquired}
    (h : InFirst q s rule.tiers acq.candidate) (affinity : Option PreparedAffinity)
    (bind : Bool) : Serves q rule s (acq.route rule affinity bind) := by
  obtain ⟨pre, tier, after, ht, hb, hm, he⟩ := h
  have hs := hwf.priorities
  rw [ht, pairwise_append, pairwise_cons] at hs
  refine ⟨tier, ⟨by simp [ht], ⟨_, hm, he⟩, ?_⟩, _, hm, he, rfl, rfl, rfl, rfl, rfl⟩
  intro o hot hh
  rw [ht, mem_append, mem_cons] at hot
  rcases hot with hot | rfl | hot
  · exact absurd hh (hb o hot)
  · exact le_rfl
  · exact (hs.2.1.1 o hot).le

theorem Serves.hasEligible {route : SelectedRoute}
    (h : Serves q rule s route) : ∃ tier ∈ rule.tiers, HasEligible q s tier := by
  obtain ⟨tier, hf, -⟩ := h
  exact ⟨tier, hf.1, hf.2.1⟩

theorem serves_congr (h : SameChannels s s') (route : SelectedRoute) :
    Serves q rule s' route ↔ Serves q rule s route := by
  simp only [Serves, IsFirst, hasEligible_congr q h, h.eligible]

end Tiers

/-- The model has a rule that the key may use. -/
def UsableRule (snapshot : CompiledRuntimeConfig) (key : CompiledApiKey) (operation : ApiOperation)
    (model : String) (rule : CompiledModelRule) : Prop :=
  snapshot.operationRule operation model = some rule ∧ key.permitsRoute rule.routeSlot = true

/-- The answer is the one the eligible candidates call for. -/
structure Correct (snapshot : CompiledRuntimeConfig) (operation : ApiOperation) (model : String)
    (q : Query) (s : RoutingState) (result : SelectionResult) : Prop where
  selected_iff : (∃ route, result = .selected route) ↔
    ∃ rule, UsableRule snapshot q.key operation model rule ∧
      ∃ tier ∈ rule.tiers, HasEligible q s tier
  serves : ∀ route, result = .selected route →
    ∃ rule, UsableRule snapshot q.key operation model rule ∧ Serves q rule s route
  noHealthy_iff : ∀ rule, result = .noHealthyChannel rule ↔
    UsableRule snapshot q.key operation model rule ∧ ∀ tier ∈ rule.tiers, ¬ HasEligible q s tier

variable {s : RoutingState} {q : Query} {tier : CompiledRouteTier}

theorem Correct.unknown_iff {snapshot : CompiledRuntimeConfig} {operation : ApiOperation}
    {model : String} {res : SelectionResult} (h : Correct snapshot operation model q s res) :
    res = .unknownOrInaccessibleModel ↔
      ¬ ∃ rule, UsableRule snapshot q.key operation model rule := by
  constructor
  · rintro rfl ⟨rule, hr⟩
    by_cases ha : ∃ tier ∈ rule.tiers, HasEligible q s tier
    · obtain ⟨route, hro⟩ := h.selected_iff.mpr ⟨rule, hr, ha⟩
      cases hro
    · have hn := (h.noHealthy_iff rule).mpr ⟨hr, fun tier ht hh => ha ⟨tier, ht, hh⟩⟩
      cases hn
  · intro hn
    cases res with
    | unknownOrInaccessibleModel => rfl
    | noHealthyChannel rule => exact absurd ⟨rule, ((h.noHealthy_iff rule).mp rfl).1⟩ hn
    | selected route =>
      obtain ⟨rule, hr, -⟩ := h.serves route rfl
      exact absurd ⟨rule, hr⟩ hn

section Select
variable (snapshot : CompiledSnapshot) (key : CompiledApiKey) (operation : ApiOperation)
  (model : String) (affinity : Option SessionAffinityMatch) (excludedCandidateSlots : List ℕ)
  (capability : ChannelCapability) (lookupAt now : Duration) {q : Query} {s : RoutingState}
  {res : SelectionResult} {fuel : ℕ} {s' : RoutingState}

theorem correct_of_not_usable
    (h : ∀ rule, ¬ UsableRule snapshot.toCompiledRuntimeConfig q.key operation model rule) :
    Correct snapshot.toCompiledRuntimeConfig operation model q s .unknownOrInaccessibleModel := by
  constructor
  · simp [h]
  · simp
  · simp [h]

theorem correct_of_rule {rule : CompiledModelRule}
    (hr : UsableRule snapshot.toCompiledRuntimeConfig q.key operation model rule)
    (h : (∃ route, res = .selected route ∧ Serves q rule s route) ∨
      (res = .noHealthyChannel rule ∧ ∀ tier ∈ rule.tiers, ¬ HasEligible q s tier)) :
    Correct snapshot.toCompiledRuntimeConfig operation model q s res := by
  have hu : ∀ o, UsableRule snapshot.toCompiledRuntimeConfig q.key operation model o →
      o = rule := fun o hot => Option.some.inj (hot.1.symm.trans hr.1)
  rcases h with ⟨route, rfl, hs⟩ | ⟨rfl, hn⟩
  · obtain ⟨tier, ht, hh⟩ := hs.hasEligible
    constructor
    · exact ⟨fun _ => ⟨rule, hr, tier, ht, hh⟩, fun _ => ⟨route, rfl⟩⟩
    · intro o hot
      cases hot
      exact ⟨rule, hr, hs⟩
    · intro o
      constructor
      · intro hot
        cases hot
      · rintro ⟨hus, ha⟩
        rw [hu o hus] at ha
        exact absurd hh (ha tier ht)
  · constructor
    · constructor
      · rintro ⟨route, hro⟩
        cases hro
      · rintro ⟨o, hot, tier, ht, hh⟩
        rw [hu o hot] at ht
        exact absurd hh (hn tier ht)
    · intro route hro
      cases hro
    · intro o
      constructor
      · intro hot
        cases hot
        exact ⟨hr, hn⟩
      · rintro ⟨hus, -⟩
        rw [hu o hus]

/-- Whatever the random numbers are, an answer that is returned is the right one. -/
theorem select_correct
    (h : selectWithAffinityExcludingCapability snapshot.toCompiledRuntimeConfig key operation model
      affinity excludedCandidateSlots capability lookupAt now fuel s = some (res, s')) :
    Correct snapshot.toCompiledRuntimeConfig operation model
      ⟨key, excludedCandidateSlots, capability, now⟩ s res := by
  unfold selectWithAffinityExcludingCapability at h
  cases hr : snapshot.operationRule operation model with
  | none =>
    simp only [hr] at h
    cases h
    exact correct_of_not_usable snapshot operation model (by simp [UsableRule, hr])
  | some rule =>
    simp only [hr] at h
    split_ifs at h with hp
    · have hwf := snapshot.wellFormed operation model rule hr
      obtain ⟨hs, -⟩ := prepareAffinity_same s key rule affinity lookupAt
      generalize prepareAffinity s key rule affinity lookupAt = prep at h hs
      obtain ⟨prep, s₁⟩ := prep
      apply correct_of_rule snapshot operation model ⟨hr, hp⟩
      cases hti : selectInTiers ⟨key, excludedCandidateSlots, capability, now⟩ rule
          (prep.bind PreparedAffinity.preferredCandidate) fuel rule.tiers s₁ with
      | none => simp [hti] at h
      | some out =>
        obtain ⟨out, s₂⟩ := out
        have hsp := selectInTiers_spec _ rule (fun tier ht => tierWellFormed hwf ht) hti
        cases out with
        | none =>
          simp only [hti] at h
          cases h
          right
          refine ⟨rfl, fun tier ht => ?_⟩
          rw [← hasEligible_congr _ hs]
          exact hsp.1 rfl tier ht
        | some acq =>
          simp only [hti] at h
          cases h
          left
          refine ⟨_, rfl, ?_⟩
          rw [← serves_congr _ rule hs]
          exact serves_of_inFirst _ rule hwf (hsp.2 acq rfl) _ _
    · cases h
      refine correct_of_not_usable snapshot operation model ?_
      rintro o ⟨hot, hsl⟩
      cases hr.symm.trans hot
      exact hp hsl

theorem select_returns {n : ℕ} (hn : (s.entropy.get n).toNat < 2 ^ 63) (hf : n + 2 < fuel) :
    (selectWithAffinityExcludingCapability snapshot.toCompiledRuntimeConfig key operation model
      affinity excludedCandidateSlots capability lookupAt now fuel s).isSome = true := by
  unfold selectWithAffinityExcludingCapability
  cases hru : snapshot.operationRule operation model with
  | none => rfl
  | some rule =>
    dsimp only
    split_ifs with hp
    · have hwf := snapshot.wellFormed operation model rule hru
      obtain ⟨-, he⟩ := prepareAffinity_same s key rule affinity lookupAt
      generalize prepareAffinity s key rule affinity lookupAt = prep at he
      obtain ⟨prep, s₁⟩ := prep
      have hr := selectInTiers_returns ⟨key, excludedCandidateSlots, capability, now⟩ rule
        (fun tier ht => tierWellFormed hwf ht) (prep.bind PreparedAffinity.preferredCandidate)
        (he ▸ hn) hf
      obtain ⟨⟨out, s₂⟩, hou⟩ := isSome_iff_exists.mp hr
      simp only [hou]
      cases out <;> rfl
    · rfl

variable {tier : CompiledRouteTier} {pc : Uuid} {c : CompiledCandidate}

theorem preferredInTier_eligible {um : Option String}
    (h : preferredInTier q s tier pc um = some c) :
    c ∈ tier.candidates ∧ q.eligible s c = true := by
  cases um with
  | some um =>
    have hp := List.find?_some h
    rw [Bool.and_eq_true] at hp
    exact ⟨mem_of_find?_eq_some h, hp.2⟩
  | none =>
    dsimp only [preferredInTier] at h
    split at h
    · rename_i pinned hf
      cases h
      have hm := mem_filter.mp (hf ▸ mem_singleton_self c)
      rw [Bool.and_eq_true] at hm
      exact ⟨hm.1, hm.2.2⟩
    · cases h

theorem inFirst_of_find {tiers : List CompiledRouteTier}
    (h : tiers.find? (fun tier => tier.candidates.any (q.eligible s)) = some tier) (hm : c ∈ tier.candidates)
    (hel : q.eligible s c = true) : InFirst q s tiers c := by
  obtain ⟨-, pre, after, ht, hb⟩ := List.find?_eq_some_iff_append.mp h
  refine ⟨pre, tier, after, ht, fun earlier he => ?_, hm, hel⟩
  rw [not_hasEligible_iff]
  simpa using hb earlier he

/-- A pinned route is no exception: it too comes from the first tier that can serve. -/
theorem preferred_serves {pm : Option String} {route : SelectedRoute}
    (h : selectPreferredChannelWithCapability snapshot.toCompiledRuntimeConfig key operation model
      pc pm affinity excludedCandidateSlots capability
      lookupAt now s = (some route, s')) :
    ∃ rule, UsableRule snapshot.toCompiledRuntimeConfig key operation model rule ∧
      Serves ⟨key, excludedCandidateSlots, capability, now⟩ rule s route := by
  unfold selectPreferredChannelWithCapability at h
  cases hr : snapshot.operationRule operation model with
  | none => simp [hr] at h
  | some rule =>
    simp only [hr] at h
    split_ifs at h with hp
    · refine ⟨rule, ⟨hr, hp⟩, ?_⟩
      have hwf := snapshot.wellFormed operation model rule hr
      obtain ⟨hs, -⟩ := prepareAffinity_same s key rule affinity lookupAt
      rw [← serves_congr _ rule hs]
      generalize prepareAffinity s key rule affinity lookupAt = prep at h hs ⊢
      obtain ⟨prep, s₁⟩ := prep
      split at h
      · cases h
      · rename_i tier hf
        split at h
        · cases h
        · rename_i c hc
          have hin : c ∈ tier.candidates ∧
              Query.eligible ⟨key, excludedCandidateSlots, capability, now⟩ s₁ c = true := by
            rcases or_eq_some_iff.mp hc with ha | ⟨-, hpi⟩
            · exact affinityCandidate_eligible _ ha
            · exact preferredInTier_eligible hpi
          split at h
          · cases h
          · rename_i st claim s₂ hac
            cases h
            exact serves_of_inFirst _ rule hwf (inFirst_of_find hf hin.1 hin.2) _ _
    · cases h

/-- With a random number below half the range to come, selection returns, and answers by
the eligible candidates alone: from the first tier that has one, wherever affinity points. -/
theorem selection_serves_first_tier (s : RoutingState)
    (hentropy : ∃ n, (s.entropy.get n).toNat < 2 ^ 63) :
    (∃ enough, ∀ fuel ≥ enough, ∃ result s',
      selectWithAffinityExcludingCapability snapshot.toCompiledRuntimeConfig key operation model
        affinity excludedCandidateSlots capability lookupAt now fuel s = some (result, s') ∧
      Correct snapshot.toCompiledRuntimeConfig operation model
        ⟨key, excludedCandidateSlots, capability, now⟩ s result) ∧
    ∀ preferredChannelId preferredUpstreamModel route s',
      selectPreferredChannelWithCapability snapshot.toCompiledRuntimeConfig key operation model
        preferredChannelId preferredUpstreamModel affinity excludedCandidateSlots capability
        lookupAt now s = (some route, s') →
      ∃ rule, UsableRule snapshot.toCompiledRuntimeConfig key operation model rule ∧
        Serves ⟨key, excludedCandidateSlots, capability, now⟩ rule s route := by
  obtain ⟨n, hn⟩ := hentropy
  constructor
  · refine ⟨n + 3, fun fuel hf => ?_⟩
    have hre := select_returns snapshot key operation model affinity excludedCandidateSlots
      capability lookupAt now hn (show n + 2 < fuel by omega)
    obtain ⟨⟨result, s'⟩, hr⟩ := isSome_iff_exists.mp hre
    exact ⟨result, s', hr, select_correct snapshot key operation model affinity
      excludedCandidateSlots capability lookupAt now hr⟩
  · intro preferredChannelId preferredUpstreamModel route s' h
    exact preferred_serves snapshot key operation model affinity excludedCandidateSlots capability
      lookupAt now h

end Select

def openKey : CompiledApiKey where
  id := 1
  userId := 1
  websocketEnabled := true
  filterFastMode := false
  allowedApiFormats := [.openAiResponses]
  permissions := [.proxy]
  authorization := ⟨[BitVec.allOnes 64], [BitVec.allOnes 64], 0⟩
  expiresAt := none
  requestsPerMinute := none
  maxConcurrentRequests := none
  quotaLimitAmount := none
  quotaUsedAmount := 0

def twoTierRule (operation : ApiOperation) : CompiledModelRule where
  routeSlot := 0
  id := 7
  modelId := 7
  clientModel := "large"
  apiOperation := operation
  tiers := [⟨0, .weightedRandom, 0, [⟨0, 0, plainChannel 1, "large", 3⟩]⟩,
    ⟨1, .weightedRoundRobin, 1, [⟨1, 1, plainChannel 2, "large", 1⟩]⟩]
  unavailableCandidates := []
  targetCandidates := [3#64]
  modelCapableCandidates := [3#64]
  targetCandidateCount := 2
  modelCapableCandidateCount := 2

theorem twoTierRule_wellFormed (operation : ApiOperation) : (twoTierRule operation).WellFormed := by
  constructor <;> simp [twoTierRule]

def twoTierSnapshot (operation : ApiOperation) : CompiledSnapshot := .ofFlat ∅
    ((∅ : Table ModelRouteKey CompiledModelRule).insert ⟨operation, "large"⟩ (twoTierRule operation))
    ∅ ⟨false, 0, []⟩
    (fun key rule h => by
      rw [Table.get_insert] at h
      split_ifs at h
      · exact Option.some.inj h ▸ twoTierRule_wellFormed operation
      · simp at h)
    (fun key rule h => by
      rw [Table.get_insert] at h
      split_ifs at h with hkey
      · exact hkey.trans (Option.some.inj h ▸ rfl)
      · simp at h)

theorem twoTierSnapshot_rule (operation : ApiOperation) :
    UsableRule (twoTierSnapshot operation).toCompiledRuntimeConfig openKey operation "large"
      (twoTierRule operation) := by
  constructor
  · exact (CompiledModelRoutes.get_fromFlat _ _ _).trans (Table.get_insert_self _ _ _)
  · show openKey.permitsRoute 0 = true
    decide

/-- The first tier of the rule keeps drawing while every number is rejected. -/
theorem selectInTier_stuck (q : Query) (rule : CompiledModelRule)
    (hwf : TierWellFormed tier) (hs : tier.strategy = .weightedRandom)
    (he : s.entropy = Stream'.const (BitVec.allOnes 64)) (hh : HasEligible q s tier)
    (fuel : ℕ) : selectInTier q rule tier none true fuel s = none := by
  obtain ⟨c, hm, hel⟩ := hh
  cases fuel with
  | zero => rfl
  | succ fuel =>
    have ht := weightedTicket_stuck hwf.total hwf.weights hm hel fuel
    have hse : selectByStrategy q rule tier fuel s = none := by
      simp only [selectByStrategy, hs, he, ht, map_none]
    have hp : pick q rule tier none true fuel s = none := by
      simp only [pick, affinityCandidate, if_true, bind_none, hse, map_none]
    rw [selectInTier, hp]

theorem selectInTiers_stuck {rule : CompiledModelRule}
    {tiers : List CompiledRouteTier} {pref : Option RouteCandidateIdentity} {fuel : ℕ}
    (h : selectInTier q rule tier pref true fuel s = none) :
    selectInTiers q rule pref fuel (tier :: tiers) s = none := by
  rw [selectInTiers, h]

/-- A fresh runtime whose entropy source yields one number forever. -/
def constantState (number : Word) : RoutingState := .new .default (Stream'.const number)

/-- A stream of rejected numbers keeps selection from returning although the first tier has
an eligible candidate. -/
theorem rejected_numbers_never_select :
    (∃ rule, UsableRule (twoTierSnapshot .responses).toCompiledRuntimeConfig openKey .responses "large" rule ∧
      ∃ tier ∈ rule.tiers,
        HasEligible ⟨openKey, [], .any, 0⟩ (constantState (BitVec.allOnes 64)) tier) ∧
    ∀ fuel, selectWithAffinityExcludingCapability (twoTierSnapshot .responses).toCompiledRuntimeConfig openKey
      .responses "large" none [] .any 0 0 fuel (constantState (BitVec.allOnes 64)) = none := by
  have hh : HasEligible ⟨openKey, [], .any, 0⟩ (constantState (BitVec.allOnes 64))
      ⟨0, .weightedRandom, 0, [⟨0, 0, plainChannel 1, "large", 3⟩]⟩ :=
    ⟨_, mem_singleton_self _, by decide⟩
  refine ⟨⟨twoTierRule .responses, twoTierSnapshot_rule .responses, _, mem_cons_self, hh⟩, fun fuel => ?_⟩
  have hwf := tierWellFormed (twoTierRule_wellFormed .responses) mem_cons_self
  have hs := selectInTier_stuck ⟨openKey, [], .any, 0⟩ (twoTierRule .responses) hwf rfl rfl hh fuel
  have ht : selectInTiers ⟨openKey, [], .any, 0⟩ (twoTierRule .responses) none fuel (twoTierRule .responses).tiers
      (constantState (BitVec.allOnes 64)) = none := selectInTiers_stuck hs
  unfold selectWithAffinityExcludingCapability
  rw [(twoTierSnapshot_rule .responses).1]
  dsimp only
  rw [if_pos (twoTierSnapshot_rule .responses).2]
  simp only [prepareAffinity, bind_none, ht]

theorem selection_serves_first_tier_two_tiers :
    ∃ enough, ∀ fuel ≥ enough, ∃ route s',
      selectWithAffinityExcludingCapability (twoTierSnapshot .responses).toCompiledRuntimeConfig openKey
        .responses "large" none [] .any 0 0 fuel (constantState 5#64) =
          some (.selected route, s') ∧
      Serves ⟨openKey, [], .any, 0⟩ (twoTierRule .responses) (constantState 5#64) route := by
  obtain ⟨⟨enough, hs⟩, -⟩ := selection_serves_first_tier (twoTierSnapshot .responses) openKey .responses
    "large" none [] .any 0 0 (constantState 5#64) ⟨0, by decide⟩
  refine ⟨enough, fun fuel hf => ?_⟩
  obtain ⟨result, s', hr, hc⟩ := hs fuel hf
  have hh : ∃ tier ∈ (twoTierRule .responses).tiers,
      HasEligible ⟨openKey, [], .any, 0⟩ (constantState 5#64) tier :=
    ⟨_, mem_cons_self, _, mem_singleton_self _, by decide⟩
  obtain ⟨route, rfl⟩ := hc.selected_iff.mpr ⟨twoTierRule .responses, twoTierSnapshot_rule .responses, hh⟩
  obtain ⟨rule, hru, hse⟩ := hc.serves route rfl
  cases hru.1.symm.trans (twoTierSnapshot_rule .responses).1
  exact ⟨route, s', hr, hse⟩

end AiGateway.Routing.FirstTier
