import AiGateway.Routing.AffinityFrame
import AiGateway.Routing.Leases

/-! Stickiness: a session whose request succeeded is served by the same candidate again, however
much other sessions do in between. -/
namespace AiGateway.Routing.Stickiness
open Domain Lib FirstTier AffinityFrame List Option Table

section Cache
variable {st : AffinityState} {key : AffinityCacheKey}

theorem evictArbitrary_within (limit : ℕ) (keys : List AffinityCacheKey)
    (es : Table AffinityCacheKey AffinityEntry) :
    Table.Within (AffinityState.evictArbitrary limit keys es) es := by
  induction keys generalizing es with
  | nil => exact .refl es
  | cons key keys ih =>
    unfold AffinityState.evictArbitrary
    split_ifs
    · exact (ih _).trans (within_erase es key)
    · exact .refl es

theorem trim_within (st : AffinityState) :
    Table.Within st.trimAffinityState.entries st.entries :=
  (evictArbitrary_within _ _ _).trans (Recency.popOldest_within _ _ _)

theorem prune_within (st : AffinityState) (now : Duration) :
    Table.Within (st.pruneExpiredAffinity now).entries st.entries := by
  unfold AffinityState.pruneExpiredAffinity
  dsimp only
  split_ifs
  · exact within_retain _ _
  · exact within_retain _ _

theorem clear_within (st : AffinityState) (ruleName : Option String) (now : Duration) :
    Table.Within (st.clearSessionAffinityCache ruleName now).2.entries st.entries := by
  have hp := prune_within st now
  unfold AffinityState.clearSessionAffinityCache
  cases ruleName with
  | none => exact fun k v h => by cases (get_empty k).symm.trans h
  | some name =>
    dsimp only
    split
    · exact hp
    · exact (within_retain _ _).trans hp

theorem reconcile_within (st : AffinityState) (settings : SessionAffinitySettings)
    (now : Duration) :
    Table.Within (st.reconcileAffinity settings now).entries st.entries := by
  have hr : Table.Within (st.reconciled settings now).entries st.entries := by
    unfold AffinityState.reconciled
    dsimp only
    split_ifs
    · exact .refl _
    · exact within_retain _ _
  unfold AffinityState.reconcileAffinity
  split_ifs
  · exact (trim_within _).trans hr
  · exact fun k v h => by cases (get_empty k).symm.trans h

/-- A session is bound to a candidate until a deadline, in a cache that answers for it. -/
structure Bound (key : AffinityCacheKey) (candidate : RouteCandidateIdentity) (deadline : Duration)
    (state : AffinityState) : Prop where
  enabled : state.enabled = true
  active : state.ruleIsActive key = true
  entry : ∃ generation, state.entries.get key = some ⟨candidate, deadline, generation⟩

/-- The cache still answers for the session and has an entry for it. -/
def Survives (key : AffinityCacheKey) (state : AffinityState) : Prop :=
  state.enabled = true ∧ state.ruleIsActive key = true ∧ state.entries.contains key = true

variable {candidate : RouteCandidateIdentity} {dl : Duration}

/-- An entry that survives an operation which adds nothing for the session is the old one. -/
theorem Bound.of_survives {st' : AffinityState} (h : Bound key candidate dl st)
    (het : ∀ e, st'.entries.get key = some e → st.entries.get key = some e)
    (hs : Survives key st') : Bound key candidate dl st' := by
  obtain ⟨hen, ha, hc⟩ := hs
  obtain ⟨gen, hg⟩ := h.entry
  obtain ⟨e, he⟩ := isSome_iff_exists.mp hc
  have hsa : e = ⟨candidate, dl, gen⟩ := Option.some.inj ((het e he).symm.trans hg)
  exact ⟨hen, ha, gen, hsa ▸ he⟩

variable {now : Duration}

theorem Bound.lookup (h : Bound key candidate dl st)
    (hn : now < dl) : st.affinityLookup key now = (some candidate, st) := by
  obtain ⟨gen, hg⟩ := h.entry
  unfold AffinityState.affinityLookup
  rw [h.enabled, h.active, hg]
  exact if_neg (not_le.mpr hn)

variable {o : AffinityCacheKey} {bd : AffinityBinding}

section
variable (h : Bound key candidate dl st) (hother : o ≠ key)
include h hother

theorem Bound.erase :
    Bound key candidate dl { st with entries := st.entries.erase o } := by
  refine ⟨h.enabled, h.active, ?_⟩
  obtain ⟨gen, hg⟩ := h.entry
  exact ⟨gen, (get_erase_ne _ hother.symm).trans hg⟩

/-- A lookup for another session leaves this one alone. -/
theorem Bound.lookup_other (now : Duration) :
    Bound key candidate dl (st.affinityLookup o now).2 := by
  unfold AffinityState.affinityLookup
  split_ifs
  · exact h
  · split
    · exact h
    · split_ifs
      · exact h.erase hother
      · exact h

theorem Bound.remove_other (exp : RouteCandidateIdentity) :
    Bound key candidate dl (st.affinityRemoveIfCandidate o exp) := by
  unfold AffinityState.affinityRemoveIfCandidate
  split_ifs
  · exact h.erase hother
  · exact h

end

theorem compact_entries (st : AffinityState) :
    st.compactAffinityRecency.entries = st.entries := by
  unfold AffinityState.compactAffinityRecency
  split_ifs <;> rfl

theorem get_store {e : AffinityEntry} (hother : bd.key ≠ key)
    (h : (st.affinityStore bd now).entries.get key = some e) :
    st.entries.get key = some e := by
  unfold AffinityState.affinityStore at h
  split_ifs at h
  · rw [compact_entries] at h
    have hs := trim_within _ _ _ h
    exact (get_insert_ne _ _ hother.symm).symm.trans hs
  · exact h

theorem Bound.prune (h : Bound key candidate dl st)
    (hn : now < dl) : Bound key candidate dl (st.pruneExpiredAffinity now) := by
  obtain ⟨gen, hg⟩ := h.entry
  have hr : (st.entries.retain
      (fun key e => st.ruleIsActive key && decide (now < e.expiresAt))).get key =
        some ⟨candidate, dl, gen⟩ := by
    rw [get_retain, hg, filter_some, h.active, decide_eq_true hn]
    rfl
  unfold AffinityState.pruneExpiredAffinity
  dsimp only
  split_ifs
  · exact ⟨h.enabled, h.active, gen, hr⟩
  · exact ⟨h.enabled, h.active, gen, hr⟩

/-- What an accepted store that keeps its entry has bound. -/
theorem bound_of_store (ha : st.accepts bd.key = true)
    (hk : Survives bd.key (st.affinityStore bd now)) :
    Bound bd.key bd.candidate (now + bd.ttl) (st.affinityStore bd now) := by
  obtain ⟨hen, hac, hc⟩ := hk
  obtain ⟨e, he⟩ := isSome_iff_exists.mp hc
  have hs := he
  unfold AffinityState.affinityStore at hs
  rw [if_pos ha, compact_entries] at hs
  have hn := (get_insert_self _ _ _).symm.trans (trim_within _ _ _ hs)
  exact ⟨hen, hac, max ((st.nextGeneration + 1) % 2 ^ 64) 1, he.trans hn.symm⟩

end Cache

/-- What reaches the runtime: routing calls, and the reads and clears of the cache by operators. -/
inductive Event where
  | routing (op : Leases.Op)
  | sessionAffinityCacheSnapshot (now : Duration)
  | clearSessionAffinityCache (ruleName : Option String) (now : Duration)

def mapAffinity (sys : Leases.System) (f : AffinityState → AffinityState) : Leases.System :=
  { sys with runtime := { sys.runtime with affinity := f sys.runtime.affinity } }

def step (sys : Leases.System) : Event → Leases.System
  | .routing op => sys.step op
  | .sessionAffinityCacheSnapshot now => mapAffinity sys (·.pruneExpiredAffinity now)
  | .clearSessionAffinityCache ruleName now =>
    mapAffinity sys (fun state => (state.clearSessionAffinityCache ruleName now).2)

def OtherRequest (key : AffinityCacheKey) (request : Leases.Request) : Prop :=
  ∀ affinity rule, request.affinity = some affinity →
    request.snapshot.operationRule request.operation request.model = some rule →
    affinity.cacheKey request.key rule ≠ key

def OtherLease (key : AffinityCacheKey) (sys : Leases.System) (index : ℕ) : Prop :=
  ∀ lease binding, sys.leases[index]? = some lease → lease.affinity = some binding →
    binding.key ≠ key

/-- The event is not of this session; and neither evicts nor clears its entry, nor comes after the
entry has expired. -/
def Elsewhere (key : AffinityCacheKey) (deadline : Duration) (sys : Leases.System)
    (event : Event) : Prop :=
  match event with
  | .routing (.reconcile _ _) => Survives key (step sys event).runtime.affinity
  | .routing (.select request _) => OtherRequest key request
  | .routing (.selectPreferred request _ _) => OtherRequest key request
  | .routing (.requestSucceeded index _) =>
    OtherLease key sys index ∧ Survives key (step sys event).runtime.affinity
  | .routing (.requestFailed index) => OtherLease key sys index
  | .sessionAffinityCacheSnapshot now => now < deadline
  | .clearSessionAffinityCache _ _ => Survives key (step sys event).runtime.affinity
  | _ => True

section Traffic
variable {key : AffinityCacheKey} {candidate : RouteCandidateIdentity} {dl : Duration}
  {s s' : RoutingState} {sys : Leases.System}

theorem bound_prepareAffinity {apiKey : CompiledApiKey}
    {rule : CompiledModelRule} {affinity : Option SessionAffinityMatch}
    (hother : ∀ m, affinity = some m → m.cacheKey apiKey rule ≠ key)
    (h : Bound key candidate dl s.affinity) (now : Duration) :
    Bound key candidate dl (prepareAffinity s apiKey rule affinity now).2.affinity ∧
      ∀ prep, (prepareAffinity s apiKey rule affinity now).1 = some prep → prep.key ≠ key := by
  cases affinity with
  | none => exact ⟨h, fun prep hp => by cases hp⟩
  | some m =>
    refine ⟨h.lookup_other (hother m rfl) now, fun prep hp => ?_⟩
    cases hp
    exact hother m rfl

theorem bound_removeAffinityIf {prep : Option PreparedAffinity}
    (hother : ∀ p, prep = some p → p.key ≠ key) (h : Bound key candidate dl s.affinity)
    (stale : RouteCandidateIdentity → Bool) :
    Bound key candidate dl (removeAffinityIf stale prep s).affinity := by
  unfold removeAffinityIf
  split
  · exact h
  · rename_i p
    split
    · exact h
    · split_ifs
      · exact h.remove_other (hother p rfl) _
      · exact h

variable {request : Leases.Request}

theorem bound_select (hother : OtherRequest key request) {fuel : ℕ} {res : SelectionResult}
    (hs : selectWithAffinityExcludingCapability request.snapshot request.key request.operation
      request.model request.affinity request.excludedCandidateSlots request.capability
      request.lookupAt request.now fuel s = some (res, s'))
    (h : Bound key candidate dl s.affinity) : Bound key candidate dl s'.affinity := by
  unfold selectWithAffinityExcludingCapability at hs
  split at hs
  · cases hs
    exact h
  · rename_i rule hr
    split_ifs at hs with hp
    · obtain ⟨hb, hk⟩ := bound_prepareAffinity
        (fun m hm => hother m rule hm hr) h request.lookupAt
      dsimp only at hs hb hk
      split at hs
      · cases hs
      · rename_i s₂ ht
        cases hs
        rw [← selectInTiers_affinity ht] at hb
        exact bound_removeAffinityIf hk hb _
      · rename_i acq s₂ ht
        cases hs
        rw [← selectInTiers_affinity ht] at hb
        exact bound_removeAffinityIf hk hb _
    · cases hs
      exact h

theorem bound_selectPreferred (hother : OtherRequest key request)
    (pc : Uuid) (pm : Option String)
    (h : Bound key candidate dl s.affinity) :
    Bound key candidate dl (selectPreferredChannelWithCapability request.snapshot request.key
      request.operation request.model pc pm request.affinity
      request.excludedCandidateSlots request.capability request.lookupAt request.now s).2.affinity := by
  unfold selectPreferredChannelWithCapability
  split
  · exact h
  · rename_i rule hr
    split_ifs with hp
    · obtain ⟨hb, hk⟩ := bound_prepareAffinity
        (fun m hm => hother m rule hm hr) h request.lookupAt
      generalize prepareAffinity s request.key rule request.affinity request.lookupAt = prep
        at hb hk
      obtain ⟨prep, s₁⟩ := prep
      dsimp only at hb hk ⊢
      split
      · exact hb
      · split
        · exact hb
        · rename_i chosen _
          have ha := tryAcquireChannel_affinity s₁
            (ChannelIdentity.fromChannel chosen.channel) request.now
          split
          · rename_i s₂ hac
            rw [hac] at ha
            exact ha ▸ hb
          · rename_i s₂ hac
            rw [hac] at ha
            exact bound_removeAffinityIf hk (ha ▸ hb) _
    · exact h

/-- Reconciling the channels leaves the cache to `reconcileAffinity`. -/
theorem affinity_reconcile (s : RoutingState) (snap : CompiledRuntimeConfig) (now : Duration) :
    (s.reconcile snap now).affinity = s.affinity.reconcileAffinity snap.sessionAffinity now := by
  have hm : ∀ (act : List ChannelIdentity) (es : List (ChannelIdentity × ℕ))
      (t : RoutingState), (es.foldl (RoutingState.markActive act) t).affinity = t.affinity := by
    intro act es t
    exact List.foldlRecOn es _ (motive := fun u : RoutingState => u.affinity = t.affinity) rfl
      fun u hu e _ => hu
  have hr : ∀ (ids : List ChannelIdentity) (t : RoutingState),
      (ids.foldl RoutingState.register t).affinity = t.affinity := by
    intro ids t
    refine List.foldlRecOn ids _ (motive := fun u : RoutingState => u.affinity = t.affinity) rfl ?_
    intro u hu i _
    unfold RoutingState.register
    split
    · exact hu
    · exact hu
  unfold RoutingState.reconcile
  dsimp only
  rw [hr]
  rw [hm]

theorem affinity_accept (sys : Leases.System) (runtime : RoutingState)
    (lease : Option ChannelLease) : (sys.accept runtime lease).runtime.affinity = runtime.affinity := by
  cases lease <;> rfl

/-- A call on a lease that leaves the session bound does so as an operation of the system. -/
theorem bound_report {index : ℕ} {out : ChannelLease → RoutingState → RoutingState}
    (hou : ∀ lease, sys.leases[index]? = some lease →
      Bound key candidate dl (out lease sys.runtime).affinity)
    (h : Bound key candidate dl sys.runtime.affinity) :
    Bound key candidate dl (sys.report index out).runtime.affinity := by
  unfold Leases.System.report
  split
  · exact h
  · rename_i lease hl
    exact hou lease hl

theorem bound_routing {op : Leases.Op} (he : Elsewhere key dl sys (.routing op))
    (h : Bound key candidate dl sys.runtime.affinity) :
    Bound key candidate dl (sys.step op).runtime.affinity := by
  cases op with
  | reconcile snap now =>
    refine h.of_survives (fun e hen => ?_) he
    have hr := congrArg AffinityState.entries (affinity_reconcile sys.runtime snap now)
    exact reconcile_within _ _ _ key e (hr ▸ hen)
  | updatePolicy policy => exact h
  | select request fuel =>
    simp only [Leases.System.step]
    split
    · exact h
    · rename_i res runtime hse
      rw [affinity_accept]
      exact bound_select he hse h
  | selectPreferred request pc pm =>
    simp only [Leases.System.step]
    rw [affinity_accept]
    exact bound_selectPreferred he pc pm h
  | requestSucceeded index now =>
    obtain ⟨hother, hs⟩ := he
    refine h.of_survives (fun e hen => ?_) hs
    simp only [Leases.System.step, Leases.System.report] at hen
    split at hen
    · exact hen
    · rename_i lease hl
      dsimp only [ChannelLease.requestSucceeded] at hen
      split at hen
      · rename_i bd hb
        exact get_store (hother lease bd hl hb) hen
      · exact hen
  | requestFailed index =>
    refine bound_report (fun lease hl => ?_) h
    unfold ChannelLease.requestFailed
    split
    · rename_i bd hb
      split_ifs
      · exact h.remove_other (he lease bd hl hb) _
      · exact h
    · exact h
  | responseHeadersReceived index => exact bound_report (fun _ _ => h) h
  | connectionFailed index now => exact bound_report (fun _ _ => h) h
  | probeFailed index now =>
    refine bound_report (fun lease _ => ?_) h
    unfold ChannelLease.probeFailed
    split_ifs
    · exact h
    · exact h
  | drop index =>
    simp only [Leases.System.step]
    split
    · exact h
    · rename_i lease hl
      exact (drop_affinity lease sys.runtime).symm ▸ h

theorem bound_step {ev : Event} (he : Elsewhere key dl sys ev)
    (h : Bound key candidate dl sys.runtime.affinity) :
    Bound key candidate dl (step sys ev).runtime.affinity := by
  cases ev with
  | routing op => exact bound_routing he h
  | sessionAffinityCacheSnapshot now => exact h.prune he
  | clearSessionAffinityCache ruleName now =>
    exact h.of_survives (fun e => clear_within _ ruleName now key e) he

/-- No amount of traffic elsewhere unbinds the session. -/
theorem bound_run {evs : List Event}
    (he : Along step (Elsewhere key dl) sys evs)
    (h : Bound key candidate dl sys.runtime.affinity) :
    Bound key candidate dl (run step sys evs).runtime.affinity := by
  have hs : ∀ (sys : Leases.System) (ev : Event),
      Bound key candidate dl sys.runtime.affinity → Elsewhere key dl sys ev →
      Bound key candidate dl (step sys ev).runtime.affinity :=
    fun sys ev hb hel => bound_step hel hb
  exact run_invariant_along hs h he

variable {q : Query} (rule : CompiledModelRule) {i : RouteCandidateIdentity}
  {candidate : CompiledCandidate} {tier : CompiledRouteTier}

theorem affinityCandidate_eq_none
    (h : ¬ HasEligible q s tier) (pref : Option RouteCandidateIdentity) :
    affinityCandidate q s tier pref = none := by
  cases hf : affinityCandidate q s tier pref with
  | none => rfl
  | some found =>
    obtain ⟨hm, he⟩ := affinityCandidate_eligible q hf
    exact absurd ⟨found, hm, he⟩ h

/-- A tier without an eligible candidate is passed over, whatever the random numbers are. -/
theorem selectInTier_pass (hwf : TierWellFormed tier)
    (h : ¬ HasEligible q s tier) (pref : Option RouteCandidateIdentity) (fuel : ℕ) :
    ∃ s', selectInTier q rule tier pref true (fuel + 2) s = some (none, s') ∧
      SameChannels s s' := by
  have hz : WeightedTicket.weightSum (tier.candidates.filter (q.eligible s)) = 0 :=
    (WeightedTicket.filter_weightSum_eq_zero_iff hwf.weights _).mpr ((not_hasEligible_iff q s tier).mp h)
  have hst : (selectByStrategy q rule tier (fuel + 1) s).isSome = true := by
    unfold selectByStrategy
    cases tier.strategy with
    | weightedRandom =>
      rw [isSome_map,
        WeightedTicket.weightedTicket_succ (WeightedTicket.weightSum_filter_lt hwf.total _),
        if_pos hz]
      rfl
    | weightedRoundRobin =>
      split_ifs <;> rfl
  have hr : (selectInTier q rule tier pref true (fuel + 2) s).isSome = true := by
    rw [selectInTier_succ q rule hwf, isSome_map, pick, if_pos rfl,
      affinityCandidate_eq_none h, isSome_map]
    exact hst
  obtain ⟨⟨out, s'⟩, hs⟩ := isSome_iff_exists.mp hr
  have hn : out = none := map_eq_none_iff.mp ((selectInTier_spec q rule hwf hs).none_iff.mpr h)
  rw [hn] at hs
  exact ⟨s', hs, selectInTier_effect hs⟩

/-- The candidate affinity names is acquired at once. -/
theorem selectInTier_affine (hwf : TierWellFormed tier)
    (hf : affinityCandidate q s tier (some i) = some candidate) (fuel : ℕ) :
    ∃ acq s', selectInTier q rule tier (some i) true (fuel + 1) s = some (some acq, s') ∧
      acq.candidate = candidate ∧ acq.cacheHit = true := by
  have he := (affinityCandidate_eligible q hf).2
  rw [Query.eligible, Bool.and_eq_true, ← tryAcquireChannel_isSome] at he
  obtain ⟨hd, hh⟩ := isSome_iff_exists.mp he.2
  refine ⟨⟨candidate, true, hd.1, hd.2⟩, (s.tryAcquireChannel
    (ChannelIdentity.fromChannel candidate.channel) q.now).2, ?_, rfl, rfl⟩
  rw [selectInTier_succ q rule hwf, pick, if_pos rfl, hf]
  simp only [map_some, hh]

theorem affinityCandidate_eq_some
    (hd : (tier.candidates.map (fun c => (c.channel.id, c.upstreamModel))).Nodup)
    (hme : candidate ∈ tier.candidates) (he : q.eligible s candidate = true) :
    affinityCandidate q s tier (some (.fromCandidate candidate)) = some candidate := by
  have hm : RouteCandidateIdentity.isMatch (.fromCandidate candidate) candidate = true := by
    simp [RouteCandidateIdentity.isMatch, RouteCandidateIdentity.fromCandidate]
  have hso : (affinityCandidate q s tier (some (.fromCandidate candidate))).isSome = true := by
    rw [affinityCandidate, bind_some, List.find?_isSome]
    exact ⟨candidate, hme, by rw [hm, he]; rfl⟩
  obtain ⟨found, hf⟩ := isSome_iff_exists.mp hso
  rw [hf]
  have hp := List.find?_some hf
  rw [Bool.and_eq_true, RouteCandidateIdentity.isMatch, Bool.and_eq_true, decide_eq_true_eq,
    decide_eq_true_eq] at hp
  have hs : (candidate.channel.id, candidate.upstreamModel) =
      (found.channel.id, found.upstreamModel) := Prod.ext hp.1.1 hp.1.2
  have hin := inj_on_of_nodup_map hd hme (mem_of_find?_eq_some hf) hs
  rw [hin]

/-- A search with the identity of an eligible candidate of the first tier returns it. -/
theorem selectInTiers_affine {tiers : List CompiledRouteTier}
    (hwf : ∀ tier ∈ tiers, TierWellFormed tier) (hd : ∀ tier ∈ tiers,
      (tier.candidates.map (fun c => (c.channel.id, c.upstreamModel))).Nodup)
    (hf : InFirst q s tiers candidate) (fuel : ℕ) :
    ∃ acq s', selectInTiers q rule (some (.fromCandidate candidate)) (fuel + 2) tiers s =
        some (some acq, s') ∧
      acq.candidate = candidate ∧ acq.cacheHit = true := by
  obtain ⟨pre, tier, after, rfl, hb, hm, he⟩ := hf
  induction pre generalizing s with
  | nil =>
    have hfo := affinityCandidate_eq_some (hd tier mem_cons_self) hm he
    obtain ⟨acq, s', hs, ha⟩ := selectInTier_affine rule (hwf tier mem_cons_self) hfo (fuel + 1)
    refine ⟨acq, s', ?_, ha⟩
    rw [nil_append, selectInTiers, hs]
  | cons earlier pre ih =>
    obtain ⟨s₁, hp, hsa⟩ := selectInTier_pass rule (hwf earlier mem_cons_self)
      (hb earlier mem_cons_self) (some (.fromCandidate candidate)) fuel
    obtain ⟨acq, s', hs, ha⟩ := ih
      (fun t ht => hwf t (mem_cons_of_mem _ ht))
      (fun t ht => hd t (mem_cons_of_mem _ ht))
      (s := s₁) (fun t ht => by
        rw [hasEligible_congr q hsa]
        exact hb t (mem_cons_of_mem _ ht))
      (by rw [hsa.eligible]; exact he)
    refine ⟨acq, s', ?_, ha⟩
    rw [cons_append, selectInTiers, hp]
    exact hs

end Traffic

def select (request : Leases.Request) (fuel : ℕ) (s : RoutingState) :
    Option (SelectionResult × RoutingState) :=
  selectWithAffinityExcludingCapability request.snapshot request.key request.operation request.model
    request.affinity request.excludedCandidateSlots request.capability request.lookupAt request.now
    fuel s

def query (request : Leases.Request) : Query :=
  ⟨request.key, request.excludedCandidateSlots, request.capability, request.now⟩

structure LeadsTo (route : SelectedRoute) (candidate : CompiledCandidate) : Prop where
  channel : route.channel = candidate.channel
  candidateSlot : route.candidateSlot = candidate.candidateSlot
  channelSlot : route.channelSlot = candidate.channelSlot
  upstreamModel : route.upstreamModel = candidate.upstreamModel

/-- No healthy candidate the session prefers is ruled out by capability alone. -/
def Applicable (request : Leases.Request) (affinity : SessionAffinityMatch)
    (rule : CompiledModelRule) (s : RoutingState) : Prop :=
  ∀ preferred, (s.affinity.affinityLookup (affinity.cacheKey request.key rule) request.lookupAt).1 =
    some preferred → ¬ Inapplicable (query request) s rule preferred

section Sticky
variable {request : Leases.Request} {affinity : SessionAffinityMatch} {rule : CompiledModelRule}
  {s s₁ : RoutingState} {route : SelectedRoute}

theorem preserve_of_applicable (ha : Applicable request affinity rule s) :
    preserveInapplicableAffinity (query request)
      (prepareAffinity s request.key rule (some affinity) request.lookupAt).2 rule
      ((prepareAffinity s request.key rule (some affinity) request.lookupAt).1.bind
        PreparedAffinity.preferredCandidate) = false := by
  cases hl : (s.affinity.affinityLookup (affinity.cacheKey request.key rule)
      request.lookupAt).1 with
  | none =>
    have hn : (prepareAffinity s request.key rule (some affinity) request.lookupAt).1.bind
        PreparedAffinity.preferredCandidate = none := hl
    rw [hn]
    rfl
  | some pref =>
    rw [prepareAffinity_some hl, ← Bool.not_eq_true]
    exact fun h => ha pref hl ((preserve_iff _ _ _ _).mp h)

theorem lease_binds (hru : UsableRule request.snapshot request.key request.operation request.model rule)
    (haf : request.affinity = some affinity)
    (ha : Applicable request affinity rule s) {fuel : ℕ}
    (hs : select request fuel s = some (.selected route, s₁)) :
    ∃ cacheHit, route.lease.affinity = some ⟨affinity.cacheKey request.key rule, affinity.ttl,
      ⟨route.channel.id, route.upstreamModel⟩, cacheHit⟩ := by
  unfold select at hs
  rw [haf] at hs
  obtain ⟨out, s₂, -, he⟩ := select_cases hru hs rfl (preserve_of_applicable ha)
  rcases he with ⟨-, hr, -⟩ | ⟨acq, -, hr, -⟩
  · cases hr
  · cases hr
    exact ⟨acq.cacheHit, rfl⟩

/-- With the session bound to an eligible candidate of the first tier, the candidate is selected
and a cache hit reported. -/
theorem select_bound (request : Leases.Request) (hwf : rule.WellFormed)
    (hr : UsableRule request.snapshot request.key request.operation request.model rule)
    (ha : request.affinity = some affinity) {candidate : CompiledCandidate}
    {dl : Duration} (hli : request.lookupAt < dl)
    (hb : Bound (affinity.cacheKey request.key rule) (.fromCandidate candidate) dl s.affinity)
    (hf : InFirst (query request) s rule.tiers candidate) (fuel : ℕ) :
    ∃ again s', select request (fuel + 2) s = some (.selected again, s') ∧ LeadsTo again candidate ∧
      again.sessionAffinity = some ⟨affinity.ruleName, true⟩ := by
  have hl : (s.affinity.affinityLookup (affinity.cacheKey request.key rule)
      request.lookupAt).1 = some (.fromCandidate candidate) := by rw [hb.lookup hli]
  obtain ⟨acq, s₂, hs, rfl, hh⟩ :=
    selectInTiers_affine rule (fun tier ht => tierWellFormed hwf ht) hwf.distinct hf fuel
  unfold select selectWithAffinityExcludingCapability
  rw [hr.1]
  dsimp only
  rw [if_pos hr.2, ha, prepareAffinity_some hl]
  dsimp only [bind_some]
  unfold query at hs
  rw [hs]
  exact ⟨_, _, rfl, ⟨rfl, rfl, rfl, rfl⟩, by rw [← hh]; rfl⟩

/-- A session whose request succeeded is served by the same candidate again, by a cache hit, as
long as the entry lives and the candidate is eligible in the first tier that has one. -/
theorem repeated_selection_is_sticky (snapshot : CompiledSnapshot)
    (hsnapshot : request.snapshot = snapshot.toCompiledRuntimeConfig)
    (hrule : UsableRule request.snapshot request.key request.operation request.model rule)
    (haffinity : request.affinity = some affinity)
    (happlicable : Applicable request affinity rule s) {fuel : ℕ}
    (hselect : select request fuel s = some (.selected route, s₁))
    {sys : Leases.System} {index : ℕ} {storedAt : Duration}
    (hheld : sys.leases[index]? = some route.lease)
    (henabled : sys.runtime.affinity.accepts (affinity.cacheKey request.key rule) = true)
    (hkept : Survives (affinity.cacheKey request.key rule)
      (sys.step (.requestSucceeded index storedAt)).runtime.affinity) {events : List Event}
    (helsewhere : Along step
      (Elsewhere (affinity.cacheKey request.key rule) (storedAt + affinity.ttl))
      (sys.step (.requestSucceeded index storedAt)) events)
    {lookupAt now : Duration} (hlive : lookupAt < storedAt + affinity.ttl)
    {candidate : CompiledCandidate} (hcandidate : LeadsTo route candidate)
    (hfirst : InFirst (query { request with lookupAt := lookupAt, now := now })
      (run step (sys.step (.requestSucceeded index storedAt)) events).runtime rule.tiers candidate) :
    ∀ fuel, ∃ again s', select { request with lookupAt := lookupAt, now := now } (fuel + 2)
        (run step (sys.step (.requestSucceeded index storedAt)) events).runtime =
          some (.selected again, s') ∧
      LeadsTo again candidate ∧ again.sessionAffinity = some ⟨affinity.ruleName, true⟩ := by
  intro fuel'
  obtain ⟨cacheHit, hbi⟩ := lease_binds hrule haffinity happlicable hselect
  have hs : (sys.step (.requestSucceeded index storedAt)).runtime.affinity =
      sys.runtime.affinity.affinityStore ⟨affinity.cacheKey request.key rule, affinity.ttl,
        ⟨route.channel.id, route.upstreamModel⟩, cacheHit⟩ storedAt := by
    simp only [Leases.System.step, Leases.System.report, hheld, ChannelLease.requestSucceeded, hbi]
  have hid : (⟨route.channel.id, route.upstreamModel⟩ : RouteCandidateIdentity) =
      .fromCandidate candidate := by
    rw [hcandidate.channel, hcandidate.upstreamModel]
    rfl
  rw [hs] at hkept
  have hb := bound_of_store henabled hkept
  rw [← hs] at hb
  dsimp only at hb
  rw [hid] at hb
  have hwf : rule.WellFormed :=
    snapshot.wellFormed request.operation request.model rule (hsnapshot ▸ hrule.1)
  exact select_bound { request with lookupAt := lookupAt, now := now } hwf hrule haffinity hlive
    (bound_run helsewhere hb) hfirst fuel'

end Sticky

def stickyRequest : Leases.Request :=
  ⟨(twoTierSnapshot .responses).toCompiledRuntimeConfig, openKey, .responses, "large",
    some chatSession, [], .any, 0, 0⟩

/-- A fresh runtime that caches the sessions of the rule. -/
def cachingRuntime : RoutingState := { constantState 5#64 with
    affinity := ⟨true, 8, (∅ : Table Digest String).insert 3 "chat", ∅, [], 0⟩ }

def stickyCandidate : CompiledCandidate := ⟨0, 0, plainChannel 1, "large", 3⟩

def stickyRoute : SelectedRoute where
  rule := twoTierRule .responses
  channel := plainChannel 1
  candidateSlot := 0
  channelSlot := 0
  upstreamModel := "large"
  sessionAffinity := some ⟨"chat", false⟩
  lease := ⟨.fromChannel (plainChannel 1), 0, 0#64,
    some ⟨chatSession.cacheKey openKey (twoTierRule .responses), 60, ⟨1, "large"⟩, false⟩⟩

def stickySystem : Leases.System := ⟨cachingRuntime, [stickyRoute.lease], [], none⟩

/-- A request without a session, and a look at the cache. -/
def meanwhile : List Event :=
  [.routing (.select { stickyRequest with affinity := none } 5), .sessionAffinityCacheSnapshot 20]

theorem repeated_selection_is_sticky_two_tiers :
    ∃ again s', select { stickyRequest with lookupAt := 30, now := 30 } 2
        (run step (stickySystem.step (.requestSucceeded 0 10)) meanwhile).runtime =
          some (.selected again, s') ∧
      LeadsTo again stickyCandidate ∧ again.sessionAffinity = some ⟨"chat", true⟩ := by
  have hs : (select stickyRequest 3 cachingRuntime).map Prod.fst =
      some (.selected stickyRoute) := by decide +kernel
  obtain ⟨⟨result, s₁⟩, hs, rfl⟩ := map_eq_some_iff.mp hs
  have ha : Applicable stickyRequest chatSession (twoTierRule .responses) cachingRuntime := by
    intro preferred hp
    cases hp
  have hk : Survives (chatSession.cacheKey openKey (twoTierRule .responses))
      (stickySystem.step (.requestSucceeded 0 10)).runtime.affinity := by
    refine ⟨?_, ?_, ?_⟩ <;> decide +kernel
  have he : Along step
      (Elsewhere (chatSession.cacheKey openKey (twoTierRule .responses)) (10 + chatSession.ttl))
      (stickySystem.step (.requestSucceeded 0 10)) meanwhile := by
    have hother : OtherRequest (chatSession.cacheKey openKey (twoTierRule .responses))
        { stickyRequest with affinity := none } := by
      intro affinity rule haf
      cases haf
    have hl : (20 : Duration) < 10 + chatSession.ttl := by decide
    exact ⟨hother, hl, trivial⟩
  have hf : InFirst (query { stickyRequest with lookupAt := 30, now := 30 })
      (run step (stickySystem.step (.requestSucceeded 0 10)) meanwhile).runtime
      (twoTierRule .responses).tiers stickyCandidate :=
    ⟨[], _, _, rfl, forall_mem_nil _, mem_singleton_self _, by decide +kernel⟩
  exact repeated_selection_is_sticky (twoTierSnapshot .responses) rfl
    (twoTierSnapshot_rule .responses) rfl ha hs rfl (by decide +kernel) hk he
    (by decide) ⟨rfl, rfl, rfl, rfl⟩ hf 0

end AiGateway.Routing.Stickiness
