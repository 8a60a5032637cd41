import AiGateway.Lib.Run
import AiGateway.Routing.Affinity

/-! What the session-affinity cache is for: a list of sessions ordered by their last
store, with expiry, from which the least recently stored ones are evicted. The map with
its lazily cleaned recency queue refines it. -/
namespace AiGateway.Routing.AffinityCache
open Domain Lib List Table Bool

/-- A session bound to a candidate until it expires. -/
structure Slot where
  key : AffinityCacheKey
  candidate : RouteCandidateIdentity
  expiresAt : Duration
  deriving DecidableEq

/-- The abstract cache: at most one slot per key, the least recently stored first. -/
structure Cache where
  enabled : Bool
  maxEntries : ℕ
  activeRules : Table Digest String
  slots : List Slot

inductive Op where
  | store (binding : AffinityBinding) (now : Duration)
  | lookup (key : AffinityCacheKey) (now : Duration)
  | removeIfCandidate (key : AffinityCacheKey) (candidate : RouteCandidateIdentity)
  | prune (now : Duration)
  | clear (ruleName : Option String) (now : Duration)
  | reconcile (settings : SessionAffinitySettings) (now : Duration)

def Op.isStore : Op → Bool
  | .store _ _ => true
  | _ => false

namespace Cache

def empty : Cache := ⟨false, 0, ∅, []⟩

def isActive (cache : Cache) (key : AffinityCacheKey) : Bool :=
  cache.activeRules.contains key.ruleFingerprint

def keep (cache : Cache) (p : Slot → Bool) : Cache := { cache with slots := cache.slots.filter p }

/-- Evict the slots with the oldest stores. -/
def evict (cache : Cache) : Cache :=
  { cache with slots := cache.slots.drop (cache.slots.length - cache.maxEntries) }

def find (cache : Cache) (key : AffinityCacheKey) : Option Slot :=
  cache.slots.find? (fun slot => decide (slot.key = key))

def lookup (cache : Cache) (key : AffinityCacheKey) (now : Duration) :
    Option RouteCandidateIdentity :=
  if cache.enabled && cache.isActive key then
    ((cache.find key).filter (fun slot => decide (now < slot.expiresAt))).map Slot.candidate
  else none

def store (cache : Cache) (binding : AffinityBinding) (now : Duration) : Cache :=
  if cache.enabled && decide (cache.maxEntries ≠ 0) && cache.isActive binding.key then
    evict { cache with
      slots := cache.slots.filter (fun slot => decide (slot.key ≠ binding.key)) ++
        [⟨binding.key, binding.candidate, now + binding.ttl⟩] }
  else cache

def prune (cache : Cache) (now : Duration) : Cache :=
  cache.keep (fun slot => cache.isActive slot.key && decide (now < slot.expiresAt))

def clear (cache : Cache) (ruleName : Option String) (now : Duration) : Cache :=
  match ruleName with
  | none => { cache with slots := [] }
  | some name =>
    match cache.activeRules.toList.find? (fun rule => eqIgnoreAsciiCase rule.2 name) with
    | none => cache.prune now
    | some rule =>
      (cache.prune now).keep (fun slot => decide (slot.key.ruleFingerprint ≠ rule.1))

def reconcile (cache : Cache) (settings : SessionAffinitySettings) (now : Duration) : Cache :=
  let activeRules := Table.ofList (settings.rules.map (fun rule => (rule.fingerprint, rule.name)))
  let cache := { cache with enabled := settings.enabled, maxEntries := settings.maxEntries }
  if settings.enabled then
    if Table.sameMap cache.activeRules activeRules then cache.evict
    else (prune { cache with activeRules := activeRules } now).evict
  else { cache with activeRules := activeRules, slots := [] }

/-- A lookup forgets its key once the slot has expired. -/
def step (cache : Cache) : Op → Cache
  | .store binding now => cache.store binding now
  | .lookup key now =>
    if cache.enabled && cache.isActive key then
      cache.keep (fun slot => decide (slot.key = key → now < slot.expiresAt))
    else cache
  | .removeIfCandidate key candidate =>
    cache.keep (fun slot => decide (¬ (slot.key = key ∧ slot.candidate = candidate)))
  | .prune now => cache.prune now
  | .clear ruleName now => cache.clear ruleName now
  | .reconcile settings now => cache.reconcile settings now

end Cache

def step (state : AffinityState) : Op → AffinityState
  | .store binding now => state.affinityStore binding now
  | .lookup key now => (state.affinityLookup key now).2
  | .removeIfCandidate key candidate => state.affinityRemoveIfCandidate key candidate
  | .prune now => state.pruneExpiredAffinity now
  | .clear ruleName now => (state.clearSessionAffinityCache ruleName now).2
  | .reconcile settings now => state.reconcileAffinity settings now

/-- The state, if any, on which an operation enters the trim loop. -/
def trimmed (state : AffinityState) : Op → Option AffinityState
  | .store binding now =>
    if state.accepts binding.key then some (state.stored binding now) else none
  | .reconcile settings now =>
    if settings.enabled then some (state.reconciled settings now) else none
  | _ => none

def toSlot (e : AffinityCacheKey × AffinityEntry) : Slot := ⟨e.1, e.2.candidate, e.2.expiresAt⟩

def abstract (state : AffinityState) : Cache where
  enabled := state.enabled
  maxEntries := state.maxEntries
  activeRules := state.activeRules
  slots := (Recency.contents AffinityEntry.generation state.entries state.recency).map toSlot

/-- The queue tracks the entries, and there are no more of them than allowed. -/
structure Tracked (state : AffinityState) : Prop where
  tracks : Recency.Tracks AffinityEntry.generation state.entries state.recency state.nextGeneration
  le_max : state.entries.len ≤ state.maxEntries

section Refinement
variable {st : AffinityState} {es' es : Table AffinityCacheKey AffinityEntry}
  {p : AffinityCacheKey → AffinityEntry → Bool} {q : Slot → Bool}

/-- Entries that are narrowed narrow the abstract cache by the same predicate. -/
theorem abstract_narrow
    (hg : ∀ k, es'.get k = (st.entries.get k).filter (p k))
    (hq : ∀ e, q (toSlot e) = p e.1 e.2) :
    abstract { st with entries := es' } = (abstract st).keep q := by
  unfold abstract Cache.keep
  rw [Recency.contents_filter hg, filter_map]
  congr 2
  apply filter_congr
  intro e _
  exact (hq e).symm

theorem abstract_rebuild (h : Recency.Tracks AffinityEntry.generation st.entries st.recency
    st.nextGeneration) : abstract st.rebuildAffinityRecency = abstract st := by
  unfold abstract AffinityState.rebuildAffinityRecency
  rw [Recency.contents_rebuild h]

theorem evictArbitrary_of_le {limit : ℕ}
    (h : es.len ≤ limit) (keys : List AffinityCacheKey) :
    AffinityState.evictArbitrary limit keys es = es := by
  cases keys with
  | nil => rfl
  | cons key keys => exact if_neg (not_lt.mpr h)

/-- The trim loop evicts the oldest stores and never falls back to an arbitrary key. -/
theorem trim_spec (h : Recency.Tracks AffinityEntry.generation st.entries st.recency
    st.nextGeneration) :
    st.trimFallsBack = false ∧ Tracked st.trimAffinityState ∧
      abstract st.trimAffinityState = (abstract st).evict := by
  obtain ⟨htr, hc, hle⟩ := Recency.popOldest_spec st.maxEntries h
  have he : AffinityState.evictArbitrary st.maxEntries st.popped.2.keys st.popped.2 =
      st.popped.2 := evictArbitrary_of_le hle _
  have ht : st.trimAffinityState = { st with recency := st.popped.1, entries := st.popped.2 } := by
    unfold AffinityState.trimAffinityState
    rw [he]
  refine ⟨decide_eq_false (not_lt.mpr hle), ?_, ?_⟩
  · rw [ht]
    exact ⟨htr, hle⟩
  · rw [ht]
    unfold abstract Cache.evict
    rw [length_map, Recency.length_contents h, ← map_drop, ← hc]
    rfl

theorem Tracked.narrow (h : Tracked st)
    (hg : ∀ k, es'.get k = (st.entries.get k).filter (p k)) :
    Tracked { st with entries := es' } := by
  have ht := h.tracks.filter hg
  refine ⟨ht, le_trans ?_ h.le_max⟩
  rw [← Recency.length_contents ht, ← Recency.length_contents h.tracks, Recency.contents_filter hg]
  exact length_filter_le _ _

theorem Tracked.rebuild (h : Tracked st) : Tracked st.rebuildAffinityRecency :=
  ⟨h.tracks.rebuild, h.le_max⟩

section
variable (h : Tracked st) (hgen : st.nextGeneration + 1 < 2 ^ 64) (bd : AffinityBinding)
  (now : Duration)
include h hgen

theorem stored_spec :
    Recency.Tracks AffinityEntry.generation (st.stored bd now).entries
        (st.stored bd now).recency (st.stored bd now).nextGeneration ∧
      abstract (st.stored bd now) = { abstract st with
          slots := (abstract st).slots.filter (fun slot => decide (slot.key ≠ bd.key)) ++
            [⟨bd.key, bd.candidate, now + bd.ttl⟩] } := by
  have hn : max ((st.nextGeneration + 1) % 2 ^ 64) 1 = st.nextGeneration + 1 := by omega
  let e : AffinityEntry := ⟨bd.candidate, now + bd.ttl, st.nextGeneration + 1⟩
  have hs : st.stored bd now = { st with
        nextGeneration := st.nextGeneration + 1
        entries := st.entries.insert bd.key e
        recency := st.recency ++ [(bd.key, e.generation)] } := by
    unfold AffinityState.stored
    rw [hn]
  rw [hs]
  refine ⟨h.tracks.push bd.key rfl, ?_⟩
  unfold abstract
  rw [Recency.contents_push h.tracks bd.key rfl, map_append, filter_map]
  rfl

theorem store_refines :
    Tracked (st.affinityStore bd now) ∧
      abstract (st.affinityStore bd now) = (abstract st).store bd now := by
  obtain ⟨htr, hab⟩ := stored_spec h hgen bd now
  obtain ⟨-, ht, htm⟩ := trim_spec htr
  have hc : Tracked (st.stored bd now).trimAffinityState.compactAffinityRecency ∧
      abstract (st.stored bd now).trimAffinityState.compactAffinityRecency =
        abstract (st.stored bd now).trimAffinityState := by
    unfold AffinityState.compactAffinityRecency
    split_ifs
    · exact ⟨ht, rfl⟩
    · exact ⟨ht.rebuild, abstract_rebuild ht.tracks⟩
  unfold AffinityState.affinityStore Cache.store
  have ha : st.accepts bd.key = ((abstract st).enabled &&
      decide ((abstract st).maxEntries ≠ 0) && (abstract st).isActive bd.key) := rfl
  rw [← ha]
  split_ifs with hac
  · refine ⟨hc.1, ?_⟩
    rw [hc.2, htm, hab]
  · exact ⟨h, rfl⟩

end

theorem narrow_rebuild (h : Recency.Tracks AffinityEntry.generation st.entries st.recency
    st.nextGeneration)
    (hg : ∀ k, es'.get k = (st.entries.get k).filter (p k))
    (hq : ∀ e, q (toSlot e) = p e.1 e.2) :
    let next := AffinityState.rebuildAffinityRecency { st with entries := es' }
    Recency.Tracks AffinityEntry.generation next.entries next.recency next.nextGeneration ∧
      abstract next = (abstract st).keep q := by
  have ht := h.filter hg
  have hn := abstract_narrow hg hq
  exact ⟨ht.rebuild, (abstract_rebuild ht).trans hn⟩

section
variable (h : Tracked st)
include h

theorem prune_refines (now : Duration) :
    Tracked (st.pruneExpiredAffinity now) ∧
      abstract (st.pruneExpiredAffinity now) = (abstract st).prune now := by
  have hg := get_retain
    (fun key e => st.ruleIsActive key && decide (now < e.expiresAt)) st.entries
  have ha := abstract_narrow (q := fun slot => (abstract st).isActive slot.key &&
    decide (now < slot.expiresAt)) hg (fun _ => rfl)
  have ht := h.narrow hg
  unfold AffinityState.pruneExpiredAffinity
  dsimp only
  split_ifs
  · exact ⟨ht.rebuild, (abstract_rebuild ht.tracks).trans ha⟩
  · exact ⟨ht, ha⟩

theorem lookup_refines (key : AffinityCacheKey) (now : Duration) :
    Tracked (st.affinityLookup key now).2 ∧
      abstract (st.affinityLookup key now).2 = (abstract st).step (.lookup key now) := by
  unfold AffinityState.affinityLookup
  simp only [Cache.step]
  have hc : (!st.enabled || !st.ruleIsActive key) =
      !((abstract st).enabled && (abstract st).isActive key) := (not_and _ _).symm
  rw [hc]
  cases hon : (abstract st).enabled && (abstract st).isActive key with
  | false => exact ⟨h, rfl⟩
  | true =>
    have hn : ∀ es' : Table AffinityCacheKey AffinityEntry,
        (∀ k, es'.get k = (st.entries.get k).filter
          (fun e => decide (k = key → now < e.expiresAt))) →
        Tracked { st with entries := es' } ∧
          abstract { st with entries := es' } = (abstract st).keep
            (fun slot => decide (slot.key = key → now < slot.expiresAt)) := fun es' hg =>
      ⟨h.narrow hg, abstract_narrow hg (fun _ => rfl)⟩
    have hs : ∀ k, k ≠ key → st.entries.get k = (st.entries.get k).filter
        (fun e => decide (k = key → now < e.expiresAt)) := by
      intro k hk
      cases st.entries.get k <;> simp [Option.filter, hk]
    simp only [Bool.not_true, Bool.false_eq_true, if_false, if_true]
    cases he : st.entries.get key with
    | none =>
      refine hn st.entries (fun k => ?_)
      by_cases hk : k = key
      · rw [hk, he]
        rfl
      · exact hs k hk
    | some e =>
      dsimp only
      split_ifs with hex
      · refine hn (st.entries.erase key) (fun k => ?_)
        by_cases hk : k = key
        · rw [hk, he, get_erase_self]
          simp [Option.filter, hex]
        · rw [get_erase_ne _ hk]
          exact hs k hk
      · refine hn st.entries (fun k => ?_)
        by_cases hk : k = key
        · rw [hk, he]
          simp [Option.filter, lt_of_not_ge hex]
        · exact hs k hk

theorem removeIfCandidate_refines (key : AffinityCacheKey)
    (c : RouteCandidateIdentity) :
    Tracked (st.affinityRemoveIfCandidate key c) ∧ abstract (st.affinityRemoveIfCandidate key c) =
        (abstract st).step (.removeIfCandidate key c) := by
  have hn : ∀ es' : Table AffinityCacheKey AffinityEntry,
      (∀ k, es'.get k = (st.entries.get k).filter
        (fun e => decide (¬ (k = key ∧ e.candidate = c)))) →
      Tracked { st with entries := es' } ∧ abstract { st with entries := es' } =
          (abstract st).step (.removeIfCandidate key c) := fun es' hg =>
    ⟨h.narrow hg, abstract_narrow hg (fun _ => rfl)⟩
  unfold AffinityState.affinityRemoveIfCandidate
  split_ifs with hm
  · refine hn (st.entries.erase key) (fun k => ?_)
    obtain ⟨e, he, hc⟩ := (Option.any_eq_true _ _).mp hm
    by_cases hk : k = key
    · rw [hk, he, get_erase_self]
      simp [Option.filter, of_decide_eq_true hc]
    · rw [get_erase_ne _ hk]
      cases st.entries.get k <;> simp [Option.filter, hk]
  · refine hn st.entries (fun k => ?_)
    cases he : st.entries.get k with
    | none => rfl
    | some e =>
      by_cases hk : k = key
      · have hne : e.candidate ≠ c := by
          rintro rfl
          exact hm (by simp [← hk, he])
        simp [Option.filter, hne]
      · simp [Option.filter, hk]

theorem clear_refines (ruleName : Option String) (now : Duration) :
    Tracked (st.clearSessionAffinityCache ruleName now).2 ∧
      abstract (st.clearSessionAffinityCache ruleName now).2 =
        (abstract st).clear ruleName now := by
  obtain ⟨ht, ha⟩ := prune_refines h now
  have hr : (st.pruneExpiredAffinity now).activeRules = st.activeRules := by
    unfold AffinityState.pruneExpiredAffinity
    dsimp only
    split_ifs <;> rfl
  cases ruleName with
  | none =>
    have hg : ∀ k, (∅ : Table AffinityCacheKey AffinityEntry).get k =
        ((st.pruneExpiredAffinity now).entries.get k).filter (fun _ => false) := by
      intro k
      cases (st.pruneExpiredAffinity now).entries.get k <;> rfl
    have hn := (ht.narrow hg).rebuild
    have hk := (narrow_rebuild ht.tracks hg (q := fun _ => false) (fun _ => rfl)).2
    refine ⟨hn, hk.trans ?_⟩
    rw [ha]
    simp [Cache.keep, Cache.prune, Cache.clear]
  | some name =>
    have hf : (abstract st).activeRules = (st.pruneExpiredAffinity now).activeRules := hr.symm
    unfold AffinityState.clearSessionAffinityCache Cache.clear
    dsimp only
    rw [hf]
    cases (st.pruneExpiredAffinity now).activeRules.toList.find?
        (fun rule => eqIgnoreAsciiCase rule.2 name) with
    | none => exact ⟨ht, ha⟩
    | some rule =>
      have hg := get_retain
        (fun key (_ : AffinityEntry) => decide (key.ruleFingerprint ≠ rule.1))
        (st.pruneExpiredAffinity now).entries
      have hk := (narrow_rebuild ht.tracks hg
        (q := fun slot => decide (slot.key.ruleFingerprint ≠ rule.1)) (fun _ => rfl)).2
      exact ⟨(ht.narrow hg).rebuild, ha ▸ hk⟩

theorem reconciled_spec (settings : SessionAffinitySettings) (now : Duration)
    (hon : settings.enabled = true) :
    let next := st.reconciled settings now
    Recency.Tracks AffinityEntry.generation next.entries next.recency next.nextGeneration ∧
      (abstract next).evict = (abstract st).reconcile settings now := by
  unfold AffinityState.reconciled Cache.reconcile
  simp only [hon, if_true]
  have hr : (abstract st).activeRules = st.activeRules := rfl
  rw [hr]
  split_ifs with hs
  · exact ⟨h.tracks, rfl⟩
  · let base : AffinityState := { st with
      enabled := true
      maxEntries := settings.maxEntries
      activeRules := Table.ofList (settings.rules.map (fun rule => (rule.fingerprint, rule.name))) }
    have hg := get_retain
      (fun key e => base.ruleIsActive key && decide (now < e.expiresAt)) base.entries
    have hb : Recency.Tracks AffinityEntry.generation base.entries base.recency
        base.nextGeneration := h.tracks
    have hn := narrow_rebuild hb hg
      (q := fun slot => (abstract base).isActive slot.key && decide (now < slot.expiresAt))
      (fun _ => rfl)
    exact ⟨hn.1, congrArg Cache.evict hn.2⟩

theorem reconcile_refines (settings : SessionAffinitySettings)
    (now : Duration) :
    Tracked (st.reconcileAffinity settings now) ∧ abstract (st.reconcileAffinity settings now) =
        (abstract st).reconcile settings now := by
  unfold AffinityState.reconcileAffinity
  split_ifs with hon
  · obtain ⟨htr, ha⟩ := reconciled_spec h settings now hon
    obtain ⟨-, ht, htm⟩ := trim_spec htr
    exact ⟨ht, htm.trans ha⟩
  · refine ⟨⟨⟨List.Pairwise.nil, ?_, by simp⟩, Nat.zero_le _⟩, ?_⟩
    · intro k v hv
      simp at hv
    · simp [abstract, Cache.reconcile, hon, Recency.contents]

theorem step_refines (op : Op)
    (hgen : op.isStore = true → st.nextGeneration + 1 < 2 ^ 64) :
    Tracked (step st op) ∧ abstract (step st op) = (abstract st).step op := by
  cases op with
  | store bd now => exact store_refines h (hgen rfl) bd now
  | lookup key now => exact lookup_refines h key now
  | removeIfCandidate key c => exact removeIfCandidate_refines h key c
  | prune now => exact prune_refines h now
  | clear ruleName now => exact clear_refines h ruleName now
  | reconcile settings now => exact reconcile_refines h settings now

theorem trimmed_no_fallback (op : Op)
    (hgen : op.isStore = true → st.nextGeneration + 1 < 2 ^ 64) :
    ∀ t ∈ trimmed st op, t.trimFallsBack = false := by
  intro t ht
  cases op with
  | store bd now =>
    simp only [trimmed] at ht
    split_ifs at ht
    · cases ht
      exact (trim_spec (stored_spec h (hgen rfl) bd now).1).1
    · cases ht
  | reconcile settings now =>
    simp only [trimmed] at ht
    split_ifs at ht with hon
    · cases ht
      exact (trim_spec (reconciled_spec h settings now hon).1).1
    · cases ht
  | _ => cases ht

end

section
variable (st : AffinityState)

theorem prune_nextGeneration (now : Duration) :
    (st.pruneExpiredAffinity now).nextGeneration = st.nextGeneration := by
  unfold AffinityState.pruneExpiredAffinity
  dsimp only
  split_ifs <;> rfl

theorem compact_nextGeneration :
    st.compactAffinityRecency.nextGeneration = st.nextGeneration := by
  unfold AffinityState.compactAffinityRecency
  split_ifs <;> rfl

theorem clear_nextGeneration (ruleName : Option String) (now : Duration) :
    (st.clearSessionAffinityCache ruleName now).2.nextGeneration = st.nextGeneration := by
  have hp := prune_nextGeneration st now
  cases ruleName with
  | none => exact hp
  | some name =>
    unfold AffinityState.clearSessionAffinityCache
    dsimp only
    split <;> exact hp

theorem lookup_nextGeneration (key : AffinityCacheKey) (now : Duration) :
    (st.affinityLookup key now).2.nextGeneration = st.nextGeneration := by
  unfold AffinityState.affinityLookup
  split_ifs
  · rfl
  · cases st.entries.get key with
    | none => rfl
    | some e =>
      dsimp only
      split_ifs <;> rfl

/-- Only a store takes a generation, and it takes one. -/
theorem step_nextGeneration (op : Op) :
    (step st op).nextGeneration ≤ st.nextGeneration + if op.isStore then 1 else 0 := by
  cases op with
  | store bd now =>
    show (st.affinityStore bd now).nextGeneration ≤ st.nextGeneration + 1
    unfold AffinityState.affinityStore
    split_ifs
    · rw [compact_nextGeneration]
      show max ((st.nextGeneration + 1) % 2 ^ 64) 1 ≤ _
      omega
    · omega
  | lookup key now => exact (lookup_nextGeneration st key now).le
  | removeIfCandidate key c =>
    show (st.affinityRemoveIfCandidate key c).nextGeneration ≤ st.nextGeneration
    unfold AffinityState.affinityRemoveIfCandidate
    split_ifs <;> exact le_rfl
  | prune now => exact (prune_nextGeneration st now).le
  | clear ruleName now => exact (clear_nextGeneration st ruleName now).le
  | reconcile settings now =>
    show (st.reconcileAffinity settings now).nextGeneration ≤ st.nextGeneration
    unfold AffinityState.reconcileAffinity AffinityState.reconciled
    dsimp only
    split_ifs <;> exact le_rfl

end

theorem run_refines (ops : List Op) (h : Tracked st)
    (hgen : st.nextGeneration + ops.countP Op.isStore < 2 ^ 64) :
    Tracked (run step st ops) ∧ abstract (run step st ops) = run Cache.step (abstract st) ops ∧
      Along step (fun s op => ∀ t ∈ trimmed s op, t.trimFallsBack = false) st ops := by
  induction ops generalizing st with
  | nil => exact ⟨h, rfl, trivial⟩
  | cons op ops ih =>
    rw [countP_cons] at hgen
    have hs : op.isStore = true → st.nextGeneration + 1 < 2 ^ 64 := by
      intro hop
      simp only [hop, if_true] at hgen
      omega
    obtain ⟨ht, ha⟩ := step_refines h op hs
    have hn := step_nextGeneration st op
    obtain ⟨hr, hsi, hf⟩ := ih ht (by omega)
    refine ⟨hr, ?_, trimmed_no_fallback h op hs, hf⟩
    rw [run_cons, run_cons, hsi, ha]

theorem find_abstract (h : Tracked st) (key : AffinityCacheKey) :
    (abstract st).find key = (st.entries.get key).map (fun e => toSlot (key, e)) := by
  have hm : ∀ slot ∈ (abstract st).slots, ∃ e, st.entries.get slot.key = some e ∧
      slot = toSlot (slot.key, e) := by
    intro slot hs
    obtain ⟨⟨k, e⟩, he, rfl⟩ := mem_map.mp hs
    exact ⟨e, (Recency.mem_contents_iff h.tracks k e).mp he, rfl⟩
  unfold Cache.find
  cases hen : st.entries.get key with
  | none =>
    apply List.find?_eq_none.mpr
    intro slot hs hk
    obtain ⟨e, hg, -⟩ := hm slot hs
    rw [of_decide_eq_true hk, hen] at hg
    cases hg
  | some e =>
    have hin : toSlot (key, e) ∈ (abstract st).slots :=
      mem_map_of_mem ((Recency.mem_contents_iff h.tracks key e).mpr hen)
    cases hf : (abstract st).slots.find? (fun slot => decide (slot.key = key)) with
    | none => simpa [toSlot] using List.find?_eq_none.mp hf _ hin
    | some slot =>
      have hk : slot.key = key := by simpa using List.find?_some hf
      obtain ⟨e', hg, hs⟩ := hm slot (mem_of_find?_eq_some hf)
      rw [hk, hen] at hg
      cases hg
      rw [hs, hk]
      rfl

theorem lookup_abstract (h : Tracked st) (key : AffinityCacheKey) (now : Duration) :
    (st.affinityLookup key now).1 = (abstract st).lookup key now := by
  unfold AffinityState.affinityLookup Cache.lookup
  rw [find_abstract h key]
  have hc : (!st.enabled || !st.ruleIsActive key) =
      !((abstract st).enabled && (abstract st).isActive key) := (not_and _ _).symm
  rw [hc]
  cases (abstract st).enabled && (abstract st).isActive key with
  | false => rfl
  | true =>
    cases st.entries.get key with
    | none => rfl
    | some e =>
      by_cases he : e.expiresAt ≤ now
      · simp [he, toSlot, Option.filter]
      · simp [he, toSlot, Option.filter, lt_of_not_ge he]

theorem compact_length (st : AffinityState) :
    st.compactAffinityRecency.recency.length ≤
      4 * st.compactAffinityRecency.entries.len + 1024 := by
  unfold AffinityState.compactAffinityRecency
  split_ifs with hle
  · omega
  · show (Recency.rebuild AffinityEntry.generation st.entries).length ≤ 4 * st.entries.len + 1024
    rw [Recency.length_rebuild]
    omega

theorem tracked_default : Tracked AffinityState.default :=
  ⟨⟨List.Pairwise.nil, fun k v hv => by simp [AffinityState.default] at hv, by
    simp [AffinityState.default]⟩, Nat.zero_le _⟩

/-- Over every run with fewer than `2 ^ 64` stores the cache is the list of sessions in the
order of their last store: lookups agree, eviction drops the oldest stores, the arbitrary
eviction is never reached, and an accepted store leaves a short queue. -/
theorem affinity_cache_refines (ops : List Op) (hstores : ops.countP Op.isStore < 2 ^ 64) :
    let state := run step AffinityState.default ops
    abstract state = run Cache.step Cache.empty ops ∧
      (∀ key now, (state.affinityLookup key now).1 = (abstract state).lookup key now) ∧
      state.entries.len ≤ state.maxEntries ∧
      Along step (fun s op => ∀ t ∈ trimmed s op, t.trimFallsBack = false)
        AffinityState.default ops ∧
      ∀ before binding now, ops = before ++ [.store binding now] →
        (run step AffinityState.default before).accepts binding.key = true →
        state.recency.length ≤ 4 * state.entries.len + 1024 := by
  intro state
  obtain ⟨ht, hab, hf⟩ := run_refines ops tracked_default (by
    show 0 + _ < _
    omega)
  refine ⟨hab, lookup_abstract ht, ht.le_max, hf, ?_⟩
  intro before binding now hop ha
  have hl : state = ((run step AffinityState.default before).stored binding
      now).trimAffinityState.compactAffinityRecency := by
    show run step AffinityState.default ops = _
    rw [hop, run_append]
    exact if_pos ha
  rw [hl]
  exact compact_length _

/-- Nothing but one binding has been stored, the queue has the given length, and stores of
the other binding are refused. -/
structure Filling (state : AffinityState) (binding other : AffinityBinding) (n : ℕ) : Prop where
  accepts : state.accepts binding.key = true
  refuses : state.accepts other.key = false
  only : ∀ k ≠ binding.key, state.entries.get k = none
  candidate : ∀ entry ∈ state.entries.get binding.key, entry.candidate = binding.candidate
  length : state.recency.length = n

variable {bd o : AffinityBinding} {n : ℕ}

section
variable (h : Filling st bd o n)
include h

/-- A store of the same binding only lengthens the queue while it is short. -/
theorem Filling.store (now : Duration) (hn : n < 1028) :
    Filling (st.affinityStore bd now) bd o (n + 1) := by
  have hln : (st.stored bd now).entries.len = 1 := by
    have hr : (st.entries.erase bd.key).len = (∅ : Table AffinityCacheKey AffinityEntry).len := by
      apply len_eq_of_get_eq
      intro k
      rw [get_erase]
      split_ifs with hk
      · rfl
      · exact h.only k hk
    show (st.entries.insert _ _).len = 1
    rw [len_insert, hr]
    rfl
  have hm : 1 ≤ st.maxEntries := by
    have ha := h.accepts
    simp only [AffinityState.accepts, and_eq_true, decide_eq_true_eq] at ha
    omega
  have hle : (st.stored bd now).entries.len ≤ (st.stored bd now).maxEntries := hln.trans_le hm
  have hp : (st.stored bd now).popped = ((st.stored bd now).recency, (st.stored bd now).entries) :=
    Recency.popOldest_of_le hle _
  have ht : (st.stored bd now).trimAffinityState = st.stored bd now := by
    unfold AffinityState.trimAffinityState
    rw [hp, evictArbitrary_of_le hle]
  have hl : (st.stored bd now).recency.length = n + 1 := by
    show (st.recency ++ [_]).length = n + 1
    rw [length_append, h.length, length_singleton]
  have hs : st.affinityStore bd now = st.stored bd now := by
    unfold AffinityState.affinityStore AffinityState.compactAffinityRecency
    rw [if_pos h.accepts, ht, if_pos (by omega)]
  rw [hs]
  refine ⟨h.accepts, h.refuses, fun k hk => ?_, fun e he => ?_, hl⟩
  · show (st.entries.insert _ _).get k = none
    rw [get_insert_ne _ _ hk]
    exact h.only k hk
  · change (st.entries.insert _ _).get _ = some e at he
    rw [get_insert_self] at he
    cases he
    rfl

theorem Filling.repeat_store (now : Duration) (m : ℕ)
    (hm : n + m ≤ 1028) :
    Filling (run step st (List.replicate m (.store bd now))) bd o (n + m) := by
  induction m generalizing st n with
  | zero => exact h
  | succ m ih =>
    rw [show n + (m + 1) = n + 1 + m by omega]
    exact ih (h.store now (by omega)) (by omega)

theorem Filling.remove :
    (st.affinityRemoveIfCandidate bd.key bd.candidate).entries.len = 0 := by
  have hem : ∀ k, (st.affinityRemoveIfCandidate bd.key bd.candidate).entries.get k =
        (∅ : Table AffinityCacheKey AffinityEntry).get k := by
    intro k
    unfold AffinityState.affinityRemoveIfCandidate
    cases he : st.entries.get bd.key with
    | none =>
      by_cases hk : k = bd.key
      · simpa [hk] using he
      · simpa using h.only k hk
    | some e =>
      rw [if_pos (by simpa using h.candidate e he)]
      rw [get_erase]
      split_ifs with hk
      · rfl
      · exact h.only k hk
  rw [len_eq_of_get_eq hem]
  rfl

theorem Filling.remove_then_refuse (now : Duration) :
    let next := run step st
      [.removeIfCandidate bd.key bd.candidate, .store o now]
    next.recency.length = n ∧ next.entries.len = 0 := by
  let removed := st.affinityRemoveIfCandidate bd.key bd.candidate
  have hs : removed.recency = st.recency ∧ removed.accepts o.key = false := by
    have hr := h.refuses
    show (AffinityState.affinityRemoveIfCandidate _ _ _).recency = _ ∧
      (AffinityState.affinityRemoveIfCandidate _ _ _).accepts _ = _
    unfold AffinityState.affinityRemoveIfCandidate
    split_ifs
    · exact ⟨rfl, hr⟩
    · exact ⟨rfl, hr⟩
  have hst : removed.affinityStore o now = removed := if_neg (eq_false_iff.mp hs.2)
  intro next
  have hn : next = removed := hst
  rw [hn]
  exact ⟨hs.1 ▸ h.length, h.remove⟩

end

/-- Enable one rule, store one of its sessions `m` times, remove it, and store a session of
another rule. -/
def refusedStoreRun (m : ℕ) : List Op :=
  let binding : AffinityBinding := ⟨⟨1, 0, 0, 0⟩, Duration.fromSecs 60, ⟨7, "large"⟩, false⟩
  .reconcile ⟨true, 10, [⟨"primary", 1⟩]⟩ 0 :: (List.replicate m (.store binding 0) ++
    [.removeIfCandidate binding.key binding.candidate,
      .store { binding with key := ⟨2, 0, 0, 0⟩ } 0])

theorem refusedStoreRun_state {m : ℕ} (hm : m ≤ 1028) :
    (run step AffinityState.default (refusedStoreRun m)).recency.length = m ∧
      (run step AffinityState.default (refusedStoreRun m)).entries.len = 0 := by
  let bd : AffinityBinding := ⟨⟨1, 0, 0, 0⟩, Duration.fromSecs 60, ⟨7, "large"⟩, false⟩
  let o : AffinityBinding := { bd with key := ⟨2, 0, 0, 0⟩ }
  let start := step .default (.reconcile ⟨true, 10, [⟨"primary", 1⟩]⟩ 0)
  have hn : start.entries.get bd.key = none := rfl
  have hs : Filling start bd o 0 := ⟨by decide, by decide, fun _ _ => rfl, by simp [hn], rfl⟩
  have he := (hs.repeat_store 0 m (by omega)).remove_then_refuse 0
  rw [Nat.zero_add] at he
  rw [refusedStoreRun, run_cons, run_append]
  exact he

/-- A store that is refused returns before the queue is compacted: after 1025 stores of one
session that is then removed, the queue stays longer than its bound. -/
theorem refused_store_leaves_long_queue :
    let state := run step AffinityState.default (refusedStoreRun 1025)
    (refusedStoreRun 1025).countP Op.isStore < 2 ^ 64 ∧
      ¬ state.recency.length ≤ 4 * state.entries.len + 1024 := by
  obtain ⟨hl, he⟩ := refusedStoreRun_state (show 1025 ≤ 1028 by norm_num)
  constructor
  · have hle := countP_le_length (p := Op.isStore) (l := refusedStoreRun 1025)
    simp only [refusedStoreRun, length_cons, length_append, length_replicate, length_nil] at hle
    exact lt_of_le_of_lt hle (by norm_num)
  · rw [hl, he]
    norm_num

end Refinement

/-- Two sessions in a cache of one entry: the second store evicts the first. -/
theorem affinity_cache_refines_eviction :
    let settings : SessionAffinitySettings := ⟨true, 1, [⟨"primary", 1⟩]⟩
    let first : AffinityBinding := ⟨⟨1, 0, 0, 5⟩, Duration.fromSecs 60, ⟨7, "large"⟩, false⟩
    let second : AffinityBinding := ⟨⟨1, 0, 0, 6⟩, Duration.fromSecs 60, ⟨7, "large"⟩, false⟩
    let ops : List Op := [.reconcile settings 0, .store first 0, .store second 1]
    let state := run step AffinityState.default ops
    ops.countP Op.isStore < 2 ^ 64 ∧ state.entries.len ≤ state.maxEntries ∧
      (abstract state).slots = [⟨second.key, second.candidate, 1 + second.ttl⟩] ∧
      (state.affinityLookup first.key 2).1 = (abstract state).lookup first.key 2 ∧
      state.recency.length ≤ 4 * state.entries.len + 1024 := by
  intro settings first second ops state
  have h := affinity_cache_refines ops (by decide)
  refine ⟨by decide, h.2.2.1, by decide, h.2.1 first.key 2, ?_⟩
  exact h.2.2.2.2 [.reconcile settings 0, .store first 0] second 1 rfl (by decide)

end AiGateway.Routing.AffinityCache
