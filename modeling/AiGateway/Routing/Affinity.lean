import AiGateway.Lib.Recency
import AiGateway.Routing.Candidates

/-! The session-affinity cache: a map from sessions to candidates with expiry, and a
recency queue of (key, generation) pairs from which the oldest stores are evicted. -/
namespace AiGateway.Routing
open Domain Lib

structure AffinityCacheKey where
  ruleFingerprint : Digest
  apiKeyId : Uuid
  modelRuleId : Uuid
  sessionHash : Digest
  deriving DecidableEq

structure AffinityEntry where
  candidate : RouteCandidateIdentity
  expiresAt : Duration
  generation : ℕ
  deriving DecidableEq

structure AffinityBinding where
  key : AffinityCacheKey
  ttl : Duration
  candidate : RouteCandidateIdentity
  cacheHit : Bool
  deriving DecidableEq

structure AffinityState where
  enabled : Bool
  maxEntries : ℕ
  activeRules : Table Digest String
  entries : Table AffinityCacheKey AffinityEntry
  recency : List (AffinityCacheKey × ℕ)
  nextGeneration : ℕ

structure SessionAffinityRuleCacheSnapshot where
  name : String
  entries : ℕ
  deriving DecidableEq

structure SessionAffinityCacheSnapshot where
  enabled : Bool
  maxEntries : ℕ
  totalEntries : ℕ
  rules : List SessionAffinityRuleCacheSnapshot
  deriving DecidableEq

structure SessionAffinityCacheClearResult where
  clearedEntries : ℕ
  cache : SessionAffinityCacheSnapshot
  deriving DecidableEq

def eqIgnoreAsciiCase (a b : String) : Bool :=
  decide (a.toList.map Char.toLower = b.toList.map Char.toLower)

namespace AffinityState

def default : AffinityState := ⟨false, 0, ∅, ∅, [], 0⟩

def ruleIsActive (state : AffinityState) (key : AffinityCacheKey) : Bool :=
  state.activeRules.contains key.ruleFingerprint

def rebuildAffinityRecency (state : AffinityState) : AffinityState :=
  { state with recency := Recency.rebuild AffinityEntry.generation state.entries }

def compactAffinityRecency (state : AffinityState) : AffinityState :=
  if state.recency.length ≤ state.entries.len * 4 + 1024 then state
  else state.rebuildAffinityRecency

/-- Remove keys in map order until few enough entries remain. -/
def evictArbitrary (limit : ℕ) :
    List AffinityCacheKey → Table AffinityCacheKey AffinityEntry →
      Table AffinityCacheKey AffinityEntry
  | [], entries => entries
  | key :: keys, entries =>
    if limit < entries.len then evictArbitrary limit keys (entries.erase key) else entries

/-- Queue and entries once the trim loop has the queue empty or few enough entries. -/
def popped (state : AffinityState) :
    List (AffinityCacheKey × ℕ) × Table AffinityCacheKey AffinityEntry :=
  Recency.popOldest AffinityEntry.generation state.maxEntries state.recency state.entries

/-- The trim loop evicts an arbitrary key only with the queue empty and too many entries left. -/
def trimFallsBack (state : AffinityState) : Bool := decide (state.maxEntries < state.popped.2.len)

def trimAffinityState (state : AffinityState) : AffinityState := { state with
    recency := state.popped.1
    entries := evictArbitrary state.maxEntries state.popped.2.keys state.popped.2 }

def pruneExpiredAffinity (state : AffinityState) (now : Duration) : AffinityState :=
  let entries := state.entries.retain
    (fun key entry => state.ruleIsActive key && decide (now < entry.expiresAt))
  if entries.len ≠ state.entries.len then
    { state with entries := entries }.rebuildAffinityRecency
  else { state with entries := entries }

def affinityCacheSnapshot (state : AffinityState) : SessionAffinityCacheSnapshot where
  enabled := state.enabled
  maxEntries := state.maxEntries
  totalEntries := state.entries.len
  rules := (state.activeRules.toList.map (fun rule =>
      ⟨rule.2, state.entries.keys.countP (fun key => decide (key.ruleFingerprint = rule.1))⟩)).insertionSort
      (fun a b => a.name ≤ b.name)

/-- `none` when no active rule has the name; the expired entries are gone even then. -/
def clearSessionAffinityCache (state : AffinityState) (ruleName : Option String)
    (now : Duration) : Option SessionAffinityCacheClearResult × AffinityState :=
  let state := state.pruneExpiredAffinity now
  let finish := fun cleared : AffinityState =>
    (some ⟨state.entries.len - cleared.entries.len, cleared.affinityCacheSnapshot⟩, cleared)
  match ruleName with
  | none => finish { state with entries := ∅ }.rebuildAffinityRecency
  | some name =>
    match state.activeRules.toList.find? (fun rule => eqIgnoreAsciiCase rule.2 name) with
    | none => (none, state)
    | some rule =>
      finish { state with
        entries := state.entries.retain
          (fun key _ => decide (key.ruleFingerprint ≠ rule.1)) }.rebuildAffinityRecency

/-- The state on which a reconcile to enabled settings calls the trim loop. -/
def reconciled (state : AffinityState) (settings : SessionAffinitySettings) (now : Duration) :
    AffinityState :=
  let activeRules := Table.ofList (settings.rules.map (fun rule => (rule.fingerprint, rule.name)))
  let state := { state with enabled := settings.enabled, maxEntries := settings.maxEntries }
  if Table.sameMap state.activeRules activeRules then state
  else
    let state := { state with activeRules := activeRules }
    { state with
      entries := state.entries.retain
        (fun key entry => state.ruleIsActive key && decide (now < entry.expiresAt))
      }.rebuildAffinityRecency

def reconcileAffinity (state : AffinityState) (settings : SessionAffinitySettings)
    (now : Duration) : AffinityState :=
  if settings.enabled then (state.reconciled settings now).trimAffinityState
  else
    { state with
      enabled := settings.enabled
      maxEntries := settings.maxEntries
      activeRules := Table.ofList (settings.rules.map (fun rule => (rule.fingerprint, rule.name)))
      entries := ∅
      recency := [] }

def affinityLookup (state : AffinityState) (key : AffinityCacheKey) (now : Duration) :
    Option RouteCandidateIdentity × AffinityState :=
  if !state.enabled || !state.ruleIsActive key then (none, state)
  else
    match state.entries.get key with
    | none => (none, state)
    | some entry =>
      if entry.expiresAt ≤ now then (none, { state with entries := state.entries.erase key })
      else (some entry.candidate, state)

def accepts (state : AffinityState) (key : AffinityCacheKey) : Bool :=
  state.enabled && decide (state.maxEntries ≠ 0) && state.ruleIsActive key

/-- The state on which an accepted store calls the trim loop. -/
def stored (state : AffinityState) (binding : AffinityBinding) (now : Duration) : AffinityState :=
  let generation := max ((state.nextGeneration + 1) % 2 ^ 64) 1
  { state with
    nextGeneration := generation
    entries := state.entries.insert binding.key ⟨binding.candidate, now + binding.ttl, generation⟩
    recency := state.recency ++ [(binding.key, generation)] }

def affinityStore (state : AffinityState) (binding : AffinityBinding) (now : Duration) :
    AffinityState :=
  if state.accepts binding.key then
    (state.stored binding now).trimAffinityState.compactAffinityRecency
  else state

def affinityRemoveIfCandidate (state : AffinityState) (key : AffinityCacheKey)
    (expectedCandidate : RouteCandidateIdentity) : AffinityState :=
  if (state.entries.get key).any (fun entry => decide (entry.candidate = expectedCandidate)) then
    { state with entries := state.entries.erase key }
  else state

end AffinityState
end AiGateway.Routing
