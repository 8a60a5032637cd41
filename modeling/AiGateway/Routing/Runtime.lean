import AiGateway.Routing.Affinity
import AiGateway.Routing.RoundRobin
import AiGateway.Routing.WeightedTicket

/-! The routing runtime: the registry of channel states shared with leases, the round
robin cursors and the session-affinity cache. -/
namespace AiGateway.Routing
open Domain Lib

structure RoundRobinKey where
  ruleId : Uuid
  priority : ℤ
  tierFingerprint : Digest
  routingScopeFingerprint : Digest
  capability : ChannelCapability
  deriving DecidableEq

/-- Channel states live in a heap, so that the registry and the leases share them by
reference. The lock shards of the source are one table each. -/
structure RoutingState where
  policy : PassiveHealthPolicy
  channelStates : Table ChannelIdentity ℕ
  heap : ℕ → ChannelState
  nextRef : ℕ
  activeChannels : Option (List ChannelIdentity)
  roundRobin : Table RoundRobinKey RoundRobin.Cursor
  affinity : AffinityState
  entropy : Entropy

/-- Held by the request it was selected for until the response ends. -/
structure ChannelLease where
  identity : ChannelIdentity
  state : ℕ
  halfOpenClaim : Word
  affinity : Option AffinityBinding
  deriving DecidableEq

namespace RoutingState

def new (policy : PassiveHealthPolicy) (entropy : Entropy) : RoutingState where
  policy := policy
  channelStates := ∅
  heap := fun _ => ChannelState.new false
  nextRef := 0
  activeChannels := none
  roundRobin := ∅
  affinity := AffinityState.default
  entropy := entropy

def modify (s : RoutingState) (ref : ℕ) (f : ChannelState → ChannelState) : RoutingState :=
  { s with heap := Function.update s.heap ref (f (s.heap ref)) }

def inActiveSet (s : RoutingState) (identity : ChannelIdentity) : Bool :=
  s.activeChannels.all (fun channels => channels.contains identity)

def channelIsActive (s : RoutingState) (identity : ChannelIdentity) : Bool :=
  match s.channelStates.get identity with
  | some ref => (s.heap ref).active
  | none => s.inActiveSet identity

def usable (s : RoutingState) (identity : ChannelIdentity) (now : Duration) : Bool :=
  match s.channelStates.get identity with
  | some ref => (s.heap ref).isUsable now
  | none => true

def insertState (s : RoutingState) (identity : ChannelIdentity) (active : Bool) : RoutingState :=
  { s with
    channelStates := s.channelStates.insert identity s.nextRef
    heap := Function.update s.heap s.nextRef (ChannelState.new active)
    nextRef := s.nextRef + 1 }

def channelStateOrInsert (s : RoutingState) (identity : ChannelIdentity) : ℕ × RoutingState :=
  match s.channelStates.get identity with
  | some ref => (ref, s)
  | none => (s.nextRef, s.insertState identity (s.inActiveSet identity))

def tryAcquireChannel (s : RoutingState) (identity : ChannelIdentity) (now : Duration) :
    Option (ℕ × Word) × RoutingState :=
  let (ref, s) := s.channelStateOrInsert identity
  match (s.heap ref).tryAcquire now with
  | none => (none, s)
  | some (claim, state) => (some (ref, claim), s.modify ref (fun _ => state))

/-- Copy membership in the next snapshot into a registered state. -/
def markActive (active : List ChannelIdentity) (s : RoutingState)
    (entry : ChannelIdentity × ℕ) : RoutingState :=
  s.modify entry.2 (fun state => { state with active := active.contains entry.1 })

/-- Register a channel of the next snapshot unless it is registered already. -/
def register (s : RoutingState) (identity : ChannelIdentity) : RoutingState :=
  match s.channelStates.get identity with
  | some ref => s.modify ref (fun state => { state with active := true })
  | none => s.insertState identity true

def reconcile (s : RoutingState) (snapshot : CompiledRuntimeConfig) (now : Duration) :
    RoutingState :=
  let active := snapshot.channels.values.map ChannelIdentity.fromChannel
  let s := s.channelStates.toList.foldl (markActive active) s
  let s := { s with
    channelStates := s.channelStates.retain (fun identity ref =>
      active.contains identity || decide (0 < (s.heap ref).inFlight)) }
  let s := active.dedup.foldl register s
  { s with
    activeChannels := some active
    roundRobin := ∅
    affinity := s.affinity.reconcileAffinity snapshot.sessionAffinity now }

def updatePolicy (s : RoutingState) (policy : PassiveHealthPolicy) : RoutingState :=
  { s with policy := policy }

def removeIfCandidate (s : RoutingState) (key : AffinityCacheKey)
    (candidate : RouteCandidateIdentity) : RoutingState :=
  { s with affinity := s.affinity.affinityRemoveIfCandidate key candidate }

end RoutingState

namespace ChannelLease

def requestSucceeded (lease : ChannelLease) (s : RoutingState) (now : Duration) : RoutingState :=
  match lease.affinity with
  | some binding => { s with affinity := s.affinity.affinityStore binding now }
  | none => s

def requestFailed (lease : ChannelLease) (s : RoutingState) : RoutingState :=
  match lease.affinity with
  | some binding =>
    if binding.cacheHit then s.removeIfCandidate binding.key binding.candidate else s
  | none => s

def responseHeadersReceived (lease : ChannelLease) (s : RoutingState) : RoutingState :=
  s.modify lease.state ChannelState.responseHeadersReceived

def connectionFailed (lease : ChannelLease) (s : RoutingState) (now : Duration) : RoutingState :=
  s.modify lease.state (fun state =>
    state.connectionFailed s.policy.connectionFailureThreshold (now + s.policy.cooldown))

def probeFailed (lease : ChannelLease) (s : RoutingState) (now : Duration) : RoutingState :=
  if lease.halfOpenClaim = 0#64 then s
  else s.modify lease.state (fun state =>
    state.probeFailed lease.halfOpenClaim (now + s.policy.cooldown))

/-- The last lease of a retired channel takes the registered state with it. -/
def drop (lease : ChannelLease) (s : RoutingState) : RoutingState :=
  let remaining := (s.heap lease.state).release.1
  let s := s.modify lease.state (fun state => state.release.2.cancelProbe lease.halfOpenClaim)
  if remaining = 0 ∧ (s.heap lease.state).active = false then
    if s.channelStates.get lease.identity = some lease.state ∧
        (s.heap lease.state).inFlight = 0 ∧ (s.heap lease.state).active = false then
      { s with channelStates := s.channelStates.erase lease.identity }
    else s
  else s

end ChannelLease
end AiGateway.Routing
