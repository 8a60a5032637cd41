import AiGateway.Topology.Records
import AiGateway.Lib.Index
import AiGateway.Lib.Run
import Mathlib.Data.List.Dedup

/-! Fixed channel grants of API keys and policies: the edits of a target list write them, the
later moves of channels do not. -/
namespace AiGateway.Topology
open Domain Lib Lib.Stage

inductive RepositoryError where
  | validation
  | notFound
  | apiKeyTargetNotAllowed
  | defaultApiKeyPolicyRequired
  | defaultApiKeyPolicyDisabled
  deriving DecidableEq

structure SelfApiKeyPolicy where
  id : Uuid
  enabled : Bool
  deriving DecidableEq

structure Grant where
  channelId : Uuid
  group : Bool
  originId : Uuid
  deriving DecidableEq

namespace UpstreamTopologyRecords
variable (topology : UpstreamTopologyRecords)

def liveGroups : Table Uuid RoutingGroupRecord :=
  .ofList ((topology.routingGroups.filter (·.deletedAt.isNone)).map (fun group => (group.id, group)))

def liveChannels : Table Uuid LogicalChannelRecord :=
  .ofList ((topology.logicalChannels.filter (fun channel =>
    channel.deletedAt.isNone && topology.liveGroups.contains channel.groupId)).map
      (fun channel => (channel.id, channel)))

/-- The policy of a self-service key grants the channel, by itself or by its group. -/
def policyAllows (policy : Option SelfApiKeyPolicy) (channel : LogicalChannelRecord) : Bool :=
  policy.any (fun policy => policy.enabled && topology.policyGrants.any (fun grant =>
    grant.ownerId == policy.id && grant.channelId == channel.id &&
      match grant.originKind with
      | .group => grant.originId == channel.groupId
      | .channel => grant.originId == channel.id
      | .capability => false))

/-- The grants of one live channel; `selfService` is the policy that restricts a self-service
key, and absent for an administrator. -/
def channelGrants (groups channels : List Uuid) (selfService : Option (Option SelfApiKeyPolicy))
    (channel : LogicalChannelRecord) : List Grant :=
  let allowed := selfService.all (fun policy => topology.policyAllows policy channel)
  (if groups.contains channel.groupId && allowed then [⟨channel.id, true, channel.groupId⟩]
    else []) ++
  if channels.contains channel.id && allowed then [⟨channel.id, false, channel.id⟩] else []

def resolve (groups channels : List Uuid) (selfService : Option (Option SelfApiKeyPolicy)) :
    Except RepositoryError (List Grant) := do
  ensure (groups.all topology.liveGroups.contains && channels.all topology.liveChannels.contains)
    .apiKeyTargetNotAllowed
  let grants := topology.liveChannels.values.flatMap
    (topology.channelGrants groups channels selfService)
  let covered := groups.all (fun id => grants.any (fun grant => grant.group && grant.originId == id)) &&
    channels.all (fun id => grants.any (fun grant => !grant.group && grant.originId == id))
  match selfService with
  | none => .ok grants
  | some policy =>
    if covered then .ok grants
    else .error (match policy with
      | none => .defaultApiKeyPolicyRequired
      | some policy =>
        if policy.enabled then .apiKeyTargetNotAllowed else .defaultApiKeyPolicyDisabled)

end UpstreamTopologyRecords

structure Targets where
  groups : List Uuid
  channels : List Uuid
  deriving DecidableEq

def Targets.none : Targets := ⟨[], []⟩

/-- The grant comes from a target of the list. -/
def Targets.covers (targets : Targets) (grant : Grant) : Bool :=
  if grant.group then targets.groups.contains grant.originId
  else targets.channels.contains grant.originId

def resolveAdded (topology : UpstreamTopologyRecords) (before after : Targets) :
    Except RepositoryError (List Grant) :=
  topology.resolve (after.groups.filter (fun id => !before.groups.contains id))
    (after.channels.filter (fun id => !before.channels.contains id)) none

def Grant.le (a b : Grant) : Bool :=
  if a.group != b.group then b.group
  else if a.originId != b.originId then decide (a.originId ≤ b.originId)
  else decide (a.channelId ≤ b.channelId)

/-- Retained origins never expand: a grant of the plan counts only for a new target. -/
def reconcile (existing plan : List Grant) (before after : Targets) : List Grant :=
  (existing.filter after.covers ++ plan.filter (fun grant => !before.covers grant)).dedup.mergeSort
    Grant.le

inductive Owner where
  | key (id : Uuid)
  | policy (id : Uuid)
  deriving DecidableEq

def Owner.id : Owner → Uuid
  | .key id => id
  | .policy id => id

namespace UpstreamTopologyRecords

def grantsOf (topology : UpstreamTopologyRecords) : Owner → List ChannelGrantRecord
  | .key _ => topology.apiKeyGrants
  | .policy _ => topology.policyGrants

def setGrants (topology : UpstreamTopologyRecords) (owner : Owner)
    (rows : List ChannelGrantRecord) : UpstreamTopologyRecords :=
  match owner with
  | .key _ => { topology with apiKeyGrants := rows }
  | .policy _ => { topology with policyGrants := rows }

end UpstreamTopologyRecords

def Grant.record (grant : Grant) (ownerId : Uuid) : ChannelGrantRecord :=
  ⟨ownerId, grant.channelId, if grant.group then .group else .channel, grant.originId⟩

def ChannelGrantRecord.grant (row : ChannelGrantRecord) : Grant :=
  ⟨row.channelId, row.originKind == .group, row.originId⟩

/-- Deleting the revoked rows of the owner and inserting the missing ones. -/
def replaceGrants (rows : List ChannelGrantRecord) (ownerId : Uuid) (grants : List Grant) :
    List ChannelGrantRecord :=
  let kept := rows.filter (fun row => row.ownerId != ownerId || grants.contains row.grant)
  kept ++ (grants.map (·.record ownerId)).filter (fun row => !kept.contains row)

/-- `sqlite_write`: `before` is the previous target list, if the owner is not new. -/
def write (topology : UpstreamTopologyRecords) (owner : Owner) (before : Option Targets)
    (after : Targets) (plan : Option (List Grant)) :
    Except RepositoryError UpstreamTopologyRecords := do
  let before := before.getD .none
  let plan ← match plan with
    | some plan => .ok plan
    | none => resolveAdded topology before after
  let rows := topology.grantsOf owner
  let existing := rows.filter (fun row => row.ownerId == owner.id)
  ensure (existing.all (fun row => row.originKind != .capability)) .validation
  let grants := reconcile (existing.map (·.grant)) plan before after
  .ok (topology.setGrants owner (replaceGrants rows owner.id grants))

def sameUuidSet (left right : List Uuid) : Bool :=
  left.length == right.length && left.all right.contains && right.all left.contains

def validateTargetLists (targets : Targets) (allowEmpty : Bool) : Except RepositoryError Unit :=
  ensure ((allowEmpty || !targets.groups.isEmpty || !targets.channels.isEmpty) &&
    decide targets.groups.Nodup && decide targets.channels.Nodup) .validation

structure Database where
  topology : UpstreamTopologyRecords
  targets : Table Owner Targets

def Database.empty : Database := ⟨.empty, ∅⟩

/-- An administrator creates or updates a key or a policy. -/
def saveTargets (db : Database) (owner : Owner) (after : Targets) :
    Except RepositoryError Database := do
  validateTargetLists after false
  let topology ← write db.topology owner (db.targets.get owner) after none
  .ok ⟨topology, db.targets.insert owner after⟩

def createOwnApiKey (db : Database) (id : Uuid) (after : Targets)
    (policy : Option SelfApiKeyPolicy) : Except RepositoryError Database := do
  validateTargetLists after false
  let plan ← db.topology.resolve after.groups after.channels (some policy)
  ensure (db.targets.get (.key id)).isNone .validation
  let topology ← write db.topology (.key id) none after (some plan)
  .ok ⟨topology, db.targets.insert (.key id) after⟩

/-- The grants are left alone when the target sets are the same. -/
def updateOwnApiKey (db : Database) (id : Uuid) (after : Targets)
    (policy : Option SelfApiKeyPolicy) : Except RepositoryError Database := do
  let current ← orReject (db.targets.get (.key id)) .notFound
  let changed := !sameUuidSet current.groups after.groups ||
    !sameUuidSet current.channels after.channels
  validateTargetLists after (!changed)
  if changed then do
    let plan ← db.topology.resolve after.groups after.channels (some policy)
    let topology ← write db.topology (.key id) (some current) after (some plan)
    .ok ⟨topology, db.targets.insert (.key id) after⟩
  else .ok { db with targets := db.targets.insert (.key id) after }

/-- Writing a row of the topology: it is created, moved to another group, or deleted. -/
def upsert {Row : Type} (id : Row → Uuid) (rows : List Row) (row : Row) : List Row :=
  rows.filter (fun other => id other != id row) ++ [row]

inductive Event where
  | saveGroup (group : RoutingGroupRecord)
  | saveChannel (channel : LogicalChannelRecord)
  | saveCapability (capability : ChannelCapabilityRecord)
  | saveTargets (owner : Owner) (targets : Targets)
  | createOwnApiKey (id : Uuid) (targets : Targets) (policy : Option SelfApiKeyPolicy)
  | updateOwnApiKey (id : Uuid) (targets : Targets) (policy : Option SelfApiKeyPolicy)

/-- A rejected transaction leaves the database as it was. -/
def Database.commit (db : Database) : Except RepositoryError Database → Database
  | .ok db' => db'
  | .error _ => db

def Database.step (db : Database) : Event → Database
  | .saveGroup group =>
    { db with topology := { db.topology with
        routingGroups := upsert (·.id) db.topology.routingGroups group } }
  | .saveChannel channel =>
    { db with topology := { db.topology with
        logicalChannels := upsert (·.id) db.topology.logicalChannels channel } }
  | .saveCapability capability =>
    { db with topology := { db.topology with
        channelCapabilities := upsert (·.id) db.topology.channelCapabilities capability } }
  | .saveTargets owner targets => db.commit (Topology.saveTargets db owner targets)
  | .createOwnApiKey id targets policy =>
    db.commit (Topology.createOwnApiKey db id targets policy)
  | .updateOwnApiKey id targets policy =>
    db.commit (Topology.updateOwnApiKey db id targets policy)

end AiGateway.Topology
