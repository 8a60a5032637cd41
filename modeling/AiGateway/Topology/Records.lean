import AiGateway.Domain.Basic

/-! Rows of the upstream topology, with the columns that authorization and routing read. -/
namespace AiGateway.Topology
open Domain

inductive GrantOriginKind where
  | group
  | channel
  | capability
  deriving DecidableEq

structure RoutingGroupRecord where
  id : Uuid
  deletedAt : Option ℤ
  deriving DecidableEq

structure LogicalChannelRecord where
  id : Uuid
  groupId : Uuid
  deletedAt : Option ℤ
  deriving DecidableEq

structure ChannelCapabilityRecord where
  id : Uuid
  channelId : Uuid
  deletedAt : Option ℤ
  deriving DecidableEq

/-- A row of `api_key_channel_grants` or of `api_key_policy_channel_grants`. -/
structure ChannelGrantRecord where
  ownerId : Uuid
  channelId : Uuid
  originKind : GrantOriginKind
  originId : Uuid
  deriving DecidableEq

structure UpstreamTopologyRecords where
  routingGroups : List RoutingGroupRecord
  logicalChannels : List LogicalChannelRecord
  channelCapabilities : List ChannelCapabilityRecord
  apiKeyGrants : List ChannelGrantRecord
  policyGrants : List ChannelGrantRecord

def UpstreamTopologyRecords.empty : UpstreamTopologyRecords := ⟨[], [], [], [], []⟩

end AiGateway.Topology
