import ChronoDB.Library.LeastFirst
import ChronoDB.Library.SipHash
import ChronoDB.Library.FiniteMap
import ChronoDB.Library.Transition
import ChronoDB.Model.Types

namespace ChronoDB.Distributed

open Library

/-!
# Shards and the nodes that serve them

The shard manager keeps a table of shards and a map from nodes to shards.  The
table is filled in by an assignment, by a rebalancing over a list of nodes, or
by the failover of a node, which alone computes the map anew.
-/

/-- `Error::Internal`, or an error of the store. -/
inductive ClusterError where
  | internal (message : String)
  | storage (cause : Error)
  deriving Repr, DecidableEq

structure ShardConfig where
  shardCount : UInt64
  replicationFactor : UInt32
  deriving Repr, DecidableEq

inductive ShardStatus where
  | healthy
  | degraded
  | unavailable
  deriving Repr, DecidableEq

structure Shard where
  id : UInt64
  primaryNode : String
  followerNodes : List String
  status : ShardStatus
  deriving Repr, DecidableEq

namespace Shard

/-- A shard that no node serves yet. -/
def unassigned (id : UInt64) : Shard where
  id := id
  primaryNode := ""
  followerNodes := []
  status := .unavailable

def nodes (shard : Shard) : List String :=
  shard.primaryNode :: shard.followerNodes

def assign
    (primaryNode : String) (followerNodes : List String) (shard : Shard) :
    Shard :=
  {
    shard with
    primaryNode := primaryNode
    followerNodes := followerNodes
    status := .healthy
  }

end Shard

abbrev ShardTable := FiniteMap UInt64 Shard

/-- The shard under an id changed, if there is one. -/
def ShardTable.update
    (shards : ShardTable) (shardId : UInt64) (change : Shard → Shard) :
    ShardTable :=
  match shards.lookup shardId with
  | none => shards
  | some shard => shards.insert shardId (change shard)

abbrev NodeShards := FiniteMap String (List UInt64)

namespace NodeShards

/-- `entry(node).or_insert_with(Vec::new).push(shard_id)`. -/
def push (shardId : UInt64) (nodeShards : NodeShards) (node : String) :
    NodeShards :=
  nodeShards.insert node ((nodeShards.lookup node).getD [] ++ [shardId])

def pushShard
    (shards : ShardTable) (nodeShards : NodeShards) (shardId : UInt64) :
    NodeShards :=
  match shards.lookup shardId with
  | none => nodeShards
  | some shard => shard.nodes.foldl (push shardId) nodeShards

end NodeShards

structure ShardManager where
  config : ShardConfig
  shards : ShardTable
  nodeShards : NodeShards

namespace ShardConfig

def shardIds (config : ShardConfig) : List UInt64 :=
  (List.range config.shardCount.toNat).map UInt64.ofNat

/-- `replication_factor as usize - 1`, which wraps around. -/
def followerCount (config : ShardConfig) : ℕ :=
  if config.replicationFactor = 0 then 2 ^ 64 - 1
  else config.replicationFactor.toNat - 1

end ShardConfig

/-- The hash of an id: SipHash-1-3 of its eight bytes. -/
def hashSeriesId (seriesId : TimeSeriesId) : UInt64 :=
  SipHash.hash (leBytes 8 seriesId.toNat)

def rebalancedPrimary (nodes : List String) (shardId : UInt64) : String :=
  nodes.getD (shardId.toNat % nodes.length) ""

/-- The followers of a shard: the nodes after the primary, round about. -/
def rebalancedFollowers
    (replicationFactor : ℕ) (nodes : List String) (shardId : UInt64) :
    List String :=
  let primaryIndex := shardId.toNat % nodes.length
  (List.range' 1 (min replicationFactor nodes.length - 1)).map fun i =>
    nodes.getD ((primaryIndex + i) % nodes.length) ""

/-- The node with the fewest shards, the first one among several. -/
def selectNewPrimary (shardCount : String → ℕ) (healthyNodes : List String) :
    String :=
  firstLeast shardCount "" healthyNodes

def selectNewFollowers (shardCount : String → ℕ) (primaryNode : String)
    (healthyNodes : List String) (count : ℕ) :
    List String :=
  (sortByKey shardCount
    (healthyNodes.filter fun node => node ≠ primaryNode)).take count

namespace ShardManager

def new (config : ShardConfig) : ShardManager where
  config := config
  shards := ∅
  nodeShards := ∅

/-- `start` puts every shard back; the map stays as it is. -/
def start (manager : ShardManager) : ShardManager :=
  {
    manager with
    shards :=
      manager.config.shardIds.foldl
        (fun shards shardId => shards.insert shardId (.unassigned shardId))
        manager.shards
  }

/-- The shard of a series; a count of zero panics. -/
def getShardForSeries (manager : ShardManager) (seriesId : TimeSeriesId) :
    UInt64 :=
  hashSeriesId seriesId % manager.config.shardCount

def getPrimaryNode (manager : ShardManager) (shardId : UInt64) :
    Except ClusterError String :=
  match manager.shards.lookup shardId with
  | some shard =>
    if shard.primaryNode ≠ "" then .ok shard.primaryNode
    else
      .error (.internal
        ("No primary node for shard " ++ toString shardId.toNat))
  | none =>
    .error (.internal ("Shard " ++ toString shardId.toNat ++ " not found"))

def getFollowerNodes (manager : ShardManager) (shardId : UInt64) :
    Except ClusterError (List String) :=
  match manager.shards.lookup shardId with
  | some shard => .ok shard.followerNodes
  | none =>
    .error (.internal ("Shard " ++ toString shardId.toNat ++ " not found"))

def getNodeShards (manager : ShardManager) (node : String) : List UInt64 :=
  (manager.nodeShards.lookup node).getD []

/-- The number of shards that the map has for a node. -/
def shardLoad (manager : ShardManager) (node : String) : ℕ :=
  (manager.getNodeShards node).length

def assignShard
    (manager : ShardManager) (shardId : UInt64) (primaryNode : String)
    (followerNodes : List String) :
    ShardManager :=
  {
    manager with
    shards := manager.shards.update shardId (.assign primaryNode followerNodes)
    nodeShards :=
      (primaryNode :: followerNodes).foldl (NodeShards.push shardId)
        manager.nodeShards
  }

def rebalanceShard
    (manager : ShardManager) (nodes : List String) (shardId : UInt64) :
    Shard → Shard :=
  .assign (rebalancedPrimary nodes shardId)
    (rebalancedFollowers manager.config.replicationFactor.toNat nodes shardId)

/-- `rebalance_shards` does not touch the map. -/
def rebalanceShards (manager : ShardManager) (nodes : List String) :
    Except ClusterError Unit × ShardManager :=
  if nodes = [] then
    (.error (.internal "No nodes available for rebalancing"), manager)
  else
    (.ok (),
      {
        manager with
        shards :=
          manager.config.shardIds.foldl
            (fun shards shardId =>
              shards.update shardId (manager.rebalanceShard nodes shardId))
            manager.shards
      })

/-- The loop body of `handle_node_failure`; the map is not yet changed. -/
def failOverShard
    (manager : ShardManager) (failedNode : String) (healthyNodes : List String)
    (shard : Shard) :
    Shard :=
  if shard.primaryNode = failedNode then
    let newPrimary := selectNewPrimary manager.shardLoad healthyNodes
    shard.assign newPrimary
      (selectNewFollowers manager.shardLoad newPrimary healthyNodes
        manager.config.followerCount)
  else
    let kept := shard.followerNodes.filter fun node => node ≠ failedNode
    if kept.length < manager.config.followerCount then
      {
        shard with
        followerNodes :=
          kept ++
            selectNewFollowers manager.shardLoad shard.primaryNode healthyNodes
              (manager.config.followerCount - kept.length)
      }
    else
      { shard with followerNodes := kept }

/--
`handle_node_failure`.  The last argument is the order in which the table of
shards is gone through when the map is computed anew.
-/
def handleNodeFailure
    (manager : ShardManager) (failedNode : String) (healthyNodes : List String)
    (order : List UInt64) :
    Except ClusterError Unit × ShardManager :=
  if healthyNodes = [] then
    (.error (.internal "No healthy nodes available for failover"), manager)
  else
    let failedShards := manager.getNodeShards failedNode
    if failedShards = [] then
      (.ok (), manager)
    else
      let shards :=
        failedShards.foldl
          (fun shards shardId =>
            shards.update shardId
              (manager.failOverShard failedNode healthyNodes))
          manager.shards
      (.ok (),
        {
          manager with
          shards := shards
          nodeShards := order.foldl (NodeShards.pushShard shards) ∅
        })

/-- The failover computes the number of followers from a factor of zero. -/
def Underflows (manager : ShardManager) (failedNode : String)
    (healthyNodes : List String) :
    Prop :=
  manager.config.replicationFactor = 0 ∧ healthyNodes ≠ [] ∧
    ∃ shardId ∈ manager.getNodeShards failedNode, shardId ∈ manager.shards

end ShardManager

/-!
## Runs
-/

inductive ShardAction where
  | start
  | assignShard
      (shardId : UInt64)
      (primaryNode : String)
      (followerNodes : List String)
  | rebalanceShards (nodes : List String)
  | handleNodeFailure
      (failedNode : String)
      (healthyNodes : List String)
      (order : List UInt64)
  deriving Repr, DecidableEq

namespace ShardManager

def perform (manager : ShardManager) : ShardAction → ShardManager
  | .start => manager.start
  | .assignShard shardId primaryNode followerNodes =>
    manager.assignShard shardId primaryNode followerNodes
  | .rebalanceShards nodes => (manager.rebalanceShards nodes).2
  | .handleNodeFailure failedNode healthyNodes order =>
    (manager.handleNodeFailure failedNode healthyNodes order).2

/-- The table of shards is gone through in some order of its keys. -/
def Possible (manager : ShardManager) : ShardAction → Prop
  | .handleNodeFailure _ _ order => order.Perm manager.shards.keys
  | _ => True

end ShardManager

def ShardStep
    (before : ShardManager) (action : ShardAction) (after : ShardManager) :
    Prop :=
  before.Possible action ∧ before.perform action = after

end ChronoDB.Distributed
