import ChronoDB.Distributed.Cluster
import ChronoDB.Distributed.LocalWrite

namespace ChronoDB.Distributed

open Library Wal Memstore Query DistributedStorage

/-!
# The new primary of a shard

A failover makes the least loaded healthy node the primary of every shard that
lost its own.  The data of a shard are on its followers, and a query reads from
the primary only.
-/

namespace ShardManager

variable {manager : ShardManager}
variable {failedNode : String} {healthyNodes : List String}

structure HasReplica
    (failedNode : String) (healthyNodes : List String) (shard : Shard) :
    Prop where
  lostPrimary : shard.primaryNode = failedNode
  replica : ∃ node ∈ shard.followerNodes, node ∈ healthyNodes

/-- A failover gives such a shard one of these followers as its primary. -/
def PromotesReplicas
    (manager : ShardManager) (failedNode : String) (healthyNodes : List String)
    (order : List UInt64) :
    Prop :=
  ∀ shardId shard,
    manager.shards.lookup shardId = some shard →
      HasReplica failedNode healthyNodes shard →
        ∃ after,
          (manager.handleNodeFailure failedNode healthyNodes
              order).2.shards.lookup shardId =
            some after ∧
          after.primaryNode ∈ shard.followerNodes ∧
            after.primaryNode ∈ healthyNodes

theorem primary_iterate_failOverShard
    {shard : Shard} (lostPrimary : shard.primaryNode = failedNode) {count : ℕ}
    (someTurn : count ≠ 0) :
    ((manager.failOverShard failedNode healthyNodes)^[count]
        shard).primaryNode =
      selectNewPrimary manager.shardLoad healthyNodes := by
  obtain ⟨more, rfl⟩ := Nat.exists_eq_succ_of_ne_zero someTurn
  induction more with
  | zero =>
    rw [Function.iterate_one, failOverShard_of_primary _ lostPrimary]
    rfl
  | succ more inductionHypothesis =>
    have before := inductionHypothesis (Nat.succ_ne_zero more)
    rw [Function.iterate_succ_apply']
    by_cases lostAgain :
        ((manager.failOverShard failedNode healthyNodes)^[more + 1]
          shard).primaryNode = failedNode
    · rw [failOverShard_of_primary _ lostAgain]
      rfl
    · rw [failOverShard_of_follower _ lostAgain]
      exact before

theorem promotesReplicas_iff
    (manager : ShardManager) (failedNode : String) (healthyNodes : List String)
    (order : List UInt64) :
    PromotesReplicas manager failedNode healthyNodes order ↔
      ∀ shardId shard,
        manager.shards.lookup shardId = some shard →
          HasReplica failedNode healthyNodes shard →
            (shardId ∈ manager.getNodeShards failedNode →
              ∀ node,
                manager.IsLeastLoaded healthyNodes node →
                  node ∈ shard.followerNodes) ∧
            (shardId ∉ manager.getNodeShards failedNode →
              failedNode ∈ shard.followerNodes ∧
                failedNode ∈ healthyNodes) := by
  refine forall₂_congr fun shardId shard => forall_congr' fun found =>
    forall_congr' fun hasReplica => ?_
  obtain ⟨follower, _, isHealthy⟩ := hasReplica.replica
  have nonempty := List.ne_nil_of_mem isHealthy
  rw [lookup_handleNodeFailure manager nonempty, found, Option.map_some]
  simp only [Option.some.injEq, exists_eq_left']
  by_cases listed : shardId ∈ manager.getNodeShards failedNode
  · have someTurn := Nat.ne_of_gt (List.count_pos_iff.mpr listed)
    have isLeast := manager.isLeastLoaded_selectNewPrimary nonempty
    rw [primary_iterate_failOverShard hasReplica.lostPrimary someTurn]
    constructor
    · rintro ⟨isFollower, _⟩
      refine ⟨fun _ node leastLoaded => ?_, fun unlisted => absurd listed
        unlisted⟩
      have same : selectNewPrimary manager.shardLoad healthyNodes = node :=
        eq_firstLeast manager.shardLoad "" leastLoaded.1 leastLoaded.2
      exact same ▸ isFollower
    · intro isFollower
      exact ⟨isFollower.1 listed _ isLeast, isLeast.1⟩
  · rw [List.count_eq_zero_of_not_mem listed, Function.iterate_zero, id,
      hasReplica.lostPrimary]
    constructor
    · exact fun promoted => ⟨fun isListed => absurd isListed listed, fun _ =>
        promoted⟩
    · exact fun isFollower => isFollower.2 listed

end ShardManager

/-!
## Reading from the new primary
-/

namespace Cluster

/-- A query to a node for all samples of a series returns at least some. -/
def Reads (cluster : Cluster) (node : String) (seriesId : TimeSeriesId)
    (samples : List Sample) :
    Prop :=
  ∃ found ∈
      (cluster.nodes node).query cluster.rpc (cluster.order node [seriesId])
        [seriesId] Int64.minValue Int64.maxValue,
    found.id = seriesId ∧ samples.Subperm found.samples

/-- All nodes have the same table of the shards, and know their names. -/
structure Shares (cluster : Cluster) (manager : ShardManager) : Prop where
  table : ∀ node, (cluster.nodes node).shardManager = manager
  name : ∀ node, (cluster.nodes node).config.nodeId = node

theorem reads_of_primary {cluster : Cluster} {manager : ShardManager}
    (shares : cluster.Shares manager) {seriesId : TimeSeriesId}
    {primary : String}
    (isPrimary :
      manager.getPrimaryNode (manager.getShardForSeries seriesId) = .ok primary)
    (works : cluster.health primary = .works) {samples : List Sample}
    (nonempty : samples ≠ [])
    (held :
      samples.Subperm ((cluster.nodes primary).memStore.samplesOf seriesId))
    (node : String) :
    cluster.Reads node seriesId samples := by
  obtain ⟨found, isFound, sameId, holds⟩ :=
    (exists_querySeriesLocal_iff nonempty).mpr held
  refine ⟨found, ?_, sameId, holds⟩
  have atHome :
      (cluster.nodes primary).IsPrimary
        ((cluster.nodes primary).shardManager.getShardForSeries seriesId) := by
    rw [DistributedStorage.IsPrimary, shares.table, shares.name]
    exact isPrimary
  have answered :
      found ∈
        cluster.answer primary [seriesId] Int64.minValue Int64.maxValue := by
    rw [answer, query_singleton atHome _
      (cluster.isOrder primary [seriesId]), isFound]
    exact List.mem_singleton_self found
  by_cases onPrimary : node = primary
  · rw [onPrimary, query_singleton atHome _
      (cluster.isOrder primary [seriesId]), isFound]
    exact List.mem_singleton_self found
  · have sameShard : ∀ other ∈ [seriesId],
        (cluster.nodes node).shardManager.getShardForSeries other =
          manager.getShardForSeries seriesId := by
      intro other isOnly
      rw [List.mem_singleton.mp isOnly, shares.table]
    rw [query_of_same (List.cons_ne_nil _ _) sameShard _
      (cluster.isOrder node [seriesId]), queryRoute,
      shares.table, isPrimary]
    dsimp only
    rw [shares.name, if_neg (Ne.symm onPrimary),
      queryRemote, rpc, works]
    exact answered

end Cluster

/--
After the failover every node reads what all followers of a shard with a replica
held.
-/
def ShardManager.KeepsReadable
    (manager : ShardManager) (failedNode : String) (healthyNodes : List String)
    (order : List UInt64) :
    Prop :=
  ∀ cluster : Cluster,
    cluster.Shares (manager.handleNodeFailure failedNode healthyNodes order).2 →
      (∀ node ∈ healthyNodes, cluster.health node = .works) →
        ∀ seriesId samples shard,
          samples ≠ [] →
            manager.shards.lookup (manager.getShardForSeries seriesId) =
                some shard →
              HasReplica failedNode healthyNodes shard →
                (∀ follower ∈ shard.followerNodes,
                  samples.Subperm
                    ((cluster.nodes follower).memStore.samplesOf seriesId)) →
                  ∀ node, cluster.Reads node seriesId samples

/--
A failover promotes replicas exactly when, of the shards that lost their primary
and have a replica, the listed ones have the least loaded healthy node as a
follower, and the others have the failed node itself as a healthy follower.  When
it does, what was replicated stays readable.
-/
theorem failover_promotes_replicas_iff (manager : ShardManager)
    (failedNode : String) (healthyNodes : List String) (order : List UInt64) :
    (manager.PromotesReplicas failedNode healthyNodes order ↔
      ∀ shardId shard,
        manager.shards.lookup shardId = some shard →
          ShardManager.HasReplica failedNode healthyNodes shard →
            (shardId ∈ manager.getNodeShards failedNode →
              ∀ node,
                manager.IsLeastLoaded healthyNodes node →
                  node ∈ shard.followerNodes) ∧
            (shardId ∉ manager.getNodeShards failedNode →
              failedNode ∈ shard.followerNodes ∧ failedNode ∈ healthyNodes)) ∧
      (manager.PromotesReplicas failedNode healthyNodes order →
        (∀ node ∈ healthyNodes, node ≠ "") →
          manager.KeepsReadable failedNode healthyNodes order) := by
  refine ⟨ShardManager.promotesReplicas_iff manager failedNode healthyNodes
    order, ?_⟩
  intro promotes named cluster shares healthy seriesId samples shard nonempty
    found hasReplica replicated
  obtain ⟨after, isAfter, isFollower, isHealthy⟩ :=
    promotes _ shard found hasReplica
  have sameShard :
      (manager.handleNodeFailure failedNode healthyNodes
          order).2.getShardForSeries seriesId =
        manager.getShardForSeries seriesId :=
    congrArg (fun config : ShardConfig => _ % config.shardCount)
      (manager.config_perform
        (.handleNodeFailure failedNode healthyNodes order))
  refine Cluster.reads_of_primary shares ?_ (healthy _ isHealthy) nonempty
    (replicated after.primaryNode isFollower)
  rw [sameShard, ShardManager.getPrimaryNode, isAfter]
  exact if_pos (named _ isHealthy)

/-- One shard on two nodes. -/
def replicatedManager : ShardManager :=
  (ShardManager.new { shardCount := 1, replicationFactor := 2 }).start
    |>.assignShard 0 "a" ["b"]

/-- An idle node becomes the primary, although there is a replica. -/
theorem idle_node_promoted :
    ¬replicatedManager.PromotesReplicas "a" ["b", "c"] [0] := by
  intro promotes
  obtain ⟨after, isAfter, isFollower, _⟩ :=
    promotes 0
      { id := 0, primaryNode := "a", followerNodes := ["b"],
        status := .healthy }
      (by decide) ⟨rfl, "b", by decide, by decide⟩
  have promoted :
      (replicatedManager.handleNodeFailure "a" ["b", "c"]
          [0]).2.shards.lookup 0 =
        some
          { id := 0, primaryNode := "c", followerNodes := ["b"],
            status := .healthy } := by
    decide
  rw [promoted] at isAfter
  cases isAfter
  exact absurd isFollower (by decide)

end ChronoDB.Distributed
