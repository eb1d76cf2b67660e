import ChronoDB.Distributed.Placement

namespace ChronoDB.Distributed

open Library List ShardManager

/-!
# The map from nodes to shards

The map and the table should describe one relation.  Only an assignment and a
failover write the map, so it follows the table as long as the other operations
move no shard, and as long as no node is named twice for a shard.
-/

/-- No node is named twice; the empty id stands for no node. -/
def DistinctNodes (nodes : List String) : Prop :=
  ∀ node, node ≠ "" → nodes.count node ≤ 1

theorem DistinctNodes.perm
    {nodes others : List String} (distinct : DistinctNodes nodes)
    (reordered : others.Perm nodes) :
    DistinctNodes others := by
  intro node named
  rw [reordered.count_eq]
  exact distinct node named

namespace ShardManager

/--
The list of a node has every shard that the node serves once, and no other
shard.
-/
structure Mirrored (manager : ShardManager) : Prop where
  listedOnce :
    ∀ {node shardId},
      node ≠ "" →
        manager.shards.Serves node shardId →
          (manager.getNodeShards node).count shardId = 1
  listedOnly :
    ∀ {node shardId},
      node ≠ "" →
        shardId ∈ manager.getNodeShards node →
          manager.shards.Serves node shardId

def filledUp
    (manager : ShardManager) (healthyNodes : List String) (primaryNode : String)
    (followerNodes : List String) :
    List String :=
  primaryNode ::
    (followerNodes ++
      leastItems manager.shardLoad
        (manager.config.followerCount - followerNodes.length)
        (candidates healthyNodes primaryNode))

/-- No node is named twice for the shard when another node fails. -/
structure FailsOverDistinctly
    (manager : ShardManager) (failedNode : String) (healthyNodes : List String)
    (shardId : UInt64) (shard : Shard) :
    Prop where
  unlisted :
    shardId ∉ manager.getNodeShards failedNode → DistinctNodes shard.nodes
  primary :
    shardId ∈ manager.getNodeShards failedNode →
      shard.primaryNode = failedNode →
        ∀ newPrimary,
          manager.IsLeastLoaded healthyNodes newPrimary →
            DistinctNodes (manager.filledUp healthyNodes newPrimary [])
  follower :
    shardId ∈ manager.getNodeShards failedNode →
      shard.primaryNode ≠ failedNode →
        DistinctNodes
          (manager.filledUp healthyNodes shard.primaryNode
            (keptFollowers failedNode shard))

/--
The operation moves no shard without the map, names no node twice for a shard,
and adds no shard to a list that has it.
-/
def KeepsMirror (manager : ShardManager) : ShardAction → Prop
  | .start =>
    ∀ node shardId,
      node ≠ "" →
        shardId < manager.config.shardCount →
          ¬manager.shards.Serves node shardId
  | .assignShard shardId primaryNode followerNodes =>
    DistinctNodes (primaryNode :: followerNodes) ∧
      (∀ node, node ≠ "" → ¬manager.shards.Serves node shardId) ∧
        ∀ node ∈ primaryNode :: followerNodes,
          node ≠ "" → shardId ∈ manager.shards
  | .rebalanceShards nodes =>
    nodes = [] ∨
      ∀ node shardId,
        node ≠ "" →
          shardId ∈ manager.shards →
            shardId < manager.config.shardCount →
              (manager.shards.Serves node shardId ↔
                ∃ i < replicaCount manager.config.replicationFactor.toNat nodes,
                  nodes.getD ((shardId.toNat + i) % nodes.length) "" = node)
  | .handleNodeFailure failedNode healthyNodes _ =>
    healthyNodes = [] ∨
      manager.getNodeShards failedNode = [] ∨
        (manager.getNodeShards failedNode).Nodup ∧
          ∀ shardId shard,
            manager.shards.lookup shardId = some shard →
              manager.FailsOverDistinctly failedNode healthyNodes shardId shard

section Steps

variable {manager : ShardManager}

theorem mirrored_new (config : ShardConfig) : (new config).Mirrored := by
  constructor
  · rintro node shardId _ ⟨shard, found, _⟩
    cases found
  · rintro node shardId _ listed
    cases listed

theorem Mirrored.ofServes (mirrored : manager.Mirrored) {after : ShardManager}
    (sameLists : after.nodeShards = manager.nodeShards)
    (sameServed :
      ∀ node shardId,
        node ≠ "" →
          (after.shards.Serves node shardId ↔
            manager.shards.Serves node shardId)) :
    after.Mirrored := by
  have sameList : ∀ node,
      after.getNodeShards node = manager.getNodeShards node := by
    intro node
    rw [getNodeShards, getNodeShards, sameLists]
  constructor
  · intro node shardId named served
    rw [sameList]
    exact mirrored.listedOnce named ((sameServed node shardId named).mp served)
  · intro node shardId named listed
    rw [sameList] at listed
    exact (sameServed node shardId named).mpr (mirrored.listedOnly named listed)

/-- A start that takes no shard from a node. -/
theorem Mirrored.start
    (mirrored : manager.Mirrored) (noNodes : manager.KeepsMirror .start) :
    manager.start.Mirrored := by
  refine mirrored.ofServes rfl fun node shardId named => ?_
  rw [ShardTable.Serves, ShardTable.Serves, lookup_start]
  split_ifs with below
  · refine iff_of_false ?_ (noNodes node shardId named below)
    rintro ⟨shard, found, isNode⟩
    cases found
    exact named (mem_singleton.mp isNode)
  · exact Iff.rfl

theorem serves_assignShard_iff
    (manager : ShardManager) (ownId : UInt64) (primaryNode : String)
    (followerNodes : List String) (node : String) (shardId : UInt64) :
    (manager.assignShard ownId primaryNode followerNodes).shards.Serves node
        shardId ↔
      if shardId = ownId then
        shardId ∈ manager.shards ∧ node ∈ primaryNode :: followerNodes
      else manager.shards.Serves node shardId := by
  rw [ShardTable.Serves, ShardManager.assignShard, ShardTable.lookup_update]
  split_ifs
  · rw [← AList.lookup_isSome]
    cases manager.shards.lookup shardId with
    | none => simp
    | some shard => simp [Shard.assign, Shard.nodes]
  · exact Iff.rfl

theorem Mirrored.assignShard
    (mirrored : manager.Mirrored) {ownId : UInt64} {primaryNode : String}
    {followerNodes : List String}
    (keeps :
      manager.KeepsMirror (.assignShard ownId primaryNode followerNodes)) :
    (manager.assignShard ownId primaryNode followerNodes).Mirrored := by
  obtain ⟨distinct, notServed, present⟩ := keeps
  have notListed : ∀ node, node ≠ "" →
      (manager.getNodeShards node).count ownId = 0 := by
    intro node named
    apply count_eq_zero_of_not_mem
    exact fun listed => notServed node named (mirrored.listedOnly named listed)
  constructor
  · intro node shardId named served
    rw [serves_assignShard_iff] at served
    rw [getNodeShards_assignShard, count_append, count_replicate]
    split_ifs at served with same
    · rw [same, notListed node named, if_pos (beq_self_eq_true ownId)]
      have atMostOnce := distinct node named
      have named := count_pos_iff.mpr served.2
      omega
    · rw [if_neg fun isBeq => same (eq_of_beq isBeq).symm, Nat.add_zero]
      exact mirrored.listedOnce named served
  · intro node shardId named listed
    rw [getNodeShards_assignShard, mem_append, mem_replicate] at listed
    rw [serves_assignShard_iff]
    rcases listed with listedBefore | ⟨isNode, rfl⟩
    · have served := mirrored.listedOnly named listedBefore
      rw [if_neg]
      · exact served
      · rintro rfl
        exact notServed node named served
    · have member := count_pos_iff.mp (Nat.pos_of_ne_zero isNode)
      rw [if_pos rfl]
      exact ⟨present node member named, member⟩

theorem serves_rebalanceShards_iff
    (manager : ShardManager) {nodes : List String} (nonempty : nodes ≠ [])
    (node : String) (shardId : UInt64) :
    (manager.rebalanceShards nodes).2.shards.Serves node shardId ↔
      if shardId < manager.config.shardCount then
        shardId ∈ manager.shards ∧
          ∃ i < replicaCount manager.config.replicationFactor.toNat nodes,
            nodes.getD ((shardId.toNat + i) % nodes.length) "" = node
      else manager.shards.Serves node shardId := by
  rw [ShardTable.Serves, lookup_rebalanceShards manager nonempty]
  split_ifs
  · rw [← AList.lookup_isSome]
    cases manager.shards.lookup shardId with
    | none => simp
    | some shard =>
      have isRebalanced :
          (manager.rebalanceShard nodes shardId shard).nodes = _ :=
        rebalanced_eq manager.config.replicationFactor.toNat nodes shardId
      simp [isRebalanced]
  · exact Iff.rfl

theorem Mirrored.rebalanceShards
    (mirrored : manager.Mirrored) {nodes : List String}
    (keeps : manager.KeepsMirror (.rebalanceShards nodes)) :
    (manager.rebalanceShards nodes).2.Mirrored := by
  rcases keeps with nothing | unmoved
  · rw [ShardManager.rebalanceShards, if_pos nothing]
    exact mirrored
  by_cases nonempty : nodes = []
  · rw [ShardManager.rebalanceShards, if_pos nonempty]
    exact mirrored
  refine mirrored.ofServes ?_ fun node shardId named => ?_
  · rw [ShardManager.rebalanceShards, if_neg nonempty]
  · rw [serves_rebalanceShards_iff manager nonempty]
    split_ifs with below
    · constructor
      · rintro ⟨present, atPlace⟩
        exact (unmoved node shardId named present below).mpr atPlace
      · intro served
        obtain ⟨shard, found, _⟩ := id served
        have present := FiniteMap.mem_of_lookup found
        exact ⟨present, (unmoved node shardId named present below).mp served⟩
    · exact Iff.rfl

theorem FailsOverDistinctly.distinctNodes
    {failedNode : String} {healthyNodes : List String}
    (nonempty : healthyNodes ≠ []) {shardId : UInt64} {shard : Shard}
    (distinctly :
      manager.FailsOverDistinctly failedNode healthyNodes shardId shard)
    (listedOnce : (manager.getNodeShards failedNode).Nodup) :
    DistinctNodes
      ((manager.failOverShard failedNode healthyNodes)^[
        (manager.getNodeShards failedNode).count shardId] shard).nodes := by
  by_cases listed : shardId ∈ manager.getNodeShards failedNode
  · rw [count_eq_one_of_mem listedOnce listed, Function.iterate_one,
      Shard.nodes]
    by_cases lostPrimary : shard.primaryNode = failedNode
    · rw [manager.failOverShard_of_primary lostPrimary]
      refine
        (distinctly.primary listed lostPrimary _
          (manager.isLeastLoaded_selectNewPrimary nonempty)).perm ?_
      exact (manager.selectNewFollowers_perm _ healthyNodes _).cons _
    · rw [manager.failOverShard_of_follower lostPrimary]
      refine (distinctly.follower listed lostPrimary).perm ?_
      exact
        ((manager.selectNewFollowers_perm _ healthyNodes _).append_left
          _).cons _
  · rw [count_eq_zero_of_not_mem listed, Function.iterate_zero, id]
    exact distinctly.unlisted listed

theorem Mirrored.handleNodeFailure
    (mirrored : manager.Mirrored) {failedNode : String}
    {healthyNodes : List String} {order : List UInt64}
    (isOrder : order.Perm manager.shards.keys)
    (keeps :
      manager.KeepsMirror (.handleNodeFailure failedNode healthyNodes order)) :
    (manager.handleNodeFailure failedNode healthyNodes order).2.Mirrored := by
  by_cases nonempty : healthyNodes = []
  · rw [ShardManager.handleNodeFailure, if_pos nonempty]
    exact mirrored
  by_cases nothing : manager.getNodeShards failedNode = []
  · rw [ShardManager.handleNodeFailure, if_neg nonempty, if_pos nothing]
    exact mirrored
  obtain ⟨listedOnce, distinctly⟩ :=
    (keeps.resolve_left nonempty).resolve_left nothing
  have lists :=
    manager.count_getNodeShards_handleNodeFailure nonempty nothing isOrder
  have atMostOnce : ∀ node shardId, node ≠ "" →
      (manager.handleNodeFailure failedNode healthyNodes
        order).2.shards.servings shardId node ≤ 1 := by
    intro node shardId named
    rw [ShardTable.servings, lookup_handleNodeFailure manager nonempty]
    cases found : manager.shards.lookup shardId with
    | none => exact Nat.zero_le 1
    | some shard =>
      exact
        (distinctly shardId shard found).distinctNodes nonempty listedOnce
          node named
  constructor
  · intro node shardId named served
    rw [lists]
    have isServed := (ShardTable.servings_pos_iff _).mpr served
    exact Nat.le_antisymm (atMostOnce node shardId named) isServed
  · intro node shardId named listed
    rw [← ShardTable.servings_pos_iff, ← lists]
    exact count_pos_iff.mpr listed

theorem Mirrored.ofStep {before after : ShardManager} {action : ShardAction}
    (mirrored : before.Mirrored)
    (step : Restrict ShardStep KeepsMirror before action after) :
    after.Mirrored := by
  obtain ⟨keeps, possible, rfl⟩ := step
  cases action with
  | start => exact mirrored.start keeps
  | assignShard shardId primaryNode followerNodes =>
    exact mirrored.assignShard keeps
  | rebalanceShards nodes => exact mirrored.rebalanceShards keeps
  | handleNodeFailure failedNode healthyNodes order =>
    exact mirrored.handleNodeFailure possible keeps

end Steps

end ShardManager

/--
In every state of a run whose operations keep the mirror, the map lists for every
node exactly the shards that it serves, each of them once.
-/
theorem mirrored_of_run {config : ShardConfig} {actions : List ShardAction}
    {manager : ShardManager}
    (run :
      Run (Restrict ShardStep ShardManager.KeepsMirror) (.new config) actions
        manager) :
    manager.Mirrored :=
  run.preserves (fun mirrored step => mirrored.ofStep step)
    (ShardManager.mirrored_new config)

def oneShard : ShardConfig where
  shardCount := 1
  replicationFactor := 2

def assignment : List ShardAction :=
  [.start, .assignShard 0 "a" ["b"]]

theorem run_assignment :
    Run (Restrict ShardStep ShardManager.KeepsMirror) (.new oneShard)
      assignment (assignment.foldl perform (.new oneShard)) := by
  refine .cons ⟨?_, trivial, rfl⟩ (.single ⟨?_, trivial, rfl⟩)
  · rintro node shardId _ _ ⟨shard, found, _⟩
    cases found
  · refine ⟨fun node _ => ?_, ?_, fun node _ _ => ?_⟩
    · exact nodup_iff_count_le_one.mp (by decide) node
    · rintro node named ⟨shard, found, isNode⟩
      cases found
      exact named (mem_singleton.mp isNode)
    · change (0 : UInt64) ∈ (new oneShard).start.shards
      rw [← AList.lookup_isSome]
      decide

/-- After the assignment the lists are right. -/
theorem assignment_is_mirrored :
    (assignment.foldl perform (.new oneShard)).Mirrored :=
  mirrored_of_run run_assignment

theorem rebalanced_shard_not_listed :
    ∃ manager,
      Run ShardStep (.new oneShard) [.start, .rebalanceShards ["a"]] manager ∧
        manager.getNodeShards "a" = [] ∧
          manager.shards.Serves "a" 0 ∧ ¬manager.Mirrored := by
  have served :
      ((new oneShard).start.rebalanceShards
        ["a"]).2.shards.Serves "a" 0 := by
    rw [ShardManager.serves_rebalanceShards_iff _ (cons_ne_nil _ _),
      if_pos (by decide), ← AList.lookup_isSome]
    exact ⟨by decide, 0, by decide, rfl⟩
  refine ⟨_, .cons ⟨trivial, rfl⟩ (.single ⟨trivial, rfl⟩), rfl, served,
    fun mirrored => ?_⟩
  have listed := mirrored.listedOnce (by decide) served
  exact absurd listed (by decide)

end ChronoDB.Distributed
