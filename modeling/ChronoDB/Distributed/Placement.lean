import ChronoDB.Distributed.Shard
import Mathlib.Data.Int.ModEq
import Mathlib.Data.List.GetD

namespace ChronoDB.Distributed

open Library List

/-!
# What the operations do to the table and to the map

The table is changed shard by shard, so looking up a shard after an operation
says everything about it.  Of the map it matters how often a node's list names
a shard.
-/

namespace ShardConfig

theorem mem_shardIds {config : ShardConfig} {shardId : UInt64} :
    shardId ∈ config.shardIds ↔ shardId < config.shardCount := by
  rw [shardIds, mem_map, UInt64.lt_iff_toNat_lt]
  constructor
  · rintro ⟨index, isIndex, rfl⟩
    have inRange := mem_range.mp isIndex
    rw [UInt64.toNat_ofNat_of_lt' (inRange.trans config.shardCount.toNat_lt)]
    exact inRange
  · intro less
    exact ⟨shardId.toNat, mem_range.mpr less, UInt64.ofNat_toNat⟩

theorem nodup_shardIds (config : ShardConfig) : config.shardIds.Nodup := by
  refine List.Nodup.map_on ?_ nodup_range
  intro first isFirst second isSecond same
  have inRange := mem_range.mp isFirst
  have otherInRange := mem_range.mp isSecond
  have sameNumber := congrArg UInt64.toNat same
  rwa [UInt64.toNat_ofNat_of_lt' (inRange.trans config.shardCount.toNat_lt),
    UInt64.toNat_ofNat_of_lt'
      (otherInRange.trans config.shardCount.toNat_lt)] at sameNumber

end ShardConfig

/-!
## The table
-/

namespace ShardTable

variable (shards : ShardTable)

theorem lookup_update
    (shardId : UInt64) (change : Shard → Shard) (key : UInt64) :
    (shards.update shardId change).lookup key =
      if key = shardId then (shards.lookup key).map change
      else shards.lookup key := by
  rw [update]
  by_cases same : key = shardId
  · subst same
    rw [if_pos rfl]
    cases found : shards.lookup key with
    | none => exact found
    | some shard => rw [AList.lookup_insert, Option.map_some]
  · rw [if_neg same]
    cases shards.lookup shardId with
    | none => rfl
    | some shard => exact AList.lookup_insert_ne same

theorem lookup_foldl_update
    (change : UInt64 → Shard → Shard) (shardIds : List UInt64) (key : UInt64) :
    (shardIds.foldl
        (fun shards shardId => shards.update shardId (change shardId))
        shards).lookup key =
      (shards.lookup key).map (change key)^[shardIds.count key] := by
  induction shardIds generalizing shards with
  | nil => rw [foldl_nil, count_nil, Function.iterate_zero, Option.map_id, id]
  | cons shardId rest inductionHypothesis =>
    rw [foldl_cons, inductionHypothesis, lookup_update]
    by_cases same : key = shardId
    · subst same
      rw [if_pos rfl, Option.map_map, count_cons_self, Function.iterate_succ]
    · rw [if_neg same, count_cons_of_ne (Ne.symm same)]

/-- A node is the primary or a follower of a shard. -/
def Serves (node : String) (shardId : UInt64) : Prop :=
  ∃ shard, shards.lookup shardId = some shard ∧ node ∈ shard.nodes

/-- How often a node is named among the nodes of a shard. -/
def servings (shardId : UInt64) (node : String) : ℕ :=
  (shards.lookup shardId).elim 0 fun shard => shard.nodes.count node

theorem servings_pos_iff {shardId : UInt64} {node : String} :
    0 < shards.servings shardId node ↔ shards.Serves node shardId := by
  rw [servings, Serves]
  cases shards.lookup shardId with
  | none => simp
  | some shard => simp [count_pos_iff]

end ShardTable

/-!
## The map
-/

namespace NodeShards

variable (nodeShards : NodeShards)

theorem lookup_foldl_push
    (shardId : UInt64) (nodes : List String) (node : String) :
    ((nodes.foldl (push shardId) nodeShards).lookup node).getD [] =
      (nodeShards.lookup node).getD [] ++
        List.replicate (nodes.count node) shardId := by
  induction nodes generalizing nodeShards with
  | nil => rw [foldl_nil, count_nil, replicate_zero, append_nil]
  | cons first rest inductionHypothesis =>
    rw [foldl_cons, inductionHypothesis, push]
    by_cases same : node = first
    · subst same
      rw [AList.lookup_insert, Option.getD_some, count_cons_self,
        replicate_succ, append_assoc, singleton_append]
    · rw [AList.lookup_insert_ne same, count_cons_of_ne (Ne.symm same)]

theorem lookup_pushShard
    (shards : ShardTable) (shardId : UInt64) (node : String) :
    ((pushShard shards nodeShards shardId).lookup node).getD [] =
      (nodeShards.lookup node).getD [] ++
        List.replicate (shards.servings shardId node) shardId := by
  rw [pushShard, ShardTable.servings]
  cases shards.lookup shardId with
  | none => rw [Option.elim_none, replicate_zero, append_nil]
  | some shard => exact lookup_foldl_push nodeShards shardId shard.nodes node

theorem lookup_foldl_pushShard
    (shards : ShardTable) (order : List UInt64) (node : String) :
    ((order.foldl (pushShard shards) nodeShards).lookup node).getD [] =
      (nodeShards.lookup node).getD [] ++
        order.flatMap fun shardId =>
          List.replicate (shards.servings shardId node) shardId := by
  induction order generalizing nodeShards with
  | nil => rw [foldl_nil, flatMap_nil, append_nil]
  | cons shardId rest inductionHypothesis =>
    rw [foldl_cons, inductionHypothesis, lookup_pushShard,
      flatMap_cons, append_assoc]

theorem count_flatMap_replicate
    {Item : Type} [DecidableEq Item] (times : Item → ℕ) {items : List Item}
    (distinct : items.Nodup) (item : Item) :
    (items.flatMap fun other => List.replicate (times other) other).count item =
      if item ∈ items then times item else 0 := by
  induction items with
  | nil => rfl
  | cons first rest inductionHypothesis =>
    obtain ⟨notInRest, restDistinct⟩ := nodup_cons.mp distinct
    rw [flatMap_cons, count_append, count_replicate,
      inductionHypothesis restDistinct]
    by_cases same : first = item
    · subst same
      rw [if_pos (beq_self_eq_true first), if_neg notInRest,
        if_pos mem_cons_self, Nat.add_zero]
    · have notBeq : ¬(first == item) = true := fun isBeq =>
        same (eq_of_beq isBeq)
      rw [if_neg notBeq, Nat.zero_add]
      simp only [mem_cons, Ne.symm same, false_or]

theorem count_foldl_pushShard {shards : ShardTable} {order : List UInt64}
    (isOrder : order.Perm shards.keys) (shardId : UInt64) (node : String) :
    (((order.foldl (pushShard shards) ∅).lookup node).getD []).count shardId =
      shards.servings shardId node := by
  have distinct : order.Nodup := isOrder.nodup_iff.mpr shards.keys_nodup
  rw [lookup_foldl_pushShard, AList.lookup_empty, Option.getD_none,
    nil_append, count_flatMap_replicate _ distinct]
  by_cases listed : shardId ∈ order
  · rw [if_pos listed]
  · have absent : shards.lookup shardId = none := by
      rw [AList.lookup_eq_none, AList.mem_keys, ← isOrder.mem_iff]
      exact listed
    rw [if_neg listed, ShardTable.servings, absent, Option.elim_none]

end NodeShards

/-!
## The operations
-/

namespace ShardManager

variable (manager : ShardManager)

theorem lookup_start (shardId : UInt64) :
    manager.start.shards.lookup shardId =
      if shardId < manager.config.shardCount then some (.unassigned shardId)
      else manager.shards.lookup shardId := by
  rw [start, FiniteMap.lookup_foldl_insert]
  simp only [ShardConfig.mem_shardIds]

theorem lookup_rebalanceShards
    {nodes : List String} (nonempty : nodes ≠ []) (shardId : UInt64) :
    (manager.rebalanceShards nodes).2.shards.lookup shardId =
      if shardId < manager.config.shardCount then
        (manager.shards.lookup shardId).map
          (manager.rebalanceShard nodes shardId)
      else manager.shards.lookup shardId := by
  rw [rebalanceShards, if_neg nonempty, ShardTable.lookup_foldl_update]
  by_cases below : shardId < manager.config.shardCount
  · have listedOnce :=
      count_eq_one_of_mem manager.config.nodup_shardIds
        (ShardConfig.mem_shardIds.mpr below)
    rw [if_pos below, listedOnce, Function.iterate_one]
  · have notListed :=
      count_eq_zero_of_not_mem (mt ShardConfig.mem_shardIds.mp below)
    rw [if_neg below, notListed, Function.iterate_zero, Option.map_id, id]

theorem lookup_handleNodeFailure
    {failedNode : String} {healthyNodes : List String}
    (nonempty : healthyNodes ≠ []) (order : List UInt64) (shardId : UInt64) :
    (manager.handleNodeFailure failedNode healthyNodes
        order).2.shards.lookup shardId =
      (manager.shards.lookup shardId).map
        (manager.failOverShard failedNode healthyNodes)^[
          (manager.getNodeShards failedNode).count shardId] := by
  rw [handleNodeFailure, if_neg nonempty]
  by_cases nothing : manager.getNodeShards failedNode = []
  · rw [if_pos nothing, nothing, count_nil, Function.iterate_zero,
      Option.map_id, id]
  · rw [if_neg nothing]
    exact
      ShardTable.lookup_foldl_update manager.shards
        (fun _ => manager.failOverShard failedNode healthyNodes) _ shardId

theorem getNodeShards_assignShard
    (shardId : UInt64) (primaryNode : String) (followerNodes : List String)
    (node : String) :
    (manager.assignShard shardId primaryNode followerNodes).getNodeShards node =
      manager.getNodeShards node ++
        List.replicate ((primaryNode :: followerNodes).count node) shardId :=
  NodeShards.lookup_foldl_push manager.nodeShards shardId _ node

@[simp] theorem config_perform (action : ShardAction) :
    (manager.perform action).config = manager.config := by
  cases action with
  | start => rfl
  | assignShard shardId primaryNode followerNodes => rfl
  | rebalanceShards nodes =>
    rw [perform, rebalanceShards]
    split <;> rfl
  | handleNodeFailure failedNode healthyNodes order =>
    rw [perform, handleNodeFailure]
    split
    · rfl
    · dsimp only
      split <;> rfl

theorem mem_shards_perform (action : ShardAction) (shardId : UInt64) :
    shardId ∈ (manager.perform action).shards ↔
      shardId ∈ manager.shards ∨
        action = .start ∧ shardId < manager.config.shardCount := by
  rw [← AList.lookup_isSome, ← AList.lookup_isSome]
  cases action with
  | start =>
    rw [perform, lookup_start]
    split_ifs with below
    · exact iff_of_true rfl (.inr ⟨rfl, below⟩)
    · exact (or_iff_left fun started => below started.2).symm
  | assignShard ownId primaryNode followerNodes =>
    rw [perform, assignShard, ShardTable.lookup_update]
    split_ifs <;> simp
  | rebalanceShards nodes =>
    rw [perform]
    by_cases nonempty : nodes = []
    · rw [rebalanceShards, if_pos nonempty]
      simp
    · rw [lookup_rebalanceShards manager nonempty]
      split_ifs <;> simp
  | handleNodeFailure failedNode healthyNodes order =>
    rw [perform]
    by_cases nonempty : healthyNodes = []
    · rw [handleNodeFailure, if_pos nonempty]
      simp
    · rw [lookup_handleNodeFailure manager nonempty]
      simp

/-- The manager holds exactly the shards below its count. -/
def HoldsShards (manager : ShardManager) : Prop :=
  ∀ shardId, shardId ∈ manager.shards ↔ shardId < manager.config.shardCount

theorem HoldsShards.perform
    {manager : ShardManager} (holds : manager.HoldsShards)
    (action : ShardAction) :
    (manager.perform action).HoldsShards := by
  intro shardId
  rw [mem_shards_perform, config_perform, holds shardId]
  exact or_iff_left_of_imp And.right

theorem holdsShards_of_run
    {config : ShardConfig} {actions : List ShardAction} {manager : ShardManager}
    (run : Run ShardStep (.new config) (.start :: actions) manager) :
    manager.HoldsShards := by
  cases run with
  | cons first later =>
    obtain ⟨_, rfl⟩ := first
    refine later.preserves ?_ ?_
    · rintro before action after holds ⟨_, rfl⟩
      exact holds.perform action
    · intro shardId
      rw [mem_shards_perform, config_perform]
      refine ⟨?_, fun below => .inr ⟨rfl, below⟩⟩
      rintro (absent | ⟨_, below⟩)
      · exact absurd absent (AList.notMem_empty _)
      · exact below

theorem count_getNodeShards_handleNodeFailure
    {failedNode : String} {healthyNodes : List String}
    (nonempty : healthyNodes ≠ [])
    (someShard : manager.getNodeShards failedNode ≠ []) {order : List UInt64}
    (isOrder : order.Perm manager.shards.keys) (node : String)
    (shardId : UInt64) :
    ((manager.handleNodeFailure failedNode healthyNodes
        order).2.getNodeShards node).count shardId =
      (manager.handleNodeFailure failedNode healthyNodes
        order).2.shards.servings shardId node := by
  have sameKeys :
      order.Perm
        (manager.handleNodeFailure failedNode healthyNodes
          order).2.shards.keys := by
    refine isOrder.trans ((perm_ext_iff_of_nodup
      manager.shards.keys_nodup (AList.keys_nodup _)).mpr fun other => ?_)
    have sameShards :=
      manager.mem_shards_perform
        (.handleNodeFailure failedNode healthyNodes order) other
    rw [← AList.mem_keys, ← AList.mem_keys]
    exact (sameShards.trans (or_iff_left fun started => nomatch started.1)).symm
  rw [handleNodeFailure, if_neg nonempty] at sameKeys ⊢
  dsimp only at sameKeys ⊢
  rw [if_neg someShard] at sameKeys ⊢
  exact NodeShards.count_foldl_pushShard sameKeys shardId node

theorem config_of_run
    {initial manager : ShardManager} {actions : List ShardAction}
    (run : Run ShardStep initial actions manager) :
    manager.config = initial.config := by
  refine
    @Run.preserves _ _ _ (fun state => state.config = initial.config)
      ?_ _ _ _ run rfl
  rintro before action after same ⟨_, rfl⟩
  rw [config_perform, same]

end ShardManager

/-!
## The nodes that a failover gives a shard
-/

def keptFollowers (failedNode : String) (shard : Shard) : List String :=
  shard.followerNodes.filter fun node => node ≠ failedNode

def candidates (healthyNodes : List String) (primaryNode : String) :
    List String :=
  healthyNodes.filter fun node => node ≠ primaryNode

theorem mem_candidates
    {healthyNodes : List String} {primaryNode node : String} :
    node ∈ candidates healthyNodes primaryNode ↔
      node ∈ healthyNodes ∧ node ≠ primaryNode := by
  rw [candidates, mem_filter, decide_eq_true_eq]

namespace ShardManager

variable (manager : ShardManager)

/-- The first of the healthy nodes with the fewest shards. -/
def IsLeastLoaded (healthyNodes : List String) (node : String) : Prop :=
  node ∈ healthyNodes ∧
    ∀ other ∈ healthyNodes,
      other ≠ node → PrefersTo manager.shardLoad healthyNodes node other

theorem isLeastLoaded_selectNewPrimary
    {healthyNodes : List String} (nonempty : healthyNodes ≠ []) :
    manager.IsLeastLoaded healthyNodes
      (selectNewPrimary manager.shardLoad healthyNodes) :=
  prefersTo_firstLeast manager.shardLoad "" nonempty

theorem selectNewFollowers_perm
    (primaryNode : String) (healthyNodes : List String) (count : ℕ) :
    (selectNewFollowers manager.shardLoad primaryNode healthyNodes count).Perm
      (leastItems manager.shardLoad count
        (candidates healthyNodes primaryNode)) :=
  take_sortByKey_perm manager.shardLoad count _

theorem failOverShard_of_primary {failedNode : String} {shard : Shard}
    (lostPrimary : shard.primaryNode = failedNode)
    (healthyNodes : List String) :
    manager.failOverShard failedNode healthyNodes shard =
      shard.assign (selectNewPrimary manager.shardLoad healthyNodes)
        (selectNewFollowers manager.shardLoad
          (selectNewPrimary manager.shardLoad healthyNodes) healthyNodes
          manager.config.followerCount) := by
  rw [failOverShard, if_pos lostPrimary]

theorem failOverShard_of_follower {failedNode : String} {shard : Shard}
    (keptPrimary : shard.primaryNode ≠ failedNode)
    (healthyNodes : List String) :
    manager.failOverShard failedNode healthyNodes shard =
      {
        shard with
        followerNodes :=
          keptFollowers failedNode shard ++
            selectNewFollowers manager.shardLoad shard.primaryNode
              healthyNodes
              (manager.config.followerCount -
                (keptFollowers failedNode shard).length)
      } := by
  rw [failOverShard, if_neg keptPrimary]
  dsimp only
  split
  · rfl
  · rename_i enough
    have noneMissing :
        manager.config.followerCount - (keptFollowers failedNode shard).length =
          0 :=
      Nat.sub_eq_zero_of_le (Nat.le_of_not_lt enough)
    rw [noneMissing, selectNewFollowers, take_zero, append_nil, keptFollowers]

end ShardManager

/-!
## The nodes that a rebalancing gives a shard
-/

section Rebalanced

variable (replicationFactor : ℕ) (nodes : List String) (shardId : UInt64)

/-- The number of nodes of a shard after a rebalancing. -/
def replicaCount : ℕ :=
  max 1 (min replicationFactor nodes.length)

theorem replicaCount_pos : 0 < replicaCount replicationFactor nodes :=
  Nat.lt_of_lt_of_le Nat.one_pos (Nat.le_max_left 1 _)

theorem rebalanced_eq :
    rebalancedPrimary nodes shardId ::
        rebalancedFollowers replicationFactor nodes shardId =
      (List.range (replicaCount replicationFactor nodes)).map fun i =>
        nodes.getD ((shardId.toNat + i) % nodes.length) "" := by
  have counts :
      replicaCount replicationFactor nodes =
        (min replicationFactor nodes.length - 1) + 1 := by
    rw [replicaCount]
    omega
  rw [counts, range_succ_eq_map, map_cons, map_map, rebalancedFollowers,
    range'_eq_map_range, map_map, rebalancedPrimary, Nat.add_zero]
  refine congrArg _ (map_congr_left fun i _ => ?_)
  simp only [Function.comp_apply, Nat.mod_add_mod, Nat.succ_eq_add_one,
    Nat.add_comm 1 i]

end Rebalanced

theorem nodup_rebalanced
    {replicationFactor : ℕ} {nodes : List String} (distinct : nodes.Nodup)
    (nonempty : nodes ≠ []) (shardId : UInt64) :
    ((List.range (replicaCount replicationFactor nodes)).map fun i =>
      nodes.getD ((shardId.toNat + i) % nodes.length) "").Nodup := by
  have someNode := length_pos_of_ne_nil nonempty
  have notMore : replicaCount replicationFactor nodes ≤ nodes.length := by
    rw [replicaCount]
    omega
  refine List.Nodup.map_on ?_ nodup_range
  intro first isFirst second isSecond same
  rw [mem_range] at isFirst isSecond
  rw [getD_eq_getElem _ _ (Nat.mod_lt _ someNode), getD_eq_getElem _ _
    (Nat.mod_lt _ someNode), distinct.getElem_inj_iff] at same
  have congruent : Nat.ModEq nodes.length first second :=
    Nat.ModEq.add_left_cancel' shardId.toNat same
  exact
    congruent.eq_of_lt_of_lt (isFirst.trans_le notMore)
      (isSecond.trans_le notMore)

theorem mem_of_mem_rebalanced
    {replicationFactor : ℕ} {nodes : List String} (nonempty : nodes ≠ [])
    {shardId : UInt64} {node : String}
    (isNode :
      node ∈
        (List.range (replicaCount replicationFactor nodes)).map fun i =>
          nodes.getD ((shardId.toNat + i) % nodes.length) "") :
    node ∈ nodes := by
  obtain ⟨i, _, rfl⟩ := mem_map.mp isNode
  rw [getD_eq_getElem _ _ (Nat.mod_lt _ (length_pos_of_ne_nil nonempty))]
  exact getElem_mem _

end ChronoDB.Distributed
