import ChronoDB.Distributed.Placement

namespace ChronoDB.Distributed

open Library List ShardManager

/-!
# Valid placements

A shard should be on distinct nodes, as many as the replication factor asks for
or as there are, and on none that failed.  What failed and what was available is
not part of the manager, so runs keep track of it beside the manager.
-/

/-- The shard was assigned since the last start. -/
def Shard.Assigned (shard : Shard) : Prop :=
  shard.status = .healthy

namespace ShardAction

/-- Distinct nodes are given, and a failed node is not among the healthy ones. -/
def Distinct : ShardAction → Prop
  | .start => True
  | .assignShard _ primaryNode followerNodes =>
    (primaryNode :: followerNodes).Nodup
  | .rebalanceShards nodes => nodes.Nodup
  | .handleNodeFailure failedNode healthyNodes _ =>
    healthyNodes.Nodup ∧ failedNode ∉ healthyNodes

/-- The nodes that were reported failed and not listed healthy since. -/
def stillFailed (failed : List String) : ShardAction → List String
  | .rebalanceShards nodes =>
    failed.filter fun node => node ∉ nodes
  | .handleNodeFailure failedNode healthyNodes _ =>
    failedNode :: failed.filter fun node => node ∉ healthyNodes
  | _ => failed

/-- The number of nodes that a rebalancing or a failover can use. -/
def available : ShardAction → Option ℕ
  | .rebalanceShards nodes => if nodes = [] then none else some nodes.length
  | .handleNodeFailure _ healthyNodes _ =>
    if healthyNodes = [] then none else some healthyNodes.length
  | _ => none

/-- The operation takes one from a replication factor of zero. -/
def Underflows (manager : ShardManager) : ShardAction → Prop
  | .handleNodeFailure failedNode healthyNodes _ =>
    manager.Underflows failedNode healthyNodes
  | _ => False

end ShardAction

/-- A manager, with what its run was told about the nodes. -/
structure TrackedManager where
  manager : ShardManager
  failed : List String
  available : Option ℕ
  underflowed : Prop

namespace TrackedManager

def new (config : ShardConfig) : TrackedManager where
  manager := .new config
  failed := []
  available := none
  underflowed := False

def track (tracked : TrackedManager) (action : ShardAction) :
    TrackedManager where
  manager := tracked.manager.perform action
  failed := action.stillFailed tracked.failed
  available := action.available
  underflowed := tracked.underflowed ∨ action.Underflows tracked.manager

def replicationFactor (tracked : TrackedManager) : ℕ :=
  tracked.manager.config.replicationFactor.toNat

/--
The primary and the followers are distinct and have not failed, and after a
rebalancing or a failover they are as many as they should be.
-/
structure PlacesValidly (tracked : TrackedManager) (shard : Shard) :
    Prop where
  distinct : shard.nodes.Nodup
  working : ∀ node ∈ shard.nodes, node ∉ tracked.failed
  replicas :
    ∀ available,
      tracked.available = some available →
        shard.nodes.length = min tracked.replicationFactor available

/-- Every assigned shard is placed validly, and no operation underflowed. -/
structure Valid (tracked : TrackedManager) : Prop where
  shards :
    ∀ {shardId shard},
      tracked.manager.shards.lookup shardId = some shard →
        shard.Assigned → tracked.PlacesValidly shard
  noUnderflow : ¬tracked.underflowed

end TrackedManager

def TrackedStep
    (before : TrackedManager) (action : ShardAction) (after : TrackedManager) :
    Prop :=
  action.Distinct ∧ before.manager.Possible action ∧ before.track action = after

/-!
## What keeps a placement valid
-/

namespace ShardManager

def missingFollowers
    (manager : ShardManager) (failedNode : String) (shard : Shard) :
    ℕ :=
  manager.config.followerCount - (keptFollowers failedNode shard).length

/--
The failover of a node leaves a shard valid.  A shard that is listed twice for
the node goes through the loop twice, and must not get its nodes twice then.
-/
structure FailsOverValidly
    (manager : ShardManager) (failedNode : String) (healthyNodes : List String)
    (shardId : UInt64) (shard : Shard) :
    Prop where
  unlisted :
    shardId ∉ manager.getNodeShards failedNode →
      shard.Assigned →
        failedNode ∉ shard.nodes ∧
          shard.nodes.length =
            min manager.config.replicationFactor.toNat healthyNodes.length
  primary :
    shardId ∈ manager.getNodeShards failedNode →
      shard.primaryNode = failedNode →
        (manager.getNodeShards failedNode).count shardId = 1 ∨
          manager.config.replicationFactor.toNat ≤ healthyNodes.length ∨
            healthyNodes.length = 1
  fresh :
    shardId ∈ manager.getNodeShards failedNode →
      shard.primaryNode ≠ failedNode →
        shard.Assigned →
          ∀ node ∈ keptFollowers failedNode shard,
            node ∈ candidates healthyNodes shard.primaryNode →
              manager.missingFollowers failedNode shard ≤
                (candidates healthyNodes shard.primaryNode).countP
                  fun other =>
                    PrefersTo manager.shardLoad
                      (candidates healthyNodes shard.primaryNode) other node
  replicas :
    shardId ∈ manager.getNodeShards failedNode →
      shard.primaryNode ≠ failedNode →
        shard.Assigned →
          1 + (keptFollowers failedNode shard).length +
              min (manager.missingFollowers failedNode shard)
                (candidates healthyNodes shard.primaryNode).length =
            min manager.config.replicationFactor.toNat healthyNodes.length
  again :
    shardId ∈ manager.getNodeShards failedNode →
      shard.primaryNode ≠ failedNode →
        shard.Assigned →
          (manager.getNodeShards failedNode).count shardId = 1 ∨
            manager.missingFollowers failedNode shard ≤
              (candidates healthyNodes shard.primaryNode).length ∨
              candidates healthyNodes shard.primaryNode = []

end ShardManager

/-- The operation leaves a valid placement valid. -/
def TrackedManager.KeepsValid (tracked : TrackedManager) :
    ShardAction → Prop
  | .start => True
  | .assignShard shardId primaryNode followerNodes =>
    shardId ∈ tracked.manager.shards →
      ∀ node ∈ primaryNode :: followerNodes, node ∉ tracked.failed
  | .rebalanceShards nodes =>
    nodes = [] ∨ tracked.replicationFactor ≠ 0 ∨
      ∀ shardId, shardId ∉ tracked.manager.shards
  | .handleNodeFailure failedNode healthyNodes _ =>
    (healthyNodes = [] →
      ∀ shardId shard,
        tracked.manager.shards.lookup shardId = some shard →
          shard.Assigned → failedNode ∉ shard.nodes) ∧
      (healthyNodes ≠ [] →
        (tracked.replicationFactor ≠ 0 ∨
          ∀ shardId ∈ tracked.manager.getNodeShards failedNode,
            shardId ∉ tracked.manager.shards) ∧
          ∀ shardId shard,
            tracked.manager.shards.lookup shardId = some shard →
              tracked.manager.FailsOverValidly failedNode healthyNodes
                shardId shard)

/-!
## New nodes
-/

section NewNodes

variable {load : String → ℕ} {healthyNodes : List String}

theorem nodup_selectNewFollowers
    (distinct : healthyNodes.Nodup) (primaryNode : String) (count : ℕ) :
    (selectNewFollowers load primaryNode healthyNodes count).Nodup := by
  have sorted :=
    (sortByKey_perm load (candidates healthyNodes primaryNode)).nodup_iff.mpr
      (distinct.filter _)
  exact sorted.sublist (take_sublist _ _)

theorem length_selectNewFollowers (primaryNode : String) (count : ℕ) :
    (selectNewFollowers load primaryNode healthyNodes count).length =
      min count (candidates healthyNodes primaryNode).length := by
  rw [selectNewFollowers, length_take, length_sortByKey, candidates]

theorem mem_selectNewFollowers_iff
    (distinct : healthyNodes.Nodup) {primaryNode : String} {count : ℕ}
    {node : String} :
    node ∈ selectNewFollowers load primaryNode healthyNodes count ↔
      node ∈ candidates healthyNodes primaryNode ∧
        ((candidates healthyNodes primaryNode).countP fun other =>
            PrefersTo load (candidates healthyNodes primaryNode) other node) <
          count :=
  mem_take_sortByKey_iff load (distinct.filter _) count

theorem mem_candidates_of_mem_selectNewFollowers
    {primaryNode : String} {count : ℕ} {node : String}
    (isNew :
      node ∈ selectNewFollowers load primaryNode healthyNodes count) :
    node ∈ candidates healthyNodes primaryNode :=
  (mem_sortByKey load).mp (mem_of_mem_take isNew)

theorem length_candidates_add_one
    (distinct : healthyNodes.Nodup) {primaryNode : String}
    (isHealthy : primaryNode ∈ healthyNodes) :
    (candidates healthyNodes primaryNode).length + 1 = healthyNodes.length := by
  have erased : candidates healthyNodes primaryNode =
      healthyNodes.erase primaryNode := by
    rw [distinct.erase_eq_filter, candidates]
    refine filter_congr fun node _ => ?_
    rw [Bool.eq_iff_iff, decide_eq_true_eq, bne_iff_ne]
  rw [erased, length_erase_of_mem isHealthy]
  exact Nat.sub_add_cancel (length_pos_of_mem isHealthy)

end NewNodes

/-!
## Going through the loop again
-/

theorem iterate_eq_of_settled
    {State : Type} {turn : State → State} {initial : State} {count : ℕ}
    (someTurn : count ≠ 0)
    (settled : count = 1 ∨ turn (turn initial) = turn initial) :
    turn^[count] initial = turn initial := by
  obtain ⟨more, rfl⟩ := Nat.exists_eq_succ_of_ne_zero someTurn
  rw [Function.iterate_succ_apply]
  rcases settled with once | fixed
  · rw [Nat.succ_injective once, Function.iterate_zero, id]
  · exact Function.iterate_fixed fixed more

namespace ShardManager

variable {manager : ShardManager}

theorem followerCount_add_one
    {config : ShardConfig} (positive : config.replicationFactor.toNat ≠ 0) :
    config.followerCount + 1 = config.replicationFactor.toNat := by
  have notZero : config.replicationFactor ≠ 0 := fun isZero =>
    positive (congrArg UInt32.toNat isZero)
  rw [ShardConfig.followerCount, if_neg notZero]
  exact Nat.sub_add_cancel (Nat.pos_of_ne_zero positive)

theorem failOverShard_eq_self
    {failedNode : String} {healthyNodes : List String} {shard : Shard}
    (otherPrimary : shard.primaryNode ≠ failedNode)
    (noFollower : failedNode ∉ shard.followerNodes)
    (complete :
      manager.config.followerCount ≤ shard.followerNodes.length ∨
        candidates healthyNodes shard.primaryNode = []) :
    manager.failOverShard failedNode healthyNodes shard = shard := by
  have allKept : keptFollowers failedNode shard = shard.followerNodes := by
    refine filter_eq_self.mpr fun node isFollower => ?_
    exact decide_eq_true fun same => noFollower (same ▸ isFollower)
  have noneNew :
      selectNewFollowers manager.shardLoad shard.primaryNode healthyNodes
          (manager.config.followerCount - shard.followerNodes.length) =
        [] := by
    rw [← length_eq_zero_iff, length_selectNewFollowers]
    rcases complete with enough | noCandidate
    · rw [Nat.sub_eq_zero_of_le enough, Nat.zero_min]
    · rw [noCandidate, length_nil, Nat.min_zero]
  rw [failOverShard_of_follower _ otherPrimary, allKept, noneNew, append_nil]

theorem status_iterate_failOverShard
    {failedNode : String} {healthyNodes : List String} {shard : Shard}
    (keptPrimary : shard.primaryNode ≠ failedNode) (count : ℕ) :
    ((manager.failOverShard failedNode healthyNodes)^[count] shard).status =
      shard.status := by
  induction count generalizing shard with
  | zero => rfl
  | succ count inductionHypothesis =>
    rw [Function.iterate_succ_apply, failOverShard_of_follower _ keptPrimary]
    exact inductionHypothesis keptPrimary

/-!
## Shards after a failover
-/

section AfterFailover

variable {failedNode : String} {healthyNodes : List String}
variable {shardId : UInt64} {shard : Shard}

theorem nodes_failOverShard_of_primary
    (distinct : healthyNodes.Nodup) (nonempty : healthyNodes ≠ [])
    (positive : manager.config.replicationFactor.toNat ≠ 0)
    (lostPrimary : shard.primaryNode = failedNode) :
    (manager.failOverShard failedNode healthyNodes shard).nodes.Nodup ∧
      (∀ node ∈ (manager.failOverShard failedNode healthyNodes shard).nodes,
        node ∈ healthyNodes) ∧
      (manager.failOverShard failedNode healthyNodes shard).nodes.length =
        min manager.config.replicationFactor.toNat healthyNodes.length := by
  obtain ⟨isHealthy, _⟩ := manager.isLeastLoaded_selectNewPrimary nonempty
  have others := length_candidates_add_one distinct isHealthy
  have followers := followerCount_add_one positive
  rw [failOverShard_of_primary _ lostPrimary, Shard.nodes, Shard.assign]
  dsimp only
  refine ⟨nodup_cons.mpr
    ⟨fun isFollower => ?_, nodup_selectNewFollowers distinct _ _⟩,
    fun node isNode => ?_, ?_⟩
  · exact
      (mem_candidates.mp
        (mem_candidates_of_mem_selectNewFollowers isFollower)).2 rfl
  · rcases mem_cons.mp isNode with rfl | isFollower
    · exact isHealthy
    · exact
        (mem_candidates.mp
          (mem_candidates_of_mem_selectNewFollowers isFollower)).1
  · rw [length_cons, length_selectNewFollowers]
    omega

theorem failOverShard_again_of_primary
    (distinct : healthyNodes.Nodup) (nonempty : healthyNodes ≠ [])
    (notHealthy : failedNode ∉ healthyNodes)
    (positive : manager.config.replicationFactor.toNat ≠ 0)
    (lostPrimary : shard.primaryNode = failedNode)
    (settled :
      manager.config.replicationFactor.toNat ≤ healthyNodes.length ∨
        healthyNodes.length = 1) :
    manager.failOverShard failedNode healthyNodes
        (manager.failOverShard failedNode healthyNodes shard) =
      manager.failOverShard failedNode healthyNodes shard := by
  obtain ⟨isHealthy, _⟩ := manager.isLeastLoaded_selectNewPrimary nonempty
  have others := length_candidates_add_one distinct isHealthy
  have followers := followerCount_add_one positive
  rw [failOverShard_of_primary _ lostPrimary]
  apply failOverShard_eq_self
  · intro same
    rw [Shard.assign] at same
    exact notHealthy (same ▸ isHealthy)
  · intro isFollower
    exact notHealthy
      (mem_candidates.mp
        (mem_candidates_of_mem_selectNewFollowers isFollower)).1
  · rw [Shard.assign]
    dsimp only
    rw [length_selectNewFollowers, ← length_eq_zero_iff]
    omega

theorem nodes_failOverShard_of_follower
    (distinct : healthyNodes.Nodup) (shardDistinct : shard.nodes.Nodup)
    (keptPrimary : shard.primaryNode ≠ failedNode)
    (fresh :
      ∀ node ∈ keptFollowers failedNode shard,
        node ∈ candidates healthyNodes shard.primaryNode →
          manager.missingFollowers failedNode shard ≤
            (candidates healthyNodes shard.primaryNode).countP fun other =>
              PrefersTo manager.shardLoad
                (candidates healthyNodes shard.primaryNode) other node) :
    (manager.failOverShard failedNode healthyNodes shard).nodes.Nodup := by
  obtain ⟨notFollower, followersDistinct⟩ := nodup_cons.mp shardDistinct
  rw [failOverShard_of_follower _ keptPrimary, Shard.nodes]
  dsimp only
  refine nodup_cons.mpr ⟨fun isNode => ?_,
    nodup_append.mpr ⟨followersDistinct.filter _,
      nodup_selectNewFollowers distinct _ _, fun kept isKept new isNew => ?_⟩⟩
  · rcases mem_append.mp isNode with isKept | isNew
    · exact notFollower (mem_of_mem_filter isKept)
    · exact
        (mem_candidates.mp
          (mem_candidates_of_mem_selectNewFollowers isNew)).2 rfl
  · rintro rfl
    obtain ⟨isCandidate, few⟩ := (mem_selectNewFollowers_iff distinct).mp isNew
    exact absurd few (Nat.not_lt_of_le (fresh kept isKept isCandidate))

theorem mem_nodes_failOverShard_of_follower
    (keptPrimary : shard.primaryNode ≠ failedNode) {node : String}
    (isNode :
      node ∈ (manager.failOverShard failedNode healthyNodes shard).nodes) :
    node ∈ shard.nodes ∧ node ≠ failedNode ∨ node ∈ healthyNodes := by
  rw [failOverShard_of_follower _ keptPrimary, Shard.nodes] at isNode
  dsimp only at isNode
  rcases mem_cons.mp isNode with rfl | isFollower
  · exact .inl ⟨mem_cons_self, keptPrimary⟩
  · rcases mem_append.mp isFollower with isKept | isNew
    · obtain ⟨isFollower, differs⟩ := mem_filter.mp isKept
      exact .inl ⟨mem_cons_of_mem _ isFollower, of_decide_eq_true differs⟩
    · exact .inr
        (mem_candidates.mp (mem_candidates_of_mem_selectNewFollowers isNew)).1

theorem length_nodes_failOverShard_of_follower
    (keptPrimary : shard.primaryNode ≠ failedNode) :
    (manager.failOverShard failedNode healthyNodes shard).nodes.length =
      1 + (keptFollowers failedNode shard).length +
        min (manager.missingFollowers failedNode shard)
          (candidates healthyNodes shard.primaryNode).length := by
  rw [failOverShard_of_follower _ keptPrimary, Shard.nodes, length_cons,
    length_append, length_selectNewFollowers, missingFollowers]
  omega

theorem failOverShard_again_of_follower (notHealthy : failedNode ∉ healthyNodes)
    (keptPrimary : shard.primaryNode ≠ failedNode)
    (settled :
      manager.missingFollowers failedNode shard ≤
          (candidates healthyNodes shard.primaryNode).length ∨
        candidates healthyNodes shard.primaryNode = []) :
    manager.failOverShard failedNode healthyNodes
        (manager.failOverShard failedNode healthyNodes shard) =
      manager.failOverShard failedNode healthyNodes shard := by
  rw [failOverShard_of_follower _ keptPrimary]
  apply failOverShard_eq_self
  · exact keptPrimary
  · intro isFollower
    rcases mem_append.mp isFollower with isKept | isNew
    · exact of_decide_eq_true (mem_filter.mp isKept).2 rfl
    · exact notHealthy
        (mem_candidates.mp (mem_candidates_of_mem_selectNewFollowers isNew)).1
  · refine settled.imp_left fun enough => ?_
    rw [missingFollowers] at enough
    rw [length_append, length_selectNewFollowers]
    omega

end AfterFailover

end ShardManager

/-!
## Steps
-/

namespace TrackedManager

variable {tracked : TrackedManager}

@[simp] theorem replicationFactor_track (action : ShardAction) :
    (tracked.track action).replicationFactor = tracked.replicationFactor := by
  rw [replicationFactor, replicationFactor, track, config_perform]

def Bounded (tracked : TrackedManager) : Prop :=
  ∀ shardId ∈ tracked.manager.shards,
    shardId < tracked.manager.config.shardCount

theorem Bounded.track (bounded : tracked.Bounded) (action : ShardAction) :
    (tracked.track action).Bounded := by
  intro shardId present
  rw [TrackedManager.track, ShardManager.mem_shards_perform] at present
  rw [TrackedManager.track, config_perform]
  exact present.elim (bounded shardId) And.right

section Failure

variable {failedNode : String} {healthyNodes : List String}
variable {order : List UInt64}

theorem not_mem_stillFailed
    (notHealthy : failedNode ∉ healthyNodes) {node : String}
    (works :
      node ∉ tracked.failed ∧ node ≠ failedNode ∨ node ∈ healthyNodes) :
    node ∉
      ShardAction.stillFailed tracked.failed
        (.handleNodeFailure failedNode healthyNodes order) := by
  rw [ShardAction.stillFailed, mem_cons, mem_filter]
  rintro (rfl | ⟨failed, notListed⟩)
  · rcases works with ⟨_, differs⟩ | isHealthy
    · exact differs rfl
    · exact notHealthy isHealthy
  · rcases works with ⟨notFailed, _⟩ | isHealthy
    · exact notFailed failed
    · exact of_decide_eq_true notListed isHealthy

/-- A shard is placed validly again after the failover of a node. -/
theorem placesValidly_of_failover
    (distinct : healthyNodes.Nodup) (notHealthy : failedNode ∉ healthyNodes)
    (nonempty : healthyNodes ≠ []) {shardId : UInt64} {shard after : Shard}
    (positive :
      shardId ∈ tracked.manager.getNodeShards failedNode →
        tracked.replicationFactor ≠ 0)
    (failsOver :
      tracked.manager.FailsOverValidly failedNode healthyNodes shardId shard)
    (places : shard.Assigned → tracked.PlacesValidly shard)
    (isAfter :
      (tracked.manager.failOverShard failedNode healthyNodes)^[
        (tracked.manager.getNodeShards failedNode).count shardId] shard =
        after)
    (assigned : after.Assigned) :
    (tracked.track
        (.handleNodeFailure failedNode healthyNodes order)).PlacesValidly
      after := by
  have isAvailable :
      (tracked.track
          (.handleNodeFailure failedNode healthyNodes order)).available =
        some healthyNodes.length :=
    if_neg nonempty
  suffices valid :
      after.nodes.Nodup ∧
        (∀ node ∈ after.nodes,
          node ∉ tracked.failed ∧ node ≠ failedNode ∨ node ∈ healthyNodes) ∧
        after.nodes.length =
          min tracked.replicationFactor healthyNodes.length by
    refine ⟨valid.1, fun node isNode => ?_, fun available isNumber => ?_⟩
    · exact
        @not_mem_stillFailed tracked failedNode healthyNodes order notHealthy
          node (valid.2.1 node isNode)
    · rw [isAvailable] at isNumber
      cases isNumber
      rw [replicationFactor_track]
      exact valid.2.2
  by_cases listed : shardId ∈ tracked.manager.getNodeShards failedNode
  · have someTurn := Nat.ne_of_gt (count_pos_iff.mpr listed)
    by_cases lostPrimary : shard.primaryNode = failedNode
    · rw [iterate_eq_of_settled someTurn
        ((failsOver.primary listed lostPrimary).imp_right
          (ShardManager.failOverShard_again_of_primary distinct nonempty
            notHealthy (positive listed) lostPrimary))] at isAfter
      subst isAfter
      obtain ⟨nodesDistinct, areHealthy, number⟩ :=
        ShardManager.nodes_failOverShard_of_primary distinct nonempty
          (positive listed) lostPrimary
      exact ⟨nodesDistinct, fun node isNode => .inr (areHealthy node isNode),
        number⟩
    · have wasAssigned : shard.Assigned := by
        rw [Shard.Assigned, ← isAfter,
          ShardManager.status_iterate_failOverShard lostPrimary] at assigned
        exact assigned
      have placed := places wasAssigned
      rw [iterate_eq_of_settled someTurn
        ((failsOver.again listed lostPrimary wasAssigned).imp_right
          (ShardManager.failOverShard_again_of_follower notHealthy
            lostPrimary))] at isAfter
      subst isAfter
      refine ⟨?_, fun node isNode => ?_, ?_⟩
      · exact
          ShardManager.nodes_failOverShard_of_follower distinct
            placed.distinct lostPrimary
            (failsOver.fresh listed lostPrimary wasAssigned)
      · refine
          (ShardManager.mem_nodes_failOverShard_of_follower lostPrimary
            isNode).imp_left fun kept => ?_
        exact ⟨placed.working node kept.1, kept.2⟩
      · exact
          (ShardManager.length_nodes_failOverShard_of_follower
            lostPrimary).trans
            (failsOver.replicas listed lostPrimary wasAssigned)
  · rw [count_eq_zero_of_not_mem listed, Function.iterate_zero, id]
      at isAfter
    subst isAfter
    obtain ⟨notServed, number⟩ := failsOver.unlisted listed assigned
    have placed := places assigned
    refine ⟨placed.distinct, fun node isNode => .inl ⟨?_, ?_⟩, number⟩
    · exact placed.working node isNode
    · rintro rfl
      exact notServed isNode

theorem Valid.handleNodeFailure
    (valid : tracked.Valid) (distinct : healthyNodes.Nodup)
    (notHealthy : failedNode ∉ healthyNodes)
    (keeps :
      tracked.KeepsValid (.handleNodeFailure failedNode healthyNodes order)) :
    (tracked.track
      (.handleNodeFailure failedNode healthyNodes order)).Valid := by
  obtain ⟨noneHealthy, someHealthy⟩ := keeps
  by_cases nonempty : healthyNodes = []
  · have unchanged :
        tracked.manager.perform
            (.handleNodeFailure failedNode healthyNodes order) =
          tracked.manager := by
      rw [perform, ShardManager.handleNodeFailure, if_pos nonempty]
    constructor
    · intro shardId shard found assigned
      rw [track, unchanged] at found
      have placed := valid.shards found assigned
      refine ⟨placed.distinct, fun node isNode => ?_, fun available isNumber
        => ?_⟩
      · refine @not_mem_stillFailed tracked failedNode healthyNodes order
          notHealthy node (.inl ⟨placed.working node isNode, ?_⟩)
        rintro rfl
        exact noneHealthy nonempty shardId shard found assigned isNode
      · rw [track, ShardAction.available, if_pos nonempty] at isNumber
        cases isNumber
    · rintro (underflowed | ⟨_, someNode, _⟩)
      · exact valid.noUnderflow underflowed
      · exact someNode nonempty
  · obtain ⟨positive, failsOver⟩ := someHealthy nonempty
    constructor
    · intro shardId after found assigned
      rw [track, perform, ShardManager.lookup_handleNodeFailure _
        nonempty, Option.map_eq_some_iff] at found
      obtain ⟨shard, wasFound, isAfter⟩ := found
      refine placesValidly_of_failover distinct notHealthy nonempty
        (fun listed => ?_) (failsOver shardId shard wasFound)
        (valid.shards wasFound) isAfter assigned
      refine positive.resolve_right fun none => none shardId listed ?_
      exact FiniteMap.mem_of_lookup wasFound
    · rintro (underflowed | ⟨isZero, _, shardId, listed, present⟩)
      · exact valid.noUnderflow underflowed
      · rcases positive with positive | none
        · exact positive (congrArg UInt32.toNat isZero)
        · exact none shardId listed present

end Failure

theorem Valid.start (valid : tracked.Valid) (bounded : tracked.Bounded) :
    (tracked.track .start).Valid := by
  constructor
  · intro shardId shard found assigned
    rw [track, perform, ShardManager.lookup_start] at found
    split_ifs at found with below
    · cases found
      cases assigned
    · exact absurd (bounded shardId (FiniteMap.mem_of_lookup found)) below
  · exact fun underflowed => underflowed.elim valid.noUnderflow id

theorem Valid.assignShard
    (valid : tracked.Valid) {ownId : UInt64} {primaryNode : String}
    {followerNodes : List String}
    (distinct : (primaryNode :: followerNodes).Nodup)
    (work :
      tracked.KeepsValid (.assignShard ownId primaryNode followerNodes)) :
    (tracked.track (.assignShard ownId primaryNode followerNodes)).Valid := by
  constructor
  · intro shardId shard found assigned
    rw [track, perform, ShardManager.assignShard,
      ShardTable.lookup_update] at found
    split_ifs at found with same
    · obtain ⟨before, wasFound, rfl⟩ := Option.map_eq_some_iff.mp found
      refine ⟨distinct, ?_, fun available isNumber => by cases isNumber⟩
      exact work (same ▸ FiniteMap.mem_of_lookup wasFound)
    · have placed := valid.shards found assigned
      exact ⟨placed.distinct, placed.working, fun available isNumber =>
        by cases isNumber⟩
  · exact fun underflowed => underflowed.elim valid.noUnderflow id

theorem Valid.rebalanceShards
    (valid : tracked.Valid) (bounded : tracked.Bounded) {nodes : List String}
    (distinct : nodes.Nodup)
    (keeps : tracked.KeepsValid (.rebalanceShards nodes)) :
    (tracked.track (.rebalanceShards nodes)).Valid := by
  refine ⟨?_, fun underflowed => underflowed.elim valid.noUnderflow id⟩
  intro shardId shard found assigned
  by_cases nonempty : nodes = []
  · subst nonempty
    have placed := valid.shards found assigned
    refine ⟨placed.distinct, fun node isNode failed => ?_,
      fun available isNumber => by cases isNumber⟩
    exact placed.working node isNode (mem_of_mem_filter failed)
  rw [track, perform,
    ShardManager.lookup_rebalanceShards _ nonempty] at found
  split_ifs at found with below
  · obtain ⟨before, wasFound, rfl⟩ := Option.map_eq_some_iff.mp found
    have present := FiniteMap.mem_of_lookup wasFound
    have positive : tracked.replicationFactor ≠ 0 :=
      (keeps.resolve_left nonempty).resolve_right fun none =>
        none shardId present
    have isRebalanced :
        (tracked.manager.rebalanceShard nodes shardId before).nodes = _ :=
      rebalanced_eq tracked.replicationFactor nodes shardId
    refine ⟨?_, fun node isNode failed => ?_, fun available isNumber => ?_⟩
    · rw [isRebalanced]
      exact nodup_rebalanced distinct nonempty shardId
    · have isListed : node ∈ nodes := by
        rw [isRebalanced] at isNode
        exact mem_of_mem_rebalanced nonempty isNode
      exact of_decide_eq_true (mem_filter.mp failed).2 isListed
    · rw [track, ShardAction.available, if_neg nonempty] at isNumber
      cases isNumber
      rw [isRebalanced, length_map, length_range, replicaCount,
        replicationFactor_track]
      have someNode := length_pos_of_ne_nil nonempty
      omega
  · exact absurd (bounded shardId (FiniteMap.mem_of_lookup found)) below

theorem Valid.ofStep {before after : TrackedManager} {action : ShardAction}
    (holds : before.Bounded ∧ before.Valid)
    (step : Restrict TrackedStep KeepsValid before action after) :
    after.Bounded ∧ after.Valid := by
  obtain ⟨bounded, valid⟩ := holds
  obtain ⟨keeps, distinct, _, rfl⟩ := step
  refine ⟨bounded.track action, ?_⟩
  cases action with
  | start => exact valid.start bounded
  | assignShard shardId primaryNode followerNodes =>
    exact valid.assignShard distinct keeps
  | rebalanceShards nodes => exact valid.rebalanceShards bounded distinct keeps
  | handleNodeFailure failedNode healthyNodes order =>
    exact valid.handleNodeFailure distinct.1 distinct.2 keeps

end TrackedManager

/--
In every state of a run whose operations keep the placement valid, every assigned
shard is on distinct nodes that have not failed, as many as it should be on after
a rebalancing or a failover, and no operation has underflowed.
-/
theorem valid_of_run {config : ShardConfig} {actions : List ShardAction}
    {tracked : TrackedManager}
    (run :
      Run (Restrict TrackedStep TrackedManager.KeepsValid) (.new config)
        actions tracked) :
    tracked.Valid := by
  have initially :
      (TrackedManager.new config).Bounded ∧
        (TrackedManager.new config).Valid := by
    refine ⟨fun shardId present => ?_, ⟨fun found _ => ?_, id⟩⟩
    · exact absurd present (AList.notMem_empty _)
    · cases found
  exact
    (run.preserves
      (fun holds step => TrackedManager.Valid.ofStep holds step)
      initially).2

def twoReplicas : ShardConfig where
  shardCount := 1
  replicationFactor := 2

/-- A start and a rebalancing over two nodes. -/
def rebalancing : List ShardAction :=
  [.start, .rebalanceShards ["a", "b"]]

theorem rebalancing_is_valid :
    (rebalancing.foldl TrackedManager.track (.new twoReplicas)).Valid := by
  refine
    @valid_of_run twoReplicas rebalancing _
      (.cons ⟨trivial, trivial, trivial, rfl⟩
        (.single ⟨.inr (.inl ?_), ?_, trivial, rfl⟩))
  · decide
  · change ["a", "b"].Nodup
    decide

theorem failed_follower_stays :
    ∃ tracked,
      Run TrackedStep (.new twoReplicas)
          (rebalancing ++ [.handleNodeFailure "b" ["a"] [0]]) tracked ∧
        ¬tracked.Valid := by
  have possible :
      [0].Perm
        (rebalancing.foldl perform
          (.new twoReplicas)).shards.keys := by
    decide
  refine ⟨_, .cons ⟨trivial, trivial, rfl⟩
    (.cons ⟨?_, trivial, rfl⟩ (.single ⟨?_, possible, rfl⟩)), fun valid => ?_⟩
  · change ["a", "b"].Nodup
    decide
  · change ["a"].Nodup ∧ "b" ∉ ["a"]
    decide
  · have placed :=
      @TrackedManager.Valid.shards _ valid 0
        { id := 0, primaryNode := "a", followerNodes := ["b"],
          status := .healthy } (by decide) rfl
    refine placed.working "b" ?_ ?_
    · decide
    · decide

end ChronoDB.Distributed
