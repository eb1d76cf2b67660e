import ChronoDB.Distributed.ShardAgreement

namespace ChronoDB.Distributed

open Library Wal Memstore Query List ShardManager

/-!
# Placement by rebalancing, and forwarding

Every node computes the placement of the shards on its own, from a list of the
online nodes in an order of its own.  A request is forwarded to what the sender
takes for the primary, which looks into its own table again.
-/

/-!
## Places in a list
-/

theorem take_eq_take_iff_getD
    {nodes others : List String} (sameLength : nodes.length = others.length)
    (count : ℕ) :
    nodes.take count = others.take count ↔
      ∀ place < count,
        place < nodes.length → nodes.getD place "" = others.getD place "" := by
  constructor
  · intro alike place less inBounds
    have same := congrArg (fun taken : List String => taken[place]?) alike
    simp only [getElem?_take_of_lt less] at same
    rw [getD_eq_getElem?_getD, getD_eq_getElem?_getD, same]
  · intro alike
    apply ext_getElem
    · rw [length_take, length_take, sameLength]
    · intro place inFirst inSecond
      rw [length_take, Nat.lt_min] at inFirst inSecond
      have same := alike place inFirst.1 inFirst.2
      rw [getD_eq_getElem _ _ inFirst.2, getD_eq_getElem _ _ inSecond.2] at same
      rw [getElem_take, getElem_take, same]

/--
Going round two lists from each of the first places agrees exactly when the lists
begin alike.
-/
theorem round_alike_iff
    {nodes others : List String} (sameLength : nodes.length = others.length)
    (nonempty : nodes ≠ []) {shardCount replicas : ℕ}
    (someShard : 0 < shardCount) (someReplica : 0 < replicas) :
    (∀ index < shardCount, ∀ i < replicas,
        nodes.getD ((index + i) % nodes.length) "" =
          others.getD ((index + i) % nodes.length) "") ↔
      nodes.take (shardCount + replicas - 1) =
        others.take (shardCount + replicas - 1) := by
  have somePlace : 0 < nodes.length := length_pos_of_ne_nil nonempty
  rw [take_eq_take_iff_getD sameLength]
  constructor
  · intro alike place less inBounds
    have same :=
      alike (min place (shardCount - 1)) (by omega)
        (place - min place (shardCount - 1)) (by omega)
    rwa [Nat.add_sub_cancel' (Nat.min_le_left _ _),
      Nat.mod_eq_of_lt inBounds] at same
  · intro alike index less i lessReplicas
    have notAfter := Nat.mod_le (index + i) nodes.length
    exact alike _ (by omega) (Nat.mod_lt _ somePlace)

/-!
## Tables after a rebalancing
-/

namespace ShardManager

/-- Two managers name the same nodes for every shard. -/
def PlacedAlike (first second : ShardManager) : Prop :=
  ∀ shardId,
    first.getPrimaryNode shardId = second.getPrimaryNode shardId ∧
      first.getFollowerNodes shardId = second.getFollowerNodes shardId

theorem exists_lookup_rebalanceShards
    {manager : ShardManager} (holds : manager.HoldsShards) {nodes : List String}
    (nonempty : nodes ≠ []) {shardId : UInt64}
    (below : shardId < manager.config.shardCount) :
    ∃ shard,
      (manager.rebalanceShards nodes).2.shards.lookup shardId = some shard ∧
        shard.primaryNode = rebalancedPrimary nodes shardId ∧
          shard.followerNodes =
            rebalancedFollowers manager.config.replicationFactor.toNat nodes
              shardId := by
  obtain ⟨shard, found⟩ := FiniteMap.exists_lookup ((holds shardId).mpr below)
  refine ⟨manager.rebalanceShard nodes shardId shard, ?_, rfl, rfl⟩
  rw [lookup_rebalanceShards manager nonempty, if_pos below, found,
    Option.map_some]

theorem sameNodes_iff
    {first second : ShardManager} {shardId : UInt64} {shard other : Shard}
    (found : first.shards.lookup shardId = some shard)
    (otherFound : second.shards.lookup shardId = some other) :
    first.getPrimaryNode shardId = second.getPrimaryNode shardId ∧
        first.getFollowerNodes shardId = second.getFollowerNodes shardId ↔
      shard.nodes = other.nodes := by
  rw [getPrimaryNode, getPrimaryNode, getFollowerNodes, getFollowerNodes, found,
    otherFound, Shard.nodes, Shard.nodes, List.cons.injEq, Except.ok.injEq]
  refine and_congr_left fun _ => ?_
  dsimp only
  split_ifs with some otherSome otherSome
  · rw [Except.ok.injEq]
  · refine iff_of_false (fun same => ?_) fun same => ?_
    · cases same
    · exact otherSome (same ▸ some)
  · refine iff_of_false (fun same => ?_) fun same => ?_
    · cases same
    · exact some (same ▸ otherSome)
  · rw [not_ne_iff.mp some, not_ne_iff.mp otherSome]
    exact iff_of_true rfl rfl

theorem placedAlike_iff
    {first second : ShardManager} (holds : first.HoldsShards)
    (otherHolds : second.HoldsShards)
    (sameConfig : first.config = second.config) :
    PlacedAlike first second ↔
      ∀ shardId < first.config.shardCount,
        first.getPrimaryNode shardId = second.getPrimaryNode shardId ∧
          first.getFollowerNodes shardId = second.getFollowerNodes shardId := by
  refine ⟨fun alike shardId _ => alike shardId, fun alike shardId => ?_⟩
  by_cases below : shardId < first.config.shardCount
  · exact alike shardId below
  · have absent : first.shards.lookup shardId = none := by
      rw [AList.lookup_eq_none, holds shardId]
      exact below
    have otherAbsent : second.shards.lookup shardId = none := by
      rw [AList.lookup_eq_none, otherHolds shardId, ← sameConfig]
      exact below
    rw [getPrimaryNode, getPrimaryNode, getFollowerNodes, getFollowerNodes,
      absent, otherAbsent]
    exact ⟨rfl, rfl⟩

/--
After rebalancings over two orders of the same nodes, two managers name the same
nodes exactly when the orders begin alike.
-/
theorem placedAlike_rebalanceShards_iff
    {first second : ShardManager} (holds : first.HoldsShards)
    (otherHolds : second.HoldsShards)
    (sameConfig : first.config = second.config) {nodes others : List String}
    (nonempty : nodes ≠ []) (reordered : nodes.Perm others) :
    PlacedAlike (first.rebalanceShards nodes).2
        (second.rebalanceShards others).2 ↔
      first.config.shardCount = 0 ∨
        nodes.take (first.config.shardCount.toNat +
            replicaCount first.config.replicationFactor.toNat nodes - 1) =
          others.take (first.config.shardCount.toNat +
            replicaCount first.config.replicationFactor.toNat nodes - 1) := by
  have sameLength := reordered.length_eq
  have otherNonempty : others ≠ [] := fun nothing =>
    nonempty (reordered.trans (.of_eq nothing)).eq_nil
  have sameReplicas :
      replicaCount second.config.replicationFactor.toNat others =
        replicaCount first.config.replicationFactor.toNat nodes := by
    rw [replicaCount, replicaCount, sameLength, sameConfig]
  have rebalancedHolds : (first.rebalanceShards nodes).2.HoldsShards :=
    holds.perform (.rebalanceShards nodes)
  have otherRebalancedHolds : (second.rebalanceShards others).2.HoldsShards :=
    otherHolds.perform (.rebalanceShards others)
  have firstConfig : (first.rebalanceShards nodes).2.config = first.config :=
    first.config_perform (.rebalanceShards nodes)
  have secondConfig :
      (second.rebalanceShards others).2.config = second.config :=
    second.config_perform (.rebalanceShards others)
  rw [placedAlike_iff rebalancedHolds otherRebalancedHolds
    (firstConfig.trans (sameConfig.trans secondConfig.symm)), firstConfig]
  by_cases noShard : first.config.shardCount = 0
  · refine iff_of_true (fun shardId below => ?_) (.inl noShard)
    rw [noShard] at below
    exact absurd below UInt64.not_lt_zero
  have someShard : 0 < first.config.shardCount.toNat :=
    Nat.pos_of_ne_zero fun isZero => noShard (UInt64.toNat_inj.mp isZero)
  rw [or_iff_right noShard,
    ← round_alike_iff sameLength nonempty someShard (replicaCount_pos _ _)]
  have eachShard : ∀ shardId < first.config.shardCount,
      ((first.rebalanceShards nodes).2.getPrimaryNode shardId =
            (second.rebalanceShards others).2.getPrimaryNode shardId ∧
          (first.rebalanceShards nodes).2.getFollowerNodes shardId =
            (second.rebalanceShards others).2.getFollowerNodes shardId ↔
        ∀ i < replicaCount first.config.replicationFactor.toNat nodes,
          nodes.getD ((shardId.toNat + i) % nodes.length) "" =
            others.getD ((shardId.toNat + i) % nodes.length) "") := by
    intro shardId below
    obtain ⟨shard, found, isPrimary, isFollowers⟩ :=
      exists_lookup_rebalanceShards holds nonempty below
    obtain ⟨other, otherFound, otherPrimary, otherFollowers⟩ :=
      exists_lookup_rebalanceShards otherHolds otherNonempty
        (sameConfig ▸ below)
    rw [sameNodes_iff found otherFound, Shard.nodes, Shard.nodes, isPrimary,
      isFollowers, otherPrimary, otherFollowers, rebalanced_eq, rebalanced_eq,
      sameReplicas, sameLength, map_inj_left]
    simp only [mem_range]
  constructor
  · intro alike index less i lessReplicas
    have toNat : (UInt64.ofNat index).toNat = index :=
      UInt64.toNat_ofNat_of_lt' (less.trans first.config.shardCount.toNat_lt)
    have below : UInt64.ofNat index < first.config.shardCount := by
      rw [UInt64.lt_iff_toNat_lt, toNat]
      exact less
    have same := (eachShard _ below).mp (alike _ below) i lessReplicas
    rwa [toNat] at same
  · intro alike shardId below
    exact (eachShard shardId below).mpr
      (alike shardId.toNat (UInt64.lt_iff_toNat_lt.mp below))

end ShardManager

/-!
## Forwarded requests
-/

section Forwarded

variable (codec : WalCodec) (hasher : Bytes → TimeSeriesId)

namespace DistributedStorage

/-- The node sends the requests for a shard to another node. -/
def ForwardsTo
    (storage : DistributedStorage) (node : String) (shardId : UInt64) :
    Prop :=
  storage.shardManager.getPrimaryNode shardId = .ok node ∧
    node ≠ storage.config.nodeId

def rebalance (storage : DistributedStorage) (nodes : List String) :
    DistributedStorage :=
  {
    storage with
    shardManager := (storage.shardManager.rebalanceShards nodes).2
  }

/--
What a node sends to another one, this one serves as the primary, whatever the
rest of the cluster does.
-/
structure ForwardsOnce (sender receiver : DistributedStorage) : Prop where
  write :
    ∀ series : TimeSeries,
      sender.ForwardsTo receiver.config.nodeId
          (sender.shardManager.getShardForSeries series.id) →
        ∀ environment,
          receiver.write codec hasher environment series =
            receiver.writeAsPrimary codec hasher environment
              (sender.shardManager.getShardForSeries series.id) series
  query :
    ∀ seriesIds shardId routed,
      routed = ((sender.routeQueries seriesIds).lookup shardId).getD [] →
        routed ≠ [] →
          sender.ForwardsTo receiver.config.nodeId shardId →
            ∀ rpc order start stop,
              order.Perm (receiver.routeQueries routed).keys →
                receiver.query rpc order routed start stop =
                  receiver.queryLocal routed start stop

theorem forwardsOnce_of_placedAlike {sender receiver : DistributedStorage}
    (sameConfig : sender.shardManager.config = receiver.shardManager.config)
    (alike : sender.shardManager.PlacedAlike receiver.shardManager) :
    ForwardsOnce codec hasher sender receiver := by
  have sameShard : ∀ seriesId,
      receiver.shardManager.getShardForSeries seriesId =
        sender.shardManager.getShardForSeries seriesId := by
    intro seriesId
    rw [getShardForSeries, getShardForSeries,
      sameConfig]
  have isPrimary : ∀ {shardId},
      sender.ForwardsTo receiver.config.nodeId shardId →
        receiver.IsPrimary shardId :=
    fun forwards => (alike _).1.symm.trans forwards.1
  constructor
  · intro series forwards environment
    rw [← sameShard] at forwards ⊢
    exact write_of_isPrimary codec hasher (isPrimary forwards) environment
  · rintro seriesIds shardId routed isRouted nonempty forwards rpc order start
      stop isOrder
    refine query_of_isPrimary (isPrimary forwards) nonempty ?_ rpc isOrder
      start stop
    intro seriesId member
    rw [isRouted, routeQueries, lookup_routeSeries, mem_filter] at member
    rw [sameShard]
    exact of_decide_eq_true member.2

end DistributedStorage

/--
Two nodes that rebalance over two orders of the same nodes agree on every shard,
and serve what they forward to each other, exactly when the orders begin alike.
-/
theorem rebalanced_nodes_agree_iff {config : ShardConfig}
    {first second : DistributedStorage}
    {firstActions secondActions : List ShardAction}
    (firstRun :
      Run ShardStep (.new config) (.start :: firstActions) first.shardManager)
    (secondRun :
      Run ShardStep (.new config) (.start :: secondActions) second.shardManager)
    {nodes others : List String}
    (nonempty : nodes ≠ [])
    (reordered : nodes.Perm others) :
    (first.rebalance nodes).shardManager.PlacedAlike
          (second.rebalance others).shardManager ∧
        DistributedStorage.ForwardsOnce codec hasher (first.rebalance nodes)
          (second.rebalance others) ↔
      config.shardCount = 0 ∨
        nodes.take
            (config.shardCount.toNat +
              replicaCount config.replicationFactor.toNat nodes - 1) =
          others.take
            (config.shardCount.toNat +
              replicaCount config.replicationFactor.toNat nodes - 1) := by
  have firstConfig : first.shardManager.config = config :=
    config_of_run firstRun
  have secondConfig : second.shardManager.config = config :=
    config_of_run secondRun
  have sameConfig := firstConfig.trans secondConfig.symm
  have alikeIff :=
    placedAlike_rebalanceShards_iff
      (holdsShards_of_run firstRun)
      (holdsShards_of_run secondRun) sameConfig nonempty
      reordered
  rw [firstConfig] at alikeIff
  refine Iff.trans ?_ alikeIff
  refine and_iff_left_of_imp fun alike => ?_
  refine DistributedStorage.forwardsOnce_of_placedAlike codec hasher ?_ alike
  exact
    (first.shardManager.config_perform (.rebalanceShards nodes)).trans
      (sameConfig.trans
        (second.shardManager.config_perform (.rebalanceShards others)).symm)

end Forwarded

/-- A new node with one shard, after its start. -/
def startedNode (nodeId : String) : DistributedStorage :=
  {
    freshNode nodeId 1 with
    shardManager := (freshNode nodeId 1).shardManager.start
  }

theorem run_startedNode (nodeId : String) :
    Run ShardStep (.new { shardCount := 1, replicationFactor := 3 }) [.start]
      (startedNode nodeId).shardManager :=
  .single ⟨trivial, rfl⟩

/-- Two nodes that list the nodes in one order agree. -/
theorem same_order_agrees :
    ((startedNode "a").rebalance ["a", "b"]).shardManager.PlacedAlike
        ((startedNode "b").rebalance ["a", "b"]).shardManager ∧
      DistributedStorage.ForwardsOnce jsonCodec SipHash.hash
        ((startedNode "a").rebalance ["a", "b"])
        ((startedNode "b").rebalance ["a", "b"]) :=
  (rebalanced_nodes_agree_iff jsonCodec SipHash.hash (run_startedNode "a")
    (run_startedNode "b") (cons_ne_nil _ _) (List.Perm.refl _)).mpr
    (.inr rfl)

/-- Two nodes that list each other first send every request back and forth. -/
theorem nodes_forward_to_each_other :
    ((startedNode "a").rebalance ["b", "a"]).ForwardsTo "b" 0 ∧
      ((startedNode "b").rebalance ["a", "b"]).ForwardsTo "a" 0 ∧
        ¬((startedNode "a").rebalance ["b", "a"]).shardManager.PlacedAlike
            ((startedNode "b").rebalance ["a", "b"]).shardManager := by
  have toSecond :
      ((startedNode "a").rebalance ["b", "a"]).shardManager.getPrimaryNode 0 =
        .ok "b" := by
    decide
  have toFirst :
      ((startedNode "b").rebalance ["a", "b"]).shardManager.getPrimaryNode 0 =
        .ok "a" := by
    decide
  refine ⟨⟨toSecond, by decide⟩, ⟨toFirst, by decide⟩, fun alike => ?_⟩
  have same := (alike 0).1
  rw [toSecond, toFirst] at same
  exact absurd (Except.ok.inj same) (by decide)

end ChronoDB.Distributed
