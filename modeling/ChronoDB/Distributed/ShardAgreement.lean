import ChronoDB.Distributed.Placement
import ChronoDB.Distributed.Storage
import Mathlib.Data.Nat.GCD.Basic

namespace ChronoDB.Distributed

open Library Wal Memstore Query

/-!
# The two shard managers of a node

Writes are placed by a hash of the series id, queries by the id itself, and the
shards that queries go to are never given any nodes.
-/

theorem eq_one_of_hash_mod_eq {shardCount : UInt64}
    (agree :
      ∀ seriesId, hashSeriesId seriesId % shardCount = seriesId % shardCount) :
    shardCount = 1 := by
  have hashOfZero : hashSeriesId 0 = 13646096770106105413 := by
    decide +kernel
  have hashOfOne : hashSeriesId 1 = 2206609067086327257 := by
    decide +kernel
  have congruent : ∀ seriesId : UInt64,
      Nat.ModEq shardCount.toNat (hashSeriesId seriesId).toNat
        seriesId.toNat := by
    intro seriesId
    have same := congrArg UInt64.toNat (agree seriesId)
    rw [UInt64.toNat_mod, UInt64.toNat_mod] at same
    exact same
  have dividesFirst : shardCount.toNat ∣ 13646096770106105413 := by
    have zero := congruent 0
    rw [hashOfZero] at zero
    exact (Nat.modEq_zero_iff_dvd).mp zero
  have dividesSecond : shardCount.toNat ∣ 2206609067086327256 := by
    have one := congruent 1
    rw [hashOfOne] at one
    exact (Nat.modEq_iff_dvd' (by decide)).mp one.symm
  have coprime : Nat.Coprime 13646096770106105413 2206609067086327256 := by
    decide +kernel
  have isOne : shardCount.toNat = 1 :=
    Nat.eq_one_of_dvd_coprimes coprime dividesFirst dividesSecond
  exact UInt64.toNat_inj.mp isOne

section Runs

variable {codec : WalCodec} {hasher : Bytes → TimeSeriesId}
variable {debug : QueryPlan → String}

/-- What a node keeps from its creation on. -/
structure DistributedStorage.Wired
    (config : DistributedConfig) (storage : DistributedStorage) :
    Prop where
  sameConfig : storage.config = config
  shardConfig : storage.shardManager.config = config.shardConfig
  queryShards :
    storage.queryCoordinator.shardManager = .new config.shardConfig.shardCount

namespace DistributedStorage

theorem writeToLocal_eq
    (storage : DistributedStorage) (clock : WriteClock) (series : TimeSeries) :
    ∃ memStore,
      (storage.writeToLocal codec hasher clock series).2 =
        { storage with memStore := memStore } := by
  rw [writeToLocal]
  split
  · exact ⟨_, rfl⟩
  · exact ⟨_, rfl⟩

theorem write_eq (storage : DistributedStorage) (environment : WriteEnvironment)
    (series : TimeSeries) :
    ∃ memStore,
      (storage.write codec hasher environment series).2 =
        { storage with memStore := memStore } := by
  obtain ⟨memStore, written⟩ :=
    @writeToLocal_eq codec hasher storage environment.clock series
  rw [write]
  split
  · exact ⟨storage.memStore, rfl⟩
  · split
    · refine ⟨memStore, written ▸ ?_⟩
      rw [writeAsPrimary]
      split
      · rename_i failed
        rw [failed]
      · rename_i succeeded
        rw [succeeded]
    · exact ⟨storage.memStore, rfl⟩

theorem shardManager_executeQuery
    (coordinator : QueryCoordinator) (memStore : Option MemStore)
    (environment : QueryEnvironment) (plan : QueryPlan) :
    (coordinator.executeQuery debug memStore environment plan).2.shardManager =
      coordinator.shardManager := by
  rw [QueryCoordinator.executeQuery]
  split <;> rfl

theorem wired_new (config : DistributedConfig) (dataDir : Option SegmentDir)
    (created : ℕ → UInt64) (millis : Timestamp) :
    Wired config (new codec config dataDir created millis) :=
  ⟨rfl, rfl, rfl⟩

theorem Wired.ofStep
    {config : DistributedConfig} {before after : DistributedStorage}
    {action : StorageAction} (wired : before.Wired config)
    (step : StorageStep codec hasher debug before action after) :
    after.Wired config := by
  obtain ⟨_, rfl⟩ := step
  cases action with
  | shards action =>
    exact ⟨wired.sameConfig,
      (before.shardManager.config_perform action).trans wired.shardConfig,
      wired.queryShards⟩
  | write environment series =>
    obtain ⟨memStore, isAfter⟩ :=
      @write_eq codec hasher before environment series
    rw [perform, isAfter]
    exact ⟨wired.sameConfig, wired.shardConfig, wired.queryShards⟩
  | replicate clock series =>
    obtain ⟨memStore, isAfter⟩ :=
      @writeToLocal_eq codec hasher before clock series
    rw [perform, isAfter]
    exact ⟨wired.sameConfig, wired.shardConfig, wired.queryShards⟩
  | queryWithMatchers environment matchers start stop =>
    exact ⟨wired.sameConfig, wired.shardConfig,
      (shardManager_executeQuery _ _ _ _).trans wired.queryShards⟩

theorem wired_of_run {config : DistributedConfig} {dataDir : Option SegmentDir}
    {created : ℕ → UInt64} {millis : Timestamp} {actions : List StorageAction}
    {storage : DistributedStorage}
    (run :
      Run (StorageStep codec hasher debug)
        (new codec config dataDir created millis) actions storage) :
    storage.Wired config :=
  run.preserves (fun wired step => wired.ofStep step)
    (wired_new config dataDir created millis)

/-- Writes and queries find the same shard for every series. -/
def SameShards (storage : DistributedStorage) : Prop :=
  ∀ seriesId,
    storage.shardManager.getShardForSeries seriesId =
      storage.queryCoordinator.shardManager.getShardForSeries seriesId

/-- Queries know every node that serves a shard. -/
def SameNodes (storage : DistributedStorage) : Prop :=
  ∀ node shardId,
    node ≠ "" →
      storage.shardManager.shards.Serves node shardId →
        node ∈ storage.queryCoordinator.shardManager.getNodesForShard shardId

end DistributedStorage

/--
In every state of a node, writes and queries agree on the shard of every series
and on the nodes of every shard exactly when there is only one shard and no node
serves it.
-/
theorem write_agrees_query_iff {config : DistributedConfig}
    {dataDir : Option SegmentDir} {created : ℕ → UInt64} {millis : Timestamp}
    {actions : List StorageAction} {storage : DistributedStorage}
    (run :
      Run (StorageStep codec hasher debug)
        (.new codec config dataDir created millis) actions storage) :
    storage.SameShards ∧ storage.SameNodes ↔
      config.shardConfig.shardCount = 1 ∧
        ∀ node shardId,
          node ≠ "" → ¬storage.shardManager.shards.Serves node shardId := by
  have wired := DistributedStorage.wired_of_run run
  have sameShards :
      storage.SameShards ↔
        ∀ seriesId,
          hashSeriesId seriesId % config.shardConfig.shardCount =
            seriesId % config.shardConfig.shardCount := by
    rw [DistributedStorage.SameShards]
    simp only [ShardManager.getShardForSeries,
      QueryShardManager.getShardForSeries, wired.shardConfig,
      wired.queryShards, QueryShardManager.new]
  have noNodes : ∀ shardId,
      storage.queryCoordinator.shardManager.getNodesForShard shardId = [] := by
    intro shardId
    rw [wired.queryShards]
    rfl
  refine and_congr ?_ ?_
  · rw [sameShards]
    refine ⟨eq_one_of_hash_mod_eq, fun isOne seriesId => ?_⟩
    rw [isOne, UInt64.mod_one, UInt64.mod_one]
  · simp only [DistributedStorage.SameNodes, noNodes, List.not_mem_nil]

end Runs

/-- A node with some shards, three replicas of each, and no data directory. -/
def freshNode (nodeId : String) (shardCount : UInt64) : DistributedStorage :=
  .new jsonCodec
    {
      nodeId := nodeId
      shardConfig := { shardCount := shardCount, replicationFactor := 3 }
    }
    none (fun _ => 0) 1000

/-- A new node with one shard has nothing to disagree about. -/
theorem one_shard_agrees :
    (freshNode "a" 1).SameShards ∧ (freshNode "a" 1).SameNodes :=
  (@write_agrees_query_iff jsonCodec SipHash.hash (fun _ => "") _ none
    (fun _ => 0) 1000 [] (freshNode "a" 1) (.nil _)).mpr
    ⟨rfl, by
      rintro node shardId _ ⟨shard, found, _⟩
      cases found⟩

/-- With two shards the series with id zero is written to another shard. -/
theorem two_shards_disagree :
    ¬((freshNode "a" 2).SameShards ∧ (freshNode "a" 2).SameNodes) := by
  rintro ⟨sameShards, _⟩
  have same := sameShards 0
  revert same
  decide +kernel

end ChronoDB.Distributed
