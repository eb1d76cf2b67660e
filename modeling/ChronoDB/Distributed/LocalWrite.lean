import ChronoDB.Distributed.ShardAgreement

namespace ChronoDB.Distributed

open Library Wal Memstore Query List DistributedStorage

/-!
# Writing and querying on one node

A request is routed by the id it carries, and the store keeps its samples under
the id it derives from the labels.
-/

section SingleSeries

variable {codec : WalCodec} {hasher : Bytes → TimeSeriesId}

theorem getSeries_of_lookup
    {store : MemStore} {seriesId : TimeSeriesId} {entry : TimeSeriesEntry}
    (found : store.head.series.lookup seriesId = some entry) :
    store.getSeries seriesId =
      some {
        id := seriesId
        labels := entry.labels
        samples := store.samplesOf seriesId
      } := by
  rw [MemStore.getSeries, HeadBlock.getSeriesLabels, HeadBlock.query, found,
    MemStore.samplesOf, HeadBlock.samplesOf, found]
  simp only [Option.map_some, entry.samplesInRange_full, Option.elim_some]

theorem getSeries_of_lookup_none {store : MemStore} {seriesId : TimeSeriesId}
    (absent : store.head.series.lookup seriesId = none) :
    store.getSeries seriesId = none := by
  rw [MemStore.getSeries, HeadBlock.getSeriesLabels, absent]
  rfl

namespace DistributedStorage

variable {storage after : DistributedStorage}

theorem exists_querySeriesLocal_iff
    {seriesId : TimeSeriesId} {samples : List Sample}
    (nonempty : samples ≠ []) :
    (∃ found,
        storage.querySeriesLocal Int64.minValue Int64.maxValue seriesId =
            some found ∧
          found.id = seriesId ∧ samples.Subperm found.samples) ↔
      samples.Subperm (storage.memStore.samplesOf seriesId) := by
  rw [querySeriesLocal]
  cases found : storage.memStore.head.series.lookup seriesId with
  | none =>
    have nothing : storage.memStore.samplesOf seriesId = [] := by
      rw [MemStore.samplesOf, HeadBlock.samplesOf, found, Option.elim_none]
    rw [getSeries_of_lookup_none found, nothing, subperm_nil]
    refine iff_of_false ?_ nonempty
    rintro ⟨_, isFound, _⟩
    cases isFound
  | some entry =>
    have unfiltered :
        (storage.memStore.samplesOf seriesId).filter
            (Sample.inRange Int64.minValue Int64.maxValue) =
          storage.memStore.samplesOf seriesId :=
      filter_eq_self.mpr fun sample _ => Sample.inRange_full sample
    rw [getSeries_of_lookup found]
    dsimp only
    rw [unfiltered]
    by_cases nothing : storage.memStore.samplesOf seriesId = []
    · rw [if_pos nothing, nothing, subperm_nil]
      refine iff_of_false ?_ nonempty
      rintro ⟨_, isFound, _⟩
      cases isFound
    · rw [if_neg nothing]
      constructor
      · rintro ⟨_, isFound, _, holds⟩
        cases isFound
        exact holds
      · intro holds
        exact ⟨_, rfl, rfl, holds⟩

theorem query_singleton {seriesId : TimeSeriesId}
    (isPrimary :
      storage.IsPrimary (storage.shardManager.getShardForSeries seriesId))
    (rpc : RemoteQuery) {order : List UInt64}
    (isOrder : order.Perm (storage.routeQueries [seriesId]).keys)
    (start stop : Timestamp) :
    storage.query rpc order [seriesId] start stop =
      (storage.querySeriesLocal start stop seriesId).toList := by
  rw [query_of_isPrimary isPrimary (cons_ne_nil _ _)
    (fun other isOnly => by rw [mem_singleton.mp isOnly]) rpc isOrder,
    queryLocal]
  cases found : storage.querySeriesLocal start stop seriesId with
  | none => exact filterMap_cons_none found
  | some series => exact filterMap_cons_some found

theorem absorbs_of_write {environment : WriteEnvironment} {series : TimeSeries}
    (isPrimary :
      storage.IsPrimary (storage.shardManager.getShardForSeries series.id))
    (written :
      storage.write codec hasher environment series = (.ok (), after)) :
    MemStore.Absorbs hasher storage.memStore after.memStore
      [{
        labels := series.labels
        samples := series.samples
        clock := environment.clock
      }] := by
  rw [write_of_isPrimary codec hasher isPrimary, writeAsPrimary,
    writeToLocal] at written
  rcases stored : storage.memStore.write codec hasher {
      labels := series.labels
      samples := series.samples
      clock := environment.clock
    } with ⟨outcome, memStore⟩
  rw [stored] at written
  cases outcome with
  | error cause => cases written
  | ok _ =>
    rw [← (Prod.mk.inj written).2]
    exact MemStore.Absorbs.ofWrite stored

theorem exists_query_iff {environment : WriteEnvironment} {series : TimeSeries}
    (nonempty : series.samples ≠ [])
    (isPrimary :
      storage.IsPrimary (storage.shardManager.getShardForSeries series.id))
    (written :
      storage.write codec hasher environment series = (.ok (), after))
    (rpc : RemoteQuery) {order : List UInt64}
    (isOrder : order.Perm (after.routeQueries [series.id]).keys) :
    (∃ found ∈ after.query rpc order [series.id] Int64.minValue Int64.maxValue,
        found.id = series.id ∧ series.samples.Subperm found.samples) ↔
      series.samples.Subperm (after.memStore.samplesOf series.id) := by
  obtain ⟨memStore, isAfter⟩ :=
    @write_eq codec hasher storage environment series
  rw [written] at isAfter
  have isAfter : after = { storage with memStore := memStore } := isAfter
  have stillPrimary :
      after.IsPrimary (after.shardManager.getShardForSeries series.id) := by
    rw [isAfter]
    exact isPrimary
  rw [query_singleton stillPrimary rpc isOrder]
  simp only [Option.mem_toList]
  exact exists_querySeriesLocal_iff nonempty

end DistributedStorage

/--
A write that succeeds on the primary of its shard is found under its id, with all
of its samples, exactly when the id is the one that the labels have, or the store
held these samples under the id before.
-/
theorem written_series_found_iff {storage after : DistributedStorage}
    {environment : WriteEnvironment} {series : TimeSeries}
    (nonempty : series.samples ≠ [])
    (isPrimary :
      storage.IsPrimary (storage.shardManager.getShardForSeries series.id))
    (written :
      storage.write codec hasher environment series = (.ok (), after))
    (rpc : RemoteQuery)
    {order : List UInt64}
    (isOrder : order.Perm (after.routeQueries [series.id]).keys) :
    (∃ found ∈ after.query rpc order [series.id] Int64.minValue Int64.maxValue,
        found.id = series.id ∧ series.samples.Subperm found.samples) ↔
      series.id = calculateSeriesId hasher series.labels ∨
        series.samples.Subperm (storage.memStore.samplesOf series.id) := by
  rw [exists_query_iff nonempty isPrimary written rpc
    isOrder]
  have samples :=
    (absorbs_of_write isPrimary written).samplesOf series.id
  rw [MemStore.writtenTo, flatMap_singleton] at samples
  rw [samples.subperm_left]
  by_cases same : calculateSeriesId hasher series.labels = series.id
  · rw [if_pos same]
    refine iff_of_true ?_ (.inl same.symm)
    exact (sublist_append_right _ _).subperm
  · rw [if_neg same, append_nil]
    exact (or_iff_right (Ne.symm same)).symm

end SingleSeries

/-- A new node that is the primary of its only shard. -/
def onlyNode : DistributedStorage :=
  {
    freshNode "a" 1 with
    shardManager := (freshNode "a" 1).shardManager.start.assignShard 0 "a" []
  }

/-- One sample without labels, under an id of choice. -/
def unlabelledSeries (seriesId : TimeSeriesId) : TimeSeries where
  id := seriesId
  labels := []
  samples := [{ timestamp := 1, value := 5 }]

/-- No other node is there. -/
def aloneEnvironment : WriteEnvironment where
  clock := { millis := 2000, now := 2, rotation := ⟨2, 2000⟩ }
  forward := fun _ _ => .ok ()
  replicate := fun _ _ _ => .ok ()

theorem getShardForSeries_onlyNode (seriesId : TimeSeriesId) :
    onlyNode.shardManager.getShardForSeries seriesId = 0 :=
  UInt64.mod_one

theorem isPrimary_onlyNode (seriesId : TimeSeriesId) :
    onlyNode.IsPrimary (onlyNode.shardManager.getShardForSeries seriesId) := by
  rw [getShardForSeries_onlyNode, DistributedStorage.IsPrimary]
  decide

theorem exists_write_onlyNode (seriesId : TimeSeriesId) :
    ∃ after,
      onlyNode.write jsonCodec SipHash.hash aloneEnvironment
          (unlabelledSeries seriesId) =
        (.ok (), after) := by
  have room :
      onlyNode.memStore.head.seriesCount <
        onlyNode.memStore.head.config.maxSeries := by
    change 0 < nodeMemstoreSize / 1024
    decide
  have logReady : onlyNode.memStore.LogReady := by
    intro wal opened
    cases opened
  obtain ⟨memStore, stored⟩ :=
    @MemStore.exists_write jsonCodec SipHash.hash _ logReady room
      {
        labels := []
        samples := [{ timestamp := 1, value := 5 }]
        clock := aloneEnvironment.clock
      }
  have noFollowers :
      ({ onlyNode with memStore := memStore } :
          DistributedStorage).shardManager.getFollowerNodes 0 =
        .ok [] := by
    change onlyNode.shardManager.getFollowerNodes 0 = .ok []
    decide
  refine ⟨{ onlyNode with memStore := memStore }, ?_⟩
  rw [write_of_isPrimary _ _ (isPrimary_onlyNode _),
    getShardForSeries_onlyNode, writeAsPrimary,
    writeToLocal, unlabelledSeries, stored]
  dsimp only
  rw [replicateToFollowers, noFollowers]
  rfl

theorem isOrder_onlyNode {seriesId : TimeSeriesId} {after : DistributedStorage}
    (written :
      onlyNode.write jsonCodec SipHash.hash aloneEnvironment
          (unlabelledSeries seriesId) =
        (.ok (), after)) :
    [0].Perm (after.routeQueries [seriesId]).keys := by
  obtain ⟨memStore, isAfter⟩ :=
    @DistributedStorage.write_eq jsonCodec SipHash.hash onlyNode
      aloneEnvironment (unlabelledSeries seriesId)
  rw [written] at isAfter
  have isAfter : after = { onlyNode with memStore := memStore } := isAfter
  rw [routeQueries, isAfter]
  exact perm_singleton.mpr
    (congrArg List.singleton (getShardForSeries_onlyNode seriesId).symm)

theorem derived_id_is_found :
    ∃ after,
      onlyNode.write jsonCodec SipHash.hash aloneEnvironment
          (unlabelledSeries (SipHash.hash [])) =
        (.ok (), after) ∧
      ∃ found ∈
          after.query (fun _ _ _ _ => .noClient) [0] [SipHash.hash []]
            Int64.minValue Int64.maxValue,
        found.id = SipHash.hash [] ∧
          (unlabelledSeries (SipHash.hash [])).samples.Subperm
            found.samples := by
  obtain ⟨after, written⟩ := exists_write_onlyNode (SipHash.hash [])
  exact
    ⟨after, written,
      (written_series_found_iff (cons_ne_nil _ _)
        (isPrimary_onlyNode _) written (fun _ _ _ _ => .noClient)
        (isOrder_onlyNode written)).mpr (.inl rfl)⟩

theorem other_id_is_not_found :
    ¬ ∀ after,
      onlyNode.write jsonCodec SipHash.hash aloneEnvironment
          (unlabelledSeries 1) =
        (.ok (), after) →
      ∃ found ∈
          after.query (fun _ _ _ _ => .noClient) [0] [1] Int64.minValue
            Int64.maxValue,
        found.id = 1 ∧ (unlabelledSeries 1).samples.Subperm found.samples := by
  intro isFound
  obtain ⟨after, written⟩ := exists_write_onlyNode 1
  have held :
      (unlabelledSeries 1).samples.Subperm (after.memStore.samplesOf 1) :=
    (exists_query_iff (cons_ne_nil _ _)
      (isPrimary_onlyNode _) written (fun _ _ _ _ => .noClient)
      (isOrder_onlyNode written)).mp (isFound after written)
  have samples :=
    (absorbs_of_write (isPrimary_onlyNode _)
      written).samplesOf 1
  have otherId : calculateSeriesId SipHash.hash [] ≠ 1 := by
    decide +kernel
  rw [MemStore.writtenTo, flatMap_singleton, unlabelledSeries,
    if_neg otherId] at samples
  have nothing : after.memStore.samplesOf 1 = [] := samples.eq_nil
  rw [nothing] at held
  exact cons_ne_nil _ _ (subperm_nil.mp held)

end ChronoDB.Distributed
