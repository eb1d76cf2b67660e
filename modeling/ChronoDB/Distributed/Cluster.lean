import ChronoDB.Distributed.Storage
import ChronoDB.Memstore.Reading

namespace ChronoDB.Distributed

open Library Memstore Query

/-!
# The nodes of a cluster

A query that is sent to a node is handled by its storage engine, which routes it
once more, by its own table of the shards.
-/

/-- What comes of a call to a node, before the node looks at the request. -/
inductive NodeHealth where
  | works
  | unknown
  | fails (cause : ClusterError) (display : String)
  | refuses (message : String)
  deriving Repr, DecidableEq

/--
The nodes under their names, with what the calls of each node come to and the
order in which it goes through the shards of a query.
-/
structure Cluster where
  nodes : String → DistributedStorage
  health : String → NodeHealth
  calls : String → RemoteQuery
  order : String → List TimeSeriesId → List UInt64
  isOrder :
    ∀ node seriesIds,
      (order node seriesIds).Perm ((nodes node).routeQueries seriesIds).keys

namespace Cluster

def answer (cluster : Cluster) (node : String) (seriesIds : List TimeSeriesId)
    (start stop : Timestamp) :
    List TimeSeries :=
  (cluster.nodes node).query (cluster.calls node)
    (cluster.order node seriesIds) seriesIds start stop

/-- A query over the network; the storage engine of a node never fails. -/
def rpc (cluster : Cluster) : RemoteQuery :=
  fun node seriesIds start stop =>
    match cluster.health node with
    | .works =>
      .answered true "Query successful"
        (cluster.answer node seriesIds start stop)
    | .unknown => .noClient
    | .fails cause display => .failed cause display
    | .refuses message => .answered false message []

end Cluster

/-!
## Answers of a primary
-/

namespace DistributedStorage

variable {storage : DistributedStorage}

theorem querySeriesLocal_eq (start stop : Timestamp) (seriesId : TimeSeriesId) :
    storage.querySeriesLocal start stop seriesId =
      storage.memStore.querySeries start stop .l0 seriesId := by
  have unchanged : ∀ samples : List Sample,
      Columnstore.applyDownsampling samples .l0 = samples := by
    rintro (_ | ⟨first, rest⟩)
    · rfl
    · rw [Columnstore.applyDownsampling, if_pos rfl]
  rw [← processSeries_eq_querySeries, querySeriesLocal, processSeries]
  simp only [unchanged]
  cases storage.memStore.getSeries seriesId with
  | none => rfl
  | some series =>
    dsimp only
    split
    · rfl
    · rfl

theorem mem_query_iff_of_isPrimary {seriesIds : List TimeSeriesId}
    (isPrimary :
      ∀ seriesId ∈ seriesIds,
        storage.IsPrimary (storage.shardManager.getShardForSeries seriesId))
    (rpc : RemoteQuery) {order : List UInt64}
    (isOrder : order.Perm (storage.routeQueries seriesIds).keys)
    {start stop : Timestamp} {ts : TimeSeries} :
    ts ∈ storage.query rpc order seriesIds start stop ↔
      ∃ seriesId ∈ seriesIds,
        storage.memStore.querySeries start stop .l0 seriesId = some ts := by
  by_cases nothing : seriesIds = []
  · rw [query, if_pos nothing, nothing]
    simp
  have inOrder : ∀ shardId,
      shardId ∈ order ↔
        ∃ seriesId ∈ seriesIds,
          storage.shardManager.getShardForSeries seriesId = shardId :=
    fun shardId => by
      rw [isOrder.mem_iff, ← AList.mem_keys, routeQueries, mem_routeSeries]
  have inRoute : ∀ shardId ∈ order,
      storage.queryRoute rpc start stop shardId
          (((storage.routeQueries seriesIds).lookup shardId).getD []) =
        (seriesIds.filter fun seriesId =>
          storage.shardManager.getShardForSeries seriesId = shardId).filterMap
          (storage.memStore.querySeries start stop .l0) := by
    intro shardId isShard
    obtain ⟨seriesId, member, rfl⟩ := (inOrder shardId).mp isShard
    rw [queryRoute_of_isPrimary (isPrimary seriesId member), queryLocal,
      routeQueries, lookup_routeSeries]
    exact List.filterMap_congr fun other _ =>
      querySeriesLocal_eq start stop other
  rw [query, if_neg nothing, List.mem_flatMap]
  constructor
  · rintro ⟨shardId, isShard, answered⟩
    rw [inRoute shardId isShard, List.mem_filterMap] at answered
    obtain ⟨seriesId, routed, isQueried⟩ := answered
    exact ⟨seriesId, (List.mem_filter.mp routed).1, isQueried⟩
  · rintro ⟨seriesId, member, isQueried⟩
    have isShard := (inOrder _).mpr ⟨seriesId, member, rfl⟩
    refine ⟨_, isShard, ?_⟩
    rw [inRoute _ isShard, List.mem_filterMap]
    exact ⟨seriesId, List.mem_filter.mpr ⟨member, decide_eq_true rfl⟩,
      isQueried⟩

end DistributedStorage

end ChronoDB.Distributed
