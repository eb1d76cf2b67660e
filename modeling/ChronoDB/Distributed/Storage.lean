import ChronoDB.Distributed.QueryCoordinator

namespace ChronoDB.Distributed

open Library Wal Memstore Query

/-!
# The storage engine of a node

A write goes to the primary of the shard of its series, a query to the primaries
of all shards it asks for.  A node that is a primary itself uses its own store;
otherwise the request is sent to the primary.
-/

structure DistributedConfig where
  nodeId : String
  shardConfig : ShardConfig
  deriving Repr, DecidableEq

structure DistributedStorage where
  config : DistributedConfig
  shardManager : ShardManager
  queryCoordinator : QueryCoordinator
  memStore : MemStore

/--
What a write finds outside of the node: its clock, the primary it is sent to,
and the replication of a series to some nodes.
-/
structure WriteEnvironment where
  clock : WriteClock
  forward : String → TimeSeries → Except ClusterError Unit
  replicate : UInt64 → TimeSeries → List String → Except ClusterError Unit

/-- The store of a node is opened with one gibibyte. -/
def nodeMemstoreSize : ℕ := 1024 * 1024 * 1024

namespace DistributedStorage

variable (codec : WalCodec) (hasher : Bytes → TimeSeriesId)

/-- `DistributedStorage::new`, with what the store finds when it opens. -/
def new (config : DistributedConfig) (dataDir : Option SegmentDir)
    (created : ℕ → UInt64) (millis : Timestamp) :
    DistributedStorage where
  config := config
  shardManager := .new config.shardConfig
  queryCoordinator := .new (.new config.shardConfig.shardCount) .default
  memStore := .new codec { memstoreSize := nodeMemstoreSize } dataDir created
    millis

/-!
## Writes
-/

/-- `write_to_local`: the store derives an id from the labels again. -/
def writeToLocal
    (storage : DistributedStorage) (clock : WriteClock) (series : TimeSeries) :
    Except ClusterError Unit × DistributedStorage :=
  match
    storage.memStore.write codec hasher {
      labels := series.labels
      samples := series.samples
      clock := clock
    }
  with
  | (.error cause, failed) =>
    (.error (.storage cause), { storage with memStore := failed })
  | (.ok (), written) => (.ok (), { storage with memStore := written })

def replicateToFollowers
    (storage : DistributedStorage) (environment : WriteEnvironment)
    (shardId : UInt64) (series : TimeSeries) :
    Except ClusterError Unit :=
  match storage.shardManager.getFollowerNodes shardId with
  | .error cause => .error cause
  | .ok followers =>
    if followers = [] then .ok ()
    else environment.replicate shardId series followers

/-- The branch of `write` for the primary of the shard. -/
def writeAsPrimary
    (storage : DistributedStorage) (environment : WriteEnvironment)
    (shardId : UInt64) (series : TimeSeries) :
    Except ClusterError Unit × DistributedStorage :=
  match storage.writeToLocal codec hasher environment.clock series with
  | (.error cause, failed) => (.error cause, failed)
  | (.ok (), written) =>
    (written.replicateToFollowers environment shardId series, written)

def write (storage : DistributedStorage) (environment : WriteEnvironment)
    (series : TimeSeries) :
    Except ClusterError Unit × DistributedStorage :=
  let shardId := storage.shardManager.getShardForSeries series.id
  match storage.shardManager.getPrimaryNode shardId with
  | .error cause => (.error cause, storage)
  | .ok primaryNode =>
    if primaryNode = storage.config.nodeId then
      storage.writeAsPrimary codec hasher environment shardId series
    else (environment.forward primaryNode series, storage)

/-!
## Queries
-/

def querySeriesLocal (storage : DistributedStorage) (start stop : Timestamp)
    (seriesId : TimeSeriesId) :
    Option TimeSeries :=
  match storage.memStore.getSeries seriesId with
  | none => none
  | some series =>
    let filtered := series.samples.filter (Sample.inRange start stop)
    if filtered = [] then none
    else some { series with samples := filtered }

def queryLocal (storage : DistributedStorage) (seriesIds : List TimeSeriesId)
    (start stop : Timestamp) :
    List TimeSeries :=
  seriesIds.filterMap (storage.querySeriesLocal start stop)

def queryRemote
    (rpc : RemoteQuery) (node : String) (seriesIds : List TimeSeriesId)
    (start stop : Timestamp) :
    Except ClusterError (List TimeSeries) :=
  match rpc node seriesIds start stop with
  | .noClient => .error (.internal ("Node " ++ node ++ " not found"))
  | .failed cause _ => .error cause
  | .answered success message series =>
    if success then .ok series
    else .error (.internal ("Remote query failed: " ++ message))

def routeQueries
    (storage : DistributedStorage) (seriesIds : List TimeSeriesId) :
    ShardRoutes :=
  routeSeries storage.shardManager.getShardForSeries seriesIds

/-- The part of a query for one shard; errors are only logged. -/
def queryRoute
    (storage : DistributedStorage) (rpc : RemoteQuery) (start stop : Timestamp)
    (shardId : UInt64) (seriesIds : List TimeSeriesId) :
    List TimeSeries :=
  match storage.shardManager.getPrimaryNode shardId with
  | .error _ => []
  | .ok primaryNode =>
    if primaryNode = storage.config.nodeId then
      storage.queryLocal seriesIds start stop
    else
      match queryRemote rpc primaryNode seriesIds start stop with
      | .error _ => []
      | .ok series => series

/-- `query`; the shards come in the order of a hash table. -/
def query
    (storage : DistributedStorage) (rpc : RemoteQuery) (order : List UInt64)
    (seriesIds : List TimeSeriesId) (start stop : Timestamp) :
    List TimeSeries :=
  if seriesIds = [] then []
  else
    order.flatMap fun shardId =>
      storage.queryRoute rpc start stop shardId
        (((storage.routeQueries seriesIds).lookup shardId).getD [])

def IsPrimary (storage : DistributedStorage) (shardId : UInt64) : Prop :=
  storage.shardManager.getPrimaryNode shardId = .ok storage.config.nodeId

variable {storage : DistributedStorage} {shardId : UInt64}

theorem write_of_isPrimary {series : TimeSeries}
    (isPrimary :
      storage.IsPrimary (storage.shardManager.getShardForSeries series.id))
    (environment : WriteEnvironment) :
    storage.write codec hasher environment series =
      storage.writeAsPrimary codec hasher environment
        (storage.shardManager.getShardForSeries series.id) series := by
  rw [write, isPrimary]
  exact if_pos rfl

theorem queryRoute_of_isPrimary
    (isPrimary : storage.IsPrimary shardId) (rpc : RemoteQuery)
    (start stop : Timestamp) (seriesIds : List TimeSeriesId) :
    storage.queryRoute rpc start stop shardId seriesIds =
      storage.queryLocal seriesIds start stop := by
  rw [queryRoute, isPrimary]
  exact if_pos rfl

theorem query_of_same
    {seriesIds : List TimeSeriesId} (nonempty : seriesIds ≠ [])
    (same :
      ∀ seriesId ∈ seriesIds,
        storage.shardManager.getShardForSeries seriesId = shardId)
    (rpc : RemoteQuery) {order : List UInt64}
    (isOrder : order.Perm (storage.routeQueries seriesIds).keys)
    (start stop : Timestamp) :
    storage.query rpc order seriesIds start stop =
      storage.queryRoute rpc start stop shardId seriesIds := by
  rw [routeQueries, keys_routeSeries_of_same _ nonempty same,
    List.perm_singleton] at isOrder
  have allRouted :
      (seriesIds.filter fun seriesId =>
          storage.shardManager.getShardForSeries seriesId = shardId) =
        seriesIds :=
    List.filter_eq_self.mpr fun seriesId member =>
      decide_eq_true (same seriesId member)
  rw [query, if_neg nonempty, isOrder, List.flatMap_singleton, routeQueries,
    lookup_routeSeries, allRouted]

theorem query_of_isPrimary
    (isPrimary : storage.IsPrimary shardId) {seriesIds : List TimeSeriesId}
    (nonempty : seriesIds ≠ [])
    (same :
      ∀ seriesId ∈ seriesIds,
        storage.shardManager.getShardForSeries seriesId = shardId)
    (rpc : RemoteQuery) {order : List UInt64}
    (isOrder : order.Perm (storage.routeQueries seriesIds).keys)
    (start stop : Timestamp) :
    storage.query rpc order seriesIds start stop =
      storage.queryLocal seriesIds start stop := by
  rw [query_of_same nonempty same rpc isOrder,
    queryRoute_of_isPrimary isPrimary]

def matchersPlan (matchers : List (String × String)) (start stop : Timestamp) :
    QueryPlan where
  planType := .vectorQuery {
    matchers := matchers
    atTimestamp := none
    offset := none
  }
  start := start
  stop := stop
  step := 0

def queryWithMatchers
    (debug : QueryPlan → String) (storage : DistributedStorage)
    (environment : QueryEnvironment) (matchers : List (String × String))
    (start stop : Timestamp) :
    Except Fault (List TimeSeries) × DistributedStorage :=
  let (outcome, queryCoordinator) :=
    storage.queryCoordinator.executeQuery debug (some storage.memStore)
      environment (matchersPlan matchers start stop)
  (outcome.map QueryResult.series,
    { storage with queryCoordinator := queryCoordinator })

end DistributedStorage

/-!
## Runs
-/

/-- What happens at a node. -/
inductive StorageAction where
  | shards (action : ShardAction)
  | write (environment : WriteEnvironment) (series : TimeSeries)
  | replicate (clock : WriteClock) (series : TimeSeries)
  | queryWithMatchers
      (environment : QueryEnvironment)
      (matchers : List (String × String))
      (start stop : Timestamp)

section Steps

variable (codec : WalCodec) (hasher : Bytes → TimeSeriesId)
variable (debug : QueryPlan → String)

namespace DistributedStorage

def perform (storage : DistributedStorage) :
    StorageAction → DistributedStorage
  | .shards action =>
    { storage with shardManager := storage.shardManager.perform action }
  | .write environment series =>
    (storage.write codec hasher environment series).2
  | .replicate clock series =>
    (storage.writeToLocal codec hasher clock series).2
  | .queryWithMatchers environment matchers start stop =>
    (storage.queryWithMatchers debug environment matchers start stop).2

def Possible (storage : DistributedStorage) : StorageAction → Prop
  | .shards action => storage.shardManager.Possible action
  | .queryWithMatchers environment matchers start stop =>
    storage.queryCoordinator.Possible (some storage.memStore) environment
      (matchersPlan matchers start stop)
  | _ => True

end DistributedStorage

def StorageStep (before : DistributedStorage) (action : StorageAction)
    (after : DistributedStorage) :
    Prop :=
  before.Possible action ∧ before.perform codec hasher debug action = after

end Steps

end ChronoDB.Distributed
