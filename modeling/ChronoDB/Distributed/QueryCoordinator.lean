import ChronoDB.Distributed.Shard
import ChronoDB.Query.Execution

namespace ChronoDB.Distributed

open Library Memstore Query List

/-!
# The query coordinator

The coordinator has a shard manager of its own, which places a series by its id
alone.  It finds the series of a plan in the store of its node, asks the first
node of each of their shards for the samples, and puts the answers together.
-/

structure QueryShardManager where
  shardToNodes : FiniteMap UInt64 (List String)
  shardCount : UInt64

/-- Series ids under their shards, in their order. -/
abbrev ShardRoutes := FiniteMap UInt64 (List TimeSeriesId)

/-- `entry(shard_id).or_insert_with(Vec::new).push(series_id)`, for all ids. -/
def routeSeries
    (shardOf : TimeSeriesId → UInt64) (seriesIds : List TimeSeriesId) :
    ShardRoutes :=
  seriesIds.foldl
    (fun routes seriesId =>
      routes.insert (shardOf seriesId)
        ((routes.lookup (shardOf seriesId)).getD [] ++ [seriesId]))
    ∅

section RouteSeries

variable (shardOf : TimeSeriesId → UInt64)

theorem lookup_foldl_routes
    (routes : ShardRoutes) (seriesIds : List TimeSeriesId) (shardId : UInt64) :
    ((seriesIds.foldl
        (fun routes seriesId =>
          routes.insert (shardOf seriesId)
            ((routes.lookup (shardOf seriesId)).getD [] ++ [seriesId]))
        routes).lookup shardId).getD [] =
      (routes.lookup shardId).getD [] ++
        seriesIds.filter fun seriesId => shardOf seriesId = shardId := by
  induction seriesIds generalizing routes with
  | nil => rw [foldl_nil, filter_nil, append_nil]
  | cons seriesId rest inductionHypothesis =>
    rw [foldl_cons, inductionHypothesis]
    by_cases same : shardOf seriesId = shardId
    · rw [same, AList.lookup_insert, Option.getD_some,
        filter_cons_of_pos (by simpa using same), append_assoc,
        singleton_append]
    · rw [AList.lookup_insert_ne (Ne.symm same),
        filter_cons_of_neg (by simpa using same)]

theorem lookup_routeSeries (seriesIds : List TimeSeriesId) (shardId : UInt64) :
    ((routeSeries shardOf seriesIds).lookup shardId).getD [] =
      seriesIds.filter fun seriesId => shardOf seriesId = shardId := by
  rw [routeSeries, lookup_foldl_routes, AList.lookup_empty, Option.getD_none,
    nil_append]

theorem mem_foldl_routes
    (routes : ShardRoutes) (seriesIds : List TimeSeriesId) (shardId : UInt64) :
    shardId ∈
        seriesIds.foldl
          (fun routes seriesId =>
            routes.insert (shardOf seriesId)
              ((routes.lookup (shardOf seriesId)).getD [] ++ [seriesId]))
          routes ↔
      shardId ∈ routes ∨ ∃ seriesId ∈ seriesIds, shardOf seriesId = shardId := by
  induction seriesIds generalizing routes with
  | nil => simp
  | cons seriesId rest inductionHypothesis =>
    rw [foldl_cons, inductionHypothesis, AList.mem_insert]
    simp only [exists_mem_cons_iff, eq_comm (a := shardId)]
    tauto

theorem mem_routeSeries (seriesIds : List TimeSeriesId) (shardId : UInt64) :
    shardId ∈ routeSeries shardOf seriesIds ↔
      ∃ seriesId ∈ seriesIds, shardOf seriesId = shardId := by
  rw [routeSeries, mem_foldl_routes]
  exact or_iff_right (AList.notMem_empty shardId)

theorem keys_routeSeries_of_same
    {seriesIds : List TimeSeriesId} (nonempty : seriesIds ≠ [])
    {shardId : UInt64}
    (same : ∀ seriesId ∈ seriesIds, shardOf seriesId = shardId) :
    (routeSeries shardOf seriesIds).keys = [shardId] := by
  obtain ⟨first, isFirst⟩ := exists_mem_of_ne_nil seriesIds nonempty
  refine perm_singleton.mp
    ((perm_ext_iff_of_nodup (routeSeries shardOf seriesIds).keys_nodup
      (nodup_singleton shardId)).mpr fun other => ?_)
  rw [← AList.mem_keys, mem_routeSeries, mem_singleton]
  constructor
  · rintro ⟨seriesId, member, rfl⟩
    exact same seriesId member
  · rintro rfl
    exact ⟨first, isFirst, same first isFirst⟩

end RouteSeries

namespace QueryShardManager

def new (shardCount : UInt64) : QueryShardManager where
  shardToNodes := ∅
  shardCount := shardCount

/-- The shard of a series; a count of zero panics. -/
def getShardForSeries (manager : QueryShardManager) (seriesId : TimeSeriesId) :
    UInt64 :=
  seriesId % manager.shardCount

def getNodesForShard (manager : QueryShardManager) (shardId : UInt64) :
    List String :=
  (manager.shardToNodes.lookup shardId).getD []

def assignShardToNode
    (manager : QueryShardManager) (shardId : UInt64) (node : String) :
    QueryShardManager :=
  {
    manager with
    shardToNodes :=
      manager.shardToNodes.insert shardId
        (manager.getNodesForShard shardId ++ [node])
  }

def routeQuery (manager : QueryShardManager) (seriesIds : List TimeSeriesId) :
    ShardRoutes :=
  routeSeries manager.getShardForSeries seriesIds

end QueryShardManager

/-!
## The matchers of a plan
-/

mutual

def firstMatchers : PlanType → List (String × String)
  | .vectorQuery query => query.matchers
  | .matrixQuery vectorPlan _ => vectorPlan.matchers
  | .call _ args _ _ => firstMatchersOfArgs args
  | .binaryExpr _ lhs rhs =>
    let matchers := firstMatchersOfPart lhs
    if matchers = [] then firstMatchersOfPart rhs else matchers
  | .unaryExpr _ expr => firstMatchersOfPart expr
  | .aggregation _ expr _ _ => firstMatchersOfPart expr
  | .subquery expr _ _ => firstMatchersOfPart expr

def firstMatchersOfPart : QueryPlan → List (String × String)
  | ⟨planType, _, _, _⟩ => firstMatchers planType

def firstMatchersOfArgs : List QueryPlan → List (String × String)
  | [] => []
  | arg :: rest =>
    let matchers := firstMatchersOfPart arg
    if matchers = [] then firstMatchersOfArgs rest else matchers

end

/-!
## Executing a query
-/

structure QueryCoordinatorConfig where
  enableQueryCache : Bool
  queryCacheSize : ℕ
  queryCacheTtl : ℕ
  deriving Repr, DecidableEq

def QueryCoordinatorConfig.default : QueryCoordinatorConfig where
  enableQueryCache := true
  queryCacheSize := 1000
  queryCacheTtl := 300

/-- The results are kept with the time in nanoseconds. -/
structure QueryCoordinator where
  shardManager : QueryShardManager
  config : QueryCoordinatorConfig
  queryCache : FiniteMap String (QueryResult × ℕ)

/-- What a remote call to a node comes to; an error has a text. -/
inductive NodeReply where
  | noClient
  | failed (cause : ClusterError) (display : String)
  | answered (success : Bool) (message : String) (series : List TimeSeries)
  deriving Repr, DecidableEq

abbrev RemoteQuery :=
  String → List TimeSeriesId → Timestamp → Timestamp → NodeReply

/--
What a call finds outside of the coordinator: the clock before and after the
remote calls, the nodes, and the orders of the two hash tables.
-/
structure QueryEnvironment where
  now : ℕ
  later : ℕ
  rpc : RemoteQuery
  order : List UInt64
  cacheOrder : List String

/-- Only the first series with an id stays. -/
def dedupSeries (seen : List TimeSeriesId) : List TimeSeries → List TimeSeries
  | [] => []
  | ts :: rest =>
    if ts.id ∈ seen then dedupSeries seen rest
    else ts :: dedupSeries (ts.id :: seen) rest

namespace QueryCoordinator

def new (shardManager : QueryShardManager) (config : QueryCoordinatorConfig) :
    QueryCoordinator where
  shardManager := shardManager
  config := config
  queryCache := ∅

def extractMatchersFromPlan : PlanType → List (String × String) :=
  firstMatchers

/-- The series of a plan; `memStore` is the store of the coordinator's node. -/
def extractSeriesIds (memStore : Option MemStore) (plan : QueryPlan) :
    List TimeSeriesId :=
  match memStore with
  | none => []
  | some store =>
    let matchers := extractMatchersFromPlan plan.planType
    if matchers = [] then
      store.getAllSeriesIds
    else
      let seriesIds := store.findSeries matchers
      if seriesIds ≠ [] then seriesIds
      else
        (store.query matchers plan.start plan.stop).map TimeSeries.id

def queryShard
    (rpc : RemoteQuery) (node : String) (seriesIds : List TimeSeriesId)
    (start stop : Timestamp) :
    Except ClusterError QueryResult :=
  match rpc node seriesIds start stop with
  | .noClient => .error (.internal ("No RPC client for node " ++ node))
  | .failed _ display =>
    .error (.internal ("Query failed on node " ++ node ++ ": " ++ display))
  | .answered success message series =>
    if success then
      .ok { series := series, start := start, stop := stop, step := 0 }
    else
      .error (.internal ("Query failed on node " ++ node ++ ": " ++ message))

/-- One task for each shard that has a node; errors are only logged. -/
def executeShardQueries
    (coordinator : QueryCoordinator) (environment : QueryEnvironment)
    (routes : ShardRoutes) (plan : QueryPlan) :
    List QueryResult :=
  environment.order.filterMap fun shardId =>
    match coordinator.shardManager.getNodesForShard shardId with
    | [] => none
    | primaryNode :: _ =>
      (queryShard environment.rpc primaryNode
        ((routes.lookup shardId).getD []) plan.start plan.stop).toOption

def mergeResults (results : List QueryResult) (plan : QueryPlan) :
    QueryResult where
  series := dedupSeries [] (results.flatMap QueryResult.series)
  start := plan.start
  stop := plan.stop
  step := plan.step

/-- The time at which a result was kept. -/
def keptAt (coordinator : QueryCoordinator) (key : String) : ℕ :=
  (coordinator.queryCache.lookup key).elim 0 Prod.snd

/-- `cache_result`: a full cache first loses its oldest result. -/
def cacheResult
    (coordinator : QueryCoordinator) (environment : QueryEnvironment)
    (key : String) (result : QueryResult) :
    QueryCoordinator :=
  let kept :=
    if coordinator.config.queryCacheSize ≤ coordinator.queryCache.keys.length
        ∧ environment.cacheOrder ≠ [] then
      coordinator.queryCache.erase
        (firstLeast coordinator.keptAt "" environment.cacheOrder)
    else coordinator.queryCache
  {
    coordinator with
    queryCache := kept.insert key (result, environment.later)
  }

/-- What the cache has for a key; a clock that went back panics. -/
def cachedResult (coordinator : QueryCoordinator) (now : ℕ) (key : String) :
    Except Fault (Option QueryResult) :=
  if coordinator.config.enableQueryCache then
    match coordinator.queryCache.lookup key with
    | none => .ok none
    | some (result, time) =>
      if now < time then .error .panic
      else if (now - time) / 1000000000 < coordinator.config.queryCacheTtl
      then .ok (some result)
      else .ok none
  else .ok none

/-- The part of `execute_query` after the look into the cache. -/
def executeUncached
    (coordinator : QueryCoordinator) (memStore : Option MemStore)
    (environment : QueryEnvironment) (plan : QueryPlan) :
    QueryResult :=
  let seriesIds := extractSeriesIds memStore plan
  if seriesIds = [] then
    { series := [], start := plan.start, stop := plan.stop, step := plan.step }
  else
    mergeResults
      (coordinator.executeShardQueries environment
        (coordinator.shardManager.routeQuery seriesIds) plan)
      plan

/-- `execute_query`; `debug` writes a plan out as the key of its result. -/
def executeQuery (debug : QueryPlan → String) (coordinator : QueryCoordinator)
    (memStore : Option MemStore) (environment : QueryEnvironment)
    (plan : QueryPlan) :
    Except Fault QueryResult × QueryCoordinator :=
  match coordinator.cachedResult environment.now (debug plan) with
  | .error fault => (.error fault, coordinator)
  | .ok (some result) => (.ok result, coordinator)
  | .ok none =>
    let result := coordinator.executeUncached memStore environment plan
    (.ok result, coordinator.cacheResult environment (debug plan) result)

/-- The tasks and the cache are gone through in some order. -/
def Possible (coordinator : QueryCoordinator) (memStore : Option MemStore)
    (environment : QueryEnvironment) (plan : QueryPlan) :
    Prop :=
  environment.order.Perm
      (coordinator.shardManager.routeQuery
        (extractSeriesIds memStore plan)).keys ∧
    environment.cacheOrder.Perm coordinator.queryCache.keys

end QueryCoordinator

end ChronoDB.Distributed
