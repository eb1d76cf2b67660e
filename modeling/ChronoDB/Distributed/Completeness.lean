import ChronoDB.Distributed.Cluster
import ChronoDB.Distributed.LocalWrite
import ChronoDB.Query.Reads

namespace ChronoDB.Distributed

open Library Wal Memstore Query List QueryExecutor

/-!
# What a distributed query returns

The coordinator asks for the samples of the series that its own store has for one
list of matchers.  It leaves out the shards that do not answer, and returns the
samples as they come.
-/

theorem mem_dedupSeries_iff {series : List TimeSeries}
    (sameForId :
      ∀ first ∈ series, ∀ second ∈ series,
        first.id = second.id → first = second)
    {seen : List TimeSeriesId} {ts : TimeSeries} :
    ts ∈ dedupSeries seen series ↔ ts ∈ series ∧ ts.id ∉ seen := by
  induction series generalizing seen with
  | nil => simp [dedupSeries]
  | cons first rest inductionHypothesis =>
    have restSame :
        ∀ one ∈ rest, ∀ other ∈ rest, one.id = other.id → one = other :=
      fun one isOne other isOther =>
        sameForId one (mem_cons_of_mem _ isOne) other
          (mem_cons_of_mem _ isOther)
    rw [dedupSeries]
    split
    · rename_i known
      rw [inductionHypothesis restSame, mem_cons, or_and_right]
      refine (or_iff_right ?_).symm
      rintro ⟨rfl, unknown⟩
      exact unknown known
    · rename_i unknown
      rw [mem_cons, mem_cons, inductionHypothesis restSame, mem_cons, not_or]
      constructor
      · rintro (rfl | ⟨inRest, _, unseen⟩)
        · exact ⟨.inl rfl, unknown⟩
        · exact ⟨.inr inRest, unseen⟩
      · rintro ⟨rfl | inRest, unseen⟩
        · exact .inl rfl
        · by_cases same : ts.id = first.id
          · exact .inl (sameForId ts (mem_cons_of_mem _ inRest) first
              mem_cons_self same)
          · exact .inr ⟨inRest, same, unseen⟩

theorem nodup_dedupSeries
    (seen : List TimeSeriesId) (series : List TimeSeries) :
    ((dedupSeries seen series).map TimeSeries.id).Nodup ∧
      ∀ ts ∈ dedupSeries seen series, ts.id ∉ seen := by
  induction series generalizing seen with
  | nil => simp [dedupSeries]
  | cons first rest inductionHypothesis =>
    rw [dedupSeries]
    split
    · exact inductionHypothesis seen
    · rename_i unknown
      obtain ⟨distinct, unseen⟩ := inductionHypothesis (first.id :: seen)
      rw [map_cons, nodup_cons, forall_mem_cons]
      refine ⟨⟨fun again => ?_, distinct⟩, unknown, fun ts isLeft known =>
        unseen ts isLeft (mem_cons_of_mem _ known)⟩
      obtain ⟨ts, isLeft, same⟩ := mem_map.mp again
      exact unseen ts isLeft (same ▸ mem_cons_self)

/-!
## The data of a cluster
-/

namespace Cluster

/-- The first node of the shard is asked with success. -/
def Answers
    (cluster : Cluster) (manager : QueryShardManager) (shardId : UInt64) :
    Prop :=
  ∃ node rest,
    manager.getNodesForShard shardId = node :: rest ∧
      cluster.health node = .works

/-- The first node of the shard of a series is its primary by its own table. -/
def AtHome (cluster : Cluster) (manager : QueryShardManager)
    (seriesId : TimeSeriesId) :
    Prop :=
  ∀ node rest,
    manager.getNodesForShard (manager.getShardForSeries seriesId) =
        node :: rest →
      (cluster.nodes node).IsPrimary
        ((cluster.nodes node).shardManager.getShardForSeries seriesId)

/-- A store with the series of all shards, each from the first node of its own. -/
structure IsUnion
    (cluster : Cluster) (manager : QueryShardManager) (data : MemStore) :
    Prop where
  agrees : data.head.Agrees data.head.config
  holds :
    ∀ seriesId node rest,
      manager.getNodesForShard (manager.getShardForSeries seriesId) =
          node :: rest →
        data.head.series.lookup seriesId =
          (cluster.nodes node).memStore.head.series.lookup seriesId

/-- What the first node of a shard answers for those of the series in it. -/
def shardAnswer (cluster : Cluster) (manager : QueryShardManager)
    (seriesIds : List TimeSeriesId) (start stop : Timestamp)
    (shardId : UInt64) :
    List TimeSeries :=
  match manager.getNodesForShard shardId with
  | [] => []
  | node :: _ =>
    cluster.answer node
      (seriesIds.filter fun seriesId =>
        manager.getShardForSeries seriesId = shardId)
      start stop

def gathered
    (cluster : Cluster) (manager : QueryShardManager) (order : List UInt64)
    (seriesIds : List TimeSeriesId) (plan : QueryPlan) :
    QueryResult where
  series :=
    dedupSeries []
      (order.flatMap
        (cluster.shardAnswer manager seriesIds plan.start plan.stop))
  start := plan.start
  stop := plan.stop
  step := plan.step

section Gathered

variable {cluster : Cluster} {manager : QueryShardManager} {data : MemStore}
variable {seriesIds : List TimeSeriesId} {order : List UInt64}

theorem mem_shardAnswer_iff (isUnion : cluster.IsUnion manager data)
    (atHome : ∀ seriesId ∈ seriesIds, cluster.AtHome manager seriesId)
    {shardId : UInt64} (answers : cluster.Answers manager shardId)
    {start stop : Timestamp} {ts : TimeSeries} :
    ts ∈ cluster.shardAnswer manager seriesIds start stop shardId ↔
      ∃ seriesId ∈ seriesIds,
        manager.getShardForSeries seriesId = shardId ∧
          data.querySeries start stop .l0 seriesId = some ts := by
  obtain ⟨node, rest, placed, _⟩ := answers
  have routed : ∀ seriesId,
      seriesId ∈
          seriesIds.filter (fun seriesId =>
            manager.getShardForSeries seriesId = shardId) ↔
        seriesId ∈ seriesIds ∧
          manager.getShardForSeries seriesId = shardId := by
    intro seriesId
    rw [mem_filter, decide_eq_true_eq]
  rw [shardAnswer, placed]
  dsimp only
  rw [answer, DistributedStorage.mem_query_iff_of_isPrimary
    (fun seriesId member => by
      obtain ⟨isListed, inShard⟩ := (routed seriesId).mp member
      exact atHome seriesId isListed node rest (inShard ▸ placed)) _
    (cluster.isOrder node _)]
  refine exists_congr fun seriesId => ?_
  rw [routed, and_assoc]
  refine and_congr_right fun _ => and_congr_right fun inShard => ?_
  rw [MemStore.querySeries_congr
    (isUnion.holds seriesId node rest (inShard ▸ placed))]

theorem mem_answers_iff (isUnion : cluster.IsUnion manager data)
    (atHome : ∀ seriesId ∈ seriesIds, cluster.AtHome manager seriesId)
    (answers :
      ∀ seriesId ∈ seriesIds,
        cluster.Answers manager (manager.getShardForSeries seriesId))
    (isOrder : order.Perm (manager.routeQuery seriesIds).keys)
    {start stop : Timestamp} {ts : TimeSeries} :
    ts ∈ order.flatMap (cluster.shardAnswer manager seriesIds start stop) ↔
      ts.id ∈ seriesIds ∧ data.querySeries start stop .l0 ts.id = some ts := by
  have inOrder : ∀ shardId,
      shardId ∈ order ↔
        ∃ seriesId ∈ seriesIds, manager.getShardForSeries seriesId = shardId :=
    fun shardId => by
      rw [isOrder.mem_iff, ← AList.mem_keys, QueryShardManager.routeQuery,
        mem_routeSeries]
  rw [mem_flatMap]
  constructor
  · rintro ⟨shardId, isShard, isAnswered⟩
    obtain ⟨seriesId, member, rfl⟩ := (inOrder shardId).mp isShard
    obtain ⟨other, isListed, _, isQueried⟩ :=
      (mem_shardAnswer_iff isUnion atHome (answers seriesId member)).mp
        isAnswered
    obtain rfl := MemStore.id_of_querySeries isQueried
    exact ⟨isListed, isQueried⟩
  · rintro ⟨isListed, isQueried⟩
    exact ⟨_, (inOrder _).mpr ⟨ts.id, isListed, rfl⟩,
      (mem_shardAnswer_iff isUnion atHome (answers ts.id isListed)).mpr
        ⟨ts.id, isListed, rfl, isQueried⟩⟩

theorem mem_gathered_iff (isUnion : cluster.IsUnion manager data)
    (atHome : ∀ seriesId ∈ seriesIds, cluster.AtHome manager seriesId)
    (answers :
      ∀ seriesId ∈ seriesIds,
        cluster.Answers manager (manager.getShardForSeries seriesId))
    (isOrder : order.Perm (manager.routeQuery seriesIds).keys)
    {plan : QueryPlan} {ts : TimeSeries} :
    ts ∈ (cluster.gathered manager order seriesIds plan).series ↔
      ts.id ∈ seriesIds ∧
        data.querySeries plan.start plan.stop .l0 ts.id = some ts := by
  have members {ts : TimeSeries} :=
    @mem_answers_iff cluster manager data seriesIds order isUnion atHome
      answers isOrder plan.start plan.stop ts
  rw [gathered, mem_dedupSeries_iff, members]
  · exact and_iff_left not_mem_nil
  · intro first isFirst second isSecond same
    have firstQueried := (members.mp isFirst).2
    rw [same, (members.mp isSecond).2] at firstQueried
    exact (Option.some.inj firstQueried).symm

theorem nodup_gathered
    (cluster : Cluster) (manager : QueryShardManager) (order : List UInt64)
    (seriesIds : List TimeSeriesId) (plan : QueryPlan) :
    (cluster.gathered manager order seriesIds plan).series.Nodup :=
  (nodup_dedupSeries [] _).1.of_map

end Gathered

end Cluster

/-!
## What the coordinator returns
-/

namespace QueryCoordinator

def listed (memStore : Option MemStore) (plan : QueryPlan) :
    List TimeSeriesId :=
  memStore.elim [] fun store =>
    store.findSeries (firstMatchers plan.planType)

theorem extractSeriesIds_eq (memStore : Option MemStore) (plan : QueryPlan) :
    extractSeriesIds memStore plan = listed memStore plan := by
  cases memStore with
  | none => rfl
  | some store =>
    rw [extractSeriesIds, listed, Option.elim_some]
    dsimp only
    rw [extractMatchersFromPlan]
    split
    · rename_i noMatcher
      rw [noMatcher]
      rfl
    · split
      · rfl
      · rename_i nothing
        rw [not_not] at nothing
        rw [MemStore.query, MemStore.queryWithDownsample, nothing]
        rfl

variable {coordinator : QueryCoordinator} {memStore : Option MemStore}
variable {environment : QueryEnvironment} {plan : QueryPlan}
variable {cluster : Cluster}

theorem executeShardQueries_eq
    (isRpc : environment.rpc = cluster.rpc) {seriesIds : List TimeSeriesId}
    (isOrder :
      environment.order.Perm
        (coordinator.shardManager.routeQuery seriesIds).keys)
    (answers :
      ∀ seriesId ∈ seriesIds,
        cluster.Answers coordinator.shardManager
          (coordinator.shardManager.getShardForSeries seriesId)) :
    coordinator.executeShardQueries environment
        (coordinator.shardManager.routeQuery seriesIds) plan =
      environment.order.map fun shardId => {
        series :=
          cluster.shardAnswer coordinator.shardManager seriesIds plan.start
            plan.stop shardId
        start := plan.start
        stop := plan.stop
        step := 0
      } := by
  rw [executeShardQueries, ← filterMap_eq_map]
  refine filterMap_congr fun shardId isShard => ?_
  rw [isOrder.mem_iff, ← AList.mem_keys, QueryShardManager.routeQuery,
    mem_routeSeries] at isShard
  obtain ⟨seriesId, member, rfl⟩ := isShard
  obtain ⟨node, rest, placed, works⟩ := answers seriesId member
  rw [placed, Function.comp_apply, Cluster.shardAnswer, placed]
  dsimp only
  rw [queryShard, isRpc, Cluster.rpc, works, QueryShardManager.routeQuery,
    lookup_routeSeries]
  rfl

theorem executeUncached_eq
    (possible : coordinator.Possible memStore environment plan)
    (isRpc : environment.rpc = cluster.rpc)
    (answers :
      ∀ seriesId ∈ listed memStore plan,
        cluster.Answers coordinator.shardManager
          (coordinator.shardManager.getShardForSeries seriesId)) :
    coordinator.executeUncached memStore environment plan =
      cluster.gathered coordinator.shardManager environment.order
        (listed memStore plan) plan := by
  have isOrder := possible.1
  rw [extractSeriesIds_eq] at isOrder
  rw [executeUncached, extractSeriesIds_eq]
  split
  · rename_i nothing
    rw [nothing] at isOrder
    rw [nothing, Cluster.gathered, isOrder.eq_nil]
    rfl
  · rw [mergeResults, executeShardQueries_eq isRpc isOrder answers,
      Cluster.gathered, flatMap_map]

variable {std : StdFloat} {config : ParallelConfig} {debug : QueryPlan → String}
  {data : MemStore}

theorem executeQuery_eq_ok_iff {result : QueryResult} :
    (coordinator.executeQuery debug memStore environment plan).1 = .ok result ↔
      coordinator.cachedResult environment.now (debug plan) =
          .ok (some result) ∨
        coordinator.cachedResult environment.now (debug plan) = .ok none ∧
          coordinator.executeUncached memStore environment plan = result := by
  rw [executeQuery]
  rcases coordinator.cachedResult environment.now (debug plan) with
    fault | (_ | cached)
  · simp
  · simp
  · simp

theorem executeQuery_ne_error (cause : Error) :
    (coordinator.executeQuery debug memStore environment plan).1 ≠
      .error (.error cause) := by
  have onlyPanics : ∀ fault,
      coordinator.cachedResult environment.now (debug plan) = .error fault →
        fault = .panic := by
    intro fault failed
    rw [cachedResult] at failed
    split at failed
    · split at failed
      · cases failed
      · split at failed
        · exact (Except.error.inj failed).symm
        · split at failed <;> cases failed
    · cases failed
  intro failed
  rw [executeQuery] at failed
  split at failed
  · rename_i fault isFault
    rw [onlyPanics fault isFault] at failed
    cases failed
  · cases failed
  · cases failed

/-- Executing the whole plan over a store can come to the result. -/
def ComesTo (std : StdFloat) (config : ParallelConfig) (data : MemStore)
    (plan : QueryPlan) (result : QueryResult) :
    Prop :=
  .ok result ∈ (execute std ⟨data, config⟩ plan).outcomes

/--
A result is what the plan comes to over all data; and when an involved shard does
not answer, the call returns an error and caches nothing.
-/
def CompleteOrFails
    (std : StdFloat) (config : ParallelConfig) (debug : QueryPlan → String)
    (coordinator : QueryCoordinator) (memStore : Option MemStore)
    (environment : QueryEnvironment) (cluster : Cluster) (data : MemStore)
    (plan : QueryPlan) :
    Prop :=
  let (outcome, after) :=
    coordinator.executeQuery debug memStore environment plan
  (∀ result, outcome = .ok result → ComesTo std config data plan result) ∧
    ((∃ shardId ∈
          coordinator.shardManager.routeQuery (extractSeriesIds memStore plan),
        ¬cluster.Answers coordinator.shardManager shardId) →
      (∃ cause, outcome = .error (.error cause)) ∧ after = coordinator)

theorem fails_when_silent_iff :
    ((∃ shardId ∈
          coordinator.shardManager.routeQuery (extractSeriesIds memStore plan),
        ¬cluster.Answers coordinator.shardManager shardId) →
      (∃ cause,
          (coordinator.executeQuery debug memStore environment plan).1 =
            .error (.error cause)) ∧
        (coordinator.executeQuery debug memStore environment plan).2 =
          coordinator) ↔
      ∀ seriesId ∈ listed memStore plan,
        cluster.Answers coordinator.shardManager
          (coordinator.shardManager.getShardForSeries seriesId) := by
  rw [extractSeriesIds_eq]
  constructor
  · intro fails seriesId member
    by_contra silent
    obtain ⟨⟨cause, failed⟩, _⟩ :=
      fails ⟨_, (mem_routeSeries _ _ _).mpr ⟨seriesId, member, rfl⟩, silent⟩
    exact executeQuery_ne_error cause failed
  · rintro answers ⟨shardId, isShard, silent⟩
    obtain ⟨seriesId, member, rfl⟩ := (mem_routeSeries _ _ _).mp isShard
    exact absurd (answers seriesId member) silent

theorem completeOrFails_iff :
    CompleteOrFails std config debug coordinator memStore environment cluster
        data plan ↔
      (∀ seriesId ∈ listed memStore plan,
        cluster.Answers coordinator.shardManager
          (coordinator.shardManager.getShardForSeries seriesId)) ∧
      (∀ result,
        coordinator.cachedResult environment.now (debug plan) =
            .ok (some result) →
          ComesTo std config data plan result) ∧
      (coordinator.cachedResult environment.now (debug plan) = .ok none →
        ComesTo std config data plan
          (coordinator.executeUncached memStore environment plan)) := by
  rw [CompleteOrFails]
  dsimp only
  rw [fails_when_silent_iff, and_comm]
  refine and_congr_right fun _ => ?_
  simp only [executeQuery_eq_ok_iff]
  constructor
  · exact fun complete => ⟨fun result cached =>
      complete result (.inl cached), fun missed =>
        complete _ (.inr ⟨missed, rfl⟩)⟩
  · rintro ⟨fromCache, computed⟩ result (cached | ⟨missed, rfl⟩)
    · exact fromCache result cached
    · exact computed missed

def selectorOf : PlanType → Option VectorQueryPlan
  | .vectorQuery query => some query
  | .matrixQuery vectorPlan _ => some vectorPlan
  | _ => none

def wholeWindow (plan : QueryPlan) : StepContext where
  start := plan.start
  stop := plan.stop
  step := plan.step

theorem comesTo_iff_of_selector {query : VectorQueryPlan}
    (isSelector : selectorOf plan.planType = some query)
    {series : List TimeSeries} :
    ComesTo std config data plan {
        series := series
        start := plan.start
        stop := plan.stop
        step := plan.step
      } ↔
      series.Perm ((query.selection (wholeWindow plan)).read data) := by
  have executes :
      executePlan std ⟨data, config⟩ plan.planType
          (wholeWindow plan) =
        Choice.anyOrder ((query.selection (wholeWindow plan)).read data) := by
    cases isPlan : plan.planType with
    | vectorQuery own =>
      rw [isPlan] at isSelector
      cases isSelector
      rw [executePlan,
        executeVectorQuery_eq_anyOrder]
    | matrixQuery own range =>
      rw [isPlan] at isSelector
      cases isSelector
      rw [executePlan, executeMatrixQuery,
        executeVectorQuery_eq_anyOrder]
    | _ =>
      rw [isPlan] at isSelector
      cases isSelector
  rw [ComesTo, execute, ← wholeWindow, executes,
    Choice.ok_mem_outcomes_bind]
  constructor
  · rintro ⟨_, ⟨ordered, reordered, isOrdered⟩, isResult⟩
    cases isOrdered
    rw [Choice.outcomes_pure, Set.mem_singleton_iff, Except.ok.injEq,
      QueryResult.mk.injEq] at isResult
    exact isResult.1 ▸ reordered
  · intro reordered
    exact ⟨series, ⟨series, reordered, rfl⟩, rfl⟩

theorem id_of_comesTo_of_aggregation
    {op : Function} {expr : QueryPlan} {grouping : List String} {without : Bool}
    (isAggregation : plan.planType = .aggregation op expr grouping without)
    {result : QueryResult} (comesTo : ComesTo std config data plan result) :
    ∀ ts ∈ result.series, ts.id = 0 := by
  rw [ComesTo, execute, isAggregation,
    executePlan, Choice.ok_mem_outcomes_bind] at comesTo
  obtain ⟨series, isSeries, isResult⟩ := comesTo
  cases isResult
  obtain ⟨inner, _, aggregated⟩ := Choice.ok_mem_outcomes_bind.mp isSeries
  rw [executeAggregation] at aggregated
  split at aggregated
  · cases aggregated
    exact forall_mem_nil _
  · obtain ⟨keys, _, isGroups⟩ := Choice.ok_mem_outcomes_bind.mp aggregated
    refine Choice.forall_of_mem_outcomes_mapM (fun key ts isGroup => ?_)
      isGroups
    obtain ⟨timestamps, _, isSamples⟩ := Choice.ok_mem_outcomes_bind.mp isGroup
    obtain ⟨samples, _, isSeries⟩ := Choice.ok_mem_outcomes_bind.mp isSamples
    cases isSeries
    rfl

/--
The listed series with samples in the window of the plan are those that the
selector reads, with the same samples.
-/
def ListsWhatIsRead
    (memStore : Option MemStore) (data : MemStore) (plan : QueryPlan)
    (query : VectorQueryPlan) :
    Prop :=
  ∀ ts : TimeSeries,
    ts.id ∈ listed memStore plan ∧
        data.querySeries plan.start plan.stop .l0 ts.id = some ts ↔
      ts ∈ (query.selection (wholeWindow plan)).read data

/-- All nodes are the primary of the only shard, with the series of a store. -/
def storeCluster (store : MemStore) : Cluster where
  nodes := fun _ => { onlyNode with memStore := store }
  health := fun _ => .works
  calls := fun _ _ _ _ _ => .noClient
  order := fun _ seriesIds =>
    (onlyNode.routeQueries seriesIds).keys
  isOrder := fun _ _ => .refl _

/-- A store with one series. -/
def exampleStore : MemStore := exampleExecutor.memstore

def allSeriesPlan : QueryPlan where
  planType := .vectorQuery {
    matchers := []
    atTimestamp := none
    offset := none
  }
  start := 0
  stop := 1000
  step := 1

/-- The only shard is asked for the series of the store. -/
def exampleEnvironment : QueryEnvironment where
  now := 0
  later := 0
  rpc := (storeCluster exampleStore).rpc
  order := [0]
  cacheOrder := []

def shardCoordinator (shardToNodes : FiniteMap UInt64 (List String)) :
    QueryCoordinator :=
  .new { shardToNodes := shardToNodes, shardCount := 1 } .default

section Examples

variable (shardToNodes : FiniteMap UInt64 (List String))

theorem getShardForSeries_shardCoordinator (seriesId : TimeSeriesId) :
    (shardCoordinator shardToNodes).shardManager.getShardForSeries seriesId =
      0 :=
  UInt64.mod_one

theorem listed_exampleStore :
    listed (some exampleStore) allSeriesPlan = [Json.seriesId] := by
  decide +kernel

theorem possible_shardCoordinator :
    (shardCoordinator shardToNodes).Possible (some exampleStore)
      exampleEnvironment allSeriesPlan := by
  refine ⟨.of_eq ?_, .refl _⟩
  rw [extractSeriesIds_eq, listed_exampleStore]
  exact (keys_routeSeries_of_same _ (cons_ne_nil _ _) fun seriesId _ =>
    getShardForSeries_shardCoordinator shardToNodes seriesId).symm

theorem agrees_exampleStore :
    exampleStore.head.Agrees exampleStore.head.config := by
  have run :
      Run (HeadStep SipHash.hash) (HeadBlock.new ⟨1⟩)
        [.getOrCreateSeries Json.labels,
          .addSample Json.seriesId ⟨1000, 1⟩] _ :=
    .cons rfl (.single rfl)
  have agrees := HeadBlock.Agrees.ofRun run
  have sameConfig : exampleStore.head.config = ⟨1⟩ := agrees.sameConfig
  rw [sameConfig]
  exact agrees

theorem isUnion_exampleStore :
    (storeCluster exampleStore).IsUnion
      (shardCoordinator shardToNodes).shardManager exampleStore where
  agrees := agrees_exampleStore
  holds := fun _ _ _ _ => rfl

end Examples

def servedShard : FiniteMap UInt64 (List String) :=
  ((QueryShardManager.new 1).assignShardToNode 0 "a").shardToNodes

end QueryCoordinator

end ChronoDB.Distributed
