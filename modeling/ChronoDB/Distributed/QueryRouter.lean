import ChronoDB.Distributed.LocalWrite
import ChronoDB.Library.Grouping

namespace ChronoDB.Distributed

open Library Query DistributedStorage

/-!
# The query router

The router estimates the shards of a query from the texts of its matchers, and
sends the plan to their primaries.  Series are placed by the hash of their ids.
-/

mutual

def vectorQueries : PlanType → List VectorQueryPlan
  | .vectorQuery query => [query]
  | .matrixQuery vectorPlan _ => [vectorPlan]
  | .call _ args _ _ => vectorQueriesOfArgs args
  | .binaryExpr _ lhs rhs => vectorQueriesOfPart lhs ++ vectorQueriesOfPart rhs
  | .unaryExpr _ expr => vectorQueriesOfPart expr
  | .aggregation _ expr _ _ => vectorQueriesOfPart expr
  | .subquery expr _ _ => vectorQueriesOfPart expr

def vectorQueriesOfPart : QueryPlan → List VectorQueryPlan
  | ⟨planType, _, _, _⟩ => vectorQueries planType

def vectorQueriesOfArgs : List QueryPlan → List VectorQueryPlan
  | [] => []
  | arg :: rest => vectorQueriesOfPart arg ++ vectorQueriesOfArgs rest

end

/-- The shards with their nodes, the primary first. -/
def ShardManager.getShardDistribution (manager : ShardManager) :
    FiniteMap UInt64 (List String) :=
  FiniteMap.mapValues Shard.nodes manager.shards

namespace QueryRouter

variable (manager : ShardManager)

def extractMatchersFromPlan : PlanType → List (String × String) :=
  firstMatchers

/-- `hash`: the default hasher on the bytes alone. -/
def hash (data : Bytes) : UInt64 :=
  SipHash.hash data

/-- The primary of a shard, unless the shard is not there or has none. -/
def primaryOf (shardId : UInt64) : Option String :=
  match manager.getShardDistribution.lookup shardId with
  | some (primary :: _) => if primary ≠ "" then some primary else none
  | _ => none

/-- The text of a matcher, hashed as if it were a series id. -/
def estimatedShard (matcher : String × String) : UInt64 :=
  manager.getShardForSeries (hash (stringBytes (matcher.1 ++ "=" ++ matcher.2)))

def estimatedNodes (matchers : List (String × String)) : List String :=
  (matchers.filterMap fun matcher =>
    primaryOf manager (estimatedShard manager matcher)).dedup

def targetNodes (plan : QueryPlan) (nodes : List String) :
    List String :=
  let matchers := extractMatchersFromPlan plan.planType
  if matchers = [] then nodes
  else
    let targets := estimatedNodes manager matchers
    if targets = [] then nodes else targets

/-- `route`: every target gets the whole plan. -/
def route (plan : QueryPlan) (nodes : List String) :
    FiniteMap String QueryPlan :=
  (targetNodes manager plan nodes).foldl
    (fun routes node => routes.insert node plan) ∅

/-!
## What the routes miss
-/

def Selects (query : VectorQueryPlan) (labels : Labels) : Prop :=
  ∀ matcher ∈ query.matchers, ⟨matcher.1, matcher.2⟩ ∈ labels

def ServesSelected
    (hasher : Bytes → TimeSeriesId) (plan : QueryPlan) (node : String) :
    Prop :=
  ∃ query ∈ vectorQueries plan.planType,
    ∃ labels,
      Selects query labels ∧
        primaryOf manager
            (manager.getShardForSeries (calculateSeriesId hasher labels)) =
          some node

variable {manager}

theorem mem_foldl_insert
    (plan : QueryPlan) (routes : FiniteMap String QueryPlan)
    (targets : List String) (node : String) :
    node ∈ targets.foldl (fun routes node => routes.insert node plan) routes ↔
      node ∈ routes ∨ node ∈ targets := by
  induction targets generalizing routes with
  | nil => simp
  | cons target rest inductionHypothesis =>
    rw [List.foldl_cons, inductionHypothesis, AList.mem_insert, List.mem_cons]
    tauto

theorem mem_route_iff {plan : QueryPlan} {nodes : List String} {node : String} :
    node ∈ route manager plan nodes ↔
      node ∈ targetNodes manager plan nodes := by
  rw [route, mem_foldl_insert]
  exact or_iff_right (AList.notMem_empty node)

def FindsNoNode (manager : ShardManager) (plan : QueryPlan) : Prop :=
  ∀ matcher ∈ firstMatchers plan.planType,
    primaryOf manager (estimatedShard manager matcher) = none

theorem mem_estimatedNodes_iff
    {matchers : List (String × String)} {node : String} :
    node ∈ estimatedNodes manager matchers ↔
      ∃ matcher ∈ matchers,
        primaryOf manager (estimatedShard manager matcher) = some node := by
  rw [estimatedNodes, List.mem_dedup, List.mem_filterMap]

theorem targetNodes_of_findsNoNode
    {plan : QueryPlan} (findsNone : FindsNoNode manager plan)
    (nodes : List String) :
    targetNodes manager plan nodes = nodes := by
  have noTarget :
      estimatedNodes manager (extractMatchersFromPlan plan.planType) = [] := by
    rw [List.eq_nil_iff_forall_not_mem]
    intro node isTarget
    obtain ⟨matcher, member, isPrimary⟩ := mem_estimatedNodes_iff.mp isTarget
    rw [findsNone matcher member] at isPrimary
    cases isPrimary
  rw [targetNodes]
  dsimp only
  rw [if_pos noTarget, ite_self]

theorem targetNodes_of_not_findsNoNode
    {plan : QueryPlan} (findsSome : ¬FindsNoNode manager plan)
    (nodes : List String) :
    targetNodes manager plan nodes =
      estimatedNodes manager (firstMatchers plan.planType) := by
  rw [FindsNoNode] at findsSome
  push Not at findsSome
  obtain ⟨matcher, member, found⟩ := findsSome
  obtain ⟨node, isPrimary⟩ := Option.ne_none_iff_exists'.mp found
  have isTarget := mem_estimatedNodes_iff.mpr ⟨matcher, member, isPrimary⟩
  rw [targetNodes]
  dsimp only
  rw [extractMatchersFromPlan, if_neg (List.ne_nil_of_mem member),
    if_neg (List.ne_nil_of_mem isTarget)]

/--
The routes contain the primary of every series that the plan selects exactly when
the plan goes to all nodes and these are among them, or each of them is also the
primary of the estimated shard of a matcher.
-/
theorem route_misses_nothing_iff (manager : ShardManager)
    (hasher : Bytes → TimeSeriesId) (plan : QueryPlan) (nodes : List String) :
    (∀ query ∈ vectorQueries plan.planType,
        ∀ labels,
          Selects query labels →
            ∀ node,
              primaryOf manager
                  (manager.getShardForSeries
                    (calculateSeriesId hasher labels)) =
                some node →
              node ∈ route manager plan nodes) ↔
      (FindsNoNode manager plan →
        ∀ node, ServesSelected manager hasher plan node → node ∈ nodes) ∧
      (¬FindsNoNode manager plan →
        ∀ node,
          ServesSelected manager hasher plan node →
            ∃ matcher ∈ firstMatchers plan.planType,
              primaryOf manager (estimatedShard manager matcher) =
                some node) := by
  have contains :
      (∀ query ∈ vectorQueries plan.planType,
          ∀ labels,
            Selects query labels →
              ∀ node,
                primaryOf manager
                    (manager.getShardForSeries
                      (calculateSeriesId hasher labels)) =
                  some node →
                node ∈ route manager plan nodes) ↔
        ∀ node,
          ServesSelected manager hasher plan node →
            node ∈ targetNodes manager plan nodes := by
    constructor
    · rintro contains node ⟨query, isQuery, labels, selects, isPrimary⟩
      exact mem_route_iff.mp
        (contains query isQuery labels selects node isPrimary)
    · intro contains query isQuery labels selects node isPrimary
      exact mem_route_iff.mpr
        (contains node ⟨query, isQuery, labels, selects, isPrimary⟩)
  rw [contains]
  by_cases findsNone : FindsNoNode manager plan
  · rw [targetNodes_of_findsNoNode findsNone]
    exact ⟨fun all => ⟨fun _ => all, absurd findsNone⟩, fun both =>
      both.1 findsNone⟩
  · rw [targetNodes_of_not_findsNoNode findsNone]
    simp only [mem_estimatedNodes_iff]
    exact ⟨fun all => ⟨fun none => absurd none findsNone, fun _ => all⟩,
      fun both => both.2 findsNone⟩

/-- Two shards, each on a node of its own. -/
def twoPrimaries : ShardManager :=
  ((ShardManager.new { shardCount := 2, replicationFactor := 1 }).start
    |>.assignShard 0 "a" []) |>.assignShard 1 "b" []

/-- A query for the series of one job. -/
def jobPlan : QueryPlan where
  planType := .vectorQuery {
    matchers := [("job", "api")]
    atTimestamp := none
    offset := none
  }
  start := 0
  stop := 1000
  step := 1

/-- The series of the job is on the node that the plan is not sent to. -/
theorem job_series_is_missed :
    ¬ ∀ query ∈ vectorQueries jobPlan.planType,
        ∀ labels,
          Selects query labels →
            ∀ node,
              primaryOf twoPrimaries
                  (twoPrimaries.getShardForSeries
                    (calculateSeriesId SipHash.hash labels)) =
                some node →
              node ∈ route twoPrimaries jobPlan ["a", "b"] := by
  intro contains
  have isPrimary :
      primaryOf twoPrimaries
          (twoPrimaries.getShardForSeries
            (calculateSeriesId SipHash.hash
              [{ name := "job", value := "api" }])) =
        some "a" := by
    decide +kernel
  have routed :=
    contains
      { matchers := [("job", "api")], atTimestamp := none, offset := none }
      (List.mem_singleton_self _) [{ name := "job", value := "api" }]
      (by
        intro matcher isOnly
        rw [List.mem_singleton.mp isOnly]
        exact List.mem_singleton_self _)
      "a" isPrimary
  rw [mem_route_iff] at routed
  have targets : targetNodes twoPrimaries jobPlan ["a", "b"] = ["b"] := by
    decide +kernel
  rw [targets] at routed
  exact absurd routed (by decide)

/-!
## Routes by series
-/

/-- `route_by_series`: a series without a primary is passed over. -/
def routeBySeries (manager : ShardManager) (seriesIds : List TimeSeriesId) :
    Except ClusterError (FiniteMap String (List TimeSeriesId)) :=
  .ok
    (groupByKey
      (seriesIds.filterMap fun seriesId =>
        (primaryOf manager (manager.getShardForSeries seriesId)).map
          fun node => (node, [seriesId])))

end QueryRouter

/-- The node that answers for a shard in `query`, if one does. -/
def DistributedStorage.answeringNode
    (storage : DistributedStorage) (rpc : RemoteQuery) (start stop : Timestamp)
    (shardId : UInt64) (seriesIds : List TimeSeriesId) :
    Option String :=
  match storage.shardManager.getPrimaryNode shardId with
  | .error _ => none
  | .ok primaryNode =>
    if primaryNode = storage.config.nodeId then some primaryNode
    else
      match queryRemote rpc primaryNode seriesIds start stop with
      | .error _ => none
      | .ok _ => some primaryNode

/-- The ids that `query` has answers for from each node; it never fails. -/
def DistributedStorage.queriedIds
    (storage : DistributedStorage) (rpc : RemoteQuery) (order : List UInt64)
    (seriesIds : List TimeSeriesId) (start stop : Timestamp) :
    Except ClusterError (String → List TimeSeriesId) :=
  .ok fun node =>
    order.flatMap fun shardId =>
      let ids := ((storage.routeQueries seriesIds).lookup shardId).getD []
      if storage.answeringNode rpc start stop shardId ids = some node then ids
      else []

/-- Every id of a list is placed on exactly one node, or the call fails. -/
def PlacesEach (seriesIds : List TimeSeriesId) :
    Except ClusterError (String → List TimeSeriesId) → Prop
  | .error _ => True
  | .ok placed =>
    ∀ seriesId ∈ seriesIds, ∃ node,
      (placed node).count seriesId = seriesIds.count seriesId ∧
        ∀ other, seriesId ∈ placed other → other = node

section PlacedSeries

variable {storage : DistributedStorage} {rpc : RemoteQuery}
variable {start stop : Timestamp} {seriesIds : List TimeSeriesId}

theorem placesEach_iff {placed : String → List TimeSeriesId}
    {nodeOf : TimeSeriesId → Option String}
    (isPlaced :
      ∀ node,
        (placed node).Perm
          (seriesIds.filter fun seriesId => nodeOf seriesId = some node)) :
    PlacesEach seriesIds (.ok placed) ↔
      ∀ seriesId ∈ seriesIds, ∃ node, nodeOf seriesId = some node := by
  refine forall₂_congr fun seriesId member => exists_congr fun node => ?_
  have onNode (other : String) :
      seriesId ∈ placed other ↔ nodeOf seriesId = some other := by
    rw [(isPlaced other).mem_iff, List.mem_filter, decide_eq_true_iff]
    exact and_iff_right member
  constructor
  · rintro ⟨sameCount, _⟩
    refine (onNode node).mp (List.count_pos_iff.mp ?_)
    rw [sameCount]
    exact List.count_pos_iff.mpr member
  · intro hasNode
    refine ⟨?_, fun other isOther => ?_⟩
    · rw [(isPlaced node).count_eq]
      exact List.count_filter (decide_eq_true hasNode)
    · rw [onNode, hasNode] at isOther
      exact (Option.some.inj isOther).symm

theorem primaryOf_eq_some_iff
    {manager : ShardManager} {shardId : UInt64} {node : String} :
    QueryRouter.primaryOf manager shardId = some node ↔
      manager.getPrimaryNode shardId = .ok node := by
  rw [QueryRouter.primaryOf, ShardManager.getShardDistribution,
    FiniteMap.lookup_mapValues, ShardManager.getPrimaryNode]
  cases manager.shards.lookup shardId with
  | none => simp
  | some shard =>
    by_cases unassigned : shard.primaryNode = ""
    · simp [Shard.nodes, unassigned]
    · simp [Shard.nodes, unassigned]

theorem lookup_routeBySeries (manager : ShardManager) (node : String) :
    ((groupByKey
        (seriesIds.filterMap fun seriesId =>
          (QueryRouter.primaryOf manager
              (manager.getShardForSeries seriesId)).map
            fun node => (node, [seriesId]))).lookup node).getD [] =
      seriesIds.filter fun seriesId =>
        QueryRouter.primaryOf manager (manager.getShardForSeries seriesId) =
          some node := by
  rw [lookup_groupByKey]
  induction seriesIds with
  | nil => rfl
  | cons seriesId rest inductionHypothesis =>
    cases hasPrimary :
        QueryRouter.primaryOf manager (manager.getShardForSeries seriesId) with
    | none => simpa [hasPrimary] using inductionHypothesis
    | some primary =>
      by_cases same : primary = node
      · simpa [hasPrimary, same] using inductionHypothesis
      · simpa [hasPrimary, same] using inductionHypothesis

theorem queriedIds_perm {order : List UInt64}
    (isOrder : order.Perm (storage.routeQueries seriesIds).keys)
    (node : String) :
    let shardOf := storage.shardManager.getShardForSeries
    (order.flatMap fun shardId =>
        let ids := ((storage.routeQueries seriesIds).lookup shardId).getD []
        if storage.answeringNode rpc start stop shardId ids = some node then ids
        else []).Perm
      (seriesIds.filter fun seriesId =>
        storage.answeringNode rpc start stop (shardOf seriesId)
            (seriesIds.filter fun other => shardOf other = shardOf seriesId) =
          some node) := by
  intro shardOf
  have parts :
      (fun shardId =>
          let ids := ((storage.routeQueries seriesIds).lookup shardId).getD []
          if storage.answeringNode rpc start stop shardId ids = some node then ids
          else []) =
        fun shardId =>
          seriesIds.filter fun seriesId =>
            shardOf seriesId = shardId ∧
              storage.answeringNode rpc start stop shardId
                  (seriesIds.filter fun other => shardOf other = shardId) =
                some node := by
    funext shardId
    dsimp only
    rw [routeQueries, lookup_routeSeries]
    split
    · rename_i answers
      simp [shardOf, answers]
    · rename_i unanswered
      simp [shardOf, unanswered]
  rw [parts]
  refine (flatMap_filter_perm_iff
    (isOrder.nodup_iff.mpr (AList.keys_nodup _))).mpr fun seriesId member => ?_
  simp only [decide_eq_true_iff]
  refine ⟨⟨?_, fun answers => ?_⟩, ?_⟩
  · rintro ⟨shardId, _, rfl, answers⟩
    exact answers
  · refine ⟨shardOf seriesId, isOrder.mem_iff.mpr ?_, rfl, answers⟩
    exact AList.mem_keys.mp
      ((mem_routeSeries _ _ _).mpr ⟨seriesId, member, rfl⟩)
  · rintro first _ second _ ⟨rfl, _⟩ ⟨same, _⟩
    exact same

/--
The router and a query place every id of a list, each of them, exactly when all
shards of the ids have primaries and all primaries but the node itself answer.
-/
theorem routing_loses_nothing_iff (storage : DistributedStorage)
    (rpc : RemoteQuery) (order : List UInt64) (seriesIds : List TimeSeriesId)
    (start stop : Timestamp)
    (isOrder : order.Perm (storage.routeQueries seriesIds).keys) :
    (PlacesEach seriesIds
          ((QueryRouter.routeBySeries storage.shardManager seriesIds).map
            fun routes node => (routes.lookup node).getD []) ∧
        PlacesEach seriesIds
          (storage.queriedIds rpc order seriesIds start stop)) ↔
      ∀ seriesId ∈ seriesIds, ∃ primaryNode,
        storage.shardManager.getPrimaryNode
            (storage.shardManager.getShardForSeries seriesId) =
          .ok primaryNode ∧
        (primaryNode ≠ storage.config.nodeId →
          ∃ series,
            queryRemote rpc primaryNode
                (seriesIds.filter fun other =>
                  storage.shardManager.getShardForSeries other =
                    storage.shardManager.getShardForSeries seriesId)
                start stop =
              .ok series) := by
  have routed := placesEach_iff fun node =>
    List.Perm.of_eq (@lookup_routeBySeries seriesIds storage.shardManager node)
  have queried := placesEach_iff fun node =>
    @queriedIds_perm storage rpc start stop seriesIds order isOrder node
  refine (and_congr routed queried).trans ?_
  rw [← forall₂_and]
  refine forall₂_congr fun seriesId _ => ?_
  simp only [primaryOf_eq_some_iff, answeringNode]
  cases storage.shardManager.getPrimaryNode
      (storage.shardManager.getShardForSeries seriesId) with
  | error cause => simp
  | ok primaryNode =>
    simp only [Except.ok.injEq, exists_eq', true_and, exists_eq_left']
    by_cases isLocal : primaryNode = storage.config.nodeId
    · simp [isLocal]
    · simp only [ne_eq, isLocal, not_false_eq_true, true_implies]
      cases queryRemote rpc primaryNode _ start stop with
      | error cause => simp
      | ok series => simp

/-- The primary of all shards has all ids, also one that is listed twice. -/
theorem only_node_has_all_series :
    PlacesEach [7, 7]
        ((QueryRouter.routeBySeries onlyNode.shardManager [7, 7]).map
          fun routes node => (routes.lookup node).getD []) ∧
      PlacesEach [7, 7]
        (onlyNode.queriedIds (fun _ _ _ _ => .noClient) [0] [7, 7] 0 10) := by
  have oneRoute : (onlyNode.routeQueries [7, 7]).keys = [0] :=
    keys_routeSeries_of_same _ (by decide) fun seriesId _ =>
      getShardForSeries_onlyNode seriesId
  refine (routing_loses_nothing_iff onlyNode (fun _ _ _ _ => .noClient) [0]
    [7, 7] 0 10 (.of_eq oneRoute.symm)).mpr fun seriesId _ => ?_
  exact ⟨"a", isPrimary_onlyNode seriesId, fun isRemote => absurd rfl isRemote⟩

/-- A node whose only shard is not assigned yet. -/
def unassignedNode : DistributedStorage :=
  { freshNode "a" 1 with shardManager := (freshNode "a" 1).shardManager.start }

/-- A series whose shard has no primary is lost by the router and the query. -/
theorem unassigned_series_is_lost :
    ¬PlacesEach [7]
          ((QueryRouter.routeBySeries unassignedNode.shardManager [7]).map
            fun routes node => (routes.lookup node).getD []) ∧
      ¬PlacesEach [7]
        (unassignedNode.queriedIds (fun _ _ _ _ => .noClient) [0] [7] 0 10) := by
  have noShard : unassignedNode.shardManager.getShardForSeries 7 = 0 :=
    UInt64.mod_one
  have noPrimary :
      unassignedNode.shardManager.getPrimaryNode 0 =
        .error (.internal "No primary node for shard 0") := by
    decide
  constructor
  · intro places
    obtain ⟨node, isPrimary⟩ :=
      (placesEach_iff fun node =>
        List.Perm.of_eq (lookup_routeBySeries _ node)).mp places 7
        (List.mem_singleton_self 7)
    rw [primaryOf_eq_some_iff, noShard, noPrimary] at isPrimary
    cases isPrimary
  · intro places
    obtain ⟨node, sameCount, _⟩ := places 7 (List.mem_singleton_self 7)
    simp [answeringNode, noPrimary] at sameCount

end PlacedSeries

end ChronoDB.Distributed
