import ChronoDB.Library.BoundedCache
import ChronoDB.Query.Parser
import ChronoDB.Query.Reads

namespace ChronoDB.Query

open Library Memstore Wal

/-!
# The query engine and its result cache

The engine parses, plans and executes a query.  With a cache it first looks for
the result of an earlier call with the same text and window, and it keeps the
result of a call that found none.  Calls and writes run at the same time: a call
that found nothing executes later and keeps its result later still.
-/

structure CacheKey where
  query : Text
  start : Timestamp
  stop : Timestamp
  step : Int64
  deriving Repr, DecidableEq

structure CacheStats where
  hits : ℕ
  misses : ℕ
  evictions : ℕ
  deriving Repr, DecidableEq

structure QueryEngine (lru : BoundedCache CacheKey QueryResult) where
  memstore : MemStore
  executorConfig : ParallelConfig
  cache : lru.Cache
  stats : CacheStats
  enableCache : Bool

/-- What a query does first: it executes, finds its result, or misses it. -/
inductive QueryStart where
  | direct
  | hit (result : QueryResult)
  | miss
  deriving Repr, DecidableEq

/-- The texts of functions of time; queries with one of them are not kept. -/
def nonCacheable : List String :=
  ["time()", "timestamp()", "day_of_month()", "day_of_week()",
    "days_in_month()", "hour()", "minute()", "month()", "year()"]

def isCacheable (query : Text) : Bool :=
  !nonCacheable.any fun func =>
    (Text.findPattern func.toList query).isSome

section Planning

variable (std : StdText)

def planQuery (key : CacheKey) : Except Fault QueryPlan :=
  match parsePromql std key.query with
  | .error fault => .error fault
  | .ok expr =>
    match QueryPlanner.plan expr key.start key.stop key.step with
    | .error cause => .error (.error cause)
    | .ok plan => .ok plan

end Planning

namespace QueryEngine

variable {lru : BoundedCache CacheKey QueryResult}

def new (memstore : MemStore) (executorConfig : ParallelConfig) :
    QueryEngine lru where
  memstore := memstore
  executorConfig := executorConfig
  cache := lru.new 1000
  stats := ⟨0, 0, 0⟩
  enableCache := false

def withCache
    (memstore : MemStore) (executorConfig : ParallelConfig) (cacheSize : ℕ) :
    QueryEngine lru where
  memstore := memstore
  executorConfig := executorConfig
  cache := lru.new (max cacheSize 100)
  stats := ⟨0, 0, 0⟩
  enableCache := true

def clearCache (engine : QueryEngine lru) : QueryEngine lru :=
  {
    engine with
    cache := lru.clear engine.cache
    stats.evictions := engine.stats.evictions + lru.len engine.cache
  }

def setCacheEnabled (engine : QueryEngine lru) (enabled : Bool) :
    QueryEngine lru :=
  let switched := { engine with enableCache := enabled }
  if enabled then switched else switched.clearCache

/-- The part of `query` before it executes. -/
def startQuery (engine : QueryEngine lru) (key : CacheKey) :
    QueryStart × QueryEngine lru :=
  if engine.enableCache && isCacheable key.query then
    match lru.get engine.cache key with
    | (some result, cache) =>
      (.hit result,
        {
          engine with
          cache := cache
          stats.hits := engine.stats.hits + 1
        })
    | (none, cache) =>
      (.miss,
        {
          engine with
          cache := cache
          stats.misses := engine.stats.misses + 1
        })
  else
    (.direct, engine)

def executeQuery (std : StdText) (float : StdFloat) (engine : QueryEngine lru)
    (key : CacheKey) :
    Choice Fault QueryResult :=
  match planQuery std key with
  | .error fault => throw fault
  | .ok plan =>
    QueryExecutor.execute float ⟨engine.memstore, engine.executorConfig⟩ plan

/-- The part of `query` after it executed. -/
def finishQuery
    (engine : QueryEngine lru) (key : CacheKey) (result : QueryResult) :
    QueryEngine lru :=
  { engine with cache := lru.put engine.cache key result }

end QueryEngine

/-!
## Calls and writes at the same time
-/

/-- An engine with the queries that execute and the results still to be kept. -/
structure EngineState (lru : BoundedCache CacheKey QueryResult) where
  engine : QueryEngine lru
  executing : List CacheKey
  computed : List (CacheKey × QueryResult)

inductive EngineAction where
  | call (operation : StoreOperation)
  | direct (key : CacheKey) (outcome : Except Fault QueryResult)
  | hit (key : CacheKey) (result : QueryResult)
  | miss (key : CacheKey)
  | execute (key : CacheKey) (outcome : Except Fault QueryResult)
  | keep (key : CacheKey) (result : QueryResult)
  | clearCache
  | setCacheEnabled (enabled : Bool)

section Steps

variable {lru : BoundedCache CacheKey QueryResult}
variable (codec : WalCodec) (hasher : Bytes → TimeSeriesId)
variable (std : StdText) (float : StdFloat)

inductive EngineStep :
    EngineState lru → EngineAction → EngineState lru → Prop where
  | call
      {state : EngineState lru}
      {operation : StoreOperation}
      {memstore : MemStore}
      (step : StoreStep codec hasher state.engine.memstore operation memstore) :
      EngineStep state (.call operation)
        { state with engine := { state.engine with memstore := memstore } }
  | direct
      {state : EngineState lru}
      {key : CacheKey}
      {outcome : Except Fault QueryResult}
      (starts : (state.engine.startQuery key).1 = .direct)
      (executes :
        outcome ∈ (state.engine.executeQuery std float key).outcomes) :
      EngineStep state (.direct key outcome) state
  | hit
      {state : EngineState lru}
      {key : CacheKey}
      {result : QueryResult}
      {engine : QueryEngine lru}
      (starts : state.engine.startQuery key = (.hit result, engine)) :
      EngineStep state (.hit key result) { state with engine := engine }
  | miss
      {state : EngineState lru}
      {key : CacheKey}
      {engine : QueryEngine lru}
      (starts : state.engine.startQuery key = (.miss, engine)) :
      EngineStep state (.miss key)
        {
          state with
          engine := engine
          executing := key :: state.executing
        }
  | fail
      {state : EngineState lru}
      {key : CacheKey}
      {fault : Fault}
      (isExecuting : key ∈ state.executing)
      (executes :
        .error fault ∈ (state.engine.executeQuery std float key).outcomes) :
      EngineStep state (.execute key (.error fault))
        { state with executing := state.executing.erase key }
  | execute
      {state : EngineState lru}
      {key : CacheKey}
      {result : QueryResult}
      (isExecuting : key ∈ state.executing)
      (executes :
        .ok result ∈ (state.engine.executeQuery std float key).outcomes) :
      EngineStep state (.execute key (.ok result))
        {
          state with
          executing := state.executing.erase key
          computed := (key, result) :: state.computed
        }
  | keep
      {state : EngineState lru}
      {key : CacheKey}
      {result : QueryResult}
      (isComputed : (key, result) ∈ state.computed) :
      EngineStep state (.keep key result)
        {
          state with
          engine := state.engine.finishQuery key result
          computed := state.computed.erase (key, result)
        }
  | clearCache
      {state : EngineState lru} :
      EngineStep state .clearCache
        { state with engine := state.engine.clearCache }
  | setCacheEnabled
      {state : EngineState lru}
      {enabled : Bool}
      -- the engine is borrowed for writing, so that no query runs
      (noExecuting : state.executing = [])
      (noComputed : state.computed = []) :
      EngineStep state (.setCacheEnabled enabled)
        { state with engine := state.engine.setCacheEnabled enabled }

/--
A query returns what the same call on the engine could return if its cache were
disabled.
-/
def EngineAction.Transparent (state : EngineState lru) :
    EngineAction → Prop
  | .hit key result =>
    .ok result ∈
      ((state.engine.setCacheEnabled false).executeQuery std float key).outcomes
  | .direct key outcome | .execute key outcome =>
    outcome ∈
      ((state.engine.setCacheEnabled false).executeQuery std float key).outcomes
  | _ => True

def EngineState.Remembers
    (state : EngineState lru) (key : CacheKey) (result : QueryResult) :
    Prop :=
  lru.peek state.engine.cache key = some result ∨ (key, result) ∈ state.computed

/--
A write is quiet when it changes no sample that a remembered query reads.  All
other actions are quiet.
-/
def EngineAction.Quiet (state : EngineState lru) : EngineAction → Prop
  | .call operation =>
    ∀ key result plan,
      state.Remembers key result →
        planQuery std key = .ok plan →
          EachRead
            (fun selection =>
              operation.Misses selection hasher state.engine.memstore)
            plan.planType ⟨⟨plan.start, plan.stop⟩, plan.step⟩
  | _ => True

end Steps

end ChronoDB.Query
