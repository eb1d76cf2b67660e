import ChronoDB.Memstore.BatchFailure
import ChronoDB.Query.Engine
import ChronoDB.Query.SelectorRoundTrip

namespace ChronoDB.Query

open Library Memstore Wal StdText QueryEngine

/-!
# When the result cache is transparent

A remembered result stays a result of its query as long as the writes change
nothing that the query reads.  Nothing forgets a result when its samples change.
-/

section Transparency

variable {lru : BoundedCache CacheKey QueryResult}
variable {codec : WalCodec} {hasher : Bytes → TimeSeriesId}
variable {std : StdText} {float : StdFloat} {config : HeadConfig}

/-- The store is sound, and remembered results are results of their queries. -/
structure EngineState.Fresh
    (hasher : Bytes → TimeSeriesId) (config : HeadConfig) (std : StdText)
    (float : StdFloat) (state : EngineState lru) :
    Prop where
  sound : state.engine.memstore.head.Sound hasher config
  isOutcome :
    ∀ key result,
      state.Remembers key result →
        .ok result ∈ (state.engine.executeQuery std float key).outcomes

theorem executeQuery_congr {engine other : QueryEngine lru}
    (sameStore : engine.memstore = other.memstore)
    (sameConfig : engine.executorConfig = other.executorConfig)
    (key : CacheKey) :
    engine.executeQuery std float key = other.executeQuery std float key := by
  rw [executeQuery, executeQuery, sameStore, sameConfig]

theorem executeQuery_setCacheEnabled
    (engine : QueryEngine lru) (enabled : Bool) (key : CacheKey) :
    (engine.setCacheEnabled enabled).executeQuery std float key =
      engine.executeQuery std float key := by
  cases enabled <;> exact executeQuery_congr rfl rfl key

theorem startQuery_keeps
    {engine after : QueryEngine lru} {key : CacheKey} {start : QueryStart}
    (starts : engine.startQuery key = (start, after)) :
    after.memstore = engine.memstore ∧
      after.executorConfig = engine.executorConfig ∧
        (∀ other,
          lru.peek after.cache other = lru.peek engine.cache other) ∧
          ∀ result,
            start = .hit result → lru.peek engine.cache key = some result := by
  rw [startQuery] at starts
  have isFound := lru.fst_get engine.cache key
  have sameItems := lru.peek_get engine.cache key
  split at starts
  · split at starts
    · rename_i result cache found
      rw [found] at isFound sameItems
      cases starts
      refine ⟨rfl, rfl, sameItems, fun other isHit => ?_⟩
      cases isHit
      exact isFound.symm
    · rename_i cache found
      rw [found] at sameItems
      cases starts
      exact ⟨rfl, rfl, sameItems, fun _ isHit => nomatch isHit⟩
  · cases starts
    exact ⟨rfl, rfl, fun _ => rfl, fun _ isHit => nomatch isHit⟩

theorem executeQuery_of_call
    {engine : QueryEngine lru} {operation : StoreOperation}
    {memstore : MemStore} {key : CacheKey}
    (sound : engine.memstore.head.Sound hasher config)
    (step : StoreStep codec hasher engine.memstore operation memstore)
    (misses :
      ∀ plan,
        planQuery std key = .ok plan →
          EachRead
            (fun selection =>
              operation.Misses selection hasher engine.memstore)
            plan.planType ⟨⟨plan.start, plan.stop⟩, plan.step⟩) :
    executeQuery std float { engine with memstore := memstore }
        key =
      engine.executeQuery std float key := by
  rw [executeQuery, executeQuery]
  cases planned : planQuery std key with
  | error fault => rfl
  | ok plan =>
    have same :
        EachRead (SameRead engine.memstore memstore) plan.planType
          ⟨⟨plan.start, plan.stop⟩, plan.step⟩ :=
      eachRead_imp
        (fun selection isMissed =>
          (read_perm_of_step sound isMissed step).2)
        plan.planType _ (misses plan planned)
    simp only [QueryExecutor.execute]
    rw [executePlan_congr float plan.planType _ same]

theorem EngineState.Fresh.of_remembers {before after : EngineState lru}
    (fresh : before.Fresh hasher config std float)
    (sameStore : after.engine.memstore = before.engine.memstore)
    (sameConfig :
      after.engine.executorConfig = before.engine.executorConfig)
    (remembers :
      ∀ key result,
        after.Remembers key result →
          before.Remembers key result ∨
            .ok result ∈ (before.engine.executeQuery std float key).outcomes) :
    after.Fresh hasher config std float := by
  refine ⟨sameStore ▸ fresh.sound, fun key result remembered => ?_⟩
  rw [executeQuery_congr sameStore sameConfig key]
  rcases remembers key result remembered with known | isOutcome
  · exact fresh.isOutcome key result known
  · exact isOutcome

theorem EngineState.Fresh.ofStep
    {before after : EngineState lru} {action : EngineAction}
    (fresh : before.Fresh hasher config std float)
    (quiet : action.Quiet hasher std before)
    (step : EngineStep codec hasher std float before action after) :
    after.Fresh hasher config std float := by
  cases step with
  | call step =>
    rename_i operation memstore
    have soundAfter : memstore.head.Sound hasher config := by
      obtain ⟨operations, run, _⟩ := MemStore.exists_run_of_storeStep step
      exact fresh.sound.ofRun run
    refine ⟨soundAfter, fun key result remembered => ?_⟩
    rw [executeQuery_of_call fresh.sound step
      fun plan planned => quiet key result plan remembered planned]
    exact fresh.isOutcome key result remembered
  | direct starts executes => exact fresh
  | hit starts =>
    obtain ⟨sameStore, sameConfig, sameItems, _⟩ := startQuery_keeps starts
    refine fresh.of_remembers sameStore sameConfig ?_
    intro key result remembered
    rw [EngineState.Remembers, sameItems] at remembered
    exact .inl remembered
  | miss starts =>
    obtain ⟨sameStore, sameConfig, sameItems, _⟩ := startQuery_keeps starts
    refine fresh.of_remembers sameStore sameConfig ?_
    intro key result remembered
    rw [EngineState.Remembers, sameItems] at remembered
    exact .inl remembered
  | fail isExecuting executes =>
    exact fresh.of_remembers rfl rfl fun _ _ remembered => .inl remembered
  | execute isExecuting executes =>
    refine fresh.of_remembers rfl rfl ?_
    rintro key result (cached | computed)
    · exact .inl (.inl cached)
    · rcases List.mem_cons.mp computed with isNew | isOld
      · cases isNew
        exact .inr executes
      · exact .inl (.inr isOld)
  | keep isComputed =>
    refine fresh.of_remembers rfl rfl ?_
    rintro key result (cached | computed)
    · rcases lru.peek_put _ _ _ _ _ cached with ⟨rfl, rfl⟩ | ⟨_, old⟩
      · exact .inl (.inr isComputed)
      · exact .inl (.inl old)
    · exact .inl (.inr (List.mem_of_mem_erase computed))
  | clearCache =>
    refine fresh.of_remembers rfl rfl ?_
    rintro key result (cached | computed)
    · exact nomatch (lru.peek_clear _ _).symm.trans cached
    · exact .inl (.inr computed)
  | setCacheEnabled noExecuting noComputed =>
    rename_i enabled
    refine fresh.of_remembers ?_ ?_ ?_
    · cases enabled <;> rfl
    · cases enabled <;> rfl
    · rintro key result (cached | computed)
      · cases enabled with
        | true => exact .inl (.inl cached)
        | false => exact nomatch (lru.peek_clear _ _).symm.trans cached
      · exact .inl (.inr computed)

theorem transparent_of_fresh
    {before after : EngineState lru} {action : EngineAction}
    (fresh : before.Fresh hasher config std float)
    (step : EngineStep codec hasher std float before action after) :
    action.Transparent std float before := by
  cases step with
  | direct starts executes =>
    rw [EngineAction.Transparent, executeQuery_setCacheEnabled]
    exact executes
  | hit starts =>
    obtain ⟨_, _, _, isHit⟩ := startQuery_keeps starts
    rw [EngineAction.Transparent, executeQuery_setCacheEnabled]
    exact fresh.isOutcome _ _ (.inl (isHit _ rfl))
  | fail isExecuting executes =>
    rw [EngineAction.Transparent, executeQuery_setCacheEnabled]
    exact executes
  | execute isExecuting executes =>
    rw [EngineAction.Transparent, executeQuery_setCacheEnabled]
    exact executes
  | call _ | miss _ | keep _ | clearCache | setCacheEnabled _ _ => trivial

/-- A new engine with a cache over a new store. -/
def EngineState.initial
    (lru : BoundedCache CacheKey QueryResult) (store : MemStore)
    (executorConfig : ParallelConfig) (cacheSize : ℕ) :
    EngineState lru where
  engine := .withCache store executorConfig cacheSize
  executing := []
  computed := []

theorem EngineState.Fresh.initial
    {store : MemStore} (isNew : store.head = HeadBlock.new config)
    (executorConfig : ParallelConfig) (cacheSize : ℕ) :
    (EngineState.initial lru store executorConfig cacheSize).Fresh hasher
      config std float := by
  refine ⟨?_, ?_⟩
  · rw [EngineState.initial, withCache, isNew]
    exact .new config
  · rintro key result (cached | computed)
    · exact nomatch (lru.peek_new _ _).symm.trans cached
    · exact nomatch computed

/--
In every run in which no write changes a sample that a remembered query reads,
every query returns what it could return without the cache.
-/
theorem cache_transparent_of_quiet_run {store : MemStore}
    (isNew : store.head = HeadBlock.new config)
    (executorConfig : ParallelConfig) (cacheSize : ℕ)
    {actions : List EngineAction} {reached after : EngineState lru}
    {action : EngineAction}
    (run :
      Run
        (Restrict (EngineStep codec hasher std float)
          fun state action => action.Quiet hasher std state)
        (.initial lru store executorConfig cacheSize) actions reached)
    (step : EngineStep codec hasher std float reached action after) :
    action.Transparent std float reached :=
  transparent_of_fresh
    (run.preserves (fun fresh allowed => fresh.ofStep allowed.1 allowed.2)
      (.initial isNew executorConfig cacheSize))
    step

end Transparency

/-!
## A result that a write outdates
-/

/-- The query `up` over one minute. -/
def upKey : CacheKey where
  query := "up".toList
  start := 0
  stop := 60000
  step := 1000

/-- What `up` asks the store for. -/
def upSelection : Selection where
  matchers := [("__name__", "up")]
  start := 0
  stop := 60000

theorem planQuery_up :
    planQuery basic upKey =
      .ok ⟨.vectorQuery ⟨[("__name__", "up")], none, none⟩, 0, 60000, 1000⟩ := by
  have parsed :
      (parsePromql basic upKey.query).toOption.bind Expr.selector? =
        some ⟨some "up", [], none, none⟩ := by
    decide +kernel
  obtain ⟨expr, isExpr, isSelector⟩ := Option.bind_eq_some_iff.mp parsed
  rw [planQuery]
  cases outcome : parsePromql basic upKey.query with
  | error fault =>
    rw [outcome] at isExpr
    cases isExpr
  | ok other =>
    rw [outcome] at isExpr
    cases isExpr
    cases expr <;> cases isSelector
    rfl

variable (float : StdFloat) {ts : TimeSeries}

theorem executeQuery_up
    {lru : BoundedCache CacheKey QueryResult} {float : StdFloat}
    {engine : QueryEngine lru}
    (isRead : upSelection.read engine.memstore = [ts]) :
    engine.executeQuery basic float upKey =
      pure ⟨[ts], 0, 60000, 1000⟩ := by
  have isRead :
      Selection.read
          (VectorQueryPlan.selection ⟨[("__name__", "up")], none, none⟩
            ⟨⟨0, 60000⟩, 1000⟩) engine.memstore =
        [ts] :=
    isRead
  rw [executeQuery, planQuery_up]
  simp only [QueryExecutor.execute]
  rw [QueryExecutor.executePlan, QueryExecutor.executeVectorQuery_eq_anyOrder,
    isRead, Choice.anyOrder_singleton, pure_bind]

def upWrite (sample : Sample) : StoreOperation :=
  .write {
    write := {
      labels := [⟨"__name__", "up"⟩]
      samples := [sample]
      clock := ⟨2000, 2, ⟨2, 2000⟩⟩
    }
    fault := none
  }

def storeAfter (calls : List StoreOperation) : MemStore :=
  calls.foldl
    (fun store call => (call.run jsonCodec SipHash.hash store).2) smallStore

def upResult (samples : List Sample) : QueryResult where
  series := [{
    id := calculateSeriesId SipHash.hash [⟨"__name__", "up"⟩]
    labels := [⟨"__name__", "up"⟩]
    samples := samples
  }]
  start := 0
  stop := 60000
  step := 1000

theorem read_first :
    upSelection.read (storeAfter [upWrite ⟨0, 1⟩]) =
      (upResult [⟨0, 1⟩]).series := by
  decide +kernel

theorem read_second :
    upSelection.read (storeAfter [upWrite ⟨0, 1⟩, upWrite ⟨60000, 2⟩]) =
      (upResult [⟨0, 1⟩, ⟨60000, 2⟩]).series := by
  decide +kernel

def upState (memstore : MemStore) (executing : List CacheKey)
    (computed kept : List (CacheKey × QueryResult)) :
    EngineState (.recency CacheKey QueryResult) where
  engine := {
    memstore := memstore
    executorConfig := ⟨false, false, false, 0, 0⟩
    cache := ⟨100, kept⟩
    stats := ⟨0, executing.length + computed.length + kept.length, 0⟩
    enableCache := true
  }
  executing := executing
  computed := computed

abbrev UpStep (float : StdFloat) :=
  @EngineStep (.recency CacheKey QueryResult) jsonCodec SipHash.hash
    basic float

theorem miss_up (float : StdFloat) (memstore : MemStore) :
    UpStep float (upState memstore [] [] []) (.miss upKey)
      (upState memstore [upKey] [] []) :=
  .miss rfl

theorem execute_up
    {memstore : MemStore} (isRead : upSelection.read memstore = [ts]) :
    UpStep float (upState memstore [upKey] [] [])
      (.execute upKey (.ok ⟨[ts], 0, 60000, 1000⟩))
      (upState memstore [] [(upKey, ⟨[ts], 0, 60000, 1000⟩)] []) := by
  have executes :
      .ok ⟨[ts], 0, 60000, 1000⟩ ∈
        ((upState memstore [upKey] [] []).engine.executeQuery basic
          float upKey).outcomes := by
    rw [executeQuery_up isRead]
    rfl
  have step := @EngineStep.execute _ jsonCodec SipHash.hash basic float
    (upState memstore [upKey] [] []) upKey _ List.mem_cons_self executes
  rw [upState, List.erase_cons_head] at step
  exact step

theorem keep_up (memstore : MemStore) (result : QueryResult) :
    UpStep float (upState memstore [] [(upKey, result)] [])
      (.keep upKey result) (upState memstore [] [] [(upKey, result)]) := by
  have step := @EngineStep.keep _ jsonCodec SipHash.hash basic float
    (upState memstore [] [(upKey, result)] []) upKey result
    List.mem_cons_self
  rw [upState, List.erase_cons_head] at step
  exact step

theorem exists_hit_up (memstore : MemStore) (result : QueryResult) :
    ∃ after,
      UpStep float (upState memstore [] [] [(upKey, result)])
        (.hit upKey result) after := by
  have cacheable : isCacheable upKey.query = true := by
    decide +kernel
  have starts :
      ((upState memstore [] [] [(upKey, result)]).engine.startQuery upKey).1 =
        .hit result := by
    simp [startQuery, upState, cacheable, BoundedCache.recency,
      RecencyList.get]
  exact ⟨_, .hit (Prod.ext starts rfl)⟩

theorem eq_upKey_of_remembers
    {memstore : MemStore} {kept : QueryResult} {key : CacheKey}
    {result : QueryResult}
    (remembered :
      (upState memstore [] [] [(upKey, kept)]).Remembers key result) :
    key = upKey := by
  rcases remembered with cached | computed
  · by_contra other
    have isFound : List.lookup key [(upKey, kept)] = some result := cached
    rw [List.lookup_cons, beq_false_of_ne other] at isFound
    cases isFound
  · cases computed

def upActions (first second : StoreOperation) (result : QueryResult) :
    List EngineAction :=
  [.call first, .miss upKey, .execute upKey (.ok result), .keep upKey result,
    .call second]

theorem quiet_run_up (call : StoreOperation)
    (isRead : upSelection.read (storeAfter [call]) = [ts]) :
    Run
      (Restrict (UpStep float)
        fun state action => action.Quiet SipHash.hash basic state)
      (.initial _ smallStore ⟨false, false, false, 0, 0⟩ 0)
      [.call call, .miss upKey, .execute upKey (.ok ⟨[ts], 0, 60000, 1000⟩),
        .keep upKey ⟨[ts], 0, 60000, 1000⟩]
      (upState (storeAfter [call]) [] [] [(upKey, ⟨[ts], 0, 60000, 1000⟩)]) := by
  have calls :
      UpStep float (.initial _ smallStore ⟨false, false, false, 0, 0⟩ 0)
        (.call call) (upState (storeAfter [call]) [] [] []) :=
    .call rfl
  have nothing :
      EngineAction.Quiet SipHash.hash basic
        (.initial (.recency CacheKey QueryResult) smallStore
          ⟨false, false, false, 0, 0⟩ 0) (.call call) := by
    rintro key result plan (cached | computed)
    · cases cached
    · cases computed
  exact .cons ⟨nothing, calls⟩ (.cons ⟨trivial, miss_up float _⟩ (.cons
    ⟨trivial, execute_up float isRead⟩ (.single ⟨trivial, keep_up float _ _⟩)))

theorem outdated_result_found :
    ∃ actions, ∀ float, ∃ reached after,
      Run (UpStep float)
          (.initial _ smallStore ⟨false, false, false, 0, 0⟩ 0) actions
          reached ∧
        UpStep float reached (.hit upKey (upResult [⟨0, 1⟩])) after ∧
        ¬ EngineAction.Transparent basic float reached
          (.hit upKey (upResult [⟨0, 1⟩])) := by
  refine ⟨upActions (upWrite ⟨0, 1⟩) (upWrite ⟨60000, 2⟩) (upResult [⟨0, 1⟩]),
    fun float => ?_⟩
  have run := (quiet_run_up float (upWrite ⟨0, 1⟩) read_first).ofRestrict
  have writes :
      UpStep float
        (upState (storeAfter [upWrite ⟨0, 1⟩]) [] []
          [(upKey, upResult [⟨0, 1⟩])])
        (.call (upWrite ⟨60000, 2⟩))
        (upState (storeAfter [upWrite ⟨0, 1⟩, upWrite ⟨60000, 2⟩]) [] []
          [(upKey, upResult [⟨0, 1⟩])]) :=
    .call rfl
  obtain ⟨after, hits⟩ :=
    exists_hit_up float
      (storeAfter [upWrite ⟨0, 1⟩, upWrite ⟨60000, 2⟩]) (upResult [⟨0, 1⟩])
  refine ⟨_, after, run.append (.single writes), hits, fun transparent => ?_⟩
  rw [EngineAction.Transparent, executeQuery_setCacheEnabled,
    executeQuery_up read_second, Choice.outcomes_pure, Set.mem_singleton_iff,
    Except.ok.injEq] at transparent
  revert transparent
  decide +kernel

theorem result_found_after_later_write :
    ∃ actions, ∀ float, ∃ reached after,
      Run (UpStep float)
          (.initial _ smallStore ⟨false, false, false, 0, 0⟩ 0) actions
          reached ∧
        UpStep float reached (.hit upKey (upResult [⟨0, 1⟩])) after ∧
        EngineAction.Transparent basic float reached
          (.hit upKey (upResult [⟨0, 1⟩])) := by
  refine ⟨upActions (upWrite ⟨0, 1⟩) (upWrite ⟨120000, 2⟩)
    (upResult [⟨0, 1⟩]), fun float => ?_⟩
  have run := quiet_run_up float (upWrite ⟨0, 1⟩) read_first
  have writes :
      UpStep float
        (upState (storeAfter [upWrite ⟨0, 1⟩]) [] []
          [(upKey, upResult [⟨0, 1⟩])])
        (.call (upWrite ⟨120000, 2⟩))
        (upState (storeAfter [upWrite ⟨0, 1⟩, upWrite ⟨120000, 2⟩]) [] []
          [(upKey, upResult [⟨0, 1⟩])]) :=
    .call rfl
  have quiet :
      EngineAction.Quiet SipHash.hash basic
        (upState (storeAfter [upWrite ⟨0, 1⟩]) [] []
          [(upKey, upResult [⟨0, 1⟩])])
        (.call (upWrite ⟨120000, 2⟩)) := by
    intro key result plan remembered planned
    rw [eq_upKey_of_remembers remembered, planQuery_up] at planned
    cases planned
    rw [EachRead]
    intro labels _ _ sample isSample
    rw [List.mem_singleton.mp isSample]
    decide
  obtain ⟨after, hits⟩ :=
    exists_hit_up float
      (storeAfter [upWrite ⟨0, 1⟩, upWrite ⟨120000, 2⟩]) (upResult [⟨0, 1⟩])
  have quietRun := run.append (.single ⟨quiet, writes⟩)
  exact ⟨_, after, quietRun.ofRestrict, hits,
    cache_transparent_of_quiet_run rfl _ _ quietRun hits⟩

end ChronoDB.Query
