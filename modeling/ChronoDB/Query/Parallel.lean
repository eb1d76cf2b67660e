import ChronoDB.Library.TaskPool
import ChronoDB.Query.Planner
import Mathlib.Data.Set.List

namespace ChronoDB.Query

open Library Memstore Columnstore List

/-!
# Parallel and sequential execution

A vector query has three code paths: tasks that report through a channel, a
parallel iterator inside the store, and a loop inside the store.  Each has its
own filter, its own tests for empty results and its own window loop.  All of
them return the same series, in some order.
-/

/-!
## Averaging by collecting
-/

def averageWindow (window : Timestamp) (windowSamples : List Sample) :
    List Sample :=
  if windowSamples = [] then
    []
  else
    [{
      timestamp := window
      value := (windowSamples.map Sample.value).sum / windowSamples.length
    }]

/-- The loop over the samples with the samples of the open window. -/
def collectWindows
    (resolution : Int64) (window : Timestamp) (windowSamples : List Sample) :
    List Sample → List Sample
  | [] => averageWindow window windowSamples
  | sample :: rest =>
    if windowOf resolution sample.timestamp ≠ window then
      averageWindow window windowSamples ++
        collectWindows resolution
          (windowOf resolution sample.timestamp) [sample] rest
    else
      collectWindows resolution window (windowSamples ++ [sample]) rest

/-- `apply_downsampling_to_samples`, the window loop of the tasks. -/
def applyDownsamplingToSamples
    (samples : List Sample) (level : DownsampleLevel) :
    List Sample :=
  match samples with
  | [] => []
  | first :: _ =>
    if level = .l0 then samples
    else
      collectWindows level.resolutionMs
        (windowOf level.resolutionMs first.timestamp) [] samples

theorem collectWindows_eq (resolution : Int64) (window : Timestamp)
    (windowSamples samples : List Sample) :
    collectWindows resolution window windowSamples samples =
      downsampleFrom resolution window
        (windowSamples.map Sample.value).sum windowSamples.length samples := by
  have averages :
      ∀ window (collected : List Sample),
        averageWindow window collected =
          closeWindow window (collected.map Sample.value).sum
            collected.length := by
    intro window collected
    rw [averageWindow, closeWindow]
    cases collected <;> simp
  induction samples generalizing window windowSamples with
  | nil => exact averages window windowSamples
  | cons sample rest inductionHypothesis =>
    rw [collectWindows, downsampleFrom, inductionHypothesis,
      inductionHypothesis, averages]
    simp

theorem applyDownsamplingToSamples_eq
    (samples : List Sample) (level : DownsampleLevel) :
    applyDownsamplingToSamples samples level =
      applyDownsampling samples level := by
  cases samples with
  | nil => rfl
  | cons first rest =>
    rw [applyDownsamplingToSamples, applyDownsampling, collectWindows_eq]
    rfl

/-!
## The tasks
-/

/-- `process_fn`: what a task returns for its series. -/
def processFn
    (store : MemStore) (start stop : Timestamp) (level : DownsampleLevel)
    (seriesId : TimeSeriesId) :
    Except Error (Option TimeSeries) :=
  match store.getSeries seriesId with
  | some series =>
    let filtered := series.samples.filter (Sample.inRange start stop)
    if filtered ≠ [] then
      let downsampled := applyDownsamplingToSamples filtered level
      if downsampled ≠ [] then
        .ok (some { series with samples := downsampled })
      else
        .ok none
    else
      .ok none
  | none => .ok none

structure ParallelQueryExecutor where
  maxConcurrency : ℕ
  positive : 0 < maxConcurrency

namespace ParallelQueryExecutor

def new (maxConcurrency : ℕ) : ParallelQueryExecutor where
  maxConcurrency := max 1 maxConcurrency
  positive := Nat.lt_of_lt_of_le Nat.one_pos (Nat.le_max_left _ _)

/-- The permits of the semaphore and the capacity of the channel. -/
def limits (executor : ParallelQueryExecutor) : TaskPool.Limits where
  permits := executor.maxConcurrency
  capacity := executor.maxConcurrency * 2
  permitted := executor.positive
  positive := Nat.mul_pos executor.positive Nat.two_pos

/-- What a task sends: nothing when there is no series. -/
def message (process : TimeSeriesId → Except Error (Option TimeSeries))
    (seriesId : TimeSeriesId) :
    Option (Except Error TimeSeries) :=
  match process seriesId with
  | .ok (some series) => some (.ok series)
  | .ok none => none
  | .error cause => some (.error cause)

/-- The collector keeps all series and the first error. -/
def collect (results : List TimeSeries) (error : Option Error) :
    List (Except Error TimeSeries) → Except Error (List TimeSeries)
  | [] =>
    match error with
    | some cause => .error cause
    | none => .ok results
  | .ok series :: rest => collect (results ++ [series]) error rest
  | .error cause :: rest => collect results (error.or (some cause)) rest

/-- `execute_series_parallel` under some schedule of its tasks. -/
def ExecutesSeriesParallel (executor : ParallelQueryExecutor)
    (process : TimeSeriesId → Except Error (Option TimeSeries))
    (seriesIds : List TimeSeriesId) (outcome : Except Error (List TimeSeries)) :
    Prop :=
  if seriesIds = [] then
    outcome = .ok []
  else
    ∃ actions final,
      Run (TaskPool.Step executor.limits (message process))
          (TaskPool.spawned seriesIds) actions final ∧
        final.Finished ∧ outcome = collect [] none final.received

end ParallelQueryExecutor

/-!
## The store
-/

/-- One pass of the loop of `query_with_downsample`. -/
def pushSeries
    (store : MemStore) (start stop : Timestamp) (level : DownsampleLevel)
    (result : List TimeSeries) (seriesId : TimeSeriesId) :
    List TimeSeries :=
  match store.head.getSeriesLabels seriesId with
  | some labels =>
    match store.head.query seriesId start stop with
    | some samples =>
      if samples ≠ [] then
        let downsampled := applyDownsampling samples level
        if downsampled ≠ [] then
          result ++
            [{
              id := seriesId
              labels := labels
              samples := downsampled
            }]
        else
          result
      else
        result
    | none => result
  | none => result

/--
`query_with_downsample`.  From 101 series on a parallel iterator cuts the ids
into pieces, works on each and joins the results in order.
-/
def ExecutesQueryWithDownsample
    (store : MemStore) (seriesIds : List TimeSeriesId) (start stop : Timestamp)
    (level : DownsampleLevel) (results : List TimeSeries) :
    Prop :=
  if 100 < seriesIds.length then
    ∃ pieces : List (List TimeSeriesId),
      pieces.flatten = seriesIds ∧
        results =
          pieces.flatMap fun piece =>
            piece.filterMap (store.querySeries start stop level)
  else
    results = seriesIds.foldl (pushSeries store start stop level) []

/--
`execute_vector_query` under some schedule.  Each search returns the ids in an
order of its own.
-/
def ExecutesVectorQuery
    (config : ParallelConfig) (executor : ParallelQueryExecutor)
    (store : MemStore) (plan : VectorQueryPlan) (ctx : ExecutionContext)
    (outcome : Except Error (List TimeSeries)) :
    Prop :=
  let (finalStart, finalEnd) := plan.finalRange ctx
  let queryRange := finalEnd - finalStart
  let downsampleLevel := DownsampleLevel.fromQueryRange queryRange
  ∃ seriesIds,
    seriesIds.Perm (store.findSeries plan.matchers) ∧
      if seriesIds = [] then
        outcome = .ok []
      else if config.shouldUseParallel seriesIds.length queryRange then
        executor.ExecutesSeriesParallel
          (processFn store finalStart finalEnd downsampleLevel) seriesIds
          outcome
      else
        ∃ idsAgain results,
          idsAgain.Perm (store.findSeries plan.matchers) ∧
            ExecutesQueryWithDownsample store idsAgain finalStart finalEnd
                downsampleLevel results ∧
              outcome = .ok results

/-!
## All paths agree
-/

section Paths

variable {store : MemStore} {start stop : Timestamp} {level : DownsampleLevel}

theorem processFn_eq (seriesId : TimeSeriesId) :
    processFn store start stop level seriesId =
      .ok (store.querySeries start stop level seriesId) := by
  rw [← processSeries_eq_querySeries, processFn, processSeries]
  cases store.getSeries seriesId with
  | none => rfl
  | some series =>
    simp only [applyDownsamplingToSamples_eq]
    by_cases empty : series.samples.filter (Sample.inRange start stop) = []
    · simp [empty]
    · simp [empty]

theorem filterMap_message (seriesIds : List TimeSeriesId) :
    seriesIds.filterMap
        (ParallelQueryExecutor.message (processFn store start stop level)) =
      (seriesIds.filterMap (store.querySeries start stop level)).map .ok := by
  rw [map_filterMap]
  refine filterMap_congr fun seriesId _ => ?_
  rw [ParallelQueryExecutor.message, processFn_eq]
  cases store.querySeries start stop level seriesId <;> rfl

theorem collect_ok (results series : List TimeSeries) :
    ParallelQueryExecutor.collect results none (series.map .ok) =
      .ok (results ++ series) := by
  induction series generalizing results with
  | nil =>
    rw [append_nil]
    rfl
  | cons first rest inductionHypothesis =>
    rw [map_cons, ParallelQueryExecutor.collect,
      inductionHypothesis, append_assoc]
    rfl

theorem foldl_pushSeries
    (seriesIds : List TimeSeriesId) (results : List TimeSeries) :
    seriesIds.foldl (pushSeries store start stop level) results =
      results ++ seriesIds.filterMap (store.querySeries start stop level) := by
  have pushes :
      ∀ results seriesId,
        pushSeries store start stop level results seriesId =
          results ++ (store.querySeries start stop level seriesId).toList := by
    intro results seriesId
    rw [pushSeries, MemStore.querySeries]
    cases store.head.getSeriesLabels seriesId with
    | none => simp
    | some labels =>
      cases store.head.query seriesId start stop with
      | none => simp
      | some samples => by_cases empty : samples = [] <;> simp [empty]
  induction seriesIds generalizing results with
  | nil => simp
  | cons first rest inductionHypothesis =>
    rw [foldl_cons, inductionHypothesis, pushes, append_assoc]
    cases found : store.querySeries start stop level first <;>
      simp [found]

theorem executesQueryWithDownsample_iff
    {seriesIds : List TimeSeriesId} {results : List TimeSeries} :
    ExecutesQueryWithDownsample store seriesIds start stop level results ↔
      results = seriesIds.filterMap (store.querySeries start stop level) := by
  rw [ExecutesQueryWithDownsample]
  split
  · constructor
    · rintro ⟨pieces, rfl, rfl⟩
      exact (filterMap_flatten ..).symm
    · rintro rfl
      exact ⟨[seriesIds], by simp, by simp⟩
  · rw [foldl_pushSeries, nil_append]

theorem perm_of_executesSeriesParallel
    {executor : ParallelQueryExecutor} {seriesIds : List TimeSeriesId}
    {outcome : Except Error (List TimeSeries)}
    (executes :
      executor.ExecutesSeriesParallel (processFn store start stop level)
        seriesIds outcome) :
    ∃ results,
      outcome = .ok results ∧
        results.Perm
          (seriesIds.filterMap (store.querySeries start stop level)) := by
  rw [ParallelQueryExecutor.ExecutesSeriesParallel] at executes
  split at executes
  · rename_i nothing
    exact ⟨[], executes, by simp [nothing]⟩
  · obtain ⟨actions, final, run, finished, rfl⟩ := executes
    have received := TaskPool.received_perm run finished
    rw [filterMap_message] at received
    have allSeries : final.received ∈ Set.range (List.map Except.ok) := by
      rw [Set.range_list_map]
      intro message member
      obtain ⟨series, _, isOk⟩ := mem_map.mp (received.mem_iff.mp member)
      exact ⟨series, isOk⟩
    obtain ⟨results, isReceived⟩ := allSeries
    rw [← isReceived] at received
    refine ⟨results, ?_,
      (map_perm_map_iff fun _ _ same => Except.ok.inj same).mp received⟩
    rw [← isReceived, collect_ok, nil_append]

theorem exists_executesSeriesParallel (executor : ParallelQueryExecutor)
    (process : TimeSeriesId → Except Error (Option TimeSeries))
    (seriesIds : List TimeSeriesId) :
    ∃ outcome, executor.ExecutesSeriesParallel process seriesIds outcome := by
  by_cases nothing : seriesIds = []
  · exact ⟨.ok [], by simp [ParallelQueryExecutor.ExecutesSeriesParallel,
      nothing]⟩
  · obtain ⟨actions, final, run, finished⟩ :=
      TaskPool.exists_finished_run executor.limits
        (ParallelQueryExecutor.message process) (TaskPool.spawned seriesIds)
    refine ⟨ParallelQueryExecutor.collect [] none final.received, ?_⟩
    rw [ParallelQueryExecutor.ExecutesSeriesParallel, if_neg nothing]
    exact ⟨actions, final, run, finished, rfl⟩

end Paths

/--
A vector query has an outcome for every configuration, executor and schedule,
and every outcome has the series that `query_with_downsample` returns for its
range.
-/
theorem vectorQuery_paths_agree (config : ParallelConfig)
    (executor : ParallelQueryExecutor) (store : MemStore)
    (plan : VectorQueryPlan) (ctx : ExecutionContext) :
    let (finalStart, finalEnd) := plan.finalRange ctx
    (∃ outcome, ExecutesVectorQuery config executor store plan ctx outcome) ∧
      ∀ outcome,
        ExecutesVectorQuery config executor store plan ctx outcome →
          ∃ results,
            outcome = .ok results ∧
              results.Perm
                (store.queryWithDownsample plan.matchers finalStart finalEnd
                  (DownsampleLevel.fromQueryRange
                    (finalEnd - finalStart))) := by
  simp only [ExecutesVectorQuery, MemStore.queryWithDownsample]
  rcases plan.finalRange ctx with ⟨finalStart, finalEnd⟩
  constructor
  · by_cases nothing : store.findSeries plan.matchers = []
    · exact ⟨.ok [], _, .refl _, by rw [if_pos nothing]⟩
    · by_cases parallel :
          config.shouldUseParallel (store.findSeries plan.matchers).length
            (finalEnd - finalStart) = true
      · obtain ⟨outcome, executes⟩ :=
          exists_executesSeriesParallel executor
            (processFn store finalStart finalEnd
              (DownsampleLevel.fromQueryRange (finalEnd - finalStart)))
            (store.findSeries plan.matchers)
        refine ⟨outcome, _, .refl _, ?_⟩
        rw [if_neg nothing, if_pos parallel]
        exact executes
      · refine ⟨.ok ((store.findSeries plan.matchers).filterMap
          (store.querySeries finalStart finalEnd
            (DownsampleLevel.fromQueryRange (finalEnd - finalStart)))),
          _, .refl _, ?_⟩
        rw [if_neg nothing, if_neg parallel]
        exact ⟨_, _, .refl _, executesQueryWithDownsample_iff.mpr rfl, rfl⟩
  · rintro outcome ⟨seriesIds, isFound, executes⟩
    split at executes
    · rename_i nothing
      rw [nothing] at isFound
      refine ⟨[], executes, ?_⟩
      rw [← isFound.nil_eq, filterMap_nil]
    · split at executes
      · obtain ⟨results, isOk, perm⟩ := perm_of_executesSeriesParallel executes
        exact ⟨results, isOk, perm.trans (isFound.filterMap _)⟩
      · obtain ⟨idsAgain, results, foundAgain, executesQuery, isOk⟩ := executes
        rw [executesQueryWithDownsample_iff] at executesQuery
        refine ⟨results, isOk, ?_⟩
        rw [executesQuery]
        exact foundAgain.filterMap _

end ChronoDB.Query
