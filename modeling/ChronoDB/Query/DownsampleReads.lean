import ChronoDB.Query.DownsampleRouter

namespace ChronoDB.Query

open DownsampleQueryExecutor

open Library Wal Columnstore Downsample Memstore Flush List

/-!
# What downsampled queries read

The workers write all blocks to one directory, and the executor looks for them
in a directory of the level, which no worker creates.  Once the samples have
left the memory, a query for a level returns nothing.
-/

def windowAverage
    (resolution : Int64) (window : Timestamp) (samples : List Sample) :
    Value :=
  let inWindow :=
    samples.filter fun sample =>
      windowOf resolution sample.timestamp = window
  (inWindow.map Sample.value).sum / inWindow.length

/-- Some task processed a window of a series with these labels at a level. -/
def ProcessedWindow
    (tasks : List (MemStore × WorkerTask)) (level : DownsampleLevel)
    (seriesId : TimeSeriesId) (labels : Labels) (average : Sample) :
    Prop :=
  ∃ store task series,
    (store, task) ∈ tasks ∧ task.targetLevel = level ∧
      seriesId ∈ task.seriesIds ∧
      store.getSeries seriesId = some series ∧
      series.labels = labels ∧
      (∃ sample ∈ task.samplesIn series,
        windowOf level.resolutionMs sample.timestamp = average.timestamp) ∧
      average.value =
        windowAverage level.resolutionMs average.timestamp
          (task.samplesIn series)

/--
The result of a query has the averages of all windows that some task processed
at the level and that lie in the range, with the labels of the series.
-/
def ReadsBack (tasks : List (MemStore × WorkerTask)) (level : DownsampleLevel)
    (seriesIds : List TimeSeriesId) (start stop : Timestamp)
    (result : List TimeSeries) :
    Prop :=
  ∀ seriesId ∈ seriesIds, ∀ labels average,
    ProcessedWindow tasks level seriesId labels average →
    average.inRange start stop →
    ∃ series ∈ result,
      series.id = seriesId ∧ series.labels = labels ∧ average ∈ series.samples

def Flushed (store : MemStore) (seriesIds : List TimeSeriesId)
    (start stop : Timestamp) :
    Prop :=
  ∀ seriesId ∈ seriesIds, ∀ series,
    store.getSeries seriesId = some series →
    series.samples.filter (Sample.inRange start stop) = []

/-- There is no directory of a level. -/
def NoLevelDirs (dirs : DataDir) : Prop :=
  ∀ level, levelPath level ∉ dirs

theorem levelName_ne_blockDirName
    (level : DownsampleLevel) (seriesId : TimeSeriesId) :
    levelName level ≠ blockDirName seriesId := by
  intro same
  have sameHead := congrArg (fun name => name.toList.head?) same
  rw [blockDirName] at sameHead
  simp only [String.toList_append] at sameHead
  rw [head?_append_of_ne_nil _ (by decide)] at sameHead
  cases level <;> exact absurd sameHead (by decide)

theorem not_workerPath_levelPath (level : DownsampleLevel) :
    ¬ WorkerPath (levelPath level) := by
  rintro (same | ⟨seriesId, same⟩)
  · have lengths := congrArg List.length same
    simp [levelPath, downsamplePath] at lengths
  · apply levelName_ne_blockDirName level seriesId
    exact singleton_inj.mp (append_cancel_left same)

/-- Tasks leave it at that there is no directory of a level. -/
theorem NoLevelDirs.of_run {hasher : Bytes → UInt64} {json : Codec Error Labels}
    {display : Error → String} {before after : DataDir}
    {tasks : List (MemStore × WorkerTask)} (noLevelDirs : NoLevelDirs before)
    (run : Run (WorkerStep hasher json display) before tasks after) :
    NoLevelDirs after := by
  intro level member
  rcases createsWorkerPaths_run run _ member with early | isWorker
  · exact noLevelDirs level early
  · exact not_workerPath_levelPath level isWorker

namespace DownsampleQueryExecutor

variable {json : Codec Error Labels} {executor : DownsampleQueryExecutor}
variable {seriesIds : List TimeSeriesId} {start stop : Timestamp}

theorem queryRealTime_of_flushed
    (flushed : Flushed executor.store seriesIds start stop)
    (level : DownsampleLevel) :
    executor.queryRealTime seriesIds start stop level = [] := by
  have nothing : executor.queryRaw seriesIds start stop = [] := by
    rw [queryRaw, filterMap_eq_nil_iff]
    intro seriesId member
    rw [rawSeries, Option.bind_eq_none_iff]
    intro series found
    exact if_pos (flushed seriesId member series found)
  rw [queryRealTime, nothing, map_nil, filter_nil]

theorem queryDownsampled_of_noLevelDirs
    (noLevelDirs : NoLevelDirs executor.dataDir) (level : DownsampleLevel) :
    executor.queryDownsampled json seriesIds start stop level =
      .ok (executor.queryRealTime seriesIds start stop level) := by
  have absent : executor.dataDir.lookup (levelPath level) = none :=
    AList.lookup_eq_none.mpr (noLevelDirs level)
  rw [queryDownsampled, absent]

theorem query_of_run
    {hasher : Bytes → UInt64} {display : Error → String} {before : DataDir}
    {tasks : List (MemStore × WorkerTask)} (noLevelDirs : NoLevelDirs before)
    (run :
      Run (WorkerStep hasher json display) before tasks executor.dataDir)
    {funcType : String} {level : DownsampleLevel}
    (routed :
      executor.router.selectLevel (stop - start) funcType = .downsampled level)
    (flushed : Flushed executor.store seriesIds start stop) :
    executor.query json seriesIds start stop funcType = .ok [] := by
  have noneFound := noLevelDirs.of_run run
  rw [query, routed]
  dsimp only
  rw [queryDownsampled_of_noLevelDirs noneFound,
    queryRealTime_of_flushed flushed]

end DownsampleQueryExecutor

/--
After a run of tasks, a query that is routed to a level reads back what was
downsampled exactly when no window that was processed at the level lies in its
range.
-/
theorem downsampled_readBack_iff {hasher : Bytes → UInt64}
    {json : Codec Error Labels} {display : Error → String}
    {before after : DataDir} {tasks : List (MemStore × WorkerTask)}
    (noLevelDirs : NoLevelDirs before)
    (run : Run (WorkerStep hasher json display) before tasks after)
    {router : DownsampleRouter} {store : MemStore}
    {seriesIds : List TimeSeriesId} {start stop : Timestamp} {funcType : String}
    {level : DownsampleLevel}
    (routed :
      router.selectLevel (stop - start) funcType = .downsampled level)
    (flushed : Flushed store seriesIds start stop) :
    (∃ result,
        query json ⟨router, store, after⟩ seriesIds
            start stop funcType = .ok result ∧
          ReadsBack tasks level seriesIds start stop result) ↔
      ∀ seriesId ∈ seriesIds, ∀ labels average,
        ProcessedWindow tasks level seriesId labels average →
        ¬ average.inRange start stop := by
  have answers :=
    @DownsampleQueryExecutor.query_of_run json ⟨router, store, after⟩
      seriesIds start stop hasher display before tasks noLevelDirs run
      funcType level routed flushed
  constructor
  · rintro ⟨result, isResult, readsBack⟩ seriesId asked labels average
      processed inRange
    rw [answers] at isResult
    cases isResult
    obtain ⟨series, member, _⟩ :=
      readsBack seriesId asked labels average processed inRange
    exact not_mem_nil member
  · intro nothing
    refine ⟨[], answers, ?_⟩
    intro seriesId asked labels average processed inRange
    exact absurd inRange (nothing seriesId asked labels average processed)

/-!
## A sample that was downsampled and flushed
-/

/-- The store after one write of a sample in the second minute. -/
def minuteStore : MemStore :=
  ((freshStore none).write jsonCodec SipHash.hash (exampleWrite [⟨60000, 4⟩])).2

def minuteSeries : TimeSeriesId :=
  calculateSeriesId SipHash.hash Json.labels

def minuteTask : WorkerTask where
  taskId := "ds_1_0_7200000_0"
  targetLevel := .l1
  sourceLevel := .l0
  startTime := 0
  endTime := 7200000
  seriesIds := [minuteSeries]

theorem getSeries_minuteStore :
    minuteStore.getSeries minuteSeries =
      some {
        id := minuteSeries
        labels := Json.labels
        samples := [⟨60000, 4⟩]
      } := by
  decide +kernel

theorem exists_run_minuteTask :
    ∃ after,
      Run (WorkerStep SipHash.hash labelsCodec fun _ => "error") ∅
        [(minuteStore, minuteTask)] after := by
  have fits :
      ∀ seriesId ∈ minuteTask.seriesIds, ∀ series,
        minuteStore.getSeries seriesId = some series →
        PointsFit
          (DownsampleProcessor.downseries (minuteTask.samplesIn series)
            minuteTask.targetLevel.resolutionMs) := by
    intro seriesId member series found
    obtain rfl : seriesId = minuteSeries := mem_singleton.mp member
    rw [getSeries_minuteStore] at found
    cases found
    exact ⟨by decide, _, rfl⟩
  obtain ⟨after, step⟩ := exists_workerStep fits ∅
  exact ⟨after, Run.single step⟩

/-- The executor that queries after the samples were flushed. -/
def laterExecutor (dirs : DataDir) : DownsampleQueryExecutor where
  router := .new true
  store := freshStore none
  dataDir := dirs

/-- A query for five minutes rightly returns nothing of a minute. -/
theorem other_level_reads_nothing :
    ∃ after,
      Run (WorkerStep SipHash.hash labelsCodec fun _ => "error") ∅
          [(minuteStore, minuteTask)] after ∧
        ∃ result,
          (laterExecutor after).query labelsCodec [minuteSeries] 0 180000000
              "sum" = .ok result ∧
            ReadsBack [(minuteStore, minuteTask)] .l2 [minuteSeries] 0
              180000000 result := by
  obtain ⟨after, run⟩ := exists_run_minuteTask
  have noLevelDirs : NoLevelDirs ∅ := fun _ => AList.notMem_empty _
  have routed :
      (DownsampleRouter.new true).selectLevel (180000000 - 0) "sum" =
        .downsampled .l2 := by
    decide
  have flushed : Flushed (freshStore none) [minuteSeries] 0 180000000 := by
    rintro seriesId _ series found
    exact absurd found (Option.not_mem_none _)
  refine ⟨after, run, ?_⟩
  apply (downsampled_readBack_iff noLevelDirs run routed flushed).mpr
  rintro seriesId _ labels average ⟨store, task, series, member, isLevel, _⟩
  cases mem_singleton.mp member
  exact absurd isLevel (by decide)

/-- A query for minutes loses the minute that was downsampled and flushed. -/
theorem flushed_minute_is_lost :
    ¬ ∀ after,
      Run (WorkerStep SipHash.hash labelsCodec fun _ => "error") ∅
        [(minuteStore, minuteTask)] after →
      ∃ result,
        (laterExecutor after).query labelsCodec [minuteSeries] 0 7200000
            "sum" = .ok result ∧
          ReadsBack [(minuteStore, minuteTask)] .l1 [minuteSeries] 0
            7200000 result := by
  intro readsBack
  obtain ⟨after, run⟩ := exists_run_minuteTask
  have noLevelDirs : NoLevelDirs ∅ := fun _ => AList.notMem_empty _
  have routed :
      (DownsampleRouter.new true).selectLevel (7200000 - 0) "sum" =
        .downsampled .l1 := by
    decide
  have flushed : Flushed (freshStore none) [minuteSeries] 0 7200000 := by
    rintro seriesId _ series found
    exact absurd found (Option.not_mem_none _)
  have answers :=
    @DownsampleQueryExecutor.query_of_run labelsCodec (laterExecutor after)
      [minuteSeries] 0 7200000 SipHash.hash (fun _ => "error") ∅ _
      noLevelDirs run "sum" .l1 routed flushed
  obtain ⟨result, isResult, holds⟩ := readsBack after run
  rw [answers] at isResult
  cases isResult
  have processed :
      ProcessedWindow [(minuteStore, minuteTask)] .l1 minuteSeries
        Json.labels ⟨60000, 4⟩ :=
    ⟨minuteStore, minuteTask, _, mem_singleton_self _, rfl,
      mem_singleton_self _, getSeries_minuteStore, rfl,
      ⟨⟨60000, 4⟩, by decide, by decide⟩, by decide +kernel⟩
  obtain ⟨series, member, _⟩ :=
    holds minuteSeries (mem_singleton_self _) _ _ processed (by decide)
  exact not_mem_nil member

end ChronoDB.Query
