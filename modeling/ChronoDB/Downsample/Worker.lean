import ChronoDB.Columnstore.Files
import ChronoDB.Flush.Manager

namespace ChronoDB.Downsample

open Library Columnstore Memstore Flush FullWriter DownsampleProcessor

/-!
# Downsample tasks and workers

A task carries its status and counts its failures.  The clock is an argument of
everything that reads it.  A worker writes each series of a task to a block of
its own.  The block has the id of the series, and all blocks are in one
directory, for every level.
-/

/-!
## Tasks
-/

inductive TaskStatus where
  | pending
  | running
  | completed
  | failed
  | cancelled
  deriving Repr, DecidableEq

def TaskStatus.isTerminal : TaskStatus → Bool
  | completed => true
  | failed => true
  | cancelled => true
  | _ => false

/-- The timeout is in milliseconds. -/
structure TaskConfig where
  timeout : ℕ
  maxRetries : UInt32
  deriving Repr, DecidableEq

def TaskConfig.default : TaskConfig where
  timeout := 3600 * 1000
  maxRetries := 3

structure DownsampleTask where
  taskId : String
  targetLevel : DownsampleLevel
  sourceLevel : DownsampleLevel
  startTime : Timestamp
  endTime : Timestamp
  seriesIds : Option (List TimeSeriesId)
  status : TaskStatus
  startedAt : Option Timestamp
  completedAt : Option Timestamp
  samplesProcessed : ℕ
  samplesGenerated : ℕ
  errorMessage : Option String
  retryCount : UInt32
  config : TaskConfig
  deriving Repr, DecidableEq

namespace DownsampleTask

/-- A new task; its id is made from a random number. -/
def new (taskId : String) (targetLevel sourceLevel : DownsampleLevel)
    (startTime endTime : Timestamp) (seriesIds : Option (List TimeSeriesId)) :
    DownsampleTask where
  taskId := taskId
  targetLevel := targetLevel
  sourceLevel := sourceLevel
  startTime := startTime
  endTime := endTime
  seriesIds := seriesIds
  status := .pending
  startedAt := none
  completedAt := none
  samplesProcessed := 0
  samplesGenerated := 0
  errorMessage := none
  retryCount := 0
  config := .default

def markRunning (task : DownsampleTask) (now : Timestamp) : DownsampleTask :=
  { task with status := .running, startedAt := some now }

def markCompleted
    (task : DownsampleTask) (samplesProcessed samplesGenerated : ℕ)
    (now : Timestamp) :
    DownsampleTask :=
  {
    task with
    status := .completed
    completedAt := some now
    samplesProcessed := samplesProcessed
    samplesGenerated := samplesGenerated
  }

def markFailed (task : DownsampleTask) (error : String) : DownsampleTask :=
  {
    task with
    status := .failed
    errorMessage := some error
    retryCount := task.retryCount + 1
  }

def markCancelled (task : DownsampleTask) : DownsampleTask :=
  { task with status := .cancelled }

def canRetry (task : DownsampleTask) : Bool :=
  task.status = .failed && task.retryCount < task.config.maxRetries

def resetForRetry (task : DownsampleTask) : DownsampleTask :=
  if task.canRetry then
    { task with status := .pending, errorMessage := none }
  else
    task

def isTimeout (task : DownsampleTask) (now : Timestamp) : Bool :=
  if task.status ≠ .running then false
  else
    match task.startedAt with
    | none => false
    | some started => Int64.ofNat task.config.timeout < now - started

end DownsampleTask

/-- What a worker reports about a task. -/
structure TaskResult where
  taskId : String
  success : Bool
  samplesProcessed : ℕ
  samplesGenerated : ℕ
  error : Option String
  deriving Repr, DecidableEq

/-!
## Workers
-/

/-- The directories below the data directory, with the files of a block. -/
abbrev DataDir := FiniteMap (List String) BlockFiles

namespace DataDir

def createDir (dirs : DataDir) (path : List String) : DataDir :=
  match dirs.lookup path with
  | some _ => dirs
  | none => dirs.insert path .empty

/-- `create_dir_all`, from the outermost directory on. -/
def createDirAll (dirs : DataDir) (path : List String) : DataDir :=
  path.inits.tail.foldl createDir dirs

end DataDir

def pointTableLayout (writer : FullWriter) : writer.PointLayout where
  order := writer.downsampleData.keys
  permuted := .refl _

/-- `BlockWriter::write` below a path; the directories are created first. -/
def writeAt
    (json : Codec Error Labels) (writer : FullWriter) (path : List String)
    (dirs : DataDir) :
    Except Fault Unit × DataDir :=
  let blockPath := path ++ [blockDirName writer.blockId]
  let created := (dirs.createDirAll path).createDirAll blockPath
  match
    writer.write json writer.toBlockWriter.tableLayout
      (pointTableLayout writer)
      ((created.lookup blockPath).getD .empty) with
  | .error fault => (.error fault, created)
  | .ok files => (.ok (), created.insert blockPath files)

structure WorkerTask where
  taskId : String
  targetLevel : DownsampleLevel
  sourceLevel : DownsampleLevel
  startTime : Timestamp
  endTime : Timestamp
  seriesIds : List TimeSeriesId
  deriving Repr, DecidableEq

def WorkerTask.samplesIn (task : WorkerTask) (series : TimeSeries) :
    List Sample :=
  series.samples.filter (Sample.inRange task.startTime task.endTime)

section Worker

variable (hasher : Bytes → UInt64) (json : Codec Error Labels)
variable (store : MemStore)

/-- The directory of all downsampled blocks. -/
def downsamplePath : List String := ["downsample"]

def processSeries
    (task : WorkerTask) (seriesId : TimeSeriesId) (dirs : DataDir) :
    Except Fault (ℕ × ℕ) × DataDir :=
  match store.getSeries seriesId with
  | none => (.ok (0, 0), dirs)
  | some series =>
    let samples := task.samplesIn series
    if samples = [] then (.ok (0, 0), dirs)
    else
      let downsampled :=
        downseries samples task.targetLevel.resolutionMs
      if downsampled = [] then (.ok (samples.length, 0), dirs)
      else
        let created := dirs.createDirAll downsamplePath
        match
          (new seriesId).addDownsampleSeries hasher seriesId
            series.labels downsampled with
        | .error fault => (.error fault, created)
        | .ok writer =>
          match writeAt json writer downsamplePath created with
          | (.error fault, left) => (.error fault, left)
          | (.ok _, written) =>
            (.ok (samples.length, downsampled.length), written)

/--
The loop of `process_task` over the series that are left, with the numbers of
samples so far.  It ends at the first series that fails.
-/
def processFrom (task : WorkerTask) :
    List TimeSeriesId → ℕ → ℕ → DataDir →
      Option (TimeSeriesId × Fault) × ℕ × ℕ × DataDir
  | [], processed, generated, dirs => (none, processed, generated, dirs)
  | seriesId :: rest, processed, generated, dirs =>
    match processSeries hasher json store task seriesId dirs with
    | (.error fault, left) =>
      (some (seriesId, fault), processed, generated, left)
    | (.ok counts, written) =>
      processFrom task rest (processed + counts.1)
        (generated + counts.2) written

/-- A worker that panics reports nothing. -/
def processTask
    (display : Error → String) (task : WorkerTask) (dirs : DataDir) :
    Option TaskResult × DataDir :=
  match processFrom hasher json store task task.seriesIds 0 0 dirs with
  | (some (_, .panic), _, _, left) => (none, left)
  | (some (seriesId, .error cause), processed, generated, left) =>
    (some {
      taskId := task.taskId
      success := false
      samplesProcessed := processed
      samplesGenerated := generated
      error :=
        some ("Failed to process series " ++
          toString seriesId.toNat ++ ": " ++ display cause)
    }, left)
  | (none, processed, generated, written) =>
    (some {
      taskId := task.taskId
      success := true
      samplesProcessed := processed
      samplesGenerated := generated
      error := none
    }, written)

end Worker

def WorkerStep (hasher : Bytes → UInt64) (json : Codec Error Labels)
    (display : Error → String) (before : DataDir)
    (action : MemStore × WorkerTask) (after : DataDir) :
    Prop :=
  ∃ result,
    processTask hasher json action.1 display action.2 before =
        (some result, after) ∧
      result.success = true

/-!
## Where a worker writes
-/

/-- A directory that a worker can create. -/
def WorkerPath (path : List String) : Prop :=
  path = downsamplePath ∨
    ∃ seriesId, path = downsamplePath ++ [blockDirName seriesId]

/-- Every directory after a step was there before or is one of a worker. -/
def CreatesWorkerPaths (before after : DataDir) : Prop :=
  ∀ path, path ∈ after → path ∈ before ∨ WorkerPath path

namespace CreatesWorkerPaths

variable {before between after : DataDir}

theorem refl (dirs : DataDir) : CreatesWorkerPaths dirs dirs :=
  fun _ => .inl

theorem trans (first : CreatesWorkerPaths before between)
    (second : CreatesWorkerPaths between after) :
    CreatesWorkerPaths before after := by
  intro path member
  rcases second path member with early | isWorker
  · exact first path early
  · exact .inr isWorker

theorem insert
    {path : List String} (isWorker : WorkerPath path) (dirs : DataDir)
    (files : BlockFiles) :
    CreatesWorkerPaths dirs (dirs.insert path files) := by
  intro other member
  rcases (AList.mem_insert _).mp member with rfl | early
  · exact .inr isWorker
  · exact .inl early

theorem createDir
    {path : List String} (isWorker : WorkerPath path) (dirs : DataDir) :
    CreatesWorkerPaths dirs (dirs.createDir path) := by
  rw [DataDir.createDir]
  split
  · exact refl dirs
  · exact insert isWorker dirs _

end CreatesWorkerPaths

section Paths

variable {hasher : Bytes → UInt64} {json : Codec Error Labels}
variable {store : MemStore} {display : Error → String}

theorem createsWorkerPaths_downsamplePath (dirs : DataDir) :
    CreatesWorkerPaths dirs (dirs.createDirAll downsamplePath) :=
  .createDir (.inl rfl) dirs

theorem createsWorkerPaths_blockPath
    (dirs : DataDir) (seriesId : TimeSeriesId) :
    CreatesWorkerPaths dirs
      (dirs.createDirAll (downsamplePath ++ [blockDirName seriesId])) :=
  (CreatesWorkerPaths.createDir (.inl rfl) dirs).trans
    (.createDir (.inr ⟨seriesId, rfl⟩) _)

theorem createsWorkerPaths_writeAt (writer : FullWriter) (dirs : DataDir) :
    CreatesWorkerPaths dirs (writeAt json writer downsamplePath dirs).2 := by
  have created :=
    (createsWorkerPaths_downsamplePath dirs).trans
      (createsWorkerPaths_blockPath (dirs.createDirAll downsamplePath)
        writer.blockId)
  rw [writeAt]
  split
  · exact created
  · exact created.trans (.insert (.inr ⟨writer.blockId, rfl⟩) _ _)

theorem createsWorkerPaths_processSeries
    (task : WorkerTask) (seriesId : TimeSeriesId) (dirs : DataDir) :
    CreatesWorkerPaths dirs
      (processSeries hasher json store task seriesId dirs).2 := by
  have created := createsWorkerPaths_downsamplePath dirs
  rw [processSeries]
  split
  · exact .refl dirs
  · dsimp only
    split
    · exact .refl dirs
    · split
      · exact .refl dirs
      · split
        · exact created
        · rename_i writer _
          have writes :=
            @createsWorkerPaths_writeAt json writer
              (dirs.createDirAll downsamplePath)
          split
          · rename_i left writtenAt
            rw [writtenAt] at writes
            exact created.trans writes
          · rename_i written writtenAt
            rw [writtenAt] at writes
            exact created.trans writes

theorem createsWorkerPaths_processFrom
    (task : WorkerTask) (left : List TimeSeriesId) (processed generated : ℕ)
    (dirs : DataDir) :
    CreatesWorkerPaths dirs
      (processFrom hasher json store task left processed generated
        dirs).2.2.2 := by
  induction left generalizing processed generated dirs with
  | nil => exact .refl dirs
  | cons seriesId rest inductionHypothesis =>
    have first :=
      @createsWorkerPaths_processSeries hasher json store task seriesId dirs
    rw [processFrom]
    split
    · rename_i failed
      rw [failed] at first
      exact first
    · rename_i succeeded
      rw [succeeded] at first
      exact first.trans (inductionHypothesis _ _ _)

theorem createsWorkerPaths_processTask (task : WorkerTask) (dirs : DataDir) :
    CreatesWorkerPaths dirs
      (processTask hasher json store display task dirs).2 := by
  have creates :=
    @createsWorkerPaths_processFrom hasher json store task task.seriesIds
      0 0 dirs
  rw [processTask]
  split <;> rename_i outcome <;> rw [outcome] at creates <;> exact creates

theorem createsWorkerPaths_run
    {before after : DataDir} {tasks : List (MemStore × WorkerTask)}
    (run : Run (WorkerStep hasher json display) before tasks after) :
    CreatesWorkerPaths before after := by
  refine run.relates CreatesWorkerPaths.refl CreatesWorkerPaths.trans ?_
  rintro before ⟨store, task⟩ after ⟨result, processes, _⟩
  have creates :=
    @createsWorkerPaths_processTask hasher json store display task before
  rwa [processes] at creates

end Paths

/-!
## When a task succeeds
-/

/-- The points of a series can be written to one block. -/
def PointsFit (points : List DownsamplePoint) : Prop :=
  points.length ≤ BlockWriter.maxVecLength ∧
    ∃ times,
      timeColumnOf (points.map DownsamplePoint.timestamp) = .ok times

section Success

variable {hasher : Bytes → UInt64} {json : Codec Error Labels}
variable {store : MemStore} {display : Error → String}

theorem exists_writeAt {writer : FullWriter} {data : DownsampleSeriesData}
    {seriesId : TimeSeriesId} (noSeries : writer.seriesData = ∅)
    (onlyData : writer.downsampleData = AList.insert seriesId data ∅)
    (fits : PointsFit data.points) (path : List String) (dirs : DataDir) :
    ∃ after, writeAt json writer path dirs = (.ok (), after) := by
  have laid :
      writer.toBlockWriter.laidOut writer.toBlockWriter.tableLayout = [] := by
    have isOrder : writer.toBlockWriter.tableLayout.order = [] := by
      change writer.seriesData.keys = []
      rw [noSeries]
      rfl
    rw [BlockWriter.laidOut, isOrder, List.filterMap_nil]
  have laidPoints :
      writer.pointsLaidOut (pointTableLayout writer) = [(seriesId, data)] := by
    have isOrder : (pointTableLayout writer).order = [seriesId] := by
      change writer.downsampleData.keys = [seriesId]
      rw [onlyData]
      rfl
    rw [pointsLaidOut, isOrder, onlyData, List.filterMap_cons,
      AList.lookup_insert]
    rfl
  have isPoints : allPoints [(seriesId, data)] = data.points :=
    List.append_nil _
  obtain ⟨short, times, built⟩ := fits
  rw [writeAt, write, laid, laidPoints, isPoints]
  simp only [BlockWriter.allSamples, List.flatMap_nil, List.length_nil,
    Nat.not_lt_zero, if_false, List.map_nil, built, if_neg (not_lt.mpr short)]
  exact ⟨_, rfl⟩

theorem exists_addDownsampleSeries
    {writer : FullWriter} (sized : writer.bloomFilter.Sized)
    {seriesId : TimeSeriesId}
    (absent : writer.downsampleData.lookup seriesId = none) (labels : Labels)
    (points : List DownsamplePoint) :
    ∃ after,
      writer.addDownsampleSeries hasher seriesId labels points = .ok after ∧
        after.seriesData = writer.seriesData ∧
        after.downsampleData =
          writer.downsampleData.insert seriesId
            { labels := labels, points := points } := by
  obtain ⟨bloomFilter, inserts, _⟩ :=
    Index.BloomFilter.exists_insert hasher sized (filterKey labels)
  rw [addDownsampleSeries, absent]
  simp only [Option.getD_none, List.nil_append, inserts]
  exact ⟨_, rfl, rfl, rfl⟩

theorem exists_processSeries {task : WorkerTask} {seriesId : TimeSeriesId}
    (fits :
      ∀ series, store.getSeries seriesId = some series →
        PointsFit
          (downseries (task.samplesIn series)
            task.targetLevel.resolutionMs))
    (dirs : DataDir) :
    ∃ counts after,
      processSeries hasher json store task seriesId dirs =
        (.ok counts, after) := by
  rw [processSeries]
  cases found : store.getSeries seriesId with
  | none => exact ⟨_, _, rfl⟩
  | some series =>
    dsimp only
    split
    · exact ⟨_, _, rfl⟩
    · split
      · exact ⟨_, _, rfl⟩
      · obtain ⟨writer, adds, noSeries, onlyData⟩ :=
          @exists_addDownsampleSeries hasher (new seriesId)
            sized_newFilter seriesId (AList.lookup_empty _)
            series.labels
            (downseries (task.samplesIn series)
              task.targetLevel.resolutionMs)
        obtain ⟨after, writes⟩ :=
          @exists_writeAt json writer _ seriesId noSeries onlyData
            (fits series found) downsamplePath
            (dirs.createDirAll downsamplePath)
        rw [adds]
        simp only [writes]
        exact ⟨_, _, rfl⟩

theorem exists_processFrom {task : WorkerTask} {left : List TimeSeriesId}
    (fits :
      ∀ seriesId ∈ left, ∀ series,
        store.getSeries seriesId = some series →
        PointsFit
          (downseries (task.samplesIn series)
            task.targetLevel.resolutionMs))
    (processed generated : ℕ) (dirs : DataDir) :
    ∃ counts,
      processFrom hasher json store task left processed generated dirs =
        (none, counts) := by
  induction left generalizing processed generated dirs with
  | nil => exact ⟨_, rfl⟩
  | cons seriesId rest inductionHypothesis =>
    obtain ⟨firstFits, restFits⟩ := List.forall_mem_cons.mp fits
    obtain ⟨counts, after, processes⟩ :=
      @exists_processSeries hasher json store task seriesId firstFits dirs
    rw [processFrom, processes]
    exact inductionHypothesis restFits _ _ _

theorem exists_workerStep {task : WorkerTask}
    (fits :
      ∀ seriesId ∈ task.seriesIds, ∀ series,
        store.getSeries seriesId = some series →
        PointsFit
          (downseries (task.samplesIn series)
            task.targetLevel.resolutionMs))
    (before : DataDir) :
    ∃ after, WorkerStep hasher json display before (store, task) after := by
  obtain ⟨⟨processed, generated, after⟩, processes⟩ :=
    @exists_processFrom hasher json store task task.seriesIds fits 0 0 before
  have succeeds :
      processTask hasher json store display task before =
        (some {
          taskId := task.taskId
          success := true
          samplesProcessed := processed
          samplesGenerated := generated
          error := none
        }, after) := by
    rw [processTask, processes]
  exact ⟨after, _, succeeds, rfl⟩

end Success

end ChronoDB.Downsample
