import ChronoDB.Memstore.Reading
import ChronoDB.Migration.Export

namespace ChronoDB.Migration

open Library Memstore Wal

/-!
# Export to a file and import from it

An export asks the store for the series of a metric as any other query does, so
that the range decides how much the samples are averaged.  An import writes the
series of the file one after the other.
-/

/-- The part of the configuration that an import looks at. -/
structure MigrationConfig where
  skipErrors : Bool
  deriving Repr, DecidableEq

structure MigrationStats where
  totalSeries : ℕ
  totalSamples : ℕ
  processedSeries : ℕ
  processedSamples : ℕ
  failedSeries : ℕ
  deriving Repr, DecidableEq

namespace MigrationStats

def new : MigrationStats where
  totalSeries := 0
  totalSamples := 0
  processedSeries := 0
  processedSamples := 0
  failedSeries := 0

end MigrationStats

def convertToExportFormat (ts : TimeSeries) : ExportTimeSeries where
  metadata := {
    metricName :=
      ((ts.labels.find? fun label => label.name = "__name__").map
        Label.value).getD ""
    labels := ts.labels.map fun label => (label.name, label.value)
    unit := none
    description := none
  }
  samples := ts.samples.map fun sample => ⟨sample.timestamp, sample.value⟩

section Export

variable (text : ExportText)

def exportData
    (query : String) (start stop : Timestamp) (seriesList : List TimeSeries) :
    ExportData :=
  seriesList.foldl
    (fun data ts => data.addTimeSeries (convertToExportFormat ts))
    ((ExportData.new.withQuery query).withTimeRange start stop)

def exportStats (seriesList : List TimeSeries) : MigrationStats :=
  let samples := (seriesList.map fun ts => ts.samples.length).sum
  {
    totalSeries := seriesList.length
    totalSamples := samples
    processedSeries := seriesList.length
    processedSamples := samples
    failedSeries := 0
  }

/-- `export_to_file`, with the content that it writes to the file. -/
def exportToFile (store : MemStore) (format : ExportFormat) (query : String)
    (start stop : Timestamp) :
    Except MigrationError (MigrationStats × Text) :=
  let seriesList := store.query [("__name__", query)] start stop
  let data := exportData query start stop seriesList
  match format with
  | .json => .ok (exportStats seriesList, text.toJson data)
  | .csv => .ok (exportStats seriesList, toCsv text data)
  | .parquet => .error (.internal "Unsupported export format: Parquet")
  | .orc => .error (.internal "Unsupported export format: Orc")
  | .avro => .error (.internal "Unsupported export format: Avro")

end Export

section Import

variable (codec : WalCodec) (hasher : Bytes → TimeSeriesId)

def ExportTimeSeries.write (series : ExportTimeSeries) (clock : WriteClock) :
    SeriesWrite where
  labels := series.metadata.labels.map fun label => ⟨label.1, label.2⟩
  samples := series.samples.map fun sample => ⟨sample.timestamp, sample.value⟩
  clock := clock

def importTimeSeries
    (store : MemStore) (series : ExportTimeSeries) (clock : WriteClock) :
    Except MigrationError ℕ × MemStore :=
  match store.writeBatch codec hasher [series.write clock] with
  | (.error cause, failed) => (.error (.storage cause), failed)
  | (.ok (), written) => (.ok series.samples.length, written)

/--
The loop over the series of a file.  `clock` has the clock readings of the write
after which so many series are left.
-/
def importAll
    (config : MigrationConfig) (clock : ℕ → WriteClock) (store : MemStore)
    (stats : MigrationStats) :
    List ExportTimeSeries → Except MigrationError MigrationStats × MemStore
  | [] => (.ok stats, store)
  | series :: rest =>
    match importTimeSeries codec hasher store series (clock rest.length) with
    | (.ok count, written) =>
      importAll config clock written
        {
          stats with
          processedSeries := stats.processedSeries + 1
          processedSamples := stats.processedSamples + count
        }
        rest
    | (.error cause, failed) =>
      if config.skipErrors then
        importAll config clock failed
          { stats with failedSeries := stats.failedSeries + 1 } rest
      else
        (.error cause, failed)

/-- The data that the content of a file stands for. -/
def readContent
    (text : ExportText) (order : List ExportTimeSeries → List ExportTimeSeries)
    (format : ExportFormat) (content : Text) :
    Except MigrationError ExportData :=
  match format with
  | .json =>
    match text.fromJson content with
    | .ok data => .ok data
    | .error message => .error (.internal ("JSON parse error: " ++ message))
  | .csv => parseCsv text order content
  | .parquet => .error (.internal "Unsupported import format: Parquet")
  | .orc => .error (.internal "Unsupported import format: Orc")
  | .avro => .error (.internal "Unsupported import format: Avro")

def importFromFile
    (text : ExportText) (order : List ExportTimeSeries → List ExportTimeSeries)
    (config : MigrationConfig) (clock : ℕ → WriteClock) (store : MemStore)
    (format : ExportFormat) (content : Text) :
    Except MigrationError MigrationStats × MemStore :=
  match readContent text order format content with
  | .error cause => (.error cause, store)
  | .ok data =>
    importAll codec hasher config clock store
      {
        MigrationStats.new with
        totalSeries := data.timeSeries.length
        totalSamples :=
          (data.timeSeries.map fun series => series.samples.length).sum
      }
      data.timeSeries

end Import

/-!
## What an import puts into a store

An import is a run of operations of the head block, whatever its result.  With a
log that works and room for all series it succeeds, and every series holds what
the file has for it.
-/

open List

variable {codec : WalCodec} {hasher : Bytes → TimeSeriesId}

namespace ExportTimeSeries

def importedLabels (series : ExportTimeSeries) : Labels :=
  series.metadata.labels.map fun label => ⟨label.1, label.2⟩

def importedSamples (series : ExportTimeSeries) : List Sample :=
  series.samples.map fun sample => ⟨sample.timestamp, sample.value⟩

/-- The id that the series gets. -/
def importedId (hasher : Bytes → TimeSeriesId) (series : ExportTimeSeries) :
    TimeSeriesId :=
  calculateSeriesId hasher series.importedLabels

end ExportTimeSeries

theorem snd_importTimeSeries
    (store : MemStore) (series : ExportTimeSeries) (clock : WriteClock) :
    (importTimeSeries codec hasher store series clock).2 =
      (store.writeBatchUnder codec hasher [⟨series.write clock, none⟩]).2 := by
  have sameBatch :=
    @MemStore.writeBatchUnder_none codec hasher store [series.write clock]
  rw [map_singleton] at sameBatch
  rw [importTimeSeries, sameBatch]
  split
  · rename_i failed
    rw [failed]
  · rename_i written
    rw [written]

theorem exists_run_importAll
    (config : MigrationConfig) (clock : ℕ → WriteClock) (store : MemStore)
    (stats : MigrationStats) (imported : List ExportTimeSeries) :
    ∃ operations,
      Run (HeadStep hasher) store.head operations
          (importAll codec hasher config clock store stats imported).2.head ∧
        ∀ labels,
          .getOrCreateSeries labels ∈ operations →
            ∃ series ∈ imported, labels = series.importedLabels := by
  induction imported generalizing store stats with
  | nil => exact ⟨[], .nil _, nofun⟩
  | cons series rest inductionHypothesis =>
    have step :
        StoreStep codec hasher store
          (.writeBatch [⟨series.write (clock rest.length), none⟩])
          (importTimeSeries codec hasher store series (clock rest.length)).2 :=
      (snd_importTimeSeries store series _).symm
    obtain ⟨operations, run, consists⟩ := MemStore.exists_run_of_storeStep step
    have firstCreates :
        ∀ labels,
          .getOrCreateSeries labels ∈ operations →
            ∃ other ∈ series :: rest, labels = other.importedLabels := by
      intro labels member
      obtain ⟨item, isItem, isPart⟩ := consists _ member
      cases mem_singleton.mp isItem
      exact ⟨series, mem_cons_self, isPart⟩
    -- the loop goes on with the store that the first call left
    have goesOn :
        ∀ stats,
          ∃ operations,
            Run (HeadStep hasher) store.head operations
                (importAll codec hasher config clock
                  (importTimeSeries codec hasher store series
                    (clock rest.length)).2 stats rest).2.head ∧
              ∀ labels,
                .getOrCreateSeries labels ∈ operations →
                  ∃ other ∈ series :: rest, labels = other.importedLabels := by
      intro stats
      obtain ⟨later, laterRun, laterCreates⟩ :=
        inductionHypothesis
          (importTimeSeries codec hasher store series
            (clock rest.length)).2 stats
      refine ⟨operations ++ later, run.append laterRun, fun labels member => ?_⟩
      rcases mem_append.mp member with early | late
      · exact firstCreates labels early
      · obtain ⟨other, isOther, isLabels⟩ := laterCreates labels late
        exact ⟨other, mem_cons_of_mem _ isOther, isLabels⟩
    rw [importAll]
    split
    · rename_i count written isWritten
      rw [isWritten] at goesOn
      exact goesOn _
    · rename_i cause failed isFailed
      rw [isFailed] at goesOn run
      split
      · exact goesOn _
      · exact ⟨operations, run, firstCreates⟩

/-!
## Imports that succeed
-/

theorem exists_log
    {store : MemStore} (logReady : store.LogReady) (write : SeriesWrite) :
    ∃ logged,
      LoggedWrite.log codec hasher ⟨write, none⟩ store.wal = (.ok (), logged) ∧
        ∀ wal, logged = some wal → wal.Ready := by
  cases opened : store.wal with
  | none => exact ⟨none, rfl, nofun⟩
  | some wal =>
    have ready := logReady wal opened
    obtain ⟨after, step⟩ :=
      WalStep.exists_after codec ready
        (Wal.logWrite (calculateSeriesId hasher write.labels) write.labels
          write.samples write.clock.millis write.clock.now
          write.clock.rotation)
    refine ⟨some after, ?_, ?_⟩
    · rw [WalStep] at step
      simp only [LoggedWrite.log, LoggedWrite.seriesId, step]
    · rintro _ ⟨⟩
      exact step.ready ready

structure Imports (hasher : Bytes → TimeSeriesId) (before after : MemStore)
    (imported : List ExportTimeSeries) :
    Prop where
  logReady : after.LogReady
  maxSeries : after.admission.maxSeries = before.admission.maxSeries
  ids :
    after.admission.ids =
      before.admission.ids ∪
        (imported.map (ExportTimeSeries.importedId hasher)).toFinset
  samplesOf :
    ∀ seriesId,
      (after.samplesOf seriesId).Perm
        (before.samplesOf seriesId ++ imported.flatMap fun series =>
          if series.importedId hasher = seriesId then series.importedSamples
          else [])

theorem exists_importTimeSeries {store : MemStore} (logReady : store.LogReady)
    (room : ¬ store.admission.Full) (series : ExportTimeSeries)
    (clock : WriteClock) :
    ∃ after,
      importTimeSeries codec hasher store series clock =
          (.ok series.samples.length, after) ∧
        Imports hasher store after [series] := by
  obtain ⟨logged, logs, readyAfter⟩ :=
    @exists_log codec hasher store logReady (series.write clock)
  have admits :
      store.admission.accept codec hasher ⟨series.write clock, none⟩ =
        some {
          store.admission with
          ids := insert (series.importedId hasher) store.admission.ids
          wal := logged
        } := by
    have logs :
        LoggedWrite.log codec hasher ⟨series.write clock, none⟩
            store.admission.wal =
          (.ok (), logged) :=
      logs
    rw [Admission.accept, if_neg fun full => room full.2]
    simp only [logs]
    rfl
  obtain ⟨written, writes, isAdmitted, adds⟩ :=
    MemStore.writeSeriesUnder_of_admit admits
  have sameBatch :=
    @MemStore.writeBatchUnder_none codec hasher store [series.write clock]
  rw [map_singleton, MemStore.writeBatchUnder,
    MemStore.writeAllSeriesUnder, writes] at sameBatch
  obtain ⟨count, succeeds⟩ :
      ∃ count,
        store.writeBatch codec hasher [series.write clock] =
          (.ok (), written.recordWrites 1 count) :=
    ⟨_, sameBatch.symm⟩
  refine ⟨written.recordWrites 1 count, ?_, ?_, ?_, ?_, fun seriesId => ?_⟩
  · rw [importTimeSeries, succeeds]
  · intro wal isWal
    have sameWal : written.wal = logged := congrArg Admission.wal isAdmitted
    exact readyAfter wal (sameWal.symm.trans isWal)
  · have sameLimit := congrArg Admission.maxSeries isAdmitted
    exact sameLimit
  · have sameIds := congrArg Admission.ids isAdmitted
    refine Eq.trans sameIds ?_
    rw [map_singleton, toFinset_cons, toFinset_nil,
      insert_empty_eq, Finset.insert_eq, Finset.union_comm]
  · have added := adds.samplesOf seriesId
    rw [map_singleton, MemStore.writtenTo, flatMap_singleton] at added
    rw [flatMap_singleton]
    exact added

theorem exists_importAll
    (config : MigrationConfig) (clock : ℕ → WriteClock) {store : MemStore}
    (logReady : store.LogReady) (imported : List ExportTimeSeries)
    (room :
      store.admission.ids.card + imported.length ≤ store.admission.maxSeries)
    (stats : MigrationStats) :
    ∃ result after,
      importAll codec hasher config clock store stats imported =
          (.ok result, after) ∧
        Imports hasher store after imported := by
  induction imported generalizing store stats with
  | nil => exact ⟨stats, store, rfl, logReady, rfl, by simp, by simp⟩
  | cons series rest inductionHypothesis =>
    rw [length_cons] at room
    obtain ⟨middle, first, imports⟩ :=
      @exists_importTimeSeries codec hasher store logReady
        (by rw [Admission.Full]; omega) series (clock rest.length)
    have roomLeft :
        middle.admission.ids.card + rest.length ≤
          middle.admission.maxSeries := by
      have atMost :
          middle.admission.ids.card ≤ store.admission.ids.card + 1 := by
        rw [imports.ids]
        exact Finset.card_union_le _ _
      rw [imports.maxSeries]
      omega
    obtain ⟨result, after, later, importsRest⟩ :=
      inductionHypothesis imports.logReady roomLeft
        {
          stats with
          processedSeries := stats.processedSeries + 1
          processedSamples := stats.processedSamples + series.samples.length
        }
    refine ⟨result, after, ?_, importsRest.logReady, ?_, ?_, fun seriesId => ?_⟩
    · rw [importAll, first]
      exact later
    · rw [importsRest.maxSeries, imports.maxSeries]
    · rw [importsRest.ids, imports.ids, Finset.union_assoc, ← toFinset_append, ←
        map_append, singleton_append]
    · refine (importsRest.samplesOf seriesId).trans ?_
      refine ((imports.samplesOf seriesId).append_right _).trans ?_
      rw [append_assoc, ← flatMap_append, singleton_append]

end ChronoDB.Migration
