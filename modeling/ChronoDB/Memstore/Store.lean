import ChronoDB.Columnstore.Windows
import ChronoDB.Memstore.Head
import ChronoDB.Wal.Recovery

namespace ChronoDB.Memstore

open Library Wal Columnstore

/-!
# The in-memory store

A write creates its series if needed, logs the samples when there is a log, and
adds them one by one.  Opening a store opens the log but reads nothing from it.
Results of queries are lists in one iteration order of the hash tables.
-/

structure MemStoreStats where
  totalSeries : ℕ
  totalSamples : ℕ
  writes : ℕ
  deriving Repr, DecidableEq

structure MemStore where
  head : HeadBlock
  wal : Option WalState
  stats : MemStoreStats

structure WriteClock where
  millis : Timestamp
  now : UInt64
  rotation : RotationClock
  deriving Repr, DecidableEq

/-- One series of a batch, with the clock readings of its log entry. -/
structure SeriesWrite where
  labels : Labels
  samples : List Sample
  clock : WriteClock
  deriving Repr, DecidableEq

namespace MemStore

/-- The part of the configuration that `MemStore::new` looks at. -/
structure StorageConfig where
  memstoreSize : ℕ
  deriving Repr, DecidableEq

variable (codec : WalCodec) (hasher : Bytes → TimeSeriesId)

/--
`MemStore::new`.  `dataDir` is `none` when the data directory does not exist,
and otherwise holds the segments of its log.
-/
def new (config : StorageConfig) (dataDir : Option SegmentDir)
    (created : ℕ → UInt64) (millis : Timestamp) :
    MemStore where
  head := HeadBlock.new { maxSeries := config.memstoreSize / 1024 }
  wal :=
    dataDir.map fun dir =>
      WalState.withConfig codec dir .default created millis
  stats := { totalSeries := 0, totalSamples := 0, writes := 0 }

def logWrite (store : MemStore) (seriesId : TimeSeriesId) (labels : Labels)
    (samples : List Sample) (clock : WriteClock) :
    Except Error Unit × MemStore :=
  match store.wal with
  | none => (.ok (), store)
  | some wal =>
    let (result, logged) :=
      (Wal.logWrite seriesId labels samples clock.millis clock.now
        clock.rotation).run codec wal
    (result, { store with wal := some logged })

/-- Add samples one by one, up to the first failure. -/
def addSamples (head : HeadBlock) (seriesId : TimeSeriesId) :
    List Sample → Except Error Unit × HeadBlock
  | [] => (.ok (), head)
  | sample :: rest =>
    match head.addSample seriesId sample with
    | .error cause => (.error cause, head)
    | .ok added => addSamples added seriesId rest

/-- What `write` and `write_batch` do for one series. -/
def writeSeries (store : MemStore) (write : SeriesWrite) :
    Except Error Unit × MemStore :=
  match store.head.getOrCreateSeries hasher write.labels with
  | .error cause => (.error cause, store)
  | .ok (seriesId, head) =>
    match ({ store with head := head } : MemStore).logWrite codec seriesId
        write.labels write.samples write.clock with
    | (.error cause, failed) => (.error cause, failed)
    | (.ok (), logged) =>
      let (result, filled) :=
        addSamples logged.head seriesId (sortByKey Sample.sortKey write.samples)
      (result, { logged with head := filled })

/-- The series of a batch, one after the other. -/
def writeAllSeries (store : MemStore) :
    List SeriesWrite → Except Error Unit × MemStore
  | [] => (.ok (), store)
  | write :: rest =>
    match store.writeSeries codec hasher write with
    | (.error cause, failed) => (.error cause, failed)
    | (.ok (), written) => written.writeAllSeries rest

def recordWrites (store : MemStore) (writes samples : ℕ) : MemStore :=
  {
    store with
    stats := {
      totalSeries := store.head.seriesCount
      totalSamples := store.stats.totalSamples + samples
      writes := store.stats.writes + writes
    }
  }

def writeBatch (store : MemStore) (batch : List SeriesWrite) :
    Except Error Unit × MemStore :=
  match store.writeAllSeries codec hasher batch with
  | (.error cause, failed) => (.error cause, failed)
  | (.ok (), written) =>
    (.ok (), written.recordWrites batch.length
      (batch.map fun write => write.samples.length).sum)

def write (store : MemStore) (write : SeriesWrite) :
    Except Error Unit × MemStore :=
  match store.writeSeries codec hasher write with
  | (.error cause, failed) => (.error cause, failed)
  | (.ok (), written) => (.ok (), written.recordWrites 1 write.samples.length)

def findSeries (store : MemStore) (matchers : List (String × String)) :
    List TimeSeriesId :=
  match matchers with
  | [] => store.head.index.allSeriesIds
  | (name, value) :: rest =>
    rest.foldl
      (fun previous matcher =>
        let series := store.head.index.lookup matcher.1 matcher.2
        previous.dedup.filter fun seriesId => seriesId ∈ series)
      (store.head.index.lookup name value)

def querySeries
    (store : MemStore) (start stop : Timestamp) (level : DownsampleLevel)
    (seriesId : TimeSeriesId) :
    Option TimeSeries :=
  match store.head.getSeriesLabels seriesId with
  | none => none
  | some labels =>
    match store.head.query seriesId start stop with
    | none => none
    | some samples =>
      if samples = [] then none
      else
        let downsampled := applyDownsampling samples level
        if downsampled = [] then none
        else
          some {
            id := seriesId
            labels := labels
            samples := downsampled
          }

def queryWithDownsample (store : MemStore) (matchers : List (String × String))
    (start stop : Timestamp) (level : DownsampleLevel) :
    List TimeSeries :=
  (store.findSeries matchers).filterMap (store.querySeries start stop level)

/-- The level for a time range; a range too long for an `i64` gets the last. -/
def autoSelectDownsampleLevel (start stop : Timestamp) : DownsampleLevel :=
  let duration := stop.toInt - start.toInt
  if duration < Int64.minValue.toInt ∨ Int64.maxValue.toInt < duration then
    .l4
  else if duration < 3600000 then .l0
  else if duration < 86400000 then .l1
  else if duration < 604800000 then .l2
  else if duration < 2592000000 then .l3
  else .l4

def query (store : MemStore) (matchers : List (String × String))
    (start stop : Timestamp) :
    List TimeSeries :=
  store.queryWithDownsample matchers start stop
    (autoSelectDownsampleLevel start stop)

def getSeries (store : MemStore) (seriesId : TimeSeriesId) :
    Option TimeSeries :=
  match store.head.getSeriesLabels seriesId with
  | none => none
  | some labels =>
    (store.head.query seriesId Int64.minValue Int64.maxValue).map
      fun samples => { id := seriesId, labels := labels, samples := samples }

/-- `MemStore::flush` syncs the log, which holds nothing back. -/
def flush (store : MemStore) : Except Error Unit × MemStore :=
  match store.wal with
  | none => (.ok (), store)
  | some wal =>
    let (result, synced) := WalOperation.sync.run codec wal
    (result, { store with wal := some synced })

def getAllSeriesIds (store : MemStore) : List TimeSeriesId :=
  store.head.index.allSeriesIds

def removeSeriesBatch (store : MemStore) (seriesIds : List TimeSeriesId) :
    MemStore :=
  { store with head := store.head.removeSeriesBatch seriesIds }

/-- The samples in memory under an id. -/
def samplesOf (store : MemStore) (seriesId : TimeSeriesId) : List Sample :=
  store.head.samplesOf seriesId

end MemStore

/-!
## What a write changes
-/

/-- A head block after samples were added under an id. -/
structure HeadBlock.Grows (before after : HeadBlock) (seriesId : TimeSeriesId)
    (samples : List Sample) :
    Prop where
  samplesOf :
    ∀ other,
      (after.samplesOf other).Perm
        (before.samplesOf other ++ if other = seriesId then samples else [])
  present :
    ∀ other,
      (after.series.lookup other).isSome ↔
        (before.series.lookup other).isSome ∨ other = seriesId
  indexed : before.Indexed → after.Indexed

namespace HeadBlock

variable {head after : HeadBlock} {seriesId : TimeSeriesId}

theorem Grows.ofGetOrCreateSeries
    {hasher : Bytes → TimeSeriesId} {labels : Labels}
    (created :
      head.getOrCreateSeries hasher labels = .ok (seriesId, after)) :
    Grows head after seriesId [] := by
  obtain ⟨_, _, entries, indexed⟩ := lookup_of_getOrCreateSeries created
  refine ⟨fun other => ?_, fun other => ?_, indexed⟩
  · have sameSamples : after.samplesOf other = head.samplesOf other := by
      rw [HeadBlock.samplesOf, HeadBlock.samplesOf, entries other]
      split
      · rename_i same
        subst same
        cases head.series.lookup other <;> rfl
      · rfl
    rw [sameSamples]
    simp
  · rw [entries other]
    split
    · rename_i same
      simp [same]
    · rename_i different
      simp [different]

theorem Grows.ofAddSample
    {sample : Sample} (added : head.addSample seriesId sample = .ok after) :
    Grows head after seriesId [sample] := by
  obtain ⟨entry, found, isAfter⟩ := lookup_of_addSample added
  refine ⟨fun other => ?_, fun other => ?_,
    fun indexed => indexed.addSample added⟩
  · subst isAfter
    by_cases same : other = seriesId
    · subst same
      simpa [HeadBlock.samplesOf, found] using entry.addSample_perm sample
    · simp [HeadBlock.samplesOf, AList.lookup_insert_ne same, same]
  · subst isAfter
    by_cases same : other = seriesId
    · subst same
      simp
    · simp [AList.lookup_insert_ne same, same]

theorem Grows.trans {middle : HeadBlock} {first second : List Sample}
    (grows : Grows head middle seriesId first)
    (growsAgain : Grows middle after seriesId second) :
    Grows head after seriesId (first ++ second) := by
  refine ⟨fun other => ?_, fun other => ?_,
    fun indexed => growsAgain.indexed (grows.indexed indexed)⟩
  · refine (growsAgain.samplesOf other).trans ?_
    refine ((grows.samplesOf other).append_right _).trans ?_
    split <;> simp
  · rw [growsAgain.present, grows.present, or_assoc, or_self]

theorem exists_addSamples
    (present : (head.series.lookup seriesId).isSome) (samples : List Sample) :
    ∃ after,
      MemStore.addSamples head seriesId samples = (.ok (), after) ∧
        Grows head after seriesId samples := by
  induction samples generalizing head with
  | nil =>
    refine ⟨head, rfl, fun other => by simp, fun other => ?_, id⟩
    constructor
    · exact .inl
    · rintro (known | rfl)
      · exact known
      · exact present
  | cons sample rest inductionHypothesis =>
    obtain ⟨middle, added⟩ := exists_addSample present sample
    have grows := Grows.ofAddSample added
    obtain ⟨final, restAdded, growsRest⟩ :=
      inductionHypothesis ((grows.present seriesId).mpr (.inr rfl))
    refine ⟨final, ?_, grows.trans growsRest⟩
    rw [MemStore.addSamples, added]
    exact restAdded

end HeadBlock

namespace MemStore

variable {codec : WalCodec} {hasher : Bytes → TimeSeriesId}
variable {store after : MemStore}

@[simp] theorem head_logWrite
    (store : MemStore) (seriesId : TimeSeriesId) (labels : Labels)
    (samples : List Sample) (clock : WriteClock) :
    (store.logWrite codec seriesId labels samples clock).2.head =
      store.head := by
  rw [logWrite]
  split <;> rfl

@[simp] theorem stats_logWrite
    (store : MemStore) (seriesId : TimeSeriesId) (labels : Labels)
    (samples : List Sample) (clock : WriteClock) :
    (store.logWrite codec seriesId labels samples clock).2.stats =
      store.stats := by
  rw [logWrite]
  split <;> rfl

theorem grows_of_writeSeries {write : SeriesWrite}
    (written : store.writeSeries codec hasher write = (.ok (), after)) :
    HeadBlock.Grows store.head after.head
        (calculateSeriesId hasher write.labels) write.samples ∧
      after.stats = store.stats := by
  rw [writeSeries] at written
  cases created : store.head.getOrCreateSeries hasher write.labels with
  | error cause => simp [created] at written
  | ok result =>
    obtain ⟨seriesId, head⟩ := result
    have isId := (HeadBlock.lookup_of_getOrCreateSeries created).1
    have grows := HeadBlock.Grows.ofGetOrCreateSeries created
    have present := (grows.present seriesId).mpr (.inr rfl)
    have sameHead :=
      @head_logWrite codec
        ({ store with head := head } : MemStore) seriesId write.labels
        write.samples write.clock
    have sameStats :=
      @stats_logWrite codec
        ({ store with head := head } : MemStore) seriesId write.labels
        write.samples write.clock
    simp only [created] at written
    rcases logs :
        ({ store with head := head } : MemStore).logWrite codec seriesId
          write.labels write.samples write.clock with
      ⟨outcome, logged⟩
    rw [logs] at sameHead sameStats
    simp only [logs] at written
    cases outcome with
    | error cause => simp at written
    | ok _ =>
      obtain ⟨filled, added, growsFilled⟩ :=
        HeadBlock.exists_addSamples present
          (sortByKey Sample.sortKey write.samples)
      have sameHead : logged.head = head := sameHead
      simp only [sameHead, added, Prod.mk.injEq, true_and] at written
      subst written
      subst isId
      refine ⟨⟨fun other => ?_, (grows.trans growsFilled).present,
        (grows.trans growsFilled).indexed⟩, sameStats⟩
      refine ((grows.trans growsFilled).samplesOf other).trans ?_
      refine List.Perm.append_left _ ?_
      split
      · exact sortByKey_perm Sample.sortKey _
      · exact List.Perm.refl _

def writtenTo (hasher : Bytes → TimeSeriesId) (seriesId : TimeSeriesId)
    (writes : List SeriesWrite) :
    List Sample :=
  writes.flatMap fun write =>
    if calculateSeriesId hasher write.labels = seriesId then
      write.samples
    else
      []

@[simp] theorem writtenTo_nil (seriesId : TimeSeriesId) :
    writtenTo hasher seriesId [] = [] :=
  rfl

theorem writtenTo_append
    (seriesId : TimeSeriesId) (first second : List SeriesWrite) :
    writtenTo hasher seriesId (first ++ second) =
      writtenTo hasher seriesId first ++ writtenTo hasher seriesId second :=
  List.flatMap_append

structure Absorbs (hasher : Bytes → TimeSeriesId) (before after : MemStore)
    (writes : List SeriesWrite) :
    Prop where
  samplesOf :
    ∀ seriesId,
      (after.samplesOf seriesId).Perm
        (before.samplesOf seriesId ++ writtenTo hasher seriesId writes)
  indexed : before.head.Indexed → after.head.Indexed

namespace Absorbs

theorem refl (store : MemStore) : Absorbs hasher store store [] :=
  ⟨fun seriesId => by simp, id⟩

theorem trans {middle : MemStore} {first second : List SeriesWrite}
    (absorbs : Absorbs hasher store middle first)
    (absorbsMore : Absorbs hasher middle after second) :
    Absorbs hasher store after (first ++ second) := by
  refine ⟨fun seriesId => ?_,
    fun indexed => absorbsMore.indexed (absorbs.indexed indexed)⟩
  refine (absorbsMore.samplesOf seriesId).trans ?_
  rw [writtenTo_append, ← List.append_assoc]
  exact (absorbs.samplesOf seriesId).append_right _

theorem ofWriteSeries {write : SeriesWrite}
    (written : store.writeSeries codec hasher write = (.ok (), after)) :
    Absorbs hasher store after [write] := by
  obtain ⟨grows, _⟩ := grows_of_writeSeries written
  refine ⟨fun seriesId => ?_, grows.indexed⟩
  have grown := grows.samplesOf seriesId
  rw [writtenTo, List.flatMap_singleton]
  by_cases same : calculateSeriesId hasher write.labels = seriesId
  · rw [if_pos same]
    rwa [if_pos same.symm] at grown
  · rw [if_neg same]
    rwa [if_neg (Ne.symm same)] at grown

theorem ofWriteAllSeries {batch : List SeriesWrite}
    (written : store.writeAllSeries codec hasher batch = (.ok (), after)) :
    Absorbs hasher store after batch := by
  induction batch generalizing store with
  | nil =>
    cases written
    exact refl _
  | cons write rest inductionHypothesis =>
    rw [writeAllSeries] at written
    rcases first : store.writeSeries codec hasher write with
      ⟨outcome, middle⟩
    simp only [first] at written
    cases outcome with
    | error cause => cases written
    | ok _ => exact (ofWriteSeries first).trans (inductionHypothesis written)

theorem recordWrites
    {writes : List SeriesWrite} (absorbs : Absorbs hasher store after writes)
    (count samples : ℕ) :
    Absorbs hasher store (after.recordWrites count samples) writes :=
  ⟨absorbs.samplesOf, absorbs.indexed⟩

theorem ofWrite {write : SeriesWrite}
    (written : store.write codec hasher write = (.ok (), after)) :
    Absorbs hasher store after [write] := by
  rw [MemStore.write] at written
  rcases first : store.writeSeries codec hasher write with
    ⟨outcome, middle⟩
  simp only [first] at written
  cases outcome with
  | error cause => cases written
  | ok _ =>
    cases written
    exact (ofWriteSeries first).recordWrites _ _

theorem ofWriteBatch {batch : List SeriesWrite}
    (written : store.writeBatch codec hasher batch = (.ok (), after)) :
    Absorbs hasher store after batch := by
  rw [MemStore.writeBatch] at written
  rcases all : store.writeAllSeries codec hasher batch with
    ⟨outcome, middle⟩
  simp only [all] at written
  cases outcome with
  | error cause => cases written
  | ok _ =>
    cases written
    exact (ofWriteAllSeries all).recordWrites _ _

end Absorbs

theorem samplesOf_of_failed_writeSeries {write : SeriesWrite} {cause : Error}
    (failed : store.writeSeries codec hasher write = (.error cause, after))
    (seriesId : TimeSeriesId) :
    (after.samplesOf seriesId).Perm (store.samplesOf seriesId) := by
  rw [writeSeries] at failed
  cases created : store.head.getOrCreateSeries hasher write.labels with
  | error otherCause =>
    simp only [created, Prod.mk.injEq] at failed
    rw [← failed.2]
  | ok result =>
    obtain ⟨ownId, head⟩ := result
    have grows := HeadBlock.Grows.ofGetOrCreateSeries created
    have keptHead :=
      @head_logWrite codec
        ({ store with head := head } : MemStore) ownId write.labels
        write.samples write.clock
    simp only [created] at failed
    rcases logs :
        ({ store with head := head } : MemStore).logWrite codec ownId
          write.labels write.samples write.clock with
      ⟨outcome, logged⟩
    rw [logs] at keptHead
    have sameHead : logged.head = head := keptHead
    simp only [logs] at failed
    cases outcome with
    | error otherCause =>
      simp only [Prod.mk.injEq] at failed
      rw [← failed.2, samplesOf, samplesOf, sameHead]
      simpa using grows.samplesOf seriesId
    | ok _ =>
      -- the series exists by now, so that adding samples succeeds
      obtain ⟨filled, added, _⟩ :=
        HeadBlock.exists_addSamples
          ((grows.present ownId).mpr (.inr rfl))
          (sortByKey Sample.sortKey write.samples)
      simp [sameHead, added] at failed

theorem samplesOf_of_failed_write {write : SeriesWrite} {cause : Error}
    (failed : store.write codec hasher write = (.error cause, after))
    (seriesId : TimeSeriesId) :
    (after.samplesOf seriesId).Perm (store.samplesOf seriesId) := by
  rw [MemStore.write] at failed
  rcases first : store.writeSeries codec hasher write with
    ⟨outcome, middle⟩
  simp only [first] at failed
  cases outcome with
  | error otherCause =>
    cases failed
    exact samplesOf_of_failed_writeSeries first seriesId
  | ok _ => cases failed

@[simp] theorem head_flush (store : MemStore) :
    (store.flush codec).2.head = store.head := by
  rw [flush]
  split <;> rfl

@[simp] theorem stats_flush (store : MemStore) :
    (store.flush codec).2.stats = store.stats := by
  rw [flush]
  split <;> rfl

theorem fst_flush (codec : WalCodec) (store : MemStore) :
    (store.flush codec).1 = .ok () := by
  rw [flush]
  split <;> rfl

theorem samplesOf_removeSeriesBatch
    (store : MemStore) (seriesIds : List TimeSeriesId)
    (seriesId : TimeSeriesId) :
    (store.removeSeriesBatch seriesIds).samplesOf seriesId =
      if seriesId ∈ seriesIds then [] else store.samplesOf seriesId := by
  rw [samplesOf, samplesOf, HeadBlock.samplesOf, HeadBlock.samplesOf,
    removeSeriesBatch, HeadBlock.lookup_removeSeriesBatch]
  split <;> rfl

/-!
## What even a failed write keeps
-/

section Indexed

theorem indexed_addSamples
    {head : HeadBlock} (indexed : head.Indexed) (seriesId : TimeSeriesId)
    (samples : List Sample) :
    (addSamples head seriesId samples).2.Indexed := by
  induction samples generalizing head with
  | nil => exact indexed
  | cons sample rest inductionHypothesis =>
    rw [addSamples]
    split
    · exact indexed
    · rename_i added
      exact inductionHypothesis (indexed.addSample added)

theorem indexed_writeSeries
    (indexed : store.head.Indexed) (write : SeriesWrite) :
    (store.writeSeries codec hasher write).2.head.Indexed := by
  rw [writeSeries]
  split
  · exact indexed
  · rename_i seriesId head created
    have indexedHead : head.Indexed :=
      (HeadBlock.Grows.ofGetOrCreateSeries created).indexed indexed
    have sameHead :=
      @head_logWrite codec ({ store with head := head } : MemStore) seriesId
        write.labels write.samples write.clock
    split
    · rename_i cause failed logs
      rw [logs] at sameHead
      exact sameHead.symm ▸ indexedHead
    · rename_i logged logs
      rw [logs] at sameHead
      exact indexed_addSamples (sameHead.symm ▸ indexedHead) seriesId _

theorem indexed_writeAllSeries
    (indexed : store.head.Indexed) (batch : List SeriesWrite) :
    (store.writeAllSeries codec hasher batch).2.head.Indexed := by
  induction batch generalizing store with
  | nil => exact indexed
  | cons write rest inductionHypothesis =>
    have indexedFirst := @indexed_writeSeries codec hasher store indexed write
    rw [writeAllSeries]
    split
    · rename_i failed
      rw [failed] at indexedFirst
      exact indexedFirst
    · rename_i written
      rw [written] at indexedFirst
      exact inductionHypothesis indexedFirst

theorem indexed_write (indexed : store.head.Indexed) (write : SeriesWrite) :
    (store.write codec hasher write).2.head.Indexed := by
  have indexedAfter := @indexed_writeSeries codec hasher store indexed write
  rw [MemStore.write]
  split
  · rename_i failed
    rw [failed] at indexedAfter
    exact indexedAfter
  · rename_i written
    rw [written] at indexedAfter
    exact indexedAfter

theorem indexed_writeBatch
    (indexed : store.head.Indexed) (batch : List SeriesWrite) :
    (store.writeBatch codec hasher batch).2.head.Indexed := by
  have indexedAfter := @indexed_writeAllSeries codec hasher store indexed batch
  rw [MemStore.writeBatch]
  split
  · rename_i failed
    rw [failed] at indexedAfter
    exact indexedAfter
  · rename_i written
    rw [written] at indexedAfter
    exact indexedAfter

end Indexed

/-!
## Which queries find something
-/

def HoldsNothing (store : MemStore) : Prop :=
  ∀ seriesId, store.samplesOf seriesId = []

theorem holdsNothing_new (config : StorageConfig) (dataDir : Option SegmentDir)
    (created : ℕ → UInt64) (millis : Timestamp) :
    HoldsNothing (new codec config dataDir created millis) :=
  fun _ => rfl

theorem querySeries_eq_none_iff
    (store : MemStore) (start stop : Timestamp) (level : DownsampleLevel)
    (seriesId : TimeSeriesId) :
    store.querySeries start stop level seriesId = none ↔
      ∀ sample ∈ store.samplesOf seriesId,
        sample.inRange start stop = false := by
  rw [querySeries, HeadBlock.getSeriesLabels, HeadBlock.query, samplesOf,
    HeadBlock.samplesOf]
  cases found : store.head.series.lookup seriesId with
  | none => simp
  | some entry =>
    have filtered := entry.samplesInRange_eq start stop
    simp only [Option.map_some, Option.elim_some]
    by_cases noneInRange : entry.samplesInRange start stop = []
    · rw [filtered, List.filter_eq_nil_iff] at noneInRange
      have nothing : entry.samplesInRange start stop = [] := by
        rw [filtered, List.filter_eq_nil_iff]
        exact noneInRange
      simpa [nothing] using noneInRange
    · have someInRange := noneInRange
      rw [filtered, List.filter_eq_nil_iff] at someInRange
      simp [noneInRange]
      simpa using someInRange

theorem queryWithDownsample_of_holdsNothing
    (nothing : store.HoldsNothing) (matchers : List (String × String))
    (start stop : Timestamp) (level : DownsampleLevel) :
    store.queryWithDownsample matchers start stop level = [] := by
  rw [queryWithDownsample, List.filterMap_eq_nil_iff]
  intro seriesId _
  rw [querySeries_eq_none_iff, nothing seriesId]
  simp

theorem queryWithDownsample_of_mem
    (indexed : store.head.Indexed) {seriesId : TimeSeriesId} {sample : Sample}
    (held : sample ∈ store.samplesOf seriesId) {start stop : Timestamp}
    (inRange : sample.inRange start stop = true) (level : DownsampleLevel) :
    store.queryWithDownsample [] start stop level ≠ [] := by
  intro nothing
  have known : seriesId ∈ store.findSeries [] := by
    refine (indexed.mem_allSeriesIds seriesId).mpr ?_
    rw [samplesOf, HeadBlock.samplesOf] at held
    cases found : store.head.series.lookup seriesId with
    | none => simp [found] at held
    | some entry => rfl
  rw [queryWithDownsample, List.filterMap_eq_nil_iff] at nothing
  have missed :=
    (querySeries_eq_none_iff store start stop level seriesId).mp
      (nothing seriesId known) sample held
  rw [inRange] at missed
  cases missed

/-!
## Which writes succeed
-/

def LogReady (store : MemStore) : Prop :=
  ∀ wal, store.wal = some wal → wal.Ready

theorem logReady_new (config : StorageConfig) (dataDir : Option SegmentDir)
    (firstOpening : ∀ dir, dataDir = some dir → dir = ∅) (created : ℕ → UInt64)
    (millis : Timestamp) :
    LogReady (new codec config dataDir created millis) := by
  intro wal opened
  simp only [new, Option.map_eq_some_iff] at opened
  obtain ⟨dir, present, rfl⟩ := opened
  rw [firstOpening dir present]
  exact WalState.Ready.initial codec .default created millis

theorem exists_logWrite
    (logReady : store.LogReady) (seriesId : TimeSeriesId) (labels : Labels)
    (samples : List Sample) (clock : WriteClock) :
    ∃ logged,
      store.logWrite codec seriesId labels samples clock =
        (.ok (), logged) := by
  rw [logWrite]
  cases opened : store.wal with
  | none => exact ⟨store, rfl⟩
  | some wal =>
    obtain ⟨after, step⟩ :=
      WalStep.exists_after codec (logReady wal opened)
        (Wal.logWrite seriesId labels samples clock.millis clock.now
          clock.rotation)
    rw [WalStep] at step
    simp only [step]
    exact ⟨_, rfl⟩

theorem exists_write (logReady : store.LogReady)
    (room : store.head.seriesCount < store.head.config.maxSeries)
    (write : SeriesWrite) :
    ∃ after, store.write codec hasher write = (.ok (), after) := by
  obtain ⟨head, created⟩ :=
    HeadBlock.exists_getOrCreateSeries hasher room write.labels
  have logReady : LogReady ({ store with head := head } : MemStore) := logReady
  obtain ⟨logged, logs⟩ :=
    @exists_logWrite codec _ logReady
      (calculateSeriesId hasher write.labels) write.labels write.samples
      write.clock
  have sameHead :=
    @head_logWrite codec
      ({ store with head := head } : MemStore)
      (calculateSeriesId hasher write.labels) write.labels write.samples
      write.clock
  rw [logs] at sameHead
  have sameHead : logged.head = head := sameHead
  have present :
      (head.series.lookup (calculateSeriesId hasher write.labels)).isSome :=
    ((HeadBlock.Grows.ofGetOrCreateSeries created).present _).mpr (.inr rfl)
  obtain ⟨filled, added, _⟩ :=
    HeadBlock.exists_addSamples present (sortByKey Sample.sortKey write.samples)
  refine ⟨MemStore.recordWrites { logged with head := filled } 1
    write.samples.length, ?_⟩
  rw [MemStore.write, writeSeries]
  simp only [created, logs, sameHead, added]

end MemStore

end ChronoDB.Memstore
