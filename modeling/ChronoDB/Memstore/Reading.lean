import ChronoDB.Memstore.HeadRuns
import ChronoDB.Memstore.RangeQuery

namespace ChronoDB.Memstore

open Library Columnstore List Sample HeadBlock

/-!
# What a query reads

A query for some matchers and a time range reads the series that have them and
their samples in the range.  A call that changes no such sample leaves the result
as it was.
-/

/-!
## What one operation can do to a series
-/

def HeadOperation.removed : HeadOperation → List TimeSeriesId
  | .removeSeries seriesId => [seriesId]
  | .removeSeriesBatch seriesIds => seriesIds
  | _ => []

inductive SeriesChange
    (hasher : Bytes → TimeSeriesId) (seriesId : TimeSeriesId) :
    HeadOperation → Option TimeSeriesEntry → Option TimeSeriesEntry → Prop where
  | unchanged
      {operation : HeadOperation}
      {found : Option TimeSeriesEntry} :
      SeriesChange hasher seriesId operation found found
  | created
      {labels : Labels}
      (isId : seriesId = calculateSeriesId hasher labels) :
      SeriesChange hasher seriesId (.getOrCreateSeries labels) none
        (some (.new labels))
  | added
      {sample : Sample}
      {entry : TimeSeriesEntry} :
      SeriesChange hasher seriesId (.addSample seriesId sample) (some entry)
        (some (entry.addSample sample))
  | removed
      {operation : HeadOperation}
      {found : Option TimeSeriesEntry}
      (isRemoved : seriesId ∈ operation.removed) :
      SeriesChange hasher seriesId operation found none

/-- Every step changes what is under an id in one of these ways. -/
theorem seriesChange_of_step
    {hasher : Bytes → TimeSeriesId} {before after : HeadBlock}
    {operation : HeadOperation} (step : HeadStep hasher before operation after)
    (seriesId : TimeSeriesId) :
    SeriesChange hasher seriesId operation (before.series.lookup seriesId)
      (after.series.lookup seriesId) := by
  cases step
  cases operation with
  | getOrCreateSeries labels =>
    rw [HeadOperation.run]
    split
    · exact .unchanged
    · rename_i ownId after created
      obtain ⟨isId, _, entries, _⟩ :=
        HeadBlock.lookup_of_getOrCreateSeries created
      simp only
      rw [entries seriesId]
      split
      · rename_i same
        rw [same]
        cases before.series.lookup ownId with
        | none => exact .created isId
        | some entry => exact .unchanged
      · exact .unchanged
  | addSample ownId sample =>
    rw [HeadOperation.run]
    split
    · exact .unchanged
    · rename_i after added
      obtain ⟨entry, found, rfl⟩ := HeadBlock.lookup_of_addSample added
      simp only
      by_cases same : seriesId = ownId
      · rw [← same] at found ⊢
        rw [found, AList.lookup_insert]
        exact .added
      · rw [AList.lookup_insert_ne same]
        exact .unchanged
  | removeSeries ownId =>
    rw [HeadOperation.run]
    split
    · exact .unchanged
    · rename_i after removes
      rw [HeadBlock.removeSeries] at removes
      split at removes
      · cases removes
      · cases removes
        simp only
        rw [HeadBlock.lookup_dropSeries]
        split
        · rename_i same
          exact .removed (mem_singleton.mpr same)
        · exact .unchanged
  | removeSeriesBatch seriesIds =>
    rw [HeadOperation.run]
    simp only
    rw [HeadBlock.lookup_removeSeriesBatch]
    split
    · rename_i member
      exact .removed member
    · exact .unchanged

theorem labels_of_run {hasher : Bytes → TimeSeriesId} {before after : HeadBlock}
    {operations : List HeadOperation}
    (run : Run (HeadStep hasher) before operations after)
    {seriesId : TimeSeriesId} {labels : Labels}
    (isLabels : after.getSeriesLabels seriesId = some labels) :
    before.getSeriesLabels seriesId = some labels ∨
      .getOrCreateSeries labels ∈ operations := by
  induction run with
  | nil => exact .inl isLabels
  | @cons first middle _ operation _ step _ inductionHypothesis =>
    rcases inductionHypothesis isLabels with inMiddle | later
    · have change := seriesChange_of_step step seriesId
      rw [getSeriesLabels] at inMiddle ⊢
      generalize first.series.lookup seriesId = old at change ⊢
      generalize middle.series.lookup seriesId = current at change inMiddle
      cases change with
      | unchanged => exact .inl inMiddle
      | created isId =>
        rw [Option.map_some, Option.some.injEq,
          TimeSeriesEntry.labels_new] at inMiddle
        rw [← inMiddle]
        exact .inr mem_cons_self
      | added => exact .inl inMiddle
      | removed isRemoved => cases inMiddle
    · exact .inr (mem_cons_of_mem _ later)

/-!
## Reachable head blocks
-/

/-- A series is under the id of its labels, and its chunks are sorted. -/
structure TimeSeriesEntry.Sound
    (hasher : Bytes → TimeSeriesId) (seriesId : TimeSeriesId)
    (entry : TimeSeriesEntry) :
    Prop where
  isId : calculateSeriesId hasher entry.labels = seriesId
  stores : ∃ arrived, entry.Stores arrived

/-- The table and the index agree, and every series is sound. -/
structure HeadBlock.Sound
    (hasher : Bytes → TimeSeriesId) (config : HeadConfig) (head : HeadBlock) :
    Prop where
  agrees : head.Agrees config
  entries :
    ∀ seriesId entry,
      head.series.lookup seriesId = some entry → entry.Sound hasher seriesId

namespace HeadBlock.Sound

variable {hasher : Bytes → TimeSeriesId} {config : HeadConfig}
variable {head after : HeadBlock}

theorem new (config : HeadConfig) :
    (HeadBlock.new config).Sound hasher config where
  agrees := .new config
  entries := fun _ _ found => nomatch found

theorem ofStep {operation : HeadOperation} (sound : head.Sound hasher config)
    (step : HeadStep hasher head operation after) :
    after.Sound hasher config := by
  refine ⟨sound.agrees.ofStep step, fun seriesId entry found => ?_⟩
  have change := seriesChange_of_step step seriesId
  rw [found] at change
  generalize isBefore : head.series.lookup seriesId = before at change
  cases change with
  | unchanged => exact sound.entries seriesId entry isBefore
  | created isId => exact ⟨isId.symm, [], .new _⟩
  | added =>
    rename_i sample old
    obtain ⟨isId, arrived, stores⟩ := sound.entries seriesId old isBefore
    exact ⟨isId, _, stores.addSample sample⟩

theorem ofRun
    {operations : List HeadOperation} (sound : head.Sound hasher config)
    (run : Run (HeadStep hasher) head operations after) :
    after.Sound hasher config :=
  run.preserves (fun sound step => sound.ofStep step) sound

end HeadBlock.Sound

/-!
## Filtering
-/

theorem Chunk.filter_add
    {chunk : Chunk} {arrived : List Sample} (stores : chunk.Stores arrived)
    {start stop : Timestamp} {sample : Sample}
    (outside : sample.inRange start stop = false) :
    (chunk.add sample).samples.filter (inRange start stop) =
      chunk.samples.filter (inRange start stop) := by
  have appended :
      (chunk.samples ++ [sample]).filter (inRange start stop) =
        chunk.samples.filter (inRange start stop) := by
    simp [outside]
  rw [Chunk.add]
  split
  · -- sorting is stable, and what is shown was sorted before
    have sorted :
        (chunk.samples.filter (inRange start stop)).Pairwise
          (KeyLE sortKey) :=
      (sortedByTime_iff.mp stores.sorted).filter _
    have shown :
        (chunk.samples.filter (inRange start stop)).Sublist
          (chunk.samples ++ [sample]) :=
      filter_sublist.trans (sublist_append_left _ _)
    have kept :=
      (sublist_insertionSort sorted shown).filter (inRange start stop)
    simp only [filter_filter, Bool.and_self] at kept
    have sameLength :=
      (((sortByKey_perm sortKey _).filter _).trans
        (.of_eq appended)).length_eq
    exact (kept.eq_of_length_le sameLength.le).symm
  · exact appended

theorem TimeSeriesEntry.filter_addSample
    {entry : TimeSeriesEntry} {arrived : List Sample}
    (stores : entry.Stores arrived) {start stop : Timestamp} {sample : Sample}
    (outside : sample.inRange start stop = false) :
    (entry.addSample sample).samples.filter (inRange start stop) =
      entry.samples.filter (inRange start stop) := by
  obtain ⟨frozen, current, _, chunks⟩ := stores
  rw [samples, samples, addSample]
  split
  · -- the sample starts a new chunk
    rw [filter_append, Chunk.filter_add .new outside,
      flatMap_append, flatMap_singleton]
    exact append_nil _
  · rw [filter_append, filter_append,
      Chunk.filter_add chunks.storesCurrent outside]

namespace MemStore

theorem querySeries_of_lookup
    {store : MemStore} {seriesId : TimeSeriesId} {entry : TimeSeriesEntry}
    (found : store.head.series.lookup seriesId = some entry)
    (start stop : Timestamp) (level : DownsampleLevel) :
    store.querySeries start stop level seriesId =
      if entry.samples.filter (inRange start stop) = [] then
        none
      else
        some {
          id := seriesId
          labels := entry.labels
          samples :=
            applyDownsampling
              (entry.samples.filter (inRange start stop)) level
        } := by
  rw [MemStore.querySeries, getSeriesLabels, HeadBlock.query, found]
  simp only [Option.map_some, entry.samplesInRange_eq,
    applyDownsampling_eq_nil_iff]
  split <;> rfl

theorem querySeries_congr {store other : MemStore} {seriesId : TimeSeriesId}
    (same :
      store.head.series.lookup seriesId = other.head.series.lookup seriesId)
    (start stop : Timestamp) (level : DownsampleLevel) :
    store.querySeries start stop level seriesId =
      other.querySeries start stop level seriesId := by
  rw [MemStore.querySeries, MemStore.querySeries, getSeriesLabels,
    getSeriesLabels, HeadBlock.query, HeadBlock.query, same]

theorem id_of_querySeries
    {store : MemStore} {start stop : Timestamp} {level : DownsampleLevel}
    {seriesId : TimeSeriesId} {ts : TimeSeries}
    (isQueried : store.querySeries start stop level seriesId = some ts) :
    ts.id = seriesId := by
  cases found : store.head.series.lookup seriesId with
  | none =>
    rw [MemStore.querySeries, getSeriesLabels, found] at isQueried
    cases isQueried
  | some entry =>
    rw [querySeries_of_lookup found] at isQueried
    split at isQueried
    · cases isQueried
    · cases isQueried
      rfl

end MemStore

/-!
## Selections
-/

/-- What a vector query asks a store for. -/
structure Selection where
  matchers : List (String × String)
  start : Timestamp
  stop : Timestamp
  deriving Repr, DecidableEq

namespace Selection

open MemStore

def level (selection : Selection) : DownsampleLevel :=
  .fromQueryRange (selection.stop - selection.start)

def Selects (selection : Selection) (labels : Labels) : Prop :=
  ∀ matcher ∈ selection.matchers, ⟨matcher.1, matcher.2⟩ ∈ labels

def samplesRead (selection : Selection) (entry : TimeSeriesEntry) :
    List Sample :=
  entry.samples.filter (inRange selection.start selection.stop)

/-- A series of the result. -/
structure Shows (selection : Selection) (head : HeadBlock) (ts : TimeSeries)
    (entry : TimeSeriesEntry) :
    Prop where
  found : head.series.lookup ts.id = some entry
  selects : selection.Selects entry.labels
  sameLabels : ts.labels = entry.labels
  shown : selection.samplesRead entry ≠ []
  sameSamples :
    ts.samples = applyDownsampling (selection.samplesRead entry) selection.level

def read (selection : Selection) (store : MemStore) : List TimeSeries :=
  store.queryWithDownsample selection.matchers selection.start selection.stop
    selection.level

theorem mem_read_iff
    {selection : Selection} {store : MemStore} {config : HeadConfig}
    (agrees : store.head.Agrees config) {ts : TimeSeries} :
    ts ∈ selection.read store ↔
      ∃ entry, selection.Shows store.head ts entry := by
  rw [read, MemStore.queryWithDownsample, mem_filterMap]
  constructor
  · rintro ⟨seriesId, known, isQueried⟩
    obtain rfl := id_of_querySeries isQueried
    obtain ⟨entry, found, selects⟩ :=
      ((MemStore.findSeries_exact agrees selection.matchers).2 _).mp known
    rw [querySeries_of_lookup found] at isQueried
    split at isQueried
    · cases isQueried
    · rename_i shown
      have isSeries := Option.some.inj isQueried
      exact ⟨entry, found, selects, by rw [← isSeries], shown,
        by rw [← isSeries]; rfl⟩
  · rintro ⟨entry, shows⟩
    refine ⟨ts.id,
      ((MemStore.findSeries_exact agrees selection.matchers).2 _).mpr
        ⟨entry, shows.found, shows.selects⟩, ?_⟩
    have shown :
        entry.samples.filter
            (inRange selection.start selection.stop) ≠ [] :=
      shows.shown
    rw [querySeries_of_lookup shows.found, if_neg shown]
    obtain ⟨seriesId, labels, samples⟩ := ts
    rw [Option.some.injEq, TimeSeries.mk.injEq]
    exact ⟨rfl, shows.sameLabels.symm, shows.sameSamples.symm⟩

theorem nodup_read
    {store : MemStore} {config : HeadConfig} (agrees : store.head.Agrees config)
    (selection : Selection) :
    (selection.read store).Nodup := by
  refine List.Nodup.filterMap ?_
    (MemStore.findSeries_exact agrees selection.matchers).1
  intro first second ts isFirst isSecond
  rw [Option.mem_def] at isFirst isSecond
  exact (id_of_querySeries isFirst).symm.trans (id_of_querySeries isSecond)

/-!
## Calls that change nothing that is read
-/

/-- Samples under an id that the selection does not ask for. -/
def Misses (selection : Selection) (hasher : Bytes → TimeSeriesId)
    (seriesId : TimeSeriesId) (samples : List Sample) :
    Prop :=
  ∀ labels,
    calculateSeriesId hasher labels = seriesId →
      selection.Selects labels →
        ∀ sample ∈ samples,
          sample.inRange selection.start selection.stop = false

end Selection

def HeadOperation.Misses
    (selection : Selection) (hasher : Bytes → TimeSeriesId) (head : HeadBlock) :
    HeadOperation → Prop
  | .getOrCreateSeries _ => True
  | .addSample seriesId sample => selection.Misses hasher seriesId [sample]
  | .removeSeries seriesId =>
    selection.Misses hasher seriesId (head.samplesOf seriesId)
  | .removeSeriesBatch seriesIds =>
    ∀ seriesId ∈ seriesIds,
      selection.Misses hasher seriesId (head.samplesOf seriesId)

/-- A call that adds and removes no sample that is read. -/
def StoreOperation.Misses
    (selection : Selection) (hasher : Bytes → TimeSeriesId)
    (before : MemStore) :
    StoreOperation → Prop
  | .write item => selection.Misses hasher (item.seriesId hasher) item.samples
  | .writeBatch batch =>
    ∀ item ∈ batch, selection.Misses hasher (item.seriesId hasher) item.samples
  | .removeSeriesBatch seriesIds =>
    ∀ seriesId ∈ seriesIds,
      selection.Misses hasher seriesId (before.samplesOf seriesId)

section Frames

variable {selection : Selection}
variable {hasher : Bytes → TimeSeriesId} {config : HeadConfig}

/-- An operation that misses a selection shows the same series. -/
theorem shows_iff_of_step {before after : HeadBlock} {operation : HeadOperation}
    (sound : before.Sound hasher config)
    (misses : operation.Misses selection hasher before)
    (step : HeadStep hasher before operation after) (ts : TimeSeries) :
    (∃ entry, selection.Shows before ts entry) ↔
      ∃ entry, selection.Shows after ts entry := by
  have change := seriesChange_of_step step ts.id
  generalize isBefore : before.series.lookup ts.id = old at change
  generalize isAfter : after.series.lookup ts.id = new at change
  cases change with
  | unchanged =>
    constructor
    · rintro ⟨entry, shows⟩
      exact ⟨entry, by rw [isAfter, ← isBefore, shows.found],
        shows.selects, shows.sameLabels, shows.shown, shows.sameSamples⟩
    · rintro ⟨entry, shows⟩
      exact ⟨entry, by rw [isBefore, ← isAfter, shows.found],
        shows.selects, shows.sameLabels, shows.shown, shows.sameSamples⟩
  | created isId =>
    -- a new series has no samples to show
    constructor
    · rintro ⟨entry, shows⟩
      rw [shows.found] at isBefore
      cases isBefore
    · rintro ⟨entry, shows⟩
      rw [shows.found] at isAfter
      cases isAfter
      exact absurd rfl shows.shown
  | added =>
    rename_i sample entry
    have isSound := sound.entries ts.id entry isBefore
    obtain ⟨arrived, stores⟩ := isSound.stores
    have sameRead :
        selection.Selects entry.labels →
          selection.samplesRead (entry.addSample sample) =
            selection.samplesRead entry := by
      intro selects
      exact TimeSeriesEntry.filter_addSample stores
        (misses entry.labels isSound.isId selects sample
          (mem_singleton_self sample))
    constructor
    · rintro ⟨other, shows⟩
      rw [shows.found, Option.some.injEq] at isBefore
      subst isBefore
      have same := sameRead shows.selects
      exact ⟨_, isAfter, shows.selects, shows.sameLabels,
        same.symm ▸ shows.shown, same.symm ▸ shows.sameSamples⟩
    · rintro ⟨other, shows⟩
      rw [shows.found, Option.some.injEq] at isAfter
      subst isAfter
      have same := sameRead shows.selects
      exact ⟨_, isBefore, shows.selects, shows.sameLabels,
        same ▸ shows.shown, same ▸ shows.sameSamples⟩
  | removed isRemoved =>
    have missesAll :
        selection.Misses hasher ts.id (before.samplesOf ts.id) := by
      cases operation with
      | getOrCreateSeries labels => cases isRemoved
      | addSample seriesId sample => cases isRemoved
      | removeSeries seriesId =>
        rw [mem_singleton.mp isRemoved]
        exact misses
      | removeSeriesBatch seriesIds => exact misses ts.id isRemoved
    constructor
    · rintro ⟨entry, shows⟩
      refine absurd ?_ shows.shown
      rw [Selection.samplesRead, filter_eq_nil_iff]
      intro sample held
      have isSound := sound.entries ts.id entry shows.found
      rw [missesAll entry.labels isSound.isId shows.selects sample (by
        rw [HeadBlock.samplesOf, shows.found]
        exact held)]
      exact Bool.false_ne_true
    · rintro ⟨entry, shows⟩
      rw [shows.found] at isAfter
      cases isAfter

theorem misses_of_partOf {item : LoggedWrite} {operation : HeadOperation}
    (misses :
      selection.Misses hasher (item.seriesId hasher) item.samples)
    (isPart : operation.PartOf hasher item) (head : HeadBlock) :
    operation.Misses selection hasher head := by
  cases operation with
  | getOrCreateSeries labels => trivial
  | addSample seriesId sample =>
    obtain ⟨rfl, isSample⟩ := isPart
    intro labels isId selects other isOther
    rw [mem_singleton.mp isOther]
    exact misses labels isId selects sample isSample
  | removeSeries seriesId => exact isPart.elim
  | removeSeriesBatch seriesIds => exact isPart.elim

theorem shows_iff_of_run
    {before after : HeadBlock} {operations : List HeadOperation}
    (sound : before.Sound hasher config)
    (run : Run (HeadStep hasher) before operations after)
    (misses :
      ∀ operation ∈ operations, ∀ head, operation.Misses selection hasher head)
    (ts : TimeSeries) :
    (∃ entry, selection.Shows before ts entry) ↔
      ∃ entry, selection.Shows after ts entry := by
  induction run with
  | nil head => exact Iff.rfl
  | cons first _ inductionHypothesis =>
    obtain ⟨missesFirst, missesRest⟩ := forall_mem_cons.mp misses
    exact (shows_iff_of_step sound (missesFirst _) first ts).trans
      (inductionHypothesis (sound.ofStep first) missesRest)

theorem read_perm_of_step {codec : Wal.WalCodec} {before after : MemStore}
    {operation : StoreOperation} (sound : before.head.Sound hasher config)
    (misses : operation.Misses selection hasher before)
    (step : StoreStep codec hasher before operation after) :
    after.head.Sound hasher config ∧
      (selection.read before).Perm (selection.read after) := by
  obtain ⟨operations, run, consists⟩ := MemStore.exists_run_of_storeStep step
  have soundAfter := sound.ofRun run
  refine ⟨soundAfter, ?_⟩
  rw [perm_ext_iff_of_nodup (Selection.nodup_read sound.agrees selection)
    (Selection.nodup_read soundAfter.agrees selection)]
  intro ts
  rw [Selection.mem_read_iff sound.agrees,
    Selection.mem_read_iff soundAfter.agrees]
  cases operation with
  | write item =>
    exact shows_iff_of_run sound run
      (fun part isPart head =>
        misses_of_partOf misses (consists part isPart) head) ts
  | writeBatch batch =>
    refine shows_iff_of_run sound run (fun part isPart head => ?_) ts
    obtain ⟨item, isItem, isPartOf⟩ := consists part isPart
    exact misses_of_partOf (misses item isItem) isPartOf head
  | removeSeriesBatch seriesIds =>
    cases consists
    cases run with
    | cons first later =>
      cases later
      have missesAll :
          (HeadOperation.removeSeriesBatch seriesIds).Misses selection
            hasher before.head :=
        misses
      exact shows_iff_of_step sound missesAll first ts

end Frames

end ChronoDB.Memstore
