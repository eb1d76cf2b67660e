import ChronoDB.Index.Inverted
import ChronoDB.Memstore.Chunk

namespace ChronoDB.Memstore

open Library Index

/-!
# The head block

The head block holds all series in memory and the index over their labels.  The
index and the series table agree on ids and labels, and this invariant is kept
by every operation.
-/

structure HeadConfig where
  maxSeries : ℕ
  deriving Repr, DecidableEq

structure HeadBlock where
  series : FiniteMap TimeSeriesId TimeSeriesEntry
  index : InvertedIndex
  config : HeadConfig

namespace HeadBlock

def new (config : HeadConfig) : HeadBlock where
  series := ∅
  index := InvertedIndex.empty
  config := config

def addSeries (head : HeadBlock) (seriesId : TimeSeriesId) (labels : Labels) :
    Except Error HeadBlock :=
  if head.config.maxSeries ≤ head.series.keys.length then
    .error .storageFull
  else
    match head.series.lookup seriesId with
    | some _ => .ok head
    | none =>
      .ok {
        head with
        series := head.series.insert seriesId (TimeSeriesEntry.new labels)
        index := head.index.addSeries seriesId labels
      }

def addSample (head : HeadBlock) (seriesId : TimeSeriesId) (sample : Sample) :
    Except Error HeadBlock :=
  match head.series.lookup seriesId with
  | none => .error (.seriesNotFound seriesId)
  | some entry =>
    .ok {
      head with
      series := head.series.insert seriesId (entry.addSample sample)
    }

def getOrCreateSeries
    (hasher : Bytes → TimeSeriesId) (head : HeadBlock) (labels : Labels) :
    Except Error (TimeSeriesId × HeadBlock) :=
  let seriesId := calculateSeriesId hasher labels
  match head.series.lookup seriesId with
  | some _ => .ok (seriesId, head)
  | none =>
    match head.addSeries seriesId labels with
    | .error cause => .error cause
    | .ok added => .ok (seriesId, added)

def query
    (head : HeadBlock) (seriesId : TimeSeriesId) (start stop : Timestamp) :
    Option (List Sample) :=
  (head.series.lookup seriesId).map fun entry =>
    entry.samplesInRange start stop

def getSeriesLabels (head : HeadBlock) (seriesId : TimeSeriesId) :
    Option Labels :=
  (head.series.lookup seriesId).map TimeSeriesEntry.labels

def seriesCount (head : HeadBlock) : ℕ :=
  head.series.keys.length

def totalSamples (head : HeadBlock) : ℕ :=
  head.series.total TimeSeriesEntry.totalSamples

/-- What `remove_series` and `remove_series_batch` do for one id. -/
def dropSeries (head : HeadBlock) (seriesId : TimeSeriesId) :
    HeadBlock :=
  match head.series.lookup seriesId with
  | none => head
  | some _ =>
    {
      head with
      series := head.series.erase seriesId
      index := head.index.removeSeries seriesId
    }

def removeSeries (head : HeadBlock) (seriesId : TimeSeriesId) :
    Except Error HeadBlock :=
  match head.series.lookup seriesId with
  | none => .error (.seriesNotFound seriesId)
  | some _ => .ok (head.dropSeries seriesId)

/-- `remove_series_batch`; ids that are not in the table are passed over. -/
def removeSeriesBatch (head : HeadBlock) (seriesIds : List TimeSeriesId) :
    HeadBlock :=
  seriesIds.foldl dropSeries head

/-- The samples in memory under an id. -/
def samplesOf (head : HeadBlock) (seriesId : TimeSeriesId) : List Sample :=
  (head.series.lookup seriesId).elim [] TimeSeriesEntry.samples

/-- The index knows exactly the series in memory, with their labels. -/
def Indexed (head : HeadBlock) : Prop :=
  ∀ seriesId,
    head.index.seriesLabels.lookup seriesId = head.getSeriesLabels seriesId

@[simp] theorem samplesOf_new (config : HeadConfig) (seriesId : TimeSeriesId) :
    (new config).samplesOf seriesId = [] :=
  rfl

theorem Indexed.new (config : HeadConfig) :
    Indexed (HeadBlock.new config) :=
  fun _ => rfl

theorem Indexed.mem_allSeriesIds
    {head : HeadBlock} (indexed : Indexed head) (seriesId : TimeSeriesId) :
    seriesId ∈ head.index.allSeriesIds ↔
      (head.series.lookup seriesId).isSome := by
  rw [InvertedIndex.allSeriesIds, ← AList.mem_keys, ← AList.lookup_isSome,
    indexed seriesId, getSeriesLabels, Option.isSome_map]

/-!
## What the operations change
-/

section Operations

variable {head after : HeadBlock} {seriesId : TimeSeriesId}

theorem lookup_of_addSeries
    {labels : Labels} (absent : head.series.lookup seriesId = none)
    (added : head.addSeries seriesId labels = .ok after) :
    after.config = head.config ∧
      after.index = head.index.addSeries seriesId labels ∧
      ∀ other,
        after.series.lookup other =
          if other = seriesId then some (TimeSeriesEntry.new labels)
          else head.series.lookup other := by
  rw [addSeries] at added
  split at added
  · cases added
  · rw [absent] at added
    cases added
    refine ⟨rfl, rfl, fun other => ?_⟩
    split
    · rename_i same
      subst same
      exact AList.lookup_insert _
    · rename_i different
      exact AList.lookup_insert_ne different

theorem lookup_of_getOrCreateSeries
    {hasher : Bytes → TimeSeriesId} {labels : Labels}
    (created :
      head.getOrCreateSeries hasher labels = .ok (seriesId, after)) :
    seriesId = calculateSeriesId hasher labels ∧
      after.config = head.config ∧
      (∀ other,
        after.series.lookup other =
          if other = seriesId then
            some ((head.series.lookup seriesId).getD
              (TimeSeriesEntry.new labels))
          else
            head.series.lookup other) ∧
      (Indexed head → Indexed after) := by
  rw [getOrCreateSeries] at created
  cases found : head.series.lookup (calculateSeriesId hasher labels) with
  | some entry =>
    simp only [found, Except.ok.injEq, Prod.mk.injEq] at created
    obtain ⟨rfl, rfl⟩ := created
    refine ⟨rfl, rfl, fun other => ?_, id⟩
    split
    · rename_i same
      rw [same, found]
      rfl
    · rfl
  | none =>
    simp only [found] at created
    cases added : head.addSeries (calculateSeriesId hasher labels) labels with
    | error cause => simp [added] at created
    | ok result =>
      simp only [added, Except.ok.injEq, Prod.mk.injEq] at created
      obtain ⟨rfl, rfl⟩ := created
      obtain ⟨sameConfig, indexAdded, entries⟩ :=
        lookup_of_addSeries found added
      refine ⟨rfl, sameConfig, fun other => ?_, ?_⟩
      · rw [entries other, found]
        rfl
      · intro indexed other
        rw [indexAdded, InvertedIndex.seriesLabels_addSeries,
          getSeriesLabels, entries other]
        split
        · rename_i same
          subst same
          simp
        · rename_i different
          rw [AList.lookup_insert_ne different]
          exact indexed other

theorem exists_getOrCreateSeries (hasher : Bytes → TimeSeriesId)
    (room : head.seriesCount < head.config.maxSeries) (labels : Labels) :
    ∃ after,
      head.getOrCreateSeries hasher labels =
        .ok (calculateSeriesId hasher labels, after) := by
  have notFull : ¬ head.config.maxSeries ≤ head.series.keys.length :=
    not_le.mpr room
  simp only [getOrCreateSeries, addSeries, if_neg notFull]
  cases found : head.series.lookup (calculateSeriesId hasher labels) with
  | some entry => exact ⟨head, rfl⟩
  | none => exact ⟨_, rfl⟩

theorem lookup_of_addSample
    {sample : Sample} (added : head.addSample seriesId sample = .ok after) :
    ∃ entry,
      head.series.lookup seriesId = some entry ∧
        after = {
          head with
          series := head.series.insert seriesId (entry.addSample sample)
        } := by
  rw [addSample] at added
  split at added
  · cases added
  · rename_i entry found
    cases added
    exact ⟨entry, found, rfl⟩

theorem exists_addSample
    (present : (head.series.lookup seriesId).isSome) (sample : Sample) :
    ∃ after, head.addSample seriesId sample = .ok after := by
  obtain ⟨entry, found⟩ := Option.isSome_iff_exists.mp present
  simp [addSample, found]

theorem Indexed.addSample {sample : Sample} (indexed : Indexed head)
    (added : head.addSample seriesId sample = .ok after) :
    Indexed after := by
  obtain ⟨entry, found, rfl⟩ := lookup_of_addSample added
  intro other
  rw [indexed other, getSeriesLabels, getSeriesLabels]
  by_cases same : other = seriesId
  · subst same
    simp [found]
  · simp [AList.lookup_insert_ne same]

theorem lookup_dropSeries (head : HeadBlock) (seriesId other : TimeSeriesId) :
    (head.dropSeries seriesId).series.lookup other =
      if other = seriesId then none else head.series.lookup other := by
  rw [dropSeries]
  by_cases same : other = seriesId
  · subst same
    cases found : head.series.lookup other <;> simp [found]
  · cases found : head.series.lookup seriesId <;>
      simp [same, AList.lookup_erase_ne]

theorem Indexed.dropSeries (indexed : Indexed head) (seriesId : TimeSeriesId) :
    Indexed (head.dropSeries seriesId) := by
  intro other
  rw [getSeriesLabels, lookup_dropSeries]
  rw [HeadBlock.dropSeries]
  cases found : head.series.lookup seriesId with
  | none =>
    simp only
    rw [indexed other, getSeriesLabels]
    split
    · rename_i same
      rw [same, found]
    · rfl
  | some entry =>
    simp only
    rw [InvertedIndex.lookup_seriesLabels_removeSeries, indexed other,
      getSeriesLabels]
    split <;> rfl

theorem lookup_removeSeriesBatch
    (head : HeadBlock) (seriesIds : List TimeSeriesId) (other : TimeSeriesId) :
    (head.removeSeriesBatch seriesIds).series.lookup other =
      if other ∈ seriesIds then none else head.series.lookup other := by
  rw [removeSeriesBatch]
  induction seriesIds generalizing head with
  | nil => simp
  | cons first rest inductionHypothesis =>
    rw [List.foldl_cons, inductionHypothesis, lookup_dropSeries]
    by_cases inRest : other ∈ rest
    · simp [inRest]
    · by_cases isFirst : other = first <;> simp [inRest, isFirst]

theorem Indexed.removeSeriesBatch
    (indexed : Indexed head) (seriesIds : List TimeSeriesId) :
    Indexed (head.removeSeriesBatch seriesIds) := by
  rw [HeadBlock.removeSeriesBatch]
  induction seriesIds generalizing head with
  | nil => exact indexed
  | cons first rest inductionHypothesis =>
    exact inductionHypothesis (indexed.dropSeries first)

@[simp] theorem config_dropSeries (head : HeadBlock) (seriesId : TimeSeriesId) :
    (head.dropSeries seriesId).config = head.config := by
  rw [dropSeries]
  split <;> rfl

end Operations

/-!
## Counting samples
-/

def Counts (head : HeadBlock) : Prop :=
  ∀ seriesId entry,
    head.series.lookup seriesId = some entry →
      entry.totalSamples = entry.samples.length

section Counting

variable {head after : HeadBlock} {seriesId : TimeSeriesId}

theorem Counts.new (config : HeadConfig) : Counts (HeadBlock.new config) :=
  nofun

theorem Counts.getOrCreateSeries
    (counts : Counts head) {hasher : Bytes → TimeSeriesId} {labels : Labels}
    (created :
      head.getOrCreateSeries hasher labels = .ok (seriesId, after)) :
    Counts after ∧ after.totalSamples = head.totalSamples := by
  refine ⟨fun other entry found => ?_, ?_⟩
  · obtain ⟨_, _, entries, _⟩ := lookup_of_getOrCreateSeries created
    rw [entries other] at found
    split at found
    · cases known : head.series.lookup seriesId with
      | none =>
        rw [known] at found
        cases found
        rfl
      | some old =>
        rw [known] at found
        cases found
        exact counts seriesId _ known
    · exact counts other entry found
  · rw [HeadBlock.getOrCreateSeries] at created
    cases found : head.series.lookup (calculateSeriesId hasher labels) with
    | some entry =>
      simp only [found, Except.ok.injEq, Prod.mk.injEq] at created
      rw [← created.2]
    | none =>
      simp only [found, addSeries] at created
      by_cases full : head.config.maxSeries ≤ head.series.keys.length
      · simp [full] at created
      · simp only [full, if_false, Except.ok.injEq, Prod.mk.injEq]
          at created
        rw [← created.2]
        have sums :=
          FiniteMap.total_insert TimeSeriesEntry.totalSamples head.series
            (calculateSeriesId hasher labels) (TimeSeriesEntry.new labels)
        rw [found] at sums
        exact sums

theorem Counts.addSample (counts : Counts head) {sample : Sample}
    (added : head.addSample seriesId sample = .ok after) :
    Counts after ∧ after.totalSamples = head.totalSamples + 1 := by
  obtain ⟨entry, found, rfl⟩ := lookup_of_addSample added
  refine ⟨fun other held isHeld => ?_, ?_⟩
  · by_cases same : other = seriesId
    · subst same
      rw [AList.lookup_insert] at isHeld
      cases isHeld
      rw [(entry.addSample_perm sample).length_eq, List.length_append,
        ← counts other entry found]
      rfl
    · rw [AList.lookup_insert_ne same] at isHeld
      exact counts other held isHeld
  · have sums :=
      FiniteMap.total_insert TimeSeriesEntry.totalSamples head.series
        seriesId (entry.addSample sample)
    rw [found] at sums
    have counted :
        (entry.addSample sample).totalSamples = entry.totalSamples + 1 :=
      rfl
    rw [Option.elim_some, counted, ← Nat.add_assoc, Nat.add_right_comm] at sums
    exact Nat.add_right_cancel sums

theorem Counts.dropSeries (counts : Counts head) (seriesId : TimeSeriesId) :
    Counts (head.dropSeries seriesId) ∧
      (head.dropSeries seriesId).totalSamples +
          (head.samplesOf seriesId).length =
        head.totalSamples := by
  refine ⟨fun other entry found => ?_, ?_⟩
  · rw [lookup_dropSeries] at found
    split at found
    · cases found
    · exact counts other entry found
  · have sums :=
      FiniteMap.total_erase TimeSeriesEntry.totalSamples head.series seriesId
    rw [HeadBlock.dropSeries, samplesOf]
    cases found : head.series.lookup seriesId with
    | none => rfl
    | some entry =>
      rw [found] at sums
      rw [Option.elim_some, ← counts seriesId entry found]
      exact sums

end Counting

end HeadBlock

end ChronoDB.Memstore
