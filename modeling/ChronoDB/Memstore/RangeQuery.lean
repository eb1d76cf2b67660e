import ChronoDB.Library.Chunks
import ChronoDB.Memstore.Restart

namespace ChronoDB.Memstore

open Library Wal List TimeSeriesEntry

/-!
# Range queries

A chunk sorts its own samples only, and a full chunk is frozen when the next
sample arrives.  A range query is therefore complete, and it is sorted unless a
sample in the range arrived for a later chunk than a sample after it.
-/

/-- The timestamps of samples do not decrease. -/
def SortedByTime (samples : List Sample) : Prop :=
  samples.Pairwise fun first second => first.timestamp ≤ second.timestamp

theorem sortedByTime_iff {samples : List Sample} :
    SortedByTime samples ↔ samples.Pairwise (KeyLE Sample.sortKey) :=
  List.Pairwise.iff fun _ _ => Int64.le_iff_toInt_le

/-!
## Chunks
-/

structure Chunk.Stores (chunk : Chunk) (arrived : List Sample) : Prop where
  perm : chunk.samples.Perm arrived
  sorted : SortedByTime chunk.samples
  bounded : ∀ sample ∈ chunk.samples, sample.timestamp ≤ chunk.maxTimestamp

namespace Chunk.Stores

theorem new : Stores Chunk.new [] where
  perm := .refl []
  sorted := .nil
  bounded := nofun

theorem add
    {chunk : Chunk} {arrived : List Sample} (stores : chunk.Stores arrived)
    (sample : Sample) :
    (chunk.add sample).Stores (arrived ++ [sample]) := by
  have perm := chunk.add_perm sample
  refine ⟨perm.trans (stores.perm.append_right _), ?_, fun other member => ?_⟩
  · rw [Chunk.add]
    split
    · exact sortedByTime_iff.mpr (pairwise_sortByKey Sample.sortKey _)
    · rename_i last
      -- the sample comes after all others, or there are no others
      refine pairwise_append.mpr ⟨stores.sorted,
        pairwise_singleton _ _, fun other isOther added isAdded => ?_⟩
      cases mem_singleton.mp isAdded
      have notEmpty := ne_nil_of_mem isOther
      have after : ¬ sample.timestamp ≤ chunk.maxTimestamp :=
        fun before => last ⟨notEmpty, before⟩
      exact Int64.le_of_lt (Int64.lt_of_le_of_lt
        (stores.bounded other isOther) (Int64.not_le.mp after))
  · obtain ⟨isBounded, isReached⟩ :=
      le_max_timestamp chunk.maxTimestamp sample.timestamp
    rcases mem_append.mp (perm.mem_iff.mp member) with old | isNew
    · exact Int64.le_trans (stores.bounded other old) isBounded
    · cases mem_singleton.mp isNew
      exact isReached

end Chunk.Stores

/-!
## Series
-/

structure TimeSeriesEntry.StoresChunks
    (entry : TimeSeriesEntry) (frozen : List (List Sample))
    (current : List Sample) :
    Prop where
  sizes : ∀ chunk ∈ frozen, chunk.length = Chunk.defaultCapacity
  atMost : current.length ≤ Chunk.defaultCapacity
  storesFrozen : List.Forall₂ Chunk.Stores entry.frozenChunks frozen
  storesCurrent : entry.currentChunk.Stores current

theorem flatMap_samples_perm
    {chunks : List Chunk} {arrived : List (List Sample)}
    (store : List.Forall₂ Chunk.Stores chunks arrived) :
    (chunks.flatMap Chunk.samples).Perm arrived.flatten := by
  induction store with
  | nil => exact .refl []
  | cons first _ inductionHypothesis =>
    rw [flatMap_cons, flatten_cons]
    exact first.perm.append inductionHypothesis

/--
The samples of a range in one chunk after the other are sorted exactly when the
samples that arrived for different chunks are in order.
-/
theorem sortedByTime_flatMap_iff
    {chunks : List Chunk} {arrived : List (List Sample)}
    (store : List.Forall₂ Chunk.Stores chunks arrived)
    (start stop : Timestamp) :
    SortedByTime (chunks.flatMap fun chunk => chunk.samplesInRange start stop) ↔
      arrived.Pairwise fun earlier later =>
        ∀ first ∈ earlier, ∀ second ∈ later,
          first.inRange start stop = true →
            second.inRange start stop = true →
              first.timestamp ≤ second.timestamp := by
  induction store with
  | nil => exact iff_of_true .nil .nil
  | cons first rest inductionHypothesis =>
    have sorted := first.sorted.filter (Sample.inRange start stop)
    have inFirst := fun sample => first.perm.mem_iff (a := sample)
    have inOthers := fun sample =>
      (flatMap_samples_perm rest).mem_iff (a := sample)
    simp only [mem_flatMap, mem_flatten] at inOthers
    rw [flatMap_cons, SortedByTime, pairwise_append, pairwise_cons]
    constructor
    · rintro ⟨_, sortedOthers, across⟩
      refine ⟨fun later isLater earlierSample isEarlier laterSample inLater
        earlierInRange laterInRange => ?_,
        inductionHypothesis.mp sortedOthers⟩
      obtain ⟨chunk, isChunk, inChunk⟩ :=
        (inOthers laterSample).mpr ⟨later, isLater, inLater⟩
      exact across earlierSample
        (mem_filter.mpr ⟨(inFirst earlierSample).mpr isEarlier, earlierInRange⟩)
        laterSample
        (mem_flatMap.mpr
          ⟨chunk, isChunk, mem_filter.mpr ⟨inChunk, laterInRange⟩⟩)
    · rintro ⟨across, inOrder⟩
      refine ⟨sorted, inductionHypothesis.mpr inOrder,
        fun earlierSample isEarlier laterSample isLater => ?_⟩
      obtain ⟨held, earlierInRange⟩ := mem_filter.mp isEarlier
      obtain ⟨chunk, isChunk, inChunk⟩ := mem_flatMap.mp isLater
      obtain ⟨heldLater, laterInRange⟩ := mem_filter.mp inChunk
      obtain ⟨later, isLater, inLater⟩ :=
        (inOthers laterSample).mp ⟨chunk, isChunk, heldLater⟩
      exact across later isLater earlierSample
        ((inFirst earlierSample).mp held) laterSample inLater
        earlierInRange laterInRange

/-- A series with the samples that arrived for it, in order of arrival. -/
def TimeSeriesEntry.Stores (entry : TimeSeriesEntry) (arrived : List Sample) :
    Prop :=
  ∃ frozen current,
    arrived = frozen.flatten ++ current ∧ entry.StoresChunks frozen current

namespace TimeSeriesEntry.Stores

variable {entry : TimeSeriesEntry} {arrived : List Sample}

theorem new (labels : Labels) : Stores (new labels) [] :=
  ⟨[], [], rfl, nofun, Nat.zero_le _, .nil, .new⟩

theorem addSample (stores : entry.Stores arrived) (sample : Sample) :
    (entry.addSample sample).Stores (arrived ++ [sample]) := by
  obtain ⟨frozen, current, rfl, chunks⟩ := stores
  have sameLength := chunks.storesCurrent.perm.length_eq
  by_cases full : entry.currentChunk.isFull = true
  · -- the current chunk is frozen, and the sample starts a new one
    have isFull : current.length = Chunk.defaultCapacity := by
      have reached := of_decide_eq_true full
      rw [sameLength] at reached
      exact Nat.le_antisymm chunks.atMost reached
    refine ⟨frozen ++ [current], [sample], by simp, ?_, ?_, ?_, ?_⟩
    · intro chunk member
      rcases mem_append.mp member with old | isCurrent
      · exact chunks.sizes chunk old
      · rw [mem_singleton.mp isCurrent]
        exact isFull
    · exact Nat.succ_le_of_lt (by decide : 0 < Chunk.defaultCapacity)
    · simp only [addSample, full, if_true]
      exact rel_append chunks.storesFrozen (.cons chunks.storesCurrent .nil)
    · simp only [addSample, full, if_true]
      exact Chunk.Stores.new.add sample
  · refine ⟨frozen, current ++ [sample], by simp, chunks.sizes, ?_, ?_, ?_⟩
    · have notReached : ¬ Chunk.defaultCapacity ≤ current.length := by
        rw [← sameLength]
        exact fun reached => full (decide_eq_true reached)
      rw [length_append]
      exact not_le.mp notReached
    · simp only [addSample, full, Bool.false_eq_true, if_false]
      exact chunks.storesFrozen
    · simp only [addSample, full, Bool.false_eq_true, if_false]
      exact chunks.storesCurrent.add sample

theorem perm (stores : entry.Stores arrived) :
    entry.samples.Perm arrived := by
  obtain ⟨frozen, current, rfl, chunks⟩ := stores
  exact (flatMap_samples_perm chunks.storesFrozen).append
    chunks.storesCurrent.perm

end TimeSeriesEntry.Stores

/--
No sample in a range comes, in order of arrival, for a later chunk than a sample
in the range with a greater timestamp.
-/
def ChunksInOrder (start stop : Timestamp) (arrived : List Sample) :
    Prop :=
  ∀ i j first second,
    arrived[i]? = some first →
      arrived[j]? = some second →
        i / Chunk.defaultCapacity < j / Chunk.defaultCapacity →
          first.inRange start stop = true →
            second.inRange start stop = true →
              first.timestamp ≤ second.timestamp

theorem TimeSeriesEntry.Stores.sorted_iff
    {entry : TimeSeriesEntry} {arrived : List Sample}
    (stores : entry.Stores arrived) (start stop : Timestamp) :
    SortedByTime (entry.samplesInRange start stop) ↔
      ChunksInOrder start stop arrived := by
  obtain ⟨frozen, current, rfl, chunks⟩ := stores
  have asChunks :
      entry.samplesInRange start stop =
        (entry.frozenChunks ++ [entry.currentChunk]).flatMap fun chunk =>
          chunk.samplesInRange start stop := by
    rw [flatMap_append, flatMap_singleton]
    rfl
  have allStore :
      List.Forall₂ Chunk.Stores
        (entry.frozenChunks ++ [entry.currentChunk])
        (frozen ++ [current]) :=
    rel_append chunks.storesFrozen (.cons chunks.storesCurrent .nil)
  rw [asChunks, sortedByTime_flatMap_iff allStore]
  exact
    pairwise_chunks_iff (by decide : 0 < Chunk.defaultCapacity) chunks.sizes
      chunks.atMost _

theorem TimeSeriesEntry.Stores.samplesInRange_perm
    {entry : TimeSeriesEntry} {arrived : List Sample}
    (stores : entry.Stores arrived) (start stop : Timestamp) :
    (entry.samplesInRange start stop).Perm
      (arrived.filter (Sample.inRange start stop)) := by
  rw [samplesInRange_eq]
  exact stores.perm.filter _

/-!
## The head block under writes
-/

/-- Every series holds what arrived for it, and no other series is there. -/
def HeadBlock.Stores (head : HeadBlock) (arrived : TimeSeriesId → List Sample) :
    Prop :=
  ∀ seriesId,
    match head.series.lookup seriesId with
    | none => arrived seriesId = []
    | some entry => entry.Stores (arrived seriesId)

namespace HeadBlock.Stores

variable {head after : HeadBlock} {arrived : TimeSeriesId → List Sample}
variable {seriesId : TimeSeriesId}

theorem new (config : HeadConfig) :
    (HeadBlock.new config).Stores fun _ => [] :=
  fun _ => rfl

theorem getOrCreateSeries
    (stores : head.Stores arrived) {hasher : Bytes → TimeSeriesId}
    {labels : Labels}
    (created :
      head.getOrCreateSeries hasher labels = .ok (seriesId, after)) :
    after.Stores arrived := by
  obtain ⟨_, _, entries, _⟩ := lookup_of_getOrCreateSeries created
  intro other
  have storesOther := stores other
  rw [entries other]
  by_cases same : other = seriesId
  · subst same
    rw [if_pos rfl]
    cases found : head.series.lookup other with
    | none =>
      rw [found] at storesOther
      rw [storesOther]
      exact .new labels
    | some entry =>
      rw [found] at storesOther
      exact storesOther
  · rw [if_neg same]
    exact storesOther

theorem addSample (stores : head.Stores arrived) {sample : Sample}
    (added : head.addSample seriesId sample = .ok after) :
    after.Stores fun other =>
      arrived other ++ if other = seriesId then [sample] else [] := by
  obtain ⟨entry, found, rfl⟩ := lookup_of_addSample added
  intro other
  have storesOther := stores other
  by_cases same : other = seriesId
  · subst same
    rw [found] at storesOther
    simp only [AList.lookup_insert, if_pos]
    exact storesOther.addSample sample
  · simp only [AList.lookup_insert_ne same, if_neg same, append_nil]
    exact storesOther

theorem addSamples (stores : head.Stores arrived) {samples : List Sample}
    (added : MemStore.addSamples head seriesId samples = (.ok (), after)) :
    after.Stores fun other =>
      arrived other ++ if other = seriesId then samples else [] := by
  induction samples generalizing head arrived with
  | nil =>
    cases added
    simpa using stores
  | cons sample rest inductionHypothesis =>
    rw [MemStore.addSamples] at added
    split at added
    · simp at added
    · rename_i middle first
      have all := inductionHypothesis (stores.addSample first) added
      intro other
      have storesOther := all other
      by_cases same : other = seriesId
      · simpa [same] using storesOther
      · simpa [same] using storesOther

end HeadBlock.Stores

/-- A call of `MemStore::write` with its result. -/
structure WriteAttempt where
  series : SeriesWrite
  result : Except Error Unit

/-- One call of `MemStore::write` with any result. -/
def WriteStep
    (codec : WalCodec) (hasher : Bytes → TimeSeriesId) (before : MemStore)
    (attempt : WriteAttempt) (after : MemStore) :
    Prop :=
  before.write codec hasher attempt.series = (attempt.result, after)

def acknowledged (attempts : List WriteAttempt) : List SeriesWrite :=
  attempts.filterMap fun attempt =>
    match attempt.result with
    | .ok () => some attempt.series
    | .error _ => none

/--
The samples that arrive for a series, in order of arrival.  A write adds its
samples in the order of their timestamps.
-/
def arrivals (hasher : Bytes → TimeSeriesId) (writes : List SeriesWrite)
    (seriesId : TimeSeriesId) :
    List Sample :=
  writes.flatMap fun write =>
    if calculateSeriesId hasher write.labels = seriesId then
      sortByKey Sample.sortKey write.samples
    else
      []

theorem arrivals_perm
    (hasher : Bytes → TimeSeriesId) (writes : List SeriesWrite)
    (seriesId : TimeSeriesId) :
    (arrivals hasher writes seriesId).Perm
      (MemStore.writtenTo hasher seriesId writes) := by
  refine List.Perm.flatMap_left _ fun write _ => ?_
  split
  · exact sortByKey_perm Sample.sortKey _
  · exact .refl []

def IsSortedView
    (written : List Sample) (start stop : Timestamp) (result : List Sample) :
    Prop :=
  result.Perm (written.filter (Sample.inRange start stop)) ∧ SortedByTime result

namespace HeadBlock.Stores

variable {codec : WalCodec} {hasher : Bytes → TimeSeriesId}
variable {store after : MemStore} {arrived : TimeSeriesId → List Sample}

theorem writeSeries (stores : store.head.Stores arrived) {write : SeriesWrite}
    {result : Except Error Unit}
    (written : store.writeSeries codec hasher write = (result, after)) :
    after.head.Stores fun seriesId =>
      arrived seriesId ++
        arrivals hasher (acknowledged [⟨write, result⟩]) seriesId := by
  rw [MemStore.writeSeries] at written
  split at written
  · cases written
    simpa [acknowledged, arrivals] using stores
  · rename_i seriesId head created
    have isId := (lookup_of_getOrCreateSeries created).1
    have storesHead := stores.getOrCreateSeries created
    have sameHead :=
      @MemStore.head_logWrite codec { store with head := head }
        seriesId write.labels write.samples write.clock
    split at written
    · rename_i cause failed logs
      rw [logs] at sameHead
      have sameHead : failed.head = head := sameHead
      cases written
      rw [sameHead]
      simpa [acknowledged, arrivals] using storesHead
    · rename_i logged logs
      rw [logs] at sameHead
      have present : (head.series.lookup seriesId).isSome :=
        ((Grows.ofGetOrCreateSeries created).present seriesId).mpr (.inr rfl)
      obtain ⟨filled, added, _⟩ :=
        exists_addSamples present (sortByKey Sample.sortKey write.samples)
      have sameHead : logged.head = head := sameHead
      rw [sameHead, added] at written
      cases written
      have storesFilled := storesHead.addSamples added
      simpa [acknowledged, arrivals, isId, eq_comm] using storesFilled

theorem ofStep (stores : store.head.Stores arrived) {attempt : WriteAttempt}
    (step : WriteStep codec hasher store attempt after) :
    after.head.Stores fun seriesId =>
      arrived seriesId ++
        arrivals hasher (acknowledged [attempt]) seriesId := by
  rw [WriteStep, MemStore.write] at step
  split at step
  · rename_i failed
    obtain ⟨isResult, rfl⟩ := Prod.mk.inj step
    have storesFailed := stores.writeSeries failed
    rw [isResult] at storesFailed
    exact storesFailed
  · rename_i filled written
    obtain ⟨isResult, rfl⟩ := Prod.mk.inj step
    have storesFilled := stores.writeSeries written
    rw [isResult] at storesFilled
    exact storesFilled

theorem ofRun {attempts : List WriteAttempt}
    (run : Run (WriteStep codec hasher) store attempts after)
    (stores : store.head.Stores arrived) :
    after.head.Stores fun seriesId =>
      arrived seriesId ++ arrivals hasher (acknowledged attempts) seriesId := by
  induction run generalizing arrived with
  | nil store => simpa [acknowledged, arrivals] using stores
  | cons first _ inductionHypothesis =>
    rename_i attempt rest _
    have all := inductionHypothesis (stores.ofStep first)
    have split :
        acknowledged (attempt :: rest) =
          acknowledged [attempt] ++ acknowledged rest :=
      filterMap_append (l := [attempt])
    rw [split]
    simpa [arrivals] using all

theorem isSortedView_query_iff
    {head : HeadBlock} (stores : head.Stores arrived) {written : List Sample}
    {seriesId : TimeSeriesId} (isWritten : (arrived seriesId).Perm written)
    (start stop : Timestamp) :
    IsSortedView written start stop ((head.query seriesId start stop).getD []) ↔
      ChunksInOrder start stop (arrived seriesId) := by
  have storesSeries := stores seriesId
  rw [query]
  cases found : head.series.lookup seriesId with
  | none =>
    rw [found] at storesSeries
    have nothing : arrived seriesId = [] := storesSeries
    rw [nothing] at isWritten ⊢
    cases isWritten.nil_eq
    refine iff_of_true ⟨.refl [], .nil⟩ ?_
    intro i j first second atI
    simp at atI
  | some entry =>
    rw [found] at storesSeries
    have storesSeries : entry.Stores (arrived seriesId) := storesSeries
    refine Iff.trans ?_ (storesSeries.sorted_iff start stop)
    exact and_iff_right
      ((storesSeries.samplesInRange_perm start stop).trans (isWritten.filter _))

end HeadBlock.Stores

/--
After any writes a range query returns exactly the samples written to the series
in the range, sorted by time, exactly when no sample in the range arrived for a
later chunk than a sample in the range after it.
-/
theorem MemStore.query_isSortedView_iff {codec : WalCodec}
    {hasher : Bytes → TimeSeriesId} {config : StorageConfig}
    {dataDir : Option SegmentDir} {created : ℕ → UInt64} {millis : Timestamp}
    {attempts : List WriteAttempt} {final : MemStore}
    (run :
      Run (WriteStep codec hasher)
        (MemStore.new codec config dataDir created millis) attempts final)
    (seriesId : TimeSeriesId) :
    (∀ start stop,
        IsSortedView (writtenTo hasher seriesId (acknowledged attempts))
            start stop ((final.head.query seriesId start stop).getD []) ↔
          ChunksInOrder start stop
            (arrivals hasher (acknowledged attempts) seriesId)) ∧
      (IsSortedView (writtenTo hasher seriesId (acknowledged attempts))
          Int64.minValue Int64.maxValue
          ((final.getSeries seriesId).elim [] TimeSeries.samples) ↔
        ChunksInOrder Int64.minValue Int64.maxValue
          (arrivals hasher (acknowledged attempts) seriesId)) := by
  have stores := HeadBlock.Stores.ofRun run (HeadBlock.Stores.new _)
  simp only [nil_append] at stores
  have permuted := arrivals_perm hasher (acknowledged attempts) seriesId
  have sameSamples :
      (final.getSeries seriesId).elim [] TimeSeries.samples =
        (final.head.query seriesId Int64.minValue Int64.maxValue).getD [] := by
    rw [getSeries, HeadBlock.getSeriesLabels, HeadBlock.query]
    cases final.head.series.lookup seriesId <;> rfl
  rw [sameSamples]
  exact ⟨fun start stop => stores.isSortedView_query_iff permuted start stop,
    stores.isSortedView_query_iff permuted _ _⟩

theorem chunksInOrder_of_length_le
    {arrived : List Sample} (fits : arrived.length ≤ Chunk.defaultCapacity)
    (start stop : Timestamp) :
    ChunksInOrder start stop arrived := by
  intro i j first second _ atJ less
  have inside : j < arrived.length := (List.getElem?_eq_some_iff.mp atJ).1
  rw [Nat.div_eq_of_lt (Nat.lt_of_lt_of_le inside fits)] at less
  exact absurd less (Nat.not_lt_zero _)

def exampleAttempts (samples : List (List Sample)) : List WriteAttempt :=
  samples.map fun written => ⟨exampleWrite written, .ok ()⟩

/-- The store after an example write that succeeds. -/
def afterAttempt (store : MemStore) (attempt : WriteAttempt) :
    Option MemStore :=
  match store.write jsonCodec SipHash.hash attempt.series, attempt.result with
  | (.ok (), after), .ok () => some after
  | _, _ => none

theorem writeStep_of_afterAttempt
    {store after : MemStore} {attempt : WriteAttempt}
    (succeeds : afterAttempt store attempt = some after) :
    WriteStep jsonCodec SipHash.hash store attempt after := by
  rw [afterAttempt] at succeeds
  split at succeeds
  · rename_i written acknowledged
    cases succeeds
    rw [WriteStep, acknowledged]
    exact written
  · cases succeeds

theorem exists_run_exampleAttempts {attempts : List WriteAttempt}
    (succeed : (attempts.foldlM afterAttempt (freshStore none)).isSome) :
    ∃ final,
      Run (WriteStep jsonCodec SipHash.hash) (freshStore none) attempts
        final := by
  obtain ⟨final, folded⟩ := Option.isSome_iff_exists.mp succeed
  exact ⟨final, Run.ofFoldlM writeStep_of_afterAttempt folded⟩

/-- A sample that arrives before an earlier one is returned after it. -/
theorem query_sorts_within_chunk :
    ∃ final,
      Run (WriteStep jsonCodec SipHash.hash) (freshStore none)
          (exampleAttempts [[⟨2000, 1⟩], [⟨1000, 2⟩]]) final ∧
        IsSortedView [⟨2000, 1⟩, ⟨1000, 2⟩] 0 3000
          ((final.head.query Json.seriesId 0 3000).getD []) := by
  have succeed :
      ((exampleAttempts [[⟨2000, 1⟩], [⟨1000, 2⟩]]).foldlM afterAttempt
        (freshStore none)).isSome := by
    decide +kernel
  obtain ⟨final, run⟩ := exists_run_exampleAttempts succeed
  have written :
      MemStore.writtenTo SipHash.hash Json.seriesId
          (acknowledged (exampleAttempts [[⟨2000, 1⟩], [⟨1000, 2⟩]])) =
        [⟨2000, 1⟩, ⟨1000, 2⟩] := by
    decide +kernel
  have view := (MemStore.query_isSortedView_iff run Json.seriesId).1 0 3000
  rw [written] at view
  refine ⟨final, run, view.mpr (chunksInOrder_of_length_le ?_ 0 3000)⟩
  decide +kernel

def fullChunk : List Sample :=
  (List.range Chunk.defaultCapacity).map fun i =>
    ⟨Int64.ofNat (1000 + i), 1⟩

/-- A sample that arrives late for its chunk is returned out of order. -/
theorem query_not_sorted_across_chunks :
    ¬ ∀ attempts final,
      Run (WriteStep jsonCodec SipHash.hash) (freshStore none) attempts final →
        IsSortedView
          (MemStore.writtenTo SipHash.hash Json.seriesId
            (acknowledged attempts))
          0 3000 ((final.head.query Json.seriesId 0 3000).getD []) := by
  intro sorted
  have succeed :
      ((exampleAttempts [fullChunk, [⟨500, 1⟩]]).foldlM afterAttempt
        (freshStore none)).isSome := by
    decide +kernel
  obtain ⟨final, run⟩ := exists_run_exampleAttempts succeed
  have inOrder :=
    ((MemStore.query_isSortedView_iff run Json.seriesId).1 0 3000).mp
      (sorted _ final run)
  have late :=
    inOrder 0 120 ⟨1000, 1⟩ ⟨500, 1⟩ (by decide +kernel) (by decide +kernel)
      (by decide) (by decide) (by decide)
  exact absurd late (by decide)

end ChronoDB.Memstore
