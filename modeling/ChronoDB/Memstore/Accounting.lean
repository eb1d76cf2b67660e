import ChronoDB.Memstore.Admission

namespace ChronoDB.Memstore

open Library Wal

/-!
# Counting samples

The statistics count the samples of writes and batches that succeed.  The head
block counts the samples it holds.  Both agree until a batch fails after a write
of samples, or until samples are removed.
-/

/-- The calls that change the samples of a store. -/
inductive StoreOperation where
  | write (item : LoggedWrite)
  | writeBatch (batch : List LoggedWrite)
  | removeSeriesBatch (seriesIds : List TimeSeriesId)

namespace StoreOperation

variable (codec : WalCodec) (hasher : Bytes → TimeSeriesId)

def run (store : MemStore) :
    StoreOperation → Except Error Unit × MemStore
  | .write item => store.writeUnder codec hasher item
  | .writeBatch batch => store.writeBatchUnder codec hasher batch
  | .removeSeriesBatch seriesIds => (.ok (), store.removeSeriesBatch seriesIds)

end StoreOperation

/-- One call with any result. -/
def StoreStep
    (codec : WalCodec) (hasher : Bytes → TimeSeriesId) (before : MemStore)
    (operation : StoreOperation) (after : MemStore) :
    Prop :=
  (operation.run codec hasher before).2 = after

/-- The statistics count the samples that the head block counts. -/
def MemStore.Accurate (store : MemStore) : Prop :=
  store.stats.totalSamples = store.head.totalSamples

/--
A call that leaves accurate statistics accurate: a batch that does not fail
after a write of samples, or a removal of series without samples.
-/
def StoreOperation.KeepsCount
    (codec : WalCodec) (hasher : Bytes → TimeSeriesId) (before : MemStore) :
    StoreOperation → Prop
  | .write _ => True
  | .writeBatch batch =>
    ∀ early item,
      before.admission.refusal codec hasher batch = some (early, item) →
        ∀ written ∈ early, written.samples = []
  | .removeSeriesBatch seriesIds =>
    ∀ seriesId ∈ seriesIds, before.samplesOf seriesId = []

namespace HeadBlock

theorem Counts.removeSeriesBatch
    {head : HeadBlock} (counts : head.Counts) (seriesIds : List TimeSeriesId) :
    (head.removeSeriesBatch seriesIds).Counts ∧
      (head.removeSeriesBatch seriesIds).totalSamples ≤ head.totalSamples ∧
        ((head.removeSeriesBatch seriesIds).totalSamples = head.totalSamples ↔
          ∀ seriesId ∈ seriesIds, head.samplesOf seriesId = []) := by
  rw [HeadBlock.removeSeriesBatch]
  induction seriesIds generalizing head with
  | nil =>
    exact ⟨counts, Nat.le_refl _, iff_of_true rfl (List.forall_mem_nil _)⟩
  | cons first rest inductionHypothesis =>
    obtain ⟨countsDropped, sum⟩ := counts.dropSeries first
    obtain ⟨countsAll, atMost, same⟩ := inductionHypothesis countsDropped
    rw [List.foldl_cons, List.forall_mem_cons]
    refine ⟨countsAll, by omega, ?_⟩
    have empty :
        head.samplesOf first = [] →
          ∀ other,
            (head.dropSeries first).samplesOf other = head.samplesOf other := by
      intro nothing other
      rw [samplesOf, lookup_dropSeries]
      split
      · rename_i isFirst
        rw [isFirst, nothing]
        rfl
      · rfl
    constructor
    · intro unchanged
      have nothing : head.samplesOf first = [] :=
        List.eq_nil_of_length_eq_zero (by omega)
      refine ⟨nothing, fun seriesId member => ?_⟩
      rw [← empty nothing]
      exact same.mp (by omega) seriesId member
    · rintro ⟨nothing, others⟩
      rw [nothing, List.length_nil] at sum
      rw [← sum]
      refine same.mpr fun seriesId member => ?_
      rw [empty nothing]
      exact others seriesId member

end HeadBlock

namespace MemStore

variable {codec : WalCodec} {hasher : Bytes → TimeSeriesId}
variable {store before after : MemStore}

theorem LeftByFailure.counts
    {item : LoggedWrite} (left : LeftByFailure hasher store item after)
    (counts : store.head.Counts) :
    after.head.Counts ∧ after.head.totalSamples = store.head.totalSamples := by
  have head := left.head
  split at head
  · rw [head]
    exact ⟨counts, rfl⟩
  · exact counts.getOrCreateSeries head

theorem accurate_writeUnder
    (counts : store.head.Counts) (accurate : store.Accurate)
    (item : LoggedWrite) :
    (store.writeUnder codec hasher item).2.head.Counts ∧
      (store.writeUnder codec hasher item).2.Accurate := by
  rw [writeUnder]
  cases admits : store.admission.accept codec hasher item with
  | none =>
    obtain ⟨cause, failed, fails, left⟩ := writeSeriesUnder_of_refused admits
    obtain ⟨countsFailed, sameSum⟩ := left.counts counts
    rw [fails]
    refine ⟨countsFailed, ?_⟩
    rw [Accurate, left.stats, sameSum]
    exact accurate
  | some admitted =>
    obtain ⟨written, succeeds, _, adds⟩ := writeSeriesUnder_of_admit admits
    obtain ⟨countsWritten, sum⟩ := adds.counts counts
    rw [succeeds]
    refine ⟨countsWritten, ?_⟩
    change
      written.stats.totalSamples + item.samples.length =
        written.head.totalSamples
    rw [adds.stats, sum, List.map_singleton, List.sum_singleton, accurate]

/--
A batch keeps accurate statistics accurate exactly when it does not fail after a
write of samples.
-/
theorem accurate_writeBatchUnder_iff
    (counts : store.head.Counts) (accurate : store.Accurate)
    (batch : List LoggedWrite) :
    (store.writeBatchUnder codec hasher batch).2.head.Counts ∧
      ((store.writeBatchUnder codec hasher batch).2.Accurate ↔
        (StoreOperation.writeBatch batch).KeepsCount codec hasher store) := by
  have cases := @writeAllSeriesUnder_cases codec hasher store batch
  rw [writeBatchUnder, StoreOperation.KeepsCount]
  cases stops : store.admission.refusal codec hasher batch with
  | none =>
    rw [stops] at cases
    obtain ⟨written, succeeds, adds⟩ := cases
    obtain ⟨countsWritten, sum⟩ := adds.counts counts
    rw [succeeds]
    refine ⟨countsWritten, iff_of_true ?_ fun _ _ isStop => ?_⟩
    rotate_left
    · cases isStop
    change
      written.stats.totalSamples +
          (batch.map fun item => item.samples.length).sum =
        written.head.totalSamples
    rw [adds.stats, sum, accurate]
  | some stop =>
    obtain ⟨early, item⟩ := stop
    rw [stops] at cases
    obtain ⟨middle, cause, failed, fails, adds, left⟩ := cases
    obtain ⟨countsMiddle, sum⟩ := adds.counts counts
    obtain ⟨countsFailed, sameSum⟩ := left.counts countsMiddle
    rw [fails]
    refine ⟨countsFailed, ?_⟩
    -- only the head block counts the samples written before the failure
    have drift :
        failed.Accurate ↔
          (early.map fun written => written.samples.length).sum = 0 := by
      rw [Accurate, left.stats, adds.stats, sameSum, sum, accurate]
      exact left_eq_add
    rw [drift, List.sum_eq_zero_iff_forall_eq_nat]
    constructor
    · rintro nothing _ _ ⟨⟩ written member
      exact List.eq_nil_of_length_eq_zero
        (nothing _ (List.mem_map_of_mem member))
    · intro nothing counted member
      obtain ⟨written, isEarly, rfl⟩ := List.mem_map.mp member
      rw [nothing early item rfl written isEarly]
      rfl

theorem accurate_iff_of_step
    {operation : StoreOperation} (counts : before.head.Counts)
    (accurate : before.Accurate)
    (step : StoreStep codec hasher before operation after) :
    after.head.Counts ∧
      (after.Accurate ↔ operation.KeepsCount codec hasher before) := by
  cases step
  cases operation with
  | write item =>
    obtain ⟨countsAfter, accurateAfter⟩ :=
      @accurate_writeUnder codec hasher before counts accurate item
    exact ⟨countsAfter, iff_of_true accurateAfter trivial⟩
  | writeBatch batch => exact accurate_writeBatchUnder_iff counts accurate batch
  | removeSeriesBatch seriesIds =>
    obtain ⟨countsAfter, _, same⟩ := counts.removeSeriesBatch seriesIds
    refine ⟨countsAfter, Iff.trans ?_ same⟩
    change
      before.stats.totalSamples =
          (before.head.removeSeriesBatch seriesIds).totalSamples ↔ _
    rw [accurate]
    exact eq_comm

/--
From a new store, the statistics are accurate in every state that a run passes
through exactly when every call of the run meets its condition.
-/
theorem accurate_iff_of_run {config : StorageConfig}
    {dataDir : Option SegmentDir} {created : ℕ → UInt64} {millis : Timestamp}
    {operations : List StoreOperation} {final : MemStore}
    (run :
      Run (StoreStep codec hasher)
        (MemStore.new codec config dataDir created millis) operations
        final) :
    (∀ passed remaining middle,
        operations = passed ++ remaining →
          Run (StoreStep codec hasher)
              (MemStore.new codec config dataDir created millis) passed
              middle →
            middle.Accurate) ↔
      Run
        (Restrict (StoreStep codec hasher) fun before operation =>
          operation.KeepsCount codec hasher before)
        (MemStore.new codec config dataDir created millis) operations
        final :=
  run.always_iff_restrict (fun taken again => taken.symm.trans again)
    (HeadBlock.Counts.new _) rfl
    fun counts accurate step => accurate_iff_of_step counts accurate step

end MemStore

theorem accurate_after_write :
    ∃ final,
      Run (StoreStep jsonCodec SipHash.hash) (freshStore (some ∅))
          [.write ⟨exampleWrite Json.samples, none⟩] final ∧
        ∀ passed remaining middle,
          [StoreOperation.write ⟨exampleWrite Json.samples, none⟩] =
              passed ++ remaining →
            Run (StoreStep jsonCodec SipHash.hash) (freshStore (some ∅))
                passed middle →
              middle.Accurate := by
  have run :
      Run (StoreStep jsonCodec SipHash.hash) (freshStore (some ∅))
        [.write ⟨exampleWrite Json.samples, none⟩] _ :=
    .single rfl
  exact ⟨_, run,
    (MemStore.accurate_iff_of_run run).mpr (.single ⟨trivial, rfl⟩)⟩

/-- Removed samples stay in the statistics. -/
theorem inaccurate_after_removal :
    ¬ ∀ operations final,
      Run (StoreStep jsonCodec SipHash.hash) (freshStore none) operations
          final →
        final.Accurate := by
  intro accurate
  have run :
      Run (StoreStep jsonCodec SipHash.hash) (freshStore none)
        [.write ⟨exampleWrite Json.samples, none⟩,
          .removeSeriesBatch [Json.seriesId]] _ :=
    .cons rfl (.single rfl)
  have drifts := accurate _ _ run
  rw [MemStore.Accurate] at drifts
  revert drifts
  decide +kernel

end ChronoDB.Memstore
