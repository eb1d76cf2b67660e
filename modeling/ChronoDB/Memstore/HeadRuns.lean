import ChronoDB.Memstore.Accounting
import ChronoDB.Memstore.Agreement

namespace ChronoDB.Memstore

open Library Wal

/-!
# Store calls as runs of the head block

Every call that changes the samples of a store, whether it succeeds or fails, is
a run of operations of the head block.  What these operations keep, the calls
keep.
-/

def HeadOperation.PartOf (hasher : Bytes → TimeSeriesId) (item : LoggedWrite) :
    HeadOperation → Prop
  | .getOrCreateSeries labels => labels = item.write.labels
  | .addSample seriesId sample =>
    seriesId = item.seriesId hasher ∧ sample ∈ item.samples
  | _ => False

/-- The operations that a call can consist of. -/
def StoreOperation.Consists
    (hasher : Bytes → TimeSeriesId) (operations : List HeadOperation) :
    StoreOperation → Prop
  | .write item => ∀ operation ∈ operations, operation.PartOf hasher item
  | .writeBatch batch =>
    ∀ operation ∈ operations, ∃ item ∈ batch, operation.PartOf hasher item
  | .removeSeriesBatch seriesIds => operations = [.removeSeriesBatch seriesIds]

namespace MemStore

variable {codec : WalCodec} {hasher : Bytes → TimeSeriesId}

theorem exists_run_addSamples
    (head : HeadBlock) (seriesId : TimeSeriesId) (samples : List Sample) :
    ∃ operations,
      Run (HeadStep hasher) head operations
          (addSamples head seriesId samples).2 ∧
        ∀ operation ∈ operations,
          ∃ sample ∈ samples, operation = .addSample seriesId sample := by
  induction samples generalizing head with
  | nil => exact ⟨[], .nil head, List.forall_mem_nil _⟩
  | cons sample rest inductionHypothesis =>
    rw [addSamples]
    split
    · exact ⟨[], .nil head, List.forall_mem_nil _⟩
    · rename_i added isAdded
      obtain ⟨operations, run, allAdd⟩ := inductionHypothesis added
      have step : HeadStep hasher head (.addSample seriesId sample) added := by
        rw [HeadStep, HeadOperation.run, isAdded]
      refine ⟨_, .cons step run, List.forall_mem_cons.mpr
        ⟨⟨sample, List.mem_cons_self, rfl⟩, ?_⟩⟩
      intro operation member
      obtain ⟨other, isOther, isOperation⟩ := allAdd operation member
      exact ⟨other, List.mem_cons_of_mem _ isOther, isOperation⟩

theorem exists_run_writeSeriesUnder (store : MemStore) (item : LoggedWrite) :
    ∃ operations,
      Run (HeadStep hasher) store.head operations
          (store.writeSeriesUnder codec hasher item).2.head ∧
        ∀ operation ∈ operations, operation.PartOf hasher item := by
  rw [writeSeriesUnder]
  split
  · exact ⟨[], .nil _, List.forall_mem_nil _⟩
  · rename_i seriesId head created
    have step :
        HeadStep hasher store.head (.getOrCreateSeries item.write.labels)
          head := by
      rw [HeadStep, HeadOperation.run, created]
    have isId : seriesId = item.seriesId hasher :=
      (HeadBlock.lookup_of_getOrCreateSeries created).1
    split
    · exact ⟨_, .single step, by simp [HeadOperation.PartOf]⟩
    · obtain ⟨operations, run, allAdd⟩ :=
        @exists_run_addSamples hasher head seriesId
          (sortByKey Sample.sortKey item.write.samples)
      refine ⟨_, .cons step run, List.forall_mem_cons.mpr ⟨rfl, ?_⟩⟩
      intro operation member
      obtain ⟨sample, isSample, rfl⟩ := allAdd operation member
      exact ⟨isId, (mem_sortByKey Sample.sortKey).mp isSample⟩

theorem exists_run_writeAllSeriesUnder
    (store : MemStore) (batch : List LoggedWrite) :
    ∃ operations,
      Run (HeadStep hasher) store.head operations
          (store.writeAllSeriesUnder codec hasher batch).2.head ∧
        ∀ operation ∈ operations,
          ∃ item ∈ batch, operation.PartOf hasher item := by
  induction batch generalizing store with
  | nil => exact ⟨[], .nil _, List.forall_mem_nil _⟩
  | cons item rest inductionHypothesis =>
    obtain ⟨operations, run, allParts⟩ :=
      @exists_run_writeSeriesUnder codec hasher store item
    have firstParts :
        ∀ operation ∈ operations,
          ∃ written ∈ item :: rest, operation.PartOf hasher written :=
      fun operation member =>
        ⟨item, List.mem_cons_self, allParts operation member⟩
    rw [writeAllSeriesUnder]
    split
    · rename_i failed
      rw [failed] at run
      exact ⟨operations, run, firstParts⟩
    · rename_i written isWritten
      rw [isWritten] at run
      obtain ⟨others, laterRun, otherParts⟩ := inductionHypothesis written
      refine ⟨operations ++ others, run.append laterRun,
        List.forall_mem_append.mpr ⟨firstParts, ?_⟩⟩
      intro operation member
      obtain ⟨later, isLater, isPart⟩ := otherParts operation member
      exact ⟨later, List.mem_cons_of_mem _ isLater, isPart⟩

theorem exists_run_of_storeStep
    {before after : MemStore} {operation : StoreOperation}
    (step : StoreStep codec hasher before operation after) :
    ∃ operations,
      Run (HeadStep hasher) before.head operations after.head ∧
        operation.Consists hasher operations := by
  cases step
  cases operation with
  | write item =>
    obtain ⟨operations, run, allParts⟩ :=
      @exists_run_writeSeriesUnder codec hasher before item
    refine ⟨operations, ?_, allParts⟩
    rw [StoreOperation.run, writeUnder]
    split
    · rename_i failed
      rw [failed] at run
      exact run
    · rename_i written
      rw [written] at run
      exact run
  | writeBatch batch =>
    obtain ⟨operations, run, allParts⟩ :=
      @exists_run_writeAllSeriesUnder codec hasher before batch
    refine ⟨operations, ?_, allParts⟩
    rw [StoreOperation.run, writeBatchUnder]
    split
    · rename_i failed
      rw [failed] at run
      exact run
    · rename_i written
      rw [written] at run
      exact run
  | removeSeriesBatch seriesIds =>
    exact ⟨[.removeSeriesBatch seriesIds], .single rfl, rfl⟩

end MemStore

end ChronoDB.Memstore
