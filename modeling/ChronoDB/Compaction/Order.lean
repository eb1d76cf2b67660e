import ChronoDB.Compaction.Loss

namespace ChronoDB.Compaction

open Library Wal Columnstore Flush

/-!
# Compaction in any order of the inputs

The ids of the inputs come from a hash table, so their order is arbitrary.  Of
the samples of a series at one point in time the first that is loaded is kept.
The merged samples have the same points in time in every order, and the same
values when all inputs start with the same sample there.
-/

namespace BlockStore

variable {json : Codec Error Labels} {store : BlockStore json}
variable {choice : CompactionChoice} {blockIds reordered : List UInt64}

/-- The merged samples of a series, as the new block gets them. -/
def mergedSamples
    (blockId : UInt64) (allSeries : SeriesTable) (seriesId : TimeSeriesId) :
    List Sample :=
  (compactedWriter blockId allSeries).samplesOf seriesId

/-- The first sample that a block contributes at a point in time. -/
def firstAt (store : BlockStore json) (choice : CompactionChoice)
    (seriesId : TimeSeriesId) (timestamp : Timestamp) (blockId : UInt64) :
    Option Sample :=
  (store.readSamples choice seriesId blockId).find? fun sample =>
    sample.timestamp = timestamp

/-- Blocks that have samples of a series at the same time agree on the first. -/
def FirstsAgree (store : BlockStore json) (choice : CompactionChoice)
    (blockIds : List UInt64) :
    Prop :=
  ∀ seriesId timestamp, ∀ one ∈ blockIds, ∀ other ∈ blockIds,
    ∀ sample otherSample,
      store.firstAt choice seriesId timestamp one = some sample →
        store.firstAt choice seriesId timestamp other = some otherSample →
          sample = otherSample

theorem firstWithKey_flatMap_readSamples
    (seriesId : TimeSeriesId) (timestamp : Timestamp) (blockIds : List UInt64) :
    firstWithKey Sample.sortKey timestamp.toInt
        (blockIds.flatMap (store.readSamples choice seriesId)) =
      blockIds.findSome? (store.firstAt choice seriesId timestamp) := by
  have sameTest :
      (fun sample : Sample =>
          decide (sample.sortKey = timestamp.toInt)) =
        fun sample => decide (sample.timestamp = timestamp) := by
    funext sample
    simp [Sample.sortKey, Int64.toInt_inj]
  rw [firstWithKey, sameTest, List.find?_flatMap]
  rfl

theorem mergedSamples_eq_iff {allSeries others : SeriesTable}
    (loaded : store.loadBlocks choice blockIds = .ok allSeries)
    (loadedOthers : store.loadBlocks choice reordered = .ok others)
    (blockId : UInt64) (seriesId : TimeSeriesId) :
    mergedSamples blockId others seriesId =
        mergedSamples blockId allSeries seriesId ↔
      ∀ timestamp,
        reordered.findSome? (store.firstAt choice seriesId timestamp) =
          blockIds.findSome? (store.firstAt choice seriesId timestamp) := by
  rw [mergedSamples, mergedSamples, samplesOf_compactedWriter,
    samplesOf_compactedWriter, samplesOf_loadBlocks loaded, samplesOf_loadBlocks
    loadedOthers, mergeSamples, mergeSamples, mergeByKey_eq_iff]
  constructor
  · intro same timestamp
    rw [← firstWithKey_flatMap_readSamples, same,
      firstWithKey_flatMap_readSamples]
  · intro same wanted
    by_cases inRange : ∃ timestamp : Timestamp, timestamp.toInt = wanted
    · obtain ⟨timestamp, rfl⟩ := inRange
      rw [firstWithKey_flatMap_readSamples, same,
        firstWithKey_flatMap_readSamples]
    · have nothing :
          ∀ samples, firstWithKey Sample.sortKey wanted samples = none := by
        intro samples
        rw [firstWithKey, List.find?_eq_none]
        intro sample _ isWanted
        exact inRange ⟨sample.timestamp, of_decide_eq_true isWanted⟩
      rw [nothing, nothing]

theorem exists_mem_mergedSamples_of_perm {allSeries others : SeriesTable}
    (loaded : store.loadBlocks choice blockIds = .ok allSeries)
    (loadedOthers : store.loadBlocks choice reordered = .ok others)
    (perm : reordered.Perm blockIds) (blockId : UInt64)
    (seriesId : TimeSeriesId) (timestamp : Timestamp) :
    (∃ sample ∈ mergedSamples blockId others seriesId,
        sample.timestamp = timestamp) ↔
      ∃ sample ∈ mergedSamples blockId allSeries seriesId,
        sample.timestamp = timestamp := by
  rw [mergedSamples, mergedSamples, samplesOf_compactedWriter,
    samplesOf_compactedWriter, samplesOf_loadBlocks loaded, samplesOf_loadBlocks
    loadedOthers, exists_mem_mergeSamples, exists_mem_mergeSamples]
  refine exists_congr fun sample => and_congr_left fun _ => ?_
  exact (perm.flatMap_right _).mem_iff

end BlockStore

/-!
## Two blocks with a sample at the same time
-/

/-- Two blocks with samples at the same time. -/
def conflictingBlocks : BlockStore labelsCodec :=
  twoBlocks ⟨1000, 1⟩ ⟨1000, 2⟩

def readConflictingBlocks (path : String) : Except Fault (List Sample) :=
  if path = blockDirName 1 then .ok [⟨1000, 1⟩] else .ok [⟨1000, 2⟩]

theorem readApartBlocks_of_firstAt
    {seriesId : TimeSeriesId} {timestamp : Timestamp} {blockId : UInt64}
    (isInput : blockId ∈ [1, 2]) {sample : Sample}
    (found :
      apartBlocks.firstAt (exampleCompaction readApartBlocks) seriesId
        timestamp blockId = some sample) :
    sample.timestamp = timestamp ∧
      readApartBlocks (blockDirName blockId) = .ok [sample] := by
  obtain ⟨_, only, _, isRead, _⟩ := exists_inputBlock_apartBlocks isInput
  have member := List.mem_of_find?_eq_some found
  have isAt := List.find?_some found
  rw [readSamples_apartBlocks readApartBlocks isInput isRead] at member
  have isOnly : sample = only := by
    split at member
    · exact List.mem_singleton.mp member
    · cases member
  rw [isOnly] at isAt ⊢
  exact ⟨of_decide_eq_true isAt, isRead⟩

end ChronoDB.Compaction
