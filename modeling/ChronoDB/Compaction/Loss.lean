import ChronoDB.Compaction.Manager
import ChronoDB.Flush.System

namespace ChronoDB.Compaction

open Library Wal Columnstore Memstore Flush List

/-!
# What compaction loses

Compaction removes its inputs once the new block is written, whether or not all
of their series were read.  The new block is lost as well when its directory has
the name of an input.
-/

namespace BlockStore

variable {json : Codec Error Labels} {store after : BlockStore json}
variable {choice : CompactionChoice} {level : UInt8}
variable {blockIds : List UInt64}

def inputBlock (store : BlockStore json) (blockId : UInt64) :
    Option (StoredBlock json) :=
  (store.manager.getBlock blockId).bind fun info =>
    (store.dirs.lookup info.path).join

def Holds
    (store : BlockStore json) (blockIds : List UInt64) (seriesId : TimeSeriesId)
    (timestamp : Timestamp) :
    Prop :=
  ∃ blockId ∈ blockIds, ∃ block,
    store.inputBlock blockId = some block ∧
      ∃ sample ∈ block.samplesOf seriesId, sample.timestamp = timestamp

def Reads (store : BlockStore json) (choice : CompactionChoice)
    (blockIds : List UInt64) (seriesId : TimeSeriesId) (timestamp : Timestamp) :
    Prop :=
  ∃ blockId ∈ blockIds, ∃ sample ∈ store.readSamples choice seriesId blockId,
    sample.timestamp = timestamp

/-- An input block is no longer in its directory. -/
def Removes (before after : BlockStore json) (blockId : UInt64) :
    Prop :=
  ∃ info block,
    before.manager.getBlock blockId = some info ∧
      before.dirs.lookup info.path = some (some block) ∧
      after.dirs.lookup info.path ≠ some (some block)

def blockSamples
    (store : BlockStore json) (blockId : UInt64) (seriesId : TimeSeriesId) :
    List Sample :=
  match store.dirs.lookup (blockDirName blockId) with
  | some (some block) => block.samplesOf seriesId
  | _ => []

/--
The new block holds one sample for every series and point in time of the inputs,
and no others.
-/
def LosesNothing (before after : BlockStore json) (blockIds : List UInt64)
    (newBlockId : UInt64) :
    Prop :=
  ∀ seriesId,
    ((after.blockSamples newBlockId seriesId).map Sample.timestamp).Nodup ∧
      ∀ timestamp,
        (∃ sample ∈ after.blockSamples newBlockId seriesId,
            sample.timestamp = timestamp) ↔
          before.Holds blockIds seriesId timestamp

/-- A directory name is the path of an input. -/
def Names (store : BlockStore json) (blockIds : List UInt64) (name : String) :
    Prop :=
  ∃ blockId ∈ blockIds,
    (store.manager.getBlock blockId).map BlockInfo.path = some name

instance decidableNames
    (store : BlockStore json) (blockIds : List UInt64) (name : String) :
    Decidable (store.Names blockIds name) :=
  inferInstanceAs (Decidable (∃ blockId ∈ blockIds, _))

/-- The directory of the new block is that of an input. -/
def Collides
    (store : BlockStore json) (blockIds : List UInt64) (newBlockId : UInt64) :
    Prop :=
  store.Names blockIds (blockDirName newBlockId)

/--
A compaction is safe when exactly what the inputs hold is read from them, unless
the new block has the directory of an input; then the inputs hold nothing.
-/
structure CompactionSafe (store : BlockStore json) (choice : CompactionChoice)
    (blockIds : List UInt64) :
    Prop where
  readsAll :
    ¬ store.Collides blockIds choice.blockId →
      ∀ seriesId timestamp,
        store.Reads choice blockIds seriesId timestamp ↔
          store.Holds blockIds seriesId timestamp
  freshId :
    store.Collides blockIds choice.blockId →
      ∀ seriesId timestamp, ¬ store.Holds blockIds seriesId timestamp

/-!
## Removing the inputs
-/

theorem getBlock_removeBlock
    (store : BlockStore json) (blockId other : UInt64) :
    (store.removeBlock blockId).manager.getBlock other =
      if other = blockId then none else store.manager.getBlock other := by
  rw [removeBlock]
  by_cases same : other = blockId
  · subst same
    cases known : store.manager.getBlock other with
    | none => simpa using known
    | some info => simp [BlockManager.getBlock]
  · cases known : store.manager.getBlock blockId with
    | none => simp [same]
    | some info => simp [BlockManager.getBlock, AList.lookup_erase_ne, same]

theorem lookup_dirs_removeBlock
    (store : BlockStore json) (blockId : UInt64) (name : String) :
    (store.removeBlock blockId).dirs.lookup name =
      if (store.manager.getBlock blockId).map BlockInfo.path = some name
      then none
      else store.dirs.lookup name := by
  rw [removeBlock]
  cases known : store.manager.getBlock blockId with
  | none => simp
  | some info =>
    by_cases same : info.path = name
    · subst same
      simp
    · simp [same, AList.lookup_erase_ne (Ne.symm same)]

theorem lookup_dirs_removeBlocks
    (store : BlockStore json) (blockIds : List UInt64) (name : String) :
    (blockIds.foldl removeBlock store).dirs.lookup name =
      if store.Names blockIds name then none
      else store.dirs.lookup name := by
  induction blockIds generalizing store with
  | nil => simp [Names]
  | cons first rest inductionHypothesis =>
    rw [foldl_cons, inductionHypothesis, lookup_dirs_removeBlock]
    by_cases namesFirst :
        (store.manager.getBlock first).map BlockInfo.path = some name
    · rw [if_pos namesFirst, ite_self,
        if_pos ⟨first, mem_cons_self, namesFirst⟩]
    · rw [if_neg namesFirst]
      -- other blocks are still known when the first one is removed
      have sameNames :
          (store.removeBlock first).Names rest name ↔
            store.Names (first :: rest) name := by
        simp only [Names, exists_mem_cons_iff, namesFirst, false_or,
          getBlock_removeBlock]
        refine exists_congr fun blockId => and_congr_right fun _ => ?_
        split
        · rename_i same
          subst same
          simp [namesFirst]
        · rfl
      rw [if_congr sameNames rfl rfl]

/-!
## What the new block holds
-/

theorem compactBlocks_cases
    (store : BlockStore json) (level : UInt8) (blockIds : List UInt64)
    (choice : CompactionChoice) :
    (∀ name block,
        (store.compactBlocks level blockIds choice).2.dirs.lookup name =
            some (some block) ↔
          store.dirs.lookup name = some (some block)) ∨
      ∃ allSeries block,
        store.loadBlocks choice blockIds = .ok allSeries ∧
          (∀ name,
            (store.compactBlocks level blockIds choice).2.dirs.lookup name =
              if store.Names blockIds name then none
              else if name = blockDirName choice.blockId then
                some (some block)
              else store.dirs.lookup name) ∧
          ∀ seriesId,
            block.samplesOf seriesId =
              mergeSamples (allSeries.samplesOf seriesId) := by
  rw [compactBlocks]
  cases loaded : store.loadBlocks choice blockIds with
  | error fault =>
    exact .inl fun name block => Iff.rfl
  | ok allSeries =>
    simp only
    split
    · exact .inl fun name block => Iff.rfl
    · let writer := compactedWriter choice.blockId allSeries
      rcases store.dirs.writeBlock_cases writer (choice.layout writer) with
        ⟨blockMeta, block, wrote, isWriter⟩ | ⟨fault, left, failed, same⟩
      · right
        refine ⟨allSeries, block, rfl, fun name => ?_, fun seriesId => ?_⟩
        · simp only [writer] at wrote
          simp only [wrote, lookup_dirs_removeBlocks, blockId_compactedWriter]
          refine if_congr Iff.rfl rfl ?_
          split
          · rename_i isNew
            rw [isNew]
            exact AList.lookup_insert _
          · rename_i other
            exact AList.lookup_insert_ne other
        · rw [StoredBlock.samplesOf, isWriter]
          exact samplesOf_compactedWriter _ _ _
      · left
        simp only [writer] at failed
        simp only [failed]
        exact same

theorem exists_mem_mergeSamples
    (samples : List Sample) (timestamp : Timestamp) :
    (∃ sample ∈ mergeSamples samples, sample.timestamp = timestamp) ↔
      ∃ sample ∈ samples, sample.timestamp = timestamp := by
  simpa only [mergeSamples, Sample.sortKey, Int64.toInt_inj] using
    @exists_mem_mergeByKey _ _ _ Sample.sortKey timestamp.toInt samples

theorem nodup_mergeSamples (samples : List Sample) :
    ((mergeSamples samples).map Sample.timestamp).Nodup := by
  have distinct := @nodup_map_mergeByKey _ _ _ Sample.sortKey samples
  refine List.Nodup.of_map Int64.toInt ?_
  rw [map_map]
  exact distinct

theorem CompactionSafe.ofReads
    (fresh : ¬ store.Collides blockIds choice.blockId)
    (reads :
      ∀ blockId ∈ blockIds, ∃ block,
        store.inputBlock blockId = some block ∧
          ∀ seriesId,
            store.readSamples choice seriesId blockId =
              block.samplesOf seriesId) :
    store.CompactionSafe choice blockIds := by
  refine ⟨fun _ seriesId timestamp => ?_, fun collides => absurd collides fresh⟩
  constructor
  · rintro ⟨blockId, isInput, sample, isRead, isAt⟩
    obtain ⟨block, isBlock, same⟩ := reads blockId isInput
    rw [same] at isRead
    exact ⟨blockId, isInput, block, isBlock, sample, isRead, isAt⟩
  · rintro ⟨blockId, isInput, block, isBlock, sample, isHeld, isAt⟩
    obtain ⟨other, isOther, same⟩ := reads blockId isInput
    rw [isBlock, Option.some.injEq] at isOther
    subst isOther
    rw [← same] at isHeld
    exact ⟨blockId, isInput, sample, isHeld, isAt⟩

end BlockStore

/-!
## Two blocks with one sample each
-/

def oneSampleWriter (blockId : UInt64) (sample : Sample) : BlockWriter :=
  (BlockWriter.new blockId).addSeries 1 [] [sample]

/-- A store of two blocks, each with one sample of the same series. -/
def twoBlocks (first second : Sample) : BlockStore labelsCodec :=
  let info (blockId : UInt64) (sample : Sample) : BlockInfo := {
    blockId := blockId
    minTimestamp := sample.timestamp
    maxTimestamp := sample.timestamp
    seriesCount := 1
    sampleCount := 1
    compactionLevel := 0
    path := blockDirName blockId
  }
  let write (dirs : BlocksDir labelsCodec) (writer : BlockWriter) :=
    (dirs.writeBlock writer writer.tableLayout).2
  {
    manager :=
      (BlockManager.addBlock ⟨∅⟩ (info 1 first)).addBlock (info 2 second)
    dirs := write (write ∅ (oneSampleWriter 1 first)) (oneSampleWriter 2 second)
  }

/-- Two blocks with samples at different points in time. -/
def apartBlocks : BlockStore labelsCodec :=
  twoBlocks ⟨1000, 1⟩ ⟨2000, 2⟩

/-- A compaction in which reading the series has a given outcome. -/
def exampleCompaction (readings : String → Except Fault (List Sample)) :
    CompactionChoice where
  blockId := 9
  layout := BlockWriter.tableLayout
  disturb path _ :=
    .ok [{ seriesId := 1, labels := [], samples := readings path }]

def readApartBlocks (path : String) : Except Fault (List Sample) :=
  if path = blockDirName 1 then .ok [⟨1000, 1⟩] else .ok [⟨2000, 2⟩]

/-- The series of the first block cannot be read. -/
def readSecondBlock (path : String) : Except Fault (List Sample) :=
  if path = blockDirName 1 then .error (.error (.io .unexpectedEof))
  else .ok [⟨2000, 2⟩]

theorem exists_inputBlock_apartBlocks
    {blockId : UInt64} (isInput : blockId ∈ [1, 2]) :
    ∃ block sample,
      apartBlocks.inputBlock blockId = some block ∧
        readApartBlocks (blockDirName blockId) = .ok [sample] ∧
        ∀ seriesId,
          block.samplesOf seriesId = if 1 = seriesId then [sample] else [] := by
  have stored :
      ∃ sample,
        (apartBlocks.inputBlock blockId).map StoredBlock.writer =
            some (oneSampleWriter blockId sample) ∧
          readApartBlocks (blockDirName blockId) = .ok [sample] := by
    rcases mem_pair.mp isInput with rfl | rfl
    · exact ⟨⟨1000, 1⟩, rfl, by decide +kernel⟩
    · exact ⟨⟨2000, 2⟩, rfl, by decide +kernel⟩
  obtain ⟨sample, isWriter, isRead⟩ := stored
  obtain ⟨block, isBlock, isWriter⟩ := Option.map_eq_some_iff.mp isWriter
  refine ⟨block, sample, isBlock, isRead, fun seriesId => ?_⟩
  rw [StoredBlock.samplesOf, isWriter, oneSampleWriter,
    BlockWriter.samplesOf_addSeries]
  rfl

theorem readSamples_apartBlocks
    (readings : String → Except Fault (List Sample)) {blockId : UInt64}
    (isInput : blockId ∈ [1, 2]) {samples : List Sample}
    (isRead : readings (blockDirName blockId) = .ok samples)
    (seriesId : TimeSeriesId) :
    apartBlocks.readSamples (exampleCompaction readings) seriesId blockId =
      if 1 = seriesId then samples else [] := by
  have opened :
      apartBlocks.readingsOf (exampleCompaction readings) blockId =
        .ok [{
          seriesId := 1
          labels := []
          samples := readings (blockDirName blockId)
        }] := by
    rcases mem_pair.mp isInput with rfl | rfl <;> rfl
  simp [BlockStore.readSamples, opened, SeriesReading.samplesOf, isRead]

theorem removes_of_isNone {after : BlockStore labelsCodec}
    (gone : (after.dirs.lookup (blockDirName 1)).isNone = true) :
    ∃ blockId ∈ [1, 2], apartBlocks.Removes after blockId := by
  obtain ⟨block, _, isBlock, _⟩ := exists_inputBlock_apartBlocks mem_cons_self
  obtain ⟨info, known, found⟩ := Option.bind_eq_some_iff.mp isBlock
  have isPath : info.path = blockDirName 1 := by
    have paths :
        (apartBlocks.manager.getBlock 1).map BlockInfo.path =
          some (blockDirName 1) :=
      rfl
    rw [known] at paths
    exact Option.some.inj paths
  refine ⟨1, mem_cons_self, info, block, known,
    Option.join_eq_some_iff.mp found, ?_⟩
  rw [isPath, Option.isNone_iff_eq_none.mp gone]
  nofun

end ChronoDB.Compaction
