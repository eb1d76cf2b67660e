import ChronoDB.Flush.Manager
import ChronoDB.Library.FallibleFold
import ChronoDB.Library.MergeByKey

namespace ChronoDB.Compaction

open Library Wal Columnstore Flush

/-!
# Compaction of blocks

Compaction reads all series of its input blocks, merges the samples of every
series, writes them to a new block and removes the inputs.  What reading a block
comes to is decided by its files and by the environment, which may disturb any
read.  A series that cannot be read is passed over.
-/

structure BlockInfo where
  blockId : UInt64
  minTimestamp : Timestamp
  maxTimestamp : Timestamp
  seriesCount : ℕ
  sampleCount : ℕ
  compactionLevel : UInt8
  path : String
  deriving Repr, DecidableEq

structure BlockManager where
  blocks : FiniteMap UInt64 BlockInfo

/-- A block manager with the directories that its paths name. -/
structure BlockStore (json : Codec Error Labels) where
  manager : BlockManager
  dirs : BlocksDir json

namespace BlockManager

def addBlock (manager : BlockManager) (info : BlockInfo) : BlockManager where
  blocks := manager.blocks.insert info.blockId info

def getBlock (manager : BlockManager) (blockId : UInt64) :
    Option BlockInfo :=
  manager.blocks.lookup blockId

end BlockManager

/-!
## Reading the input blocks
-/

/-- One series of a block, with the outcome of reading it. -/
structure SeriesReading where
  seriesId : TimeSeriesId
  labels : Labels
  samples : Except Fault (List Sample)

/-- The outcome of opening a block and reading its series one by one. -/
abbrev BlockReading := Except Fault (List SeriesReading)

/-- What the files of a block directory give when no read is disturbed. -/
def readBlockDir (json : Codec Error Labels) (dir : BlockDir) :
    BlockReading :=
  match BlockReader.openDir dir with
  | .error cause => .error (.error cause)
  | .ok reader =>
    match reader.readIndex json with
    | .error cause => .error (.error cause)
    | .ok index =>
      .ok (index.map fun entry =>
        {
          seriesId := entry.seriesId
          labels := entry.labels
          samples :=
            reader.query json entry.seriesId Int64.minValue Int64.maxValue
        })

/-- Series with their labels and samples. -/
abbrev SeriesTable := FiniteMap TimeSeriesId SeriesData

/-- Samples of a series that is there already keep its labels. -/
def extendSeries
    (allSeries : SeriesTable) (seriesId : TimeSeriesId) (labels : Labels)
    (samples : List Sample) :
    SeriesTable :=
  let data :=
    (allSeries.lookup seriesId).getD { labels := labels, samples := [] }
  allSeries.insert seriesId { data with samples := data.samples ++ samples }

/-- The body of the loop over the index of a block. -/
def addReading (allSeries : SeriesTable) (reading : SeriesReading) :
    Except Fault SeriesTable :=
  match reading.samples with
  | .ok samples =>
    .ok (extendSeries allSeries reading.seriesId reading.labels samples)
  -- warned about, and passed over
  | .error (.error _) => .ok allSeries
  | .error .panic => .error .panic

/-- What the environment chooses: the clock, a table order, failing reads. -/
structure CompactionChoice where
  blockId : UInt64
  layout : (writer : BlockWriter) → writer.Layout
  disturb : String → BlockReading → BlockReading

namespace BlockStore

variable {json : Codec Error Labels}

def reading
    (store : BlockStore json) (choice : CompactionChoice) (path : String) :
    BlockReading :=
  choice.disturb path (readBlockDir json (store.dirs.filesOf path))

def loadBlockData (store : BlockStore json) (choice : CompactionChoice)
    (allSeries : SeriesTable) (blockId : UInt64) :
    Except Fault SeriesTable :=
  match store.manager.getBlock blockId with
  | none => .error (.error (.notFound s!"Block {blockId} not found"))
  | some info =>
    match store.dirs.lookup info.path with
    | none => .ok allSeries
    | some _ =>
      match store.reading choice info.path with
      | .error fault => .error fault
      | .ok series => series.foldlM addReading allSeries

/-- The loop over the input blocks. -/
def loadBlocks (store : BlockStore json) (choice : CompactionChoice)
    (blockIds : List UInt64) :
    Except Fault SeriesTable :=
  blockIds.foldlM (store.loadBlockData choice) ∅

/-- `remove_block`; a directory that exists is removed with its files. -/
def removeBlock (store : BlockStore json) (blockId : UInt64) :
    BlockStore json :=
  match store.manager.getBlock blockId with
  | none => store
  | some info =>
    {
      manager := { blocks := store.manager.blocks.erase blockId }
      dirs := store.dirs.erase info.path
    }

end BlockStore

/-- The samples of a series after sorting and removing duplicates. -/
def mergeSamples (samples : List Sample) : List Sample :=
  mergeByKey Sample.sortKey samples

/-- The writer of the new block, filled in one iteration order. -/
def compactedWriter (blockId : UInt64) (allSeries : SeriesTable) :
    BlockWriter :=
  (BlockWriter.new blockId).addAll
    (allSeries.entries.map fun entry =>
      {
        seriesId := entry.1
        labels := entry.2.labels
        samples := mergeSamples entry.2.samples
      })

def BlockStore.compactBlocks
    {json : Codec Error Labels} (store : BlockStore json) (level : UInt8)
    (blockIds : List UInt64) (choice : CompactionChoice) :
    Except Fault Unit × BlockStore json :=
  match store.loadBlocks choice blockIds with
  | .error fault => (.error fault, store)
  | .ok allSeries =>
    if allSeries.keys = [] then
      (.ok (), store)
    else
      let writer := compactedWriter choice.blockId allSeries
      match store.dirs.writeBlock writer (choice.layout writer) with
      | (.error fault, left) => (.error fault, { store with dirs := left })
      | (.ok blockMeta, written) =>
        let removed :=
          blockIds.foldl BlockStore.removeBlock { store with dirs := written }
        (.ok (), {
          removed with
          manager := removed.manager.addBlock {
            blockId := choice.blockId
            minTimestamp := blockMeta.minTimestamp
            maxTimestamp := blockMeta.maxTimestamp
            seriesCount := blockMeta.totalSeries
            sampleCount := blockMeta.totalSamples
            compactionLevel := level + 1
            path := blockDirName choice.blockId
          }
        })

/-!
## What is loaded
-/

def SeriesTable.samplesOf (allSeries : SeriesTable) (seriesId : TimeSeriesId) :
    List Sample :=
  (allSeries.lookup seriesId).elim [] SeriesData.samples

def SeriesReading.samplesOf
    (reading : SeriesReading) (seriesId : TimeSeriesId) :
    List Sample :=
  match reading.samples with
  | .ok samples => if reading.seriesId = seriesId then samples else []
  | .error _ => []

theorem samplesOf_extendSeries
    (allSeries : SeriesTable) (seriesId other : TimeSeriesId) (labels : Labels)
    (samples : List Sample) :
    SeriesTable.samplesOf (extendSeries allSeries seriesId labels samples)
        other =
      allSeries.samplesOf other ++
        if seriesId = other then samples else [] := by
  rw [SeriesTable.samplesOf, SeriesTable.samplesOf, extendSeries]
  by_cases same : seriesId = other
  · subst same
    cases allSeries.lookup seriesId <;> simp
  · simp [AList.lookup_insert_ne (Ne.symm same), same]

theorem samplesOf_addReading
    {allSeries extended : SeriesTable} {reading : SeriesReading}
    (added : addReading allSeries reading = .ok extended)
    (seriesId : TimeSeriesId) :
    extended.samplesOf seriesId =
      allSeries.samplesOf seriesId ++ reading.samplesOf seriesId := by
  rw [addReading] at added
  rw [SeriesReading.samplesOf]
  rcases outcome : reading.samples with (_ | _) | samples
  · rw [outcome] at added
    cases added
    simp
  · rw [outcome] at added
    cases added
  · rw [outcome] at added
    cases added
    exact samplesOf_extendSeries _ _ _ _ _

theorem exists_addReading_iff
    (allSeries : SeriesTable) (reading : SeriesReading) :
    (∃ extended, addReading allSeries reading = .ok extended) ↔
      reading.samples ≠ .error .panic := by
  rw [addReading]
  rcases reading.samples with (_ | _) | samples <;> simp

namespace BlockStore

variable {json : Codec Error Labels} {store : BlockStore json}
variable {choice : CompactionChoice}

/-- The series of an input block, as far as it exists and can be opened. -/
def readingsOf
    (store : BlockStore json) (choice : CompactionChoice) (blockId : UInt64) :
    Except Fault (List SeriesReading) :=
  match store.manager.getBlock blockId with
  | none => .error (.error (.notFound s!"Block {blockId} not found"))
  | some info =>
    match store.dirs.lookup info.path with
    | none => .ok []
    | some _ => store.reading choice info.path

/-- The samples that an input block contributes to an id. -/
def readSamples (store : BlockStore json) (choice : CompactionChoice)
    (seriesId : TimeSeriesId) (blockId : UInt64) :
    List Sample :=
  match store.readingsOf choice blockId with
  | .error _ => []
  | .ok readings => readings.flatMap (SeriesReading.samplesOf · seriesId)

theorem loadBlockData_eq (allSeries : SeriesTable) (blockId : UInt64) :
    store.loadBlockData choice allSeries blockId =
      match store.readingsOf choice blockId with
      | .error fault => .error fault
      | .ok readings => readings.foldlM addReading allSeries := by
  rw [loadBlockData, readingsOf]
  cases store.manager.getBlock blockId with
  | none => rfl
  | some info =>
    cases lookedUp : store.dirs.lookup info.path with
    | none =>
      simp only [lookedUp]
      rfl
    | some entry =>
      simp only [lookedUp]
      cases store.reading choice info.path <;> rfl

theorem samplesOf_loadBlockData
    {allSeries extended : SeriesTable} {blockId : UInt64}
    (loaded :
      store.loadBlockData choice allSeries blockId = .ok extended)
    (seriesId : TimeSeriesId) :
    extended.samplesOf seriesId =
      allSeries.samplesOf seriesId ++
        store.readSamples choice seriesId blockId := by
  rw [loadBlockData_eq] at loaded
  rw [readSamples]
  cases opened : store.readingsOf choice blockId with
  | error fault =>
    rw [opened] at loaded
    cases loaded
  | ok readings =>
    rw [opened] at loaded
    exact
      @foldlM_appends _ _ _ _ addReading (SeriesTable.samplesOf · seriesId)
        (SeriesReading.samplesOf · seriesId)
        (fun added => samplesOf_addReading added seriesId) _ _ readings
        loaded

/-- An input block can be opened, and reading its series does not panic. -/
def Loads
    (store : BlockStore json) (choice : CompactionChoice) (blockId : UInt64) :
    Prop :=
  ∃ readings,
    store.readingsOf choice blockId = .ok readings ∧
      ∀ reading ∈ readings, reading.samples ≠ .error .panic

theorem exists_loadBlockData_iff (allSeries : SeriesTable) (blockId : UInt64) :
    (∃ extended, store.loadBlockData choice allSeries blockId = .ok extended) ↔
      store.Loads choice blockId := by
  rw [loadBlockData_eq, Loads]
  cases store.readingsOf choice blockId with
  | error fault => simp
  | ok readings =>
    simpa using exists_foldlM_iff exists_addReading_iff allSeries readings

theorem samplesOf_loadBlocks {blockIds : List UInt64} {allSeries : SeriesTable}
    (loaded : store.loadBlocks choice blockIds = .ok allSeries)
    (seriesId : TimeSeriesId) :
    allSeries.samplesOf seriesId =
      blockIds.flatMap (store.readSamples choice seriesId) :=
  @foldlM_appends _ _ _ _ (store.loadBlockData choice)
    (SeriesTable.samplesOf · seriesId) (store.readSamples choice seriesId)
    (fun loaded => samplesOf_loadBlockData loaded seriesId) ∅ _ blockIds
    loaded

theorem exists_loadBlocks_of_perm
    {blockIds reordered : List UInt64} (perm : reordered.Perm blockIds)
    {allSeries : SeriesTable}
    (loaded : store.loadBlocks choice blockIds = .ok allSeries) :
    ∃ others, store.loadBlocks choice reordered = .ok others := by
  have loads := exists_foldlM_iff (@exists_loadBlockData_iff json store choice)
  refine (loads ∅ reordered).mpr fun blockId member => ?_
  exact (loads ∅ blockIds).mp ⟨allSeries, loaded⟩ blockId
    (perm.mem_iff.mp member)

end BlockStore

theorem samplesOf_compactedWriter
    (blockId : UInt64) (allSeries : SeriesTable) (seriesId : TimeSeriesId) :
    (compactedWriter blockId allSeries).samplesOf seriesId =
      mergeSamples (allSeries.samplesOf seriesId) := by
  rw [compactedWriter, BlockWriter.samplesOf_addAll, BlockWriter.addedTo,
    List.flatMap_map,
    FiniteMap.flatMap_entries_eq allSeries seriesId fun data =>
      mergeSamples data.samples,
    SeriesTable.samplesOf]
  cases allSeries.lookup seriesId <;> rfl

theorem blockId_compactedWriter (blockId : UInt64) (allSeries : SeriesTable) :
    (compactedWriter blockId allSeries).blockId = blockId :=
  BlockWriter.blockId_addAll _ _

end ChronoDB.Compaction
