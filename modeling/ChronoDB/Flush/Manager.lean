import ChronoDB.Columnstore.RoundTrip
import ChronoDB.Memstore.Restart

namespace ChronoDB.Flush

open Library Wal Columnstore Memstore List

/-!
# The flush manager

A flush collects all series in memory into a block writer, writes the block and
removes the series from memory.  When it collects no sample it removes the
directory of all blocks.  A directory of a written block keeps the writer it
was written from, so that what a block holds does not depend on its reader.
-/

/-- A directory that a block was written to. -/
structure StoredBlock (json : Codec Error Labels) where
  writer : BlockWriter
  layout : writer.Layout
  existing : BlockDir
  files : BlockDir
  written : writer.write json layout existing = .ok files

def StoredBlock.samplesOf {json : Codec Error Labels} (block : StoredBlock json)
    (seriesId : TimeSeriesId) :
    List Sample :=
  block.writer.samplesOf seriesId

/-- The name of a block directory, with the id in twenty digits. -/
def blockDirName (blockId : UInt64) : String :=
  "block-" ++
    String.ofList (List.leftpad 20 '0' (toString blockId.toNat).toList)

/--
The directories under `blocks`.  A directory without a block was left by a
write that failed.
-/
abbrev BlocksDir (json : Codec Error Labels) :=
  FiniteMap String (Option (StoredBlock json))

namespace BlocksDir

variable {json : Codec Error Labels}

/-- The files of a directory, as the next writer finds them. -/
def filesOf (dirs : BlocksDir json) (name : String) : BlockDir :=
  match dirs.lookup name with
  | some (some block) => block.files
  | _ => BlockDir.empty

/-- `BlockWriter::write` into its directory under `blocks`. -/
def writeBlock
    (dirs : BlocksDir json) (writer : BlockWriter) (layout : writer.Layout) :
    Except Fault BlockMeta × BlocksDir json :=
  let name := blockDirName writer.blockId
  match written : writer.write json layout (dirs.filesOf name) with
  | .ok files =>
    (.ok (writer.blockMeta (writer.laidOut layout)),
      dirs.insert name (some {
        writer := writer
        layout := layout
        existing := dirs.filesOf name
        files := files
        written := written
      }))
  | .error fault =>
    (.error fault,
      match dirs.lookup name with
      | some _ => dirs
      | none => dirs.insert name none)

def Holds (dirs : BlocksDir json) (seriesId : TimeSeriesId) (sample : Sample) :
    Prop :=
  ∃ name block,
    dirs.lookup name = some (some block) ∧ sample ∈ block.samplesOf seriesId

theorem writeBlock_cases
    (dirs : BlocksDir json) (writer : BlockWriter) (layout : writer.Layout) :
    (∃ blockMeta block,
        dirs.writeBlock writer layout =
            (.ok blockMeta,
              dirs.insert (blockDirName writer.blockId) (some block)) ∧
          block.writer = writer) ∨
      ∃ fault after,
        dirs.writeBlock writer layout = (.error fault, after) ∧
          ∀ name block,
            after.lookup name = some (some block) ↔
              dirs.lookup name = some (some block) := by
  rw [writeBlock]
  split
  · exact .inl ⟨_, _, rfl, rfl⟩
  · refine .inr ⟨_, _, rfl, fun name block => ?_⟩
    split
    · rfl
    · rename_i absent
      by_cases same : name = blockDirName writer.blockId
      · subst same
        simp [absent]
      · rw [AList.lookup_insert_ne same]

end BlocksDir

/-!
## Collecting the series in memory
-/

structure FlushedBlockInfo where
  blockId : UInt64
  seriesCount : ℕ
  sampleCount : ℕ
  minTimestamp : Timestamp
  maxTimestamp : Timestamp
  deriving Repr, DecidableEq

/-- The variables of the loop over the series in memory. -/
structure Collected where
  writer : BlockWriter
  totalSeries : ℕ
  totalSamples : ℕ
  minTs : Timestamp
  maxTs : Timestamp

namespace Collected

def start (blockId : UInt64) : Collected where
  writer := BlockWriter.new blockId
  totalSeries := 0
  totalSamples := 0
  minTs := Int64.maxValue
  maxTs := Int64.minValue

/-- The body of the loop for a series that was found. -/
def addSeries (collected : Collected) (series : TimeSeries) : Collected :=
  if series.samples = [] then
    collected
  else
    {
      writer :=
        collected.writer.addSeries series.id series.labels series.samples
      totalSeries := collected.totalSeries + 1
      totalSamples := collected.totalSamples + series.samples.length
      minTs :=
        series.samples.foldl
          (fun least sample => min least sample.timestamp) collected.minTs
      maxTs :=
        series.samples.foldl
          (fun most sample => max most sample.timestamp) collected.maxTs
    }

/-- The body of the loop for one id. -/
def collectSeries
    (store : MemStore) (collected : Collected) (seriesId : TimeSeriesId) :
    Collected :=
  match store.getSeries seriesId with
  | none => collected
  | some series => collected.addSeries series

/-- The loop over the ids. -/
def collect
    (store : MemStore) (blockId : UInt64) (seriesIds : List TimeSeriesId) :
    Collected :=
  seriesIds.foldl (collectSeries store) (start blockId)

/-- The result of a flush that wrote a block. -/
def info (collected : Collected) (blockId : UInt64) (blockMeta : BlockMeta) :
    FlushedBlockInfo where
  blockId := blockId
  seriesCount := collected.totalSeries
  sampleCount := collected.totalSamples
  minTimestamp :=
    if collected.minTs = Int64.maxValue then blockMeta.minTimestamp
    else collected.minTs
  maxTimestamp :=
    if collected.maxTs = Int64.minValue then blockMeta.maxTimestamp
    else collected.maxTs

end Collected

/-!
## What the loop collects
-/

theorem samples_of_getSeries
    {store : MemStore} {seriesId : TimeSeriesId} {series : TimeSeries}
    (found : store.getSeries seriesId = some series) :
    series.id = seriesId ∧ series.samples = store.samplesOf seriesId := by
  rw [MemStore.getSeries, HeadBlock.getSeriesLabels, HeadBlock.query] at found
  rw [MemStore.samplesOf, HeadBlock.samplesOf]
  cases entered : store.head.series.lookup seriesId with
  | none => simp [entered] at found
  | some entry =>
    simp only [entered, Option.map_some, Option.some.injEq] at found
    subst found
    exact ⟨rfl, entry.samplesInRange_full⟩

theorem samplesOf_of_getSeries_eq_none
    {store : MemStore} {seriesId : TimeSeriesId}
    (absent : store.getSeries seriesId = none) :
    store.samplesOf seriesId = [] := by
  rw [MemStore.getSeries, HeadBlock.getSeriesLabels, HeadBlock.query] at absent
  rw [MemStore.samplesOf, HeadBlock.samplesOf]
  cases entered : store.head.series.lookup seriesId with
  | none => rfl
  | some entry => simp [entered] at absent

namespace Collected

variable (store : MemStore) (collected : Collected)
  (seriesIds : List TimeSeriesId) (seriesId : TimeSeriesId)

theorem samplesOf_collectSeries (seriesId other : TimeSeriesId) :
    (collected.collectSeries store seriesId).writer.samplesOf other =
      collected.writer.samplesOf other ++
        if seriesId = other then store.samplesOf seriesId else [] := by
  rw [collectSeries]
  cases found : store.getSeries seriesId with
  | none => simp [samplesOf_of_getSeries_eq_none found]
  | some series =>
    obtain ⟨isId, isSamples⟩ := samples_of_getSeries found
    simp only [addSeries]
    split
    · rename_i empty
      simp [← isSamples, empty]
    · rw [BlockWriter.samplesOf_addSeries, isId, isSamples]

theorem totalSeries_collectSeries :
    (collected.collectSeries store seriesId).totalSeries =
      collected.totalSeries +
        if store.samplesOf seriesId = [] then 0 else 1 := by
  rw [collectSeries]
  cases found : store.getSeries seriesId with
  | none => simp [samplesOf_of_getSeries_eq_none found]
  | some series =>
    obtain ⟨_, isSamples⟩ := samples_of_getSeries found
    simp only [addSeries, ← isSamples]
    split <;> rfl

theorem samplesOf_foldl :
    (seriesIds.foldl (collectSeries store) collected).writer.samplesOf
        seriesId =
      collected.writer.samplesOf seriesId ++
        seriesIds.flatMap fun other =>
          if other = seriesId then store.samplesOf other else [] := by
  induction seriesIds generalizing collected with
  | nil => simp
  | cons first rest inductionHypothesis =>
    rw [foldl_cons, inductionHypothesis, samplesOf_collectSeries,
      flatMap_cons, append_assoc]

theorem totalSeries_foldl_eq_zero_iff :
    (seriesIds.foldl (collectSeries store) collected).totalSeries = 0 ↔
      collected.totalSeries = 0 ∧
        ∀ seriesId ∈ seriesIds, store.samplesOf seriesId = [] := by
  induction seriesIds generalizing collected with
  | nil => simp
  | cons first rest inductionHypothesis =>
    rw [foldl_cons, inductionHypothesis, totalSeries_collectSeries,
      forall_mem_cons, ← and_assoc]
    split
    · rename_i empty
      simp [empty]
    · rename_i samples
      simp [samples]

theorem blockId_collectSeries :
    (collected.collectSeries store seriesId).writer.blockId =
      collected.writer.blockId := by
  rw [collectSeries]
  split
  · rfl
  · rw [addSeries]
    split <;> rfl

theorem blockId_foldl :
    (seriesIds.foldl (collectSeries store) collected).writer.blockId =
      collected.writer.blockId := by
  induction seriesIds generalizing collected with
  | nil => rfl
  | cons first rest inductionHypothesis =>
    rw [foldl_cons, inductionHypothesis, blockId_collectSeries]

section Indexed

variable {store : MemStore}

theorem nodup_getAllSeriesIds (store : MemStore) :
    store.getAllSeriesIds.Nodup :=
  store.head.index.seriesLabels.keys_nodup

theorem samplesOf_eq_nil_of_not_mem
    (indexed : store.head.Indexed) {seriesId : TimeSeriesId}
    (unknown : seriesId ∉ store.getAllSeriesIds) :
    store.samplesOf seriesId = [] := by
  rw [MemStore.getAllSeriesIds, indexed.mem_allSeriesIds] at unknown
  rw [MemStore.samplesOf, HeadBlock.samplesOf,
    Option.not_isSome_iff_eq_none.mp unknown]
  rfl

theorem samplesOf_collect (indexed : store.head.Indexed) (blockId : UInt64)
    (seriesId : TimeSeriesId) :
    (collect store blockId store.getAllSeriesIds).writer.samplesOf seriesId =
      store.samplesOf seriesId := by
  rw [collect, samplesOf_foldl]
  change [] ++ _ = _
  rw [nil_append]
  by_cases known : seriesId ∈ store.getAllSeriesIds
  · obtain ⟨before, after, isSplit⟩ := append_of_mem known
    have distinct := nodup_getAllSeriesIds store
    rw [isSplit] at distinct ⊢
    have elsewhere :
        ∀ ids : List TimeSeriesId, seriesId ∉ ids →
          (ids.flatMap fun other =>
            if other = seriesId then store.samplesOf other else []) =
            [] := by
      intro ids absent
      rw [flatMap_eq_nil_iff]
      intro other member
      have different : other ≠ seriesId := by
        rintro rfl
        exact absent member
      rw [if_neg different]
    rw [nodup_append, nodup_cons] at distinct
    obtain ⟨_, ⟨notAfter, _⟩, disjoint⟩ := distinct
    have notBefore : seriesId ∉ before := fun member =>
      disjoint _ member _ mem_cons_self rfl
    rw [flatMap_append, flatMap_cons, elsewhere before notBefore,
      elsewhere after notAfter, if_pos rfl]
    simp
  · rw [samplesOf_eq_nil_of_not_mem indexed known, flatMap_eq_nil_iff]
    intro other member
    have different : other ≠ seriesId := by
      rintro rfl
      exact known member
    rw [if_neg different]

theorem totalSeries_collect_eq_zero_iff
    (indexed : store.head.Indexed) (blockId : UInt64) :
    (collect store blockId store.getAllSeriesIds).totalSeries = 0 ↔
      store.HoldsNothing := by
  rw [collect, totalSeries_foldl_eq_zero_iff]
  constructor
  · rintro ⟨_, empty⟩ seriesId
    by_cases known : seriesId ∈ store.getAllSeriesIds
    · exact empty seriesId known
    · exact samplesOf_eq_nil_of_not_mem indexed known
  · intro nothing
    exact ⟨rfl, fun seriesId _ => nothing seriesId⟩

end Indexed

end Collected

/-- The result of a flush that found no sample. -/
def FlushedBlockInfo.nothing (blockId : UInt64) : FlushedBlockInfo where
  blockId := blockId
  seriesCount := 0
  sampleCount := 0
  minTimestamp := 0
  maxTimestamp := 0

/-!
## Flushing
-/

/-- What the environment chooses for a flush: the clock and a table order. -/
structure FlushChoice where
  blockId : UInt64
  layout : (writer : BlockWriter) → writer.Layout

/-- A store with its block directory, which need not exist. -/
structure FlushState (json : Codec Error Labels) where
  store : MemStore
  blocks : Option (BlocksDir json)

structure FlushManager where
  blockSizeThreshold : ℕ
  deriving Repr, DecidableEq

namespace FlushState

variable {json : Codec Error Labels} (codec : WalCodec)

def flushMemstore (state : FlushState json) (choice : FlushChoice) :
    Except Fault FlushedBlockInfo × FlushState json :=
  let blocksDir := state.blocks.getD ∅
  let seriesIds := state.store.getAllSeriesIds
  let collected := Collected.collect state.store choice.blockId seriesIds
  if collected.totalSeries = 0 then
    -- `remove_dir_all` on the directory of all blocks
    (.ok (.nothing choice.blockId), { state with blocks := none })
  else
    match
      blocksDir.writeBlock collected.writer
        (choice.layout collected.writer) with
    | (.error fault, left) => (.error fault, { state with blocks := some left })
    | (.ok blockMeta, written) =>
      match state.store.flush codec with
      | (.error cause, store) =>
        (.error (.error cause), { store := store, blocks := some written })
      | (.ok (), store) =>
        (.ok (collected.info choice.blockId blockMeta),
          {
            store := store.removeSeriesBatch seriesIds
            blocks := some written
          })

/-- `check_and_flush`; the counter of samples is never reset by a flush. -/
def checkAndFlush
    (manager : FlushManager) (state : FlushState json) (choice : FlushChoice) :
    Except Fault Unit × FlushState json :=
  if state.store.stats.totalSamples < manager.blockSizeThreshold then
    (.ok (), state)
  else
    match state.flushMemstore codec choice with
    | (.error fault, after) => (.error fault, after)
    | (.ok _, after) => (.ok (), after)

/-- A successful flush that found a sample. -/
structure Flushes
    (before : FlushState json) (choice : FlushChoice) (after : FlushState json)
    (block : StoredBlock json) :
    Prop where
  blocks :
    after.blocks =
      some ((before.blocks.getD ∅).insert
        (blockDirName choice.blockId) (some block))
  samplesOf :
    ∀ seriesId, block.samplesOf seriesId = before.store.samplesOf seriesId
  holdsNothing : after.store.HoldsNothing
  indexed : after.store.head.Indexed
  stats : after.store.stats = before.store.stats

/-- What a flush can do. -/
theorem flushMemstore_cases
    (state : FlushState json) (indexed : state.store.head.Indexed)
    (choice : FlushChoice) :
    (state.store.HoldsNothing ∧
        state.flushMemstore codec choice =
          (.ok (.nothing choice.blockId), { state with blocks := none })) ∨
      (¬ state.store.HoldsNothing ∧
        ∃ fault left,
          state.flushMemstore codec choice =
              (.error fault, { state with blocks := some left }) ∧
            ∀ name block,
              left.lookup name = some (some block) ↔
                (state.blocks.getD ∅).lookup name = some (some block)) ∨
      (¬ state.store.HoldsNothing ∧
        ∃ info after block,
          state.flushMemstore codec choice = (.ok info, after) ∧
            Flushes state choice after block) := by
  let collected :=
    Collected.collect state.store choice.blockId state.store.getAllSeriesIds
  have sameId : collected.writer.blockId = choice.blockId :=
    Collected.blockId_foldl _ _ _
  have counts : collected.totalSeries = 0 ↔ state.store.HoldsNothing :=
    Collected.totalSeries_collect_eq_zero_iff indexed choice.blockId
  rw [flushMemstore]
  by_cases nothing : state.store.HoldsNothing
  · exact .inl ⟨nothing, if_pos (counts.mpr nothing)⟩
  · simp only [nothing, not_false_eq_true, false_and, true_and, false_or]
    rw [if_neg (mt counts.mp nothing)]
    have writes :=
      (state.blocks.getD ∅).writeBlock_cases collected.writer
        (choice.layout collected.writer)
    rcases writes with
      ⟨blockMeta, block, wrote, isWriter⟩ | ⟨fault, left, failed, same⟩
    · right
      have synced := state.store.fst_flush codec
      rcases flushed : state.store.flush codec with ⟨result, store⟩
      have sameHead := @MemStore.head_flush codec state.store
      have sameStats := @MemStore.stats_flush codec state.store
      rw [flushed] at synced sameHead sameStats
      have synced : result = .ok () := synced
      subst synced
      have sameHead : store.head = state.store.head := sameHead
      have sameStats : store.stats = state.store.stats := sameStats
      let after : FlushState json := {
        store := store.removeSeriesBatch state.store.getAllSeriesIds
        blocks :=
          some ((state.blocks.getD ∅).insert
            (blockDirName collected.writer.blockId) (some block))
      }
      refine ⟨collected.info choice.blockId blockMeta, after, block, ?_, ?_⟩
      · simp only [collected] at wrote
        simp only [wrote]
        rfl
      · refine ⟨by rw [← sameId], fun seriesId => ?_, fun seriesId => ?_,
          ?_, sameStats⟩
        · rw [StoredBlock.samplesOf, isWriter]
          exact Collected.samplesOf_collect indexed choice.blockId seriesId
        · rw [MemStore.samplesOf_removeSeriesBatch]
          split
          · rfl
          · rename_i unknown
            rw [MemStore.samplesOf, sameHead]
            exact Collected.samplesOf_eq_nil_of_not_mem indexed unknown
        · have indexed : store.head.Indexed := by
            rw [sameHead]
            exact indexed
          exact indexed.removeSeriesBatch _
    · left
      refine ⟨fault, left, ?_, same⟩
      simp only [collected] at failed
      simp only [failed]

end FlushState

end ChronoDB.Flush
