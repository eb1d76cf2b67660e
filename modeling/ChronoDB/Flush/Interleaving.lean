import ChronoDB.Flush.System

namespace ChronoDB.Flush

open Library Wal Columnstore Memstore List MemStore

/-!
# A flush interleaved with writes

The steps of a flush read and change the store one after the other, and writes
happen between them.  A series is removed as a whole, also with what was written
to it after the flush had read it.  History variables record the writes that
returned `Ok`, and those among them that came after their series was read.
-/

/-- Where a flush stands. -/
inductive FlushPhase where
  | idle
  | reading (collected : Collected) (read remaining : List TimeSeriesId)
  | syncing (info : FlushedBlockInfo) (seriesIds : List TimeSeriesId)
  | removing (info : FlushedBlockInfo) (seriesIds : List TimeSeriesId)
  | done (result : Except Fault FlushedBlockInfo)

/-- The ids whose series a flush has read, until it removes them. -/
def FlushPhase.readIds : FlushPhase → List TimeSeriesId
  | .idle => []
  | .reading _ read _ => read
  | .syncing _ seriesIds => seriesIds
  | .removing _ seriesIds => seriesIds
  | .done _ => []

/-- The next step removes series. -/
def FlushPhase.removes : FlushPhase → Bool
  | .removing _ _ => true
  | _ => false

/-- A flush in progress; `acknowledged` and `late` are history variables. -/
structure InterleavedFlush (json : Codec Error Labels) where
  state : FlushState json
  phase : FlushPhase
  acknowledged : List SeriesWrite
  late : List SeriesWrite

inductive InterleavedAction where
  | write (series : SeriesWrite)
  | flush
  deriving Repr, DecidableEq

namespace InterleavedFlush

variable {json : Codec Error Labels}

/-- A flush that is about to begin. -/
def idle (state : FlushState json) : InterleavedFlush json where
  state := state
  phase := .idle
  acknowledged := []
  late := []

def write (codec : WalCodec) (hasher : Bytes → TimeSeriesId)
    (flush : InterleavedFlush json) (series : SeriesWrite) :
    InterleavedFlush json :=
  match flush.state.store.write codec hasher series with
  | (.error _, store) =>
    { flush with state := { flush.state with store := store } }
  | (.ok (), store) =>
    {
      flush with
      state := { flush.state with store := store }
      acknowledged := flush.acknowledged ++ [series]
      late :=
        if calculateSeriesId hasher series.labels ∈ flush.phase.readIds then
          flush.late ++ [series]
        else
          flush.late
    }

/-- Creating the directory of blocks and taking the list of ids. -/
def listSeries (flush : InterleavedFlush json) (choice : FlushChoice) :
    InterleavedFlush json :=
  {
    flush with
    state := {
      flush.state with
      blocks := some (flush.state.blocks.getD ∅)
    }
    phase :=
      .reading (.start choice.blockId) [] flush.state.store.getAllSeriesIds
  }

/-- The body of the loop for one id. -/
def readSeries (flush : InterleavedFlush json) (collected : Collected)
    (read : List TimeSeriesId) (seriesId : TimeSeriesId)
    (rest : List TimeSeriesId) :
    InterleavedFlush json :=
  {
    flush with
    phase :=
      .reading (collected.collectSeries flush.state.store seriesId)
        (read ++ [seriesId]) rest
  }

/-- The end of the loop over the ids, and `BlockWriter::write`. -/
def writeCollected (flush : InterleavedFlush json) (choice : FlushChoice)
    (collected : Collected) (seriesIds : List TimeSeriesId) :
    InterleavedFlush json :=
  if collected.totalSeries = 0 then
    {
      flush with
      state := { flush.state with blocks := none }
      phase := .done (.ok (.nothing choice.blockId))
    }
  else
    match
      (flush.state.blocks.getD ∅).writeBlock collected.writer
        (choice.layout collected.writer) with
    | (.error fault, left) =>
      {
        flush with
        state := { flush.state with blocks := some left }
        phase := .done (.error fault)
      }
    | (.ok blockMeta, written) =>
      {
        flush with
        state := { flush.state with blocks := some written }
        phase := .syncing (collected.info choice.blockId blockMeta) seriesIds
      }

/-- `MemStore::flush`. -/
def syncLog
    (codec : WalCodec) (flush : InterleavedFlush json) (info : FlushedBlockInfo)
    (seriesIds : List TimeSeriesId) :
    InterleavedFlush json :=
  match flush.state.store.flush codec with
  | (.error cause, store) =>
    {
      flush with
      state := { flush.state with store := store }
      phase := .done (.error (.error cause))
    }
  | (.ok (), store) =>
    {
      flush with
      state := { flush.state with store := store }
      phase := .removing info seriesIds
    }

def removeSeries (flush : InterleavedFlush json) (info : FlushedBlockInfo)
    (seriesIds : List TimeSeriesId) :
    InterleavedFlush json :=
  {
    flush with
    state := {
      flush.state with
      store := flush.state.store.removeSeriesBatch seriesIds
    }
    phase := .done (.ok info)
  }

/-- One step of `flush_memstore`. -/
def advance
    (codec : WalCodec) (choice : FlushChoice) (flush : InterleavedFlush json) :
    Option (InterleavedFlush json) :=
  match flush.phase with
  | .idle => some (flush.listSeries choice)
  | .reading collected read (seriesId :: rest) =>
    some (flush.readSeries collected read seriesId rest)
  | .reading collected read [] =>
    some (flush.writeCollected choice collected read)
  | .syncing info seriesIds => some (flush.syncLog codec info seriesIds)
  | .removing info seriesIds => some (flush.removeSeries info seriesIds)
  | .done _ => none

def next
    (codec : WalCodec) (hasher : Bytes → TimeSeriesId) (choice : FlushChoice)
    (flush : InterleavedFlush json) :
    InterleavedAction → Option (InterleavedFlush json)
  | .write series => some (flush.write codec hasher series)
  | .flush => flush.advance codec choice

/-- Some step, with any outcome. -/
def Step
    (codec : WalCodec) (hasher : Bytes → TimeSeriesId) (choice : FlushChoice)
    (before : InterleavedFlush json) (action : InterleavedAction)
    (after : InterleavedFlush json) :
    Prop :=
  before.next codec hasher choice action = some after

def writtenSamples (flush : InterleavedFlush json) (seriesId : TimeSeriesId) :
    List Sample :=
  match flush.phase with
  | .syncing info _ | .removing info _ | .done (.ok info) =>
    match (flush.state.blocks.getD ∅).lookup (blockDirName info.blockId) with
    | some (some block) => block.samplesOf seriesId
    | _ => []
  | _ => []

/--
Every sample that was in memory or whose write returned `Ok` is in memory or in
the written block.
-/
def LosesNothing (hasher : Bytes → TimeSeriesId) (start : MemStore)
    (flush : InterleavedFlush json) :
    Prop :=
  ∀ seriesId,
    (start.samplesOf seriesId ++
        writtenTo hasher seriesId flush.acknowledged).Subperm
      (flush.state.store.samplesOf seriesId ++ flush.writtenSamples seriesId)

/--
A flush removes series only when no sample was written to one of them after it
was read.
-/
def Undisturbed (flush : InterleavedFlush json) :
    InterleavedAction → Prop
  | .write _ => True
  | .flush =>
    flush.phase.removes = true → ∀ series ∈ flush.late, series.samples = []

instance decidableUndisturbed (flush : InterleavedFlush json) :
    DecidablePred flush.Undisturbed
  | .write _ => inferInstanceAs (Decidable True)
  | .flush => inferInstanceAs (Decidable (_ → _))

/-!
## What the steps change
-/

section Steps

variable {codec : WalCodec} {hasher : Bytes → TimeSeriesId}
variable {choice : FlushChoice} {start : MemStore}
variable {flush after : InterleavedFlush json}

theorem exists_write (flush : InterleavedFlush json) (series : SeriesWrite) :
    ∃ store acknowledged,
      (∀ write ∈ acknowledged, write = series) ∧
        (∀ seriesId,
          (store.samplesOf seriesId).Perm
            (flush.state.store.samplesOf seriesId ++
              writtenTo hasher seriesId acknowledged)) ∧
        flush.write codec hasher series = {
          flush with
          state := { flush.state with store := store }
          acknowledged := flush.acknowledged ++ acknowledged
          late :=
            if calculateSeriesId hasher series.labels ∈ flush.phase.readIds then
              flush.late ++ acknowledged
            else
              flush.late
        } := by
  rw [write]
  rcases written : flush.state.store.write codec hasher series with
    ⟨result, store⟩
  cases result with
  | error cause =>
    refine ⟨store, [], nofun, fun seriesId => ?_, ?_⟩
    · simpa using MemStore.samplesOf_of_failed_write written seriesId
    · simp
  | ok _ =>
    exact ⟨store, [series], fun write => mem_singleton.mp,
      (MemStore.Absorbs.ofWrite written).samplesOf, rfl⟩

theorem losesNothing_write_iff (series : SeriesWrite) :
    (flush.write codec hasher series).LosesNothing hasher start ↔
      flush.LosesNothing hasher start := by
  obtain ⟨store, acknowledged, _, grows, written⟩ :=
    @exists_write json codec hasher flush series
  rw [written]
  refine forall_congr' fun seriesId => ?_
  have memory :
      (store.samplesOf seriesId ++ flush.writtenSamples seriesId).Perm
        (flush.state.store.samplesOf seriesId ++
          flush.writtenSamples seriesId ++
            writtenTo hasher seriesId acknowledged) := by
    refine ((grows seriesId).append_right _).trans ?_
    rw [append_assoc, append_assoc]
    exact perm_append_comm.append_left _
  change List.Subperm _
    (store.samplesOf seriesId ++ flush.writtenSamples seriesId) ↔ _
  rw [memory.subperm_left, writtenTo_append, ← append_assoc]
  exact subperm_append_right _

/--
The end of the loop ends the flush, or writes a block with the samples that the
loop collected.
-/
theorem writeCollected_cases
    (flush : InterleavedFlush json) {collected : Collected}
    (sameId : collected.writer.blockId = choice.blockId)
    (read : List TimeSeriesId) :
    (∃ result blocks,
        flush.writeCollected choice collected read = {
          flush with
          state := { flush.state with blocks := blocks }
          phase := .done result
        }) ∨
      ∃ info blocks block,
        flush.writeCollected choice collected read = {
            flush with
            state := { flush.state with blocks := some blocks }
            phase := .syncing info read
          } ∧
          blocks.lookup (blockDirName info.blockId) = some (some block) ∧
          ∀ seriesId,
            block.samplesOf seriesId = collected.writer.samplesOf seriesId := by
  rw [writeCollected]
  split
  · exact .inl ⟨_, _, rfl⟩
  · rcases (flush.state.blocks.getD ∅).writeBlock_cases collected.writer
        (choice.layout collected.writer) with
      ⟨blockMeta, block, wrote, isWriter⟩ | ⟨fault, left, failed, _⟩
    · right
      simp only [wrote]
      refine ⟨_, _, block, rfl, ?_, fun seriesId => ?_⟩
      · rw [Collected.info, ← sameId]
        exact AList.lookup_insert _
      · rw [StoredBlock.samplesOf, isWriter]
    · left
      simp only [failed]
      exact ⟨_, _, rfl⟩

def collectedSamples (flush : InterleavedFlush json) (seriesId : TimeSeriesId) :
    List Sample :=
  match flush.phase with
  | .reading collected _ _ => collected.writer.samplesOf seriesId
  | _ => flush.writtenSamples seriesId

/-- The loop reads every id once, and a series not before its id. -/
def LoopReady (choice : FlushChoice) (phase : FlushPhase) :
    Prop :=
  match phase with
  | .reading collected read remaining =>
    collected.writer.blockId = choice.blockId ∧
      (read ++ remaining).Nodup ∧
      ∀ seriesId ∈ remaining, collected.writer.samplesOf seriesId = []
  | _ => True

/--
Before series are removed, memory holds all samples, and those of a series that
was read are the samples it was read with and the late ones.
-/
structure Accounted
    (hasher : Bytes → TimeSeriesId) (choice : FlushChoice) (start : MemStore)
    (flush : InterleavedFlush json) :
    Prop where
  memory :
    ∀ seriesId,
      (flush.state.store.samplesOf seriesId).Perm
        (start.samplesOf seriesId ++
          writtenTo hasher seriesId flush.acknowledged)
  read :
    ∀ seriesId ∈ flush.phase.readIds,
      (flush.state.store.samplesOf seriesId).Perm
        (flush.collectedSamples seriesId ++
          writtenTo hasher seriesId flush.late)
  late :
    ∀ series ∈ flush.late,
      calculateSeriesId hasher series.labels ∈ flush.phase.readIds
  loop : LoopReady choice flush.phase

namespace Accounted

theorem ofIdle (state : FlushState json) :
    Accounted hasher choice state.store (idle state) where
  memory := fun seriesId => by simp [idle]
  read := nofun
  late := nofun
  loop := trivial

theorem losesNothing (accounted : Accounted hasher choice start flush) :
    flush.LosesNothing hasher start := by
  intro seriesId
  refine (accounted.memory seriesId).symm.subperm.trans ?_
  exact (sublist_append_left _ _).subperm

/-- Writes are accounted for. -/
theorem write
    (accounted : Accounted hasher choice start flush) (series : SeriesWrite) :
    Accounted hasher choice start (flush.write codec hasher series) := by
  obtain ⟨store, acknowledged, isSeries, grows, written⟩ :=
    @exists_write json codec hasher flush series
  rw [written]
  refine ⟨fun seriesId => ?_, fun seriesId isRead => ?_,
    fun other isLate => ?_, accounted.loop⟩
  · refine (grows seriesId).trans ?_
    rw [writtenTo_append, ← append_assoc]
    exact (accounted.memory seriesId).append_right _
  · refine (grows seriesId).trans ?_
    refine ((accounted.read seriesId isRead).append_right _).trans ?_
    rw [append_assoc]
    refine List.Perm.append_left _ ?_
    split
    · rw [writtenTo_append]
    · rename_i unread
      have elsewhere :
          writtenTo hasher seriesId acknowledged = [] := by
        rw [writtenTo, flatMap_eq_nil_iff]
        intro other member
        rw [isSeries other member, if_neg]
        rintro rfl
        exact unread isRead
      rw [elsewhere, append_nil]
  · change other ∈ ite _ _ _ at isLate
    split at isLate
    · rename_i isRead
      rcases mem_append.mp isLate with before | now
      · exact accounted.late other before
      · rw [isSeries other now]
        exact isRead
    · exact accounted.late other isLate

theorem ofSameMemory (accounted : Accounted hasher choice start flush)
    (sameSamples :
      ∀ seriesId,
        after.state.store.samplesOf seriesId =
          flush.state.store.samplesOf seriesId)
    (sameAcknowledged : after.acknowledged = flush.acknowledged)
    (sameLate : after.late = flush.late)
    (readIds :
      ∀ seriesId ∈ flush.phase.readIds, seriesId ∈ after.phase.readIds)
    (read :
      ∀ seriesId ∈ after.phase.readIds,
        (flush.state.store.samplesOf seriesId).Perm
          (after.collectedSamples seriesId ++
            writtenTo hasher seriesId flush.late))
    (loop : LoopReady choice after.phase) :
    Accounted hasher choice start after := by
  refine ⟨fun seriesId => ?_, fun seriesId isRead => ?_,
    fun series isLate => ?_, loop⟩
  · rw [sameSamples, sameAcknowledged]
    exact accounted.memory seriesId
  · rw [sameSamples, sameLate]
    exact read seriesId isRead
  · rw [sameLate] at isLate
    exact readIds _ (accounted.late series isLate)

theorem writtenTo_late_eq_nil
    (accounted : Accounted hasher choice start flush) {seriesId : TimeSeriesId}
    (unread : seriesId ∉ flush.phase.readIds) :
    writtenTo hasher seriesId flush.late = [] := by
  rw [writtenTo, flatMap_eq_nil_iff]
  intro series isLate
  rw [if_neg]
  rintro rfl
  exact unread (accounted.late series isLate)

theorem losesNothing_of_same (accounted : Accounted hasher choice start flush)
    (sameSamples : after.state.store = flush.state.store)
    (sameAcknowledged : after.acknowledged = flush.acknowledged) :
    after.LosesNothing hasher start := by
  intro seriesId
  rw [sameSamples, sameAcknowledged]
  refine (accounted.memory seriesId).symm.subperm.trans ?_
  exact (sublist_append_left _ _).subperm

theorem listSeries (accounted : Accounted hasher choice start flush)
    (phase : flush.phase = .idle) :
    Accounted hasher choice start (flush.listSeries choice) := by
  refine accounted.ofSameMemory (fun _ => rfl) rfl rfl ?_ nofun ?_
  · intro seriesId isRead
    rw [phase] at isRead
    cases isRead
  · exact ⟨rfl, Collected.nodup_getAllSeriesIds _, fun _ _ => rfl⟩

theorem readSeries
    (accounted : Accounted hasher choice start flush) {collected : Collected}
    {read rest : List TimeSeriesId} {seriesId : TimeSeriesId}
    (phase : flush.phase = .reading collected read (seriesId :: rest)) :
    Accounted hasher choice start
      (flush.readSeries collected read seriesId rest) := by
  have loop := accounted.loop
  have readBefore := accounted.read
  have noLate := @accounted.writtenTo_late_eq_nil
  rw [phase] at loop readBefore noLate
  obtain ⟨sameId, distinct, empty⟩ := loop
  have distinctRest : (read ++ [seriesId] ++ rest).Nodup := by
    rw [append_assoc]
    exact distinct
  have unread : seriesId ∉ read ∧ seriesId ∉ rest := by
    rw [nodup_append, nodup_cons] at distinct
    obtain ⟨_, ⟨notRest, _⟩, disjoint⟩ := distinct
    exact ⟨fun member => disjoint _ member _ mem_cons_self rfl, notRest⟩
  refine accounted.ofSameMemory (fun _ => rfl) rfl rfl ?_ ?_ ?_
  · intro other isRead
    rw [phase] at isRead
    exact mem_append_left _ isRead
  · intro other isRead
    simp only [collectedSamples, InterleavedFlush.readSeries]
    rw [Collected.samplesOf_collectSeries]
    rcases mem_append.mp isRead with before | now
    · have different : seriesId ≠ other := by
        rintro rfl
        exact unread.1 before
      rw [if_neg different, append_nil]
      simpa only [collectedSamples, phase] using readBefore other before
    · cases mem_singleton.mp now
      rw [if_pos rfl, empty seriesId mem_cons_self, noLate unread.1]
      simp
  · refine ⟨?_, distinctRest, fun other member => ?_⟩
    · rw [Collected.blockId_collectSeries]
      exact sameId
    · have different : seriesId ≠ other := by
        rintro rfl
        exact unread.2 member
      rw [Collected.samplesOf_collectSeries, if_neg different,
        empty other (mem_cons_of_mem _ member)]
      rfl

theorem writeCollected
    (accounted : Accounted hasher choice start flush) {collected : Collected}
    {read : List TimeSeriesId}
    (phase : flush.phase = .reading collected read []) :
    Accounted hasher choice start (flush.writeCollected choice collected read) ∨
      ((∃ result,
          (flush.writeCollected choice collected read).phase = .done result) ∧
        (flush.writeCollected choice collected read).LosesNothing hasher
          start) := by
  have loop := accounted.loop
  have readBefore := accounted.read
  rw [phase] at loop readBefore
  rcases flush.writeCollected_cases loop.1 read with
    ⟨result, blocks, wrote⟩ | ⟨info, blocks, block, wrote, found, holds⟩
  · rw [wrote]
    exact .inr ⟨⟨result, rfl⟩, accounted.losesNothing_of_same rfl rfl⟩
  · rw [wrote]
    refine .inl (accounted.ofSameMemory (fun _ => rfl) rfl rfl ?_ ?_ trivial)
    · intro seriesId isRead
      rw [phase] at isRead
      exact isRead
    · intro seriesId isRead
      simp only [collectedSamples, writtenSamples, Option.getD_some, found,
        holds]
      simpa only [collectedSamples, phase] using readBefore seriesId isRead

theorem syncLog
    (accounted : Accounted hasher choice start flush) {info : FlushedBlockInfo}
    {seriesIds : List TimeSeriesId}
    (phase : flush.phase = .syncing info seriesIds) :
    Accounted hasher choice start (flush.syncLog codec info seriesIds) := by
  have readBefore := accounted.read
  rw [phase] at readBefore
  have synced := flush.state.store.fst_flush codec
  have sameHead := @MemStore.head_flush codec flush.state.store
  rw [InterleavedFlush.syncLog]
  rcases flushed : flush.state.store.flush codec with ⟨result, store⟩
  rw [flushed] at synced sameHead
  cases synced
  refine accounted.ofSameMemory (fun seriesId => ?_) rfl rfl ?_ ?_ trivial
  · exact congrArg (HeadBlock.samplesOf · seriesId) sameHead
  · intro seriesId isRead
    rw [phase] at isRead
    exact isRead
  · intro seriesId isRead
    simpa only [collectedSamples, writtenSamples, phase] using
      readBefore seriesId isRead

theorem losesNothing_removeSeries
    {info : FlushedBlockInfo} {seriesIds : List TimeSeriesId}
    (phase : flush.phase = .removing info seriesIds) :
    (flush.removeSeries info seriesIds).LosesNothing hasher start ↔
      ∀ seriesId,
        (start.samplesOf seriesId ++
            writtenTo hasher seriesId flush.acknowledged).Subperm
          ((if seriesId ∈ seriesIds then []
            else flush.state.store.samplesOf seriesId) ++
              flush.collectedSamples seriesId) := by
  refine forall_congr' fun seriesId => ?_
  rw [← MemStore.samplesOf_removeSeriesBatch]
  simp only [collectedSamples, phase]
  simp only [writtenSamples, phase, InterleavedFlush.removeSeries]

theorem losesNothing_removeSeries_iff
    (accounted : Accounted hasher choice start flush) {info : FlushedBlockInfo}
    {seriesIds : List TimeSeriesId}
    (phase : flush.phase = .removing info seriesIds) :
    (flush.removeSeries info seriesIds).LosesNothing hasher start ↔
      ∀ series ∈ flush.late, series.samples = [] := by
  have readBefore := accounted.read
  have lateBefore := accounted.late
  rw [phase, FlushPhase.readIds] at readBefore lateBefore
  rw [losesNothing_removeSeries phase]
  constructor
  · intro nothing series isLate
    -- the late samples of a series have no room beside those of the block
    have removed := lateBefore series isLate
    have read := (accounted.memory _).symm.trans (readBefore _ removed)
    have kept := nothing (calculateSeriesId hasher series.labels)
    rw [if_pos removed, nil_append, read.subperm_right] at kept
    have bounded := kept.length_le
    rw [length_append] at bounded
    have noneLate :
        writtenTo hasher (calculateSeriesId hasher series.labels)
          flush.late = [] :=
      length_eq_zero_iff.mp (by omega)
    rw [writtenTo, flatMap_eq_nil_iff] at noneLate
    simpa using noneLate series isLate
  · intro empty seriesId
    split
    · rename_i removed
      have noneLate : writtenTo hasher seriesId flush.late = [] := by
        rw [writtenTo, flatMap_eq_nil_iff]
        intro series isLate
        rw [empty series isLate, ite_self]
      have read := readBefore seriesId removed
      rw [noneLate, append_nil] at read
      exact ((accounted.memory seriesId).symm.trans read).subperm
    · exact (accounted.memory seriesId).symm.subperm.trans
        (sublist_append_left _ _).subperm

theorem advance (accounted : Accounted hasher choice start flush)
    (advanced : flush.advance codec choice = some after) :
    (Accounted hasher choice start after ∨
        ∃ result, after.phase = .done result) ∧
      (after.LosesNothing hasher start ↔ flush.Undisturbed .flush) := by
  rw [InterleavedFlush.advance] at advanced
  rw [Undisturbed]
  cases phase : flush.phase with
  | idle =>
    rw [phase] at advanced
    cases advanced
    have reached := accounted.listSeries phase
    exact ⟨.inl reached, iff_of_true reached.losesNothing nofun⟩
  | reading collected read remaining =>
    rw [phase] at advanced
    cases remaining with
    | nil =>
      cases advanced
      rcases accounted.writeCollected phase with
        reached | ⟨finished, nothing⟩
      · exact ⟨.inl reached, iff_of_true reached.losesNothing nofun⟩
      · exact ⟨.inr finished, iff_of_true nothing nofun⟩
    | cons seriesId rest =>
      cases advanced
      have reached := accounted.readSeries phase
      exact ⟨.inl reached, iff_of_true reached.losesNothing nofun⟩
  | syncing info seriesIds =>
    rw [phase] at advanced
    cases advanced
    have reached := @syncLog _ codec _ _ _ _ accounted _ _ phase
    exact ⟨.inl reached, iff_of_true reached.losesNothing nofun⟩
  | removing info seriesIds =>
    rw [phase] at advanced
    cases advanced
    refine ⟨.inr ⟨_, rfl⟩, ?_⟩
    rw [accounted.losesNothing_removeSeries_iff phase]
    exact ⟨fun empty _ => empty, fun empty => empty rfl⟩
  | done result =>
    rw [phase] at advanced
    cases advanced

end Accounted

theorem phase_write (series : SeriesWrite) :
    (flush.write codec hasher series).phase = flush.phase := by
  rw [write]
  split <;> rfl

/-- What every step keeps, before and after the flush. -/
def Valid
    (hasher : Bytes → TimeSeriesId) (choice : FlushChoice) (start : MemStore)
    (flush : InterleavedFlush json) :
    Prop :=
  Accounted hasher choice start flush ∨ ∃ result, flush.phase = .done result

theorem Step.losesNothing_iff
    {action : InterleavedAction} (valid : Valid hasher choice start flush)
    (step : Step codec hasher choice flush action after) :
    Valid hasher choice start after ∧
      (after.LosesNothing hasher start ↔
        flush.LosesNothing hasher start ∧ flush.Undisturbed action) := by
  rw [Step, next.eq_def] at step
  cases action with
  | write series =>
    cases step
    refine ⟨?_, ?_⟩
    · rcases valid with accounted | finished
      · exact .inl (accounted.write series)
      · rw [Valid, phase_write]
        exact .inr finished
    · rw [losesNothing_write_iff]
      exact (and_iff_left trivial).symm
  | flush =>
    rcases valid with accounted | ⟨result, phase⟩
    · obtain ⟨reached, nothing⟩ := accounted.advance step
      exact ⟨reached, nothing.trans (and_iff_right accounted.losesNothing).symm⟩
    · simp [advance, phase] at step

end Steps

/-!
## Interleavings and flushes
-/

section Runs

variable {codec : WalCodec} {hasher : Bytes → TimeSeriesId}
variable {choice : FlushChoice} {start : MemStore}

/--
A flush that any writes interleave with loses nothing exactly when it removes no
series to which a sample was written after the flush had read it.
-/
theorem interleaved_flush_losesNothing_iff {state : FlushState json}
    {actions : List InterleavedAction} {final : InterleavedFlush json}
    (run : Run (Step codec hasher choice) (idle state) actions final) :
    final.LosesNothing hasher state.store ↔
      Run (Restrict (Step codec hasher choice) Undisturbed) (idle state)
        actions final :=
  run.holds_iff_restrict_of_step
    (.inl (Accounted.ofIdle state))
    (Accounted.ofIdle state : Accounted hasher choice _ _).losesNothing
    Step.losesNothing_iff

/-- The next state, unless the step is disturbed. -/
def nextUndisturbed
    (codec : WalCodec) (hasher : Bytes → TimeSeriesId) (choice : FlushChoice)
    (flush : InterleavedFlush json) (action : InterleavedAction) :
    Option (InterleavedFlush json) :=
  if flush.Undisturbed action then flush.next codec hasher choice action
  else none

theorem restrict_of_nextUndisturbed
    {before after : InterleavedFlush json} {action : InterleavedAction}
    (taken :
      before.nextUndisturbed codec hasher choice action = some after) :
    Restrict (Step codec hasher choice) Undisturbed before action after :=
  Option.ite_none_right_eq_some.mp taken

/-- A write comes between the list of ids and the reading of its series. -/
theorem interleaved_flush_keeps_early_write :
    ∃ final,
      Run (Step jsonCodec SipHash.hash (exampleChoice 5))
          (idle (writtenState Json.samples))
          [.flush, .write (exampleWrite Json.samples), .flush, .flush,
            .flush, .flush] final ∧
        final.LosesNothing SipHash.hash (writtenState Json.samples).store := by
  have succeeds :
      ([.flush, .write (exampleWrite Json.samples), .flush, .flush,
          .flush, .flush].foldlM
        (nextUndisturbed jsonCodec SipHash.hash (exampleChoice 5))
        (idle (writtenState Json.samples))).isSome = true := by
    decide +kernel
  obtain ⟨final, folded⟩ := Option.isSome_iff_exists.mp succeeds
  have restricted := Run.ofFoldlM restrict_of_nextUndisturbed folded
  exact ⟨final, restricted.ofRestrict,
    (interleaved_flush_losesNothing_iff restricted.ofRestrict).mpr restricted⟩

/--
A write comes between the reading of its series and its removal, and its sample
is neither in memory nor in the block.
-/
theorem interleaved_flush_loses_late_write :
    ¬ ∀ actions final,
      Run (Step jsonCodec SipHash.hash (exampleChoice 5))
          (idle (writtenState Json.samples)) actions final →
        final.LosesNothing SipHash.hash (writtenState Json.samples).store := by
  intro losesNothing
  let actions : List InterleavedAction :=
    [.flush, .flush, .write (exampleWrite Json.samples), .flush, .flush, .flush]
  have loses :
      (actions.foldlM (next jsonCodec SipHash.hash (exampleChoice 5))
        (idle (writtenState Json.samples))).any
          (fun final =>
            decide
              ((final.state.store.samplesOf Json.seriesId ++
                  final.writtenSamples Json.seriesId).length <
                ((writtenState Json.samples).store.samplesOf Json.seriesId ++
                  writtenTo SipHash.hash Json.seriesId
                    final.acknowledged).length)) = true := by
    decide +kernel
  obtain ⟨final, folded, fewer⟩ := (Option.any_eq_true _ _).mp loses
  have kept := losesNothing actions final (Run.ofFoldlM id folded) Json.seriesId
  exact absurd kept.length_le (not_le.mpr (of_decide_eq_true fewer))

end Runs

end InterleavedFlush

end ChronoDB.Flush
