import ChronoDB.Flush.Manager

namespace ChronoDB.Flush

open Library Wal Columnstore Memstore

/-!
# Runs of a store with a flush manager

Writes, flushes and ticks of the flush timer act on a store and its block
directory.  A run takes them in any order and with any outcome.
-/

inductive FlushOperation where
  | memory (operation : MemOperation)
  | flush (choice : FlushChoice)
  | tick (choice : FlushChoice)

namespace FlushOperation

variable {json : Codec Error Labels}

def run
    (codec : WalCodec) (hasher : Bytes → TimeSeriesId) (manager : FlushManager)
    (state : FlushState json) :
    FlushOperation → Except Fault Unit × FlushState json
  | .memory operation =>
    let (result, store) := operation.run codec hasher state.store
    (result.mapError Fault.error, { state with store := store })
  | .flush choice =>
    let (result, after) := state.flushMemstore codec choice
    (result.map fun _ => (), after)
  | .tick choice => FlushState.checkAndFlush codec manager state choice

end FlushOperation

section Steps

variable {json : Codec Error Labels}

/-- One operation with any outcome. -/
def FlushStep
    (codec : WalCodec) (hasher : Bytes → TimeSeriesId) (manager : FlushManager)
    (before : FlushState json) (operation : FlushOperation)
    (after : FlushState json) :
    Prop :=
  (operation.run codec hasher manager before).2 = after

def FlushState.initial (codec : WalCodec) (config : MemStore.StorageConfig)
    (dataDir : Option SegmentDir) (created : ℕ → UInt64) (millis : Timestamp)
    (blocks : Option (BlocksDir json)) :
    FlushState json where
  store := MemStore.new codec config dataDir created millis
  blocks := blocks

variable {codec : WalCodec} {hasher : Bytes → TimeSeriesId}
variable {manager : FlushManager} {before after : FlushState json}

theorem indexed_of_memOperation
    {store : MemStore} (indexed : store.head.Indexed)
    (operation : MemOperation) :
    (operation.run codec hasher store).2.head.Indexed := by
  cases operation with
  | write series => exact MemStore.indexed_write indexed series
  | writeBatch batch => exact MemStore.indexed_writeBatch indexed batch

theorem indexed_of_flushMemstore
    (indexed : before.store.head.Indexed) (choice : FlushChoice) :
    (before.flushMemstore codec choice).2.store.head.Indexed := by
  rcases before.flushMemstore_cases codec indexed choice with
    ⟨_, ran⟩ | ⟨_, _, _, ran, _⟩ | ⟨_, _, _, _, ran, flushes⟩
  · rw [ran]
    exact indexed
  · rw [ran]
    exact indexed
  · rw [ran]
    exact flushes.indexed

theorem checkAndFlush_cases (state : FlushState json) (choice : FlushChoice) :
    (state.store.stats.totalSamples < manager.blockSizeThreshold ∧
        (FlushState.checkAndFlush codec manager state choice).2 = state) ∨
      (manager.blockSizeThreshold ≤ state.store.stats.totalSamples ∧
        (FlushState.checkAndFlush codec manager state choice).2 =
          (state.flushMemstore codec choice).2) := by
  rw [FlushState.checkAndFlush]
  split
  · rename_i few
    exact .inl ⟨few, rfl⟩
  · rename_i enough
    refine .inr ⟨not_lt.mp enough, ?_⟩
    split <;> rename_i ran <;> rw [ran]

theorem FlushStep.indexed
    (indexed : before.store.head.Indexed) {operation : FlushOperation}
    (step : FlushStep codec hasher manager before operation after) :
    after.store.head.Indexed := by
  cases step
  cases operation with
  | memory operation => exact indexed_of_memOperation indexed operation
  | flush choice => exact indexed_of_flushMemstore indexed choice
  | tick choice =>
    rw [FlushOperation.run]
    rcases @checkAndFlush_cases json codec manager before choice with
      ⟨_, same⟩ | ⟨_, same⟩
    · rw [same]
      exact indexed
    · rw [same]
      exact indexed_of_flushMemstore indexed choice

theorem indexed_of_run
    {config : MemStore.StorageConfig} {dataDir : Option SegmentDir}
    {created : ℕ → UInt64} {millis : Timestamp}
    {blocks : Option (BlocksDir json)} {operations : List FlushOperation}
    {final : FlushState json}
    (run :
      Run (FlushStep codec hasher manager)
        (FlushState.initial codec config dataDir created millis blocks)
        operations final) :
    final.store.head.Indexed :=
  run.preserves (fun indexed step => step.indexed indexed)
    (HeadBlock.Indexed.new _)

end Steps

/-!
## A store with one sample
-/

/-- A new store without a log, in a directory without blocks. -/
def freshState : FlushState labelsCodec :=
  FlushState.initial jsonCodec .default none (fun _ => 0) 1000 none

def writtenState (samples : List Sample) : FlushState labelsCodec := {
  freshState with
  store :=
    (freshState.store.write jsonCodec SipHash.hash (exampleWrite samples)).2
}

/-- A flush in which tables are iterated in the order of their lists. -/
def exampleChoice (blockId : UInt64) : FlushChoice where
  blockId := blockId
  layout := BlockWriter.tableLayout

theorem run_writtenState (samples : List Sample) (manager : FlushManager) :
    Run (FlushStep jsonCodec SipHash.hash manager) freshState
      [.memory (.write (exampleWrite samples))] (writtenState samples) :=
  Run.single rfl

theorem absorbs_writtenState (samples : List Sample) :
    MemStore.Absorbs SipHash.hash freshState.store
      (writtenState samples).store [exampleWrite samples] := by
  have room :
      freshState.store.head.seriesCount <
        freshState.store.head.config.maxSeries := by
    decide
  obtain ⟨after, written⟩ :=
    @MemStore.exists_write jsonCodec SipHash.hash freshState.store
      (MemStore.logReady_new _ none nofun _ _) room (exampleWrite samples)
  have isAfter : (writtenState samples).store = after :=
    congrArg Prod.snd written
  rw [isAfter]
  exact .ofWrite written

theorem mem_samplesOf_writtenState :
    { timestamp := 1000, value := 1 } ∈
      (writtenState Json.samples).store.samplesOf Json.seriesId := by
  decide +kernel

theorem exists_flush_writtenState :
    ∃ info after,
      (writtenState Json.samples).flushMemstore jsonCodec
        (exampleChoice 5) = (.ok info, after) := by
  have succeeds :
      ((writtenState Json.samples).flushMemstore jsonCodec
        (exampleChoice 5)).1.toOption.isSome = true := by
    decide +kernel
  rcases ran :
      (writtenState Json.samples).flushMemstore jsonCodec
        (exampleChoice 5) with ⟨result, after⟩
  rw [ran] at succeeds
  cases result with
  | error fault => cases succeeds
  | ok info => exact ⟨info, after, rfl⟩

end ChronoDB.Flush
