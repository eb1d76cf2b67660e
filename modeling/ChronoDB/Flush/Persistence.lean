import ChronoDB.Flush.System
import ChronoDB.Query.Planner

namespace ChronoDB.Flush

open Library Wal Columnstore Memstore

/-!
# What later flushes do to persisted blocks

A flush that collects no sample removes all blocks, and the counter that a tick
compares with its threshold is never reset, so ticks flush an empty store.  A
flush in the same millisecond as an earlier one overwrites its block.  Blocks
survive a flush that does neither.
-/

variable {json : Codec Error Labels} {codec : WalCodec}
variable {hasher : Bytes → TimeSeriesId} {manager : FlushManager}

def FlushState.Persists
    (state : FlushState json) (seriesId : TimeSeriesId) (sample : Sample) :
    Prop :=
  (state.blocks.getD ∅).Holds seriesId sample

/-- Everything that was persisted still is. -/
def FlushState.Keeps (before after : FlushState json) : Prop :=
  ∀ seriesId sample,
    before.Persists seriesId sample → after.Persists seriesId sample

/-- A sample is in a block directory with another name. -/
def FlushState.PersistsElsewhere
    (state : FlushState json) (name : String) (seriesId : TimeSeriesId)
    (sample : Sample) :
    Prop :=
  ∃ other block,
    other ≠ name ∧
      (state.blocks.getD ∅).lookup other = some (some block) ∧
      sample ∈ block.samplesOf seriesId

/--
A flush is safe when it finds a sample or nothing is persisted, and when each
sample of a block under its own id is in memory again or in another block.
-/
structure FlushState.FlushSafe
    (state : FlushState json) (choice : FlushChoice) :
    Prop where
  findsSample :
    state.store.HoldsNothing →
      ∀ seriesId sample, ¬ state.Persists seriesId sample
  freshId :
    ∀ block,
      (state.blocks.getD ∅).lookup (blockDirName choice.blockId) =
          some (some block) →
        ∀ seriesId, ∀ sample ∈ block.samplesOf seriesId,
          sample ∈ state.store.samplesOf seriesId ∨
            state.PersistsElsewhere (blockDirName choice.blockId) seriesId
              sample

/-- Writes are safe, and so are ticks below the threshold. -/
def Safe (manager : FlushManager) (state : FlushState json) :
    FlushOperation → Prop
  | .memory _ => True
  | .flush choice => state.FlushSafe choice
  | .tick choice =>
    manager.blockSizeThreshold ≤ state.store.stats.totalSamples →
      state.FlushSafe choice

section Flush

variable {before after : FlushState json} {choice : FlushChoice}

theorem FlushState.Flushes.persists_iff
    {block : StoredBlock json} (flushes : before.Flushes choice after block)
    (seriesId : TimeSeriesId) (sample : Sample) :
    after.Persists seriesId sample ↔
      sample ∈ before.store.samplesOf seriesId ∨
        before.PersistsElsewhere (blockDirName choice.blockId) seriesId
          sample := by
  rw [FlushState.Persists, flushes.blocks, Option.getD_some]
  constructor
  · rintro ⟨name, found, isFound, held⟩
    by_cases same : name = blockDirName choice.blockId
    · subst same
      rw [AList.lookup_insert, Option.some.injEq, Option.some.injEq] at isFound
      subst isFound
      rw [flushes.samplesOf] at held
      exact .inl held
    · rw [AList.lookup_insert_ne same] at isFound
      exact .inr ⟨name, found, same, isFound, held⟩
  · rintro (inMemory | ⟨name, found, different, isFound, held⟩)
    · refine ⟨_, block, AList.lookup_insert _, ?_⟩
      rw [flushes.samplesOf]
      exact inMemory
    · exact ⟨name, found,
        (AList.lookup_insert_ne different).trans isFound, held⟩

theorem FlushState.persists_iff
    (state : FlushState json) (name : String) (seriesId : TimeSeriesId)
    (sample : Sample) :
    state.Persists seriesId sample ↔
      (∃ block,
        (state.blocks.getD ∅).lookup name = some (some block) ∧
          sample ∈ block.samplesOf seriesId) ∨
        state.PersistsElsewhere name seriesId sample := by
  constructor
  · rintro ⟨other, block, found, held⟩
    by_cases same : other = name
    · subst same
      exact .inl ⟨block, found, held⟩
    · exact .inr ⟨other, block, same, found, held⟩
  · rintro (⟨block, found, held⟩ | ⟨other, block, _, found, held⟩)
    · exact ⟨name, block, found, held⟩
    · exact ⟨other, block, found, held⟩

theorem FlushState.not_persists_of_blocks_eq_none
    {state : FlushState json} (removed : state.blocks = none)
    (seriesId : TimeSeriesId) (sample : Sample) :
    ¬ state.Persists seriesId sample := by
  rintro ⟨name, block, found, _⟩
  rw [removed, Option.getD_none, AList.lookup_empty] at found
  cases found

theorem blocks_of_holdsNothing
    (indexed : before.store.head.Indexed) (nothing : before.store.HoldsNothing)
    (choice : FlushChoice) :
    (before.flushMemstore codec choice).2.blocks = none := by
  rcases before.flushMemstore_cases codec indexed choice with
    ⟨_, ran⟩ | ⟨holds, _⟩ | ⟨holds, _⟩
  · rw [ran]
  · exact absurd nothing holds
  · exact absurd nothing holds

theorem flushMemstore_keeps_iff
    (indexed : before.store.head.Indexed) {info : FlushedBlockInfo}
    (flushed : before.flushMemstore codec choice = (.ok info, after)) :
    before.Keeps after ↔ before.FlushSafe choice := by
  rcases before.flushMemstore_cases codec indexed choice with
    ⟨nothing, ran⟩ | ⟨_, _, _, failed, _⟩ |
      ⟨someSample, _, _, block, ran, flushes⟩
  · rw [ran] at flushed
    cases flushed
    constructor
    · intro keeps
      have noneBefore : ∀ seriesId sample, ¬ before.Persists seriesId sample :=
        fun seriesId sample persists =>
          FlushState.not_persists_of_blocks_eq_none rfl seriesId sample
            (keeps seriesId sample persists)
      exact ⟨fun _ => noneBefore,
        fun block found seriesId sample held =>
          (noneBefore seriesId sample ⟨_, block, found, held⟩).elim⟩
    · intro safe seriesId sample persists
      exact absurd persists (safe.findsSample nothing seriesId sample)
  · rw [failed] at flushed
    cases flushed
  · rw [ran] at flushed
    cases flushed
    constructor
    · intro keeps
      refine ⟨fun nothing => absurd nothing someSample, ?_⟩
      intro old found seriesId sample held
      rw [← flushes.persists_iff]
      exact keeps seriesId sample ⟨_, old, found, held⟩
    · intro safe seriesId sample persists
      rw [flushes.persists_iff]
      rcases (before.persists_iff (blockDirName choice.blockId) seriesId
        sample).mp persists with ⟨old, found, held⟩ | elsewhere
      · exact safe.freshId old found seriesId sample held
      · exact .inr elsewhere

theorem FlushState.FlushSafe.keeps
    (safe : before.FlushSafe choice) (indexed : before.store.head.Indexed) :
    before.Keeps (before.flushMemstore codec choice).2 := by
  rcases ran : before.flushMemstore codec choice with ⟨result, after⟩
  cases result with
  | ok info => exact (flushMemstore_keeps_iff indexed ran).mpr safe
  | error fault =>
    rcases before.flushMemstore_cases codec indexed choice with
      ⟨_, succeeded⟩ | ⟨_, _, left, failed, same⟩ | ⟨_, _, _, _, succeeded, _⟩
    · rw [succeeded] at ran
      cases ran
    · rw [failed] at ran
      cases ran
      rintro seriesId sample ⟨name, block, found, held⟩
      exact ⟨name, block, (same name block).mpr found, held⟩
    · rw [succeeded] at ran
      cases ran

end Flush

section Runs

variable {before after : FlushState json}

theorem FlushStep.keeps
    (indexed : before.store.head.Indexed) {operation : FlushOperation}
    (safe : Safe manager before operation)
    (step : FlushStep codec hasher manager before operation after) :
    before.Keeps after := by
  cases step
  cases operation with
  | memory operation =>
    exact fun _ _ persists => persists
  | flush choice => exact safe.keeps indexed
  | tick choice =>
    rw [FlushOperation.run]
    rcases @checkAndFlush_cases json codec manager before choice with
      ⟨_, same⟩ | ⟨reached, same⟩
    · rw [same]
      exact fun _ _ persists => persists
    · rw [same]
      exact (safe reached).keeps indexed

theorem keeps_of_run {operations : List FlushOperation}
    (run :
      Run (Restrict (FlushStep codec hasher manager) (Safe manager)) before
        operations after)
    (indexed : before.store.head.Indexed) :
    before.Keeps after := by
  induction run with
  | nil state =>
    exact fun _ _ persists => persists
  | cons first later inductionHypothesis =>
    obtain ⟨safe, step⟩ := first
    have keepsFirst := step.keeps indexed safe
    have keepsLater := inductionHypothesis (step.indexed indexed)
    exact fun seriesId sample persists =>
      keepsLater seriesId sample (keepsFirst seriesId sample persists)

def SuccessfulFlush
    (codec : WalCodec) (manager : FlushManager) (before : FlushState json)
    (operation : FlushOperation) (after : FlushState json) :
    Prop :=
  ∃ choice info,
    before.flushMemstore codec choice = (.ok info, after) ∧
      (operation = .flush choice ∨
        operation = .tick choice ∧
          manager.blockSizeThreshold ≤ before.store.stats.totalSamples)

theorem SuccessfulFlush.persists
    (indexed : before.store.head.Indexed) {operation : FlushOperation}
    (flushed : SuccessfulFlush codec manager before operation after)
    {seriesId : TimeSeriesId} {sample : Sample}
    (held : sample ∈ before.store.samplesOf seriesId) :
    after.Persists seriesId sample ∧ after.store.head.Indexed := by
  obtain ⟨choice, info, flushed, _⟩ := flushed
  rcases before.flushMemstore_cases codec indexed choice with
    ⟨nothing, _⟩ | ⟨_, _, _, failed, _⟩ | ⟨_, _, _, _, ran, flushes⟩
  · rw [nothing seriesId] at held
    cases held
  · rw [failed] at flushed
    cases flushed
  · rw [ran] at flushed
    cases flushed
    exact ⟨(flushes.persists_iff seriesId sample).mpr (.inl held),
      flushes.indexed⟩

end Runs

open Query

theorem executeVectorQuery_of_holdsNothing
    {store : MemStore} (nothing : store.HoldsNothing) (config : ParallelConfig)
    (plan : VectorQueryPlan) (ctx : ExecutionContext) :
    executeVectorQuery config store plan ctx = [] := by
  have queried := executeVectorQuery_eq config store plan ctx
  rw [queried]
  exact MemStore.queryWithDownsample_of_holdsNothing nothing _ _ _ _

/-- The query for all series at one point in time. -/
def instantQuery : VectorQueryPlan where
  matchers := []
  atTimestamp := none
  offset := none

def instant (timestamp : Timestamp) : ExecutionContext where
  start := timestamp
  stop := timestamp

theorem executeVectorQuery_instant
    {store : MemStore} (indexed : store.head.Indexed) {seriesId : TimeSeriesId}
    {sample : Sample} (held : sample ∈ store.samplesOf seriesId)
    (config : ParallelConfig) :
    executeVectorQuery config store instantQuery
        (instant sample.timestamp) ≠ [] := by
  have inRange : sample.inRange sample.timestamp sample.timestamp = true := by
    simp [Sample.inRange]
  have queried :=
    executeVectorQuery_eq config store instantQuery (instant sample.timestamp)
  rw [queried]
  exact MemStore.queryWithDownsample_of_mem indexed held inRange _

/-- Nothing is executed in parallel. -/
def sequentialConfig : ParallelConfig where
  enableParallel := false
  enableSeriesParallel := false
  enableTimeParallel := false
  minSeriesForParallel := 0
  minTimeRangeForParallelMs := 0

theorem flushMemstore_invisible_iff
    {before after : FlushState json} {choice : FlushChoice}
    {info : FlushedBlockInfo} (indexed : before.store.head.Indexed)
    (flushed : before.flushMemstore codec choice = (.ok info, after)) :
    (∀ config plan ctx,
        (executeVectorQuery config after.store plan ctx).Perm
          (executeVectorQuery config before.store plan ctx)) ↔
      before.store.HoldsNothing := by
  constructor
  · intro invisible seriesId
    by_contra holds
    obtain ⟨sample, held⟩ := List.exists_mem_of_ne_nil _ holds
    rcases before.flushMemstore_cases codec indexed choice with
      ⟨nothing, _⟩ | ⟨_, _, _, failed, _⟩ | ⟨_, _, written, block, ran, flushes⟩
    · rw [nothing seriesId] at holds
      exact holds rfl
    · rw [failed] at flushed
      cases flushed
    · rw [ran] at flushed
      cases flushed
      have same :=
        invisible sequentialConfig instantQuery (instant sample.timestamp)
      rw [executeVectorQuery_of_holdsNothing flushes.holdsNothing] at same
      exact executeVectorQuery_instant indexed held sequentialConfig
        same.nil_eq.symm
  · intro nothing config plan ctx
    rcases before.flushMemstore_cases codec indexed choice with
      ⟨_, ran⟩ | ⟨holds, _⟩ | ⟨holds, _⟩
    · rw [ran] at flushed
      cases flushed
      exact List.Perm.refl _
    · exact absurd nothing holds
    · exact absurd nothing holds

/--
In every reachable state a successful flush is invisible to all vector queries
exactly when memory held no sample.
-/
theorem flush_invisible_to_queries_iff {config : MemStore.StorageConfig}
    {dataDir : Option SegmentDir} {created : ℕ → UInt64} {millis : Timestamp}
    {blocks : Option (BlocksDir json)} {operations : List FlushOperation}
    {before after : FlushState json}
    (run :
      Run (FlushStep codec hasher manager)
        (FlushState.initial codec config dataDir created millis blocks)
        operations before)
    {choice : FlushChoice}
    {info : FlushedBlockInfo}
    (flushed : before.flushMemstore codec choice = (.ok info, after)) :
    (∀ parallel plan ctx,
        (executeVectorQuery parallel after.store plan ctx).Perm
          (executeVectorQuery parallel before.store plan ctx)) ↔
      ∀ seriesId, before.store.samplesOf seriesId = [] :=
  flushMemstore_invisible_iff (indexed_of_run run) flushed

theorem flush_invisible_of_empty_series :
    ∃ info after,
      Run (FlushStep jsonCodec SipHash.hash ⟨100000⟩) freshState
          [.memory (.write (exampleWrite []))] (writtenState []) ∧
        (writtenState []).flushMemstore jsonCodec (exampleChoice 5) =
          (.ok info, after) ∧
        ∀ parallel plan ctx,
          (executeVectorQuery parallel after.store plan ctx).Perm
            (executeVectorQuery parallel (writtenState []).store plan ctx) := by
  have run := run_writtenState [] ⟨100000⟩
  have nothing : (writtenState []).store.HoldsNothing := by
    refine ((absorbs_writtenState []).holdsNothing_iff
      (MemStore.holdsNothing_new _ _ _ _)).mpr ?_
    simp [exampleWrite]
  rcases (writtenState []).flushMemstore_cases jsonCodec
      (indexed_of_run run) (exampleChoice 5) with
    ⟨_, ran⟩ | ⟨holds, _⟩ | ⟨holds, _⟩
  · exact ⟨_, _, run, ran,
      (flush_invisible_to_queries_iff run ran).mpr nothing⟩
  · exact absurd nothing holds
  · exact absurd nothing holds

/-- One sample is written and flushed, and the next query does not find it. -/
theorem flush_hides_sample :
    ¬ ∀ operations before,
      Run (FlushStep jsonCodec SipHash.hash ⟨100000⟩) freshState operations
          before →
        ∀ choice info after,
          before.flushMemstore jsonCodec choice = (.ok info, after) →
            ∀ parallel plan ctx,
              (executeVectorQuery parallel after.store plan ctx).Perm
                (executeVectorQuery parallel before.store plan ctx) := by
  intro invisible
  obtain ⟨info, after, flushed⟩ := exists_flush_writtenState
  have run := run_writtenState Json.samples ⟨100000⟩
  have nothing :=
    (flushMemstore_invisible_iff (indexed_of_run run) flushed).mp
      (invisible _ _ run _ _ _ flushed)
  have held := mem_samplesOf_writtenState
  rw [nothing Json.seriesId] at held
  cases held

end ChronoDB.Flush
