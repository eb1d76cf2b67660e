import ChronoDB.Library.SipHash
import ChronoDB.Memstore.Store

namespace ChronoDB.Memstore

open Library Wal Columnstore

/-!
# Restarts

Opening a store creates an empty head block and opens the log for appending; no
function of the start-up path reads the log.  A restart therefore answers
queries as before only when the writes before it held no sample.
-/

/-- The write calls of a store. -/
inductive MemOperation where
  | write (series : SeriesWrite)
  | writeBatch (batch : List SeriesWrite)
  deriving Repr, DecidableEq

namespace MemOperation

variable (codec : WalCodec) (hasher : Bytes → TimeSeriesId)

def run (store : MemStore) : MemOperation → Except Error Unit × MemStore
  | .write series => store.write codec hasher series
  | .writeBatch batch => store.writeBatch codec hasher batch

def writes : MemOperation → List SeriesWrite
  | .write series => [series]
  | .writeBatch batch => batch

end MemOperation

/-- One write call that returns `Ok`. -/
def MemStep
    (codec : WalCodec) (hasher : Bytes → TimeSeriesId) (before : MemStore)
    (operation : MemOperation) (after : MemStore) :
    Prop :=
  operation.run codec hasher before = (.ok (), after)

namespace MemStore

/-- What a store leaves in its data directory. -/
def dataDir (store : MemStore) : Option SegmentDir :=
  store.wal.map WalState.dir

variable {codec : WalCodec} {hasher : Bytes → TimeSeriesId}

theorem Absorbs.ofStep {before after : MemStore} {operation : MemOperation}
    (step : MemStep codec hasher before operation after) :
    Absorbs hasher before after operation.writes := by
  cases operation with
  | write series => exact .ofWrite step
  | writeBatch batch => exact .ofWriteBatch step

theorem Absorbs.ofRun
    {initial final : MemStore} {operations : List MemOperation}
    (run : Run (MemStep codec hasher) initial operations final) :
    Absorbs hasher initial final (operations.flatMap MemOperation.writes) := by
  induction run with
  | nil store => exact .refl store
  | cons first later inductionHypothesis =>
    exact (Absorbs.ofStep first).trans inductionHypothesis

theorem Absorbs.holdsNothing_iff
    {before after : MemStore} {writes : List SeriesWrite}
    (absorbs : Absorbs hasher before after writes)
    (nothing : before.HoldsNothing) :
    after.HoldsNothing ↔ ∀ write ∈ writes, write.samples = [] := by
  have content :
      ∀ seriesId,
        after.samplesOf seriesId = [] ↔
          writtenTo hasher seriesId writes = [] := by
    intro seriesId
    have permuted := absorbs.samplesOf seriesId
    rw [nothing seriesId, List.nil_append] at permuted
    constructor
    · intro empty
      rw [empty] at permuted
      exact permuted.nil_eq.symm
    · intro empty
      rw [empty] at permuted
      exact permuted.eq_nil
  constructor
  · intro empty write member
    have underId :=
      (content (calculateSeriesId hasher write.labels)).mp (empty _)
    rw [writtenTo, List.flatMap_eq_nil_iff] at underId
    simpa using underId write member
  · intro allEmpty seriesId
    rw [content, writtenTo, List.flatMap_eq_nil_iff]
    intro write member
    split
    · exact allEmpty write member
    · rfl

/--
Two stores of which one holds nothing answer all undownsampled queries alike
exactly when the other holds nothing, too.
-/
theorem queries_perm_iff {empty store : MemStore} (nothing : empty.HoldsNothing)
    (indexed : store.head.Indexed) :
    (∀ matchers start stop,
        (empty.queryWithDownsample matchers start stop .l0).Perm
          (store.queryWithDownsample matchers start stop .l0)) ↔
      store.HoldsNothing := by
  constructor
  · intro alike seriesId
    by_contra holds
    obtain ⟨sample, held⟩ := List.exists_mem_of_ne_nil _ holds
    have same := alike [] Int64.minValue Int64.maxValue
    rw [queryWithDownsample_of_holdsNothing nothing] at same
    exact queryWithDownsample_of_mem indexed held
      (Sample.inRange_full sample) .l0 same.nil_eq.symm
  · intro nothingHeld matchers start stop
    rw [queryWithDownsample_of_holdsNothing nothing,
      queryWithDownsample_of_holdsNothing nothingHeld]

/--
A store that was flushed and opened again answers all undownsampled queries as
before exactly when the writes it had absorbed were empty.
-/
theorem queries_after_restart_iff
    {config : StorageConfig} {dataDir : Option SegmentDir}
    {created : ℕ → UInt64} {millis : Timestamp} {writes : List SeriesWrite}
    {final : MemStore}
    (absorbs :
      Absorbs hasher (new codec config dataDir created millis) final writes)
    (createdLater : ℕ → UInt64) (millisLater : Timestamp) :
    let flushed := (final.flush codec).2
    let restarted := new codec config flushed.dataDir createdLater millisLater
    (∀ matchers start stop,
        (restarted.queryWithDownsample matchers start stop .l0).Perm
          (flushed.queryWithDownsample matchers start stop .l0)) ↔
      ∀ write ∈ writes, write.samples = [] := by
  intro flushed restarted
  have sameHead : flushed.head = final.head := head_flush final
  have indexed : flushed.head.Indexed := by
    rw [sameHead]
    exact absorbs.indexed (HeadBlock.Indexed.new _)
  have sameContent : flushed.HoldsNothing ↔ final.HoldsNothing := by
    simp only [HoldsNothing, MemStore.samplesOf, sameHead]
  rw [queries_perm_iff (holdsNothing_new _ _ _ _) indexed, sameContent,
    absorbs.holdsNothing_iff (holdsNothing_new _ _ _ _)]

end MemStore

open MemStore

/--
After a restart all queries answer as before exactly when no acknowledged write
held a sample.
-/
theorem restart_preserves_queries_iff {codec : WalCodec}
    {hasher : Bytes → TimeSeriesId} {config : StorageConfig}
    {dataDir : Option SegmentDir} {created : ℕ → UInt64} {millis : Timestamp}
    {operations : List MemOperation} {final : MemStore}
    (run :
      Run (MemStep codec hasher)
        (MemStore.new codec config dataDir created millis) operations final)
    (createdLater : ℕ → UInt64)
    (millisLater : Timestamp) :
    let flushed := (final.flush codec).2
    let restarted :=
      MemStore.new codec config flushed.dataDir createdLater millisLater
    (∀ matchers start stop,
        (restarted.queryWithDownsample matchers start stop .l0).Perm
          (flushed.queryWithDownsample matchers start stop .l0)) ↔
      ∀ write ∈ operations.flatMap MemOperation.writes, write.samples = [] :=
  queries_after_restart_iff (Absorbs.ofRun run) createdLater millisLater

/-- The configuration that a server opens its store with. -/
def MemStore.StorageConfig.default : StorageConfig where
  memstoreSize := 4 * 1024 * 1024 * 1024

/-- A store that was opened in a directory without segments. -/
def freshStore (dataDir : Option SegmentDir) : MemStore :=
  MemStore.new jsonCodec .default dataDir (fun _ => 0) 1000

/-- The labels of the logged sample entry, with samples of choice. -/
def exampleWrite (samples : List Sample) : SeriesWrite where
  labels := Json.labels
  samples := samples
  clock := {
    millis := 2000
    now := 2
    rotation := ⟨2, 2000⟩
  }

theorem exists_run_freshStore {dataDir : Option SegmentDir}
    (firstOpening : ∀ dir, dataDir = some dir → dir = ∅)
    (samples : List Sample) :
    ∃ final,
      Run (MemStep jsonCodec SipHash.hash) (freshStore dataDir)
        [.write (exampleWrite samples)] final := by
  have room :
      (freshStore dataDir).head.seriesCount <
        (freshStore dataDir).head.config.maxSeries := by
    change 0 < StorageConfig.default.memstoreSize / 1024
    decide
  obtain ⟨final, written⟩ :=
    @exists_write jsonCodec SipHash.hash _
      (logReady_new _ dataDir firstOpening _ _) room (exampleWrite samples)
  exact ⟨final, Run.single written⟩

/-- A write without samples is as invisible after a restart as before it. -/
theorem restart_preserves_queries_of_empty_write :
    ∃ final,
      Run (MemStep jsonCodec SipHash.hash) (freshStore (some ∅))
          [.write (exampleWrite [])] final ∧
        let flushed := (final.flush jsonCodec).2
        let restarted :=
          MemStore.new jsonCodec .default flushed.dataDir (fun _ => 1) 3000
        ∀ matchers start stop,
          (restarted.queryWithDownsample matchers start stop .l0).Perm
            (flushed.queryWithDownsample matchers start stop .l0) := by
  obtain ⟨final, run⟩ :=
    exists_run_freshStore (fun _ present => (Option.some.inj present).symm) []
  refine ⟨final, run,
    (restart_preserves_queries_iff run (fun _ => 1) 3000).mpr ?_⟩
  simp [MemOperation.writes, exampleWrite]

/--
One sample is written to a store with a log, the log is synced, and the store
that is opened on the same directory answers some query differently.
-/
theorem restart_loses_written_sample :
    ¬ ∀ final,
      Run (MemStep jsonCodec SipHash.hash) (freshStore (some ∅))
          [.write (exampleWrite Json.samples)] final →
        let flushed := (final.flush jsonCodec).2
        let restarted :=
          MemStore.new jsonCodec .default flushed.dataDir (fun _ => 1) 3000
        ∀ matchers start stop,
          (restarted.queryWithDownsample matchers start stop .l0).Perm
            (flushed.queryWithDownsample matchers start stop .l0) := by
  intro survives
  obtain ⟨final, run⟩ :=
    exists_run_freshStore (fun _ present => (Option.some.inj present).symm)
      Json.samples
  have empty :=
    (queries_after_restart_iff (Absorbs.ofRun run) (fun _ => 1) 3000).mp
      (survives final run) (exampleWrite Json.samples)
      (by simp [MemOperation.writes])
  simp [exampleWrite, Json.samples] at empty

end ChronoDB.Memstore
