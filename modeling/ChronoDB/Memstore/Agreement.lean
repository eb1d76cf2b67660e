import ChronoDB.Index.Lookup
import ChronoDB.Memstore.Restart

namespace ChronoDB.Memstore

open Library Index Wal

/-!
# The series table and the index agree

The operations of the head block keep the ids of the table and of the index the
same, also when they fail, and keep the id sets of the index exact.  A search by
matchers therefore finds the series whose labels have all of them.
-/

inductive HeadOperation where
  | getOrCreateSeries (labels : Labels)
  | addSample (seriesId : TimeSeriesId) (sample : Sample)
  | removeSeries (seriesId : TimeSeriesId)
  | removeSeriesBatch (seriesIds : List TimeSeriesId)
  deriving Repr, DecidableEq

/-- The head block after an operation; an error leaves it as it was. -/
def HeadOperation.run (hasher : Bytes → TimeSeriesId) (head : HeadBlock) :
    HeadOperation → Except Error Unit × HeadBlock
  | .getOrCreateSeries labels =>
    match head.getOrCreateSeries hasher labels with
    | .error cause => (.error cause, head)
    | .ok (_, after) => (.ok (), after)
  | .addSample seriesId sample =>
    match head.addSample seriesId sample with
    | .error cause => (.error cause, head)
    | .ok after => (.ok (), after)
  | .removeSeries seriesId =>
    match head.removeSeries seriesId with
    | .error cause => (.error cause, head)
    | .ok after => (.ok (), after)
  | .removeSeriesBatch seriesIds => (.ok (), head.removeSeriesBatch seriesIds)

/-- One operation with any outcome. -/
def HeadStep (hasher : Bytes → TimeSeriesId) (before : HeadBlock)
    (operation : HeadOperation) (after : HeadBlock) :
    Prop :=
  (operation.run hasher before).2 = after

/-- The table and the index have the same series, and there is room for them. -/
structure HeadBlock.Agrees (config : HeadConfig) (head : HeadBlock) : Prop where
  sameConfig : head.config = config
  indexed : head.Indexed
  exact : head.index.Exact
  bounded : head.seriesCount ≤ config.maxSeries

namespace HeadBlock.Agrees

variable {config : HeadConfig} {head after : HeadBlock}
variable {seriesId : TimeSeriesId}

theorem new (config : HeadConfig) : Agrees config (HeadBlock.new config) where
  sameConfig := rfl
  indexed := .new config
  exact := .empty
  bounded := Nat.zero_le _

theorem getOrCreateSeries
    (agrees : Agrees config head) {hasher : Bytes → TimeSeriesId}
    {labels : Labels}
    (created :
      head.getOrCreateSeries hasher labels = .ok (seriesId, after)) :
    Agrees config after := by
  obtain ⟨_, sameConfig, _, indexed⟩ := lookup_of_getOrCreateSeries created
  have ofParts :
      after.index.Exact → after.seriesCount ≤ config.maxSeries →
        Agrees config after :=
    fun exact bounded =>
      ⟨sameConfig.trans agrees.sameConfig, indexed agrees.indexed, exact,
        bounded⟩
  rw [HeadBlock.getOrCreateSeries] at created
  cases found : head.series.lookup (calculateSeriesId hasher labels) with
  | some entry =>
    simp only [found, Except.ok.injEq, Prod.mk.injEq] at created
    rw [← created.2] at ofParts ⊢
    exact ofParts agrees.exact agrees.bounded
  | none =>
    have unknown :
        head.index.seriesLabels.lookup
          (calculateSeriesId hasher labels) = none := by
      rw [agrees.indexed, getSeriesLabels, found]
      rfl
    simp only [found, addSeries] at created
    by_cases full : head.config.maxSeries ≤ head.series.keys.length
    · simp [full] at created
    · simp only [full, if_false, Except.ok.injEq, Prod.mk.injEq]
        at created
      rw [← created.2] at ofParts ⊢
      refine ofParts (agrees.exact.addSeries unknown labels) ?_
      rw [agrees.sameConfig, not_le] at full
      rw [seriesCount, FiniteMap.length_keys_insert, found]
      exact full

theorem addSample (agrees : Agrees config head) {sample : Sample}
    (added : head.addSample seriesId sample = .ok after) :
    Agrees config after := by
  have indexed := agrees.indexed.addSample added
  obtain ⟨entry, found, rfl⟩ := lookup_of_addSample added
  refine ⟨agrees.sameConfig, indexed, agrees.exact, ?_⟩
  rw [seriesCount, FiniteMap.length_keys_insert, found]
  exact agrees.bounded

theorem dropSeries (agrees : Agrees config head) (seriesId : TimeSeriesId) :
    Agrees config (head.dropSeries seriesId) := by
  have indexed := agrees.indexed.dropSeries seriesId
  rw [HeadBlock.dropSeries] at indexed ⊢
  cases found : head.series.lookup seriesId with
  | none => exact agrees
  | some entry =>
    rw [found] at indexed
    exact ⟨agrees.sameConfig, indexed,
      agrees.exact.removeSeries seriesId,
      (FiniteMap.length_keys_erase_le _ _).trans agrees.bounded⟩

theorem removeSeriesBatch
    (agrees : Agrees config head) (seriesIds : List TimeSeriesId) :
    Agrees config (head.removeSeriesBatch seriesIds) := by
  rw [HeadBlock.removeSeriesBatch]
  induction seriesIds generalizing head with
  | nil => exact agrees
  | cons first rest inductionHypothesis =>
    exact inductionHypothesis (agrees.dropSeries first)

theorem ofStep (agrees : Agrees config head) {hasher : Bytes → TimeSeriesId}
    {operation : HeadOperation} (step : HeadStep hasher head operation after) :
    Agrees config after := by
  cases step
  cases operation with
  | getOrCreateSeries labels =>
    rw [HeadOperation.run]
    split
    · exact agrees
    · rename_i created
      exact agrees.getOrCreateSeries created
  | addSample seriesId sample =>
    rw [HeadOperation.run]
    split
    · exact agrees
    · rename_i added
      exact agrees.addSample added
  | removeSeries seriesId =>
    rw [HeadOperation.run]
    split
    · exact agrees
    · rename_i removed
      rw [HeadBlock.removeSeries] at removed
      split at removed
      · cases removed
      · cases removed
        exact agrees.dropSeries seriesId
  | removeSeriesBatch seriesIds => exact agrees.removeSeriesBatch seriesIds

theorem ofRun {hasher : Bytes → TimeSeriesId} {operations : List HeadOperation}
    (run : Run (HeadStep hasher) (HeadBlock.new config) operations head) :
    Agrees config head :=
  run.preserves (fun agrees step => agrees.ofStep step) (.new config)

end HeadBlock.Agrees

/-!
## Searching by matchers
-/

theorem foldl_intersect
    (index : InvertedIndex) (matchers : List (String × String))
    {found : List TimeSeriesId} (distinct : found.Nodup) :
    (matchers.foldl
        (fun previous matcher =>
          let series := index.lookup matcher.1 matcher.2
          previous.dedup.filter fun seriesId => seriesId ∈ series)
        found).Nodup ∧
      ∀ seriesId,
        seriesId ∈ matchers.foldl
            (fun previous matcher =>
              let series := index.lookup matcher.1 matcher.2
              previous.dedup.filter fun seriesId => seriesId ∈ series)
            found ↔
          seriesId ∈ found ∧
            ∀ matcher ∈ matchers,
              seriesId ∈ index.lookup matcher.1 matcher.2 := by
  induction matchers generalizing found with
  | nil => exact ⟨distinct, by simp⟩
  | cons matcher rest inductionHypothesis =>
    obtain ⟨distinctAll, members⟩ :=
      inductionHypothesis
        (found.nodup_dedup.filter fun seriesId =>
          seriesId ∈ index.lookup matcher.1 matcher.2)
    refine ⟨distinctAll, fun seriesId => ?_⟩
    rw [List.foldl_cons, members, List.forall_mem_cons, ← and_assoc]
    simp

theorem MemStore.findSeries_exact
    {config : HeadConfig} {store : MemStore} (agrees : store.head.Agrees config)
    (matchers : List (String × String)) :
    (store.findSeries matchers).Nodup ∧
      ∀ seriesId,
        seriesId ∈ store.findSeries matchers ↔
          ∃ entry,
            store.head.series.lookup seriesId = some entry ∧
              ∀ matcher ∈ matchers, ⟨matcher.1, matcher.2⟩ ∈ entry.labels := by
  -- a lookup in the index is a question about the labels of the entry
  have inIndex :
      ∀ seriesId name value,
        seriesId ∈ store.head.index.lookup name value ↔
          ∃ entry,
            store.head.series.lookup seriesId = some entry ∧
              ⟨name, value⟩ ∈ entry.labels := by
    intro seriesId name value
    rw [agrees.exact.mem_lookup_iff, agrees.indexed, HeadBlock.getSeriesLabels]
    cases store.head.series.lookup seriesId <;> simp
  cases matchers with
  | nil =>
    refine ⟨store.head.index.seriesLabels.keys_nodup, fun seriesId => ?_⟩
    rw [findSeries, agrees.indexed.mem_allSeriesIds, Option.isSome_iff_exists]
    simp
  | cons first rest =>
    obtain ⟨distinct, members⟩ :=
      foldl_intersect store.head.index rest
        (agrees.exact.distinct first.1 first.2)
    refine ⟨distinct, fun seriesId => ?_⟩
    rw [findSeries]
    refine (members seriesId).trans ?_
    simp only [inIndex, List.forall_mem_cons]
    cases store.head.series.lookup seriesId <;> simp

/--
After any operations the table and the index have the same ids, there are no
more series than the configuration allows, and every search finds exactly the
series in memory whose labels have all matchers, each once.
-/
theorem store_and_index_agree {hasher : Bytes → TimeSeriesId}
    {config : HeadConfig} {operations : List HeadOperation} {head : HeadBlock}
    (run : Run (HeadStep hasher) (HeadBlock.new config) operations head) :
    (∀ seriesId,
        seriesId ∈ head.series.keys ↔ seriesId ∈ head.index.allSeriesIds) ∧
      head.seriesCount ≤ config.maxSeries ∧
      ∀ store : MemStore, store.head = head →
        ∀ matchers,
          (store.findSeries matchers).Nodup ∧
            ∀ seriesId,
              seriesId ∈ store.findSeries matchers ↔
                ∃ entry,
                  head.series.lookup seriesId = some entry ∧
                    ∀ matcher ∈ matchers,
                      ⟨matcher.1, matcher.2⟩ ∈ entry.labels := by
  have agrees : head.Agrees config := .ofRun run
  refine ⟨fun seriesId => ?_, agrees.bounded, ?_⟩
  · rw [agrees.indexed.mem_allSeriesIds, ← AList.mem_keys, AList.lookup_isSome]
  · rintro store rfl matchers
    exact MemStore.findSeries_exact agrees matchers

theorem created_series_is_found :
    ∃ head,
      Run (HeadStep SipHash.hash) (HeadBlock.new ⟨1⟩)
          [.getOrCreateSeries Json.labels,
            .addSample Json.seriesId ⟨1000, 1⟩] head ∧
        ∀ store : MemStore, store.head = head →
          Json.seriesId ∈ store.findSeries [("job", "test")] := by
  have run :
      Run (HeadStep SipHash.hash) (HeadBlock.new ⟨1⟩)
        [.getOrCreateSeries Json.labels,
          .addSample Json.seriesId ⟨1000, 1⟩] _ :=
    .cons rfl (.single rfl)
  refine ⟨_, run, fun store isHead => ?_⟩
  refine (((store_and_index_agree run).2.2 store isHead _).2 _).mpr ?_
  have found :
      ((((HeadOperation.addSample Json.seriesId ⟨1000, 1⟩).run SipHash.hash
          ((HeadOperation.getOrCreateSeries Json.labels).run SipHash.hash
            (HeadBlock.new ⟨1⟩)).2).2.series.lookup
              Json.seriesId).map TimeSeriesEntry.labels) =
        some Json.labels := by
    decide +kernel
  obtain ⟨entry, isEntry, isLabels⟩ := Option.map_eq_some_iff.mp found
  refine ⟨entry, isEntry, ?_⟩
  simp [isLabels, Json.labels]

end ChronoDB.Memstore
