import ChronoDB.Memstore.Admission

namespace ChronoDB.Memstore

open Library Wal

/-!
# Batches that fail

A batch stops at its first failing write and keeps what it did before that.  The
statistics are not touched, but the head block holds the samples written before
the failure, and it may hold a new series without samples.
-/

namespace MemStore

/-- Two states of a store with the same series, index and statistics. -/
structure Unchanged (before after : MemStore) : Prop where
  series :
    ∀ seriesId,
      after.head.series.lookup seriesId = before.head.series.lookup seriesId
  index : after.head.index = before.head.index
  stats : after.stats = before.stats

/-- Writes without samples to series that are in memory. -/
def Quiet (hasher : Bytes → TimeSeriesId) (store : MemStore)
    (items : List LoggedWrite) :
    Prop :=
  ∀ item ∈ items, item.seriesId hasher ∈ store.admission.ids ∧ item.samples = []

variable {codec : WalCodec} {hasher : Bytes → TimeSeriesId}
variable {store middle after : MemStore}

/-- The failing write adds no sample and removes no series. -/
theorem LeftByFailure.keeps
    {item : LoggedWrite} (left : LeftByFailure hasher store item after)
    (seriesId : TimeSeriesId) :
    (after.samplesOf seriesId).Perm (store.samplesOf seriesId) ∧
      ((store.head.series.lookup seriesId).isSome →
        (after.head.series.lookup seriesId).isSome) := by
  have head := left.head
  split at head
  · rw [samplesOf, samplesOf, head]
    exact ⟨.refl _, id⟩
  · have grows := HeadBlock.Grows.ofGetOrCreateSeries head
    refine ⟨(grows.samplesOf seriesId).trans ?_,
      fun known => (grows.present seriesId).mpr (.inl known)⟩
    rw [ite_self, List.append_nil]
    exact .refl _

theorem samplesOf_recordWrites
    (store : MemStore) (writes samples : ℕ) (seriesId : TimeSeriesId) :
    (store.recordWrites writes samples).samplesOf seriesId =
      store.samplesOf seriesId :=
  rfl

theorem writeUnder_of_admit {item : LoggedWrite} {admitted : Admission}
    (admits : store.admission.accept codec hasher item = some admitted) :
    ∃ after,
      store.writeUnder codec hasher item = (.ok (), after) ∧
        after.admission = admitted ∧
          ∀ seriesId,
            (after.samplesOf seriesId).Perm
              (store.samplesOf seriesId ++
                if item.seriesId hasher = seriesId then item.samples
                else []) := by
  obtain ⟨written, succeeds, isAdmitted, adds⟩ :=
    writeSeriesUnder_of_admit admits
  refine ⟨written.recordWrites 1 item.samples.length, ?_, isAdmitted, ?_⟩
  · rw [writeUnder, succeeds]
  · intro seriesId
    have samples := adds.samplesOf seriesId
    rw [writtenTo, List.map_singleton, List.flatMap_singleton] at samples
    rw [samplesOf_recordWrites]
    exact samples

theorem writeUnder_of_refused {item : LoggedWrite}
    (refuses : store.admission.accept codec hasher item = none) :
    ∃ cause after,
      store.writeUnder codec hasher item = (.error cause, after) ∧
        ∀ seriesId,
          (after.samplesOf seriesId).Perm (store.samplesOf seriesId) := by
  obtain ⟨cause, failed, fails, left⟩ := writeSeriesUnder_of_refused refuses
  refine ⟨cause, failed, ?_, fun seriesId => (left.keeps seriesId).1⟩
  rw [writeUnder, fails]

theorem refuses_congr
    (sameHead : middle.head = store.head) (item : LoggedWrite) :
    item.seriesId hasher ∈ middle.admission.ids ∨ middle.admission.Full ↔
      item.seriesId hasher ∈ store.admission.ids ∨ store.admission.Full := by
  rw [mem_ids_iff, full_iff, sameHead, ← mem_ids_iff, ← full_iff]

theorem quiet_of_unchanged {early : List LoggedWrite} {item : LoggedWrite}
    (adds : Adds hasher store middle early)
    (left : LeftByFailure hasher middle item after)
    (unchanged : Unchanged store after) :
    Quiet hasher store early := by
  intro written member
  constructor
  · have present :=
      (adds.present (written.seriesId hasher)).mpr (.inr ⟨written, member, rfl⟩)
    rw [mem_ids_iff, ← unchanged.series]
    exact (left.keeps _).2 present
  · have perm :=
      ((left.keeps (written.seriesId hasher)).1.trans
        (adds.samplesOf _)).length_eq
    rw [samplesOf, HeadBlock.samplesOf, unchanged.series,
      List.length_append] at perm
    have nothing :
        writtenTo hasher (written.seriesId hasher)
            (early.map LoggedWrite.write) = [] :=
      List.eq_nil_of_length_eq_zero (Nat.left_eq_add.mp perm)
    rw [writtenTo, List.flatMap_eq_nil_iff] at nothing
    have own := nothing written.write (List.mem_map_of_mem member)
    rw [LoggedWrite.seriesId, if_pos rfl] at own
    exact own

/--
A batch that fails leaves the statistics as they were and adds exactly the
samples of the writes before the one it stops at.  All else is as before exactly
when those writes had no samples and their series were in memory, and the one it
stops at found its series in memory or the head block full.
-/
theorem writeBatchUnder_unchanged_iff {batch : List LoggedWrite} {cause : Error}
    (fails :
      store.writeBatchUnder codec hasher batch = (.error cause, after)) :
    ∃ early item,
      store.admission.refusal codec hasher batch = some (early, item) ∧
        after.stats = store.stats ∧
          (∀ seriesId,
            (after.samplesOf seriesId).Perm
              (store.samplesOf seriesId ++
                writtenTo hasher seriesId (early.map LoggedWrite.write))) ∧
            (Unchanged store after ↔
              Quiet hasher store early ∧
                (item.seriesId hasher ∈ store.admission.ids ∨
                  store.admission.Full)) := by
  have cases := @writeAllSeriesUnder_cases codec hasher store batch
  rw [writeBatchUnder] at fails
  cases stops : store.admission.refusal codec hasher batch with
  | none =>
    rw [stops] at cases
    obtain ⟨written, succeeds, _⟩ := cases
    simp [succeeds] at fails
  | some stop =>
    obtain ⟨early, item⟩ := stop
    rw [stops] at cases
    obtain ⟨middle, reason, failed, stopped, adds, left⟩ := cases
    rw [stopped] at fails
    obtain ⟨_, rfl⟩ := Prod.mk.inj fails
    have sameStats : failed.stats = store.stats := left.stats.trans adds.stats
    refine ⟨early, item, rfl, sameStats, fun seriesId =>
      (left.keeps seriesId).1.trans (adds.samplesOf seriesId), ?_⟩
    constructor
    · intro unchanged
      have quiet := quiet_of_unchanged adds left unchanged
      have sameHead := adds.quiet quiet
      refine ⟨quiet, ?_⟩
      by_contra neither
      have created := left.head
      rw [if_neg ((refuses_congr sameHead item).not.mpr neither),
        sameHead] at created
      have present :=
        ((HeadBlock.Grows.ofGetOrCreateSeries created).present
          (item.seriesId hasher)).mpr (.inr rfl)
      rw [unchanged.series, ← mem_ids_iff] at present
      exact neither (.inl present)
    · rintro ⟨quiet, refused⟩
      have sameHead := adds.quiet quiet
      have kept := left.head
      rw [if_pos ((refuses_congr sameHead item).mpr refused), sameHead] at kept
      exact ⟨fun _ => by rw [kept], by rw [kept], sameStats⟩

end MemStore

/-- A store without room for any series. -/
def fullStore : MemStore :=
  MemStore.new jsonCodec ⟨0⟩ none (fun _ => 0) 1000

/-- A store with room for one series. -/
def smallStore : MemStore :=
  MemStore.new jsonCodec ⟨1024⟩ none (fun _ => 0) 1000

/-- Two new series of which the first has a sample. -/
def exampleBatch : List LoggedWrite :=
  [⟨exampleWrite Json.samples, none⟩,
    ⟨{ exampleWrite [] with labels := [] }, none⟩]

theorem unchanged_after_refused_batch :
    ∃ cause after,
      fullStore.writeBatchUnder jsonCodec SipHash.hash exampleBatch =
          (.error cause, after) ∧
        MemStore.Unchanged fullStore after := by
  have fails :
      fullStore.writeBatchUnder jsonCodec SipHash.hash exampleBatch =
        (.error .storageFull, _) :=
    rfl
  refine ⟨_, _, fails, ?_⟩
  obtain ⟨early, item, stops, _, _, unchangedIff⟩ :=
    MemStore.writeBatchUnder_unchanged_iff fails
  have refused :
      fullStore.admission.refusal jsonCodec SipHash.hash exampleBatch =
        some ([], ⟨exampleWrite Json.samples, none⟩) :=
    rfl
  rw [refused, Option.some.injEq, Prod.mk.injEq] at stops
  obtain ⟨rfl, rfl⟩ := stops
  exact unchangedIff.mpr ⟨nofun, .inr (Nat.le_refl 0)⟩

/-- A batch that fails at its second write keeps the samples of the first. -/
theorem batch_not_rolled_back :
    ¬ ∀ (store : MemStore) (batch : List LoggedWrite) (cause : Error)
        (after : MemStore),
      store.writeBatchUnder jsonCodec SipHash.hash batch =
          (.error cause, after) →
        MemStore.Unchanged store after := by
  intro rolledBack
  have isError :
      (smallStore.writeBatchUnder jsonCodec SipHash.hash
        exampleBatch).1.toOption = none := by
    decide +kernel
  have isCreated :
      ((smallStore.writeBatchUnder jsonCodec SipHash.hash
        exampleBatch).2.head.series.lookup Json.seriesId).isSome := by
    decide +kernel
  rcases fails :
      smallStore.writeBatchUnder jsonCodec SipHash.hash exampleBatch with
    ⟨result, after⟩
  rw [fails] at isError isCreated
  cases result with
  | ok _ => cases isError
  | error cause =>
    have sameSeries := (rolledBack _ _ _ _ fails).series Json.seriesId
    rw [sameSeries] at isCreated
    cases isCreated

end ChronoDB.Memstore
