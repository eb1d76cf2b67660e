import ChronoDB.Memstore.Restart
import Mathlib.Data.Finset.Card

namespace ChronoDB.Memstore

open Library Wal List

/-!
# Which series writes succeed

The file system can fail any call of the log.  Whether a series write succeeds
depends on its log call, on the ids in memory and on the limit of the head
block, but not on the samples and the index.  An admission keeps only these, and
says at which of its writes a batch stops.
-/

/-- A failed log call: its error, and the log that it leaves. -/
structure LogFault where
  cause : Error
  left : WalState

/-- A series write with the failure of its log call, if there is one. -/
structure LoggedWrite where
  write : SeriesWrite
  fault : Option LogFault

namespace LoggedWrite

variable (codec : WalCodec) (hasher : Bytes → TimeSeriesId)

def seriesId (item : LoggedWrite) : TimeSeriesId :=
  calculateSeriesId hasher item.write.labels

def samples (item : LoggedWrite) : List Sample :=
  item.write.samples

/-- The log call of a series write; without a log there is none. -/
def log (item : LoggedWrite) (wal : Option WalState) :
    Except Error Unit × Option WalState :=
  match wal, item.fault with
  | none, _ => (.ok (), none)
  | some _, some fault => (.error fault.cause, some fault.left)
  | some wal, none =>
    let (result, logged) :=
      (Wal.logWrite (item.seriesId hasher) item.write.labels
        item.write.samples item.write.clock.millis item.write.clock.now
        item.write.clock.rotation).run codec wal
    (result, some logged)

end LoggedWrite

namespace MemStore

variable (codec : WalCodec) (hasher : Bytes → TimeSeriesId)

/-- `writeSeries` when the log call may fail. -/
def writeSeriesUnder (store : MemStore) (item : LoggedWrite) :
    Except Error Unit × MemStore :=
  match store.head.getOrCreateSeries hasher item.write.labels with
  | .error cause => (.error cause, store)
  | .ok (seriesId, head) =>
    match item.log codec hasher store.wal with
    | (.error cause, wal) =>
      (.error cause, { store with head := head, wal := wal })
    | (.ok (), wal) =>
      let (result, filled) :=
        addSamples head seriesId (sortByKey Sample.sortKey item.write.samples)
      (result, { store with head := filled, wal := wal })

def writeAllSeriesUnder (store : MemStore) :
    List LoggedWrite → Except Error Unit × MemStore
  | [] => (.ok (), store)
  | item :: rest =>
    match store.writeSeriesUnder codec hasher item with
    | (.error cause, failed) => (.error cause, failed)
    | (.ok (), written) => written.writeAllSeriesUnder rest

/-- `writeBatch` when the log calls may fail. -/
def writeBatchUnder (store : MemStore) (batch : List LoggedWrite) :
    Except Error Unit × MemStore :=
  match store.writeAllSeriesUnder codec hasher batch with
  | (.error cause, failed) => (.error cause, failed)
  | (.ok (), written) =>
    (.ok (), written.recordWrites batch.length
      (batch.map fun item => item.samples.length).sum)

/-- `write` when the log call may fail. -/
def writeUnder (store : MemStore) (item : LoggedWrite) :
    Except Error Unit × MemStore :=
  match store.writeSeriesUnder codec hasher item with
  | (.error cause, failed) => (.error cause, failed)
  | (.ok (), written) => (.ok (), written.recordWrites 1 item.samples.length)

variable {codec hasher}

theorem writeSeriesUnder_none (store : MemStore) (write : SeriesWrite) :
    store.writeSeriesUnder codec hasher ⟨write, none⟩ =
      store.writeSeries codec hasher write := by
  rw [writeSeriesUnder, writeSeries]
  cases created : store.head.getOrCreateSeries hasher write.labels with
  | error cause => rfl
  | ok result =>
    obtain ⟨seriesId, head⟩ := result
    have isId := (HeadBlock.lookup_of_getOrCreateSeries created).1
    subst isId
    obtain ⟨own, wal, stats⟩ := store
    cases wal with
    | none => rfl
    | some wal =>
      simp only [LoggedWrite.log, logWrite, LoggedWrite.seriesId]
      split <;> rename_i logs
      · simp only [Prod.mk.injEq] at logs
        obtain ⟨isError, rfl⟩ := logs
        simp [isError]
      · simp only [Prod.mk.injEq] at logs
        obtain ⟨isOk, rfl⟩ := logs
        simp [isOk]

theorem writeBatchUnder_none (store : MemStore) (batch : List SeriesWrite) :
    store.writeBatchUnder codec hasher (batch.map fun write => ⟨write, none⟩) =
      store.writeBatch codec hasher batch := by
  have sameSeries :
      ∀ store : MemStore,
        store.writeAllSeriesUnder codec hasher
            (batch.map fun write => ⟨write, none⟩) =
          store.writeAllSeries codec hasher batch := by
    induction batch with
    | nil =>
      exact fun _ => rfl
    | cons write rest inductionHypothesis =>
      intro store
      rw [map_cons, writeAllSeriesUnder, writeAllSeries, writeSeriesUnder_none]
      rcases store.writeSeries codec hasher write with ⟨_ | _, written⟩
      · rfl
      · exact inductionHypothesis written
  simp only [writeBatchUnder, writeBatch, sameSeries, length_map, map_map]
  rfl

end MemStore

/-!
## Admissions
-/

/-- What decides which series writes succeed. -/
structure Admission where
  ids : Finset TimeSeriesId
  maxSeries : ℕ
  wal : Option WalState

def MemStore.admission (store : MemStore) : Admission where
  ids := store.head.series.keys.toFinset
  maxSeries := store.head.config.maxSeries
  wal := store.wal

namespace Admission

variable (codec : WalCodec) (hasher : Bytes → TimeSeriesId)

/-- No new series is created at the limit. -/
def Full (admission : Admission) : Prop :=
  admission.maxSeries ≤ admission.ids.card

instance decidableFull (admission : Admission) : Decidable admission.Full :=
  inferInstanceAs (Decidable (_ ≤ _))

/-- The admission after a series write, unless it fails. -/
def accept (admission : Admission) (item : LoggedWrite) : Option Admission :=
  if item.seriesId hasher ∉ admission.ids ∧ admission.Full then
    none
  else
    match item.log codec hasher admission.wal with
    | (.error _, _) => none
    | (.ok (), wal) =>
      some {
        admission with
        ids := insert (item.seriesId hasher) admission.ids
        wal := wal
      }

/-- The write that a batch stops at, with the writes before it. -/
def refusal (admission : Admission) :
    List LoggedWrite → Option (List LoggedWrite × LoggedWrite)
  | [] => none
  | item :: rest =>
    match admission.accept codec hasher item with
    | none => some ([], item)
    | some next =>
      (next.refusal rest).map fun stop => (item :: stop.1, stop.2)

end Admission

namespace MemStore

variable {codec : WalCodec} {hasher : Bytes → TimeSeriesId}
variable {store after : MemStore} {item : LoggedWrite}

theorem mem_ids_iff {seriesId : TimeSeriesId} :
    seriesId ∈ store.admission.ids ↔
      (store.head.series.lookup seriesId).isSome := by
  rw [admission, mem_toFinset, ← AList.mem_keys, AList.lookup_isSome]

theorem full_iff :
    store.admission.Full ↔
      store.head.config.maxSeries ≤ store.head.series.keys.length := by
  rw [Admission.Full, admission,
    toFinset_card_of_nodup store.head.series.keys_nodup]

theorem getOrCreateSeries_cases (store : MemStore) (item : LoggedWrite) :
    if item.seriesId hasher ∈ store.admission.ids then
      store.head.getOrCreateSeries hasher item.write.labels =
        .ok (item.seriesId hasher, store.head)
    else if store.admission.Full then
      store.head.getOrCreateSeries hasher item.write.labels =
        .error .storageFull
    else
      ∃ created,
        store.head.getOrCreateSeries hasher item.write.labels =
          .ok (item.seriesId hasher, created) := by
  have known := @mem_ids_iff store (item.seriesId hasher)
  rw [LoggedWrite.seriesId] at known ⊢
  split
  · rename_i isKnown
    obtain ⟨entry, found⟩ := Option.isSome_iff_exists.mp (known.mp isKnown)
    rw [HeadBlock.getOrCreateSeries]
    simp only [found]
  · rename_i unknown
    rw [known, Option.not_isSome_iff_eq_none] at unknown
    split
    · rename_i full
      rw [HeadBlock.getOrCreateSeries, HeadBlock.addSeries]
      simp only [unknown, full_iff.mp full, if_true]
    · rename_i notFull
      rw [full_iff, not_le] at notFull
      exact HeadBlock.exists_getOrCreateSeries hasher notFull _

structure Adds (hasher : Bytes → TimeSeriesId) (before after : MemStore)
    (items : List LoggedWrite) :
    Prop where
  stats : after.stats = before.stats
  samplesOf :
    ∀ seriesId,
      (after.samplesOf seriesId).Perm
        (before.samplesOf seriesId ++
          writtenTo hasher seriesId (items.map LoggedWrite.write))
  present :
    ∀ seriesId,
      (after.head.series.lookup seriesId).isSome ↔
        (before.head.series.lookup seriesId).isSome ∨
          ∃ item ∈ items, item.seriesId hasher = seriesId
  counts :
    before.head.Counts →
      after.head.Counts ∧
        after.head.totalSamples =
          before.head.totalSamples +
            (items.map fun item => item.samples.length).sum
  quiet :
    (∀ item ∈ items,
        item.seriesId hasher ∈ before.admission.ids ∧ item.samples = []) →
      after.head = before.head

namespace Adds

theorem refl (store : MemStore) : Adds hasher store store [] where
  stats := rfl
  samplesOf seriesId := by simp
  present seriesId := by simp
  counts counts := ⟨counts, rfl⟩
  quiet _ := rfl

theorem trans {middle : MemStore} {first second : List LoggedWrite}
    (adds : Adds hasher store middle first)
    (addsMore : Adds hasher middle after second) :
    Adds hasher store after (first ++ second) where
  stats := addsMore.stats.trans adds.stats
  samplesOf seriesId := by
    rw [map_append, writtenTo_append, ← append_assoc]
    exact (addsMore.samplesOf seriesId).trans
      ((adds.samplesOf seriesId).append_right _)
  present seriesId := by
    rw [addsMore.present, adds.present, or_assoc]
    simp only [mem_append, or_and_right, exists_or]
  counts counts := by
    obtain ⟨countsMiddle, sumMiddle⟩ := adds.counts counts
    obtain ⟨countsAfter, sumAfter⟩ := addsMore.counts countsMiddle
    refine ⟨countsAfter, ?_⟩
    rw [sumAfter, sumMiddle, map_append, sum_append, Nat.add_assoc]
  quiet allQuiet := by
    obtain ⟨firstQuiet, secondQuiet⟩ := forall_mem_append.mp allQuiet
    have sameHead := adds.quiet firstQuiet
    rw [← sameHead]
    refine addsMore.quiet fun item member => ?_
    rw [mem_ids_iff, sameHead, ← mem_ids_iff]
    exact secondQuiet item member

end Adds

theorem counts_addSamples
    {head filled : HeadBlock} {seriesId : TimeSeriesId} {samples : List Sample}
    (counts : head.Counts)
    (added : addSamples head seriesId samples = (.ok (), filled)) :
    filled.Counts ∧
      filled.totalSamples = head.totalSamples + samples.length := by
  induction samples generalizing head with
  | nil =>
    cases added
    exact ⟨counts, rfl⟩
  | cons sample rest inductionHypothesis =>
    rw [addSamples] at added
    split at added
    · simp at added
    · rename_i middle first
      obtain ⟨countsMiddle, sumMiddle⟩ := counts.addSample first
      obtain ⟨countsFilled, sumFilled⟩ := inductionHypothesis countsMiddle added
      refine ⟨countsFilled, ?_⟩
      rw [sumFilled, sumMiddle, length_cons, Nat.add_right_comm, Nat.add_assoc]

theorem config_addSamples
    {head filled : HeadBlock} {seriesId : TimeSeriesId} {samples : List Sample}
    (added : addSamples head seriesId samples = (.ok (), filled)) :
    filled.config = head.config := by
  induction samples generalizing head with
  | nil =>
    cases added
    rfl
  | cons sample rest inductionHypothesis =>
    rw [addSamples] at added
    split at added
    · simp at added
    · rename_i middle first
      have sameConfig := inductionHypothesis added
      obtain ⟨entry, _, rfl⟩ := HeadBlock.lookup_of_addSample first
      exact sameConfig

theorem writeSeriesUnder_of_admit {admitted : Admission}
    (admits : store.admission.accept codec hasher item = some admitted) :
    ∃ after,
      store.writeSeriesUnder codec hasher item = (.ok (), after) ∧
        after.admission = admitted ∧ Adds hasher store after [item] := by
  rw [Admission.accept] at admits
  split at admits
  · cases admits
  · rename_i admissible
    obtain ⟨head, created⟩ :
        ∃ head,
          store.head.getOrCreateSeries hasher item.write.labels =
            .ok (item.seriesId hasher, head) := by
      have cases := @getOrCreateSeries_cases hasher store item
      split at cases
      · exact ⟨store.head, cases⟩
      · rename_i unknown
        rw [if_neg fun full => admissible ⟨unknown, full⟩] at cases
        exact cases
    split at admits
    · cases admits
    · rename_i wal logs
      cases admits
      have logs : item.log codec hasher store.wal = (.ok (), wal) := logs
      have grows := HeadBlock.Grows.ofGetOrCreateSeries created
      obtain ⟨filled, added, growsFilled⟩ :=
        HeadBlock.exists_addSamples
          ((grows.present _).mpr (.inr rfl))
          (sortByKey Sample.sortKey item.write.samples)
      have growsAll := grows.trans growsFilled
      have sameConfig : filled.config = store.head.config :=
        (config_addSamples added).trans
          (HeadBlock.lookup_of_getOrCreateSeries created).2.1
      have adds :
          Adds hasher store { store with head := filled, wal := wal }
            [item] := by
        refine ⟨rfl, fun seriesId => ?_, fun seriesId => ?_,
          fun counts => ?_, fun quiet => ?_⟩
        · refine (growsAll.samplesOf seriesId).trans
            (List.Perm.append_left _ ?_)
          rw [writtenTo, map_singleton, flatMap_singleton, nil_append]
          change
            (if seriesId = item.seriesId hasher then
                sortByKey Sample.sortKey item.write.samples
              else []).Perm
              (if item.seriesId hasher = seriesId then item.write.samples
              else [])
          by_cases same : item.seriesId hasher = seriesId
          · rw [if_pos same.symm, if_pos same]
            exact sortByKey_perm Sample.sortKey _
          · rw [if_neg (Ne.symm same), if_neg same]
        · refine (growsAll.present seriesId).trans (or_congr_right ?_)
          constructor
          · rintro rfl
            exact ⟨item, mem_singleton_self item, rfl⟩
          · rintro ⟨written, member, rfl⟩
            rw [mem_singleton.mp member]
        · obtain ⟨countsHead, sameSum⟩ := counts.getOrCreateSeries created
          obtain ⟨countsFilled, sum⟩ := counts_addSamples countsHead added
          refine ⟨countsFilled, ?_⟩
          rw [sum, sameSum, length_sortByKey]
          rfl
        · obtain ⟨known, noSamples⟩ := quiet item (mem_singleton_self item)
          have cases := @getOrCreateSeries_cases hasher store item
          rw [if_pos known, created, Except.ok.injEq, Prod.mk.injEq] at cases
          have noSamples : item.write.samples = [] := noSamples
          rw [noSamples, sortByKey_nil, addSamples, Prod.mk.injEq] at added
          exact added.2.symm.trans cases.2
      refine ⟨_, ?_, ?_, adds⟩
      · simp only [writeSeriesUnder, created, logs, added]
      · have sameIds :
            filled.series.keys.toFinset =
              insert (item.seriesId hasher) store.admission.ids := by
          ext seriesId
          rw [Finset.mem_insert, mem_ids_iff, mem_toFinset,
            ← AList.mem_keys, ← AList.lookup_isSome, or_comm]
          exact growsAll.present seriesId
        rw [admission, sameIds, sameConfig]
        rfl

/-- What a series write that fails leaves behind. -/
structure LeftByFailure
    (hasher : Bytes → TimeSeriesId) (before : MemStore) (item : LoggedWrite)
    (after : MemStore) :
    Prop where
  stats : after.stats = before.stats
  head :
    if item.seriesId hasher ∈ before.admission.ids ∨ before.admission.Full then
      after.head = before.head
    else
      before.head.getOrCreateSeries hasher item.write.labels =
        .ok (item.seriesId hasher, after.head)

theorem writeSeriesUnder_of_refused
    (refuses : store.admission.accept codec hasher item = none) :
    ∃ cause after,
      store.writeSeriesUnder codec hasher item = (.error cause, after) ∧
        LeftByFailure hasher store item after := by
  have created := @getOrCreateSeries_cases hasher store item
  rw [Admission.accept] at refuses
  by_cases known : item.seriesId hasher ∈ store.admission.ids
  · rw [if_pos known] at created
    rw [if_neg fun full => full.1 known] at refuses
    split at refuses
    · rename_i cause wal logs
      have logs : item.log codec hasher store.wal = (.error cause, wal) := logs
      refine ⟨cause, { store with wal := wal }, ?_, rfl, ?_⟩
      · simp only [writeSeriesUnder, created, logs]
      · rw [if_pos (.inl known)]
    · cases refuses
  · rw [if_neg known] at created
    by_cases full : store.admission.Full
    · rw [if_pos full] at created
      refine ⟨.storageFull, store, ?_, rfl, ?_⟩
      · simp only [writeSeriesUnder, created]
      · rw [if_pos (.inr full)]
    · rw [if_neg full] at created
      obtain ⟨head, created⟩ := created
      rw [if_neg fun isFull => full isFull.2] at refuses
      split at refuses
      · rename_i cause wal logs
        have logs : item.log codec hasher store.wal = (.error cause, wal) :=
          logs
        refine ⟨cause, { store with head := head, wal := wal }, ?_, rfl, ?_⟩
        · simp only [writeSeriesUnder, created, logs]
        · rw [if_neg (not_or.mpr ⟨known, full⟩)]
          exact created
      · cases refuses

theorem writeAllSeriesUnder_cases
    (store : MemStore) (batch : List LoggedWrite) :
    match store.admission.refusal codec hasher batch with
    | none =>
      ∃ after,
        store.writeAllSeriesUnder codec hasher batch = (.ok (), after) ∧
          Adds hasher store after batch
    | some (early, item) =>
      ∃ middle cause after,
        store.writeAllSeriesUnder codec hasher batch = (.error cause, after) ∧
          Adds hasher store middle early ∧
            LeftByFailure hasher middle item after := by
  induction batch generalizing store with
  | nil => exact ⟨store, rfl, .refl store⟩
  | cons item rest inductionHypothesis =>
    rw [Admission.refusal]
    cases admits : store.admission.accept codec hasher item with
    | none =>
      obtain ⟨cause, after, fails, left⟩ := writeSeriesUnder_of_refused admits
      refine ⟨store, cause, after, ?_, .refl store, left⟩
      rw [writeAllSeriesUnder, fails]
    | some admitted =>
      obtain ⟨written, succeeds, rfl, adds⟩ := writeSeriesUnder_of_admit admits
      have later := inductionHypothesis written
      cases stops : written.admission.refusal codec hasher rest with
      | none =>
        rw [stops] at later
        obtain ⟨after, restSucceeds, addsRest⟩ := later
        simp only [stops, Option.map_none]
        refine ⟨after, ?_, adds.trans addsRest⟩
        rw [writeAllSeriesUnder, succeeds]
        exact restSucceeds
      | some stop =>
        obtain ⟨early, last⟩ := stop
        rw [stops] at later
        obtain ⟨middle, cause, after, restFails, addsEarly, left⟩ := later
        simp only [stops, Option.map_some]
        refine ⟨middle, cause, after, ?_, adds.trans addsEarly, left⟩
        rw [writeAllSeriesUnder, succeeds]
        exact restFails

end MemStore

end ChronoDB.Memstore
