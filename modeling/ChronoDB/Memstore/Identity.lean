import ChronoDB.Compression.Dictionary
import ChronoDB.Library.Fields
import ChronoDB.Memstore.RangeQuery

namespace ChronoDB

open Library List

/-!
# Series are named by their labels

The hasher is fed the sorted labels, every string closed by a byte that no
string has.  The bytes are therefore those of one list of labels up to the order
of the names, and a second write of the same labels finds the first one's
series.
-/

def valuesOf (name : String) (labels : Labels) : List String :=
  (labels.filter fun label => label.name = name).map Label.value

/-!
## The bytes of a label list
-/

theorem ne_masked : ∀ byte : BitVec 8,
    0xff#8 ≠ byte &&& 0x1f#8 ||| 0xc0#8 ∧
      0xff#8 ≠ byte &&& 0x0f#8 ||| 0xe0#8 ∧
        0xff#8 ≠ byte &&& 0x07#8 ||| 0xf0#8 ∧
          0xff#8 ≠ byte &&& 0x3f#8 ||| 0x80#8 := by
  decide +kernel

theorem not_mem_utf8EncodeChar (char : Char) :
    0xFF ∉ String.utf8EncodeChar char := by
  have ofTwo (byte : UInt8) : 0xFF ≠ byte &&& 0x1f ||| 0xc0 := fun same =>
    (ne_masked byte.toBitVec).1 (congrArg UInt8.toBitVec same)
  have ofThree (byte : UInt8) : 0xFF ≠ byte &&& 0x0f ||| 0xe0 := fun same =>
    (ne_masked byte.toBitVec).2.1 (congrArg UInt8.toBitVec same)
  have ofFour (byte : UInt8) : 0xFF ≠ byte &&& 0x07 ||| 0xf0 := fun same =>
    (ne_masked byte.toBitVec).2.2.1 (congrArg UInt8.toBitVec same)
  have later (byte : UInt8) : 0xFF ≠ byte &&& 0x3f ||| 0x80 := fun same =>
    (ne_masked byte.toBitVec).2.2.2 (congrArg UInt8.toBitVec same)
  rcases Char.utf8Size_eq char with size | size | size | size
  · rw [String.utf8EncodeChar_eq_singleton size, mem_singleton]
    intro same
    have small := UInt32.le_iff_toNat_le.mp (Char.utf8Size_eq_one_iff.mp size)
    have isByte : 255 = char.val.toNat % 256 := congrArg UInt8.toNat same
    rw [Nat.mod_eq_of_lt (Nat.lt_of_le_of_lt small (by decide))] at isByte
    exact absurd (isByte ▸ small) (by decide)
  · rw [String.utf8EncodeChar_eq_cons_cons size]
    simp only [mem_cons, not_mem_nil, or_false, not_or]
    exact ⟨ofTwo _, later _⟩
  · rw [String.utf8EncodeChar_eq_cons_cons_cons size]
    simp only [mem_cons, not_mem_nil, or_false, not_or]
    exact ⟨ofThree _, later _, later _⟩
  · rw [String.utf8EncodeChar_eq_cons_cons_cons_cons size]
    simp only [mem_cons, not_mem_nil, or_false, not_or]
    exact ⟨ofFour _, later _, later _, later _⟩

theorem not_mem_stringBytes (text : String) : 0xFF ∉ stringBytes text := by
  have isText :
      stringBytes text = text.toList.flatMap String.utf8EncodeChar := by
    rw [stringBytes, String.toUTF8_eq_toByteArray, ← String.utf8Encode_toList,
      List.utf8Encode]
    simp
  rw [isText, mem_flatMap]
  rintro ⟨char, _, inChar⟩
  exact not_mem_utf8EncodeChar char inChar

theorem hashString_append_inj {first second : String} {before after : Bytes}
    (same : hashString first ++ before = hashString second ++ after) :
    first = second ∧ before = after := by
  rw [hashString, hashString, append_assoc, append_assoc] at same
  obtain ⟨sameBytes, sameRest⟩ :=
    (append_cons_inj (not_mem_stringBytes first)
      (not_mem_stringBytes second)).mp same
  exact ⟨Compression.Dictionary.stringBytes_injective sameBytes, sameRest⟩

theorem seriesIdBytes_eq_iff_sortByKey {first second : Labels} :
    seriesIdBytes first = seriesIdBytes second ↔
      sortByKey Label.name first = sortByKey Label.name second := by
  refine Function.Injective.eq_iff (flatMap_injective ?_ ?_)
  · intro label
    simp [hashString]
  · rintro ⟨name, value⟩ ⟨otherName, otherValue⟩ before after same
    rw [append_assoc, append_assoc] at same
    obtain ⟨rfl, sameRest⟩ := hashString_append_inj same
    obtain ⟨rfl, sameAfter⟩ := hashString_append_inj sameRest
    exact ⟨rfl, sameAfter⟩

theorem valuesOf_eq_iff {name : String} {first second : Labels} :
    valuesOf name first = valuesOf name second ↔
      first.filter (fun label => label.name = name) =
        second.filter fun label => label.name = name := by
  have restored (labels : Labels) :
      (valuesOf name labels).map (Label.mk name) =
        labels.filter fun label => label.name = name := by
    rw [valuesOf, map_map]
    refine (map_congr_left fun label member => ?_).trans (map_id _)
    obtain rfl := of_decide_eq_true (mem_filter.mp member).2
    rfl
  constructor
  · intro same
    rw [← restored first, same, restored second]
  · intro same
    rw [valuesOf, valuesOf, same]

theorem seriesIdBytes_eq_iff {first second : Labels} :
    seriesIdBytes first = seriesIdBytes second ↔
      ∀ name, valuesOf name first = valuesOf name second := by
  rw [seriesIdBytes_eq_iff_sortByKey]
  constructor
  · intro same name
    rw [valuesOf_eq_iff, ← filter_sortByKey Label.name first,
      ← filter_sortByKey Label.name second, same]
  · intro same
    refine eq_of_filter_eq Label.name (pairwise_sortByKey _ _)
      (pairwise_sortByKey _ _) fun name => ?_
    rw [filter_sortByKey, filter_sortByKey]
    exact valuesOf_eq_iff.mp (same name)

theorem mem_iff_of_seriesIdBytes_eq
    {first second : Labels} (same : seriesIdBytes first = seriesIdBytes second)
    (label : Label) :
    label ∈ first ↔ label ∈ second := by
  rw [← mem_sortByKey Label.name, seriesIdBytes_eq_iff_sortByKey.mp same,
    mem_sortByKey]

namespace Memstore

open Wal

/-!
## Writes under one id
-/

/-- A write put its samples under an id and under no other. -/
structure MemStore.LandsIn (before after : MemStore) (samples : List Sample)
    (seriesId : TimeSeriesId) :
    Prop where
  stored : (after.head.getSeriesLabels seriesId).isSome
  samplesOf :
    ∀ other,
      (after.samplesOf other).Perm
        (before.samplesOf other ++ if other = seriesId then samples else [])

variable {codec : WalCodec} {hasher : Bytes → TimeSeriesId}
variable {store after : MemStore} {write : SeriesWrite}
variable {seriesId : TimeSeriesId}

theorem MemStore.head_write (store : MemStore) (write : SeriesWrite) :
    (store.write codec hasher write).2.head =
      (store.writeSeries codec hasher write).2.head := by
  rw [MemStore.write]
  split
  · rename_i failed
    rw [failed]
  · rename_i written
    rw [written]
    rfl

theorem MemStore.landsIn_of_write
    (written : store.write codec hasher write = (.ok (), after)) :
    store.LandsIn after write.samples
      (calculateSeriesId hasher write.labels) := by
  rw [MemStore.write] at written
  split at written
  · cases written
  · rename_i filled writtenSeries
    cases written
    obtain ⟨grows, _⟩ := grows_of_writeSeries writtenSeries
    refine ⟨?_, grows.samplesOf⟩
    exact (Option.isSome_map).trans ((grows.present _).mpr (.inr rfl))

/-- Two head blocks with the same labels under every id and the same index. -/
def HeadBlock.SameLabels (first second : HeadBlock) : Prop :=
  (∀ seriesId,
      first.getSeriesLabels seriesId = second.getSeriesLabels seriesId) ∧
    first.index = second.index

theorem HeadBlock.sameLabels_addSamples
    (head : HeadBlock) (seriesId : TimeSeriesId) (samples : List Sample) :
    (MemStore.addSamples head seriesId samples).2.SameLabels head := by
  induction samples generalizing head with
  | nil =>
    exact ⟨fun _ => rfl, rfl⟩
  | cons sample rest inductionHypothesis =>
    rw [MemStore.addSamples]
    split
    · exact ⟨fun _ => rfl, rfl⟩
    · rename_i added isAdded
      obtain ⟨entry, found, rfl⟩ := lookup_of_addSample isAdded
      obtain ⟨labels, index⟩ := inductionHypothesis _
      refine ⟨fun other => (labels other).trans ?_, index⟩
      rw [getSeriesLabels, getSeriesLabels]
      by_cases same : other = seriesId
      · subst same
        rw [AList.lookup_insert, found]
        rfl
      · rw [AList.lookup_insert_ne same]

theorem MemStore.sameLabels_write
    (stored :
      (store.head.getSeriesLabels
        (calculateSeriesId hasher write.labels)).isSome) :
    (store.write codec hasher write).2.head.SameLabels store.head := by
  obtain ⟨entry, found⟩ :=
    Option.isSome_iff_exists.mp (Option.isSome_map.symm.trans stored)
  have got :
      store.head.getOrCreateSeries hasher write.labels =
        .ok (calculateSeriesId hasher write.labels, store.head) := by
    rw [HeadBlock.getOrCreateSeries, found]
  have sameHead :=
    @head_logWrite codec store (calculateSeriesId hasher write.labels)
      write.labels write.samples write.clock
  rw [head_write, writeSeries, got]
  dsimp only
  split
  · rename_i logs
    rw [logs] at sameHead
    rw [show _ = store.head from sameHead]
    exact ⟨fun _ => rfl, rfl⟩
  · rename_i logged logs
    rw [logs] at sameHead
    rw [← show logged.head = store.head from sameHead]
    exact HeadBlock.sameLabels_addSamples _ _ _

theorem MemStore.stored_of_writeStep
    {attempt : WriteAttempt} (step : WriteStep codec hasher store attempt after)
    (stored : (store.head.getSeriesLabels seriesId).isSome) :
    (after.head.getSeriesLabels seriesId).isSome := by
  have isHead :
      (store.writeSeries codec hasher attempt.series).2.head = after.head := by
    have returned : store.write codec hasher attempt.series = _ := step
    rw [← head_write, returned]
  rw [← isHead, writeSeries]
  split
  · exact stored
  · rename_i ownId head created
    have kept : (head.getSeriesLabels seriesId).isSome :=
      Option.isSome_map.trans
        (((HeadBlock.Grows.ofGetOrCreateSeries created).present seriesId).mpr
          (.inl (Option.isSome_map.symm.trans stored)))
    have sameHead :=
      @head_logWrite codec ({ store with head := head } : MemStore) ownId
        attempt.series.labels attempt.series.samples attempt.series.clock
    split
    · rename_i logs
      rw [logs] at sameHead
      exact sameHead.symm ▸ kept
    · rename_i logged logs
      rw [logs] at sameHead
      rw [(HeadBlock.sameLabels_addSamples logged.head ownId _).1]
      exact sameHead.symm ▸ kept

theorem MemStore.stored_of_run {attempts : List WriteAttempt}
    (run : Run (WriteStep codec hasher) store attempts after)
    (stored : (store.head.getSeriesLabels seriesId).isSome) :
    (after.head.getSeriesLabels seriesId).isSome :=
  run.preserves (fun kept step => stored_of_writeStep step kept) stored

/--
Two lists of labels feed the hasher the same bytes exactly when they have the
same sequence of values for every name.  With a hasher that tells their bytes
apart, writes of two orders of distinct names therefore land in one series, with
any writes between them, and the second one changes neither the stored labels
nor the index; writes of lists that differ in a label land in two series.
-/
theorem MemStore.series_identity (first second : Labels) :
    (seriesIdBytes first = seriesIdBytes second ↔
      ∀ name, valuesOf name first = valuesOf name second) ∧
    ∀ (codec : WalCodec) (hasher : Bytes → TimeSeriesId),
      Set.InjOn hasher {seriesIdBytes first, seriesIdBytes second} →
      ∀ (store middle again after : MemStore) (between : List WriteAttempt)
        (write secondWrite : SeriesWrite),
        write.labels = first →
        secondWrite.labels = second →
        store.write codec hasher write = (.ok (), middle) →
        Run (WriteStep codec hasher) middle between again →
        again.write codec hasher secondWrite = (.ok (), after) →
          ((first.map Label.name).Nodup → first.Perm second →
            ∃ seriesId,
              store.LandsIn middle write.samples seriesId ∧
              again.LandsIn after secondWrite.samples seriesId ∧
              after.head.SameLabels again.head) ∧
          ((∃ label, ¬(label ∈ first ↔ label ∈ second)) →
            ∃ firstId secondId,
              firstId ≠ secondId ∧
              store.LandsIn middle write.samples firstId ∧
              again.LandsIn after secondWrite.samples secondId) := by
  refine ⟨seriesIdBytes_eq_iff, ?_⟩
  rintro codec hasher noCollision store middle again after between write
    secondWrite rfl rfl written run writtenAgain
  have lands := landsIn_of_write written
  have landsAgain := landsIn_of_write writtenAgain
  refine ⟨fun distinct permuted => ?_, fun ⟨label, differs⟩ => ?_⟩
  · have sameId :
        calculateSeriesId hasher write.labels =
          calculateSeriesId hasher secondWrite.labels :=
      congrArg hasher
        (seriesIdBytes_eq_iff_sortByKey.mpr
          (sortByKey_congr Label.name distinct permuted))
    have kept :=
      @sameLabels_write codec _ _ _ (sameId ▸ stored_of_run run lands.stored)
    rw [writtenAgain] at kept
    exact ⟨_, lands, sameId ▸ landsAgain, kept⟩
  · refine ⟨_, _, fun sameId => differs ?_, lands, landsAgain⟩
    exact mem_iff_of_seriesIdBytes_eq
      (noCollision (.inl rfl) (.inr rfl) sameId) label

def labelledWrite (labels : Labels) : SeriesWrite :=
  { exampleWrite [⟨1000, 1⟩] with labels := labels }

/-- Labels that are written in two orders name one series. -/
theorem MemStore.two_orders_share_series :
    ∃ middle after,
      (freshStore none).write jsonCodec SipHash.hash
          (labelledWrite [⟨"a", "1"⟩, ⟨"b", "2"⟩]) = (.ok (), middle) ∧
      middle.write jsonCodec SipHash.hash
          (labelledWrite [⟨"b", "2"⟩, ⟨"a", "1"⟩]) = (.ok (), after) ∧
      after.head.SameLabels middle.head := by
  let first : Labels := [⟨"a", "1"⟩, ⟨"b", "2"⟩]
  let second : Labels := [⟨"b", "2"⟩, ⟨"a", "1"⟩]
  have succeeds :
      ((freshStore none).write jsonCodec SipHash.hash
          (labelledWrite first)).1 = .ok () ∧
        (((freshStore none).write jsonCodec SipHash.hash
          (labelledWrite first)).2.write jsonCodec SipHash.hash
            (labelledWrite second)).1 = .ok () := by
    decide +kernel
  have returns {result : Except Error Unit × MemStore}
      (isOk : result.1 = .ok ()) :
      result = (.ok (), result.2) :=
    Prod.ext isOk rfl
  have written := returns succeeds.1
  have writtenAgain := returns succeeds.2
  have sameBytes : seriesIdBytes first = seriesIdBytes second := by
    decide +kernel
  have noCollision :
      Set.InjOn SipHash.hash {seriesIdBytes first, seriesIdBytes second} := by
    rw [sameBytes, Set.pair_eq_singleton]
    exact Set.injOn_singleton _ _
  obtain ⟨seriesId, _, _, kept⟩ :=
    ((series_identity first second).2 jsonCodec SipHash.hash noCollision _ _ _ _
      [] _ _ rfl rfl written (.nil _) writtenAgain).1 (by decide) (.swap _ _ _)
  exact ⟨_, _, written, writtenAgain, kept⟩

end Memstore

end ChronoDB
