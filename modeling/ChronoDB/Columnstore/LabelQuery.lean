import ChronoDB.Columnstore.Files
import ChronoDB.Library.SipHash

namespace ChronoDB.Columnstore

open Library Index List FullReader BlockWriter

/-!
# Queries by labels

The filter knows a series by the text of all its labels, and a query asks for
the text of its own labels.  A query for some of the labels of a series passes
the filter only by accident, and one that passes gets what the columns decode
to.
-/

/-!
## What the filter of a writer knows
-/

/-- The labels of a series that holds a sample. -/
def BlockWriter.Stored (writer : BlockWriter) (labels : Labels) : Prop :=
  ∃ seriesId data,
    writer.seriesData.lookup seriesId = some data ∧
      data.samples ≠ [] ∧ data.labels = labels

namespace FullWriter

variable {hasher : Bytes → UInt64} {json : Codec Error Labels}

/-- The bits that the labels of a series name in the filter of a block. -/
def KeyProbes (hasher : Bytes → UInt64) (labels : Labels) (index : ℕ) :
    Prop :=
  newFilter.Probes hasher (filterKey labels) index

/-- Every bit that some labels name is one of a series that holds a sample. -/
def Passes (hasher : Bytes → UInt64) (writer : BlockWriter) (labels : Labels) :
    Prop :=
  ∀ index, KeyProbes hasher labels index →
    ∃ stored, writer.Stored stored ∧ KeyProbes hasher stored index

/--
A writer without downsampled series, whose filter has the bits of the series
that hold a sample.
-/
structure FilterSound (hasher : Bytes → UInt64) (writer : FullWriter) :
    Prop where
  noPoints : writer.downsampleData = ∅
  gains :
    newFilter.Gains writer.bloomFilter fun index =>
      ∃ stored, writer.toBlockWriter.Stored stored ∧
        KeyProbes hasher stored index

theorem filterSound_new (hasher : Bytes → UInt64) (blockId : UInt64) :
    FilterSound hasher (new blockId) where
  noPoints := rfl
  gains := by
    refine (BloomFilter.Gains.refl newFilter).congr fun index => ?_
    simp [BlockWriter.Stored, new, BlockWriter.new]

theorem stored_addSeries
    (writer : FullWriter) (seriesId : TimeSeriesId) (labels : Labels)
    (samples : List Sample) (stored : Labels) :
    (writer.toBlockWriter.addSeries seriesId labels samples).Stored stored ↔
      writer.toBlockWriter.Stored stored ∨
        samples ≠ [] ∧ writer.labelsOf seriesId labels = stored := by
  have unchanged :
      ∀ other, other ≠ seriesId →
        (writer.toBlockWriter.addSeries seriesId labels
            samples).seriesData.lookup other =
          writer.seriesData.lookup other :=
    fun other differs => AList.lookup_insert_ne differs
  have changed :
      (writer.toBlockWriter.addSeries seriesId labels
          samples).seriesData.lookup seriesId =
        some {
          labels := writer.labelsOf seriesId labels
          samples := writer.samplesOf seriesId ++ samples
        } := by
    refine (AList.lookup_insert _).trans ?_
    rw [labelsOf, samplesOf]
    cases writer.seriesData.lookup seriesId <;> rfl
  constructor
  · rintro ⟨other, data, found, nonempty, rfl⟩
    by_cases same : other = seriesId
    · subst same
      rw [changed] at found
      cases found
      by_cases added : samples = []
      · left
        rw [added, append_nil] at nonempty
        rw [labelsOf]
        rw [samplesOf] at nonempty
        cases known : writer.seriesData.lookup other with
        | none =>
          rw [known] at nonempty
          exact absurd rfl nonempty
        | some data =>
          rw [known] at nonempty
          exact ⟨other, data, known, nonempty, rfl⟩
      · exact .inr ⟨added, rfl⟩
    · rw [unchanged other same] at found
      exact .inl ⟨other, data, found, nonempty, rfl⟩
  · rintro (⟨other, data, found, nonempty, rfl⟩ | ⟨added, rfl⟩)
    · by_cases same : other = seriesId
      · subst same
        refine ⟨other, _, changed, ?_, ?_⟩
        · rw [samplesOf, found]
          exact fun empty =>
            nonempty (append_eq_nil_iff.mp empty).1
        · rw [labelsOf, found]
          rfl
      · exact ⟨other, data, (unchanged other same).trans found, nonempty,
          rfl⟩
    · refine ⟨seriesId, _, changed, ?_, rfl⟩
      exact fun empty => added (append_eq_nil_iff.mp empty).2

variable {writer : FullWriter}

theorem FilterSound.exists_addSeries
    (sound : FilterSound hasher writer) (call : AddedSeries) :
    ∃ after,
      writer.addSeries hasher call.seriesId call.labels call.samples =
          .ok after ∧
        after.toBlockWriter =
          writer.toBlockWriter.addSeries call.seriesId call.labels
            call.samples ∧
        FilterSound hasher after := by
  obtain ⟨bloomFilter, inserts, gains⟩ :=
    BloomFilter.exists_insertAll hasher (sound.gains.sized sized_newFilter)
      (call.samples.map fun _ =>
        filterKey (writer.labelsOf call.seriesId call.labels))
  let after : FullWriter := {
    writer with
    toBlockWriter :=
      writer.toBlockWriter.addSeries call.seriesId call.labels call.samples
    bloomFilter := bloomFilter
  }
  have adds :
      writer.addSeries hasher call.seriesId call.labels call.samples =
        .ok after := by
    rw [addSeries]
    simp only [inserts]
    rfl
  have isStored : ∀ stored, after.toBlockWriter.Stored stored ↔ _ :=
    stored_addSeries writer call.seriesId call.labels call.samples
  refine ⟨after, adds, rfl, sound.noPoints, ?_⟩
  refine (sound.gains.trans gains).congr fun index => ?_
  simp only [isStored, or_and_right, exists_or, and_assoc,
    exists_and_left, exists_eq_left', mem_map,
    BloomFilter.Probes, sound.gains.numBits, sound.gains.numHashes]
  refine or_congr_right ?_
  constructor
  · rintro ⟨_, ⟨sample, member, rfl⟩, probes⟩
    exact ⟨ne_nil_of_mem member, probes⟩
  · rintro ⟨nonempty, probes⟩
    obtain ⟨sample, rest, isSamples⟩ := exists_cons_of_ne_nil nonempty
    exact ⟨_, ⟨sample, by simp [isSamples], rfl⟩, probes⟩

def addAll (hasher : Bytes → UInt64) :
    List AddedSeries → FullWriter → Except Fault FullWriter
  | [], writer => .ok writer
  | call :: rest, writer =>
    match writer.addSeries hasher call.seriesId call.labels call.samples with
    | .error fault => .error fault
    | .ok writer => addAll hasher rest writer

theorem FilterSound.exists_addAll
    (sound : FilterSound hasher writer) (calls : List AddedSeries) :
    ∃ after,
      addAll hasher calls writer = .ok after ∧
        after.toBlockWriter = writer.toBlockWriter.addAll calls ∧
        FilterSound hasher after := by
  induction calls generalizing writer with
  | nil => exact ⟨writer, rfl, rfl, sound⟩
  | cons call rest inductionHypothesis =>
    obtain ⟨between, adds, isBetween, soundBetween⟩ :=
      sound.exists_addSeries call
    obtain ⟨after, addsRest, isAfter, soundAfter⟩ :=
      inductionHypothesis soundBetween
    refine ⟨after, ?_, ?_, soundAfter⟩
    · rw [addAll, adds]
      exact addsRest
    · rw [isAfter, isBetween]
      rfl

theorem filterSound_of_addAll {blockId : UInt64} {calls : List AddedSeries}
    (added : addAll hasher calls (new blockId) = .ok writer) :
    FilterSound hasher writer := by
  obtain ⟨after, adds, _, sound⟩ :=
    (filterSound_new hasher blockId).exists_addAll calls
  rw [added] at adds
  cases adds
  exact sound

theorem FilterSound.exists_contains
    (sound : FilterSound hasher writer) (labels : Labels) :
    ∃ answer,
      writer.bloomFilter.contains hasher (filterKey labels) = .ok answer ∧
        (answer = true ↔ Passes hasher writer.toBlockWriter labels) := by
  obtain ⟨answer, answers, answerIff⟩ :=
    BloomFilter.exists_contains hasher
      (sound.gains.sized sized_newFilter) (filterKey labels)
  refine ⟨answer, answers, answerIff.trans ?_⟩
  simp only [sound.gains.hasBit, newFilter, BloomFilter.not_hasBit_withSize,
    false_or]
  simp only [BloomFilter.Probes, sound.gains.numBits,
    sound.gains.numHashes, Passes, KeyProbes]

theorem FilterSound.deserialize (sound : FilterSound hasher writer) :
    BloomFilter.deserialize writer.bloomFilter.serialize =
      .ok writer.bloomFilter := by
  apply BloomFilter.deserialize_serialize
  · rw [sound.gains.numBits]
    decide
  · rw [sound.gains.numHashes]
    decide

theorem FilterSound.openFiles_of_write
    (sound : FilterSound hasher writer) {layout : writer.toBlockWriter.Layout}
    {pointLayout : writer.PointLayout} {existing files : BlockFiles}
    (written :
      writer.write json layout pointLayout existing = .ok files) :
    writer.toBlockWriter.write json layout existing.toBlockDir =
        .ok files.toBlockDir ∧
      ∃ reader,
        openFiles files = .ok reader ∧
          reader.dir = files.toBlockDir ∧
          reader.bloomFilter = writer.bloomFilter := by
  have writes :=
    @write_of_noPoints json writer layout sound.noPoints pointLayout existing
  rw [written] at writes
  have opens := BlockWriter.openDir_of_write writes.symm
  refine ⟨writes.symm, ?_⟩
  rw [openFiles, opens, bloom_of_write written]
  simp only [sound.deserialize]
  exact ⟨_, rfl, rfl, rfl⟩

end FullWriter

/-!
## What a label query answers
-/

namespace FullReader

section Entries

variable {queryOne : TimeSeriesId → Except Fault (List Sample)}
variable {labels : Labels} {entries : List SeriesIndexEntry}

theorem exists_queryEntries_iff :
    (∃ results, queryEntries queryOne labels entries = .ok results) ↔
      ∀ entry ∈ entries, labelsMatch entry.labels labels →
        ∃ samples, queryOne entry.seriesId = .ok samples := by
  induction entries with
  | nil => simp [queryEntries]
  | cons entry rest inductionHypothesis =>
    rw [forall_mem_cons, ← inductionHypothesis, queryEntries]
    by_cases isMatch : labelsMatch entry.labels labels = true
    · rw [if_pos isMatch]
      cases queryOne entry.seriesId with
      | error fault => simp [isMatch]
      | ok samples =>
        cases queryEntries queryOne labels rest with
        | error fault => simp
        | ok results => cases empty : samples.isEmpty <;> simp [empty]
    · simp [isMatch]

theorem mem_queryEntries {results : List (TimeSeriesId × List Sample)}
    (answers : queryEntries queryOne labels entries = .ok results)
    (seriesId : TimeSeriesId) (samples : List Sample) :
    (seriesId, samples) ∈ results ↔
      samples ≠ [] ∧ queryOne seriesId = .ok samples ∧
        ∃ entry ∈ entries,
          entry.seriesId = seriesId ∧ labelsMatch entry.labels labels := by
  induction entries generalizing results with
  | nil =>
    cases answers
    simp
  | cons entry rest inductionHypothesis =>
    rw [queryEntries] at answers
    rw [exists_mem_cons_iff]
    split at answers
    · rename_i isMatch
      split at answers
      · cases answers
      · rename_i found readsOne
        split at answers
        · cases answers
        · rename_i others answersRest
          have inRest := inductionHypothesis answersRest
          split at answers
          · rename_i empty
            cases answers
            rw [inRest]
            constructor
            · rintro ⟨nonempty, reads, member⟩
              exact ⟨nonempty, reads, .inr member⟩
            · rintro ⟨nonempty, reads, ⟨rfl, _⟩ | member⟩
              · rw [readsOne] at reads
                cases reads
                exact absurd (List.isEmpty_iff.mp empty) nonempty
              · exact ⟨nonempty, reads, member⟩
          · rename_i nonempty
            cases answers
            rw [mem_cons, inRest, Prod.mk.injEq]
            constructor
            · rintro (⟨rfl, rfl⟩ | ⟨nonempty, reads, member⟩)
              · refine ⟨?_, readsOne, .inl ⟨rfl, isMatch⟩⟩
                rintro rfl
                exact nonempty rfl
              · exact ⟨nonempty, reads, .inr member⟩
            · rintro ⟨nonempty, reads, ⟨rfl, _⟩ | member⟩
              · rw [readsOne] at reads
                cases reads
                exact .inl ⟨rfl, rfl⟩
              · exact .inr ⟨nonempty, reads, member⟩
    · rename_i noMatch
      rw [inductionHypothesis answers]
      simp [noMatch]

end Entries

/--
A query by labels is complete: it returns the series that hold a sample and all
labels of the query, and no others.
-/
def AnswersLabels
    (json : Codec Error Labels) (hasher : Bytes → UInt64) (reader : FullReader)
    (writer : BlockWriter) (labels : Labels) :
    Prop :=
  ∃ results,
    reader.queryByLabels json hasher labels Int64.minValue
        Int64.maxValue = .ok results ∧
      ∀ seriesId samples, (seriesId, samples) ∈ results ↔
        ∃ data,
          writer.seriesData.lookup seriesId = some data ∧
            data.samples = samples ∧ samples ≠ [] ∧
            labelsMatch data.labels labels

end FullReader

/-!
## What a reader of a written block sees
-/

namespace BlockWriter

/-- The index entries that a reader of a block goes through. -/
def listed (writer : BlockWriter) (layout : writer.Layout) :
    List SeriesIndexEntry :=
  let entries := indexEntries 0 (writer.laidOut layout)
  entries.take (entries.length % 2 ^ 32)

/-- At the positions of a series the time column decodes to its timestamps. -/
def RereadsTimes
    (writer : BlockWriter) (layout : writer.Layout) (entry : SeriesIndexEntry) :
    Prop :=
  ∃ column times,
    buildTimestampColumn
        ((allSamples (writer.laidOut layout)).map Sample.timestamp) =
      .ok column ∧
      decodeTimestampColumn column = .ok times ∧
      (times.drop entry.offset).take entry.count =
        (writer.samplesOf entry.seriesId).map Sample.timestamp

/--
The index lists the series that have the labels of a query, and their
timestamps are read back.
-/
structure RereadsLabels
    (json : Codec Error Labels) (writer : BlockWriter) (layout : writer.Layout)
    (labels : Labels) :
    Prop where
  labelsFit : ∀ entry ∈ writer.listed layout, LabelsFit json entry.labels
  complete :
    ∀ seriesId data,
      writer.seriesData.lookup seriesId = some data →
      data.samples ≠ [] → labelsMatch data.labels labels →
      ∃ entry ∈ writer.listed layout, entry.seriesId = seriesId
  times :
    ∀ entry ∈ writer.listed layout, labelsMatch entry.labels labels →
      writer.RereadsTimes layout entry

variable {json : Codec Error Labels} {writer : BlockWriter}
variable {layout : writer.Layout} {existing dir : BlockDir}

theorem mem_indexEntries
    {offset : ℕ} {series : List (TimeSeriesId × SeriesData)}
    {entry : SeriesIndexEntry} (member : entry ∈ indexEntries offset series) :
    ∃ data,
      (entry.seriesId, data) ∈ series ∧ entry.labels = data.labels ∧
        entry.count = data.samples.length := by
  induction series generalizing offset with
  | nil => cases member
  | cons first rest inductionHypothesis =>
    rcases mem_cons.mp member with rfl | later
    · exact ⟨first.2, mem_cons_self, rfl, rfl⟩
    · obtain ⟨data, inRest, isData⟩ := inductionHypothesis later
      exact ⟨data, mem_cons_of_mem _ inRest, isData⟩

theorem find?_seriesId {entries : List SeriesIndexEntry}
    (distinct : (entries.map SeriesIndexEntry.seriesId).Nodup)
    {entry : SeriesIndexEntry} (member : entry ∈ entries) :
    entries.find? (fun other => other.seriesId = entry.seriesId) =
      some entry := by
  induction entries with
  | nil => cases member
  | cons first rest inductionHypothesis =>
    rw [map_cons, nodup_cons] at distinct
    rcases mem_cons.mp member with rfl | later
    · rw [find?_cons_of_pos (by simp)]
    · rw [find?_cons_of_neg, inductionHypothesis distinct.2 later]
      have different : ¬ first.seriesId = entry.seriesId := by
        intro same
        rw [same] at distinct
        exact distinct.1 (mem_map_of_mem later)
      simpa using different

theorem nodup_listed (writer : BlockWriter) (layout : writer.Layout) :
    ((writer.listed layout).map SeriesIndexEntry.seriesId).Nodup := by
  rw [listed, map_take, map_seriesId_indexEntries]
  exact (nodup_laidOut layout).sublist (take_sublist _ _)

theorem lookup_of_mem_listed
    {entry : SeriesIndexEntry} (member : entry ∈ writer.listed layout) :
    ∃ data,
      writer.seriesData.lookup entry.seriesId = some data ∧
        entry.labels = data.labels ∧
        slice (allSamples (writer.laidOut layout)) entry = data.samples ∧
        entry.count = data.samples.length := by
  have inWhole := mem_of_mem_take member
  obtain ⟨data, inSeries, isLabels, isCount⟩ := mem_indexEntries inWhole
  obtain ⟨other, found, isSlice⟩ :=
    (slices_iff (nodup_laidOut layout)
      (allSamples (writer.laidOut layout)) 0).mpr (prefix_refl _) _ inSeries
  have distinct :
      ((indexEntries 0 (writer.laidOut layout)).map
        SeriesIndexEntry.seriesId).Nodup := by
    rw [map_seriesId_indexEntries]
    exact nodup_laidOut layout
  rw [find?_seriesId distinct inWhole] at found
  cases found
  exact ⟨data, (mem_laidOut layout).mp inSeries, isLabels, isSlice, isCount⟩

theorem valueColumn_of_write
    (written : writer.write json layout existing = .ok dir)
    (nonempty : allSamples (writer.laidOut layout) ≠ []) :
    dir.valueColumn =
      some (buildValueColumn
        ((allSamples (writer.laidOut layout)).map Sample.value)) := by
  rw [write] at written
  split at written
  · cases written
  · split at written
    · cases written
    · cases written
      rfl

theorem readIndex_of_write
    (written : writer.write json layout existing = .ok dir)
    {reader : BlockReader} (isDir : reader.dir = dir)
    (index : List SeriesIndexEntry) :
    reader.readIndex json = .ok index ↔
      index = writer.listed layout ∧
        ∀ entry ∈ writer.listed layout, LabelsFit json entry.labels := by
  obtain ⟨capacity, isIndex, _⟩ := write_eq_ok written
  rw [← isDir] at isIndex
  exact readIndex_buildIndex_eq_ok_iff json isIndex fun _ member =>
    numbersFit_indexEntries (by omega) member

theorem zipWith_eq_iff {times : List Timestamp} {samples : List Sample}
    (short : times.length ≤ samples.length) :
    List.zipWith Sample.mk times (samples.map Sample.value) = samples ↔
      times = samples.map Sample.timestamp := by
  induction samples generalizing times with
  | nil => simpa using short
  | cons sample rest inductionHypothesis =>
    cases times with
    | nil => simp
    | cons time others =>
      rw [map_cons, zipWith_cons_cons, map_cons, List.cons.injEq,
        List.cons.injEq, inductionHypothesis (Nat.le_of_succ_le_succ short)]
      cases sample
      simp

theorem query_listed_iff (written : writer.write json layout existing = .ok dir)
    (nonempty : allSamples (writer.laidOut layout) ≠ []) {reader : BlockReader}
    (isDir : reader.dir = dir)
    (labelsFit :
      ∀ entry ∈ writer.listed layout, LabelsFit json entry.labels)
    {entry : SeriesIndexEntry} (member : entry ∈ writer.listed layout) :
    reader.query json entry.seriesId Int64.minValue Int64.maxValue =
        .ok (writer.samplesOf entry.seriesId) ↔
      writer.RereadsTimes layout entry := by
  obtain ⟨data, known, _, isSlice, isCount⟩ := lookup_of_mem_listed member
  have isSamples := samplesOf_of_lookup known
  have sameSlice :
      ∀ times : List Timestamp,
        slice
            (List.zipWith Sample.mk times
              ((allSamples (writer.laidOut layout)).map Sample.value))
            entry = data.samples ↔
          (times.drop entry.offset).take entry.count =
            data.samples.map Sample.timestamp := by
    intro times
    rw [slice, drop_zipWith, take_zipWith, ← map_drop,
      ← map_take, ← slice, isSlice]
    apply zipWith_eq_iff
    rw [← isCount]
    exact length_take_le _ _
  obtain ⟨_, _, _, _, buildsColumns⟩ := write_eq_ok written
  obtain ⟨column, isTime, built⟩ := buildsColumns nonempty
  have isValue := valueColumn_of_write written nonempty
  rw [← isDir] at isTime isValue
  rw [BlockReader.query_eq_ok_iff, isSamples, RereadsTimes, isSamples]
  constructor
  · rintro ⟨index, other, items, readsIndex, found, holds, isItems⟩
    obtain ⟨rfl, _⟩ := (readIndex_of_write written isDir index).mp readsIndex
    rw [find?_seriesId (nodup_listed writer layout) member] at found
    cases found
    obtain ⟨_, _, times, hasTime, hasValue, decoded, rfl⟩ := holds
    rw [isTime] at hasTime
    rw [isValue] at hasValue
    cases hasTime
    cases hasValue
    rw [decodeValueColumn_buildValueColumn] at isItems
    exact ⟨column, times, built, decoded, (sameSlice times).mp isItems⟩
  · rintro ⟨_, times, sameBuilt, decoded, isTimes⟩
    rw [built] at sameBuilt
    cases sameBuilt
    refine ⟨_, entry, _, (readIndex_of_write written isDir _).mpr
      ⟨rfl, labelsFit⟩, find?_seriesId (nodup_listed writer layout) member,
      ⟨column, _, times, isTime, isValue, decoded, rfl⟩, ?_⟩
    rw [decodeValueColumn_buildValueColumn]
    exact (sameSlice times).mpr isTimes

end BlockWriter

/-!
## When a label query is complete
-/

namespace FullReader

variable {hasher : Bytes → UInt64} {json : Codec Error Labels}
variable {reader : FullReader} {writer : BlockWriter}
variable {layout : writer.Layout} {existing dir : BlockDir}
variable {labels : Labels}

theorem answersLabels_of_not_contains
    (fails : reader.containsSeries hasher labels = .ok false) :
    reader.AnswersLabels json hasher writer labels ↔
      ¬ ∃ stored, writer.Stored stored ∧ labelsMatch stored labels := by
  have answers :
      reader.queryByLabels json hasher labels Int64.minValue
        Int64.maxValue = .ok [] := by
    rw [queryByLabels, queryFiltered, fails]
  constructor
  · rintro ⟨results, isResults, complete⟩
      ⟨_, ⟨seriesId, data, known, nonempty, rfl⟩, isMatch⟩
    rw [answers] at isResults
    cases isResults
    exact absurd
      ((complete seriesId data.samples).mpr
        ⟨data, known, rfl, nonempty, isMatch⟩) not_mem_nil
  · intro nothing
    refine ⟨[], answers, fun seriesId samples => ?_⟩
    constructor
    · intro member
      exact absurd member not_mem_nil
    · rintro ⟨data, known, rfl, nonempty, isMatch⟩
      exact absurd ⟨_, ⟨seriesId, data, known, nonempty, rfl⟩, isMatch⟩ nothing

theorem queryByLabels_of_contains
    (passes : reader.containsSeries hasher labels = .ok true)
    {index : List SeriesIndexEntry}
    (reads : reader.toBlockReader.readIndex json = .ok index) :
    reader.queryByLabels json hasher labels Int64.minValue Int64.maxValue =
      queryEntries
        (fun seriesId =>
          reader.toBlockReader.query json seriesId Int64.minValue
            Int64.maxValue)
        labels index := by
  rw [queryByLabels, queryFiltered, passes]
  dsimp only
  rw [reads]

theorem query_listed_of_complete {results : List (TimeSeriesId × List Sample)}
    (isResults :
      queryEntries
          (fun seriesId =>
            reader.toBlockReader.query json seriesId Int64.minValue
              Int64.maxValue)
          labels (writer.listed layout) =
        .ok results)
    (complete :
      ∀ seriesId samples, (seriesId, samples) ∈ results ↔
        ∃ data,
          writer.seriesData.lookup seriesId = some data ∧
            data.samples = samples ∧ samples ≠ [] ∧
            labelsMatch data.labels labels)
    {entry : SeriesIndexEntry} (isListed : entry ∈ writer.listed layout)
    (isMatch : labelsMatch entry.labels labels) :
    reader.toBlockReader.query json entry.seriesId Int64.minValue
        Int64.maxValue =
      .ok (writer.samplesOf entry.seriesId) := by
  have inResults := mem_queryEntries isResults
  obtain ⟨data, known, isLabels, _, _⟩ :=
    lookup_of_mem_listed isListed
  obtain ⟨samples, answers⟩ :=
    exists_queryEntries_iff.mp ⟨results, isResults⟩ entry isListed isMatch
  rw [samplesOf_of_lookup known]
  by_cases someSample : data.samples = []
  · -- a series without samples is in no result, yet it was read
    rw [someSample]
    have sameSamples : samples = [] := by
      by_contra differs
      have member :=
        (inResults entry.seriesId samples).mpr
          ⟨differs, answers, entry, isListed, rfl, isMatch⟩
      obtain ⟨other, sameKnown, isOther, _, _⟩ :=
        (complete entry.seriesId samples).mp member
      rw [known] at sameKnown
      cases sameKnown
      exact differs (isOther.symm.trans someSample)
    rw [← sameSamples]
    exact answers
  · rw [isLabels] at isMatch
    have member :=
      (complete entry.seriesId data.samples).mpr
        ⟨data, known, rfl, someSample, isMatch⟩
    exact ((inResults entry.seriesId data.samples).mp member).2.1

section Written

variable (written : writer.write json layout existing = .ok dir)
variable (isDir : reader.dir = dir)
variable (holdsSample : ∃ stored, writer.Stored stored)
variable (passes : reader.containsSeries hasher labels = .ok true)

include holdsSample in
theorem allSamples_ne_nil :
    allSamples (writer.laidOut layout) ≠ [] := by
  obtain ⟨_, seriesId, data, known, someSample, _⟩ := holdsSample
  intro empty
  rw [allSamples, flatMap_eq_nil_iff] at empty
  exact someSample (empty _ ((BlockWriter.mem_laidOut layout).mpr known))

include written isDir holdsSample passes

theorem rereadsLabels_of_answersLabels
    (answersLabels : reader.AnswersLabels json hasher writer labels) :
    writer.RereadsLabels json layout labels := by
  obtain ⟨results, isResults, complete⟩ := answersLabels
  cases reads : reader.toBlockReader.readIndex json with
  | error cause =>
    simp [queryByLabels, queryFiltered, passes, reads] at isResults
  | ok index =>
    obtain ⟨rfl, labelsFit⟩ :=
      (readIndex_of_write written isDir index).mp reads
    rw [queryByLabels_of_contains passes reads] at isResults
    refine ⟨labelsFit, ?_, ?_⟩
    · intro seriesId data known someSample isMatch
      have member :=
        (complete seriesId data.samples).mpr
          ⟨data, known, rfl, someSample, isMatch⟩
      obtain ⟨_, _, entry, isListed, isId, _⟩ :=
        (mem_queryEntries isResults seriesId data.samples).mp member
      exact ⟨entry, isListed, isId⟩
    · intro entry isListed isMatch
      exact (query_listed_iff written
        (allSamples_ne_nil holdsSample) isDir labelsFit isListed).mp
          (query_listed_of_complete isResults complete isListed isMatch)

theorem answersLabels_of_rereadsLabels
    (rereads : writer.RereadsLabels json layout labels) :
    reader.AnswersLabels json hasher writer labels := by
  obtain ⟨labelsFit, complete, times⟩ := rereads
  have reads :=
    (readIndex_of_write written isDir _).mpr ⟨rfl, labelsFit⟩
  have answers :
      ∀ entry ∈ writer.listed layout,
        labelsMatch entry.labels labels →
          reader.toBlockReader.query json entry.seriesId Int64.minValue
              Int64.maxValue =
            .ok (writer.samplesOf entry.seriesId) :=
    fun entry isListed isMatch =>
      (query_listed_iff written (allSamples_ne_nil holdsSample)
        isDir labelsFit isListed).mpr (times entry isListed isMatch)
  obtain ⟨results, isResults⟩ :=
    (@exists_queryEntries_iff
      (fun seriesId =>
        reader.toBlockReader.query json seriesId Int64.minValue Int64.maxValue)
      labels (writer.listed layout)).mpr fun entry isListed isMatch =>
        ⟨_, answers entry isListed isMatch⟩
  refine ⟨results, ?_, fun seriesId samples => ?_⟩
  · rw [queryByLabels_of_contains passes reads]
    exact isResults
  rw [mem_queryEntries isResults]
  constructor
  · rintro ⟨someSample, reads, entry, isListed, rfl, isMatch⟩
    rw [answers entry isListed isMatch] at reads
    cases reads
    obtain ⟨data, known, isLabels, _, _⟩ :=
      lookup_of_mem_listed isListed
    rw [isLabels] at isMatch
    exact ⟨data, known, (samplesOf_of_lookup known).symm,
      someSample, isMatch⟩
  · rintro ⟨data, known, rfl, someSample, isMatch⟩
    obtain ⟨entry, isListed, rfl⟩ :=
      complete seriesId data known someSample isMatch
    obtain ⟨other, sameKnown, isLabels, _, _⟩ :=
      lookup_of_mem_listed isListed
    rw [known] at sameKnown
    cases sameKnown
    rw [← isLabels] at isMatch
    refine ⟨someSample, ?_, entry, isListed, rfl, isMatch⟩
    rw [answers entry isListed isMatch, samplesOf_of_lookup known]

theorem answersLabels_of_contains :
    reader.AnswersLabels json hasher writer labels ↔
      writer.RereadsLabels json layout labels :=
  ⟨rereadsLabels_of_answersLabels written isDir holdsSample passes,
    answersLabels_of_rereadsLabels written isDir holdsSample passes⟩

end Written

end FullReader

open FullWriter in
/--
A query by labels over a written block is complete exactly when the filter is
right about it: either the query does not pass and no series that holds a
sample has its labels, or it passes, and the index and the time column give
back all series that have them.
-/
theorem queryByLabels_complete_iff {hasher : Bytes → UInt64}
    {json : Codec Error Labels} {blockId : UInt64} {calls : List AddedSeries}
    {writer : FullWriter} {layout : writer.toBlockWriter.Layout}
    {pointLayout : writer.PointLayout} {existing files : BlockFiles}
    (added : addAll hasher calls (new blockId) = .ok writer)
    (written :
      writer.write json layout pointLayout existing = .ok files)
    (labels : Labels) :
    (∃ reader,
        openFiles files = .ok reader ∧
          reader.AnswersLabels json hasher writer.toBlockWriter labels) ↔
      Passes hasher writer.toBlockWriter labels ∧
          writer.RereadsLabels json layout labels ∨
        ¬ Passes hasher writer.toBlockWriter labels ∧
          ¬ ∃ stored, writer.Stored stored ∧ labelsMatch stored labels := by
  have sound := filterSound_of_addAll added
  obtain ⟨writes, reader, opens, isDir, sameFilter⟩ :=
    sound.openFiles_of_write written
  obtain ⟨answer, contains, answerIff⟩ := sound.exists_contains labels
  rw [← sameFilter] at contains
  simp only [opens, Except.ok.injEq, exists_eq_left']
  cases answer with
  | true =>
    have passes := answerIff.mp rfl
    have holdsSample : ∃ stored, writer.Stored stored := by
      obtain ⟨stored, isStored, _⟩ := passes _ ⟨0, by decide, rfl⟩
      exact ⟨stored, isStored⟩
    rw [answersLabels_of_contains writes isDir holdsSample contains]
    simp [passes]
  | false =>
    have fails : ¬ Passes hasher writer.toBlockWriter labels :=
      fun passes => Bool.noConfusion (answerIff.mpr passes)
    rw [answersLabels_of_not_contains contains]
    simp [fails]

def twoLabels : AddedSeries where
  seriesId := 7
  labels := [⟨"a", "1"⟩, ⟨"b", "2"⟩]
  samples := [⟨1000, 1⟩]

open FullWriter in
theorem exists_twoLabels_block :
    ∃ writer layout pointLayout files,
      addAll SipHash.hash [twoLabels] (new 1) = .ok writer ∧
        writer.write labelsCodec layout pointLayout .empty = .ok files ∧
        ∀ stored, writer.Stored stored ↔ stored = twoLabels.labels := by
  obtain ⟨⟨base, downsampleData, bloomFilter⟩, added, isBase, sound⟩ :=
    (filterSound_new SipHash.hash 1).exists_addAll [twoLabels]
  obtain rfl : base = (BlockWriter.new 1).addAll [twoLabels] := isBase
  let writer : FullWriter :=
    ⟨(BlockWriter.new 1).addAll [twoLabels], downsampleData, bloomFilter⟩
  let pointLayout : writer.PointLayout := ⟨_, .refl _⟩
  have writes :=
    @write_of_noPoints labelsCodec writer (tableLayout _)
      sound.noPoints pointLayout .empty
  obtain ⟨dir, baseWrites⟩ :
      ∃ dir,
        writer.toBlockWriter.write labelsCodec (tableLayout _)
          BlockDir.empty = .ok dir :=
    ⟨_, rfl⟩
  cases written :
      writer.write labelsCodec (tableLayout _) pointLayout
        .empty with
  | error fault =>
    rw [written] at writes
    cases writes.trans baseWrites
  | ok files =>
    refine ⟨writer, _, pointLayout, files, added, written, ?_⟩
    intro stored
    refine (stored_addSeries (new 1) twoLabels.seriesId twoLabels.labels
      twoLabels.samples stored).trans ?_
    constructor
    · rintro (⟨_, _, found, _⟩ | ⟨_, same⟩)
      · exact absurd found (Option.not_mem_none _)
      · exact same.symm
    · rintro rfl
      exact .inr ⟨cons_ne_nil _ _, rfl⟩

open FullWriter in
theorem not_passes_of_probe {writer : BlockWriter} {known labels : Labels}
    (onlyKnown : ∀ stored, writer.Stored stored ↔ stored = known)
    (ownBit :
      ∃ i < 7, ∀ j < 7,
        BloomFilter.probe SipHash.hash 958506 (filterKey known) j ≠
          BloomFilter.probe SipHash.hash 958506 (filterKey labels) i) :
    ¬ Passes SipHash.hash writer labels := by
  intro passes
  obtain ⟨i, inRange, own⟩ := ownBit
  obtain ⟨stored, isStored, j, jInRange, same⟩ := passes _ ⟨i, inRange, rfl⟩
  rw [(onlyKnown stored).mp isStored] at same
  exact own j jInRange same

theorem other_label_finds_nothing :
    ∃ writer layout pointLayout files,
      FullWriter.addAll SipHash.hash [twoLabels] (FullWriter.new 1) =
          .ok writer ∧
        writer.write labelsCodec layout pointLayout .empty = .ok files ∧
        ∃ reader,
          openFiles files = .ok reader ∧
            reader.AnswersLabels labelsCodec SipHash.hash
              writer.toBlockWriter [⟨"c", "3"⟩] := by
  obtain ⟨writer, layout, pointLayout, files, added, written, onlyKnown⟩ :=
    exists_twoLabels_block
  refine ⟨writer, layout, pointLayout, files, added, written, ?_⟩
  apply (queryByLabels_complete_iff added written _).mpr
  refine .inr ⟨not_passes_of_probe onlyKnown (by decide +kernel), ?_⟩
  rintro ⟨stored, isStored, isMatch⟩
  rw [(onlyKnown stored).mp isStored] at isMatch
  exact absurd isMatch (by decide)

/--
A series with the labels a and b is not found by a query for the label a, which
names a bit of its own in the filter.
-/
theorem label_subset_finds_nothing :
    ¬ ∀ writer layout pointLayout files,
      FullWriter.addAll SipHash.hash [twoLabels] (FullWriter.new 1) =
        .ok writer →
      FullWriter.write labelsCodec writer layout pointLayout .empty =
        .ok files →
      ∃ reader,
        openFiles files = .ok reader ∧
          reader.AnswersLabels labelsCodec SipHash.hash
            writer.toBlockWriter [⟨"a", "1"⟩] := by
  intro complete
  obtain ⟨writer, layout, pointLayout, files, added, written, onlyKnown⟩ :=
    exists_twoLabels_block
  have sound := FullWriter.filterSound_of_addAll added
  obtain ⟨_, reader, opens, _, sameFilter⟩ := sound.openFiles_of_write written
  obtain ⟨answer, contains, answerIff⟩ := sound.exists_contains [⟨"a", "1"⟩]
  rw [← sameFilter] at contains
  have fails :=
    @not_passes_of_probe writer.toBlockWriter twoLabels.labels
      [⟨"a", "1"⟩] onlyKnown (by decide +kernel)
  obtain ⟨_, sameOpens, answers⟩ :=
    complete writer layout pointLayout files added written
  rw [opens] at sameOpens
  cases sameOpens
  cases answer with
  | true => exact fails (answerIff.mp rfl)
  | false =>
    apply (answersLabels_of_not_contains contains).mp answers
    exact ⟨_, (onlyKnown _).mpr rfl, by decide⟩

end ChronoDB.Columnstore
