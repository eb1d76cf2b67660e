import ChronoDB.Columnstore.Block
import ChronoDB.Columnstore.TimestampMismatch
import ChronoDB.Model.Enumerable

namespace ChronoDB.Columnstore

open Library List BlockWriter BlockReader

/-!
# The round trip of a block

What a reader needs to give back every series of a block is collected first:
index fields that are wide enough, and columns that start with the samples of
all series.  The second condition fails for every block with a sample.
-/

/-!
## What a writer holds
-/

/-- The arguments of one call of `add_series`. -/
structure AddedSeries where
  seriesId : TimeSeriesId
  labels : Labels
  samples : List Sample
  deriving Repr, DecidableEq

namespace BlockWriter

def addAll (writer : BlockWriter) (calls : List AddedSeries) : BlockWriter :=
  calls.foldl
    (fun writer call =>
      writer.addSeries call.seriesId call.labels call.samples)
    writer

/-- The samples that some calls added under an id, in order. -/
def addedTo (seriesId : TimeSeriesId) (calls : List AddedSeries) :
    List Sample :=
  calls.flatMap fun call =>
    if call.seriesId = seriesId then call.samples else []

theorem samplesOf_addSeries
    (writer : BlockWriter) (seriesId other : TimeSeriesId) (labels : Labels)
    (samples : List Sample) :
    (writer.addSeries seriesId labels samples).samplesOf other =
      writer.samplesOf other ++ if seriesId = other then samples else [] := by
  rw [samplesOf, samplesOf, addSeries]
  by_cases same : seriesId = other
  · subst same
    cases writer.seriesData.lookup seriesId <;> simp
  · simp [AList.lookup_insert_ne (Ne.symm same), same]

theorem mem_keys_addSeries
    (writer : BlockWriter) (seriesId other : TimeSeriesId) (labels : Labels)
    (samples : List Sample) :
    other ∈ (writer.addSeries seriesId labels samples).seriesData.keys ↔
      seriesId = other ∨ other ∈ writer.seriesData.keys := by
  rw [addSeries, ← AList.mem_keys, AList.mem_insert, AList.mem_keys, eq_comm]

theorem samplesOf_addAll (writer : BlockWriter) (calls : List AddedSeries)
    (seriesId : TimeSeriesId) :
    (writer.addAll calls).samplesOf seriesId =
      writer.samplesOf seriesId ++ addedTo seriesId calls := by
  induction calls generalizing writer with
  | nil => simp [addAll, addedTo]
  | cons call rest inductionHypothesis =>
    rw [addAll, foldl_cons, ← addAll, inductionHypothesis, samplesOf_addSeries,
      addedTo, addedTo, flatMap_cons, append_assoc]

theorem blockId_addAll (writer : BlockWriter) (calls : List AddedSeries) :
    (writer.addAll calls).blockId = writer.blockId := by
  induction calls generalizing writer with
  | nil => rfl
  | cons call rest inductionHypothesis =>
    rw [addAll, foldl_cons, ← addAll, inductionHypothesis]
    rfl

theorem mem_keys_addAll (writer : BlockWriter) (calls : List AddedSeries)
    (seriesId : TimeSeriesId) :
    seriesId ∈ (writer.addAll calls).seriesData.keys ↔
      (∃ call ∈ calls, call.seriesId = seriesId) ∨
        seriesId ∈ writer.seriesData.keys := by
  induction calls generalizing writer with
  | nil => simp [addAll]
  | cons call rest inductionHypothesis =>
    rw [addAll, foldl_cons, ← addAll, inductionHypothesis, mem_keys_addSeries]
    simp only [exists_mem_cons_iff]
    exact or_left_comm.trans or_assoc.symm

section Layout

variable {writer : BlockWriter} (layout : writer.Layout)

theorem mem_laidOut {seriesId : TimeSeriesId} {data : SeriesData} :
    (seriesId, data) ∈ writer.laidOut layout ↔
      writer.seriesData.lookup seriesId = some data := by
  rw [laidOut, mem_filterMap]
  constructor
  · rintro ⟨other, _, found⟩
    obtain ⟨content, found, same⟩ := Option.map_eq_some_iff.mp found
    cases same
    exact found
  · intro found
    refine ⟨seriesId, ?_, by rw [found]; rfl⟩
    exact layout.permuted.mem_iff.mpr
      (AList.mem_keys.mp (FiniteMap.mem_of_lookup found))

theorem map_fst_laidOut :
    (writer.laidOut layout).map Prod.fst = layout.order := by
  have known :
      ∀ seriesId ∈ layout.order,
        ((writer.seriesData.lookup seriesId).map fun data =>
          (seriesId, data)).map Prod.fst = some seriesId := by
    intro seriesId member
    obtain ⟨data, found⟩ :=
      FiniteMap.exists_lookup
        (AList.mem_keys.mpr (layout.permuted.mem_iff.mp member))
    rw [found]
    rfl
  rw [laidOut, map_filterMap, filterMap_congr known, filterMap_some]

theorem nodup_laidOut :
    ((writer.laidOut layout).map Prod.fst).Nodup := by
  rw [map_fst_laidOut]
  exact layout.permuted.nodup_iff.mpr writer.seriesData.keys_nodup

end Layout

end BlockWriter

/-!
## What a reader needs
-/

open BlockWriter

variable (offset : ℕ) (series : List (TimeSeriesId × SeriesData))

theorem map_seriesId_indexEntries :
    (indexEntries offset series).map SeriesIndexEntry.seriesId =
      series.map Prod.fst := by
  induction series generalizing offset with
  | nil => rfl
  | cons first rest inductionHypothesis =>
    simp [indexEntries, inductionHypothesis]

@[simp] theorem length_indexEntries :
    (indexEntries offset series).length = series.length := by
  simpa using congrArg List.length (map_seriesId_indexEntries offset series)

theorem numbersFit_indexEntries
    {offset : ℕ} {series : List (TimeSeriesId × SeriesData)}
    (capacity : offset + (allSamples series).length ≤ maxVecLength)
    {entry : SeriesIndexEntry} (member : entry ∈ indexEntries offset series) :
    entry.NumbersFit := by
  induction series generalizing offset with
  | nil => cases member
  | cons first rest inductionHypothesis =>
    rw [allSamples, flatMap_cons, length_append, ← allSamples] at capacity
    rcases mem_cons.mp member with rfl | later
    · rw [maxVecLength] at capacity
      constructor <;> simp only <;> omega
    · exact inductionHypothesis (by omega) later

theorem forall_labels_indexEntries (condition : Labels → Prop) :
    (∀ entry ∈ indexEntries offset series, condition entry.labels) ↔
      ∀ entry ∈ series, condition entry.2.labels := by
  induction series generalizing offset with
  | nil => simp [indexEntries]
  | cons first rest inductionHypothesis =>
    simp [indexEntries, inductionHypothesis]

def slice (items : List Sample) (entry : SeriesIndexEntry) : List Sample :=
  (items.drop entry.offset).take entry.count

/--
Every series stands at the positions of its index entry exactly when the items
start with the samples of all series.
-/
theorem slices_iff {series : List (TimeSeriesId × SeriesData)}
    (distinct : (series.map Prod.fst).Nodup) (items : List Sample)
    (offset : ℕ) :
    (∀ pair ∈ series, ∃ entry,
        (indexEntries offset series).find?
            (fun entry => entry.seriesId = pair.1) = some entry ∧
          slice items entry = pair.2.samples) ↔
      allSamples series <+: items.drop offset := by
  induction series generalizing offset with
  | nil => simp [allSamples]
  | cons first rest inductionHypothesis =>
    obtain ⟨seriesId, data⟩ := first
    rw [map_cons, nodup_cons] at distinct
    obtain ⟨fresh, distinctRest⟩ := distinct
    have restFound :
        ∀ pair ∈ rest,
          (indexEntries offset ((seriesId, data) :: rest)).find?
              (fun entry => entry.seriesId = pair.1) =
            (indexEntries (offset + data.samples.length) rest).find?
              (fun entry => entry.seriesId = pair.1) := by
      intro pair member
      have different : ¬ seriesId = pair.1 := by
        intro same
        rw [same] at fresh
        exact fresh (mem_map.mpr ⟨pair, member, rfl⟩)
      rw [indexEntries, find?_cons_of_neg (by simpa using different)]
    have firstSlice :
        slice items {
            seriesId := seriesId
            labels := data.labels
            offset := offset
            count := data.samples.length
          } = data.samples ↔
        data.samples <+: items.drop offset := by
      rw [slice, prefix_iff_eq_take, eq_comm]
    have restPrefix := inductionHypothesis distinctRest
      (offset + data.samples.length)
    have whole :
        allSamples ((seriesId, data) :: rest) <+: items.drop offset ↔
          data.samples <+: items.drop offset ∧
            allSamples rest <+: items.drop (offset + data.samples.length) := by
      rw [allSamples, flatMap_cons, ← allSamples, ← drop_drop]
      constructor
      · rintro ⟨tail, same⟩
        rw [← same, append_assoc, drop_left]
        exact ⟨prefix_append _ _, prefix_append _ _⟩
      · rintro ⟨⟨tail, same⟩, isPrefix⟩
        rw [← same, drop_left] at isPrefix
        rw [← same]
        exact (prefix_append_right_inj _).mpr isPrefix
    rw [whole, ← restPrefix, ← firstSlice, forall_mem_cons]
    constructor
    · rintro ⟨⟨entry, found, isSlice⟩, others⟩
      rw [indexEntries, find?_cons_of_pos (by simp)] at found
      cases found
      refine ⟨isSlice, fun pair member => ?_⟩
      rw [← restFound pair member]
      exact others pair member
    · rintro ⟨isSlice, others⟩
      refine ⟨⟨_, ?_, isSlice⟩, fun pair member => ?_⟩
      · rw [indexEntries, find?_cons_of_pos (by simp)]
      · rw [restFound pair member]
        exact others pair member

namespace BlockReader

variable {json : Codec Error Labels} {reader : BlockReader}

def HoldsColumns (reader : BlockReader) (items : List Sample) : Prop :=
  ∃ timeColumn valueColumn timestamps,
    reader.dir.timeColumn = some timeColumn ∧
      reader.dir.valueColumn = some valueColumn ∧
      decodeTimestampColumn timeColumn = .ok timestamps ∧
      items = List.zipWith Sample.mk timestamps (decodeValueColumn valueColumn)

theorem query_eq_ok_iff {seriesId : TimeSeriesId} {samples : List Sample} :
    reader.query json seriesId Int64.minValue Int64.maxValue = .ok samples ↔
      ∃ index entry items,
        reader.readIndex json = .ok index ∧
          index.find? (fun entry => entry.seriesId = seriesId) = some entry ∧
          reader.HoldsColumns items ∧
          slice items entry = samples := by
  have unfiltered :
      ∀ items : List Sample,
        items.filter (Sample.inRange Int64.minValue Int64.maxValue) = items :=
    fun items => filter_eq_self.mpr fun sample _ =>
      Sample.inRange_full sample
  constructor
  · intro answered
    rw [query] at answered
    split at answered
    · cases answered
    · rename_i index readsIndex
      split at answered
      · cases answered
      · rename_i entry found
        split at answered
        · rename_i timeColumn valueColumn hasTime hasValue
          split at answered
          · cases answered
          · rename_i timestamps decoded
            rw [unfiltered, Except.ok.injEq] at answered
            exact ⟨index, entry, _, readsIndex, found,
              ⟨timeColumn, valueColumn, timestamps, hasTime, hasValue,
                decoded, rfl⟩, answered⟩
        · cases answered
  · rintro ⟨index, entry, items, readsIndex, found, holds, isSlice⟩
    obtain ⟨timeColumn, valueColumn, timestamps, hasTime, hasValue, decoded,
      rfl⟩ := holds
    rw [query]
    simp only [readsIndex, found, hasTime, hasValue, decoded, unfiltered]
    rw [← isSlice]
    rfl

theorem HoldsColumns.unique
    {first second : List Sample} (holdsFirst : reader.HoldsColumns first)
    (holdsSecond : reader.HoldsColumns second) :
    first = second := by
  obtain ⟨time, value, timestamps, hasTime, hasValue, decoded, rfl⟩ :=
    holdsFirst
  obtain ⟨_, _, _, sameTime, sameValue, sameDecoded, rfl⟩ := holdsSecond
  rw [hasTime] at sameTime
  rw [hasValue] at sameValue
  cases sameTime
  cases sameValue
  rw [decoded] at sameDecoded
  cases sameDecoded
  rfl

/-- The entries of an index that a reader gets to see. -/
def entriesRead (series : List (TimeSeriesId × SeriesData)) :
    List SeriesIndexEntry :=
  (indexEntries 0 series).take (series.length % 2 ^ 32)

variable {series : List (TimeSeriesId × SeriesData)}

theorem entriesRead_of_small (small : series.length < 2 ^ 32) :
    entriesRead series = indexEntries 0 series := by
  rw [entriesRead, Nat.mod_eq_of_lt small]
  exact take_of_length_le (by simp)

theorem find?_of_find?_entriesRead
    {seriesId : TimeSeriesId} {entry : SeriesIndexEntry}
    (found :
      (entriesRead series).find?
        (fun entry => entry.seriesId = seriesId) = some entry) :
    (indexEntries 0 series).find?
      (fun entry => entry.seriesId = seriesId) = some entry := by
  obtain ⟨rest, whole⟩ : entriesRead series <+: indexEntries 0 series :=
    take_prefix _ _
  rw [← whole, find?_append, found]
  rfl

theorem small_of_find?_entriesRead (distinct : (series.map Prod.fst).Nodup)
    (finds :
      ∀ pair ∈ series, ∃ entry,
        (entriesRead series).find?
          (fun entry => entry.seriesId = pair.1) = some entry) :
    series.length < 2 ^ 32 := by
  have subset :
      series.map Prod.fst ⊆
        (entriesRead series).map SeriesIndexEntry.seriesId := by
    intro seriesId member
    obtain ⟨pair, inSeries, rfl⟩ := mem_map.mp member
    obtain ⟨entry, found⟩ := finds pair inSeries
    have sameId : entry.seriesId = pair.1 := by
      simpa using find?_some found
    exact mem_map.mpr ⟨entry, mem_of_find?_eq_some found, sameId⟩
  have lengths := (subperm_of_subset distinct subset).length_le
  simp only [entriesRead, length_map, length_take,
    length_indexEntries] at lengths
  have bound := Nat.mod_lt series.length (show 0 < 2 ^ 32 by decide)
  omega

/--
A reader gives back all series of an index that was built for them exactly when
the index is small enough and the columns start with their samples.
-/
theorem query_all_iff
    (nonempty : series ≠ []) (distinct : (series.map Prod.fst).Nodup)
    (capacity : (allSamples series).length ≤ maxVecLength)
    (isIndex :
      reader.dir.index = some (buildIndex json (indexEntries 0 series))) :
    (∀ pair ∈ series,
        reader.query json pair.1 Int64.minValue Int64.maxValue =
          .ok pair.2.samples) ↔
      series.length < 2 ^ 32 ∧
        (∀ pair ∈ series, LabelsFit json pair.2.labels) ∧
        ∃ items, reader.HoldsColumns items ∧ allSamples series <+: items := by
  have numbersFit : ∀ entry ∈ indexEntries 0 series, entry.NumbersFit :=
    fun _ member => numbersFit_indexEntries (by omega) member
  have reads : ∀ parsed,
      reader.readIndex json = .ok parsed ↔
        parsed = entriesRead series ∧
          ∀ entry ∈ entriesRead series, LabelsFit json entry.labels := by
    intro parsed
    rw [readIndex_buildIndex_eq_ok_iff json isIndex numbersFit,
      length_indexEntries, entriesRead]
  constructor
  · intro answers
    have parts :
        ∀ pair ∈ series, ∃ entry items,
          (entriesRead series).find?
              (fun entry => entry.seriesId = pair.1) =
              some entry ∧
            reader.HoldsColumns items ∧
            slice items entry = pair.2.samples ∧
            ∀ entry ∈ entriesRead series, LabelsFit json entry.labels := by
      intro pair member
      obtain ⟨index, entry, items, readsIndex, found, holds, isSlice⟩ :=
        query_eq_ok_iff.mp (answers pair member)
      obtain ⟨rfl, labelsFit⟩ := (reads index).mp readsIndex
      exact ⟨entry, items, found, holds, isSlice, labelsFit⟩
    have small : series.length < 2 ^ 32 := by
      refine small_of_find?_entriesRead distinct fun pair member => ?_
      obtain ⟨entry, _, found, _⟩ := parts pair member
      exact ⟨entry, found⟩
    obtain ⟨first, rest, rfl⟩ := exists_cons_of_ne_nil nonempty
    obtain ⟨_, items, _, holds, _, labelsFit⟩ := parts first mem_cons_self
    rw [entriesRead_of_small small, forall_labels_indexEntries] at labelsFit
    refine ⟨small, labelsFit, items, holds, ?_⟩
    have sliced := (slices_iff distinct items 0).mp ?_
    · simpa using sliced
    · intro pair member
      obtain ⟨entry, others, found, holdsOthers, isSlice, _⟩ :=
        parts pair member
      rw [← holds.unique holdsOthers] at isSlice
      exact ⟨entry, find?_of_find?_entriesRead found, isSlice⟩
  · rintro ⟨small, labelsFit, items, holds, isPrefix⟩ pair member
    have readsWhole : reader.readIndex json = .ok (indexEntries 0 series) := by
      rw [reads, entriesRead_of_small small, forall_labels_indexEntries]
      exact ⟨rfl, labelsFit⟩
    obtain ⟨entry, found, isSlice⟩ :=
      (slices_iff distinct items 0).mpr (by simpa using isPrefix) pair member
    exact query_eq_ok_iff.mpr
      ⟨_, entry, items, readsWhole, found, holds, isSlice⟩

end BlockReader

theorem summedTwice_of_exact {values dods : List Int64}
    (exact :
      values.map Int64.toInt = summedTwice 0 0 (dods.map Int64.toInt)) :
    values = summedTwice 0 0 dods := by
  have wrapped := congrArg (List.map Int64.ofInt) exact
  rw [map_summedTwice Int64.ofInt_add] at wrapped
  simpa [map_map, Function.comp_def] using wrapped

theorem isPrefix_timestamps_zipWith
    (timestamps : List Timestamp) (values : List Value) :
    (List.zipWith Sample.mk timestamps values).map Sample.timestamp <+:
      timestamps := by
  induction timestamps generalizing values with
  | nil => simp
  | cons timestamp rest inductionHypothesis =>
    cases values with
    | nil => simp
    | cons value others => simpa using inductionHypothesis others

theorem not_prefix_of_buildTimestampColumn
    {reader : BlockReader} {samples items : List Sample} {timeColumn : Bytes}
    (nonempty : samples ≠ [])
    (built :
      buildTimestampColumn (samples.map Sample.timestamp) = .ok timeColumn)
    (isTime : reader.dir.timeColumn = some timeColumn)
    (holds : reader.HoldsColumns items) :
    ¬ samples <+: items := by
  intro isPrefix
  obtain ⟨_, valueColumn, timestamps, hasTime, _, decoded, rfl⟩ := holds
  rw [isTime] at hasTime
  cases hasTime
  obtain ⟨written, isWritten, exact⟩ :=
    Compression.DeltaOfDeltaEncoder.encodeBatch_eq_ok built
  have exact :
      (samples.map Sample.timestamp).map Int64.toInt =
        summedTwice 0 0 (written.map Int64.toInt) := exact
  obtain ⟨read, isRead, isTimestamps⟩ := decodeTimestampsFrom_eq_ok decoded
  have startsRight : samples.map Sample.timestamp <+: timestamps := by
    exact (isPrefix.map Sample.timestamp).trans
      (isPrefix_timestamps_zipWith _ _)
  rw [summedTwice_of_exact exact, isTimestamps] at startsRight
  have writtenNonempty : written ≠ [] := by
    rintro rfl
    have lengths := congrArg List.length exact
    simp only [length_map, length_summedTwice, length_nil] at lengths
    exact nonempty (eq_nil_of_length_eq_zero lengths)
  exact varints_ne_fixed writtenNonempty
    (isPrefix_of_summedTwice startsRight) exact
    (isWritten.symm.trans isRead)

/-!
## When a written block is read back
-/

namespace BlockWriter

/-- The index of a block is small enough for its length fields. -/
def IndexFits (json : Codec Error Labels) (writer : BlockWriter) : Prop :=
  writer.seriesData.keys.length < 2 ^ 32 ∧
    ∀ seriesId data,
      writer.seriesData.lookup seriesId = some data →
      LabelsFit json data.labels

end BlockWriter

/-- A directory holds both columns, and its time column has whole chunks. -/
def BlockDir.HasColumns (dir : BlockDir) : Prop :=
  ∃ timeColumn valueColumn,
    dir.timeColumn = some timeColumn ∧
      dir.valueColumn = some valueColumn ∧
      8 ∣ timeColumn.length

theorem BlockReader.exists_holdsColumns_iff (reader : BlockReader) :
    (∃ items, reader.HoldsColumns items) ↔ reader.dir.HasColumns := by
  constructor
  · rintro ⟨_, timeColumn, valueColumn, timestamps, hasTime, hasValue,
      decoded, _⟩
    exact ⟨timeColumn, valueColumn, hasTime, hasValue,
      (decodeTimestampColumn_isOk_iff timeColumn).mp ⟨timestamps, decoded⟩⟩
  · rintro ⟨timeColumn, valueColumn, hasTime, hasValue, whole⟩
    obtain ⟨timestamps, decoded⟩ :=
      (decodeTimestampColumn_isOk_iff timeColumn).mpr whole
    exact ⟨_, timeColumn, valueColumn, timestamps, hasTime, hasValue,
      decoded, rfl⟩

theorem BlockDir.HasColumns.congr
    {first second : BlockDir} (sameTime : first.timeColumn = second.timeColumn)
    (sameValue : first.valueColumn = second.valueColumn) :
    first.HasColumns ↔ second.HasColumns := by
  rw [HasColumns, HasColumns, sameTime, sameValue]

namespace BlockWriter

variable {json : Codec Error Labels} {writer : BlockWriter}
variable {layout : writer.Layout} {existing dir : BlockDir}

theorem write_eq_ok (written : writer.write json layout existing = .ok dir) :
    (allSamples (writer.laidOut layout)).length ≤ maxVecLength ∧
      dir.index =
        some (buildIndex json (indexEntries 0 (writer.laidOut layout))) ∧
      dir.metadata = some (writer.blockMeta (writer.laidOut layout)) ∧
      (allSamples (writer.laidOut layout) = [] →
        dir.timeColumn = existing.timeColumn ∧
          dir.valueColumn = existing.valueColumn) ∧
      (allSamples (writer.laidOut layout) ≠ [] →
        ∃ timeColumn,
          dir.timeColumn = some timeColumn ∧
            buildTimestampColumn
                ((allSamples (writer.laidOut layout)).map
                  Sample.timestamp) = .ok timeColumn) := by
  rw [write] at written
  split at written
  · cases written
  · rename_i capacity
    refine ⟨not_lt.mp capacity, ?_⟩
    split at written
    · rename_i empty
      cases written
      exact ⟨rfl, rfl, fun _ => ⟨rfl, rfl⟩, fun some => absurd empty some⟩
    · rename_i nonempty
      split at written
      · cases written
      · rename_i timeColumn built
        cases written
        exact ⟨rfl, rfl, fun empty => absurd empty nonempty,
          fun _ => ⟨timeColumn, rfl, built⟩⟩

theorem openDir_of_write
    (written : writer.write json layout existing = .ok dir) :
    openDir dir =
      .ok {
        dir := dir
        metadata := writer.blockMeta (writer.laidOut layout)
      } := by
  obtain ⟨_, _, hasMetadata, _⟩ := write_eq_ok written
  rw [openDir, hasMetadata]
  rfl

theorem samplesOf_of_lookup {seriesId : TimeSeriesId} {data : SeriesData}
    (known : writer.seriesData.lookup seriesId = some data) :
    writer.samplesOf seriesId = data.samples := by
  rw [samplesOf, known]
  rfl

theorem samples_of_mem_laidOut
    {pair : TimeSeriesId × SeriesData} (member : pair ∈ writer.laidOut layout) :
    pair.2.samples = writer.samplesOf pair.1 :=
  (samplesOf_of_lookup ((mem_laidOut layout).mp member)).symm

theorem forall_laidOut_iff (condition : TimeSeriesId → List Sample → Prop) :
    (∀ pair ∈ writer.laidOut layout, condition pair.1 pair.2.samples) ↔
      ∀ seriesId ∈ writer.seriesData.keys,
        condition seriesId (writer.samplesOf seriesId) := by
  constructor
  · intro holds seriesId known
    obtain ⟨data, found⟩ := FiniteMap.exists_lookup (AList.mem_keys.mpr known)
    have member := (mem_laidOut layout).mpr found
    have instanceHolds := holds _ member
    rwa [samples_of_mem_laidOut member] at instanceHolds
  · intro holds pair member
    rw [samples_of_mem_laidOut member]
    exact holds pair.1 (AList.mem_keys.mp
      (FiniteMap.mem_of_lookup ((mem_laidOut layout).mp member)))

theorem length_laidOut :
    (writer.laidOut layout).length = writer.seriesData.keys.length := by
  have lengths := congrArg List.length (map_fst_laidOut layout)
  rw [length_map, layout.permuted.length_eq] at lengths
  exact lengths

theorem indexFits_iff :
    writer.IndexFits json ↔
      (writer.laidOut layout).length < 2 ^ 32 ∧
        ∀ pair ∈ writer.laidOut layout, LabelsFit json pair.2.labels := by
  rw [IndexFits, length_laidOut]
  refine and_congr_right fun _ => ?_
  constructor
  · intro fits pair member
    exact fits pair.1 pair.2 ((mem_laidOut layout).mp member)
  · intro fits seriesId data found
    exact fits _ ((mem_laidOut layout).mpr found)

/--
A written block gives back all of its series exactly when it has none, or when
none of them has a sample, the index fits, and the directory held columns
before.
-/
theorem write_reads_back_iff
    (written : writer.write json layout existing = .ok dir) :
    (∀ seriesId ∈ writer.seriesData.keys, ∃ reader,
        openDir dir = .ok reader ∧
          reader.query json seriesId Int64.minValue Int64.maxValue =
            .ok (writer.samplesOf seriesId)) ↔
      writer.seriesData.keys = [] ∨
        (∀ seriesId ∈ writer.seriesData.keys, writer.samplesOf seriesId = []) ∧
          writer.IndexFits json ∧ existing.HasColumns := by
  obtain ⟨capacity, isIndex, _, keepsColumns, buildsColumns⟩ :=
    write_eq_ok written
  have opened := openDir_of_write written
  have noSamples :
      allSamples (writer.laidOut layout) = [] ↔
        ∀ seriesId ∈ writer.seriesData.keys,
          writer.samplesOf seriesId = [] := by
    rw [allSamples, flatMap_eq_nil_iff]
    exact forall_laidOut_iff fun _ samples => samples = []
  let reader : BlockReader := {
    dir := dir
    metadata := writer.blockMeta (writer.laidOut layout)
  }
  have queries :
      (∀ seriesId ∈ writer.seriesData.keys, ∃ reader,
          openDir dir = .ok reader ∧
            reader.query json seriesId Int64.minValue Int64.maxValue =
              .ok (writer.samplesOf seriesId)) ↔
        ∀ pair ∈ writer.laidOut layout,
          reader.query json pair.1 Int64.minValue Int64.maxValue =
            .ok pair.2.samples := by
    simp only [opened, Except.ok.injEq, exists_eq_left']
    exact (forall_laidOut_iff fun seriesId samples =>
      reader.query json seriesId Int64.minValue Int64.maxValue =
        .ok samples).symm
  rw [queries]
  by_cases someSeries : writer.seriesData.keys = []
  · have nothing : writer.laidOut layout = [] := by
      apply eq_nil_of_length_eq_zero
      rw [length_laidOut, someSeries, length_nil]
    simp [nothing, someSeries]
  · have nonempty : writer.laidOut layout ≠ [] := by
      intro nothing
      have lengths := @length_laidOut writer layout
      rw [nothing] at lengths
      exact someSeries (eq_nil_of_length_eq_zero lengths.symm)
    rw [query_all_iff nonempty (nodup_laidOut layout) capacity
      isIndex, or_iff_right someSeries, @indexFits_iff json writer layout,
      ← noSamples, and_assoc]
    by_cases empty : allSamples (writer.laidOut layout) = []
    · obtain ⟨sameTime, sameValue⟩ := keepsColumns empty
      have columns := reader.exists_holdsColumns_iff
      rw [BlockDir.HasColumns.congr sameTime sameValue] at columns
      simp only [empty, nil_prefix, and_true, true_and, columns]
    · obtain ⟨timeColumn, isTime, built⟩ := buildsColumns empty
      constructor
      · rintro ⟨_, _, items, holds, isPrefix⟩
        exact absurd isPrefix
          (not_prefix_of_buildTimestampColumn empty built isTime holds)
      · rintro ⟨allEmpty, _⟩
        exact absurd allEmpty empty

theorem forall_calls_iff (blockId : UInt64) (calls : List AddedSeries)
    (condition : TimeSeriesId → List Sample → Prop) :
    (∀ call ∈ calls, condition call.seriesId (addedTo call.seriesId calls)) ↔
      ∀ seriesId ∈ ((new blockId).addAll calls).seriesData.keys,
        condition seriesId
          (((new blockId).addAll calls).samplesOf seriesId) := by
  have held :
      ∀ seriesId,
        ((new blockId).addAll calls).samplesOf seriesId =
          addedTo seriesId calls := by
    intro seriesId
    rw [samplesOf_addAll]
    rfl
  have known :
      ∀ seriesId,
        seriesId ∈ ((new blockId).addAll calls).seriesData.keys ↔
          ∃ call ∈ calls, call.seriesId = seriesId := by
    intro seriesId
    rw [mem_keys_addAll]
    simp [new]
  simp only [held, known]
  constructor
  · rintro holds _ ⟨call, member, rfl⟩
    exact holds call member
  · intro holds call member
    exact holds _ ⟨call, member, rfl⟩

theorem forall_addedTo_eq_nil_iff (calls : List AddedSeries) :
    (∀ call ∈ calls, addedTo call.seriesId calls = []) ↔
      ∀ call ∈ calls, call.samples = [] := by
  constructor
  · intro empty call member
    have added := empty call member
    rw [addedTo, flatMap_eq_nil_iff] at added
    simpa using added call member
  · intro empty call _
    rw [addedTo, flatMap_eq_nil_iff]
    intro other member
    simp [empty other member]

theorem keys_addAll_eq_nil_iff (blockId : UInt64) (calls : List AddedSeries) :
    ((new blockId).addAll calls).seriesData.keys = [] ↔ calls = [] := by
  have nothing := forall_calls_iff blockId calls fun _ _ => False
  simpa [eq_nil_iff_forall_not_mem] using nothing.symm

end BlockWriter

/--
A block that was written gives back what was added to it exactly when nothing
was added at all, or only series without samples, with an index that fits, to a
directory that held columns before.
-/
theorem block_roundTrip_iff {json : Codec Error Labels} {blockId : UInt64}
    {calls : List AddedSeries}
    {layout : ((new blockId).addAll calls).Layout}
    {existing dir : BlockDir}
    (written :
      ((new blockId).addAll calls).write json layout existing =
        .ok dir) :
    (∀ call ∈ calls, ∃ reader,
        openDir dir = .ok reader ∧
          reader.query json call.seriesId Int64.minValue Int64.maxValue =
            .ok (addedTo call.seriesId calls)) ↔
      calls = [] ∨
        (∀ call ∈ calls, call.samples = []) ∧
          ((new blockId).addAll calls).IndexFits json ∧
          existing.HasColumns := by
  have reads :=
    forall_calls_iff blockId calls fun seriesId samples => ∃ reader,
      openDir dir = .ok reader ∧
        reader.query json seriesId Int64.minValue Int64.maxValue = .ok samples
  have empty := forall_calls_iff blockId calls fun _ samples => samples = []
  rw [reads, write_reads_back_iff written, keys_addAll_eq_nil_iff,
    ← empty, forall_addedTo_eq_nil_iff]

def BlockWriter.tableLayout (writer : BlockWriter) : writer.Layout where
  order := writer.seriesData.keys
  permuted := .refl _

/-- A codec for labels that writes the empty list as the serializer does. -/
def labelsCodec : Codec Error Labels :=
  (Codec.ofEncodable .serialization).tabulate {
    escape := 0
    entries := [([], stringBytes "[]")]
    escapeFree := by
      simp only [forall_mem_singleton]
      exact ⟨_, _, rfl, by decide⟩
    prefixFree := by
      simp
  } .serialization

/-- A directory with the columns of an older block. -/
def oldDir : BlockDir := {
  BlockDir.empty with
  timeColumn := some (List.replicate 8 0)
  valueColumn := some [1]
}

/-- One series without labels, with samples of choice. -/
def oneSeries (samples : List Sample) : List AddedSeries :=
  [{ seriesId := 1, labels := [], samples := samples }]

def oneSeriesWriter (samples : List Sample) : BlockWriter :=
  (new 1).addAll (oneSeries samples)

theorem indexFits_oneSeriesWriter :
    (oneSeriesWriter []).IndexFits labelsCodec := by
  refine ⟨by decide, fun seriesId data found => ?_⟩
  have member :=
    (mem_laidOut (oneSeriesWriter []).tableLayout).mpr found
  have laid :
      (oneSeriesWriter []).laidOut (oneSeriesWriter []).tableLayout =
        [(1, { labels := [], samples := [] })] :=
    rfl
  rw [laid, mem_singleton, Prod.mk.injEq] at member
  rw [LabelsFit, member.2]
  decide

/-- A series without samples is read back from a directory with columns. -/
theorem block_roundTrip_of_empty_series :
    ∃ dir,
      (oneSeriesWriter []).write labelsCodec (tableLayout _)
          oldDir = .ok dir ∧
        ∀ call ∈ oneSeries [], ∃ reader,
          openDir dir = .ok reader ∧
            reader.query labelsCodec call.seriesId Int64.minValue
                Int64.maxValue =
              .ok (addedTo call.seriesId (oneSeries [])) := by
  obtain ⟨dir, written⟩ :
      ∃ dir,
        (oneSeriesWriter []).write labelsCodec (tableLayout _)
          oldDir = .ok dir :=
    ⟨_, rfl⟩
  have empty : ∀ call ∈ oneSeries [], call.samples = [] := by
    simp [oneSeries]
  have columns : oldDir.HasColumns := ⟨_, _, rfl, rfl, by decide⟩
  exact ⟨dir, written, (block_roundTrip_iff written).mpr
    (.inr ⟨empty, indexFits_oneSeriesWriter, columns⟩)⟩

/--
One sample at millisecond 1000 is written in two bytes, where the reader takes
eight, so the block does not give it back.
-/
theorem block_loses_single_sample :
    ¬ ∀ dir,
      (oneSeriesWriter [⟨1000, 1⟩]).write labelsCodec
          (tableLayout _) .empty = .ok dir →
        ∀ call ∈ oneSeries [⟨1000, 1⟩], ∃ reader,
          openDir dir = .ok reader ∧
            reader.query labelsCodec call.seriesId Int64.minValue
                Int64.maxValue =
              .ok (addedTo call.seriesId
                (oneSeries [⟨1000, 1⟩])) := by
  intro readsBack
  obtain ⟨dir, written⟩ :
      ∃ dir,
        (oneSeriesWriter [⟨1000, 1⟩]).write labelsCodec
          (tableLayout _) .empty = .ok dir :=
    ⟨_, rfl⟩
  have reads :=
    (forall_calls_iff 1 (oneSeries [⟨1000, 1⟩])
      fun seriesId samples => ∃ reader,
        openDir dir = .ok reader ∧
          reader.query labelsCodec seriesId Int64.minValue
              Int64.maxValue = .ok samples).mp (readsBack dir written)
  rcases (write_reads_back_iff written).mp reads with
    nothing | ⟨empty, _⟩
  · exact absurd nothing (by decide)
  · exact absurd (empty 1 (by decide)) (by decide)

end ChronoDB.Columnstore
