import ChronoDB.Columnstore.Column
import ChronoDB.Library.Codec
import ChronoDB.Library.FiniteMap

namespace ChronoDB.Columnstore

open Library List

/-!
# Blocks

A block is a directory with one column file each for timestamps and values, an
index and metadata.  All series of a block share the columns, and the index
holds the offset and the length of each.  The series are laid out in the
iteration order of a hash table, which is an argument of `write`.
-/

structure SeriesData where
  labels : Labels
  samples : List Sample
  deriving Repr, DecidableEq

structure SeriesIndexEntry where
  seriesId : TimeSeriesId
  labels : Labels
  offset : ℕ
  count : ℕ
  deriving Repr, DecidableEq

def blockMagic : UInt32 := 0x4348524F

structure BlockMeta where
  magic : UInt32
  blockId : UInt64
  minTimestamp : Timestamp
  maxTimestamp : Timestamp
  totalSeries : ℕ
  totalSamples : ℕ
  compactionLevel : UInt8
  deriving Repr, DecidableEq

/-- The files of a block directory; a file that is missing is `none`. -/
structure BlockDir where
  timeColumn : Option Bytes
  valueColumn : Option (List Value)
  index : Option Bytes
  metadata : Option BlockMeta
  deriving Repr, DecidableEq

def BlockDir.empty : BlockDir where
  timeColumn := none
  valueColumn := none
  index := none
  metadata := none

/-!
## The index file
-/

/-- One entry of the index file; its labels are preceded by their length. -/
def indexEntryBytes (json : Codec Error Labels) (entry : SeriesIndexEntry) :
    Bytes :=
  leBytes 8 entry.seriesId.toNat ++ leBytes 8 entry.offset ++
    leBytes 8 entry.count ++
    leBytes 4 (json.encode entry.labels).length ++
    json.encode entry.labels

def buildIndex (json : Codec Error Labels) (entries : List SeriesIndexEntry) :
    Bytes :=
  leBytes 4 entries.length ++ entries.flatMap (indexEntryBytes json)

/-- The loop of `read_index` over the entries it expects. -/
def readIndexEntries (json : Codec Error Labels) :
    ℕ → Bytes → Except Error (List SeriesIndexEntry)
  | 0, _ => .ok []
  | count + 1, data =>
    if data.length < 24 then
      .ok []
    else if data.length < 28 then
      .ok []
    else
      let labelsLength := leValue ((data.drop 24).take 4)
      let body := data.drop 28
      if body.length < labelsLength then
        .ok []
      else
        match json.decode (body.take labelsLength) with
        | .error cause => .error cause
        | .ok labels =>
          match readIndexEntries json count (body.drop labelsLength) with
          | .error cause => .error cause
          | .ok later =>
            .ok ({
              seriesId := UInt64.ofNat (leValue (data.take 8))
              labels := labels
              offset := leValue ((data.drop 8).take 8)
              count := leValue ((data.drop 16).take 8)
            } :: later)

/-!
## Writing
-/

structure BlockWriter where
  blockId : UInt64
  seriesData : FiniteMap TimeSeriesId SeriesData

namespace BlockWriter

def new (blockId : UInt64) : BlockWriter where
  blockId := blockId
  seriesData := ∅

/-- Samples of a series that is there already keep its labels. -/
def addSeries (writer : BlockWriter) (seriesId : TimeSeriesId) (labels : Labels)
    (samples : List Sample) :
    BlockWriter :=
  let data :=
    (writer.seriesData.lookup seriesId).getD { labels := labels, samples := [] }
  {
    writer with
    seriesData :=
      writer.seriesData.insert seriesId
        { data with samples := data.samples ++ samples }
  }

structure Layout (writer : BlockWriter) where
  order : List TimeSeriesId
  permuted : order.Perm writer.seriesData.keys

def laidOut (writer : BlockWriter) (layout : writer.Layout) :
    List (TimeSeriesId × SeriesData) :=
  layout.order.filterMap fun seriesId =>
    (writer.seriesData.lookup seriesId).map fun data => (seriesId, data)

/-- The index entries of series that start at an offset of the columns. -/
def indexEntries (offset : ℕ) :
    List (TimeSeriesId × SeriesData) → List SeriesIndexEntry
  | [] => []
  | (seriesId, data) :: rest =>
    {
      seriesId := seriesId
      labels := data.labels
      offset := offset
      count := data.samples.length
    } :: indexEntries (offset + data.samples.length) rest

/-- The samples of laid out series, as the columns hold them. -/
def allSamples (series : List (TimeSeriesId × SeriesData)) : List Sample :=
  series.flatMap fun entry => entry.2.samples

/-- A vector of eight-byte items holds at most `isize::MAX` bytes. -/
def maxVecLength : ℕ := (2 ^ 63 - 1) / 8

def blockMeta
    (writer : BlockWriter) (series : List (TimeSeriesId × SeriesData)) :
    BlockMeta :=
  let timestamps := (allSamples series).map Sample.timestamp
  {
    magic := blockMagic
    blockId := writer.blockId
    minTimestamp := timestamps.min?.getD 0
    maxTimestamp := timestamps.max?.getD 0
    totalSeries := series.length
    totalSamples := timestamps.length
    compactionLevel := 0
  }

/--
`BlockWriter::write` into a directory with the given files.  Nothing is written
before all columns are built, and without samples there are no columns to write.
-/
def write
    (json : Codec Error Labels) (writer : BlockWriter) (layout : writer.Layout)
    (existing : BlockDir) :
    Except Fault BlockDir :=
  let series := writer.laidOut layout
  let samples := allSamples series
  if maxVecLength < samples.length then
    .error .panic
  else
    let described : BlockDir := {
      existing with
      index := some (buildIndex json (indexEntries 0 series))
      metadata := some (writer.blockMeta series)
    }
    if samples = [] then
      .ok described
    else
      match buildTimestampColumn (samples.map Sample.timestamp) with
      | .error cause => .error (.error cause)
      | .ok timeColumn =>
        .ok {
          described with
          timeColumn := some timeColumn
          valueColumn := some (buildValueColumn (samples.map Sample.value))
        }

/-- The samples that were added under an id. -/
def samplesOf (writer : BlockWriter) (seriesId : TimeSeriesId) :
    List Sample :=
  (writer.seriesData.lookup seriesId).elim [] SeriesData.samples

end BlockWriter

/-!
## Reading
-/

structure BlockReader where
  dir : BlockDir
  metadata : BlockMeta

namespace BlockReader

def openDir (dir : BlockDir) : Except Error BlockReader :=
  match dir.metadata with
  | none => .error (.io .notFound)
  | some metadata =>
    if metadata.magic ≠ blockMagic then
      .error (.invalidData "Invalid block magic")
    else
      .ok { dir := dir, metadata := metadata }

def readIndex (json : Codec Error Labels) (reader : BlockReader) :
    Except Error (List SeriesIndexEntry) :=
  match reader.dir.index with
  | none => .error (.io .notFound)
  | some data =>
    if data.length < 4 then
      .ok []
    else
      readIndexEntries json (leValue (data.take 4)) (data.drop 4)

/-- The samples at the positions of an index entry that both columns have. -/
def samplesAt (entry : SeriesIndexEntry) (timestamps : List Timestamp)
    (values : List Value) :
    List Sample :=
  ((List.zipWith Sample.mk timestamps values).drop entry.offset).take
    entry.count

def query
    (json : Codec Error Labels) (reader : BlockReader) (seriesId : TimeSeriesId)
    (start stop : Timestamp) :
    Except Fault (List Sample) :=
  match reader.readIndex json with
  | .error cause => .error (.error cause)
  | .ok index =>
    match index.find? fun entry => entry.seriesId = seriesId with
    | none => .error (.error (.seriesNotFound seriesId))
    | some entry =>
      match reader.dir.timeColumn, reader.dir.valueColumn with
      | some timeColumn, some valueColumn =>
        match decodeTimestampColumn timeColumn with
        | .error fault => .error fault
        | .ok timestamps =>
          .ok ((samplesAt entry timestamps
            (decodeValueColumn valueColumn)).filter (Sample.inRange start stop))
      | _, _ => .error (.error (.io .notFound))

end BlockReader

/-!
## What the index reads back
-/

section Index

variable (json : Codec Error Labels)

/-- The labels of an index entry fit their length field. -/
def LabelsFit (labels : Labels) : Prop :=
  (json.encode labels).length < 2 ^ 32

def SeriesIndexEntry.NumbersFit (entry : SeriesIndexEntry) : Prop :=
  entry.offset < 2 ^ 64 ∧ entry.count < 2 ^ 64

/-- The numbers in front of the labels of an entry. -/
def indexEntryHead (entry : SeriesIndexEntry) : Bytes :=
  leBytes 8 entry.seriesId.toNat ++ leBytes 8 entry.offset ++
    leBytes 8 entry.count ++
    leBytes 4 (json.encode entry.labels).length

@[simp] theorem length_indexEntryHead (entry : SeriesIndexEntry) :
    (indexEntryHead json entry).length = 28 := by
  simp [indexEntryHead]

theorem indexEntryBytes_eq (entry : SeriesIndexEntry) :
    indexEntryBytes json entry =
      indexEntryHead json entry ++ json.encode entry.labels :=
  rfl

theorem length_indexEntryBytes (entry : SeriesIndexEntry) :
    (indexEntryBytes json entry).length =
      28 + (json.encode entry.labels).length := by
  simp only [indexEntryBytes, length_append, length_leBytes]

variable (count : ℕ) {entry : SeriesIndexEntry}

theorem readIndexEntries_head (numbersFit : entry.NumbersFit) (body : Bytes) :
    readIndexEntries json (count + 1) (indexEntryHead json entry ++ body) =
      let labelsLength := (json.encode entry.labels).length % 2 ^ 32
      if body.length < labelsLength then
        .ok []
      else
        match json.decode (body.take labelsLength) with
        | .error cause => .error cause
        | .ok labels =>
          match readIndexEntries json count (body.drop labelsLength) with
          | .error cause => .error cause
          | .ok later => .ok ({ entry with labels := labels } :: later) := by
  have long := length_indexEntryHead json entry
  have idField :
      (indexEntryHead json entry ++ body).take 8 =
        leBytes 8 entry.seriesId.toNat := by
    simp [indexEntryHead]
  have offsetField :
      ((indexEntryHead json entry ++ body).drop 8).take 8 =
        leBytes 8 entry.offset := by
    simp [indexEntryHead]
  have countField :
      ((indexEntryHead json entry ++ body).drop 16).take 8 =
        leBytes 8 entry.count := by
    simp [indexEntryHead, drop_append]
  have lengthField :
      ((indexEntryHead json entry ++ body).drop 24).take 4 =
        leBytes 4 (json.encode entry.labels).length := by
    simp [indexEntryHead, drop_append]
  have bodyField : (indexEntryHead json entry ++ body).drop 28 = body :=
    drop_left' long
  have sameId :
      UInt64.ofNat (leValue (leBytes 8 entry.seriesId.toNat)) =
        entry.seriesId := by
    rw [leValue_leBytes_of_lt entry.seriesId.toNat_lt]
    simp
  have lengthRead :
      leValue (leBytes 4 (json.encode entry.labels).length) =
        (json.encode entry.labels).length % 2 ^ 32 :=
    leValue_leBytes 4 _
  rw [readIndexEntries, if_neg (by rw [length_append]; omega),
    if_neg (by rw [length_append]; omega)]
  simp only [idField, offsetField, countField, lengthField, bodyField,
    sameId, lengthRead,
    leValue_leBytes_of_lt (show entry.offset < 256 ^ 8 from numbersFit.1),
    leValue_leBytes_of_lt (show entry.count < 256 ^ 8 from numbersFit.2)]

theorem readIndexEntries_succ
    (entry : SeriesIndexEntry) (numbersFit : entry.NumbersFit) (rest : Bytes) :
    readIndexEntries json (count + 1) (indexEntryBytes json entry ++ rest) =
      let labelsLength := (json.encode entry.labels).length % 2 ^ 32
      let body := json.encode entry.labels ++ rest
      match json.decode (body.take labelsLength) with
      | .error cause => .error cause
      | .ok labels =>
        match readIndexEntries json count (body.drop labelsLength) with
        | .error cause => .error cause
        | .ok later => .ok ({ entry with labels := labels } :: later) := by
  have notShort :
      ¬ (json.encode entry.labels ++ rest).length <
        (json.encode entry.labels).length % 2 ^ 32 := by
    have atMost := Nat.mod_le (json.encode entry.labels).length (2 ^ 32)
    rw [length_append]
    omega
  rw [indexEntryBytes_eq, append_assoc,
    readIndexEntries_head json count numbersFit]
  simp only [if_neg notShort]

theorem readIndexEntries_of_fit
    (numbersFit : entry.NumbersFit) (labelsFit : LabelsFit json entry.labels)
    (rest : Bytes) :
    readIndexEntries json (count + 1) (indexEntryBytes json entry ++ rest) =
      match readIndexEntries json count rest with
      | .error cause => .error cause
      | .ok later => .ok (entry :: later) := by
  rw [readIndexEntries_succ json count entry numbersFit rest]
  simp only [Nat.mod_eq_of_lt labelsFit, take_left, drop_left,
    Codec.decode_encode]

theorem readIndexEntries_of_not_fit
    (numbersFit : entry.NumbersFit) (tooLong : ¬ LabelsFit json entry.labels)
    (rest : Bytes) :
    ∃ cause,
      readIndexEntries json (count + 1) (indexEntryBytes json entry ++ rest) =
        .error cause := by
  have long : 2 ^ 32 ≤ (json.encode entry.labels).length := not_lt.mp tooLong
  have short :
      (json.encode entry.labels).length % 2 ^ 32 <
        (json.encode entry.labels).length :=
    (Nat.mod_lt _ (by decide)).trans_le long
  obtain ⟨cause, rejects⟩ := json.decode_truncated entry.labels _ short
  refine ⟨cause, ?_⟩
  rw [readIndexEntries_succ json count entry numbersFit rest]
  simp only [take_append_of_le_length short.le, rejects]

theorem readIndexEntries_eq_ok_iff
    {count : ℕ} {entries parsed : List SeriesIndexEntry}
    (numbersFit : ∀ entry ∈ entries, entry.NumbersFit)
    (enough : count ≤ entries.length) :
    readIndexEntries json count (entries.flatMap (indexEntryBytes json)) =
        .ok parsed ↔
      parsed = entries.take count ∧
        ∀ entry ∈ entries.take count, LabelsFit json entry.labels := by
  induction entries generalizing count parsed with
  | nil =>
    obtain rfl : count = 0 := by simpa using enough
    simp [readIndexEntries, eq_comm]
  | cons entry rest inductionHypothesis =>
    obtain ⟨firstFits, restFits⟩ := forall_mem_cons.mp numbersFit
    cases count with
    | zero => simp [readIndexEntries, eq_comm]
    | succ count =>
      have later := fun others =>
        @inductionHypothesis count others restFits
          (Nat.le_of_succ_le_succ enough)
      rw [flatMap_cons, take_succ_cons]
      by_cases labelsFit : LabelsFit json entry.labels
      · rw [readIndexEntries_of_fit json count firstFits labelsFit]
        cases read :
            readIndexEntries json count
              (rest.flatMap (indexEntryBytes json)) with
        | error cause =>
          simp only [reduceCtorEq, false_iff, not_and, forall_mem_cons]
          intro _ _ othersFit
          have success := (later _).mpr ⟨rfl, othersFit⟩
          rw [read] at success
          cases success
        | ok others =>
          obtain ⟨rfl, othersFit⟩ := (later others).mp read
          simp only [Except.ok.injEq, forall_mem_cons]
          exact ⟨fun same => ⟨same.symm, labelsFit, othersFit⟩,
            fun parts => parts.1.symm⟩
      · obtain ⟨cause, fails⟩ :=
          readIndexEntries_of_not_fit json count firstFits labelsFit
            (rest.flatMap (indexEntryBytes json))
        rw [fails]
        simp only [reduceCtorEq, false_iff, not_and, forall_mem_cons]
        exact fun _ fits => absurd fits labelsFit

/--
The index reader returns the entries up to the number of entries modulo
`2 ^ 32`, if their labels fit.
-/
theorem readIndex_buildIndex_eq_ok_iff
    {reader : BlockReader} {entries parsed : List SeriesIndexEntry}
    (isIndex : reader.dir.index = some (buildIndex json entries))
    (numbersFit : ∀ entry ∈ entries, entry.NumbersFit) :
    reader.readIndex json = .ok parsed ↔
      parsed = entries.take (entries.length % 2 ^ 32) ∧
        ∀ entry ∈ entries.take (entries.length % 2 ^ 32),
          LabelsFit json entry.labels := by
  have countField :
      leValue ((buildIndex json entries).take 4) = entries.length % 2 ^ 32 := by
    rw [buildIndex, take_left' (length_leBytes 4 _)]
    exact leValue_leBytes 4 _
  have notShort : ¬ (buildIndex json entries).length < 4 := by
    simp [buildIndex]
  rw [BlockReader.readIndex, isIndex]
  simp only [if_neg notShort, countField]
  rw [buildIndex, drop_left' (length_leBytes 4 _)]
  exact readIndexEntries_eq_ok_iff json numbersFit (Nat.mod_le _ _)

end Index

end ChronoDB.Columnstore
