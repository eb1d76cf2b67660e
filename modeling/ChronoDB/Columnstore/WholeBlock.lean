import ChronoDB.Columnstore.BlockTimestamps

namespace ChronoDB.Columnstore.BlockFormat

open Library Compression List

/-!
# Whole blocks

A block that is built is opened again, and its header tells of its timestamps.
They come back when the timestamp column alone does, as long as 32 bits count
the samples.
-/

def builderOf (blockType : BlockType) (seriesData : List SeriesBlockData) :
    BlockBuilder :=
  seriesData.foldl .addSeries (.new blockType)

/-- A header tells the count of some timestamps, the first and the last. -/
structure HeaderAgrees (header : BlockHeader)
    (timestamps : List Timestamp) : Prop where
  sampleCount : header.sampleCount.toNat = timestamps.length
  minTimestamp :
    timestamps ≠ [] →
      header.minTimestamp ∈ timestamps ∧
        ∀ timestamp ∈ timestamps, header.minTimestamp ≤ timestamp
  maxTimestamp :
    timestamps ≠ [] →
      header.maxTimestamp ∈ timestamps ∧
        ∀ timestamp ∈ timestamps, timestamp ≤ header.maxTimestamp

/-- A block is built and opened, and gives back timestamps that agree with it. -/
def ComesBack (blockType : BlockType)
    (seriesData : List SeriesBlockData) : Prop :=
  ∃ block reader,
    (builderOf blockType seriesData).build = .ok block ∧
      BlockReader.new block = .ok reader ∧
        reader.readTimestamps = .ok (timestampsOf seriesData) ∧
          HeaderAgrees reader.header (timestampsOf seriesData)

/-- There are two samples or more, but no more than 32 bits count. -/
structure Codable (timestamps : List Timestamp) : Prop where
  several : 2 ≤ timestamps.length
  counted : timestamps.length < 2 ^ 32
  differences : DifferencesCodable timestamps

variable (blockType : BlockType) {seriesData : List SeriesBlockData}

theorem builderOf_eq (seriesData : List SeriesBlockData) :
    builderOf blockType seriesData = {
      header := .new blockType
      columns := []
      seriesData := seriesData
    } := by
  have fromAny (builder : BlockBuilder) :
      seriesData.foldl .addSeries builder = {
        builder with seriesData := builder.seriesData ++ seriesData
      } := by
    induction seriesData generalizing builder with
    | nil =>
      rw [append_nil]
      rfl
    | cons series rest inductionHypothesis =>
      rw [foldl_cons, inductionHypothesis, BlockBuilder.addSeries, append_assoc]
      rfl
  exact fromAny (.new blockType)

theorem exists_sumLengths (total : UInt32)
    (fits : total.toNat + (timestampsOf seriesData).length < 2 ^ 32) :
    ∃ count,
      sumLengths total seriesData = some count ∧
        count.toNat = total.toNat + (timestampsOf seriesData).length := by
  induction seriesData generalizing total with
  | nil => exact ⟨total, rfl, rfl⟩
  | cons series rest inductionHypothesis =>
    rw [timestampsOf, flatMap_cons, length_append, length_map] at fits ⊢
    have ownFits : series.samples.length < 2 ^ 32 := by omega
    have isCount :
        (UInt32.ofNat series.samples.length).toNat = series.samples.length :=
      UInt32.toNat_ofNat_of_lt' ownFits
    have isTotal :
        (total + UInt32.ofNat series.samples.length).toNat =
          total.toNat + series.samples.length := by
      rw [UInt32.toNat_add, isCount]
      exact Nat.mod_eq_of_lt (by omega)
    obtain ⟨count, isSum, exact⟩ := inductionHypothesis
      (total + UInt32.ofNat series.samples.length)
      (by rw [isTotal, timestampsOf]; omega)
    refine ⟨count, ?_, ?_⟩
    · rw [sumLengths, isCount, if_pos (by omega), isSum]
    · rw [exact, isTotal, timestampsOf, Nat.add_assoc]

theorem headerAgrees_finishHeader
    {builder : BlockBuilder} {sampleCount : UInt32}
    (isCount :
      sampleCount.toNat = (timestampsOf builder.seriesData).length) :
    HeaderAgrees (builder.finishHeader sampleCount)
      (timestampsOf builder.seriesData) := by
  rw [BlockBuilder.finishHeader]
  cases isSeries : builder.seriesData with
  | nil =>
    rw [isSeries] at isCount
    exact ⟨isCount, fun notEmpty => (notEmpty rfl).elim,
      fun notEmpty => (notEmpty rfl).elim⟩
  | cons series rest =>
    rw [isSeries] at isCount
    refine ⟨isCount, fun notEmpty => ?_, fun notEmpty => ?_⟩
    · obtain ⟨least, isLeast⟩ :=
        Option.isSome_iff_exists.mp (isSome_min?_of_ne_nil notEmpty)
      dsimp only [isEmpty_cons, Bool.false_eq_true, if_false]
      rw [isLeast]
      exact min?_eq_some_iff.mp isLeast
    · obtain ⟨greatest, isGreatest⟩ :=
        Option.isSome_iff_exists.mp (isSome_max?_of_ne_nil notEmpty)
      dsimp only [isEmpty_cons, Bool.false_eq_true, if_false]
      rw [isGreatest]
      exact max?_eq_some_iff.mp isGreatest

theorem BlockReader.new_encode (header : BlockHeader) (rest : Bytes) :
    new (header.encode ++ rest) =
      .ok { data := header.encode ++ rest, header := header } := by
  rw [new, BlockHeader.decode_encode]
  rfl

theorem findTimestamps_encode (header : BlockHeader) {column : ColumnData}
    (isTimestamp : column.columnType = .timestamp)
    (fits : 86 + column.data.length < 2 ^ 64) (rest : Bytes) :
    findTimestamps (header.encode ++ (column.encode ++ rest)) BlockHeader.size =
      decodeTimestamps column.data := by
  have sizeFits : column.data.length < 2 ^ 64 := by omega
  have isSize : (UInt64.ofNat column.data.length).toNat = column.data.length :=
    UInt64.toNat_ofNat_of_lt' sizeFits
  have afterHeader :
      (header.encode ++ (column.encode ++ rest)).drop BlockHeader.size =
        column.encode ++ rest :=
    drop_left' header.length_encode
  rw [column.encode_eq, append_assoc] at afterHeader ⊢
  rw [findTimestamps_columnHead afterHeader, isSize,
    if_neg (by rw [BlockHeader.size]; omega), isTimestamp,
    ColumnType.ofUInt8_toUInt8, if_pos rfl,
    if_neg (by rw [length_append]; omega), take_left]

theorem exists_reader {data : Bytes}
    (encoded : encodeTimestamps (timestampsOf seriesData) = some data)
    (counted : (timestampsOf seriesData).length < 2 ^ 32) :
    ∃ block reader,
      (builderOf blockType seriesData).build = .ok block ∧
        BlockReader.new block = .ok reader ∧
          reader.readTimestamps = decodeTimestamps data ∧
            HeaderAgrees reader.header (timestampsOf seriesData) := by
  obtain ⟨count, isCount, exact⟩ := exists_sumLengths 0 (by simpa using counted)
  have dataFits := length_encodeTimestamps_le encoded
  rw [builderOf_eq]
  rw [BlockBuilder.build, BlockBuilder.buildColumns]
  dsimp only
  rw [encoded, Option.map_some, Option.bind_some, isCount, Option.map_some,
    nil_append, flatMap_cons]
  refine ⟨_, _, rfl, BlockReader.new_encode _ _, ?_, ?_⟩
  · exact findTimestamps_encode _ rfl (by dsimp only; omega) _
  · exact headerAgrees_finishHeader (by simpa using exact)

theorem codable_of_comesBack
    {blockType : BlockType} (comesBack : ComesBack blockType seriesData) :
    Codable (timestampsOf seriesData) := by
  obtain ⟨block, reader, built, opened, isRead, agrees⟩ := comesBack
  have counted : (timestampsOf seriesData).length < 2 ^ 32 := by
    rw [← agrees.sampleCount]
    exact reader.header.sampleCount.toNat_lt
  have isBuilt := built
  rw [builderOf_eq, BlockBuilder.build, checked_eq_ok_iff,
    Option.bind_eq_some_iff] at isBuilt
  obtain ⟨columns, isColumns, _⟩ := isBuilt
  obtain ⟨data, encoded, _⟩ := Option.map_eq_some_iff.mp isColumns
  obtain ⟨other, otherReader, otherBuilt, otherOpened, otherRead, _⟩ :=
    exists_reader blockType encoded counted
  cases built.symm.trans otherBuilt
  cases opened.symm.trans otherOpened
  obtain ⟨several, differences⟩ := (exists_decoded_iff _).mp
    ⟨data, encoded, otherRead.symm.trans isRead⟩
  exact ⟨several, counted, differences⟩

theorem Codable.comesBack (codable : Codable (timestampsOf seriesData)) :
    ComesBack blockType seriesData := by
  obtain ⟨data, encoded, decoded⟩ := (exists_decoded_iff _).mpr
    ⟨codable.several, codable.differences⟩
  obtain ⟨block, reader, built, opened, isRead, agrees⟩ :=
    exists_reader blockType encoded codable.counted
  exact ⟨block, reader, built, opened, isRead.trans decoded, agrees⟩

/-- A block gives its timestamps back exactly when they can be coded. -/
theorem block_comes_back_iff (blockType : BlockType)
    (seriesData : List SeriesBlockData) :
    ComesBack blockType seriesData ↔ Codable (timestampsOf seriesData) :=
  ⟨codable_of_comesBack, Codable.comesBack blockType⟩

/-- One sample does not come back, nor do three with a flag between them. -/
theorem blocks_lost :
    ¬ComesBack .data [⟨1, [⟨1000, 0⟩], []⟩] ∧
      ¬ComesBack .data [⟨1, [⟨0, 0⟩, ⟨1000, 0⟩, ⟨1872, 0⟩], []⟩] := by
  constructor
  · intro comesBack
    exact absurd (codable_of_comesBack comesBack).several (by decide)
  · intro comesBack
    have noFlags := (codable_of_comesBack comesBack).differences.noFlags
    exact (noFlags (-128) (by decide)).1 rfl

end ChronoDB.Columnstore.BlockFormat
