import ChronoDB.Compression.CorruptDelta
import ChronoDB.Library.BigEndian

namespace ChronoDB.Columnstore.BlockFormat

open Library Compression List

/-!
# The second block format

A block is a header of 64 bytes and a row of columns, the first of which holds
the timestamps as second differences.  An overflow, or a read past the end of a
buffer, panics.  Sample values are given by their bits.
-/

def blockFormatVersion : UInt8 :=
  1

inductive BlockType where
  | data
  | index
  | metadata
  | downsample
  deriving Repr, DecidableEq

namespace BlockType

def toUInt8 : BlockType → UInt8
  | data => 0
  | index => 1
  | metadata => 2
  | downsample => 3

def ofUInt8 (v : UInt8) : BlockType :=
  if v = 0 then data
  else if v = 1 then index
  else if v = 2 then metadata
  else if v = 3 then downsample
  else data

end BlockType

inductive CompressionType where
  | none
  | zstd
  | snappy
  | lz4
  deriving Repr, DecidableEq

namespace CompressionType

def toUInt8 : CompressionType → UInt8
  | none => 0
  | zstd => 1
  | snappy => 2
  | lz4 => 3

def ofUInt8 (v : UInt8) : CompressionType :=
  if v = 0 then none
  else if v = 1 then zstd
  else if v = 2 then snappy
  else if v = 3 then lz4
  else zstd

end CompressionType

inductive ColumnType where
  | timestamp
  | value
  | label
  | seriesId
  deriving Repr, DecidableEq

namespace ColumnType

def toUInt8 : ColumnType → UInt8
  | timestamp => 0
  | value => 1
  | label => 2
  | seriesId => 3

def ofUInt8 (v : UInt8) : ColumnType :=
  if v = 0 then timestamp
  else if v = 1 then value
  else if v = 2 then label
  else if v = 3 then seriesId
  else value

end ColumnType

/-!
## The header
-/

structure BlockHeader where
  version : UInt8
  blockType : BlockType
  compression : CompressionType
  seriesCount : UInt32
  sampleCount : UInt32
  minTimestamp : Timestamp
  maxTimestamp : Timestamp
  metadataOffset : UInt64
  metadataSize : UInt64
  checksum : UInt32
  deriving Repr, DecidableEq

namespace BlockHeader

def size : ℕ :=
  64

def new (blockType : BlockType) : BlockHeader where
  version := blockFormatVersion
  blockType := blockType
  compression := .zstd
  seriesCount := 0
  sampleCount := 0
  minTimestamp := 0
  maxTimestamp := 0
  metadataOffset := 0
  metadataSize := 0
  checksum := 0

/-- The fields, before the padding. -/
def fields (header : BlockHeader) : Bytes :=
  [header.version, header.blockType.toUInt8, header.compression.toUInt8, 0] ++
    (putU32 header.seriesCount ++
      (putU32 header.sampleCount ++
        (putI64 header.minTimestamp ++
          (putI64 header.maxTimestamp ++
            (putU64 header.metadataOffset ++
              (putU64 header.metadataSize ++ putU32 header.checksum))))))

def encode (header : BlockHeader) : Bytes :=
  header.fields ++ List.replicate (size - header.fields.length) 0

/-- The reads of `decode`. -/
def get : Reading BlockHeader := do
  let version ← getU8
  let blockType ← BlockType.ofUInt8 <$> getU8
  let compression ← CompressionType.ofUInt8 <$> getU8
  let _reserved ← getU8
  let seriesCount ← getU32
  let sampleCount ← getU32
  let minTimestamp ← getI64
  let maxTimestamp ← getI64
  let metadataOffset ← getU64
  let metadataSize ← getU64
  let checksum ← getU32
  pure {
    version := version
    blockType := blockType
    compression := compression
    seriesCount := seriesCount
    sampleCount := sampleCount
    minTimestamp := minTimestamp
    maxTimestamp := maxTimestamp
    metadataOffset := metadataOffset
    metadataSize := metadataSize
    checksum := checksum
  }

end BlockHeader

/-- A computation without a result panics. -/
def checked {Result : Type} : Option Result → Except Fault Result
  | none => .error .panic
  | some result => .ok result

def BlockHeader.decode (data : Bytes) : Except Fault BlockHeader :=
  if data.length < size then
    .error (.error (.invalidData "Block header too short"))
  else
    checked (get.run' data)

/-!
## Columns
-/

structure ColumnData where
  columnId : UInt32
  columnType : ColumnType
  data : Bytes
  compression : CompressionType
  uncompressedSize : UInt64
  deriving Repr, DecidableEq

def ColumnData.encode (column : ColumnData) : Bytes :=
  putU32 column.columnId ++
    ([column.columnType.toUInt8, column.compression.toUInt8] ++
      (putU64 column.uncompressedSize ++
        (putU64 (UInt64.ofNat column.data.length) ++ column.data)))

structure BitSample where
  timestamp : Timestamp
  value : UInt64
  deriving Repr, DecidableEq

structure SeriesBlockData where
  seriesId : UInt64
  samples : List BitSample
  labels : Labels
  deriving Repr, DecidableEq

/-- `-`, without a result when it overflows. -/
def minus (first second : Int64) : Option Int64 :=
  if FitsInt64 (first.toInt - second.toInt) then some (first - second)
  else none

/-- The second differences from a difference and a timestamp on. -/
def secondDeltas (prevDelta last : Int64) : List Int64 → Option (List Int64)
  | [] => some []
  | timestamp :: rest =>
    (minus timestamp last).bind fun delta =>
      (minus delta prevDelta).bind fun dod =>
        (secondDeltas delta timestamp rest).map (dod :: ·)

/-- One second difference, in one, three or nine bytes. -/
def encodeDelta (delta : Int64) : Bytes :=
  if -128 ≤ delta.toInt ∧ delta.toInt ≤ 127 then
    [delta.toInt8.toUInt8]
  else if -32768 ≤ delta.toInt ∧ delta.toInt ≤ 32767 then
    0x80 :: putI16 delta.toInt16
  else
    0x81 :: putI64 delta

def encodeTimestamps : List Int64 → Option Bytes
  | first :: second :: rest =>
    (minus second first).bind fun firstDelta =>
      (secondDeltas firstDelta second rest).map fun deltas =>
        putI64 first ++ (putI64 firstDelta ++ deltas.flatMap encodeDelta)
  | few => some (few.flatMap putI64)

/-- The bytes for each value after the first. -/
def encodeXors (prevBits : UInt64) : List UInt64 → Bytes
  | [] => []
  | bits :: rest =>
    (if prevBits ^^^ bits = 0 then [0]
      else 1 :: putU64 (prevBits ^^^ bits)) ++
      encodeXors bits rest

def encodeValues : List UInt64 → Bytes
  | [] => []
  | first :: rest => putU64 first ++ encodeXors first rest

/-!
## The builder
-/

structure BlockBuilder where
  header : BlockHeader
  columns : List ColumnData
  seriesData : List SeriesBlockData
  deriving Repr, DecidableEq

def timestampsOf (seriesData : List SeriesBlockData) : List Timestamp :=
  seriesData.flatMap fun series => series.samples.map BitSample.timestamp

def valuesOf (seriesData : List SeriesBlockData) : List UInt64 :=
  seriesData.flatMap fun series => series.samples.map BitSample.value

/-- The sum of the lengths, each cut to 32 bits. -/
def sumLengths (total : UInt32) : List SeriesBlockData → Option UInt32
  | [] => some total
  | series :: rest =>
    let count := UInt32.ofNat series.samples.length
    if total.toNat + count.toNat < 2 ^ 32 then
      sumLengths (total + count) rest
    else
      none

namespace BlockBuilder

def new (blockType : BlockType) : BlockBuilder where
  header := .new blockType
  columns := []
  seriesData := []

def addSeries (builder : BlockBuilder) (series : SeriesBlockData) :
    BlockBuilder :=
  { builder with seriesData := builder.seriesData ++ [series] }

def buildColumns (builder : BlockBuilder) : Option (List ColumnData) :=
  let timestamps := timestampsOf builder.seriesData
  (encodeTimestamps timestamps).map fun timestampData =>
    let values := valuesOf builder.seriesData
    builder.columns ++
      [{
        columnId := 0
        columnType := .timestamp
        data := timestampData
        compression := .zstd
        uncompressedSize := UInt64.ofNat (timestamps.length * 8)
      },
      {
        columnId := 1
        columnType := .value
        data := encodeValues values
        compression := .zstd
        uncompressedSize := UInt64.ofNat (values.length * 8)
      }]

def finishHeader (builder : BlockBuilder) (sampleCount : UInt32) : BlockHeader :=
  let timestamps := timestampsOf builder.seriesData
  let counted := {
    builder.header with
    seriesCount := UInt32.ofNat builder.seriesData.length
    sampleCount := sampleCount
  }
  if builder.seriesData.isEmpty then
    counted
  else
    {
      counted with
      minTimestamp := timestamps.min?.getD 0
      maxTimestamp := timestamps.max?.getD 0
    }

def build (builder : BlockBuilder) : Except Fault Bytes :=
  checked <|
    builder.buildColumns.bind fun columns =>
      (sumLengths 0 builder.seriesData).map fun sampleCount =>
        (builder.finishHeader sampleCount).encode ++
          columns.flatMap ColumnData.encode

end BlockBuilder

/-!
## The reader
-/

/-- The next second difference. -/
def getDelta : Reading Int64 := do
  let flag ← getU8
  if flag = 0x80 then
    Int16.toInt64 <$> getI16
  else if flag = 0x81 then
    getI64
  else
    pure flag.toInt8.toInt64

/-- The bytes that are read as a second difference. -/
inductive IsCode : Bytes → Int64 → Prop where
  | small
      (flag : UInt8)
      (notShort : flag ≠ 0x80)
      (notLong : flag ≠ 0x81) :
      IsCode [flag] flag.toInt8.toInt64
  | short (number : Int16) :
      IsCode (0x80 :: putI16 number) number.toInt64
  | long (number : Int64) :
      IsCode (0x81 :: putI64 number) number

theorem getDelta_eq_some_iff {buffer rest : Bytes} {delta : Int64} :
    getDelta.run buffer = some (delta, rest) ↔
      ∃ code, IsCode code delta ∧ buffer = code ++ rest := by
  rw [getDelta, StateT.run_bind]
  constructor
  · intro read
    cases buffer with
    | nil =>
      rw [takes_getU8.short [] (by decide)] at read
      cases read
    | cons flag later =>
      rw [run_getU8_cons] at read
      dsimp only [Option.bind_eq_bind, Option.bind_some] at read
      split at read
      · next isShort =>
        rw [StateT.run_map, Option.map_eq_map, Option.map_eq_some_iff] at read
        obtain ⟨⟨number, others⟩, isNumber, same⟩ := read
        cases same
        refine ⟨0x80 :: putI16 number, .short number, ?_⟩
        rw [isShort, eq_putI16_of_run isNumber, cons_append]
      · split at read
        · next isLong =>
          refine ⟨0x81 :: putI64 delta, .long delta, ?_⟩
          rw [isLong, eq_putI64_of_run read, cons_append]
        · next notShort notLong =>
          cases read
          exact ⟨[flag], .small flag notShort notLong, rfl⟩
  · rintro ⟨code, isCode, rfl⟩
    cases isCode with
    | small flag notShort notLong =>
      rw [singleton_append, run_getU8_cons]
      dsimp only [Option.bind_eq_bind, Option.bind_some]
      rw [if_neg notShort, if_neg notLong]
      rfl
    | short number =>
      rw [cons_append, run_getU8_cons]
      dsimp only [Option.bind_eq_bind, Option.bind_some]
      rw [if_pos rfl, StateT.run_map, run_getI16_putI16]
      rfl
    | long number =>
      rw [cons_append, run_getU8_cons]
      dsimp only [Option.bind_eq_bind, Option.bind_some]
      rw [if_neg (by decide), if_pos rfl, run_getI64_putI64]

theorem length_lt_of_getDelta {buffer rest : Bytes} {delta : Int64}
    (read : getDelta.run buffer = some (delta, rest)) :
    rest.length < buffer.length := by
  obtain ⟨code, isCode, rfl⟩ := getDelta_eq_some_iff.mp read
  have nonempty : 0 < code.length := by
    cases isCode <;> exact Nat.succ_pos _
  rw [length_append]
  omega

/-- The loop over second differences, with the timestamps that it adds. -/
def decodeDeltas (prevDelta last : Int64) (buffer : Bytes) :
    Option (List Timestamp) :=
  if buffer = [] then
    some []
  else
    match _read : getDelta.run buffer with
    | none => none
    | some (delta, rest) =>
      (plus prevDelta delta).bind fun prevDelta =>
        (plus last prevDelta).bind fun next =>
          (decodeDeltas prevDelta next rest).map (next :: ·)
termination_by buffer.length
decreasing_by
  exact length_lt_of_getDelta _read

/-- The first two timestamps, and those that the loop adds. -/
def decodeAll (data : Bytes) : Option (List Timestamp) :=
  (getI64.run data).bind fun (first, buffer) =>
    (getI64.run buffer).bind fun (firstDelta, buffer) =>
      (plus first firstDelta).bind fun second =>
        (decodeDeltas firstDelta second buffer).map fun later =>
          first :: second :: later

def decodeTimestamps (data : Bytes) : Except Fault (List Timestamp) :=
  if data.length < 16 then
    .error (.error (.invalidData "Timestamp data too short"))
  else
    checked (decodeAll data)

/-- The reads in front of the data of a column: its type and its size. -/
def getColumn : Reading (ColumnType × UInt64) := do
  let _columnId ← getU32
  let columnType ← ColumnType.ofUInt8 <$> getU8
  let _compression ← CompressionType.ofUInt8 <$> getU8
  let _uncompressedSize ← getU64
  let dataSize ← getU64
  pure (columnType, dataSize)

/-- The loop that looks for the timestamp column from an offset on. -/
def findTimestamps (data : Bytes) (offset : ℕ) :
    Except Fault (List Timestamp) :=
  if offset < data.length then
    match getColumn.run' (data.drop offset) with
    | none => .error .panic
    | some (columnType, dataSize) =>
      if 2 ^ 64 ≤ offset + 22 + dataSize.toNat then
        .error .panic
      else if columnType = .timestamp then
        if data.length < offset + 22 + dataSize.toNat then
          .error .panic
        else
          decodeTimestamps ((data.drop (offset + 22)).take dataSize.toNat)
      else
        findTimestamps data (offset + (22 + dataSize.toNat))
  else
    .error (.error (.invalidData "Timestamp column not found"))
termination_by data.length - offset

structure BlockReader where
  data : Bytes
  header : BlockHeader
  deriving Repr, DecidableEq

namespace BlockReader

def new (data : Bytes) : Except Fault BlockReader := do
  let header ← BlockHeader.decode data
  .ok { data := data, header := header }

def readTimestamps (reader : BlockReader) : Except Fault (List Timestamp) :=
  findTimestamps reader.data BlockHeader.size

end BlockReader

/-!
## What is written is read
-/

theorem checked_eq_ok_iff
    {Result : Type} {computed : Option Result} {result : Result} :
    checked computed = .ok result ↔ computed = some result := by
  cases computed with
  | none =>
    exact iff_of_false (fun isOk => by cases isOk) fun isSome => by
      cases isSome
  | some found => rw [checked, Except.ok.injEq, Option.some.injEq]

theorem BlockType.ofUInt8_toUInt8 (blockType : BlockType) :
    ofUInt8 blockType.toUInt8 = blockType := by
  cases blockType <;> rfl

theorem CompressionType.ofUInt8_toUInt8 (compression : CompressionType) :
    ofUInt8 compression.toUInt8 = compression := by
  cases compression <;> rfl

theorem ColumnType.ofUInt8_toUInt8 (columnType : ColumnType) :
    ofUInt8 columnType.toUInt8 = columnType := by
  cases columnType <;> rfl

namespace BlockHeader

theorem length_fields (header : BlockHeader) : header.fields.length = 48 := by
  simp [fields]

theorem length_encode (header : BlockHeader) : header.encode.length = size := by
  rw [encode, length_append, length_replicate, length_fields]
  rfl

theorem readsFront_fields (header : BlockHeader) :
    ReadsFront get header.fields header := by
  have oneByEach :
      header.fields =
        [header.version] ++
          ([header.blockType.toUInt8] ++
            ([header.compression.toUInt8] ++
              ([0] ++
                (putU32 header.seriesCount ++
                  (putU32 header.sampleCount ++
                    (putI64 header.minTimestamp ++
                      (putI64 header.maxTimestamp ++
                        (putU64 header.metadataOffset ++
                          (putU64 header.metadataSize ++
                            putU32 header.checksum))))))))) :=
    rfl
  have blockType := (readsFront_byte header.blockType.toUInt8).map
    BlockType.ofUInt8
  have compression := (readsFront_byte header.compression.toUInt8).map
    CompressionType.ofUInt8
  rw [BlockType.ofUInt8_toUInt8] at blockType
  rw [CompressionType.ofUInt8_toUInt8] at compression
  rw [oneByEach]
  exact
    (readsFront_byte _).bind <|
      blockType.bind <|
        compression.bind <|
          (readsFront_byte _).bind <|
            (readsFront_putU32 _).bind <|
              (readsFront_putU32 _).bind <|
                (readsFront_putI64 _).bind <|
                  (readsFront_putI64 _).bind <|
                    (readsFront_putU64 _).bind <|
                      (readsFront_putU64 _).bind <|
                        (readsFront_putU32 _).bind_pure _

theorem decode_encode (header : BlockHeader) (rest : Bytes) :
    decode (header.encode ++ rest) = .ok header := by
  rw [decode, if_neg (by rw [length_append, length_encode]; omega),
    encode, append_assoc, StateT.run'_eq, readsFront_fields]
  rfl

end BlockHeader

theorem takes_getColumn : Takes 22 getColumn :=
  takes_getU32.bind fun _ =>
    (takes_getU8.map _).bind fun _ =>
      (takes_getU8.map _).bind fun _ =>
        takes_getU64.bind fun _ =>
          takes_getU64.bind fun _ => Takes.pure _

def columnHead (columnId : UInt32) (kind compression : UInt8)
    (uncompressedSize dataSize : UInt64) :
    Bytes :=
  putU32 columnId ++
    ([kind, compression] ++ (putU64 uncompressedSize ++ putU64 dataSize))

theorem ColumnData.encode_eq (column : ColumnData) :
    column.encode =
      columnHead column.columnId column.columnType.toUInt8
          column.compression.toUInt8 column.uncompressedSize
          (UInt64.ofNat column.data.length) ++
        column.data := by
  simp only [encode, columnHead, append_assoc]

section ColumnHead

variable
  {columnId : UInt32}
  {kind compression : UInt8}
  {uncompressedSize dataSize : UInt64}

@[simp] theorem length_columnHead :
    (columnHead columnId kind compression uncompressedSize dataSize).length =
      22 := by
  simp [columnHead]

theorem run_getColumn_columnHead (rest : Bytes) :
    getColumn.run
        (columnHead columnId kind compression uncompressedSize dataSize ++
          rest) =
      some ((ColumnType.ofUInt8 kind, dataSize), rest) := by
  have reads :
      ReadsFront getColumn
        (putU32 columnId ++
          ([kind] ++ ([compression] ++
            (putU64 uncompressedSize ++ putU64 dataSize))))
        (ColumnType.ofUInt8 kind, dataSize) :=
    (readsFront_putU32 _).bind <|
      ((readsFront_byte kind).map _).bind <|
        ((readsFront_byte compression).map _).bind <|
          (readsFront_putU64 _).bind <| (readsFront_putU64 dataSize).bind_pure _
  exact reads rest

theorem findTimestamps_columnHead {data rest : Bytes} {offset : ℕ}
    (isHead :
      data.drop offset =
        columnHead columnId kind compression uncompressedSize dataSize ++
          rest) :
    findTimestamps data offset =
      if 2 ^ 64 ≤ offset + 22 + dataSize.toNat then
        .error .panic
      else if ColumnType.ofUInt8 kind = .timestamp then
        if rest.length < dataSize.toNat then
          .error .panic
        else
          decodeTimestamps (rest.take dataSize.toNat)
      else
        findTimestamps data (offset + (22 + dataSize.toNat)) := by
  have lengths := congrArg List.length isHead
  rw [length_drop, length_append, length_columnHead] at lengths
  have afterHead : data.drop (offset + 22) = rest := by
    rw [← drop_drop, isHead, drop_left' length_columnHead]
  have sameBound :
      data.length < offset + 22 + dataSize.toNat ↔
        rest.length < dataSize.toNat := by
    omega
  rw [findTimestamps, if_pos (by omega), isHead, StateT.run'_eq,
    run_getColumn_columnHead]
  dsimp only [Option.map_eq_map, Option.map_some]
  simp only [afterHead, sameBound]

end ColumnHead

end ChronoDB.Columnstore.BlockFormat
