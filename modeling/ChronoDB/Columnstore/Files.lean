import ChronoDB.Columnstore.RoundTrip
import ChronoDB.Downsample.Processor
import ChronoDB.Index.Bloom

namespace ChronoDB.Columnstore

open Library Index Downsample

/-!
# All files of a block

A block also has a filter over its label texts, and it can hold downsampled
series with six columns of values in place of one.  Both kinds of series share
the time column and the index.
-/

/-- The value columns of downsampled series. -/
inductive PointColumn where
  | min
  | max
  | avg
  | sum
  | count
  | last
  deriving Repr, DecidableEq

/-- What a column keeps of a point. -/
def PointColumn.valueOf : PointColumn → DownsamplePoint → Value
  | min, point => point.minValue
  | max, point => point.maxValue
  | avg, point => point.avgValue
  | sum, point => point.sumValue
  | count, point => point.count
  | last, point => point.lastValue

structure BlockFiles extends BlockDir where
  bloom : Option Bytes
  pointColumn : PointColumn → Option (List Value)

def BlockFiles.empty : BlockFiles where
  toBlockDir := .empty
  bloom := none
  pointColumn := fun _ => none

structure DownsampleSeriesData where
  labels : Labels
  points : List DownsamplePoint
  deriving Repr, DecidableEq

/-!
## Writing
-/

structure FullWriter extends BlockWriter where
  downsampleData : FiniteMap TimeSeriesId DownsampleSeriesData
  bloomFilter : BloomFilter

namespace FullWriter

/-- What `BloomFilter::new(100000, 0.01)` computes. -/
def newFilter : BloomFilter :=
  BloomFilter.withSize 958506 7

theorem sized_newFilter : newFilter.Sized :=
  BloomFilter.sized_withSize (by decide) 7

def new (blockId : UInt64) : FullWriter where
  toBlockWriter := BlockWriter.new blockId
  downsampleData := ∅
  bloomFilter := newFilter

/-- The bytes under which the filter knows a series. -/
def filterKey (labels : Labels) : Bytes :=
  stringBytes (labelsToString labels)

/-- The labels of a series once labels were given to add it. -/
def labelsOf (writer : FullWriter) (seriesId : TimeSeriesId) (labels : Labels) :
    Labels :=
  (writer.seriesData.lookup seriesId).elim labels SeriesData.labels

def addSeries
    (hasher : Bytes → UInt64) (writer : FullWriter) (seriesId : TimeSeriesId)
    (labels : Labels) (samples : List Sample) :
    Except Fault FullWriter :=
  let key := filterKey (writer.labelsOf seriesId labels)
  match writer.bloomFilter.insertAll hasher (samples.map fun _ => key) with
  | .error fault => .error fault
  | .ok bloomFilter =>
    .ok {
      writer with
      toBlockWriter := writer.toBlockWriter.addSeries seriesId labels samples
      bloomFilter := bloomFilter
    }

def addDownsampleSeries
    (hasher : Bytes → UInt64) (writer : FullWriter) (seriesId : TimeSeriesId)
    (labels : Labels) (points : List DownsamplePoint) :
    Except Fault FullWriter :=
  let data :=
    (writer.downsampleData.lookup seriesId).getD
      { labels := labels, points := [] }
  match writer.bloomFilter.insert hasher (filterKey data.labels) with
  | .error fault => .error fault
  | .ok bloomFilter =>
    .ok {
      writer with
      downsampleData :=
        writer.downsampleData.insert seriesId
          { data with points := data.points ++ points }
      bloomFilter := bloomFilter
    }

structure PointLayout (writer : FullWriter) where
  order : List TimeSeriesId
  permuted : order.Perm writer.downsampleData.keys

def pointsLaidOut (writer : FullWriter) (layout : writer.PointLayout) :
    List (TimeSeriesId × DownsampleSeriesData) :=
  layout.order.filterMap fun seriesId =>
    (writer.downsampleData.lookup seriesId).map fun data =>
      (seriesId, data)

def pointEntries (offset : ℕ) :
    List (TimeSeriesId × DownsampleSeriesData) → List SeriesIndexEntry
  | [] => []
  | (seriesId, data) :: rest =>
    {
      seriesId := seriesId
      labels := data.labels
      offset := offset
      count := data.points.length
    } :: pointEntries (offset + data.points.length) rest

/-- The points of downsampled series, as the columns hold them. -/
def allPoints (series : List (TimeSeriesId × DownsampleSeriesData)) :
    List DownsamplePoint :=
  series.flatMap fun entry => entry.2.points

/-- The time column of some timestamps, which is left out if there are none. -/
def timeColumnOf (timestamps : List Timestamp) :
    Except Error (Option Bytes) :=
  if timestamps = [] then .ok none
  else (buildTimestampColumn timestamps).map some

/--
The time range with downsampled series.  A bound of zero counts as one that is
not known yet.
-/
def widenRange (base : BlockMeta) (timestamps : List Timestamp) :
    BlockMeta :=
  match timestamps.min?, timestamps.max? with
  | some currentMin, some currentMax =>
    {
      base with
      minTimestamp :=
        if base.minTimestamp = 0 ∨ currentMin < base.minTimestamp then
          currentMin
        else base.minTimestamp
      maxTimestamp :=
        if base.maxTimestamp = 0 ∨ base.maxTimestamp < currentMax then
          currentMax
        else base.maxTimestamp
    }
  | _, _ => base

def fullMeta (writer : FullWriter) (series : List (TimeSeriesId × SeriesData))
    (pointSeries : List (TimeSeriesId × DownsampleSeriesData)) :
    BlockMeta :=
  let timestamps := (allPoints pointSeries).map DownsamplePoint.timestamp
  let base := writer.toBlockWriter.blockMeta series
  {
    widenRange base timestamps with
    totalSeries := base.totalSeries + pointSeries.length
    totalSamples := base.totalSamples + timestamps.length
  }

/--
`BlockWriter::write` into a directory with the given files.  The time column of
downsampled series replaces that of the others.
-/
def write (json : Codec Error Labels) (writer : FullWriter)
    (layout : writer.toBlockWriter.Layout) (pointLayout : writer.PointLayout)
    (existing : BlockFiles) :
    Except Fault BlockFiles :=
  let series := writer.toBlockWriter.laidOut layout
  let samples := BlockWriter.allSamples series
  let pointSeries := writer.pointsLaidOut pointLayout
  let points := allPoints pointSeries
  if BlockWriter.maxVecLength < samples.length then
    .error .panic
  else
    match timeColumnOf (samples.map Sample.timestamp) with
    | .error cause => .error (.error cause)
    | .ok sampleTimes =>
      if BlockWriter.maxVecLength < points.length then
        .error .panic
      else
        match timeColumnOf (points.map DownsamplePoint.timestamp) with
        | .error cause => .error (.error cause)
        | .ok pointTimes =>
          .ok {
            timeColumn := pointTimes.or (sampleTimes.or existing.timeColumn)
            valueColumn :=
              if samples = [] then existing.valueColumn
              else
                some (buildValueColumn (samples.map Sample.value))
            index :=
              some (buildIndex json
                (BlockWriter.indexEntries 0 series ++
                  pointEntries 0 pointSeries))
            metadata := some (writer.fullMeta series pointSeries)
            bloom := some writer.bloomFilter.serialize
            pointColumn := fun column =>
              if points = [] then existing.pointColumn column
              else
                some (buildValueColumn (points.map column.valueOf))
          }

end FullWriter

/-!
## Reading
-/

/-- `BlockReader` with its filter and the columns of downsampled series. -/
structure FullReader extends BlockReader where
  bloomFilter : BloomFilter
  pointColumn : PointColumn → Option (List Value)

def labelsMatch (seriesLabels queryLabels : Labels) : Bool :=
  queryLabels.all fun queryLabel =>
    seriesLabels.any fun label =>
      label.name = queryLabel.name && label.value = queryLabel.value

namespace FullReader

def openFiles (files : BlockFiles) : Except Error FullReader :=
  match BlockReader.openDir files.toBlockDir with
  | .error cause => .error cause
  | .ok reader =>
    match files.bloom with
    | none => .error (.io .notFound)
    | some data =>
      match BloomFilter.deserialize data with
      | .error cause => .error cause
      | .ok bloomFilter =>
        .ok {
          toBlockReader := reader
          bloomFilter := bloomFilter
          pointColumn := files.pointColumn
        }

def containsSeries
    (hasher : Bytes → UInt64) (reader : FullReader) (labels : Labels) :
    Except Fault Bool :=
  reader.bloomFilter.contains hasher (FullWriter.filterKey labels)

section Queries

variable (json : Codec Error Labels) (reader : FullReader)

/-- The loop of a label query, for the query of a single series. -/
def queryEntries
    (queryOne : TimeSeriesId → Except Fault (List Sample)) (labels : Labels) :
    List SeriesIndexEntry → Except Fault (List (TimeSeriesId × List Sample))
  | [] => .ok []
  | entry :: rest =>
    if labelsMatch entry.labels labels then
      match queryOne entry.seriesId with
      | .error fault => .error fault
      | .ok samples =>
        match queryEntries queryOne labels rest with
        | .error fault => .error fault
        | .ok results =>
          if samples.isEmpty then .ok results
          else .ok ((entry.seriesId, samples) :: results)
    else
      queryEntries queryOne labels rest

/-- Only what passes the filter is looked for in the index. -/
def queryFiltered (hasher : Bytes → UInt64)
    (queryOne : TimeSeriesId → Except Fault (List Sample)) (labels : Labels) :
    Except Fault (List (TimeSeriesId × List Sample)) :=
  match reader.containsSeries hasher labels with
  | .error fault => .error fault
  | .ok false => .ok []
  | .ok true =>
    match reader.toBlockReader.readIndex json with
    | .error cause => .error (.error cause)
    | .ok index => queryEntries queryOne labels index

def queryByLabels
    (hasher : Bytes → UInt64) (labels : Labels) (start stop : Timestamp) :
    Except Fault (List (TimeSeriesId × List Sample)) :=
  reader.queryFiltered json hasher
    (fun seriesId => reader.toBlockReader.query json seriesId start stop)
    labels

end Queries

end FullReader

/-!
## Blocks without downsampled series
-/

namespace FullWriter

variable {json : Codec Error Labels} {writer : FullWriter}
variable {layout : writer.toBlockWriter.Layout}
variable {pointLayout : writer.PointLayout} {existing files : BlockFiles}

theorem pointsLaidOut_eq_nil
    (noPoints : writer.downsampleData = ∅) (pointLayout : writer.PointLayout) :
    writer.pointsLaidOut pointLayout = [] := by
  have empty : pointLayout.order = [] := by
    apply List.Perm.eq_nil
    have permuted := pointLayout.permuted
    rwa [noPoints] at permuted
  rw [pointsLaidOut, empty, List.filterMap_nil]

theorem fullMeta_nil (series : List (TimeSeriesId × SeriesData)) :
    writer.fullMeta series [] = writer.toBlockWriter.blockMeta series :=
  rfl

theorem write_of_noPoints
    (noPoints : writer.downsampleData = ∅) (pointLayout : writer.PointLayout)
    (existing : BlockFiles) :
    (writer.write json layout pointLayout existing).map BlockFiles.toBlockDir =
      writer.toBlockWriter.write json layout existing.toBlockDir := by
  rw [write, BlockWriter.write, pointsLaidOut_eq_nil noPoints]
  dsimp only
  split
  · rfl
  · rw [timeColumnOf]
    by_cases empty :
        BlockWriter.allSamples (writer.toBlockWriter.laidOut layout) = []
    · simp [empty, allPoints, pointEntries, timeColumnOf, fullMeta_nil,
        Except.map]
    · have someTimes :
          (BlockWriter.allSamples
            (writer.toBlockWriter.laidOut layout)).map
              Sample.timestamp ≠ [] := by
        simpa using empty
      rw [if_neg someTimes]
      cases
          buildTimestampColumn
            ((BlockWriter.allSamples
              (writer.toBlockWriter.laidOut layout)).map Sample.timestamp) with
      | error cause => simp [empty, Except.map]
      | ok timeColumn =>
        simp [empty, allPoints, pointEntries, timeColumnOf, fullMeta_nil,
          Except.map]

theorem bloom_of_write
    (written :
      writer.write json layout pointLayout existing = .ok files) :
    files.bloom = some writer.bloomFilter.serialize := by
  rw [write] at written
  split at written
  · cases written
  · split at written
    · cases written
    · split at written
      · cases written
      · split at written
        · cases written
        · cases written
          rfl

end FullWriter

end ChronoDB.Columnstore
