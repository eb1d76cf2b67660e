import ChronoDB.Library.Fields
import ChronoDB.Library.FallibleFold
import ChronoDB.Library.FiniteMap
import ChronoDB.Library.Utf8Text
import ChronoDB.Model.Enumerable

namespace ChronoDB.Migration

open Library

/-!
# Exported files

An export is written as JSON or as lines of comma separated values.  The writer
of the lines joins the labels of a series with commas, the reader splits the
fields of a line at commas and the labels at semicolons.
-/

inductive ExportFormat where
  | json
  | csv
  | parquet
  | orc
  | avro
  deriving Repr, DecidableEq

structure ExportMetadata where
  metricName : String
  labels : List (String × String)
  unit : Option String
  description : Option String
  deriving Repr, DecidableEq, Encodable

structure ExportSample where
  timestamp : Timestamp
  value : Value
  deriving Repr, DecidableEq, Encodable

structure ExportTimeSeries where
  metadata : ExportMetadata
  samples : List ExportSample
  deriving Repr, DecidableEq, Encodable

structure ExportData where
  timeSeries : List ExportTimeSeries
  query : String
  startTime : Timestamp
  endTime : Timestamp
  deriving Repr, DecidableEq, Encodable

/-- `Error::Internal`, or an error of the store. -/
inductive MigrationError where
  | internal (message : String)
  | storage (cause : Error)
  deriving Repr, DecidableEq

namespace ExportData

def new : ExportData where
  timeSeries := []
  query := ""
  startTime := 0
  endTime := 0

def withQuery (data : ExportData) (query : String) : ExportData :=
  { data with query := query }

def withTimeRange (data : ExportData) (startTime endTime : Timestamp) :
    ExportData :=
  { data with startTime := startTime, endTime := endTime }

def addTimeSeries (data : ExportData) (timeSeries : ExportTimeSeries) :
    ExportData :=
  { data with timeSeries := data.timeSeries ++ [timeSeries] }

end ExportData

/--
What the standard library and the JSON library do with finite values: both print
so that the value is read back, and a value is printed without an exponent.
-/
structure ExportText where
  toJson : ExportData → Text
  fromJson : Text → Except String ExportData
  fromJson_toJson : ∀ data, fromJson (toJson data) = .ok data
  displayValue : Value → Text
  parseValue : Text → Option Value
  parse_display : ∀ value, parseValue (displayValue value) = some value
  mem_display :
    ∀ value,
      ∀ char ∈ displayValue value, char.isDigit = true ∨ char = '-' ∨ char = '.'

/--
Whole numbers as the standard library prints them; other values are printed as
a numerator and a denominator, and data as a tally.
-/
def ExportText.basic : ExportText where
  toJson data := List.replicate (Encodable.encode data) '1'
  fromJson text :=
    match Encodable.decode text.length with
    | some data => .ok data
    | none => .error "invalid type"
  fromJson_toJson data := by
    rw [List.length_replicate, Encodable.encodek]
  displayValue value :=
    if value.den = 1 then Decimal.display value.num
    else Decimal.display value.num ++ '.' :: Decimal.display value.den
  parseValue text :=
    match text.splitOn '.' with
    | [whole] => (Decimal.signed whole).map fun number : ℤ => (number : ℚ)
    | [numerator, denominator] =>
      (Decimal.signed numerator).bind fun upper : ℤ =>
        (Decimal.signed denominator).map fun lower : ℤ =>
          (upper : ℚ) / lower
    | _ => none
  parse_display value := by
    have noPoint : ∀ number : ℤ, '.' ∉ Decimal.display number := by
      intro number member
      have shape := Decimal.mem_display member
      revert shape
      decide
    by_cases whole : value.den = 1
    · rw [if_pos whole, List.splitOn_eq_singleton (noPoint _)]
      simp only [Decimal.signed_display, Option.map_some]
      exact congrArg some (Rat.den_eq_one_iff value |>.mp whole)
    · rw [if_neg whole, List.splitOn_append_cons_self, List.splitOn_eq_singleton
        (noPoint _), List.splitOn_eq_singleton (noPoint _)]
      simp only [List.singleton_append, Decimal.signed_display,
        Option.bind_some, Option.map_some]
      exact congrArg some (Rat.num_div_den value)
  mem_display value char member := by
    split at member
    · exact (Decimal.mem_display member).imp_right .inl
    · rcases List.mem_append.mp member with upper | rest
      · exact (Decimal.mem_display upper).imp_right .inl
      · rcases List.mem_cons.mp rest with isPoint | lower
        · exact .inr (.inr isPoint)
        · exact (Decimal.mem_display lower).imp_right .inl

/-!
## Writing
-/

section Writing

variable (text : ExportText)

def csvHeader : Text :=
  "metric_name,labels,timestamp,value".toList

def labelText (label : String × String) : Text :=
  label.1.toList ++ '=' :: label.2.toList

/-- The labels of a series, joined by commas. -/
def labelsText (labels : List (String × String)) : Text :=
  [','].intercalate (labels.map labelText)

def csvLine (metadata : ExportMetadata) (sample : ExportSample) : Text :=
  metadata.metricName.toList ++ ',' ::
    (labelsText metadata.labels ++ ',' ::
      (Decimal.display sample.timestamp.toInt ++ ',' ::
        text.displayValue sample.value))

/-- The lines of an export, without the header. -/
def csvLines (data : ExportData) : List Text :=
  data.timeSeries.flatMap fun series =>
    series.samples.map (csvLine text series.metadata)

def toCsv (data : ExportData) : Text :=
  csvHeader ++ '\n' :: (csvLines text data).flatMap fun line => line ++ ['\n']

end Writing

/-!
## Reading
-/

section Reading

variable (text : ExportText)

/-- A label, unless the part does not have exactly one `=`. -/
def parseCsvLabel (part : Text) : Option (String × String) :=
  match part.splitOn '=' with
  | [name, value] => some (String.ofList name, String.ofList value)
  | _ => none

/-- What one line says. -/
structure CsvRow where
  metricName : Text
  labelsStr : Text
  sample : ExportSample
  deriving Repr, DecidableEq

namespace CsvRow

def labels (row : CsvRow) : List (String × String) :=
  (row.labelsStr.splitOn ';').filterMap parseCsvLabel

def seriesKey (row : CsvRow) : Text :=
  row.metricName ++ ':' :: row.labelsStr

end CsvRow

def parseI64 (field : Text) : Option Timestamp :=
  (Decimal.parse Int64.minValue.toInt Int64.maxValue.toInt field).map
    Int64.ofInt

/-- One line of the reader's loop; a line with too few fields is skipped. -/
def parseRow (line : Text) : Except MigrationError (Option CsvRow) :=
  match line.splitOn ',' with
  | metricName :: labelsStr :: timestamp :: value :: _ =>
    match parseI64 timestamp with
    | none => .error (.internal "Invalid timestamp")
    | some timestamp =>
      match text.parseValue value with
      | none => .error (.internal "Invalid value")
      | some value => .ok (some ⟨metricName, labelsStr, ⟨timestamp, value⟩⟩)
  | _ => .ok none

/-- The series read so far, by key. -/
abbrev CurrentSeries := AList fun _ : Text => ExportTimeSeries

def CsvRow.newSeries (row : CsvRow) : ExportTimeSeries where
  metadata := {
    metricName := String.ofList row.metricName
    labels := row.labels
    unit := none
    description := none
  }
  samples := []

def recordRow (series : CurrentSeries) (row : CsvRow) : CurrentSeries :=
  let found := (series.lookup row.seriesKey).getD row.newSeries
  series.insert row.seriesKey
    { found with samples := found.samples ++ [row.sample] }

def parseLine (series : CurrentSeries) (line : Text) :
    Except MigrationError CurrentSeries :=
  match parseRow text line with
  | .error cause => .error cause
  | .ok none => .ok series
  | .ok (some row) => .ok (recordRow series row)

/-- `order` is the order in which the hash map of the series is read. -/
def parseCsv
    (order : List ExportTimeSeries → List ExportTimeSeries) (content : Text) :
    Except MigrationError ExportData :=
  match ((Lines.lines content).drop 1).foldlM (parseLine text) ∅ with
  | .error cause => .error cause
  | .ok series =>
    .ok {
      ExportData.new with
      timeSeries := order (series.entries.map fun entry => entry.2)
    }

end Reading

end ChronoDB.Migration
