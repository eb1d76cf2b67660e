import Mathlib.Data.Rat.Defs
import Mathlib.Data.String.Basic
import ChronoDB.Library.LittleEndian
import ChronoDB.Library.StableSort

namespace ChronoDB

open Library

/-!
# Series, samples and errors

The data model shared by all storage components.  Identifiers and timestamps
have the widths of the source.  Sample values are exact rationals, so no result
of this development speaks about rounding.
-/

/-- The hash that names a series. -/
abbrev TimeSeriesId := UInt64

/-- Milliseconds since the epoch. -/
abbrev Timestamp := Int64

theorem le_max_timestamp (first second : Timestamp) :
    first ≤ max first second ∧ second ≤ max first second := by
  change
    first ≤ (if first ≤ second then second else first) ∧
      second ≤ if first ≤ second then second else first
  split
  · rename_i ascending
    exact ⟨ascending, Int64.le_refl second⟩
  · rename_i descending
    exact ⟨Int64.le_refl first, Int64.le_of_lt (Int64.not_le.mp descending)⟩

theorem max_timestamp_eq_or (first second : Timestamp) :
    max first second = first ∨ max first second = second := by
  change
    (if first ≤ second then second else first) = first ∨
      (if first ≤ second then second else first) = second
  split
  · exact Or.inr rfl
  · exact Or.inl rfl

instance lawfulOrderMaxInt64 : Std.LawfulOrderMax Int64 where
  max_eq_or := max_timestamp_eq_or
  max_le_iff := by
    intro first second bound
    obtain ⟨firstBelow, secondBelow⟩ := le_max_timestamp first second
    constructor
    · intro below
      exact ⟨Int64.le_trans firstBelow below, Int64.le_trans secondBelow below⟩
    · rintro ⟨firstFits, secondFits⟩
      rcases max_timestamp_eq_or first second with isFirst | isSecond
      · rw [isFirst]
        exact firstFits
      · rw [isSecond]
        exact secondFits

/-- A sample value in exact arithmetic. -/
abbrev Value := ℚ

structure Label where
  name : String
  value : String
  deriving Repr, DecidableEq

abbrev Labels := List Label

structure Sample where
  timestamp : Timestamp
  value : Value
  deriving Repr, DecidableEq

structure TimeSeries where
  id : TimeSeriesId
  labels : Labels
  samples : List Sample
  deriving Repr, DecidableEq

/-- The kinds of input/output failure the modelled code distinguishes. -/
inductive IoErrorKind where
  | unexpectedEof
  | notFound
  | alreadyExists
  deriving Repr, DecidableEq

/-- The errors the modelled functions return. -/
inductive Error where
  | io (kind : IoErrorKind)
  | serialization
  | invalidData (message : String)
  | seriesNotFound (seriesId : TimeSeriesId)
  | wal (message : String)
  | storageFull
  | notFound (message : String)
  | overflow (message : String)
  deriving Repr, DecidableEq

/-- How a call can end without a result: with an error, or with a panic. -/
inductive Fault where
  | error (cause : Error)
  | panic
  deriving Repr, DecidableEq

def stringBytes (text : String) : Bytes :=
  text.toUTF8.data.toList

/-- What one string feeds to a hasher: its bytes and a separator. -/
def hashString (text : String) : Bytes :=
  stringBytes text ++ [0xFF]

/-- What the label list of a series feeds to the hasher. -/
def seriesIdBytes (labels : Labels) : Bytes :=
  (sortByKey Label.name labels).flatMap fun label =>
    hashString label.name ++ hashString label.value

/-- The id of a series, for a hasher given by its result on a byte string. -/
def calculateSeriesId (hasher : Bytes → TimeSeriesId) (labels : Labels) :
    TimeSeriesId :=
  hasher (seriesIdBytes labels)

/-- The labels of a series as one text, sorted by name. -/
def labelsToString (labels : Labels) : String :=
  let pairs :=
    (sortByKey Label.name labels).map fun label =>
      label.name ++ "=" ++ label.value
  "\x7b" ++ String.intercalate ", " pairs ++ "\x7d"

namespace Sample

/-- The inclusive range test of every range query. -/
def inRange (start stop : Timestamp) (sample : Sample) : Bool :=
  start ≤ sample.timestamp && sample.timestamp ≤ stop

@[simp] theorem inRange_full (sample : Sample) :
    sample.inRange Int64.minValue Int64.maxValue = true := by
  simp [inRange]

/-- The order of a stable sort by timestamp. -/
def sortKey (sample : Sample) : ℤ :=
  sample.timestamp.toInt

end Sample

end ChronoDB
