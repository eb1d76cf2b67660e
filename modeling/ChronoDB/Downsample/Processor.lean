import ChronoDB.Columnstore.Windows

namespace ChronoDB.Downsample

open Columnstore

/-!
# Downsample points

The processor summarises each run of neighbours in one window by a point.  The
averages of the points are those of the runs.
-/

/-- The largest finite value, `f64::MAX`. -/
def maxFinite : Value := (2 ^ 53 - 1) * 2 ^ 971

structure DownsamplePoint where
  timestamp : Timestamp
  minValue : Value
  maxValue : Value
  avgValue : Value
  sumValue : Value
  count : ℕ
  lastValue : Value
  deriving Repr, DecidableEq

namespace DownsamplePoint

def new (timestamp : Timestamp) : DownsamplePoint where
  timestamp := timestamp
  minValue := maxFinite
  maxValue := -maxFinite
  avgValue := 0
  sumValue := 0
  count := 0
  lastValue := 0

def addSample (point : DownsamplePoint) (value : Value) : DownsamplePoint :=
  let sumValue := point.sumValue + value
  let count := point.count + 1
  {
    point with
    minValue := min point.minValue value
    maxValue := max point.maxValue value
    sumValue := sumValue
    count := count
    avgValue := sumValue / count
    lastValue := value
  }

def isEmpty (point : DownsamplePoint) : Bool :=
  point.count = 0

/-- The sample that an average query returns for a point. -/
def average (point : DownsamplePoint) : Sample where
  timestamp := point.timestamp
  value := point.avgValue

end DownsamplePoint

namespace DownsampleProcessor

/-- A point leaves the loop unless it is empty. -/
def savePoint (point : DownsamplePoint) : List DownsamplePoint :=
  if point.isEmpty then [] else [point]

/-- The loop of `downseries` with the open window and its point. -/
def downseriesFrom
    (resolution : Int64) (window : Timestamp) (point : DownsamplePoint) :
    List Sample → List DownsamplePoint
  | [] => savePoint point
  | sample :: rest =>
    let sampleWindow := windowOf resolution sample.timestamp
    if sampleWindow ≠ window then
      savePoint point ++
        downseriesFrom resolution sampleWindow
          ((DownsamplePoint.new sampleWindow).addSample sample.value) rest
    else
      downseriesFrom resolution window (point.addSample sample.value) rest

def downseries (samples : List Sample) (resolution : Int64) :
    List DownsamplePoint :=
  match samples with
  | [] => []
  | first :: _ =>
    let window := windowOf resolution first.timestamp
    downseriesFrom resolution window (DownsamplePoint.new window) samples

end DownsampleProcessor

/-!
## The averages of the points
-/

/-- A point that is not empty holds the average of its values. -/
def DownsamplePoint.Averages (point : DownsamplePoint) : Prop :=
  0 < point.count → point.avgValue = point.sumValue / point.count

theorem DownsamplePoint.averages_addSample
    (point : DownsamplePoint) (value : Value) :
    (point.addSample value).Averages :=
  fun _ => rfl

theorem map_average_savePoint
    {point : DownsamplePoint} (averages : point.Averages) :
    (DownsampleProcessor.savePoint point).map DownsamplePoint.average =
      closeWindow point.timestamp point.sumValue point.count := by
  rw [DownsampleProcessor.savePoint, DownsamplePoint.isEmpty, closeWindow]
  by_cases empty : point.count = 0
  · simp [empty]
  · have counted : 0 < point.count := Nat.pos_of_ne_zero empty
    simp [empty, counted, DownsamplePoint.average, averages counted]

/--
The averages of the processor are those of the averaging loop.  The induction
is on the samples that are left.
-/
theorem map_average_downseriesFrom
    (resolution : Int64) {point : DownsamplePoint} (averages : point.Averages)
    (samples : List Sample) :
    (DownsampleProcessor.downseriesFrom resolution point.timestamp point
        samples).map DownsamplePoint.average =
      downsampleFrom resolution point.timestamp point.sumValue point.count
        samples := by
  induction samples generalizing point with
  | nil => exact map_average_savePoint averages
  | cons sample rest inductionHypothesis =>
    rw [DownsampleProcessor.downseriesFrom, downsampleFrom]
    split
    · have next :=
        inductionHypothesis
          ((DownsamplePoint.new
            (windowOf resolution sample.timestamp)).averages_addSample
            sample.value)
      rw [List.map_append, map_average_savePoint averages]
      simpa [DownsamplePoint.addSample, DownsamplePoint.new] using next
    · exact inductionHypothesis (point.averages_addSample sample.value)

theorem map_average_downseries_eq
    (first : Sample) (rest : List Sample) (resolution : Int64) :
    (DownsampleProcessor.downseries (first :: rest) resolution).map
        DownsamplePoint.average =
      downsampleFrom resolution (windowOf resolution first.timestamp) 0 0
        (first :: rest) :=
  @map_average_downseriesFrom resolution
    (DownsamplePoint.new (windowOf resolution first.timestamp))
    (fun counted => absurd counted (lt_irrefl 0)) (first :: rest)

end ChronoDB.Downsample
