import ChronoDB.Compression.DeltaDecoder
import ChronoDB.Query.SeriesFunctions

namespace ChronoDB.Query.Checked

open Library

/-!
# Series of doubles

What the functions of the query language do with numbers of double precision,
which may be infinite or not numbers at all.  Times are checked: a function that
computes a difference of times has no result when the difference does not fit
into 64 bits.
-/

/-- The double precision numbers with the methods that the executor calls. -/
structure Doubles (F : Type) where
  /-- The place of a number among all numbers; what is no number has none. -/
  rank : F → Option ℚ
  /-- The number that is nearest to an exact one. -/
  nearest : Value → F
  nan : F
  add : F → F → F
  sub : F → F → F
  mul : F → F → F
  div : F → F → F
  rem : F → F → F
  powf : F → F → F
  neg : F → F
  trunc : F → F
  /-- `abs`, `sqrt` and the other methods with the names of functions. -/
  method : Function → F → F
  isInfinite : F → Bool
  /-- The cast to an index. -/
  toIndex : F → ℕ
  /-- A number with some digits after the point. -/
  fixed : ℕ → F → String
  display : F → String
  debug : Function → String

structure DoubleSample (F : Type) where
  timestamp : Timestamp
  value : F

structure DoubleSeries (F : Type) where
  id : TimeSeriesId
  labels : Labels
  samples : List (DoubleSample F)

namespace Doubles

variable {F : Type} (doubles : Doubles F)

def isNan (value : F) : Bool :=
  (doubles.rank value).isNone

/-- `partial_cmp`: no order with what is no number. -/
def partialCmp (first second : F) : Option Ordering :=
  match doubles.rank first, doubles.rank second with
  | some firstRank, some secondRank => some (compare firstRank secondRank)
  | _, _ => none

def lt (first second : F) : Bool :=
  doubles.partialCmp first second = some .lt

def eq (first second : F) : Bool :=
  doubles.partialCmp first second = some .eq

def le (first second : F) : Bool :=
  doubles.lt first second || doubles.eq first second

/-- `f64::min`, which passes over what is no number. -/
def min (first second : F) : F :=
  if doubles.isNan first then second
  else if doubles.isNan second then first
  else if doubles.lt second first then second
  else first

/-- `f64::max`, which passes over what is no number. -/
def max (first second : F) : F :=
  if doubles.isNan first then second
  else if doubles.isNan second then first
  else if doubles.lt first second then second
  else first

/-- `clamp`: what is no number stays as it is. -/
def clamp (min max value : F) : F :=
  if doubles.lt value min then min
  else if doubles.lt max value then max
  else value

def sum (values : List F) : F :=
  values.foldl doubles.add (doubles.nearest 0)

/-- `powi(2)`. -/
def square (value : F) : F :=
  doubles.mul value value

def mean (values : List F) : F :=
  doubles.div (doubles.sum values) (doubles.nearest values.length)

def variance (values : List F) : F :=
  doubles.mean
    (values.map fun value =>
      doubles.square (doubles.sub value (doubles.mean values)))

/-- A timestamp or a difference of timestamps as a number. -/
def ofTime (time : Int64) : F :=
  doubles.nearest time.toInt

/-- A number in the format of label values. -/
def formatValue (value : F) : String :=
  if doubles.isNan value then
    "NaN"
  else if doubles.isInfinite value then
    if doubles.lt (doubles.nearest 0) value then "+Inf" else "-Inf"
  else if doubles.eq value (doubles.trunc value) then
    doubles.fixed 0 value
  else
    let digits := (doubles.fixed 6 value).toList.reverse
    String.ofList ((digits.dropWhile (· = '0')).dropWhile (· = '.')).reverse

/-- A comparison as a number. -/
def truth (holds : Bool) : F :=
  doubles.nearest (if holds then 1 else 0)

end Doubles

/-!
## The samples of one series
-/

def adjacent {Item : Type} (items : List Item) : List (Item × Item) :=
  items.zip items.tail

def firstAndLast {Item : Type} (items : List Item) : Option (Item × Item) :=
  match items with
  | first :: second :: rest => some (first, rest.getLastD second)
  | _ => none

/-- A difference of times that fits into 64 bits. -/
def DifferenceFits (left right : Int64) : Prop :=
  Compression.FitsInt64 (left.toInt - right.toInt)

instance (left right : Int64) : Decidable (DifferenceFits left right) :=
  inferInstanceAs (Decidable (Compression.FitsInt64 _))

/-- A difference of times; an overflow has no result. -/
def checkedSub (left right : Int64) : Option Int64 :=
  if DifferenceFits left right then some (left - right) else none

theorem checkedSub_isSome_iff {left right : Int64} :
    (checkedSub left right).isSome ↔ DifferenceFits left right := by
  by_cases fits : DifferenceFits left right <;> simp [checkedSub, fits]

section Samples

variable {F : Type} (doubles : Doubles F)

/-- The rate between two samples, unless the counter was reset. -/
def rateBetween (prev curr : DoubleSample F) :
    Option (Option (DoubleSample F)) := do
  let difference ← checkedSub curr.timestamp prev.timestamp
  let timeDelta := doubles.ofTime difference
  let valueDelta := doubles.sub curr.value prev.value
  if doubles.le timeDelta (doubles.nearest 0) then
    some none
  else if doubles.lt valueDelta (doubles.nearest 0) then
    some none
  else
    some (some ⟨curr.timestamp, doubles.div valueDelta timeDelta⟩)

def calculateRate (samples : List (DoubleSample F)) :
    Option (List (DoubleSample F)) :=
  ((adjacent samples).mapM fun (prev, curr) =>
    rateBetween doubles prev curr).map List.reduceOption

def calculateIrate (samples : List (DoubleSample F)) :
    Option (List (DoubleSample F)) :=
  match (adjacent samples).getLast? with
  | none => some []
  | some (prev, curr) => do
    let difference ← checkedSub curr.timestamp prev.timestamp
    let timeDelta := doubles.ofTime difference
    if doubles.le timeDelta (doubles.nearest 0) then
      some []
    else
      let valueDelta := doubles.sub curr.value prev.value
      some [⟨curr.timestamp, doubles.div valueDelta timeDelta⟩]

def calculateIncrease (samples : List (DoubleSample F)) :
    Option (List (DoubleSample F)) :=
  match firstAndLast samples with
  | none => some []
  | some (first, last) => do
    let difference ← checkedSub last.timestamp first.timestamp
    if doubles.le (doubles.ofTime difference) (doubles.nearest 0) then
      some []
    else
      some [⟨last.timestamp, doubles.sub last.value first.value⟩]

def calculateDelta (samples : List (DoubleSample F)) :
    List (DoubleSample F) :=
  match firstAndLast samples with
  | none => []
  | some (first, last) => [⟨last.timestamp, doubles.sub last.value first.value⟩]

def calculateIdelta (samples : List (DoubleSample F)) :
    List (DoubleSample F) :=
  match (adjacent samples).getLast? with
  | none => []
  | some (prev, curr) => [⟨curr.timestamp, doubles.sub curr.value prev.value⟩]

def calculateResets (samples : List (DoubleSample F)) : ℕ :=
  (adjacent samples).countP fun (prev, curr) =>
    doubles.lt curr.value prev.value

def calculateChanges (samples : List (DoubleSample F)) : ℕ :=
  (adjacent samples).countP fun (prev, curr) =>
    !doubles.eq curr.value prev.value

/-- A line through samples, and the time of the last one. -/
structure LinearFit (F : Type) where
  slope : F
  intercept : F
  last : Timestamp

/-- The linear regression of `deriv` and `predict_linear`. -/
def linearFit (samples : List (DoubleSample F)) : Option (LinearFit F) :=
  match firstAndLast samples with
  | none => none
  | some (_, last) =>
    let n := doubles.nearest samples.length
    let times := samples.map fun sample => doubles.ofTime sample.timestamp
    let sumX := doubles.sum times
    let sumY := doubles.sum (samples.map DoubleSample.value)
    let sumXY :=
      doubles.sum
        (samples.map fun sample =>
          doubles.mul (doubles.ofTime sample.timestamp) sample.value)
    let sumX2 := doubles.sum (times.map doubles.square)
    let denominator := doubles.sub (doubles.mul n sumX2) (doubles.square sumX)
    if doubles.eq denominator (doubles.nearest 0) then
      none
    else
      let slope :=
        doubles.div
          (doubles.sub (doubles.mul n sumXY) (doubles.mul sumX sumY))
          denominator
      some {
        slope := slope
        intercept := doubles.div (doubles.sub sumY (doubles.mul slope sumX)) n
        last := last.timestamp
      }

def calculateDeriv (samples : List (DoubleSample F)) :
    List (DoubleSample F) :=
  match linearFit doubles samples with
  | none => []
  | some fit => [⟨fit.last, fit.slope⟩]

def calculatePredictLinear
    (samples : List (DoubleSample F)) (predictionTime : F) :
    Option F :=
  (linearFit doubles samples).map fun fit =>
    let time :=
      doubles.add (doubles.ofTime fit.last)
        (doubles.mul predictionTime (doubles.nearest 1000))
    doubles.add (doubles.mul fit.slope time) fit.intercept

def holtWintersFrom (alpha beta level trend : F) :
    List (DoubleSample F) → List (DoubleSample F)
  | [] => []
  | sample :: rest =>
    let one := doubles.nearest 1
    let nextLevel :=
      doubles.add (doubles.mul alpha sample.value)
        (doubles.mul (doubles.sub one alpha) (doubles.add level trend))
    let nextTrend :=
      doubles.add (doubles.mul beta (doubles.sub nextLevel level))
        (doubles.mul (doubles.sub one beta) trend)
    ⟨sample.timestamp, doubles.add nextLevel nextTrend⟩ ::
      holtWintersFrom alpha beta nextLevel nextTrend rest

def calculateHoltWinters (samples : List (DoubleSample F)) (alpha beta : F) :
    List (DoubleSample F) :=
  match samples with
  | first :: second :: rest =>
    holtWintersFrom doubles alpha beta first.value
      (doubles.sub second.value first.value) (second :: rest)
  | _ => []

end Samples

/-!
## Lists of series
-/

section Series

variable {F : Type} (doubles : Doubles F)

def singleSample
    (id : TimeSeriesId) (labels : Labels) (timestamp : Timestamp) (value : F) :
    DoubleSeries F where
  id := id
  labels := labels
  samples := [⟨timestamp, value⟩]

/-- The series whose new samples are not empty, when all can be computed. -/
def withSamples
    (calculate : List (DoubleSample F) → Option (List (DoubleSample F)))
    (series : List (DoubleSeries F)) :
    Option (List (DoubleSeries F)) :=
  (series.mapM fun ts =>
    (calculate ts.samples).map fun samples =>
      { ts with samples := samples }).map
    (·.filter fun ts => !ts.samples.isEmpty)

/-- One number for each series, at one time. -/
def valueOfEach (timestamp : Timestamp) (calculate : List (DoubleSample F) → F)
    (series : List (DoubleSeries F)) :
    List (DoubleSeries F) :=
  series.map fun ts =>
    singleSample ts.id ts.labels timestamp (calculate ts.samples)

def mapSamples
    (newValue : DoubleSample F → F) (series : List (DoubleSeries F)) :
    List (DoubleSeries F) :=
  series.map fun ts =>
    { ts with
      samples :=
        ts.samples.map fun sample =>
          { sample with value := newValue sample } }

def allValues (series : List (DoubleSeries F)) : List F :=
  series.flatMap fun ts => ts.samples.map DoubleSample.value

/-- One number for all series, under the labels of the first one. -/
def valueOfAll (timestamp : Timestamp) (calculate : List F → F)
    (series : List (DoubleSeries F)) :
    List (DoubleSeries F) :=
  match series with
  | [] => []
  | first :: _ =>
    [singleSample 0 first.labels timestamp (calculate (allValues series))]

/-- The same, but nothing when there are no samples. -/
def valueOfSome (timestamp : Timestamp) (calculate : List F → F)
    (series : List (DoubleSeries F)) :
    List (DoubleSeries F) :=
  if (allValues series).isEmpty then []
  else valueOfAll timestamp calculate series

def allTimestamps (series : List (DoubleSeries F)) : List Timestamp :=
  (series.flatMap fun ts => ts.samples.map DoubleSample.timestamp).dedup

def valuesAt (timestamp : Timestamp) (series : List (DoubleSeries F)) :
    List F :=
  ((series.flatMap DoubleSeries.samples).filter fun sample =>
    sample.timestamp = timestamp).map DoubleSample.value

def sumSeries (series : List (DoubleSeries F)) : Option (DoubleSeries F) :=
  series.head?.map fun first =>
    {
      id := 0
      labels := first.labels
      samples :=
        (sortByKey Int64.toInt (allTimestamps series)).map fun timestamp =>
          ⟨timestamp, doubles.sum (valuesAt timestamp series)⟩
    }

def firstValue (ts : DoubleSeries F) : F :=
  (ts.samples.head?.map DoubleSample.value).getD (doubles.nearest 0)

def scalarValue (series : List (DoubleSeries F)) : F :=
  match series with
  | [⟨_, _, [sample]⟩] => sample.value
  | _ => doubles.nan

def vectorSeries (start : Timestamp) (series : List (DoubleSeries F)) :
    List (DoubleSeries F) :=
  match series with
  | [⟨_, _ :: _, [sample]⟩] => [singleSample 0 [] start sample.value]
  | _ => series

/-!
## Two lists of series
-/

/-- Every left sample with the first right sample of its timestamp. -/
def applyBinaryOpToSamples (op : F → F → F) (lhs rhs : List (DoubleSample F)) :
    List (DoubleSample F) :=
  lhs.filterMap fun lhsSample =>
    (rhs.find? fun sample =>
      sample.timestamp = lhsSample.timestamp).map fun rhsSample =>
        ⟨lhsSample.timestamp, op lhsSample.value rhsSample.value⟩

def combinePairs
    (op : F → F → F) (pairs : List (DoubleSeries F × DoubleSeries F)) :
    List (DoubleSeries F) :=
  (pairs.map fun (lhs, rhs) =>
    { lhs with
      samples := applyBinaryOpToSamples op lhs.samples rhs.samples }).filter
    fun ts => !ts.samples.isEmpty

/-- Series are matched by their ids, or else by their positions. -/
def executeBinaryOp (lhs rhs : List (DoubleSeries F)) (op : F → F → F) :
    List (DoubleSeries F) :=
  let result :=
    combinePairs op ((lhs.product rhs).filter fun (lhs, rhs) => lhs.id = rhs.id)
  if result.isEmpty && decide (lhs.length = rhs.length) then
    combinePairs op (lhs.zip rhs)
  else
    result

def executeComparisonOp (lhs rhs : List (DoubleSeries F)) (op : F → F → F) :
    List (DoubleSeries F) :=
  executeBinaryOp lhs rhs op

def executeSetOp (lhs rhs : List (DoubleSeries F)) (op : SetOp) :
    List (DoubleSeries F) :=
  let lhsIds := lhs.map DoubleSeries.id
  let rhsIds := rhs.map DoubleSeries.id
  let inResult (id : TimeSeriesId) : Bool :=
    match op with
    | .and => id ∈ lhsIds && id ∈ rhsIds
    | .or => id ∈ lhsIds || id ∈ rhsIds
    | .unless => id ∈ lhsIds && id ∉ rhsIds
  lhs.filter (fun ts => inResult ts.id) ++
    if op = .or then
      rhs.filter fun ts => inResult ts.id && ts.id ∉ lhsIds
    else
      []

/-- What a binary operator makes of the series on its sides. -/
def applyBinaryOp (op : BinaryOp) (lhs rhs : List (DoubleSeries F)) :
    List (DoubleSeries F) :=
  let isZero := fun value => doubles.eq value (doubles.nearest 0)
  match op with
  | .add => executeBinaryOp lhs rhs doubles.add
  | .sub => executeBinaryOp lhs rhs doubles.sub
  | .mul => executeBinaryOp lhs rhs doubles.mul
  | .div =>
    executeBinaryOp lhs rhs fun a b =>
      if isZero b then doubles.nan else doubles.div a b
  | .mod =>
    executeBinaryOp lhs rhs fun a b =>
      if isZero b then doubles.nan else doubles.rem a b
  | .pow => executeBinaryOp lhs rhs doubles.powf
  | .eq =>
    executeComparisonOp lhs rhs fun a b => doubles.truth (doubles.eq a b)
  | .ne =>
    executeComparisonOp lhs rhs fun a b => doubles.truth !(doubles.eq a b)
  | .lt =>
    executeComparisonOp lhs rhs fun a b => doubles.truth (doubles.lt a b)
  | .le =>
    executeComparisonOp lhs rhs fun a b => doubles.truth (doubles.le a b)
  | .gt =>
    executeComparisonOp lhs rhs fun a b => doubles.truth (doubles.lt b a)
  | .ge =>
    executeComparisonOp lhs rhs fun a b => doubles.truth (doubles.le b a)
  | .and => executeSetOp lhs rhs .and
  | .or => executeSetOp lhs rhs .or
  | .unless => executeSetOp lhs rhs .unless

def applyUnaryOp (op : UnaryOp) (value : F) : F :=
  match op with
  | .add => value
  | .sub => doubles.neg value

end Series

/-!
## Exact numbers
-/

/-- Exact numbers, and one thing that is no number. -/
def exactDoubles (std : StdFloat) : Doubles (Option Value) where
  rank := id
  nearest := some
  nan := none
  add := fun first second => first.bind fun a => second.map (a + ·)
  sub := fun first second => first.bind fun a => second.map (a - ·)
  mul := fun first second => first.bind fun a => second.map (a * ·)
  div := fun first second =>
    first.bind fun a => second.bind fun b => if b = 0 then none else a / b
  rem := fun first second =>
    first.bind fun a => second.map (remainderValue a)
  powf := fun first second => first.bind fun a => second.map (std.powf a)
  neg := Option.map (- ·)
  trunc := Option.map truncValue
  method := fun func =>
    Option.map fun value =>
      match func with
      | .abs => |value|
      | .ceil => ⌈value⌉
      | .floor => ⌊value⌋
      | .round => roundValue value
      | .sqrt => std.sqrt value
      | _ => std.unary func value
  isInfinite := fun _ => false
  toIndex := fun value => (value.getD 0).floor.toNat
  fixed := fun digits value => std.fixed digits (value.getD 0)
  display := fun value => std.display (value.getD 0)
  debug := std.debug

end ChronoDB.Query.Checked
