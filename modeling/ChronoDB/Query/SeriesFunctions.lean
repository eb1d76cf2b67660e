import ChronoDB.Query.Planner
import Mathlib.Algebra.Order.Floor.Ring
import Mathlib.Data.List.ProdSigma
import Mathlib.Data.Rat.Floor

namespace ChronoDB.Query

open Library List

/-!
# Functions of series

What the functions of the query language do with the series of their argument.
Their arithmetic is exact; what exact arithmetic lacks is a parameter.
-/

/-- What floats and their formatting add to exact arithmetic. -/
structure StdFloat where
  nan : Value
  /-- `exp`, `sin` and the other methods without rational results. -/
  unary : Function → Value → Value
  sqrt : Value → Value
  powf : Value → Value → Value
  /-- A number with some digits after the point. -/
  fixed : ℕ → Value → String
  display : Value → String
  debug : Function → String

/-- Formatting for whole numbers, the only values of the examples. -/
def exampleStd : StdFloat where
  nan := 0
  unary := fun _ value => value
  sqrt := id
  powf := fun value _ => value
  fixed := fun _ value => toString value
  display := toString
  debug := Function.name

def f64Max : Value :=
  (2 ^ 53 - 1) * 2 ^ 971

/-- A timestamp or a difference of timestamps as a value. -/
def timeValue (time : Int64) : Value :=
  time.toInt

/-- `trunc`: the integral part. -/
def truncValue (value : Value) : Value :=
  if value < 0 then ⌈value⌉ else ⌊value⌋

/-- `round`: halves are rounded away from zero. -/
def roundValue (value : Value) : Value :=
  if value < 0 then ⌈value - 1 / 2⌉ else ⌊value + 1 / 2⌋

/-- `s.value.clamp(min, max)`. -/
def clampValue (min max value : Value) : Value :=
  if value < min then min
  else if max < value then max
  else value

/-- A number in the format of label values. -/
def formatValue (std : StdFloat) (value : Value) : String :=
  if value = truncValue value then
    std.fixed 0 value
  else
    let digits := (std.fixed 6 value).toList.reverse
    String.ofList ((digits.dropWhile (· = '0')).dropWhile (· = '.')).reverse

/-!
## The samples of one series
-/

section Samples

def neighbours (samples : List Sample) : List (Sample × Sample) :=
  samples.zip samples.tail

def endSamples (samples : List Sample) : Option (Sample × Sample) :=
  match samples with
  | first :: second :: rest => some (first, rest.getLastD second)
  | _ => none

def calculateRate (samples : List Sample) : List Sample :=
  (neighbours samples).filterMap fun (prev, curr) =>
    let timeDelta := timeValue (curr.timestamp - prev.timestamp)
    let valueDelta := curr.value - prev.value
    if timeDelta ≤ 0 then none
    -- the counter was reset
    else if valueDelta < 0 then none
    else
      some {
        timestamp := curr.timestamp
        value := valueDelta / timeDelta
      }

def calculateIrate (samples : List Sample) : List Sample :=
  match (neighbours samples).getLast? with
  | none => []
  | some (prev, curr) =>
    let timeDelta := timeValue (curr.timestamp - prev.timestamp)
    if timeDelta ≤ 0 then []
    else
      [{
        timestamp := curr.timestamp
        value := (curr.value - prev.value) / timeDelta
      }]

def calculateIncrease (samples : List Sample) : List Sample :=
  match endSamples samples with
  | none => []
  | some (first, last) =>
    if timeValue (last.timestamp - first.timestamp) ≤ 0 then []
    else
      [{
        timestamp := last.timestamp
        value := last.value - first.value
      }]

def calculateDelta (samples : List Sample) : List Sample :=
  match endSamples samples with
  | none => []
  | some (first, last) =>
    [{ timestamp := last.timestamp, value := last.value - first.value }]

def calculateIdelta (samples : List Sample) : List Sample :=
  match (neighbours samples).getLast? with
  | none => []
  | some (prev, curr) =>
    [{ timestamp := curr.timestamp, value := curr.value - prev.value }]

def calculateResets (samples : List Sample) : ℕ :=
  (neighbours samples).countP fun (prev, curr) =>
    decide (curr.value < prev.value)

def calculateChanges (samples : List Sample) : ℕ :=
  (neighbours samples).countP fun (prev, curr) =>
    decide (curr.value ≠ prev.value)

/-- A line through the samples, and the time of the last one. -/
structure LinearFit where
  slope : Value
  intercept : Value
  last : Timestamp
  deriving Repr, DecidableEq

/-- The linear regression of `deriv` and `predict_linear`. -/
def linearFit (samples : List Sample) : Option LinearFit :=
  match endSamples samples with
  | none => none
  | some (_, last) =>
    let n : Value := samples.length
    let times := samples.map fun sample => timeValue sample.timestamp
    let sumX := times.sum
    let sumY := (samples.map Sample.value).sum
    let sumXY :=
      (samples.map fun sample =>
        timeValue sample.timestamp * sample.value).sum
    let sumX2 := (times.map (· ^ 2)).sum
    let denominator := n * sumX2 - sumX ^ 2
    if denominator = 0 then none
    else
      let slope := (n * sumXY - sumX * sumY) / denominator
      some {
        slope := slope
        intercept := (sumY - slope * sumX) / n
        last := last.timestamp
      }

def calculateDeriv (samples : List Sample) : List Sample :=
  match linearFit samples with
  | none => []
  | some fit => [{ timestamp := fit.last, value := fit.slope }]

def calculatePredictLinear (samples : List Sample) (predictionTime : Value) :
    Option Value :=
  (linearFit samples).map fun fit =>
    fit.slope * (timeValue fit.last + predictionTime * 1000) + fit.intercept

def holtWintersFrom (alpha beta level trend : Value) :
    List Sample → List Sample
  | [] => []
  | sample :: rest =>
    let nextLevel := alpha * sample.value + (1 - alpha) * (level + trend)
    let nextTrend := beta * (nextLevel - level) + (1 - beta) * trend
    { timestamp := sample.timestamp, value := nextLevel + nextTrend } ::
      holtWintersFrom alpha beta nextLevel nextTrend rest

def calculateHoltWinters (samples : List Sample) (alpha beta : Value) :
    List Sample :=
  match samples with
  | first :: second :: rest =>
    holtWintersFrom alpha beta first.value (second.value - first.value)
      (second :: rest)
  | _ => []

end Samples

/-!
## Statistics
-/

def allValues (series : List TimeSeries) : List Value :=
  series.flatMap fun ts => ts.samples.map Sample.value

def mean (values : List Value) : Value :=
  values.sum / values.length

def variance (values : List Value) : Value :=
  (values.map fun value => (value - mean values) ^ 2).sum / values.length

/-- The value at a quantile of ascending values; `none` is an index panic. -/
def quantileOf (quantile : Value) (values : List Value) : Option Value :=
  let n := values.length
  if n = 1 ∨ quantile = 0 then
    values[0]?
  else if quantile = 1 then
    values[n - 1]?
  else
    let position := quantile * ((n - 1 : ℕ) : Value)
    let lowerIndex := ⌊position⌋.toNat
    let upperIndex := ⌈position⌉.toNat
    let fraction := position - lowerIndex
    if lowerIndex = upperIndex then
      values[lowerIndex]?
    else
      match values[lowerIndex]?, values[upperIndex]? with
      | some lower, some upper =>
        some (lower * (1 - fraction) + upper * fraction)
      | _, _ => none

/-!
## Lists of series
-/

def singleSample (id : TimeSeriesId) (labels : Labels) (timestamp : Timestamp)
    (value : Value) :
    TimeSeries where
  id := id
  labels := labels
  samples := [{ timestamp := timestamp, value := value }]

/-- The series whose new samples are not empty. -/
def withSamples
    (calculate : List Sample → List Sample) (series : List TimeSeries) :
    List TimeSeries :=
  series.filterMap fun ts =>
    let samples := calculate ts.samples
    if samples = [] then none else some { ts with samples := samples }

def valueOfEach (timestamp : Timestamp) (calculate : List Sample → Value)
    (series : List TimeSeries) :
    List TimeSeries :=
  series.map fun ts =>
    singleSample ts.id ts.labels timestamp (calculate ts.samples)

def mapSamples (newValue : Sample → Value) (series : List TimeSeries) :
    List TimeSeries :=
  series.map fun ts =>
    { ts with
      samples :=
        ts.samples.map fun sample =>
          { sample with value := newValue sample } }

def valueOfAll (timestamp : Timestamp) (calculate : List Value → Value)
    (series : List TimeSeries) :
    List TimeSeries :=
  match series with
  | [] => []
  | first :: _ =>
    [singleSample 0 first.labels timestamp (calculate (allValues series))]

/-- The same, but nothing when there are no samples. -/
def valueOfSome (timestamp : Timestamp) (calculate : List Value → Value)
    (series : List TimeSeries) :
    List TimeSeries :=
  if allValues series = [] then []
  else valueOfAll timestamp calculate series

def allTimestamps (series : List TimeSeries) : List Timestamp :=
  (series.flatMap fun ts => ts.samples.map Sample.timestamp).dedup

def valuesAt (timestamp : Timestamp) (series : List TimeSeries) :
    List Value :=
  ((series.flatMap TimeSeries.samples).filter fun sample =>
    sample.timestamp = timestamp).map Sample.value

/-- The sums of all timestamps, under the labels of the first series. -/
def sumSeries (series : List TimeSeries) : TimeSeries where
  id := 0
  labels := (series.head?.map TimeSeries.labels).getD []
  samples :=
    (sortByKey Int64.toInt (allTimestamps series)).map fun timestamp =>
      { timestamp := timestamp, value := (valuesAt timestamp series).sum }

def firstSamples (key : Sample → Value) (k : ℕ) (series : List TimeSeries) :
    List TimeSeries :=
  let allSamples :=
    series.flatMap fun ts =>
      ts.samples.map fun sample => (ts.id, sample, ts.labels)
  ((sortByKey (fun item => key item.2.1) allSamples).take k).map
    fun (id, sample, labels) =>
      { id := id, labels := labels, samples := [sample] }

def firstValue (ts : TimeSeries) : Value :=
  (ts.samples.head?.map Sample.value).getD 0

def scalarValue (std : StdFloat) (series : List TimeSeries) : Value :=
  match series with
  | [⟨_, _, [sample]⟩] => sample.value
  | _ => std.nan

def vectorSeries (start : Timestamp) (series : List TimeSeries) :
    List TimeSeries :=
  match series with
  | [⟨_, _ :: _, [sample]⟩] => [singleSample 0 [] start sample.value]
  | _ => series

/-- The value of `histogram_quantile` for one series. -/
def histogramValue (samples : List Sample) : Option Value :=
  let values := sortByKey id (samples.map Sample.value)
  values[⌊(99 / 100 : Value) * ((values.length - 1 : ℕ) : Value)⌋.toNat]?

/-!
## Two lists of series
-/

/-- Every left sample with the first right sample of its timestamp. -/
def applyBinaryOpToSamples
    (op : Value → Value → Value) (lhs rhs : List Sample) :
    List Sample :=
  lhs.filterMap fun lhsSample =>
    (rhs.find? fun sample =>
      sample.timestamp = lhsSample.timestamp).map fun rhsSample =>
        { timestamp := lhsSample.timestamp
          value := op lhsSample.value rhsSample.value }

def combinePairs
    (op : Value → Value → Value) (pairs : List (TimeSeries × TimeSeries)) :
    List TimeSeries :=
  pairs.filterMap fun (lhs, rhs) =>
    let samples := applyBinaryOpToSamples op lhs.samples rhs.samples
    if samples = [] then none else some { lhs with samples := samples }

/-- Series are matched by their ids, or else by their positions. -/
def executeBinaryOp (lhs rhs : List TimeSeries) (op : Value → Value → Value) :
    List TimeSeries :=
  let result :=
    combinePairs op ((lhs.product rhs).filter fun (lhs, rhs) => lhs.id = rhs.id)
  if result = [] ∧ lhs.length = rhs.length then
    combinePairs op (lhs.zip rhs)
  else
    result

def executeComparisonOp
    (lhs rhs : List TimeSeries) (op : Value → Value → Value) :
    List TimeSeries :=
  executeBinaryOp lhs rhs op

inductive SetOp where
  | and
  | or
  | unless
  deriving Repr, DecidableEq

def executeSetOp (lhs rhs : List TimeSeries) (op : SetOp) :
    List TimeSeries :=
  let lhsIds := lhs.map TimeSeries.id
  let rhsIds := rhs.map TimeSeries.id
  let inResult (id : TimeSeriesId) : Bool :=
    match op with
    | .and => id ∈ lhsIds && id ∈ rhsIds
    | .or => id ∈ lhsIds || id ∈ rhsIds
    | .unless => id ∈ lhsIds && id ∉ rhsIds
  lhs.filter (fun ts => inResult ts.id) ++
    if op = .or then
      rhs.filter fun ts => inResult ts.id && ts.id ∉ lhsIds
    else
      []

/-- `a % b` of floats has the sign of `a`. -/
def remainderValue (a b : Value) : Value :=
  a - b * truncValue (a / b)

/-- A comparison as a value. -/
def truthValue (holds : Bool) : Value :=
  if holds then 1 else 0

/-- What a binary operator makes of the series on its sides. -/
def applyBinaryOp (std : StdFloat) (op : BinaryOp) (lhs rhs : List TimeSeries) :
    List TimeSeries :=
  match op with
  | .add => executeBinaryOp lhs rhs fun a b => a + b
  | .sub => executeBinaryOp lhs rhs fun a b => a - b
  | .mul => executeBinaryOp lhs rhs fun a b => a * b
  | .div =>
    executeBinaryOp lhs rhs fun a b => if b = 0 then std.nan else a / b
  | .mod =>
    executeBinaryOp lhs rhs fun a b =>
      if b = 0 then std.nan else remainderValue a b
  | .pow => executeBinaryOp lhs rhs std.powf
  | .eq => executeComparisonOp lhs rhs fun a b => truthValue (a = b)
  | .ne => executeComparisonOp lhs rhs fun a b => truthValue (a ≠ b)
  | .lt => executeComparisonOp lhs rhs fun a b => truthValue (a < b)
  | .le => executeComparisonOp lhs rhs fun a b => truthValue (a ≤ b)
  | .gt => executeComparisonOp lhs rhs fun a b => truthValue (a > b)
  | .ge => executeComparisonOp lhs rhs fun a b => truthValue (a ≥ b)
  | .and => executeSetOp lhs rhs .and
  | .or => executeSetOp lhs rhs .or
  | .unless => executeSetOp lhs rhs .unless

def applyUnaryOp (op : UnaryOp) (value : Value) : Value :=
  match op with
  | .add => value
  | .sub => -value

/-!
## Series that are combined
-/

def ShareTimestamp (left right : TimeSeries) : Prop :=
  ∃ sample ∈ left.samples, ∃ other ∈ right.samples,
    other.timestamp = sample.timestamp

/-- Two series of one id have samples at one time. -/
def Partners (left right : TimeSeries) : Prop :=
  left.id = right.id ∧ ShareTimestamp left right

def firstAt (time : Timestamp) (samples : List Sample) : Option Sample :=
  samples.find? fun sample => sample.timestamp = time

/--
A series under the id and the labels of the left one, with a sample for each
left sample whose time the right one has, combined with the first right sample
then.
-/
structure Combines
    (op : Value → Value → Value) (left right result : TimeSeries) :
    Prop where
  sameId : result.id = left.id
  sameLabels : result.labels = left.labels
  samples :
    List.Forall₂
      (fun leftSample sample =>
        ∃ rightSample ∈ firstAt leftSample.timestamp right.samples,
          sample =
            ⟨leftSample.timestamp, op leftSample.value rightSample.value⟩)
      (left.samples.filter fun sample =>
        sample.timestamp ∈ right.samples.map Sample.timestamp)
      result.samples

section Combinations

variable {op : Value → Value → Value}

def combined (op : Value → Value → Value) (left right : TimeSeries) :
    TimeSeries :=
  { left with
    samples := applyBinaryOpToSamples op left.samples right.samples }

theorem firstAt_isSome_iff {time : Timestamp} {samples : List Sample} :
    (firstAt time samples).isSome ↔ time ∈ samples.map Sample.timestamp := by
  rw [firstAt, find?_isSome, mem_map]
  simp only [decide_eq_true_iff]

theorem applyBinaryOpToSamples_cons (sample : Sample) (lhs rhs : List Sample) :
    applyBinaryOpToSamples op (sample :: lhs) rhs =
      match firstAt sample.timestamp rhs with
      | none => applyBinaryOpToSamples op lhs rhs
      | some first =>
        ⟨sample.timestamp, op sample.value first.value⟩ ::
          applyBinaryOpToSamples op lhs rhs := by
  rw [applyBinaryOpToSamples, filterMap_cons, firstAt]
  cases rhs.find? fun other => other.timestamp = sample.timestamp <;> rfl

theorem forall₂_applyBinaryOpToSamples (lhs rhs : List Sample) :
    List.Forall₂
      (fun leftSample sample =>
        ∃ rightSample ∈ firstAt leftSample.timestamp rhs,
          sample =
            ⟨leftSample.timestamp, op leftSample.value rightSample.value⟩)
      (lhs.filter fun sample => sample.timestamp ∈ rhs.map Sample.timestamp)
      (applyBinaryOpToSamples op lhs rhs) := by
  induction lhs with
  | nil => exact .nil
  | cons sample rest inductionHypothesis =>
    have isThere := @firstAt_isSome_iff sample.timestamp rhs
    rw [applyBinaryOpToSamples_cons, filter_cons]
    cases found : firstAt sample.timestamp rhs with
    | none =>
      rw [found] at isThere
      have notThere := isThere.not.mp nofun
      rw [decide_eq_false notThere]
      exact inductionHypothesis
    | some first =>
      rw [found] at isThere
      rw [decide_eq_true (isThere.mp rfl)]
      exact .cons ⟨first, found, rfl⟩ inductionHypothesis

theorem combines_combined (left right : TimeSeries) :
    Combines op left right (combined op left right) :=
  ⟨rfl, rfl, forall₂_applyBinaryOpToSamples _ _⟩

theorem applyBinaryOpToSamples_ne_nil_iff {left right : TimeSeries} :
    applyBinaryOpToSamples op left.samples right.samples ≠ [] ↔
      ShareTimestamp left right := by
  have sameLength :=
    (@forall₂_applyBinaryOpToSamples op left.samples right.samples).length_eq
  rw [← length_pos_iff, ← sameLength, length_filter_pos_iff]
  simp only [decide_eq_true_iff, mem_map, ShareTimestamp]

theorem mem_combinePairs
    {pairs : List (TimeSeries × TimeSeries)} {series : TimeSeries} :
    series ∈ combinePairs op pairs ↔
      ∃ pair ∈ pairs, ShareTimestamp pair.1 pair.2 ∧
        series = combined op pair.1 pair.2 := by
  rw [combinePairs, mem_filterMap]
  refine exists_congr fun pair => and_congr_right fun _ => ?_
  rw [← @applyBinaryOpToSamples_ne_nil_iff op]
  exact Option.ite_none_left_eq_some.trans
    (and_congr_right fun _ => Option.some_inj.trans eq_comm)

theorem combinePairs_perm {pairs others : List (TimeSeries × TimeSeries)}
    (reordered : others.Perm pairs) :
    (combinePairs op others).Perm (combinePairs op pairs) :=
  reordered.filterMap _

def matchedPairs (lhs rhs : List TimeSeries) :
    List (TimeSeries × TimeSeries) :=
  (lhs.product rhs).filter fun pair => pair.1.id = pair.2.id

theorem mem_combinePairs_matchedPairs
    {lhs rhs : List TimeSeries} {series : TimeSeries} :
    series ∈ combinePairs op (matchedPairs lhs rhs) ↔
      ∃ left ∈ lhs, ∃ right ∈ rhs,
        Partners left right ∧ series = combined op left right := by
  rw [mem_combinePairs]
  constructor
  · rintro ⟨⟨left, right⟩, isPair, share, isResult⟩
    obtain ⟨inProduct, sameId⟩ := mem_filter.mp isPair
    obtain ⟨isLeft, isRight⟩ := pair_mem_product.mp inProduct
    exact ⟨left, isLeft, right, isRight,
      ⟨of_decide_eq_true sameId, share⟩, isResult⟩
  · rintro ⟨left, isLeft, right, isRight, ⟨sameId, share⟩, isResult⟩
    exact ⟨(left, right),
      mem_filter.mpr
        ⟨pair_mem_product.mpr ⟨isLeft, isRight⟩, decide_eq_true sameId⟩,
      share, isResult⟩

def HavePartners (lhs rhs : List TimeSeries) : Prop :=
  ∃ left ∈ lhs, ∃ right ∈ rhs, Partners left right

theorem combinePairs_matchedPairs_eq_nil_iff {lhs rhs : List TimeSeries} :
    combinePairs op (matchedPairs lhs rhs) = [] ↔ ¬HavePartners lhs rhs := by
  rw [eq_nil_iff_forall_not_mem]
  simp only [mem_combinePairs_matchedPairs, HavePartners]
  constructor
  · rintro noResult ⟨left, isLeft, right, isRight, partners⟩
    exact noResult _ ⟨left, isLeft, right, isRight, partners, rfl⟩
  · rintro noPartners series ⟨left, isLeft, right, isRight, partners, _⟩
    exact noPartners ⟨left, isLeft, right, isRight, partners⟩

/-- Series are matched by position when ids match none of as many. -/
def ByPosition (lhs rhs : List TimeSeries) : Prop :=
  ¬HavePartners lhs rhs ∧ lhs.length = rhs.length

theorem executeBinaryOp_cases (lhs rhs : List TimeSeries) :
    ¬ByPosition lhs rhs ∧
        executeBinaryOp lhs rhs op = combinePairs op (matchedPairs lhs rhs) ∨
      ByPosition lhs rhs ∧
        executeBinaryOp lhs rhs op = combinePairs op (lhs.zip rhs) := by
  rw [ByPosition, ← @combinePairs_matchedPairs_eq_nil_iff op]
  by_cases fallback :
      combinePairs op (matchedPairs lhs rhs) = [] ∧ lhs.length = rhs.length
  · exact .inr ⟨fallback, if_pos fallback⟩
  · exact .inl ⟨fallback, if_neg fallback⟩

theorem byPosition_perm
    {lhs rhs others otherRhs : List TimeSeries} (reordered : others.Perm lhs)
    (otherReordered : otherRhs.Perm rhs) :
    ByPosition others otherRhs ↔ ByPosition lhs rhs := by
  simp only [ByPosition, HavePartners, reordered.mem_iff,
    otherReordered.mem_iff, reordered.length_eq, otherReordered.length_eq]

theorem matchedPairs_perm
    {lhs rhs others otherRhs : List TimeSeries} (reordered : others.Perm lhs)
    (otherReordered : otherRhs.Perm rhs) :
    (matchedPairs others otherRhs).Perm (matchedPairs lhs rhs) :=
  (reordered.product otherReordered).filter _

/--
Unless the lists have one length and no partners, the results are one for each
two partners, whatever the order of the lists.  Else the series at each position
are combined if they share a time.
-/
theorem executeBinaryOp_matches (op : Value → Value → Value)
    (lhs rhs : List TimeSeries) :
    (¬ByPosition lhs rhs →
        (∀ series ∈ executeBinaryOp lhs rhs op,
          ∃ left ∈ lhs, ∃ right ∈ rhs,
            Partners left right ∧ Combines op left right series) ∧
        (∀ left ∈ lhs, ∀ right ∈ rhs, Partners left right →
          ∃ series ∈ executeBinaryOp lhs rhs op,
            Combines op left right series) ∧
        ∀ others otherRhs,
          others.Perm lhs → otherRhs.Perm rhs →
            (executeBinaryOp others otherRhs op).Perm
              (executeBinaryOp lhs rhs op)) ∧
      (ByPosition lhs rhs →
        (∀ series ∈ executeBinaryOp lhs rhs op,
          ∃ pair ∈ lhs.zip rhs,
            ShareTimestamp pair.1 pair.2 ∧ Combines op pair.1 pair.2 series) ∧
        ∀ pair ∈ lhs.zip rhs, ShareTimestamp pair.1 pair.2 →
          ∃ series ∈ executeBinaryOp lhs rhs op,
            Combines op pair.1 pair.2 series) := by
  obtain ⟨notByPosition, results⟩ | ⟨byPosition, results⟩ :=
    @executeBinaryOp_cases op lhs rhs
  · refine ⟨fun _ => ⟨?_, ?_, ?_⟩, fun byPosition =>
      absurd byPosition notByPosition⟩
    · intro series isResult
      rw [results, mem_combinePairs_matchedPairs] at isResult
      obtain ⟨left, isLeft, right, isRight, partners, rfl⟩ := isResult
      exact ⟨left, isLeft, right, isRight, partners, combines_combined _ _⟩
    · intro left isLeft right isRight partners
      refine ⟨combined op left right, ?_, combines_combined _ _⟩
      rw [results, mem_combinePairs_matchedPairs]
      exact ⟨left, isLeft, right, isRight, partners, rfl⟩
    · intro others otherRhs reordered otherReordered
      have notEither :=
        (byPosition_perm reordered otherReordered).not.mpr notByPosition
      have otherResults :=
        (@executeBinaryOp_cases op others otherRhs).resolve_right
          fun either => notEither either.1
      rw [results, otherResults.2]
      exact combinePairs_perm (matchedPairs_perm reordered otherReordered)
  · refine ⟨fun notByPosition => absurd byPosition notByPosition, fun _ =>
      ⟨?_, ?_⟩⟩
    · intro series isResult
      rw [results, mem_combinePairs] at isResult
      obtain ⟨pair, isPair, share, rfl⟩ := isResult
      exact ⟨pair, isPair, share, combines_combined _ _⟩
    · intro pair isPair share
      refine ⟨combined op pair.1 pair.2, ?_, combines_combined _ _⟩
      rw [results, mem_combinePairs]
      exact ⟨pair, isPair, share, rfl⟩

/-- A series that is alone on its side. -/
def loneSeries (id : TimeSeriesId) (name : String) : TimeSeries where
  id := id
  labels := [⟨"job", name⟩]
  samples := [⟨0, 1⟩]

/-- Two lists with a pair of partners are matched by ids. -/
theorem partners_are_matched :
    ∀ series ∈ executeBinaryOp [loneSeries 1 "a", loneSeries 2 "b"]
        [loneSeries 3 "c", loneSeries 1 "a"] (· + ·),
      ∃ left ∈ [loneSeries 1 "a", loneSeries 2 "b"],
        ∃ right ∈ [loneSeries 3 "c", loneSeries 1 "a"],
          Partners left right ∧ Combines (· + ·) left right series := by
  refine ((executeBinaryOp_matches _ _ _).1 ?_).1
  rintro ⟨noPartners, _⟩
  have share : ShareTimestamp (loneSeries 1 "a") (loneSeries 1 "a") :=
    ⟨⟨0, 1⟩, mem_cons_self, ⟨0, 1⟩, mem_cons_self, rfl⟩
  exact noPartners
    ⟨loneSeries 1 "a", mem_cons_self, loneSeries 1 "a",
      mem_cons_of_mem _ mem_cons_self, rfl, share⟩

/-- Two series with different labels are combined, as each is alone. -/
theorem lone_series_are_combined :
    ¬∀ series ∈ applyBinaryOp exampleStd .add [loneSeries 1 "a"]
          [loneSeries 2 "b"],
        ∃ left ∈ [loneSeries 1 "a"], ∃ right ∈ [loneSeries 2 "b"],
          left.labels = right.labels ∧ Combines (· + ·) left right series := by
  intro allMatch
  have isResult :
      combined (· + ·) (loneSeries 1 "a") (loneSeries 2 "b") ∈
        applyBinaryOp exampleStd .add [loneSeries 1 "a"]
          [loneSeries 2 "b"] := by
    decide +kernel
  obtain ⟨left, isLeft, right, isRight, sameLabels, _⟩ := allMatch _ isResult
  rw [mem_singleton] at isLeft isRight
  rw [isLeft, isRight] at sameLabels
  exact absurd sameLabels (by decide)

end Combinations

end ChronoDB.Query
