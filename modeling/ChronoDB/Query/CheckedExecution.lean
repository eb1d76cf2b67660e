import ChronoDB.Library.FallibleSort
import ChronoDB.Query.Doubles
import ChronoDB.Query.Execution

namespace ChronoDB.Query.Checked

open Library Columnstore

/-!
# Execution with its panics

The executor over series of doubles.  Differences of times, steps of subqueries,
indices and the comparisons of sorts can panic; an overflow counts as a panic.
-/

/-- `unwrap`, or arithmetic that panics when it has no result. -/
def orPanic {Result : Type} : Option Result → Choice Fault Result
  | some result => pure result
  | none => throw .panic

/-!
## Selectors
-/

section Selectors

variable {F : Type} (doubles : Doubles F)

/-- The average of a window, unless the window is empty. -/
def closeWindow (window : Timestamp) (sum : F) (count : ℕ) :
    List (DoubleSample F) :=
  if count = 0 then []
  else [⟨window, doubles.div sum (doubles.nearest count)⟩]

/-- The loop over the samples with the sum of the open window. -/
def downsampleFrom
    (resolution : Int64) (window : Timestamp) (sum : F) (count : ℕ) :
    List (DoubleSample F) → List (DoubleSample F)
  | [] => closeWindow doubles window sum count
  | sample :: rest =>
    if windowOf resolution sample.timestamp ≠ window then
      closeWindow doubles window sum count ++
        downsampleFrom resolution (windowOf resolution sample.timestamp)
          (doubles.add (doubles.nearest 0) sample.value) 1 rest
    else
      downsampleFrom resolution window (doubles.add sum sample.value)
        (count + 1) rest

def applyDownsampling
    (samples : List (DoubleSample F)) (level : DownsampleLevel) :
    List (DoubleSample F) :=
  match samples with
  | [] => []
  | first :: _ =>
    if level = .l0 then samples
    else
      downsampleFrom doubles level.resolutionMs
        (windowOf level.resolutionMs first.timestamp) (doubles.nearest 0) 0
        samples

/-- The content of a store: its series, with all their samples. -/
structure DoubleStore (F : Type) where
  series : List (DoubleSeries F)

def DoubleSeries.isSelected
    (ts : DoubleSeries F) (matchers : List (String × String)) :
    Bool :=
  matchers.all fun (name, value) => decide (⟨name, value⟩ ∈ ts.labels)

/-- `query_with_downsample` and the tasks of a parallel query. -/
def DoubleStore.queryWithDownsample
    (store : DoubleStore F) (matchers : List (String × String))
    (start stop : Timestamp) (level : DownsampleLevel) :
    List (DoubleSeries F) :=
  ((store.series.filter (·.isSelected matchers)).map fun ts =>
    { ts with
      samples :=
        applyDownsampling doubles
          (ts.samples.filter fun sample =>
            decide (start ≤ sample.timestamp ∧ sample.timestamp ≤ stop))
          level }).filter
    fun ts => !ts.samples.isEmpty

def finalRange (plan : VectorQueryPlan) (ctx : ExecutionContext) :
    Option (Timestamp × Timestamp) := do
  let (queryStart, queryEnd) := plan.queryRange ctx
  match plan.offset with
  | some offsetMs =>
    let finalStart ← checkedSub queryStart offsetMs
    let finalEnd ← checkedSub queryEnd offsetMs
    some (finalStart, finalEnd)
  | none => some (queryStart, queryEnd)

/-- All ways to execute a vector query read the store, in any order. -/
def executeVectorQuery
    (store : DoubleStore F) (plan : VectorQueryPlan) (ctx : StepContext) :
    Choice Fault (List (DoubleSeries F)) := do
  let (finalStart, finalEnd) ← orPanic (finalRange plan ctx.toExecutionContext)
  let queryRange ← orPanic (checkedSub finalEnd finalStart)
  let downsampleLevel := DownsampleLevel.fromQueryRange queryRange
  .anyOrder
    (store.queryWithDownsample doubles plan.matchers finalStart finalEnd
      downsampleLevel)

/-- The range of a matrix query is not looked at. -/
def executeMatrixQuery
    (store : DoubleStore F) (vectorPlan : VectorQueryPlan) (_range : Int64)
    (ctx : StepContext) :
    Choice Fault (List (DoubleSeries F)) :=
  executeVectorQuery doubles store vectorPlan ctx

end Selectors

/-!
## Functions of one argument
-/

/--
How a call is executed: the number of arguments is checked, one of them is
executed, and the function works on its series.
-/
structure SeriesFunction (F : Type) where
  accepts : ℕ → Bool
  message : String
  argument : ℕ
  inside : ∀ count, accepts count → argument < count
  apply :
    StepContext → List (DoubleSeries F) → Choice Fault (List (DoubleSeries F))

namespace SeriesFunction

variable {F : Type}

/-- A function with a fixed number of arguments. -/
def exactly (arguments : ℕ) (message : String) (argument : ℕ)
    (inside : argument < arguments)
    (apply :
      StepContext → List (DoubleSeries F) →
        Choice Fault (List (DoubleSeries F))) :
    SeriesFunction F where
  accepts := fun count => count == arguments
  message := message
  argument := argument
  inside := fun _ accepted => eq_of_beq accepted ▸ inside
  apply := apply

@[simp] theorem exactly_apply (arguments : ℕ) (message : String) (argument : ℕ)
    (inside : argument < arguments)
    (apply :
      StepContext → List (DoubleSeries F) →
        Choice Fault (List (DoubleSeries F))) :
    (exactly arguments message argument inside apply).apply = apply :=
  rfl

/-- A function with one argument that is named in the error. -/
def unary (name : String)
    (apply :
      StepContext → List (DoubleSeries F) →
        Choice Fault (List (DoubleSeries F))) :
    SeriesFunction F :=
  exactly 1 (name ++ "() requires exactly one argument") 0 Nat.one_pos apply

/-- Execute one of the arguments, after counting them. -/
def call (function : SeriesFunction F)
    (args : List (StepContext → Choice Fault (List (DoubleSeries F))))
    (ctx : StepContext) :
    Choice Fault (List (DoubleSeries F)) :=
  if accepted : function.accepts args.length then do
    let series ← args.get ⟨function.argument, function.inside _ accepted⟩ ctx
    function.apply ctx series
  else
    raiseInvalidData function.message

end SeriesFunction

open Checked.SeriesFunction

section Functions

variable {F : Type} (doubles : Doubles F)

section RangeFunctions

def executeRate : SeriesFunction F :=
  unary "rate" fun _ series =>
    orPanic (withSamples (calculateRate doubles) series)

def executeIrate : SeriesFunction F :=
  unary "irate" fun _ series =>
    orPanic (withSamples (calculateIrate doubles) series)

def executeIncrease : SeriesFunction F :=
  unary "increase" fun _ series =>
    orPanic (withSamples (calculateIncrease doubles) series)

def executeDelta : SeriesFunction F :=
  unary "delta" fun _ series =>
    orPanic (withSamples (some ∘ calculateDelta doubles) series)

def executeIdelta : SeriesFunction F :=
  unary "idelta" fun _ series =>
    orPanic (withSamples (some ∘ calculateIdelta doubles) series)

def executeResets : SeriesFunction F :=
  unary "resets" fun ctx series =>
    pure
      (valueOfEach ctx.stop
        (fun samples => doubles.nearest (calculateResets doubles samples))
        series)

def executeChanges : SeriesFunction F :=
  unary "changes" fun ctx series =>
    pure
      (valueOfEach ctx.stop
        (fun samples => doubles.nearest (calculateChanges doubles samples))
        series)

def executeDeriv : SeriesFunction F :=
  unary "deriv" fun _ series =>
    orPanic (withSamples (some ∘ calculateDeriv doubles) series)

def executePredictLinear : SeriesFunction F :=
  exactly 2 "predict_linear() requires exactly two arguments" 0 Nat.two_pos
    fun ctx series =>
      pure
        (series.filterMap fun ts =>
          (calculatePredictLinear doubles ts.samples
            (doubles.nearest 60)).map
            (singleSample ts.id ts.labels ctx.stop))

def executeHoltWinters : SeriesFunction F :=
  exactly 3 "holt_winters() requires exactly three arguments" 0
    (Nat.succ_pos 2) fun _ series =>
      orPanic
        (withSamples
          (fun samples =>
            some
              (calculateHoltWinters doubles samples (doubles.nearest (3 / 10))
                (doubles.nearest (1 / 10))))
          series)

end RangeFunctions

section Aggregations

/-- The partial results are combined unless there is only one. -/
def combinePartials
    (aggregate : List (DoubleSeries F) → Option (DoubleSeries F))
    (partials : List (DoubleSeries F)) :
    Option (DoubleSeries F) :=
  match partials with
  | [only] => some only
  | _ => aggregate partials

/-- `parallel_aggregate`: batches whose results arrive in any order. -/
def parallelAggregate (maxConcurrency : ℕ)
    (aggregate : List (DoubleSeries F) → Option (DoubleSeries F))
    (series : List (DoubleSeries F)) :
    Choice Fault (DoubleSeries F) :=
  match series with
  | [] => raiseInvalidData "No series to aggregate"
  | [only] => pure only
  | _ => do
    let batchSize := (series.length + maxConcurrency - 1) / maxConcurrency
    let results ← orPanic ((series.toChunks (max batchSize 1)).mapM aggregate)
    let partials ← Choice.anyOrder results
    orPanic (combinePartials aggregate partials)

/-- From 21 series on, by an executor with the concurrency of the moment. -/
def executeSum : SeriesFunction F :=
  unary "sum" fun _ series =>
    if series.isEmpty then
      pure []
    else if 20 < series.length then do
      let maxConcurrency ← Choice.choose {concurrency | 0 < concurrency}
      let total ← parallelAggregate maxConcurrency (sumSeries doubles) series
      pure [total]
    else do
      let total ← orPanic (sumSeries doubles series)
      pure [total]

def executeAvg : SeriesFunction F :=
  unary "avg" fun ctx series =>
    pure (valueOfSome ctx.start doubles.mean series)

def executeMin : SeriesFunction F :=
  unary "min" fun ctx series =>
    pure
      (valueOfAll ctx.start
        (List.foldl doubles.min (doubles.nearest f64Max)) series)

def executeMax : SeriesFunction F :=
  unary "max" fun ctx series =>
    pure
      (valueOfAll ctx.start
        (List.foldl doubles.max (doubles.nearest (-f64Max))) series)

def executeCount : SeriesFunction F :=
  unary "count" fun ctx series =>
    pure
      (valueOfSome ctx.start (fun values => doubles.nearest values.length)
        series)

def executeStddev : SeriesFunction F :=
  unary "stddev" fun ctx series =>
    pure
      (valueOfSome ctx.start
        (fun values => doubles.method .sqrt (doubles.variance values)) series)

def executeStdvar : SeriesFunction F :=
  unary "stdvar" fun ctx series =>
    pure (valueOfSome ctx.start doubles.variance series)

def labelledSamples (series : List (DoubleSeries F)) :
    List (TimeSeriesId × DoubleSample F × Labels) :=
  series.flatMap fun ts =>
    ts.samples.map fun sample => (ts.id, sample, ts.labels)

def firstSamples
    (compareSamples : DoubleSample F → DoubleSample F → Ordering) (k : ℕ)
    (series : List (DoubleSeries F)) :
    Choice Fault (List (DoubleSeries F)) :=
  if k = 0 then
    pure []
  else do
    let sorted ←
      sortOrFail Fault.panic
        (fun first second => compareSamples first.2.1 second.2.1)
        (labelledSamples series)
    pure
      ((sorted.take k).map fun (id, sample, labels) =>
        { id := id, labels := labels, samples := [sample] })

def executeTopk (k : Option ℕ) : SeriesFunction F :=
  exactly 2 "topk() requires exactly two arguments: k and expression" 1
    Nat.one_lt_two fun _ =>
      firstSamples
        (fun first second =>
          compareOrEqual (fun sample => doubles.rank sample.value) second first)
        (k.getD 0)

def executeBottomk (k : Option ℕ) : SeriesFunction F :=
  exactly 2 "bottomk() requires exactly two arguments: k and expression" 1
    Nat.one_lt_two fun _ =>
      firstSamples
        (compareOrEqual fun sample => doubles.rank sample.value)
        (k.getD 0)

/-- The value at a quantile of sorted values; `none` is an index panic. -/
def quantileOf (quantile : F) (values : List F) : Option F :=
  let n := values.length
  if n = 1 then
    values[0]?
  else if doubles.eq quantile (doubles.nearest 0) then
    values[0]?
  else if doubles.eq quantile (doubles.nearest 1) then
    values[n - 1]?
  else
    let position := doubles.mul quantile (doubles.nearest (n - 1 : ℕ))
    let lowerIndex := doubles.toIndex (doubles.method .floor position)
    let upperIndex := doubles.toIndex (doubles.method .ceil position)
    let fraction := doubles.sub position (doubles.nearest lowerIndex)
    if lowerIndex = upperIndex then
      values[lowerIndex]?
    else do
      let lower ← values[lowerIndex]?
      let upper ← values[upperIndex]?
      some
        (doubles.add
          (doubles.mul lower (doubles.sub (doubles.nearest 1) fraction))
          (doubles.mul upper fraction))

def quantileAsked (quantile : Option Value) : F :=
  doubles.nearest (quantile.getD (1 / 2))

def executeQuantile (quantile : Option Value) : SeriesFunction F :=
  exactly 2 "quantile() requires exactly two arguments: quantile and expression"
    1 Nat.one_lt_two fun ctx series =>
      let quantile := quantileAsked doubles quantile
      if doubles.lt quantile (doubles.nearest 0) ||
          doubles.lt (doubles.nearest 1) quantile then
        raiseInvalidData
          ("quantile must be between 0 and 1, got " ++ doubles.display quantile)
      else
        match series with
        | [] => pure []
        | first :: _ =>
          if (allValues series).isEmpty then
            pure []
          else do
            let sorted ←
              sortOrFail Fault.panic (compareOrEqual doubles.rank)
                (allValues series)
            let result ← orPanic (quantileOf doubles quantile sorted)
            pure [singleSample 0 first.labels ctx.start result]

/-- One series for each value; the hash table orders them. -/
def executeCountValues (labelName : String) : SeriesFunction F :=
  exactly 2
    "count_values() requires exactly 2 arguments: label name and expression" 1
    Nat.one_lt_two fun ctx series => do
      let values := (allValues series).map doubles.formatValue
      let counted ← Choice.anyOrder values.dedup
      pure
        (counted.map fun value =>
          singleSample 0 [{ name := labelName, value := value }] ctx.start
            (doubles.nearest (values.count value)))

end Aggregations

section MathFunctions

def executeMathUnary (f : F → F) : SeriesFunction F :=
  exactly 1 "Math function requires exactly one argument" 0 Nat.one_pos
    fun _ series => pure (mapSamples (fun sample => f sample.value) series)

/-- All decimals are rounded away, whatever the second argument says. -/
def executeRound : SeriesFunction F :=
  let multiplier := doubles.nearest 1
  executeMathUnary fun value =>
    doubles.div (doubles.method .round (doubles.mul value multiplier))
      multiplier

def executeClamp : SeriesFunction F :=
  exactly 3 "clamp() requires exactly three arguments" 0 (Nat.succ_pos 2)
    fun _ series =>
      pure
        (mapSamples
          (fun sample =>
            doubles.clamp (doubles.nearest 0) (doubles.nearest 100)
              sample.value)
          series)

def executeClampMax : SeriesFunction F :=
  exactly 2 "clamp_max() requires exactly two arguments" 0 Nat.two_pos
    fun _ series =>
      pure
        (mapSamples
          (fun sample => doubles.min sample.value (doubles.nearest 100)) series)

def executeClampMin : SeriesFunction F :=
  exactly 2 "clamp_min() requires exactly two arguments" 0 Nat.two_pos
    fun _ series =>
      pure
        (mapSamples
          (fun sample => doubles.max sample.value (doubles.nearest 0)) series)

end MathFunctions

section OtherFunctions

def executeTime (ctx : StepContext) : List (DoubleSeries F) :=
  [singleSample 0 [] ctx.start
    (doubles.div (doubles.ofTime ctx.start) (doubles.nearest 1000))]

def executeTimestamp : SeriesFunction F :=
  unary "timestamp" fun _ series =>
    pure
      (mapSamples
        (fun sample =>
          doubles.div (doubles.ofTime sample.timestamp) (doubles.nearest 1000))
        series)

def executeLabelReplace : SeriesFunction F :=
  exactly 5 "label_replace() requires exactly five arguments" 0
    (Nat.succ_pos 4) fun _ series => pure series

def executeLabelJoin : SeriesFunction F where
  accepts := fun count => decide (4 ≤ count)
  message := "label_join() requires at least four arguments"
  argument := 0
  inside := fun _ accepted =>
    Nat.lt_of_lt_of_le (Nat.succ_pos 3) (of_decide_eq_true accepted)
  apply := fun _ series => pure series

/-- Series are compared by their first values, which have to be numbers. -/
def executeSort (descending : Bool) : SeriesFunction F :=
  unary "sort" fun _ series =>
    orPanic
      (sortUnwrapping
        (fun a b =>
          if descending then
            doubles.partialCmp (firstValue doubles b) (firstValue doubles a)
          else
            doubles.partialCmp (firstValue doubles a) (firstValue doubles b))
        series)

def executeAbsent : SeriesFunction F :=
  unary "absent" fun ctx series =>
    pure
      (if series.all fun ts => ts.samples.isEmpty then
        [singleSample 0 [] ctx.start (doubles.nearest 1)]
      else
        [])

def executeAbsentOverTime : SeriesFunction F :=
  unary "absent_over_time" fun ctx series =>
    pure
      (valueOfEach ctx.stop (fun _ => doubles.nearest 1)
        (series.filter fun ts => ts.samples.isEmpty))

def executePresentOverTime : SeriesFunction F :=
  unary "present_over_time" fun ctx series =>
    pure
      (valueOfEach ctx.stop (fun samples => doubles.nearest samples.length)
        series)

/-- The place of the result among the sorted values of a histogram. -/
def histogramIndex (count : ℕ) : ℕ :=
  doubles.toIndex
    (doubles.mul (doubles.nearest (99 / 100)) (doubles.nearest (count - 1 : ℕ)))

/-- The value for one series, if it has samples; a sort or an index panics. -/
def histogramValue (samples : List (DoubleSample F)) : Option (Option F) := do
  let values ←
    sortUnwrapping doubles.partialCmp (samples.map DoubleSample.value)
  if values.isEmpty then
    some none
  else
    (values[histogramIndex doubles values.length]?).map some

def executeHistogramQuantile : SeriesFunction F :=
  exactly 2 "histogram_quantile() requires exactly two arguments" 1
    Nat.one_lt_two fun ctx series => do
      let results ←
        orPanic
          (series.mapM fun ts =>
            (histogramValue doubles ts.samples).map
              (Option.map (singleSample ts.id ts.labels ctx.stop)))
      pure results.reduceOption

def executeScalar : SeriesFunction F :=
  unary "scalar" fun ctx series =>
    pure [singleSample 0 [] ctx.start (scalarValue doubles series)]

def executeVector : SeriesFunction F :=
  unary "vector" fun ctx series => pure (vectorSeries ctx.start series)

end OtherFunctions

/-!
## Calls
-/

/-- The function that `execute_call` goes to, if there is one. -/
def seriesFunction (k : Option ℕ) (quantile : Option Value) (labelName : String)
    (func : Function) :
    Option (SeriesFunction F) :=
  match func with
  | .rate => some (executeRate doubles)
  | .irate => some (executeIrate doubles)
  | .increase => some (executeIncrease doubles)
  | .delta => some (executeDelta doubles)
  | .idelta => some (executeIdelta doubles)
  | .resets => some (executeResets doubles)
  | .changes => some (executeChanges doubles)
  | .deriv => some (executeDeriv doubles)
  | .predictLinear => some (executePredictLinear doubles)
  | .holtWinters => some (executeHoltWinters doubles)
  | .sum => some (executeSum doubles)
  | .avg => some (executeAvg doubles)
  | .min => some (executeMin doubles)
  | .max => some (executeMax doubles)
  | .count => some (executeCount doubles)
  | .stddev => some (executeStddev doubles)
  | .stdvar => some (executeStdvar doubles)
  | .topK => some (executeTopk doubles k)
  | .bottomK => some (executeBottomk doubles k)
  | .quantile => some (executeQuantile doubles quantile)
  | .countValues => some (executeCountValues doubles labelName)
  | .round => some (executeRound doubles)
  | .clamp => some (executeClamp doubles)
  | .clampMax => some (executeClampMax doubles)
  | .clampMin => some (executeClampMin doubles)
  | .abs | .ceil | .floor | .sqrt | .exp | .ln | .log2 | .log10 | .sin | .cos
  | .tan | .asin | .acos | .atan | .sinh | .cosh | .tanh | .atanh =>
    some (executeMathUnary (doubles.method func))
  | .timestamp => some (executeTimestamp doubles)
  | .labelReplace => some executeLabelReplace
  | .labelJoin => some executeLabelJoin
  | .sort => some (executeSort doubles false)
  | .sortDesc => some (executeSort doubles true)
  | .absent => some (executeAbsent doubles)
  | .absentOverTime => some (executeAbsentOverTime doubles)
  | .presentOverTime => some (executePresentOverTime doubles)
  | .histogramQuantile => some (executeHistogramQuantile doubles)
  | .scalar => some (executeScalar doubles)
  | .vector => some executeVector
  | _ => none

def executeCall (func : Function) (k : Option ℕ) (quantile : Option Value)
    (labelName : String)
    (args : List (StepContext → Choice Fault (List (DoubleSeries F))))
    (ctx : StepContext) :
    Choice Fault (List (DoubleSeries F)) :=
  if func = .time then
    pure (executeTime doubles ctx)
  else
    match seriesFunction doubles k quantile labelName func with
    | some function => function.call args ctx
    | none => raiseInvalidData ("Function " ++ func.name ++ " not implemented")

/-!
## Aggregations and subqueries
-/

def groupKey (grouping : List String) (without : Bool) (ts : DoubleSeries F) :
    List (String × String) :=
  (ts.labels.filter fun label =>
    decide (label.name ∈ grouping) != without).map fun label =>
      (label.name, label.value)

def aggregateValues (op : Function) (values : List F) : Option F :=
  match op with
  | .sum => some (doubles.sum values)
  | .avg => some (doubles.mean values)
  | .min => some (values.foldl doubles.min (doubles.nearest f64Max))
  | .max => some (values.foldl doubles.max (doubles.nearest (-f64Max)))
  | .count => some (doubles.nearest values.length)
  | .stddev => some (doubles.method .sqrt (doubles.variance values))
  | .stdvar => some (doubles.variance values)
  | _ => none

/-- One series for a group; the hash table orders its timestamps. -/
def aggregateGroup (op : Function) (key : List (String × String))
    (series : List (DoubleSeries F)) :
    Choice Fault (DoubleSeries F) := do
  let timestamps ← Choice.anyOrder (allTimestamps series)
  let samples ← timestamps.mapM fun timestamp =>
    match aggregateValues doubles op (valuesAt timestamp series) with
    | some value => pure ⟨timestamp, value⟩
    | none =>
      raiseInvalidData
        ("Unsupported aggregation function: " ++ doubles.debug op)
  pure {
    id := 0
    labels := key.map fun (name, value) => { name := name, value := value }
    samples := samples
  }

/-- The groups, in the order of a hash table. -/
def executeAggregation (op : Function) (grouping : List String) (without : Bool)
    (series : List (DoubleSeries F)) :
    Choice Fault (List (DoubleSeries F)) :=
  if series.isEmpty then
    pure []
  else do
    let keys ← Choice.anyOrder (series.map (groupKey grouping without)).dedup
    keys.mapM fun key =>
      aggregateGroup doubles op key
        (series.filter fun ts => groupKey grouping without ts = key)

end Functions

section Subqueries

variable {F : Type}

/-- A quotient of times; zero and an overflow have no result. -/
def checkedDiv (left right : Int64) : Option Int64 :=
  if right = 0 ∨ left = Int64.minValue ∧ right = -1 then none
  else some (left / right)

/-- A sum of times; an overflow has no result. -/
def checkedAdd (left right : Int64) : Option Int64 :=
  if Compression.FitsInt64 (left.toInt + right.toInt) then some (left + right)
  else none

/-- A product of times; an overflow has no result. -/
def checkedMul (left right : Int64) : Option Int64 :=
  if Compression.FitsInt64 (left.toInt * right.toInt) then some (left * right)
  else none

def stepTime (range resolution : Int64) (stop : Timestamp) (i : ℕ) :
    Option Timestamp := do
  let first ← checkedSub stop range
  let distance ← checkedMul (Int64.ofNat i) resolution
  checkedAdd first distance

/-- The samples of a step get the timestamp of the step. -/
def restamp (timestamp : Timestamp) (ts : DoubleSeries F) : DoubleSeries F :=
  { ts with
    samples :=
      ts.samples.map fun sample => { sample with timestamp := timestamp } }

/-- One pass of the loop of a subquery. -/
def executeStep (inner : StepContext → Choice Fault (List (DoubleSeries F)))
    (range resolution : Int64) (ctx : StepContext) (i : ℕ) :
    Choice Fault (List (DoubleSeries F)) := do
  let timestamp ← orPanic (stepTime range resolution ctx.stop i)
  let series ← inner ⟨⟨timestamp, timestamp⟩, resolution⟩
  pure (series.map (restamp timestamp))

def executeSubquery (inner : StepContext → Choice Fault (List (DoubleSeries F)))
    (range resolution : Int64) (ctx : StepContext) :
    Choice Fault (List (DoubleSeries F)) := do
  let steps ← orPanic (checkedDiv range resolution)
  let numSteps := steps.toUInt64.toNat
  let results ←
    (List.range (numSteps + 1)).mapM (executeStep inner range resolution ctx)
  pure results.flatten

end Subqueries

/-!
## Plans
-/

section Plans

variable {F : Type} (doubles : Doubles F) (store : DoubleStore F)

mutual

def executePlan : PlanType → StepContext → Choice Fault (List (DoubleSeries F))
  | .vectorQuery query, ctx => executeVectorQuery doubles store query ctx
  | .matrixQuery vectorPlan range, ctx =>
    executeMatrixQuery doubles store vectorPlan range ctx
  | .subquery expr range resolution, ctx =>
    executeSubquery (executePart expr) range resolution ctx
  | .call func args k quantile, ctx =>
    executeCall doubles func k quantile (countValuesLabel args)
      (executeArgs args) ctx
  | .binaryExpr op lhs rhs, ctx => do
    let lhsSeries ← executePart lhs ctx
    let rhsSeries ← executePart rhs ctx
    pure (applyBinaryOp doubles op lhsSeries rhsSeries)
  | .unaryExpr op expr, ctx => do
    let series ← executePart expr ctx
    pure
      (mapSamples (fun sample => applyUnaryOp doubles op sample.value) series)
  | .aggregation op expr grouping without, ctx => do
    let series ← executePart expr ctx
    executeAggregation doubles op grouping without series

/-- A part of a plan is executed in the window of the whole. -/
def executePart : QueryPlan → StepContext → Choice Fault (List (DoubleSeries F))
  | ⟨planType, _, _, _⟩, ctx => executePlan planType ctx

/-- The arguments of a call, none of them executed yet. -/
def executeArgs :
    List QueryPlan → List (StepContext → Choice Fault (List (DoubleSeries F)))
  | [] => []
  | arg :: rest => executePart arg :: executeArgs rest

end

/-- The result of a query, with its window. -/
structure DoubleResult (F : Type) where
  series : List (DoubleSeries F)
  start : Timestamp
  stop : Timestamp
  step : Int64

/-- The range of the query is computed for the log, before execution. -/
def execute (plan : QueryPlan) : Choice Fault (DoubleResult F) := do
  let _queryRange ← orPanic (checkedSub plan.stop plan.start)
  let series ←
    executePlan doubles store plan.planType ⟨⟨plan.start, plan.stop⟩, plan.step⟩
  pure {
    series := series
    start := plan.start
    stop := plan.stop
    step := plan.step
  }

end Plans

end ChronoDB.Query.Checked
