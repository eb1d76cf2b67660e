import ChronoDB.Library.Choice
import ChronoDB.Query.Parallel
import ChronoDB.Query.SeriesFunctions

namespace ChronoDB.Query

open Library Memstore

/-!
# Executing plans

Execution goes down the plan and works on the series that come back.  Searches,
schedules and hash tables leave it choices, so a plan has a set of outcomes.
-/

/-- What executing a part of a plan can come to. -/
abbrev Execution := Choice Fault (List TimeSeries)

def raiseInvalidData {Result : Type} (message : String) : Choice Fault Result :=
  throw (.error (.invalidData message))

structure QueryExecutor where
  memstore : MemStore
  config : ParallelConfig

/-!
## Functions of one argument
-/

/--
How a call is executed: the number of arguments is checked, one of them is
executed, and the function works on its series.
-/
structure SeriesFunction where
  accepts : ℕ → Bool
  message : String
  argument : ℕ
  apply : StepContext → List TimeSeries → Execution

namespace SeriesFunction

/-- A function with a fixed number of arguments. -/
def exactly (arguments : ℕ) (message : String) (argument : ℕ)
    (apply : StepContext → List TimeSeries → List TimeSeries) :
    SeriesFunction where
  accepts := fun count => count == arguments
  message := message
  argument := argument
  apply := fun ctx series => pure (apply ctx series)

/-- A function with one argument that is named in the error. -/
def unary
    (name : String) (apply : StepContext → List TimeSeries → List TimeSeries) :
    SeriesFunction :=
  exactly 1 (name ++ "() requires exactly one argument") 0 apply

/-- Execute one of the arguments, after counting them. -/
def call (function : SeriesFunction) (args : List (StepContext → Execution))
    (ctx : StepContext) :
    Execution :=
  if function.accepts args.length then
    match args[function.argument]? with
    | none => throw .panic
    | some execute => do
      let series ← execute ctx
      function.apply ctx series
  else
    raiseInvalidData function.message

end SeriesFunction

open SeriesFunction

section RangeFunctions

def executeRate : SeriesFunction :=
  unary "rate" fun _ => withSamples calculateRate

def executeIrate : SeriesFunction :=
  unary "irate" fun _ => withSamples calculateIrate

def executeIncrease : SeriesFunction :=
  unary "increase" fun _ => withSamples calculateIncrease

def executeDelta : SeriesFunction :=
  unary "delta" fun _ => withSamples calculateDelta

def executeIdelta : SeriesFunction :=
  unary "idelta" fun _ => withSamples calculateIdelta

def executeResets : SeriesFunction :=
  unary "resets" fun ctx =>
    valueOfEach ctx.stop fun samples => calculateResets samples

def executeChanges : SeriesFunction :=
  unary "changes" fun ctx =>
    valueOfEach ctx.stop fun samples => calculateChanges samples

def executeDeriv : SeriesFunction :=
  unary "deriv" fun _ => withSamples calculateDeriv

def executePredictLinear : SeriesFunction :=
  exactly 2 "predict_linear() requires exactly two arguments" 0
    fun ctx series =>
      series.filterMap fun ts =>
        (calculatePredictLinear ts.samples 60).map
          (singleSample ts.id ts.labels ctx.stop)

def executeHoltWinters : SeriesFunction :=
  exactly 3 "holt_winters() requires exactly three arguments" 0 fun _ =>
    withSamples fun samples => calculateHoltWinters samples (3 / 10) (1 / 10)

end RangeFunctions

section Aggregations

/-- The partial results are combined unless there is only one. -/
def combinePartials
    (aggregate : List TimeSeries → TimeSeries) (partials : List TimeSeries) :
    TimeSeries :=
  match partials with
  | [only] => only
  | _ => aggregate partials

/-- `parallel_aggregate`: batches whose results arrive in any order. -/
def parallelAggregate (parallel : ParallelQueryExecutor)
    (aggregate : List TimeSeries → TimeSeries) (series : List TimeSeries) :
    Choice Fault TimeSeries :=
  match series with
  | [] => raiseInvalidData "No series to aggregate"
  | [only] => pure only
  | _ =>
    let batchSize :=
      (series.length + parallel.maxConcurrency - 1) / parallel.maxConcurrency
    let batches := series.toChunks (max batchSize 1)
    let limits : TaskPool.Limits := {
      permits := parallel.maxConcurrency
      capacity := max batches.length 1
      permitted := parallel.positive
      positive := Nat.lt_of_lt_of_le Nat.one_pos (Nat.le_max_right _ _)
    }
    .choose
      {total |
        ∃ actions final,
          Run (TaskPool.Step limits fun batch => some (aggregate batch))
              (TaskPool.spawned batches) actions final ∧
            final.Finished ∧ total = combinePartials aggregate final.received}

/-- From 21 series on, by an executor with the concurrency of the moment. -/
def executeSum : SeriesFunction :=
  { unary "sum" fun _ series => series with
    apply := fun _ series =>
      if series = [] then
        pure []
      else if 20 < series.length then do
        let parallel ← Choice.choose Set.univ
        let total ← parallelAggregate parallel sumSeries series
        pure [total]
      else
        pure [sumSeries series] }

def executeAvg : SeriesFunction :=
  unary "avg" fun ctx => valueOfSome ctx.start mean

def executeMin : SeriesFunction :=
  unary "min" fun ctx =>
    valueOfAll ctx.start fun values => values.foldl min f64Max

def executeMax : SeriesFunction :=
  unary "max" fun ctx =>
    valueOfAll ctx.start fun values => values.foldl max (-f64Max)

def executeCount : SeriesFunction :=
  unary "count" fun ctx => valueOfSome ctx.start fun values => values.length

def executeStddev (std : StdFloat) : SeriesFunction :=
  unary "stddev" fun ctx =>
    valueOfSome ctx.start fun values => std.sqrt (variance values)

def executeStdvar : SeriesFunction :=
  unary "stdvar" fun ctx => valueOfSome ctx.start variance

def executeTopk (k : Option ℕ) : SeriesFunction :=
  exactly 2 "topk() requires exactly two arguments: k and expression" 1
    fun _ => firstSamples (fun sample => -sample.value) (k.getD 0)

def executeBottomk (k : Option ℕ) : SeriesFunction :=
  exactly 2 "bottomk() requires exactly two arguments: k and expression" 1
    fun _ => firstSamples Sample.value (k.getD 0)

def executeQuantile (std : StdFloat) (quantile : Option Value) :
    SeriesFunction where
  accepts := fun count => count == 2
  message :=
    "quantile() requires exactly two arguments: quantile and expression"
  argument := 1
  apply := fun ctx series =>
    let quantile := quantile.getD (1 / 2)
    if quantile < 0 ∨ 1 < quantile then
      raiseInvalidData
        ("quantile must be between 0 and 1, got " ++ std.display quantile)
    else
      match series, sortByKey id (allValues series) with
      | first :: _, value :: rest =>
        match quantileOf quantile (value :: rest) with
        | none => throw .panic
        | some result => pure [singleSample 0 first.labels ctx.start result]
      | _, _ => pure []

/-- One series for each value; the hash table orders them. -/
def executeCountValues (std : StdFloat) (labelName : String) :
    SeriesFunction where
  accepts := fun count => count == 2
  message :=
    "count_values() requires exactly 2 arguments: label name and expression"
  argument := 1
  apply := fun ctx series => do
    let values := (allValues series).map (formatValue std)
    let counted ← Choice.anyOrder values.dedup
    pure
      (counted.map fun value =>
        singleSample 0 [{ name := labelName, value := value }] ctx.start
          (values.count value))

end Aggregations

section MathFunctions

def executeMathUnary (f : Value → Value) : SeriesFunction :=
  exactly 1 "Math function requires exactly one argument" 0 fun _ =>
    mapSamples fun sample => f sample.value

/-- All decimals are rounded away, whatever the second argument says. -/
def executeRound : SeriesFunction :=
  executeMathUnary fun value => roundValue (value * 1) / 1

def executeClamp : SeriesFunction :=
  exactly 3 "clamp() requires exactly three arguments" 0 fun _ =>
    mapSamples fun sample => clampValue 0 100 sample.value

def executeClampMax : SeriesFunction :=
  exactly 2 "clamp_max() requires exactly two arguments" 0 fun _ =>
    mapSamples fun sample => min sample.value 100

def executeClampMin : SeriesFunction :=
  exactly 2 "clamp_min() requires exactly two arguments" 0 fun _ =>
    mapSamples fun sample => max sample.value 0

end MathFunctions

section OtherFunctions

def executeTime (ctx : StepContext) : List TimeSeries :=
  [singleSample 0 [] ctx.start (timeValue ctx.start / 1000)]

def executeTimestamp : SeriesFunction :=
  unary "timestamp" fun _ =>
    mapSamples fun sample => timeValue sample.timestamp / 1000

def executeLabelReplace : SeriesFunction :=
  exactly 5 "label_replace() requires exactly five arguments" 0 fun _ => id

def executeLabelJoin : SeriesFunction where
  accepts := fun count => decide (4 ≤ count)
  message := "label_join() requires at least four arguments"
  argument := 0
  apply := fun _ series => pure series

def executeSort (descending : Bool) : SeriesFunction :=
  unary "sort" fun _ =>
    sortByKey fun ts => if descending then -firstValue ts else firstValue ts

def executeAbsent : SeriesFunction :=
  unary "absent" fun ctx series =>
    if series.all fun ts => ts.samples.isEmpty then
      [singleSample 0 [] ctx.start 1]
    else
      []

def executeAbsentOverTime : SeriesFunction :=
  unary "absent_over_time" fun ctx series =>
    valueOfEach ctx.stop (fun _ => 1)
      (series.filter fun ts => ts.samples.isEmpty)

def executePresentOverTime : SeriesFunction :=
  unary "present_over_time" fun ctx =>
    valueOfEach ctx.stop fun samples => samples.length

def executeHistogramQuantile : SeriesFunction :=
  exactly 2 "histogram_quantile() requires exactly two arguments" 1
    fun ctx series =>
      series.filterMap fun ts =>
        (histogramValue ts.samples).map (singleSample ts.id ts.labels ctx.stop)

def executeScalar (std : StdFloat) : SeriesFunction :=
  unary "scalar" fun ctx series =>
    [singleSample 0 [] ctx.start (scalarValue std series)]

def executeVector : SeriesFunction :=
  unary "vector" fun ctx => vectorSeries ctx.start

end OtherFunctions

/-!
## Calls
-/

/-- The function that `execute_call` goes to, if there is one. -/
def seriesFunction (std : StdFloat) (k : Option ℕ) (quantile : Option Value)
    (labelName : String) (func : Function) :
    Option SeriesFunction :=
  match func with
  | .rate => some executeRate
  | .irate => some executeIrate
  | .increase => some executeIncrease
  | .delta => some executeDelta
  | .idelta => some executeIdelta
  | .resets => some executeResets
  | .changes => some executeChanges
  | .deriv => some executeDeriv
  | .predictLinear => some executePredictLinear
  | .holtWinters => some executeHoltWinters
  | .sum => some executeSum
  | .avg => some executeAvg
  | .min => some executeMin
  | .max => some executeMax
  | .count => some executeCount
  | .stddev => some (executeStddev std)
  | .stdvar => some executeStdvar
  | .topK => some (executeTopk k)
  | .bottomK => some (executeBottomk k)
  | .quantile => some (executeQuantile std quantile)
  | .countValues => some (executeCountValues std labelName)
  | .abs => some (executeMathUnary fun value => |value|)
  | .ceil => some (executeMathUnary fun value => ⌈value⌉)
  | .floor => some (executeMathUnary fun value => ⌊value⌋)
  | .round => some executeRound
  | .clamp => some executeClamp
  | .clampMax => some executeClampMax
  | .clampMin => some executeClampMin
  | .sqrt => some (executeMathUnary std.sqrt)
  | .exp | .ln | .log2 | .log10 | .sin | .cos | .tan | .asin | .acos
  | .atan | .sinh | .cosh | .tanh | .atanh =>
    some (executeMathUnary (std.unary func))
  | .timestamp => some executeTimestamp
  | .labelReplace => some executeLabelReplace
  | .labelJoin => some executeLabelJoin
  | .sort => some (executeSort false)
  | .sortDesc => some (executeSort true)
  | .absent => some executeAbsent
  | .absentOverTime => some executeAbsentOverTime
  | .presentOverTime => some executePresentOverTime
  | .histogramQuantile => some executeHistogramQuantile
  | .scalar => some (executeScalar std)
  | .vector => some executeVector
  | _ => none

/-- The label that an argument stands for: the value of its only matcher. -/
def labelOf (arg : PlanType) : String :=
  match arg with
  | .vectorQuery query =>
    match query.matchers with
    | [(_, value)] => value
    | _ => "value"
  | _ => "value"

def countValuesLabel (args : List QueryPlan) : String :=
  match args with
  | first :: _ => labelOf first.planType
  | [] => "value"

def executeCall
    (std : StdFloat) (func : Function) (k : Option ℕ) (quantile : Option Value)
    (labelName : String) (args : List (StepContext → Execution))
    (ctx : StepContext) :
    Execution :=
  if func = .time then
    pure (executeTime ctx)
  else
    match seriesFunction std k quantile labelName func with
    | some function => function.call args ctx
    | none => raiseInvalidData ("Function " ++ func.name ++ " not implemented")

/-!
## Aggregations and subqueries
-/

def groupKey (grouping : List String) (without : Bool) (ts : TimeSeries) :
    List (String × String) :=
  (ts.labels.filter fun label =>
    decide (label.name ∈ grouping) != without).map fun label =>
      (label.name, label.value)

def aggregateValues (std : StdFloat) (op : Function) (values : List Value) :
    Option Value :=
  match op with
  | .sum => some values.sum
  | .avg => some (mean values)
  | .min => some (values.foldl min f64Max)
  | .max => some (values.foldl max (-f64Max))
  | .count => some values.length
  | .stddev => some (std.sqrt (variance values))
  | .stdvar => some (variance values)
  | _ => none

/-- One series for a group; the hash table orders its timestamps. -/
def aggregateGroup
    (std : StdFloat) (op : Function) (key : List (String × String))
    (series : List TimeSeries) :
    Choice Fault TimeSeries := do
  let timestamps ← Choice.anyOrder (allTimestamps series)
  let samples ← timestamps.mapM fun timestamp =>
    match aggregateValues std op (valuesAt timestamp series) with
    | some value => pure { timestamp := timestamp, value := value }
    | none =>
      raiseInvalidData ("Unsupported aggregation function: " ++ std.debug op)
  pure {
    id := 0
    labels := key.map fun (name, value) => { name := name, value := value }
    samples := samples
  }

/-- The groups, in the order of a hash table. -/
def executeAggregation
    (std : StdFloat) (op : Function) (grouping : List String) (without : Bool)
    (series : List TimeSeries) :
    Execution :=
  if series = [] then
    pure []
  else do
    let keys ← Choice.anyOrder (series.map (groupKey grouping without)).dedup
    keys.mapM fun key =>
      aggregateGroup std op key
        (series.filter fun ts => groupKey grouping without ts = key)

/-- The samples of a step get the timestamp of the step. -/
def restamp (timestamp : Timestamp) (ts : TimeSeries) : TimeSeries :=
  { ts with
    samples :=
      ts.samples.map fun sample => { sample with timestamp := timestamp } }

/-- The steps of a subquery; their number is a quotient that can panic. -/
def executeSubquery (inner : StepContext → Execution) (range resolution : Int64)
    (ctx : StepContext) :
    Execution :=
  if resolution = 0 ∨ range = Int64.minValue ∧ resolution = -1 then
    throw .panic
  else do
    let numSteps := (range / resolution).toUInt64.toNat
    let results ← (List.range (numSteps + 1)).mapM fun i => do
      let timestamp := ctx.stop - range + Int64.ofNat i * resolution
      let series ← inner {
        start := timestamp
        stop := timestamp
        step := resolution
      }
      pure (series.map (restamp timestamp))
    pure results.flatten

/-!
## Plans
-/

namespace QueryExecutor

variable (std : StdFloat) (executor : QueryExecutor)

/-- Under any schedule, by an executor with the concurrency of the moment. -/
def executeVectorQuery (plan : VectorQueryPlan) (ctx : StepContext) :
    Execution :=
  .ofOutcomes
    {outcome |
      ∃ parallel result,
        ExecutesVectorQuery executor.config parallel executor.memstore plan
            ctx.toExecutionContext result ∧
          outcome = result.mapError Fault.error}

/-- The range of a matrix query is not looked at. -/
def executeMatrixQuery
    (vectorPlan : VectorQueryPlan) (_range : Int64) (ctx : StepContext) :
    Execution :=
  executor.executeVectorQuery vectorPlan ctx

mutual

def executePlan : PlanType → StepContext → Execution
  | .vectorQuery query, ctx => executor.executeVectorQuery query ctx
  | .matrixQuery vectorPlan range, ctx =>
    executor.executeMatrixQuery vectorPlan range ctx
  | .subquery expr range resolution, ctx =>
    executeSubquery (executePart expr) range resolution ctx
  | .call func args k quantile, ctx =>
    executeCall std func k quantile (countValuesLabel args)
      (executeArgs args) ctx
  | .binaryExpr op lhs rhs, ctx => do
    let lhsSeries ← executePart lhs ctx
    let rhsSeries ← executePart rhs ctx
    pure (applyBinaryOp std op lhsSeries rhsSeries)
  | .unaryExpr op expr, ctx => do
    let series ← executePart expr ctx
    pure (mapSamples (fun sample => applyUnaryOp op sample.value) series)
  | .aggregation op expr grouping without, ctx => do
    let series ← executePart expr ctx
    executeAggregation std op grouping without series

/-- A part of a plan is executed in the window of the whole. -/
def executePart : QueryPlan → StepContext → Execution
  | ⟨planType, _, _, _⟩, ctx => executePlan planType ctx

/-- The arguments of a call, none of them executed yet. -/
def executeArgs : List QueryPlan → List (StepContext → Execution)
  | [] => []
  | arg :: rest => executePart arg :: executeArgs rest

end

def execute (plan : QueryPlan) : Choice Fault QueryResult := do
  let series ←
    executor.executePlan std plan.planType {
      start := plan.start
      stop := plan.stop
      step := plan.step
    }
  pure {
    series := series
    start := plan.start
    stop := plan.stop
    step := plan.step
  }

end QueryExecutor

/-!
## Every plan has an outcome
-/

namespace SeriesFunction

/-- A function that comes to something, whatever its argument comes to. -/
def Ends (function : SeriesFunction) : Prop :=
  ∀ ctx series, (function.apply ctx series).outcomes.Nonempty

theorem ends_exactly (arguments : ℕ) (message : String) (argument : ℕ)
    (apply : StepContext → List TimeSeries → List TimeSeries) :
    (exactly arguments message argument apply).Ends :=
  fun _ _ => Choice.nonempty_pure _

theorem nonempty_call {function : SeriesFunction} (ends : function.Ends)
    {args : List (StepContext → Execution)}
    (argsEnd : ∀ arg ∈ args, ∀ ctx, (arg ctx).outcomes.Nonempty)
    (ctx : StepContext) :
    (function.call args ctx).outcomes.Nonempty := by
  rw [call]
  split
  · split
    · exact Choice.nonempty_throw _
    · rename_i execute atArgument
      exact Choice.nonempty_bind
        (argsEnd execute (List.mem_of_getElem? atArgument) ctx) (ends ctx)
  · exact Choice.nonempty_throw _

end SeriesFunction

theorem nonempty_parallelAggregate (parallel : ParallelQueryExecutor)
    (aggregate : List TimeSeries → TimeSeries) (series : List TimeSeries) :
    (parallelAggregate parallel aggregate series).outcomes.Nonempty := by
  unfold parallelAggregate
  split
  · exact Choice.nonempty_throw _
  · exact Choice.nonempty_pure _
  · obtain ⟨actions, final, run, finished⟩ :=
      TaskPool.exists_finished_run _
        (fun batch => some (aggregate batch)) (TaskPool.spawned _)
    exact Choice.nonempty_choose ⟨_, actions, final, run, finished, rfl⟩

theorem ends_executeSum : executeSum.Ends := by
  intro ctx series
  rw [executeSum]
  dsimp only
  split
  · exact Choice.nonempty_pure _
  · split
    · refine Choice.nonempty_bind
        (Choice.nonempty_choose ⟨.new 1, Set.mem_univ _⟩) fun parallel => ?_
      refine Choice.nonempty_bind
        (nonempty_parallelAggregate parallel sumSeries series) fun total => ?_
      exact Choice.nonempty_pure _
    · exact Choice.nonempty_pure _

variable (std : StdFloat)

theorem ends_executeQuantile (quantile : Option Value) :
    (executeQuantile std quantile).Ends := by
  intro ctx series
  rw [executeQuantile]
  dsimp only
  split
  · exact Choice.nonempty_throw _
  · split
    · split
      · exact Choice.nonempty_throw _
      · exact Choice.nonempty_pure _
    · exact Choice.nonempty_pure _

theorem ends_executeCountValues (labelName : String) :
    (executeCountValues std labelName).Ends :=
  fun _ _ =>
    Choice.nonempty_bind (Choice.nonempty_anyOrder _) fun _ =>
      Choice.nonempty_pure _

theorem executeCountValues_single
    (labelName : String) (ctx : StepContext) {ts : TimeSeries} {sample : Sample}
    (single : ts.samples = [sample]) :
    (executeCountValues std labelName).apply ctx [ts] =
      pure
        [singleSample 0 [⟨labelName, formatValue std sample.value⟩]
          ctx.start 1] := by
  have values : allValues [ts] = [sample.value] := by
    simp [allValues, single]
  rw [executeCountValues]
  dsimp only
  rw [values, List.map_singleton, (List.nodup_singleton _).dedup,
    Choice.anyOrder_singleton, pure_bind]
  simp

theorem ends_seriesFunction
    {std : StdFloat} {k : Option ℕ} {quantile : Option Value}
    {labelName : String} {func : Function} {function : SeriesFunction}
    (found :
      seriesFunction std k quantile labelName func = some function) :
    function.Ends := by
  cases func <;> cases found
  case sum => exact ends_executeSum
  case quantile => exact ends_executeQuantile std quantile
  case countValues => exact ends_executeCountValues std labelName
  case labelJoin => exact fun _ _ => Choice.nonempty_pure _
  all_goals exact SeriesFunction.ends_exactly _ _ _ _

theorem nonempty_aggregateGroup
    (op : Function) (key : List (String × String)) (series : List TimeSeries) :
    (aggregateGroup std op key series).outcomes.Nonempty := by
  refine Choice.nonempty_bind (Choice.nonempty_anyOrder _) fun times => ?_
  refine Choice.nonempty_bind
    (Choice.nonempty_mapM (fun timestamp => ?_) times) fun _ =>
      Choice.nonempty_pure _
  split
  · exact Choice.nonempty_pure _
  · exact Choice.nonempty_throw _

theorem nonempty_executeAggregation
    (op : Function) (grouping : List String) (without : Bool)
    (series : List TimeSeries) :
    (executeAggregation std op grouping without series).outcomes.Nonempty := by
  rw [executeAggregation]
  split
  · exact Choice.nonempty_pure _
  · exact Choice.nonempty_bind (Choice.nonempty_anyOrder _) fun keys =>
      Choice.nonempty_mapM
        (fun key => nonempty_aggregateGroup std op key _) keys

theorem nonempty_executeSubquery {inner : StepContext → Execution}
    (ends : ∀ ctx, (inner ctx).outcomes.Nonempty) (range resolution : Int64)
    (ctx : StepContext) :
    (executeSubquery inner range resolution ctx).outcomes.Nonempty := by
  rw [executeSubquery]
  split
  · exact Choice.nonempty_throw _
  · exact Choice.nonempty_bind
      (Choice.nonempty_mapM
        (fun i =>
          Choice.nonempty_bind (ends _) fun _ => Choice.nonempty_pure _) _)
      fun _ => Choice.nonempty_pure _

theorem nonempty_executeCall
    (func : Function) (k : Option ℕ) (quantile : Option Value)
    (labelName : String) {args : List (StepContext → Execution)}
    (argsEnd : ∀ arg ∈ args, ∀ ctx, (arg ctx).outcomes.Nonempty)
    (ctx : StepContext) :
    (executeCall std func k quantile labelName args ctx).outcomes.Nonempty := by
  rw [executeCall]
  split
  · exact Choice.nonempty_pure _
  · split
    · rename_i function found
      exact SeriesFunction.nonempty_call (ends_seriesFunction found) argsEnd ctx
    · exact Choice.nonempty_throw _

namespace QueryExecutor

variable (std : StdFloat) (executor : QueryExecutor)

theorem ensures_executeVectorQuery
    (plan : VectorQueryPlan) (ctx : StepContext) :
    (executor.executeVectorQuery plan ctx).Ensures fun series =>
      let (finalStart, finalEnd) := plan.finalRange ctx.toExecutionContext
      series.Perm
        (executor.memstore.queryWithDownsample plan.matchers finalStart
          finalEnd
          (Columnstore.DownsampleLevel.fromQueryRange
            (finalEnd - finalStart))) := by
  rintro outcome ⟨parallel, result, executes, rfl⟩
  obtain ⟨series, rfl, reordered⟩ :=
    (vectorQuery_paths_agree executor.config parallel executor.memstore plan
      ctx.toExecutionContext).2 result executes
  exact ⟨series, rfl, reordered⟩

theorem nonempty_executeVectorQuery
    (plan : VectorQueryPlan) (ctx : StepContext) :
    (executor.executeVectorQuery plan ctx).outcomes.Nonempty := by
  obtain ⟨⟨outcome, executes⟩, _⟩ :=
    vectorQuery_paths_agree executor.config (.new 1) executor.memstore plan
      ctx.toExecutionContext
  exact ⟨outcome.mapError Fault.error, .new 1, outcome, executes, rfl⟩

mutual

theorem nonempty_executePlan :
    ∀ (plan : PlanType) (ctx : StepContext),
      (executor.executePlan std plan ctx).outcomes.Nonempty
  | .vectorQuery query, ctx => by
    rw [executePlan]
    exact executor.nonempty_executeVectorQuery query ctx
  | .matrixQuery vectorPlan range, ctx => by
    rw [executePlan]
    exact executor.nonempty_executeVectorQuery vectorPlan ctx
  | .subquery expr range resolution, ctx => by
    rw [executePlan]
    exact nonempty_executeSubquery (nonempty_executePart expr) range
      resolution ctx
  | .call func args k quantile, ctx => by
    rw [executePlan]
    exact nonempty_executeCall std func k quantile _
      (nonempty_executeArgs args) ctx
  | .binaryExpr op lhs rhs, ctx => by
    rw [executePlan]
    refine Choice.nonempty_bind (nonempty_executePart lhs ctx) fun _ => ?_
    exact Choice.nonempty_bind (nonempty_executePart rhs ctx)
      fun _ => Choice.nonempty_pure _
  | .unaryExpr op expr, ctx => by
    rw [executePlan]
    exact Choice.nonempty_bind (nonempty_executePart expr ctx)
      fun _ => Choice.nonempty_pure _
  | .aggregation op expr grouping without, ctx => by
    rw [executePlan]
    exact Choice.nonempty_bind (nonempty_executePart expr ctx)
      (nonempty_executeAggregation std op grouping without)

theorem nonempty_executePart :
    ∀ (part : QueryPlan) (ctx : StepContext),
      (executor.executePart std part ctx).outcomes.Nonempty
  | ⟨planType, _, _, _⟩, ctx => by
    rw [executePart]
    exact nonempty_executePlan planType ctx

theorem nonempty_executeArgs :
    ∀ (args : List QueryPlan),
      ∀ arg ∈ executor.executeArgs std args, ∀ ctx, (arg ctx).outcomes.Nonempty
  | [] => by
    rw [executeArgs]
    exact fun arg member => absurd member List.not_mem_nil
  | first :: rest => by
    rw [executeArgs]
    exact List.forall_mem_cons.mpr
      ⟨nonempty_executePart first, nonempty_executeArgs rest⟩

end

theorem nonempty_execute (plan : QueryPlan) :
    (executor.execute std plan).outcomes.Nonempty :=
  Choice.nonempty_bind (executor.nonempty_executePlan std plan.planType _)
    fun _ => Choice.nonempty_pure _

end QueryExecutor

end ChronoDB.Query
