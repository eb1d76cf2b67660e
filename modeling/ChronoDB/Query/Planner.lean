import ChronoDB.Memstore.Store
import ChronoDB.Query.Expr

namespace ChronoDB.Query

open Memstore Columnstore

/-!
# Vector queries

A vector query selects series by label matchers in a time range that the `@` and
offset modifiers move.  Both ways of executing it read the in-memory store and
nothing else.
-/

structure VectorQueryPlan where
  matchers : List (String × String)
  atTimestamp : Option Timestamp
  offset : Option Int64
  deriving Repr, DecidableEq

structure ExecutionContext where
  start : Timestamp
  stop : Timestamp
  deriving Repr, DecidableEq

structure ParallelConfig where
  enableParallel : Bool
  enableSeriesParallel : Bool
  enableTimeParallel : Bool
  minSeriesForParallel : ℕ
  minTimeRangeForParallelMs : Int64
  deriving Repr, DecidableEq

def ParallelConfig.shouldUseParallel
    (config : ParallelConfig) (numSeries : ℕ) (timeRangeMs : Int64) :
    Bool :=
  if !config.enableParallel then
    false
  else if config.enableSeriesParallel &&
      decide (config.minSeriesForParallel ≤ numSeries) then
    true
  else
    config.enableTimeParallel &&
      decide (config.minTimeRangeForParallelMs ≤ timeRangeMs)

namespace VectorQueryPlan

/-- The time range before the offset; `-1` and `-2` are `start()` and `end()`. -/
def queryRange (plan : VectorQueryPlan) (ctx : ExecutionContext) :
    Timestamp × Timestamp :=
  match plan.atTimestamp with
  | some atTimestamp =>
    let timestamp :=
      if atTimestamp = -1 then ctx.start
      else if atTimestamp = -2 then ctx.stop
      else atTimestamp
    (timestamp, timestamp)
  | none => (ctx.start, ctx.stop)

def finalRange (plan : VectorQueryPlan) (ctx : ExecutionContext) :
    Timestamp × Timestamp :=
  let (queryStart, queryEnd) := plan.queryRange ctx
  match plan.offset with
  | some offsetMs => (queryStart - offsetMs, queryEnd - offsetMs)
  | none => (queryStart, queryEnd)

end VectorQueryPlan

/-- What the parallel executor does for one series. -/
def processSeries
    (store : MemStore) (start stop : Timestamp) (level : DownsampleLevel)
    (seriesId : TimeSeriesId) :
    Option TimeSeries :=
  match store.getSeries seriesId with
  | none => none
  | some series =>
    let filtered := series.samples.filter (Sample.inRange start stop)
    if filtered = [] then none
    else
      let downsampled := applyDownsampling filtered level
      if downsampled = [] then none
      else some { series with samples := downsampled }

def executeVectorQueryParallel
    (store : MemStore) (seriesIds : List TimeSeriesId) (start stop : Timestamp)
    (level : DownsampleLevel) :
    List TimeSeries :=
  seriesIds.filterMap (processSeries store start stop level)

def executeVectorQuery
    (config : ParallelConfig) (store : MemStore) (plan : VectorQueryPlan)
    (ctx : ExecutionContext) :
    List TimeSeries :=
  let (finalStart, finalEnd) := plan.finalRange ctx
  let queryRange := finalEnd - finalStart
  let downsampleLevel := DownsampleLevel.fromQueryRange queryRange
  let seriesIds := store.findSeries plan.matchers
  if seriesIds = [] then
    []
  else if config.shouldUseParallel seriesIds.length queryRange then
    executeVectorQueryParallel store seriesIds finalStart finalEnd
      downsampleLevel
  else
    store.queryWithDownsample plan.matchers finalStart finalEnd downsampleLevel

theorem processSeries_eq_querySeries
    (store : MemStore) (start stop : Timestamp) (level : DownsampleLevel)
    (seriesId : TimeSeriesId) :
    processSeries store start stop level seriesId =
      store.querySeries start stop level seriesId := by
  rw [processSeries, MemStore.querySeries, MemStore.getSeries,
    HeadBlock.getSeriesLabels, HeadBlock.query, HeadBlock.query]
  cases store.head.series.lookup seriesId with
  | none => rfl
  | some entry =>
    simp only [Option.map_some, entry.samplesInRange_full,
      entry.samplesInRange_eq start stop]

theorem executeVectorQuery_eq
    (config : ParallelConfig) (store : MemStore) (plan : VectorQueryPlan)
    (ctx : ExecutionContext) :
    let (finalStart, finalEnd) := plan.finalRange ctx
    executeVectorQuery config store plan ctx =
      store.queryWithDownsample plan.matchers finalStart finalEnd
        (DownsampleLevel.fromQueryRange (finalEnd - finalStart)) := by
  simp only [executeVectorQuery, executeVectorQueryParallel,
    MemStore.queryWithDownsample,
    funext (processSeries_eq_querySeries store _ _ _), ite_self]
  split
  · rename_i nothing
    rw [nothing, List.filterMap_nil]
  · rfl

/-!
## Query plans and the planner

What the planner makes of an expression.  A part of a plan is a plan again, with
a window that execution does not look at.  The planner turns the selectors of an
expression into lists of matchers and keeps its shape.  Only tests for equality
have a plan, and numbers and strings have none.
-/

mutual

/-- A plan and the window it is asked for. -/
structure QueryPlan where
  planType : PlanType
  start : Timestamp
  stop : Timestamp
  step : Int64

inductive PlanType where
  | vectorQuery (query : VectorQueryPlan)
  | matrixQuery (vectorPlan : VectorQueryPlan) (range : Int64)
  | subquery (expr : QueryPlan) (range resolution : Int64)
  | call
      (func : Function)
      (args : List QueryPlan)
      (k : Option ℕ)
      (quantile : Option Value)
  | binaryExpr (op : BinaryOp) (lhs rhs : QueryPlan)
  | unaryExpr (op : UnaryOp) (expr : QueryPlan)
  | aggregation
      (op : Function)
      (expr : QueryPlan)
      (grouping : List String)
      (without : Bool)

end

structure QueryResult where
  series : List TimeSeries
  start : Timestamp
  stop : Timestamp
  step : Int64
  deriving Repr, DecidableEq

/-- The window of a step, and the distance to the next one. -/
structure StepContext extends ExecutionContext where
  step : Int64
  deriving Repr, DecidableEq

namespace QueryPlanner

def planMatchers : List Matcher → Except Error (List (String × String))
  | [] => .ok []
  | matcher :: rest =>
    match matcher.op with
    | .equal => do
      let planned ← planMatchers rest
      .ok ((matcher.name, matcher.value) :: planned)
    | _ => .error (.invalidData "Only equal matchers supported")

def planVectorSelector (vs : VectorSelector) : Except Error PlanType := do
  let matchers ← planMatchers vs.matchers
  .ok
    (.vectorQuery {
      matchers := (vs.name.map ("__name__", ·)).toList ++ matchers
      atTimestamp := vs.atModifier.map AtModifier.timestamp
      offset := vs.offset
    })

def planMatrixSelector (ms : MatrixSelector) : Except Error PlanType := do
  let vectorPlan ← planVectorSelector ms.vectorSelector
  match vectorPlan with
  | .vectorQuery vectorPlan => .ok (.matrixQuery vectorPlan ms.range)
  | _ => .error (.invalidData "Expected vector selector")

/-- The cast of a natural number to `usize` stops at the largest one. -/
def extractKValue : Expr → Option ℕ
  | .numberLiteral n =>
    if 0 ≤ n ∧ n = n.floor then
      some (min n.floor.toNat (2 ^ 64 - 1))
    else
      none
  | _ => none

def extractQuantileValue : Expr → Option Value
  | .numberLiteral n => if 0 ≤ n ∧ n ≤ 1 then some n else none
  | _ => none

/-- The window of a part is filled in when it is executed. -/
def part (planType : PlanType) (step : Int64) : QueryPlan where
  planType := planType
  start := 0
  stop := 0
  step := step

def callPlan (func : Function) (args : List Expr) (planned : List QueryPlan) :
    PlanType :=
  .call func planned
    (if func = .topK ∨ func = .bottomK then
      args.head?.bind extractKValue
    else
      none)
    (if func = .quantile then args.head?.bind extractQuantileValue else none)

mutual

def planExpr : Expr → Except Error PlanType
  | .vectorSelector vs => planVectorSelector vs
  | .matrixSelector ms => planMatrixSelector ms
  | .subquery expr range resolution => do
    let exprPlan ← planExpr expr
    .ok (.subquery (part exprPlan resolution) range resolution)
  | .call func args => do
    let planned ← planArgs args
    .ok (callPlan func args planned)
  | .binaryExpr op lhs rhs => do
    let lhsPlan ← planExpr lhs
    let rhsPlan ← planExpr rhs
    .ok (.binaryExpr op (part lhsPlan 0) (part rhsPlan 0))
  | .unaryExpr op expr => do
    let exprPlan ← planExpr expr
    .ok (.unaryExpr op (part exprPlan 0))
  | .aggregation op expr grouping without => do
    let exprPlan ← planExpr expr
    .ok (.aggregation op (part exprPlan 0) grouping without)
  | .numberLiteral _ | .stringLiteral _ =>
    .error (.invalidData "Literal expression not supported")

def planArgs : List Expr → Except Error (List QueryPlan)
  | [] => .ok []
  | arg :: rest => do
    let argPlan ← planExpr arg
    let restPlans ← planArgs rest
    .ok (part argPlan 0 :: restPlans)

end

def plan (expr : Expr) (start stop : Timestamp) (step : Int64) :
    Except Error QueryPlan := do
  let planType ← planExpr expr
  .ok ⟨planType, start, stop, step⟩

end QueryPlanner

def VectorSelector.conditions (selector : VectorSelector) :
    List (String × String) :=
  (selector.name.map ("__name__", ·)).toList ++
    selector.matchers.map fun matcher => (matcher.name, matcher.value)

namespace QueryPlanner

theorem planMatchers_eq_ok
    {matchers : List Matcher} {planned : List (String × String)}
    (isPlanned : planMatchers matchers = .ok planned) :
    planned = matchers.map fun matcher => (matcher.name, matcher.value) := by
  induction matchers generalizing planned with
  | nil =>
    cases isPlanned
    rfl
  | cons matcher rest inductionHypothesis =>
    rw [planMatchers] at isPlanned
    split at isPlanned
    · cases plannedRest : planMatchers rest with
      | error cause =>
        rw [plannedRest] at isPlanned
        cases isPlanned
      | ok others =>
        rw [plannedRest] at isPlanned
        cases isPlanned
        rw [inductionHypothesis plannedRest, List.map_cons]
    · cases isPlanned

theorem planVectorSelector_eq_ok
    {selector : VectorSelector} {planType : PlanType}
    (isPlanned : planVectorSelector selector = .ok planType) :
    planType =
      .vectorQuery {
        matchers := selector.conditions
        atTimestamp := selector.atModifier.map AtModifier.timestamp
        offset := selector.offset
      } := by
  rw [planVectorSelector] at isPlanned
  cases planned : planMatchers selector.matchers with
  | error cause =>
    rw [planned] at isPlanned
    cases isPlanned
  | ok matchers =>
    rw [planned] at isPlanned
    cases isPlanned
    rw [planMatchers_eq_ok planned]
    rfl

theorem planMatrixSelector_eq_ok
    {selector : MatrixSelector} {planType : PlanType}
    (isPlanned : planMatrixSelector selector = .ok planType) :
    planType =
      .matrixQuery {
        matchers := selector.vectorSelector.conditions
        atTimestamp :=
          selector.vectorSelector.atModifier.map AtModifier.timestamp
        offset := selector.vectorSelector.offset
      } selector.range := by
  rw [planMatrixSelector] at isPlanned
  cases planned : planVectorSelector selector.vectorSelector with
  | error cause =>
    rw [planned] at isPlanned
    cases isPlanned
  | ok vectorPlan =>
    rw [planned, planVectorSelector_eq_ok planned] at isPlanned
    cases isPlanned
    rfl

end QueryPlanner

end ChronoDB.Query
