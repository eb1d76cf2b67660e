import ChronoDB.Query.CostOptimizer
import ChronoDB.Query.Engine
import ChronoDB.Query.SafeFunctions

namespace ChronoDB.Query.Checked

open Library

/-!
# Queries that do not panic

Execution goes from one operator to the next, and each of them asks something of
its window and of the series it gets.  A query is safe exactly when every
operator that is reached gets what it asks for, and the range of the query and
the estimates of the optimizer can be computed.
-/

section Conditions

/-- The offset can be applied to both ends of a range that can be computed. -/
def WindowFits (plan : VectorQueryPlan) (ctx : ExecutionContext) : Prop :=
  let (queryStart, queryEnd) := plan.queryRange ctx
  DifferenceFits queryStart (plan.offset.getD 0) ∧
    DifferenceFits queryEnd (plan.offset.getD 0) ∧
      DifferenceFits queryEnd queryStart

/-- The time of a step of a subquery can be computed. -/
def StepTimeFits (range resolution : Int64) (stop : Timestamp) (i : ℕ) :
    Prop :=
  let distance := (Int64.ofNat i).toInt * resolution.toInt
  DifferenceFits stop range ∧ Compression.FitsInt64 distance ∧
    Compression.FitsInt64 (stop.toInt - range.toInt + distance)

variable {F : Type} (doubles : Doubles F) (store : DoubleStore F)

mutual

/-- Every operator that execution reaches gets what it asks for. -/
def PlanFits : PlanType → StepContext → Prop
  | .vectorQuery query, ctx => WindowFits query ctx.toExecutionContext
  | .matrixQuery vectorPlan _, ctx =>
    WindowFits vectorPlan ctx.toExecutionContext
  | .subquery expr range resolution, ctx =>
    QuotientFits range resolution ∧
      ∀ i ≤ (range / resolution).toUInt64.toNat,
        -- the steps before can come to a result
        (∀ before < i,
            (executeStep (executePart doubles store expr) range resolution
              ctx before).Returns) →
          StepTimeFits range resolution ctx.stop i ∧
            ∀ timestamp ∈ stepTime range resolution ctx.stop i,
              PartFits expr ⟨⟨timestamp, timestamp⟩, resolution⟩
  | .call func args k quantile, ctx =>
    ∀ function ∈ seriesFunction doubles k quantile (countValuesLabel args) func,
      function.accepts args.length →
        ArgumentFits args function.argument ctx ∧
          ∀ execute ∈ (executeArgs doubles store args)[function.argument]?,
            ∀ series, .ok series ∈ (execute ctx).outcomes →
              FunctionFits doubles func k quantile series
  | .binaryExpr _ lhs rhs, ctx =>
    PartFits lhs ctx ∧
      ((executePart doubles store lhs ctx).Returns → PartFits rhs ctx)
  | .unaryExpr _ expr, ctx => PartFits expr ctx
  | .aggregation _ expr _ _, ctx => PartFits expr ctx

def PartFits : QueryPlan → StepContext → Prop
  | ⟨planType, _, _, _⟩, ctx => PlanFits planType ctx

def ArgumentFits : List QueryPlan → ℕ → StepContext → Prop
  | [], _, _ => True
  | arg :: _, 0, ctx => PartFits arg ctx
  | _ :: rest, position + 1, ctx => ArgumentFits rest position ctx

end

end Conditions

/-!
## Windows and steps
-/

section Windows

variable {F : Type} (doubles : Doubles F) (store : DoubleStore F)

theorem differenceFits_zero (time : Int64) : DifferenceFits time 0 := by
  rw [DifferenceFits, Int64.toInt_zero, sub_zero]
  exact Compression.fitsInt64_toInt time

theorem differenceFits_sub_iff
    {left right offset : Int64} (leftFits : DifferenceFits left offset)
    (rightFits : DifferenceFits right offset) :
    DifferenceFits (left - offset) (right - offset) ↔
      DifferenceFits left right := by
  rw [DifferenceFits, leftFits.toInt_sub, rightFits.toInt_sub,
    sub_sub_sub_cancel_right, DifferenceFits]

theorem checkedSub_eq_some_iff {left right difference : Int64} :
    checkedSub left right = some difference ↔
      DifferenceFits left right ∧ left - right = difference := by
  rw [checkedSub]
  split
  · rename_i fits
    simp only [fits, true_and, Option.some.injEq]
  · rename_i overflows
    simp only [overflows, false_and, reduceCtorEq]

theorem finalRange_eq_some_iff {plan : VectorQueryPlan} {ctx : ExecutionContext}
    {finalStart finalEnd : Timestamp} :
    finalRange plan ctx = some (finalStart, finalEnd) ↔
      DifferenceFits (plan.queryRange ctx).1 (plan.offset.getD 0) ∧
        DifferenceFits (plan.queryRange ctx).2 (plan.offset.getD 0) ∧
          (plan.queryRange ctx).1 - plan.offset.getD 0 = finalStart ∧
            (plan.queryRange ctx).2 - plan.offset.getD 0 = finalEnd := by
  rw [finalRange]
  cases plan.offset with
  | none => simp [differenceFits_zero, Prod.ext_iff]
  | some offsetMs =>
    simp only [bind, Option.bind_eq_some_iff, checkedSub_eq_some_iff,
      Option.some.injEq, Prod.mk.injEq, Option.getD_some]
    constructor
    · rintro ⟨_, ⟨startFits, rfl⟩, _, ⟨endFits, rfl⟩, isStart, isEnd⟩
      exact ⟨startFits, endFits, isStart, isEnd⟩
    · rintro ⟨startFits, endFits, isStart, isEnd⟩
      exact ⟨_, ⟨startFits, rfl⟩, _, ⟨endFits, rfl⟩, isStart, isEnd⟩

theorem executeVectorQuery_avoids_iff
    (plan : VectorQueryPlan) (ctx : StepContext) :
    (executeVectorQuery doubles store plan ctx).Avoids .panic ↔
      WindowFits plan ctx.toExecutionContext := by
  simp only [executeVectorQuery, Choice.avoids_bind_iff, avoids_orPanic_iff,
    Option.isSome_iff_exists, Prod.exists, Prod.forall, ok_mem_orPanic_iff,
    finalRange_eq_some_iff, checkedSub_eq_some_iff, Choice.avoids_anyOrder,
    implies_true, and_true]
  constructor
  · rintro ⟨⟨_, _, startFits, endFits, _, _⟩, rangeFits⟩
    obtain ⟨_, fits, _⟩ := rangeFits _ _ ⟨startFits, endFits, rfl, rfl⟩
    exact ⟨startFits, endFits,
      (differenceFits_sub_iff endFits startFits).mp fits⟩
  · rintro ⟨startFits, endFits, rangeFits⟩
    refine ⟨⟨_, _, startFits, endFits, rfl, rfl⟩, ?_⟩
    rintro _ _ ⟨_, _, rfl, rfl⟩
    exact ⟨_, (differenceFits_sub_iff endFits startFits).mpr rangeFits, rfl⟩

variable {range resolution : Int64} {ctx : StepContext}

theorem stepTime_isSome_iff {stop : Timestamp} {i : ℕ} :
    (stepTime range resolution stop i).isSome ↔
      StepTimeFits range resolution stop i := by
  rw [stepTime, StepTimeFits]
  by_cases firstFits : DifferenceFits stop range
  · by_cases distanceFits :
        Compression.FitsInt64 ((Int64.ofNat i).toInt * resolution.toInt)
    · simp only [checkedSub, firstFits, checkedMul, distanceFits, checkedAdd,
        firstFits.toInt_sub, distanceFits.toInt_mul, if_true,
        Option.bind_eq_bind, Option.bind_some, true_and]
      split
      · rename_i timeFits
        exact iff_of_true rfl timeFits
      · rename_i overflows
        exact iff_of_false Bool.false_ne_true overflows
    · simp only [checkedSub, firstFits, checkedMul, distanceFits, if_true,
        if_false, Option.bind_eq_bind, Option.bind_some, Option.bind_none,
        Option.isSome_none, Bool.false_eq_true, false_and, and_false]
  · simp [checkedSub, firstFits]

theorem executeStep_avoids_iff
    {inner : StepContext → Choice Fault (List (DoubleSeries F))} {i : ℕ} :
    (executeStep inner range resolution ctx i).Avoids .panic ↔
      StepTimeFits range resolution ctx.stop i ∧
        ∀ timestamp ∈ stepTime range resolution ctx.stop i,
          (inner ⟨⟨timestamp, timestamp⟩, resolution⟩).Avoids .panic := by
  rw [executeStep, Choice.avoids_bind_iff, avoids_orPanic_iff,
    stepTime_isSome_iff]
  simp only [ok_mem_orPanic_iff, Choice.avoids_bind_iff, Choice.avoids_pure,
    implies_true, and_true, Option.mem_def]

theorem executeSubquery_avoids_iff
    {inner : StepContext → Choice Fault (List (DoubleSeries F))} :
    (executeSubquery inner range resolution ctx).Avoids .panic ↔
      QuotientFits range resolution ∧
        ∀ i ≤ (range / resolution).toUInt64.toNat,
          (∀ before < i,
              (executeStep inner range resolution ctx before).Returns) →
            (executeStep inner range resolution ctx i).Avoids .panic := by
  rw [executeSubquery, Choice.avoids_bind_iff, avoids_orPanic_iff,
    Option.isSome_iff_exists]
  simp only [ok_mem_orPanic_iff, checkedDiv_eq_some_iff,
    Choice.avoids_bind_iff, Choice.avoids_pure, implies_true, and_true,
    Choice.avoids_mapM_range_iff, Nat.lt_succ_iff]
  constructor
  · rintro ⟨⟨_, fits, _⟩, eachAvoids⟩
    exact ⟨fits, eachAvoids _ ⟨fits, rfl⟩⟩
  · rintro ⟨fits, eachAvoids⟩
    refine ⟨⟨_, fits, rfl⟩, ?_⟩
    rintro _ ⟨_, rfl⟩
    exact eachAvoids

theorem executeAggregation_avoids
    (op : Function) (grouping : List String) (without : Bool)
    (series : List (DoubleSeries F)) :
    (executeAggregation doubles op grouping without series).Avoids .panic := by
  have groupAvoids :
      ∀ key group, (aggregateGroup doubles op key group).Avoids .panic := by
    intro key group
    refine Choice.avoids_bind_iff.mpr
      ⟨Choice.avoids_anyOrder _, fun timestamps _ => ?_⟩
    refine Choice.avoids_bind_iff.mpr
      ⟨Choice.avoids_mapM fun timestamp _ => ?_,
        fun _ _ => Choice.avoids_pure _⟩
    cases aggregateValues doubles op (valuesAt timestamp group) with
    | none => exact avoids_raiseInvalidData _
    | some value => exact Choice.avoids_pure _
  rw [executeAggregation]
  split
  · exact Choice.avoids_pure _
  · exact Choice.avoids_bind_iff.mpr
      ⟨Choice.avoids_anyOrder _, fun keys _ =>
        Choice.avoids_mapM fun key _ => groupAvoids key _⟩

theorem call_avoids_iff {function : SeriesFunction F}
    {args : List (StepContext → Choice Fault (List (DoubleSeries F)))} :
    (function.call args ctx).Avoids .panic ↔
      (function.accepts args.length →
        ∀ execute ∈ args[function.argument]?,
          (execute ctx).Avoids .panic ∧
            ∀ series, .ok series ∈ (execute ctx).outcomes →
              (function.apply ctx series).Avoids .panic) := by
  rw [SeriesFunction.call]
  split
  · rename_i accepted
    have atArgument :
        args[function.argument]? =
          some (args.get ⟨function.argument, function.inside _ accepted⟩) :=
      List.getElem?_eq_getElem _
    simp only [atArgument, accepted, forall_const, Option.mem_some_iff,
      forall_eq', Choice.avoids_bind_iff]
  · rename_i refused
    simp [refused]

theorem executeCall_avoids_iff
    {func : Function} {k : Option ℕ} {quantile : Option Value}
    {labelName : String}
    {args : List (StepContext → Choice Fault (List (DoubleSeries F)))} :
    (executeCall doubles func k quantile labelName args ctx).Avoids .panic ↔
      ∀ function ∈ seriesFunction doubles k quantile labelName func,
        function.accepts args.length →
          ∀ execute ∈ args[function.argument]?,
            (execute ctx).Avoids .panic ∧
              ∀ series, .ok series ∈ (execute ctx).outcomes →
                (function.apply ctx series).Avoids .panic := by
  rw [executeCall]
  split
  · rename_i isTime
    refine iff_of_true (Choice.avoids_pure _) ?_
    rw [isTime]
    exact fun function found => nomatch found
  · cases seriesFunction doubles k quantile labelName func with
    | none => simp
    | some function =>
      simp only [call_avoids_iff, Option.mem_some_iff, forall_eq']

theorem length_executeArgs (args : List QueryPlan) :
    (executeArgs doubles store args).length = args.length := by
  induction args with
  | nil =>
    rw [executeArgs]
    rfl
  | cons arg rest inductionHypothesis =>
    rw [executeArgs, List.length_cons, List.length_cons, inductionHypothesis]

end Windows

/-!
## Plans
-/

section Plans

variable {F : Type} (doubles : Doubles F) (store : DoubleStore F)

mutual

theorem executePlan_avoids_iff :
    ∀ (plan : PlanType) (ctx : StepContext),
      (executePlan doubles store plan ctx).Avoids .panic ↔
        PlanFits doubles store plan ctx
  | .vectorQuery query, ctx => by
    rw [executePlan, PlanFits]
    exact executeVectorQuery_avoids_iff doubles store query ctx
  | .matrixQuery vectorPlan range, ctx => by
    rw [executePlan, PlanFits]
    exact executeVectorQuery_avoids_iff doubles store vectorPlan ctx
  | .subquery expr range resolution, ctx => by
    rw [executePlan, PlanFits, executeSubquery_avoids_iff]
    simp only [executeStep_avoids_iff, executePart_avoids_iff expr]
  | .call func args k quantile, ctx => by
    rw [executePlan, PlanFits, executeCall_avoids_iff, length_executeArgs]
    refine forall₂_congr fun function found => imp_congr_right fun _ => ?_
    rw [← executeArgs_avoids_iff args function.argument ctx]
    simp only [avoids_apply_iff doubles found, imp_and, forall_and]
  | .binaryExpr op lhs rhs, ctx => by
    rw [executePlan, PlanFits, Choice.avoids_bind_iff,
      executePart_avoids_iff lhs ctx]
    simp only [Choice.avoids_bind_iff, Choice.avoids_pure, implies_true,
      and_true, executePart_avoids_iff rhs ctx, forall_exists_index,
      Choice.Returns]
  | .unaryExpr op expr, ctx => by
    rw [executePlan, PlanFits, Choice.avoids_bind_iff,
      executePart_avoids_iff expr ctx]
    simp only [Choice.avoids_pure, implies_true, and_true]
  | .aggregation op expr grouping without, ctx => by
    rw [executePlan, PlanFits, Choice.avoids_bind_iff,
      executePart_avoids_iff expr ctx]
    simp only [executeAggregation_avoids, implies_true, and_true]

theorem executePart_avoids_iff :
    ∀ (part : QueryPlan) (ctx : StepContext),
      (executePart doubles store part ctx).Avoids .panic ↔
        PartFits doubles store part ctx
  | ⟨planType, _, _, _⟩, ctx => by
    rw [executePart, PartFits]
    exact executePlan_avoids_iff planType ctx

theorem executeArgs_avoids_iff :
    ∀ (args : List QueryPlan) (position : ℕ) (ctx : StepContext),
      (∀ execute ∈ (executeArgs doubles store args)[position]?,
          (execute ctx).Avoids .panic) ↔
        ArgumentFits doubles store args position ctx
  | [], position, ctx => by
    rw [executeArgs, ArgumentFits]
    simp
  | arg :: rest, 0, ctx => by
    rw [executeArgs, ArgumentFits, ← executePart_avoids_iff arg ctx]
    simp
  | arg :: rest, position + 1, ctx => by
    rw [executeArgs, ArgumentFits, List.getElem?_cons_succ]
    exact executeArgs_avoids_iff rest position ctx

end

/-!
## Every plan has an outcome
-/

theorem nonempty_executeVectorQuery
    (plan : VectorQueryPlan) (ctx : StepContext) :
    (executeVectorQuery doubles store plan ctx).outcomes.Nonempty := by
  refine Choice.nonempty_bind (nonempty_orPanic _) fun _ => ?_
  exact Choice.nonempty_bind (nonempty_orPanic _)
    fun _ => Choice.nonempty_anyOrder _

theorem nonempty_executeCall
    (func : Function) (k : Option ℕ) (quantile : Option Value)
    (labelName : String)
    {args : List (StepContext → Choice Fault (List (DoubleSeries F)))}
    (argsEnd : ∀ arg ∈ args, ∀ ctx, (arg ctx).outcomes.Nonempty)
    (ctx : StepContext) :
    (executeCall doubles func k quantile labelName args
      ctx).outcomes.Nonempty := by
  rw [executeCall]
  split
  · exact Choice.nonempty_pure _
  · split
    · rename_i function found
      rw [SeriesFunction.call]
      split
      · exact Choice.nonempty_bind (argsEnd _ (List.get_mem _ _) ctx)
          (nonempty_apply doubles found ctx)
      · exact Choice.nonempty_throw _
    · exact Choice.nonempty_throw _

theorem nonempty_executeAggregation
    (op : Function) (grouping : List String) (without : Bool)
    (series : List (DoubleSeries F)) :
    (executeAggregation doubles op grouping without
      series).outcomes.Nonempty := by
  have groupEnds :
      ∀ key group, (aggregateGroup doubles op key group).outcomes.Nonempty := by
    intro key group
    refine Choice.nonempty_bind (Choice.nonempty_anyOrder _) fun _ => ?_
    refine Choice.nonempty_bind
      (Choice.nonempty_mapM (fun timestamp => ?_) _) fun _ =>
        Choice.nonempty_pure _
    cases aggregateValues doubles op (valuesAt timestamp group) with
    | none => exact Choice.nonempty_throw _
    | some value => exact Choice.nonempty_pure _
  rw [executeAggregation]
  split
  · exact Choice.nonempty_pure _
  · exact Choice.nonempty_bind (Choice.nonempty_anyOrder _) fun keys =>
      Choice.nonempty_mapM (fun key => groupEnds key _) keys

theorem nonempty_executeSubquery
    {inner : StepContext → Choice Fault (List (DoubleSeries F))}
    (ends : ∀ ctx, (inner ctx).outcomes.Nonempty) (range resolution : Int64)
    (ctx : StepContext) :
    (executeSubquery inner range resolution ctx).outcomes.Nonempty := by
  refine Choice.nonempty_bind (nonempty_orPanic _) fun _ => ?_
  refine Choice.nonempty_bind (Choice.nonempty_mapM (fun i => ?_) _)
    fun _ => Choice.nonempty_pure _
  refine Choice.nonempty_bind (nonempty_orPanic _) fun _ => ?_
  exact Choice.nonempty_bind (ends _) fun _ => Choice.nonempty_pure _

mutual

theorem nonempty_executePlan :
    ∀ (plan : PlanType) (ctx : StepContext),
      (executePlan doubles store plan ctx).outcomes.Nonempty
  | .vectorQuery query, ctx => by
    rw [executePlan]
    exact nonempty_executeVectorQuery doubles store query ctx
  | .matrixQuery vectorPlan range, ctx => by
    rw [executePlan]
    exact nonempty_executeVectorQuery doubles store vectorPlan ctx
  | .subquery expr range resolution, ctx => by
    rw [executePlan]
    exact nonempty_executeSubquery (nonempty_executePart expr) range
      resolution ctx
  | .call func args k quantile, ctx => by
    rw [executePlan]
    exact nonempty_executeCall doubles func k quantile _
      (nonempty_executeArgs args) ctx
  | .binaryExpr op lhs rhs, ctx => by
    rw [executePlan]
    refine Choice.nonempty_bind (nonempty_executePart lhs ctx) fun _ => ?_
    exact Choice.nonempty_bind (nonempty_executePart rhs ctx)
      fun _ => Choice.nonempty_pure _
  | .unaryExpr op expr, ctx => by
    rw [executePlan]
    exact Choice.nonempty_bind (nonempty_executePart expr ctx)
      fun _ => Choice.nonempty_pure _
  | .aggregation op expr grouping without, ctx => by
    rw [executePlan]
    exact Choice.nonempty_bind (nonempty_executePart expr ctx)
      (nonempty_executeAggregation doubles op grouping without)

theorem nonempty_executePart :
    ∀ (part : QueryPlan) (ctx : StepContext),
      (executePart doubles store part ctx).outcomes.Nonempty
  | ⟨planType, _, _, _⟩, ctx => by
    rw [executePart]
    exact nonempty_executePlan planType ctx

theorem nonempty_executeArgs :
    ∀ (args : List QueryPlan),
      ∀ arg ∈ executeArgs doubles store args, ∀ ctx, (arg ctx).outcomes.Nonempty
  | [] => by
    rw [executeArgs]
    exact List.forall_mem_nil _
  | first :: rest => by
    rw [executeArgs]
    exact List.forall_mem_cons.mpr
      ⟨nonempty_executePart first, nonempty_executeArgs rest⟩

end

theorem nonempty_execute (plan : QueryPlan) :
    (execute doubles store plan).outcomes.Nonempty := by
  refine Choice.nonempty_bind (nonempty_orPanic _) fun _ => ?_
  exact Choice.nonempty_bind
    (nonempty_executePlan doubles store plan.planType _)
    fun _ => Choice.nonempty_pure _

theorem execute_avoids_iff (plan : QueryPlan) :
    (execute doubles store plan).Avoids .panic ↔
      DifferenceFits plan.stop plan.start ∧
        PlanFits doubles store plan.planType
          ⟨⟨plan.start, plan.stop⟩, plan.step⟩ := by
  rw [execute, Choice.avoids_bind_iff, avoids_orPanic_iff,
    checkedSub_isSome_iff]
  refine and_congr_right fun rangeFits => ?_
  simp only [ok_mem_orPanic_iff, checkedSub_eq_some_iff, rangeFits, true_and,
    forall_eq', Choice.avoids_bind_iff, Choice.avoids_pure, implies_true,
    and_true, executePlan_avoids_iff]

end Plans

/-!
## Queries
-/

section Queries

variable {F : Type}

/-- A query that is accepted is optimized and executed without a panic. -/
def SafeQuery (std : StdText) (doubles : Doubles F) (config : OptimizerConfig)
    (store : DoubleStore F) (key : CacheKey) :
    Prop :=
  ∀ plan, planQuery std key = .ok plan →
    (QueryOptimizer.optimize plan).outcomes.Nonempty ∧
      (CostBasedOptimizer.optimize doubles config plan).isSome ∧
        (execute doubles store plan).outcomes.Nonempty ∧
          (execute doubles store plan).Avoids .panic

/--
The steps and rows of all subqueries can be counted, the range of the query can
be computed, and every operator that is reached gets what it asks for.
-/
def QueryFits (std : StdText) (doubles : Doubles F) (store : DoubleStore F)
    (key : CacheKey) :
    Prop :=
  ∀ plan, planQuery std key = .ok plan →
    EstimateFits plan.planType ∧ DifferenceFits plan.stop plan.start ∧
      PlanFits doubles store plan.planType ⟨⟨plan.start, plan.stop⟩, plan.step⟩

/-- A query is safe exactly when everything it computes fits. -/
theorem query_safe_iff (std : StdText) (doubles : Doubles F)
    (config : OptimizerConfig) (store : DoubleStore F) (key : CacheKey) :
    SafeQuery std doubles config store key ↔
      QueryFits std doubles store key := by
  refine forall₂_congr fun plan _ => ?_
  have optimizes := QueryOptimizer.nonempty_optimize plan
  have executes := nonempty_execute doubles store plan
  rw [CostBasedOptimizer.optimize_isSome_iff, execute_avoids_iff]
  simp only [optimizes, executes, true_and]

end Queries

/-!
## A subquery without a resolution
-/

def resolution? : PlanType → Option Int64
  | .subquery _ _ resolution => some resolution
  | _ => none

/-- A resolution of zero divides by zero, in the optimizer and the executor. -/
theorem zero_resolution_panics :
    ¬SafeQuery StdText.basic (exactDoubles exampleStd) .default ⟨[]⟩
      ⟨"up[5m:0s]".toList, 0, 3600000, 60000⟩ := by
  intro safe
  have hasResolution :
      (planQuery StdText.basic
          ⟨"up[5m:0s]".toList, 0, 3600000, 60000⟩).toOption.bind
          (fun plan => resolution? plan.planType) =
        some 0 := by
    decide +kernel
  obtain ⟨plan, isPlan, isZero⟩ := Option.bind_eq_some_iff.mp hasResolution
  cases planned : planQuery StdText.basic
      ⟨"up[5m:0s]".toList, 0, 3600000, 60000⟩ with
  | error fault =>
    rw [planned] at isPlan
    cases isPlan
  | ok other =>
    rw [planned] at isPlan
    cases isPlan
    obtain ⟨_, optimizes, _⟩ := safe plan planned
    rw [CostBasedOptimizer.optimize_isSome_iff] at optimizes
    cases shape : plan.planType with
    | subquery expr range resolution =>
      rw [shape] at isZero optimizes
      cases isZero
      rw [EstimateFits] at optimizes
      exact optimizes.2.1.1 rfl
    | _ =>
      rw [shape] at isZero
      cases isZero

end ChronoDB.Query.Checked
