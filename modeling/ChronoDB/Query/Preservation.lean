import ChronoDB.Query.Optimizer

namespace ChronoDB.Query

open Library Memstore Wal QueryOptimizer List QueryExecutor PlanType

/-!
# What optimization preserves

A plan whose executed parts do not contradict themselves keeps its outcomes, with
ranges and resolutions of at least 1 ms.  Other plans can change.
-/

/-!
## Executed parts
-/

/-- The position of the argument that a call executes. -/
def executedArgument : Function → Option ℕ
  | .topK | .bottomK | .quantile | .countValues | .histogramQuantile => some 1
  | .time | .asinh | .acosh | .deg | .rad | .dayOfMonth | .dayOfWeek
  | .daysInMonth | .hour | .minute | .month | .year | .custom _ => none
  | _ => some 0

theorem executedArgument_eq
    {std : StdFloat} {k : Option ℕ} {quantile : Option Value}
    {labelName : String} {func : Function} {function : SeriesFunction}
    (found :
      seriesFunction std k quantile labelName func = some function) :
    executedArgument func = some function.argument := by
  cases func <;> cases found <;> rfl

theorem seriesFunction_label
    {func : Function} (other : func ≠ .countValues) (std : StdFloat)
    (k : Option ℕ) (quantile : Option Value) (labelName otherName : String) :
    seriesFunction std k quantile labelName func =
      seriesFunction std k quantile otherName func := by
  cases func <;> first | rfl | exact absurd rfl other

theorem executeCall_congr
    {std : StdFloat} {func : Function} {k : Option ℕ} {quantile : Option Value}
    {labelName otherName : String}
    {args others : List (StepContext → Execution)} {ctx : StepContext}
    (sameLength : args.length = others.length)
    (sameArgument :
      ∀ position,
        executedArgument func = some position →
          args[position]?.map (· ctx) = others[position]?.map (· ctx))
    (sameLabel : func = .countValues → labelName = otherName) :
    executeCall std func k quantile labelName args ctx =
      executeCall std func k quantile otherName others ctx := by
  have sameFunction :
      seriesFunction std k quantile labelName func =
        seriesFunction std k quantile otherName func := by
    by_cases counts : func = .countValues
    · rw [sameLabel counts]
    · exact seriesFunction_label counts std k quantile labelName otherName
  rw [executeCall, executeCall, sameFunction]
  cases found : seriesFunction std k quantile otherName func with
  | none => rfl
  | some function =>
    have same := sameArgument _ (executedArgument_eq found)
    simp only [SeriesFunction.call, sameLength]
    cases first : args[function.argument]? with
    | none =>
      rw [first, Option.map_none, eq_comm, Option.map_eq_none_iff] at same
      rw [same]
    | some execute =>
      rw [first, Option.map_some, eq_comm, Option.map_eq_some_iff] at same
      obtain ⟨other, isOther, sameExecution⟩ := same
      simp only [isOther, sameExecution]

mutual

def EachExecuted (holds : PlanType → Prop) : PlanType → Prop
  | .vectorQuery query => holds (.vectorQuery query)
  | .matrixQuery vectorPlan range => holds (.matrixQuery vectorPlan range)
  | .subquery expr range resolution =>
    holds (.subquery expr range resolution) ∧ EachExecutedPart holds expr
  | .call func args k quantile =>
    holds (.call func args k quantile) ∧
      ∀ position,
        executedArgument func = some position →
          EachExecutedAt holds args position
  | .binaryExpr op lhs rhs =>
    holds (.binaryExpr op lhs rhs) ∧
      EachExecutedPart holds lhs ∧ EachExecutedPart holds rhs
  | .unaryExpr op expr =>
    holds (.unaryExpr op expr) ∧ EachExecutedPart holds expr
  | .aggregation op expr grouping without =>
    holds (.aggregation op expr grouping without) ∧ EachExecutedPart holds expr

def EachExecutedPart (holds : PlanType → Prop) : QueryPlan → Prop
  | ⟨planType, _, _, _⟩ => EachExecuted holds planType

def EachExecutedAt (holds : PlanType → Prop) : List QueryPlan → ℕ → Prop
  | [], _ => True
  | arg :: _, 0 => EachExecutedPart holds arg
  | _ :: rest, position + 1 => EachExecutedAt holds rest position

end

mutual

/-- A plan with ranges and resolutions of at least 1 ms in all subqueries. -/
def PlanType.atLeastOneMs : PlanType → PlanType
  | .vectorQuery query => .vectorQuery query
  | .matrixQuery vectorPlan range => .matrixQuery vectorPlan range
  | .subquery expr range resolution =>
    .subquery expr.atLeastOneMs (max range 1) (max resolution 1)
  | .call func args k quantile => .call func (argsAtLeastOneMs args) k quantile
  | .binaryExpr op lhs rhs => .binaryExpr op lhs.atLeastOneMs rhs.atLeastOneMs
  | .unaryExpr op expr => .unaryExpr op expr.atLeastOneMs
  | .aggregation op expr grouping without =>
    .aggregation op expr.atLeastOneMs grouping without

def QueryPlan.atLeastOneMs : QueryPlan → QueryPlan
  | ⟨planType, start, stop, step⟩ => ⟨planType.atLeastOneMs, start, stop, step⟩

def argsAtLeastOneMs : List QueryPlan → List QueryPlan
  | [] => []
  | arg :: rest => arg.atLeastOneMs :: argsAtLeastOneMs rest

end

/-!
## The optimizer preserves outcomes
-/

theorem max_one_of_le {number : Int64} (atLeastOne : 1 ≤ number) :
    max number 1 = number := by
  change (if number ≤ 1 then 1 else number) = number
  split
  · rename_i atMost
    exact Int64.le_antisymm atLeastOne atMost
  · rfl

/-- A selector that stands for a label has one condition or several labels. -/
def NamesLabel (arg : PlanType) : Prop :=
  match arg with
  | .vectorQuery query =>
    2 ≤ query.matchers.length →
      ∃ first ∈ query.matchers, ∃ second ∈ query.matchers, first.1 ≠ second.1
  | _ => True

/-- The plan itself repeats no label in two meanings. -/
def Unambiguous (plan : PlanType) : Prop :=
  match plan with
  | .vectorQuery query => Consistent query.matchers
  | .matrixQuery vectorPlan _ => Consistent vectorPlan.matchers
  | .call .countValues (first :: _) _ _ => NamesLabel first.planType
  | _ => True

/-- The plan itself has no shorter range or resolution than 1 ms. -/
def AtLeastOneMs (plan : PlanType) : Prop :=
  match plan with
  | .subquery _ range resolution => 1 ≤ range ∧ 1 ≤ resolution
  | _ => True

structure Preserves
    (std : StdFloat) (executor : QueryExecutor) (plan optimized : PlanType) :
    Prop where
  executes :
    EachExecuted Unambiguous plan →
      executor.executePlan std optimized =
        executor.executePlan std plan.atLeastOneMs
  label : NamesLabel plan → labelOf optimized = labelOf plan

structure PreservesPart
    (std : StdFloat) (executor : QueryExecutor) (part optimized : QueryPlan) :
    Prop where
  plan : Preserves std executor part.planType optimized.planType
  start : optimized.start = part.start
  stop : optimized.stop = part.stop
  step : optimized.step = part.step

section Parts

variable {std : StdFloat} {executor : QueryExecutor}

theorem length_executeArgs (args : List QueryPlan) :
    (executor.executeArgs std args).length = args.length := by
  induction args with
  | nil => rfl
  | cons arg rest inductionHypothesis =>
    rw [executeArgs, length_cons, inductionHypothesis,
      length_cons]

theorem length_argsAtLeastOneMs (args : List QueryPlan) :
    (argsAtLeastOneMs args).length = args.length := by
  induction args with
  | nil => rfl
  | cons arg rest inductionHypothesis =>
    rw [argsAtLeastOneMs, length_cons, inductionHypothesis, length_cons]

theorem PreservesPart.executes {part optimized : QueryPlan}
    (preserves : PreservesPart std executor part optimized)
    (unambiguous : EachExecutedPart Unambiguous part) :
    executor.executePart std optimized =
      executor.executePart std part.atLeastOneMs := by
  obtain ⟨planType, _, _, _⟩ := part
  obtain ⟨optimizedType, _, _, _⟩ := optimized
  rw [EachExecutedPart] at unambiguous
  funext ctx
  rw [QueryPlan.atLeastOneMs, executePart,
    executePart]
  exact congrFun (preserves.plan.executes unambiguous) ctx

theorem getElem?_executeArgs {args optimized : List QueryPlan}
    (preserves : List.Forall₂ (PreservesPart std executor) args optimized)
    {position : ℕ} (unambiguous : EachExecutedAt Unambiguous args position) :
    (executor.executeArgs std optimized)[position]? =
      (executor.executeArgs std (argsAtLeastOneMs args))[position]? := by
  induction preserves generalizing position with
  | nil => rfl
  | cons first _ inductionHypothesis =>
    rw [executeArgs, argsAtLeastOneMs, executeArgs]
    cases position with
    | zero =>
      rw [getElem?_cons_zero, getElem?_cons_zero, first.executes unambiguous]
    | succ position =>
      rw [getElem?_cons_succ, getElem?_cons_succ]
      exact inductionHypothesis unambiguous

theorem countValuesLabel_atLeastOneMs (args : List QueryPlan) :
    countValuesLabel (argsAtLeastOneMs args) = countValuesLabel args := by
  rcases args with _ | ⟨⟨planType, _, _, _⟩, rest⟩
  · rfl
  · cases planType <;> rfl

theorem executes_call
    {func : Function} {args optimized : List QueryPlan} {k : Option ℕ}
    {quantile : Option Value}
    (preserves : List.Forall₂ (PreservesPart std executor) args optimized)
    (unambiguous : EachExecuted Unambiguous (.call func args k quantile)) :
    executor.executePlan std (.call func optimized k quantile) =
      executor.executePlan std
        (call func args k quantile).atLeastOneMs := by
  rw [EachExecuted] at unambiguous
  obtain ⟨named, atPosition⟩ := unambiguous
  rw [atLeastOneMs]
  funext ctx
  rw [executePlan, executePlan]
  refine executeCall_congr ?_ (fun position isExecuted => ?_) ?_
  · rw [length_executeArgs, length_executeArgs, length_argsAtLeastOneMs,
      preserves.length_eq]
  · rw [getElem?_executeArgs preserves (atPosition position isExecuted)]
  · rintro rfl
    rw [countValuesLabel_atLeastOneMs]
    cases preserves with
    | nil => rfl
    | cons first _ => exact first.plan.label named

end Parts

section Preservation

variable {std : StdFloat} {executor : QueryExecutor}

mutual

/-- The optimizer returns a plan that preserves the outcomes. -/
theorem ensures_optimizePlan
    (distinct : executor.memstore.head.index.Distinct) :
    ∀ plan : PlanType, (optimizePlan plan).Ensures (Preserves std executor plan)
  | .vectorQuery query => by
    rw [optimizePlan]
    refine Choice.ensures_bind (ensures_optimizeVectorQuery query)
      fun optimized isKept => Choice.ensures_pure ⟨fun unambiguous => ?_,
        labelOf_optimized isKept⟩
    funext ctx
    exact executeVectorQuery_optimized distinct isKept unambiguous ctx
  | .matrixQuery vectorPlan range => by
    rw [optimizePlan]
    refine Choice.ensures_bind (ensures_optimizeVectorQuery vectorPlan)
      fun optimized isKept =>
        Choice.ensures_pure ⟨fun unambiguous => ?_, fun _ => rfl⟩
    funext ctx
    exact executeVectorQuery_optimized distinct isKept unambiguous ctx
  | .subquery expr range resolution => by
    rw [optimizePlan]
    refine Choice.ensures_bind (ensures_optimize distinct expr)
      fun optimized preserves =>
        Choice.ensures_pure ⟨fun unambiguous => ?_, fun _ => rfl⟩
    rw [EachExecuted] at unambiguous
    rw [atLeastOneMs]
    funext ctx
    rw [executePlan, executePlan,
      preserves.executes unambiguous.2]
    rfl
  | .call func args k quantile => by
    rw [optimizePlan]
    exact Choice.ensures_bind (ensures_optimizeArgs distinct args)
      fun optimized preserves =>
        Choice.ensures_pure ⟨executes_call preserves, fun _ => rfl⟩
  | .binaryExpr op lhs rhs => by
    rw [optimizePlan]
    refine Choice.ensures_bind (ensures_optimize distinct lhs)
      fun optimizedLhs preservesLhs =>
        Choice.ensures_bind (ensures_optimize distinct rhs)
          fun optimizedRhs preservesRhs =>
            Choice.ensures_pure ⟨fun unambiguous => ?_, fun _ => rfl⟩
    rw [EachExecuted] at unambiguous
    rw [atLeastOneMs]
    funext ctx
    rw [executePlan, executePlan,
      preservesLhs.executes unambiguous.2.1,
      preservesRhs.executes unambiguous.2.2]
  | .unaryExpr op expr => by
    rw [optimizePlan]
    refine Choice.ensures_bind (ensures_optimize distinct expr)
      fun optimized preserves =>
        Choice.ensures_pure ⟨fun unambiguous => ?_, fun _ => rfl⟩
    rw [EachExecuted] at unambiguous
    rw [atLeastOneMs]
    funext ctx
    rw [executePlan, executePlan,
      preserves.executes unambiguous.2]
  | .aggregation op expr grouping without => by
    rw [optimizePlan]
    refine Choice.ensures_bind (ensures_optimize distinct expr)
      fun optimized preserves =>
        Choice.ensures_bind (Choice.ensures_anyOrder _)
          fun optimizedGrouping reordered =>
            Choice.ensures_pure ⟨fun unambiguous => ?_, fun _ => rfl⟩
    rw [EachExecuted] at unambiguous
    have sameLabels : ∀ label, label ∈ optimizedGrouping ↔ label ∈ grouping :=
      fun label => reordered.mem_iff.trans mem_dedup
    have sameKey :
        groupKey optimizedGrouping without = groupKey grouping without := by
      funext ts
      simp only [groupKey, sameLabels]
    rw [atLeastOneMs]
    funext ctx
    rw [executePlan, executePlan,
      preserves.executes unambiguous.2]
    simp only [executeAggregation, sameKey]

theorem ensures_optimize (distinct : executor.memstore.head.index.Distinct) :
    ∀ part : QueryPlan,
      (optimize part).Ensures (PreservesPart std executor part)
  | ⟨planType, start, stop, step⟩ => by
    rw [optimize]
    exact Choice.ensures_bind (ensures_optimizePlan distinct planType)
      fun optimized preserves =>
        Choice.ensures_pure ⟨preserves, rfl, rfl, rfl⟩

theorem ensures_optimizeArgs
    (distinct : executor.memstore.head.index.Distinct) :
    ∀ args : List QueryPlan,
      (optimizeArgs args).Ensures
        (List.Forall₂ (PreservesPart std executor) args)
  | [] => by
    rw [optimizeArgs]
    exact Choice.ensures_pure .nil
  | arg :: rest => by
    rw [optimizeArgs]
    exact Choice.ensures_bind (ensures_optimize distinct arg)
      fun optimizedArg preserves =>
        Choice.ensures_bind (ensures_optimizeArgs distinct rest)
          fun optimizedRest preservesRest =>
            Choice.ensures_pure (.cons preserves preservesRest)

end

mutual

theorem executePlan_atLeastOneMs :
    ∀ plan : PlanType,
      EachExecuted AtLeastOneMs plan →
        executor.executePlan std plan.atLeastOneMs =
          executor.executePlan std plan
  | .vectorQuery query, _ => by
    rw [atLeastOneMs]
  | .matrixQuery vectorPlan range, _ => by
    rw [atLeastOneMs]
  | .subquery expr range resolution, longEnough => by
    rw [EachExecuted] at longEnough
    obtain ⟨⟨longRange, longResolution⟩, inner⟩ := longEnough
    rw [atLeastOneMs]
    funext ctx
    rw [executePlan, executePlan,
      executePart_atLeastOneMs expr inner, max_one_of_le longRange,
      max_one_of_le longResolution]
  | .call func args k quantile, longEnough => by
    rw [EachExecuted] at longEnough
    rw [atLeastOneMs]
    funext ctx
    rw [executePlan, executePlan,
      countValuesLabel_atLeastOneMs]
    refine executeCall_congr ?_ (fun position isExecuted => ?_) fun _ => rfl
    · rw [length_executeArgs, length_executeArgs, length_argsAtLeastOneMs]
    · rw [getElem?_executeArgs_atLeastOneMs args position
        (longEnough.2 position isExecuted)]
  | .binaryExpr op lhs rhs, longEnough => by
    rw [EachExecuted] at longEnough
    rw [atLeastOneMs]
    funext ctx
    rw [executePlan, executePlan,
      executePart_atLeastOneMs lhs longEnough.2.1,
      executePart_atLeastOneMs rhs longEnough.2.2]
  | .unaryExpr op expr, longEnough => by
    rw [EachExecuted] at longEnough
    rw [atLeastOneMs]
    funext ctx
    rw [executePlan, executePlan,
      executePart_atLeastOneMs expr longEnough.2]
  | .aggregation op expr grouping without, longEnough => by
    rw [EachExecuted] at longEnough
    rw [atLeastOneMs]
    funext ctx
    rw [executePlan, executePlan,
      executePart_atLeastOneMs expr longEnough.2]

theorem executePart_atLeastOneMs :
    ∀ part : QueryPlan,
      EachExecutedPart AtLeastOneMs part →
        executor.executePart std part.atLeastOneMs =
          executor.executePart std part
  | ⟨planType, _, _, _⟩, longEnough => by
    rw [EachExecutedPart] at longEnough
    funext ctx
    rw [QueryPlan.atLeastOneMs, executePart,
      executePart, executePlan_atLeastOneMs planType longEnough]

theorem getElem?_executeArgs_atLeastOneMs :
    ∀ (args : List QueryPlan) (position : ℕ),
      EachExecutedAt AtLeastOneMs args position →
        (executor.executeArgs std (argsAtLeastOneMs args))[position]? =
          (executor.executeArgs std args)[position]?
  | [], _, _ => rfl
  | arg :: rest, 0, longEnough => by
    rw [argsAtLeastOneMs, executeArgs,
      executeArgs, getElem?_cons_zero,
      getElem?_cons_zero, executePart_atLeastOneMs arg longEnough]
  | arg :: rest, position + 1, longEnough => by
    rw [argsAtLeastOneMs, executeArgs, executeArgs,
      getElem?_cons_succ, getElem?_cons_succ]
    exact getElem?_executeArgs_atLeastOneMs rest position longEnough

end

end Preservation

/-!
## Examples
-/

def exampleHead : HeadBlock :=
  ((HeadOperation.addSample Json.seriesId ⟨1000, 1⟩).run SipHash.hash
    ((HeadOperation.getOrCreateSeries Json.labels).run SipHash.hash
      (HeadBlock.new ⟨1⟩)).2).2

def exampleExecutor : QueryExecutor where
  memstore := {
    head := exampleHead
    wal := none
    stats := { totalSeries := 1, totalSamples := 1, writes := 1 }
  }
  config := {
    enableParallel := true
    enableSeriesParallel := true
    enableTimeParallel := true
    minSeriesForParallel := 10
    minTimeRangeForParallelMs := 3600000
  }

/-- An instant query for the time of the sample. -/
def instantPlan (planType : PlanType) : QueryPlan where
  planType := planType
  start := 1000
  stop := 1000
  step := 1000

def timePlan : QueryPlan :=
  instantPlan (.call .time [] none none)

def timeSubquery (range : Int64) : QueryPlan :=
  instantPlan (.subquery timePlan range 2000)

def selectorPlan (matchers : List (String × String)) : QueryPlan :=
  instantPlan (.vectorQuery ⟨matchers, none, none⟩)

/-- A call of `count_values` with a selector for its label. -/
def countPlan (matchers : List (String × String)) : QueryPlan :=
  instantPlan (.call .countValues [selectorPlan matchers, timePlan] none none)

/-- Two conditions that no series of the store has both. -/
def contradiction : List (String × String) :=
  [("job", "other"), ("job", "test")]

/-- A subquery of a selector that says the same twice. -/
def repeatedPlan : QueryPlan :=
  instantPlan
    (.subquery (selectorPlan [("job", "test"), ("job", "test")]) 2000 1000)

section Examples

theorem executePart_timePlan (ctx : StepContext) :
    exampleExecutor.executePart exampleStd timePlan ctx =
      pure (executeTime ctx) := by
  rw [timePlan, instantPlan, executePart,
    executePlan, executeCall, if_pos rfl]

theorem optimize_timePlan : optimize timePlan = pure timePlan := by
  rw [timePlan, instantPlan, optimize, optimizePlan, optimizeArgs, pure_bind,
    pure_bind]

theorem optimize_timeSubquery :
    optimize (timeSubquery 0) = pure (timeSubquery 1) := by
  rw [timeSubquery, instantPlan, optimize, optimizePlan, optimize_timePlan,
    pure_bind, pure_bind]
  rfl

theorem execute_timeSubquery
    {range : Int64} (short : (range / 2000).toUInt64.toNat = 0) :
    exampleExecutor.execute exampleStd (timeSubquery range) =
      pure {
        series :=
          (executeTime ⟨⟨1000 - range, 1000 - range⟩, 2000⟩).map
            (restamp (1000 - range))
        start := 1000
        stop := 1000
        step := 1000
      } := by
  have onlyStep :
      (1000 : Int64) - range + Int64.ofNat 0 * 2000 = 1000 - range := by
    simp
  rw [timeSubquery, instantPlan, execute,
    executePlan, executeSubquery, if_neg (by simp), short]
  simp only [zero_add, range_one, mapM_cons, mapM_nil,
    executePart_timePlan, pure_bind, onlyStep, flatten_singleton]

theorem optimizeVectorQuery_contradiction :
    optimizeVectorQuery ⟨contradiction, none, none⟩ =
      pure ⟨[("job", "test")], none, none⟩ := by
  have newest :
      eliminateRedundantConditions contradiction = pure [("job", "test")] :=
    Choice.anyOrder_singleton _
  rw [optimizeVectorQuery, newest, pure_bind]
  rfl

theorem optimize_selectorPlan :
    optimize (selectorPlan contradiction) =
      pure (selectorPlan [("job", "test")]) := by
  rw [selectorPlan, instantPlan, optimize, optimizePlan,
    optimizeVectorQuery_contradiction, pure_bind, pure_bind]
  rfl

theorem optimize_countPlan :
    optimize (countPlan contradiction) =
      pure (countPlan [("job", "test")]) := by
  rw [countPlan, instantPlan, optimize, optimizePlan, optimizeArgs,
    optimize_selectorPlan, pure_bind, optimizeArgs, optimize_timePlan,
    pure_bind, optimizeArgs]
  simp only [pure_bind]
  rfl

theorem execute_countPlan (matchers : List (String × String)) :
    exampleExecutor.execute exampleStd (countPlan matchers) =
      pure {
        series :=
          [singleSample 0
            [⟨labelOf (selectorPlan matchers).planType,
              formatValue exampleStd (timeValue 1000 / 1000)⟩] 1000 1]
        start := 1000
        stop := 1000
        step := 1000
      } := by
  have calls :
      ∀ ctx,
        exampleExecutor.executePlan exampleStd (countPlan matchers).planType
            ctx =
          exampleExecutor.executePart exampleStd timePlan ctx >>=
            (executeCountValues exampleStd
              (labelOf (selectorPlan matchers).planType)).apply ctx := by
    intro ctx
    rw [countPlan, instantPlan, executePlan]
    rfl
  rw [execute, calls, executePart_timePlan, pure_bind,
    executeTime, executeCountValues_single _ _ _ rfl, pure_bind]
  rfl

end Examples

/-!
## What optimization preserves and changes
-/

/--
For every plan whose executed parts do not contradict themselves, and every
store whose index has no id twice in a set, as in every store that is reached:
optimization succeeds, and every plan it may return has the outcomes of the plan
with ranges and resolutions of at least 1 ms.  Those are the outcomes of the
plan itself when its subqueries have such ranges and resolutions.
-/
theorem optimize_preserves_outcomes (std : StdFloat) (executor : QueryExecutor)
    (distinct : executor.memstore.head.index.Distinct) (plan : QueryPlan)
    (unambiguous : EachExecutedPart Unambiguous plan) :
    (optimize plan).outcomes.Nonempty ∧
      ∀ outcome ∈ (optimize plan).outcomes,
        ∃ optimized,
          outcome = .ok optimized ∧
            executor.execute std optimized =
                executor.execute std plan.atLeastOneMs ∧
              (EachExecutedPart AtLeastOneMs plan →
                executor.execute std optimized =
                  executor.execute std plan) := by
  refine ⟨nonempty_optimize plan, fun outcome isOutcome => ?_⟩
  obtain ⟨planType, start, stop, step⟩ := plan
  rw [EachExecutedPart] at unambiguous
  obtain ⟨⟨optimizedType, _, _, _⟩, isOk, ⟨preserves, rfl, rfl, rfl⟩⟩ :=
    @ensures_optimize std executor distinct _ outcome isOutcome
  have sameOutcomes := preserves.executes unambiguous
  refine ⟨_, isOk, ?_, fun longEnough => ?_⟩
  · rw [QueryPlan.atLeastOneMs, execute, execute,
      sameOutcomes]
  · rw [EachExecutedPart] at longEnough
    rw [execute, execute, sameOutcomes,
      executePlan_atLeastOneMs planType longEnough]

theorem repeated_condition_dropped :
    ∃ optimized,
      .ok optimized ∈ (optimize repeatedPlan).outcomes ∧
        exampleExecutor.execute exampleStd optimized =
          exampleExecutor.execute exampleStd repeatedPlan := by
  have run :
      Run (HeadStep SipHash.hash) (HeadBlock.new ⟨1⟩)
        [.getOrCreateSeries Json.labels,
          .addSample Json.seriesId ⟨1000, 1⟩] exampleHead :=
    .cons rfl (.single rfl)
  have consistent : Consistent [("job", "test"), ("job", "test")] := by
    simp [Consistent]
  obtain ⟨⟨outcome, isOutcome⟩, preserved⟩ :=
    optimize_preserves_outcomes exampleStd exampleExecutor
      (HeadBlock.Agrees.ofRun run).exact.distinct repeatedPlan
      ⟨trivial, consistent⟩
  obtain ⟨optimized, rfl, _, unchanged⟩ := preserved outcome isOutcome
  have longEnough : (1 : Int64) ≤ 2000 ∧ (1 : Int64) ≤ 1000 := by decide
  exact ⟨optimized, isOutcome, unchanged ⟨longEnough, trivial⟩⟩

def SameUpToOrder (first second : Except Fault QueryResult) : Prop :=
  match first, second with
  | .ok first, .ok second => first.series.Perm second.series
  | first, second => first = second

/-- Every outcome after optimization is one from before, up to order. -/
def Unchanged (std : StdFloat) (executor : QueryExecutor) (plan : QueryPlan) :
    Prop :=
  ∀ optimized,
    .ok optimized ∈ (optimize plan).outcomes →
      ∀ after ∈ (executor.execute std optimized).outcomes,
        ∃ before ∈ (executor.execute std plan).outcomes,
          SameUpToOrder before after

/--
A subquery without a range is asked one millisecond earlier, a selector that
selects nothing selects a series, and values are counted under another label.
-/
theorem optimize_changes_plans :
    ¬ Unchanged exampleStd exampleExecutor (timeSubquery 0) ∧
      ¬ Unchanged exampleStd exampleExecutor (selectorPlan contradiction) ∧
        ¬ Unchanged exampleStd exampleExecutor (countPlan contradiction) := by
  refine ⟨fun unchanged => ?_, fun unchanged => ?_, fun unchanged => ?_⟩
  · obtain ⟨before, isBefore, same⟩ :=
      unchanged (timeSubquery 1) (by rw [optimize_timeSubquery]; rfl) _
        (by rw [execute_timeSubquery (by decide)]; rfl)
    rw [execute_timeSubquery (by decide)] at isBefore
    cases isBefore
    exact absurd (List.Perm.singleton_eq same) (by decide)
  · have finds :
        ∀ matchers,
          (exampleExecutor.execute exampleStd
              (selectorPlan matchers)).Ensures fun result =>
            result.series.Perm
              (exampleExecutor.memstore.queryWithDownsample matchers 1000 1000
                (Columnstore.DownsampleLevel.fromQueryRange
                  (1000 - 1000))) := fun matchers =>
      Choice.ensures_bind (exampleExecutor.ensures_executeVectorQuery _ _)
        fun series reordered => Choice.ensures_pure reordered
    obtain ⟨after, isAfter⟩ :=
      exampleExecutor.nonempty_execute exampleStd
        (selectorPlan [("job", "test")])
    obtain ⟨before, isBefore, same⟩ :=
      unchanged (selectorPlan [("job", "test")])
        (by rw [optimize_selectorPlan]; rfl) after isAfter
    obtain ⟨found, rfl, isFound⟩ := finds _ after isAfter
    obtain ⟨nothing, rfl, isNothing⟩ := finds _ before isBefore
    have sameLength := ((isNothing.symm.trans same).trans isFound).length_eq
    revert sameLength
    decide +kernel
  · obtain ⟨before, isBefore, same⟩ :=
      unchanged _ (by rw [optimize_countPlan]; rfl) _
        (by rw [execute_countPlan]; rfl)
    rw [execute_countPlan] at isBefore
    cases isBefore
    have sameLabels :=
      congrArg TimeSeries.labels
        (singleton_inj.mp (List.Perm.singleton_eq same))
    have sameName := congrArg Label.name (singleton_inj.mp sameLabels)
    exact absurd sameName (by decide)

end ChronoDB.Query
