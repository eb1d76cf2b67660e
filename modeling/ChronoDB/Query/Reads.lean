import ChronoDB.Memstore.Reading
import ChronoDB.Query.Preservation

namespace ChronoDB.Query

open Library Memstore QueryExecutor

/-!
# What a plan reads

Executing a plan asks the store for the selections of its vector queries, each
in the window of its step.  Its outcomes depend on the store only through the
series that these selections return.
-/

def VectorQueryPlan.selection (plan : VectorQueryPlan) (ctx : StepContext) :
    Selection where
  matchers := plan.matchers
  start := (plan.finalRange ctx.toExecutionContext).1
  stop := (plan.finalRange ctx.toExecutionContext).2

theorem executesSeriesParallel_in_order
    (executor : ParallelQueryExecutor) (store : MemStore)
    (start stop : Timestamp) (level : Columnstore.DownsampleLevel)
    (seriesIds : List TimeSeriesId) :
    executor.ExecutesSeriesParallel (processFn store start stop level)
      seriesIds
      (.ok (seriesIds.filterMap (store.querySeries start stop level))) := by
  rw [ParallelQueryExecutor.ExecutesSeriesParallel]
  split
  · rename_i nothing
    rw [nothing]
    rfl
  · obtain ⟨actions, run⟩ :=
      TaskPool.exists_run_of_perm executor.limits
        (ParallelQueryExecutor.message (processFn store start stop level))
        (.refl seriesIds) []
    refine ⟨actions, _, run, ⟨rfl, rfl, rfl⟩, ?_⟩
    rw [List.nil_append, filterMap_message, collect_ok, List.nil_append]

namespace QueryExecutor

theorem executeVectorQuery_eq_anyOrder
    (executor : QueryExecutor) (plan : VectorQueryPlan) (ctx : StepContext) :
    executor.executeVectorQuery plan ctx =
      Choice.anyOrder ((plan.selection ctx).read executor.memstore) := by
  refine congrArg Choice.ofOutcomes (Set.ext fun outcome => ?_)
  constructor
  · intro executes
    obtain ⟨series, rfl, reordered⟩ :=
      executor.ensures_executeVectorQuery plan ctx outcome executes
    exact ⟨series, reordered, rfl⟩
  · rintro ⟨series, reordered, rfl⟩
    obtain ⟨seriesIds, isFound, rfl⟩ := exists_perm_filterMap reordered
    refine ⟨.new 1, .ok _, ?_, rfl⟩
    refine ⟨seriesIds, isFound, ?_⟩
    by_cases nothing : seriesIds = []
    · refine (if_pos nothing).mpr ?_
      rw [nothing]
      rfl
    · refine (if_neg nothing).mpr ?_
      by_cases parallel :
          executor.config.shouldUseParallel seriesIds.length
            ((plan.selection ctx).stop - (plan.selection ctx).start) = true
      · exact (if_pos parallel).mpr
          (executesSeriesParallel_in_order _ _ _ _ _ _)
      · exact (if_neg parallel).mpr ⟨seriesIds, _, isFound,
          executesQueryWithDownsample_iff.mpr rfl, rfl⟩

end QueryExecutor

/-!
## The selections of a plan
-/

/-- The steps of a subquery, unless it panics before the first. -/
def subquerySteps (range resolution : Int64) (ctx : StepContext) :
    List StepContext :=
  if resolution = 0 ∨ range = Int64.minValue ∧ resolution = -1 then
    []
  else
    (List.range ((range / resolution).toUInt64.toNat + 1)).map fun i =>
      let timestamp := ctx.stop - range + Int64.ofNat i * resolution
      {
        start := timestamp
        stop := timestamp
        step := resolution
      }

mutual

/-- A property of all selections that a plan reads. -/
def EachRead (holds : Selection → Prop) : PlanType → StepContext → Prop
  | .vectorQuery query, ctx => holds (query.selection ctx)
  | .matrixQuery vectorPlan _, ctx => holds (vectorPlan.selection ctx)
  | .subquery expr range resolution, ctx =>
    ∀ step ∈ subquerySteps range resolution ctx, EachReadPart holds expr step
  | .call func args _ _, ctx =>
    ∀ position,
      executedArgument func = some position → EachReadAt holds args position ctx
  | .binaryExpr _ lhs rhs, ctx =>
    EachReadPart holds lhs ctx ∧ EachReadPart holds rhs ctx
  | .unaryExpr _ expr, ctx => EachReadPart holds expr ctx
  | .aggregation _ expr _ _, ctx => EachReadPart holds expr ctx

def EachReadPart (holds : Selection → Prop) : QueryPlan → StepContext → Prop
  | ⟨planType, _, _, _⟩, ctx => EachRead holds planType ctx

def EachReadAt (holds : Selection → Prop) :
    List QueryPlan → ℕ → StepContext → Prop
  | [], _, _ => True
  | arg :: _, 0, ctx => EachReadPart holds arg ctx
  | _ :: rest, position + 1, ctx => EachReadAt holds rest position ctx

end

section Implications

variable {holds other : Selection → Prop}
mutual

theorem eachRead_imp
    (implies : ∀ selection, holds selection → other selection) :
    ∀ (plan : PlanType) (ctx : StepContext),
      EachRead holds plan ctx → EachRead other plan ctx
  | .vectorQuery query, ctx, each => implies _ each
  | .matrixQuery vectorPlan _, ctx, each => implies _ each
  | .subquery expr range resolution, ctx, each => by
    rw [EachRead] at each ⊢
    exact fun step isStep =>
      eachReadPart_imp implies expr step (each step isStep)
  | .call func args _ _, ctx, each => by
    rw [EachRead] at each ⊢
    exact fun position isExecuted =>
      eachReadAt_imp implies args position ctx (each position isExecuted)
  | .binaryExpr _ lhs rhs, ctx, each => by
    rw [EachRead] at each ⊢
    exact ⟨eachReadPart_imp implies lhs ctx each.1,
      eachReadPart_imp implies rhs ctx each.2⟩
  | .unaryExpr _ expr, ctx, each => by
    rw [EachRead] at each ⊢
    exact eachReadPart_imp implies expr ctx each
  | .aggregation _ expr _ _, ctx, each => by
    rw [EachRead] at each ⊢
    exact eachReadPart_imp implies expr ctx each

theorem eachReadPart_imp
    (implies : ∀ selection, holds selection → other selection) :
    ∀ (part : QueryPlan) (ctx : StepContext),
      EachReadPart holds part ctx → EachReadPart other part ctx
  | ⟨planType, _, _, _⟩, ctx, each => by
    rw [EachReadPart] at each ⊢
    exact eachRead_imp implies planType ctx each

theorem eachReadAt_imp
    (implies : ∀ selection, holds selection → other selection) :
    ∀ (args : List QueryPlan) (position : ℕ) (ctx : StepContext),
      EachReadAt holds args position ctx → EachReadAt other args position ctx
  | [], position, ctx, each => by
    rw [EachReadAt]
    trivial
  | arg :: _, 0, ctx, each => by
    rw [EachReadAt] at each ⊢
    exact eachReadPart_imp implies arg ctx each
  | _ :: rest, position + 1, ctx, each => by
    rw [EachReadAt] at each ⊢
    exact eachReadAt_imp implies rest position ctx each

end

end Implications

section Frames

variable (std : StdFloat) {config : ParallelConfig} {before after : MemStore}

/-- Both stores return the same series. -/
def SameRead (before after : MemStore) (selection : Selection) : Prop :=
  (selection.read before).Perm (selection.read after)

theorem anyOrder_congr
    {Item : Type} {items others : List Item} (same : items.Perm others) :
    (Choice.anyOrder items : Choice Fault (List Item)) =
      Choice.anyOrder others := by
  have sameOrders :
      {ordered : List Item | ordered.Perm items} =
        {ordered | ordered.Perm others} :=
    Set.ext fun ordered =>
      ⟨fun isOrder => isOrder.trans same,
        fun isOrder => isOrder.trans same.symm⟩
  rw [Choice.anyOrder, Choice.anyOrder, sameOrders]

theorem mapM_congr
    {Item Result : Type} {step other : Item → Choice Fault Result}
    {items : List Item} (same : ∀ item ∈ items, step item = other item) :
    items.mapM step = items.mapM other := by
  induction items with
  | nil => rfl
  | cons first rest inductionHypothesis =>
    obtain ⟨sameFirst, sameRest⟩ := List.forall_mem_cons.mp same
    rw [List.mapM_cons, List.mapM_cons, sameFirst, inductionHypothesis sameRest]

mutual

theorem executePlan_congr :
    ∀ (plan : PlanType) (ctx : StepContext),
      EachRead (SameRead before after) plan ctx →
        executePlan std ⟨before, config⟩ plan ctx =
          executePlan std ⟨after, config⟩ plan ctx
  | .vectorQuery query, ctx, same => by
    rw [executePlan, executePlan,
      executeVectorQuery_eq_anyOrder,
      executeVectorQuery_eq_anyOrder]
    exact anyOrder_congr same
  | .matrixQuery vectorPlan range, ctx, same => by
    rw [executePlan, executePlan,
      executeMatrixQuery, executeMatrixQuery,
      executeVectorQuery_eq_anyOrder,
      executeVectorQuery_eq_anyOrder]
    exact anyOrder_congr same
  | .subquery expr range resolution, ctx, same => by
    rw [executePlan, executePlan,
      executeSubquery, executeSubquery]
    split
    · rfl
    · rename_i steps
      rw [EachRead, subquerySteps, if_neg steps, List.forall_mem_map] at same
      refine congrArg (· >>= _) (mapM_congr fun i isStep => ?_)
      exact congrArg (· >>= _) (executePart_congr expr _ (same i isStep))
  | .call func args k quantile, ctx, same => by
    rw [EachRead] at same
    rw [executePlan, executePlan]
    refine executeCall_congr ?_ (fun position isExecuted => ?_) fun _ => rfl
    · rw [length_executeArgs, length_executeArgs]
    · exact executeArgs_congr args position ctx (same position isExecuted)
  | .binaryExpr op lhs rhs, ctx, same => by
    rw [EachRead] at same
    rw [executePlan, executePlan,
      executePart_congr lhs ctx same.1, executePart_congr rhs ctx same.2]
  | .unaryExpr op expr, ctx, same => by
    rw [EachRead] at same
    rw [executePlan, executePlan,
      executePart_congr expr ctx same]
  | .aggregation op expr grouping without, ctx, same => by
    rw [EachRead] at same
    rw [executePlan, executePlan,
      executePart_congr expr ctx same]

theorem executePart_congr :
    ∀ (part : QueryPlan) (ctx : StepContext),
      EachReadPart (SameRead before after) part ctx →
        executePart std ⟨before, config⟩ part ctx =
          executePart std ⟨after, config⟩ part ctx
  | ⟨planType, _, _, _⟩, ctx, same => by
    rw [EachReadPart] at same
    rw [executePart, executePart,
      executePlan_congr planType ctx same]

theorem executeArgs_congr :
    ∀ (args : List QueryPlan) (position : ℕ) (ctx : StepContext),
      EachReadAt (SameRead before after) args position ctx →
        (executeArgs std ⟨before, config⟩ args)[position]?.map
            (· ctx) =
          (executeArgs std ⟨after, config⟩ args)[position]?.map
            (· ctx)
  | [], position, ctx, same => by
    rw [executeArgs, executeArgs]
  | arg :: rest, 0, ctx, same => by
    rw [EachReadAt] at same
    rw [executeArgs, executeArgs,
      List.getElem?_cons_zero, List.getElem?_cons_zero, Option.map_some,
      Option.map_some, executePart_congr arg ctx same]
  | arg :: rest, position + 1, ctx, same => by
    rw [EachReadAt] at same
    rw [executeArgs, executeArgs,
      List.getElem?_cons_succ, List.getElem?_cons_succ]
    exact executeArgs_congr rest position ctx same

end

end Frames

end ChronoDB.Query
