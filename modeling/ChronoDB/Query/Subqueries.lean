import ChronoDB.Query.Reads

namespace ChronoDB.Query

open Library List

/-!
# The series of a subquery

The series of every step are appended to those of the steps before, with the
timestamp of the step on all of their samples.  Series with the same labels are not
merged.
-/

/-!
## The timestamps of the steps
-/

section Steps

variable {range resolution : Int64} {ctx : StepContext} {i : ℕ}

/-- The number of the last step. -/
def numSteps (range resolution : Int64) : ℕ :=
  (range / resolution).toUInt64.toNat

/-- The time of a step, with the arithmetic of the code. -/
def stepTimestamp (range resolution : Int64) (ctx : StepContext) (i : ℕ) :
    Timestamp :=
  ctx.stop - range + Int64.ofNat i * resolution

def stepTime (range resolution : Int64) (ctx : StepContext) (i : ℕ) : ℤ :=
  ctx.stop.toInt - range.toInt + i * resolution.toInt

/-- The window of a step. -/
def stepContext (range resolution : Int64) (ctx : StepContext) (i : ℕ) :
    StepContext where
  start := stepTimestamp range resolution ctx i
  stop := stepTimestamp range resolution ctx i
  step := resolution

structure IsStepTime
    (range resolution : Int64) (ctx : StepContext) (timestamp : Timestamp) :
    Prop where
  isStep : ∃ i, timestamp.toInt = stepTime range resolution ctx i
  fromStart : ctx.stop.toInt - range.toInt ≤ timestamp.toInt
  toStop : timestamp.toInt ≤ ctx.stop.toInt

theorem toInt_stepTimestamp :
    (stepTimestamp range resolution ctx i).toInt =
      (stepTime range resolution ctx i).bmod (2 ^ 64) := by
  rw [stepTimestamp, stepTime]
  simp

theorem mul_resolution_le
    (positive : 0 < resolution.toInt) (isRange : 0 ≤ range.toInt)
    (isStep : i ≤ numSteps range resolution) :
    i * resolution.toInt ≤ range.toInt := by
  have notMinusOne : resolution ≠ -1 := by
    rintro rfl
    exact absurd positive (by decide)
  have quotient :
      (range / resolution).toInt = range.toInt / resolution.toInt := by
    rw [Int64.toInt_div_of_ne_right _ _ notMinusOne,
      Int.tdiv_eq_ediv_of_nonneg isRange]
  have notNegative : 0 ≤ range.toInt / resolution.toInt :=
    Int.ediv_nonneg isRange positive.le
  have steps :
      (numSteps range resolution : ℤ) = range.toInt / resolution.toInt := by
    rw [numSteps,
      Int64.toNat_toUInt64_of_le
        (Int64.le_iff_toInt_le.mpr (quotient ▸ notNegative)),
      Int64.toNatClampNeg, quotient, Int.toNat_of_nonneg notNegative]
  refine (Int.le_ediv_iff_mul_le positive).mp ?_
  rw [← steps]
  exact Int.ofNat_le.mpr isStep

theorem isStepTime_iff
    (positive : 0 < resolution) (isStep : i ≤ numSteps range resolution) :
    IsStepTime range resolution ctx (stepTimestamp range resolution ctx i) ↔
      0 ≤ range.toInt ∧ -2 ^ 63 ≤ stepTime range resolution ctx i := by
  have isPositive : 0 < resolution.toInt := Int64.lt_iff_toInt_lt.mp positive
  have stopBound := ctx.stop.toInt_lt
  have rangeBound := range.toInt_lt
  have startBound := ctx.stop.le_toInt
  constructor
  · intro isStepTime
    have isRange : 0 ≤ range.toInt := by
      have := isStepTime.fromStart
      have := isStepTime.toStop
      omega
    refine ⟨isRange, ?_⟩
    by_contra below
    have inRange := mul_resolution_le isPositive isRange isStep
    have notBefore : 0 ≤ i * resolution.toInt :=
      Int.mul_nonneg (Int.natCast_nonneg i) isPositive.le
    have toStop := isStepTime.toStop
    -- a time below all timestamps comes back after the end of the range
    have wraps :
        (stepTimestamp range resolution ctx i).toInt =
          stepTime range resolution ctx i + 2 ^ 64 := by
      rw [toInt_stepTimestamp, ← Int.add_bmod_right]
      refine Int.bmod_eq_of_le ?_ ?_
      · rw [stepTime]
        omega
      · omega
    rw [wraps, stepTime] at toStop
    omega
  · rintro ⟨isRange, representable⟩
    have inRange := mul_resolution_le isPositive isRange isStep
    have notBefore : 0 ≤ i * resolution.toInt :=
      Int.mul_nonneg (Int.natCast_nonneg i) isPositive.le
    have isExact :
        (stepTimestamp range resolution ctx i).toInt =
          stepTime range resolution ctx i := by
      rw [toInt_stepTimestamp]
      refine Int.bmod_eq_of_le ?_ ?_
      · exact representable
      · rw [stepTime]
        omega
    refine ⟨⟨i, isExact⟩, ?_, ?_⟩
    · rw [isExact, stepTime]
      omega
    · rw [isExact, stepTime]
      omega

end Steps

/-!
## One series for each set of labels
-/

/-- What the steps of one execution return. -/
def StepResults (inner : StepContext → Execution) (range resolution : Int64)
    (ctx : StepContext) (results : List (List TimeSeries)) :
    Prop :=
  List.Forall₂
    (fun i series =>
      .ok series ∈ (inner (stepContext range resolution ctx i)).outcomes)
    (List.range (numSteps range resolution + 1)) results

def stampedSeries (range resolution : Int64) (ctx : StepContext)
    (results : List (List TimeSeries)) :
    List TimeSeries :=
  ((List.range (numSteps range resolution + 1)).zip results).flatMap
    fun step =>
      step.2.map (restamp (stepTimestamp range resolution ctx step.1))

/--
There is one series for each set of labels, and its samples ascend at timestamps
of steps.
-/
structure MergedSeries
    (range resolution : Int64) (ctx : StepContext) (series : List TimeSeries) :
    Prop where
  oneEach : (series.map fun ts => ts.labels.toFinset).Nodup
  ascending :
    ∀ ts ∈ series,
      ts.samples.Pairwise fun first second =>
        first.timestamp < second.timestamp
  atSteps :
    ∀ ts ∈ series, ∀ sample ∈ ts.samples,
      IsStepTime range resolution ctx sample.timestamp

/--
No two series of all steps have the same set of labels, none has two samples, and
a step at which a series has one is a step of a range that is not negative, at a
time that is representable.
-/
structure StepsApart (range resolution : Int64) (ctx : StepContext)
    (results : List (List TimeSeries)) :
    Prop where
  distinct : (results.flatten.map fun ts => ts.labels.toFinset).Nodup
  single : ∀ ts ∈ results.flatten, ts.samples.length ≤ 1
  representable :
    ∀ step ∈ (List.range (numSteps range resolution + 1)).zip results,
      (∃ ts ∈ step.2, ts.samples ≠ []) →
        0 ≤ range.toInt ∧ -2 ^ 63 ≤ stepTime range resolution ctx step.1

section Merging

variable {inner : StepContext → Execution}
variable {range resolution : Int64} {ctx : StepContext}
variable {results : List (List TimeSeries)}

theorem ok_mem_executeSubquery_iff
    (positive : 0 < resolution) {series : List TimeSeries} :
    .ok series ∈ (executeSubquery inner range resolution ctx).outcomes ↔
      ∃ results, StepResults inner range resolution ctx results ∧
        stampedSeries range resolution ctx results = series := by
  have noPanic :
      ¬(resolution = 0 ∨ range = Int64.minValue ∧ resolution = -1) := by
    rintro (rfl | ⟨_, rfl⟩) <;> exact absurd positive (by decide)
  have eachStep :
      ∀ i out,
        .ok out ∈
            (do
              let series ← inner (stepContext range resolution ctx i)
              pure
                (series.map (restamp (stepTimestamp range resolution ctx i))) :
                Execution).outcomes ↔
          ∃ series,
            .ok series ∈ (inner (stepContext range resolution ctx i)).outcomes ∧
              series.map (restamp (stepTimestamp range resolution ctx i)) =
                out := by
    intro i out
    rw [Choice.ok_mem_outcomes_bind]
    refine exists_congr fun series => and_congr_right fun _ => ?_
    exact ⟨fun isOut => (Except.ok.inj isOut).symm, fun isOut => isOut ▸ rfl⟩
  rw [executeSubquery, if_neg noPanic, Choice.ok_mem_outcomes_bind]
  constructor
  · rintro ⟨outs, isMapped, isFlat⟩
    have stepsReturn := Choice.ok_mem_outcomes_mapM_iff.mp isMapped
    obtain ⟨results, areResults, rfl⟩ :=
      forall₂_exists_iff.mp
        (stepsReturn.imp fun i out isOut => (eachStep i out).mp isOut)
    exact ⟨results, areResults, (Except.ok.inj isFlat).symm⟩
  · rintro ⟨results, areResults, rfl⟩
    refine ⟨_, Choice.ok_mem_outcomes_mapM_iff.mpr ?_, rfl⟩
    exact (forall₂_exists_iff.mpr ⟨results, areResults, rfl⟩).imp
      fun i out isOut => (eachStep i out).mpr isOut

theorem labels_stampedSeries
    (areResults : StepResults inner range resolution ctx results) :
    (stampedSeries range resolution ctx results).map TimeSeries.labels =
      results.flatten.map TimeSeries.labels := by
  have kept :
      ∀ i (series : List TimeSeries),
        (series.map
            (restamp (stepTimestamp range resolution ctx i))).map
              TimeSeries.labels =
          series.map TimeSeries.labels := by
    intro i series
    rw [map_map]
    rfl
  rw [StepResults] at areResults
  rw [stampedSeries]
  generalize List.range (numSteps range resolution + 1) = steps at areResults ⊢
  induction areResults with
  | nil => rfl
  | cons _ _ inductionHypothesis =>
    rw [zip_cons_cons, flatMap_cons, map_append, kept,
      inductionHypothesis, flatten_cons, map_append]

theorem mem_stampedSeries_iff {ts : TimeSeries} :
    ts ∈ stampedSeries range resolution ctx results ↔
      ∃ step ∈ (List.range (numSteps range resolution + 1)).zip results,
        ∃ original ∈ step.2,
          restamp (stepTimestamp range resolution ctx step.1) original = ts := by
  rw [stampedSeries, mem_flatMap]
  simp only [mem_map]

theorem mem_flatten_iff
    (areResults : StepResults inner range resolution ctx results)
    {ts : TimeSeries} :
    ts ∈ results.flatten ↔
      ∃ step ∈ (List.range (numSteps range resolution + 1)).zip results,
        ts ∈ step.2 := by
  have areAll :
      ((List.range (numSteps range resolution + 1)).zip results).map Prod.snd =
        results :=
    map_snd_zip areResults.length_eq.ge
  conv_lhs => rw [← areAll]
  rw [mem_flatten]
  simp only [mem_map, exists_exists_and_eq_and]

theorem pairwise_restamp_iff (timestamp : Timestamp) (ts : TimeSeries) :
    ((restamp timestamp ts).samples.Pairwise fun first second =>
        first.timestamp < second.timestamp) ↔
      ts.samples.length ≤ 1 := by
  rw [restamp, pairwise_map]
  simp only [Int64.lt_irrefl]
  match ts.samples with
  | [] => simp
  | [_] => simp
  | _ :: _ :: _ =>
    exact iff_of_false
      (fun never => rel_of_pairwise_cons never mem_cons_self)
      (by simp)

theorem mergedSeries_iff (positive : 0 < resolution)
    (areResults : StepResults inner range resolution ctx results) :
    MergedSeries range resolution ctx
        (stampedSeries range resolution ctx results) ↔
      StepsApart range resolution ctx results := by
  have sameLabels :
      ((stampedSeries range resolution ctx results).map fun ts =>
          ts.labels.toFinset) =
        results.flatten.map fun ts => ts.labels.toFinset := by
    have mapped := congrArg (List.map List.toFinset)
      (labels_stampedSeries areResults)
    rw [map_map, map_map] at mapped
    exact mapped
  have stepTime :
      ∀ step ∈ (List.range (numSteps range resolution + 1)).zip results,
        IsStepTime range resolution ctx
            (stepTimestamp range resolution ctx step.1) ↔
          0 ≤ range.toInt ∧ -2 ^ 63 ≤ stepTime range resolution ctx step.1 := by
    intro step isStep
    have inRange := mem_range.mp (of_mem_zip isStep).1
    exact isStepTime_iff positive (Nat.le_of_lt_succ inRange)
  constructor
  · intro merged
    refine ⟨sameLabels ▸ merged.oneEach, fun ts isSeries => ?_,
      fun step isStep => ?_⟩
    · obtain ⟨step, isStep, isThere⟩ := (mem_flatten_iff areResults).mp isSeries
      exact (pairwise_restamp_iff _ ts).mp
        (merged.ascending _
          (mem_stampedSeries_iff.mpr ⟨step, isStep, ts, isThere, rfl⟩))
    · rintro ⟨ts, isThere, hasSamples⟩
      obtain ⟨sample, isSample⟩ := exists_mem_of_ne_nil _ hasSamples
      exact (stepTime step isStep).mp
        (merged.atSteps _
          (mem_stampedSeries_iff.mpr ⟨step, isStep, ts, isThere, rfl⟩) _
          (mem_map.mpr ⟨sample, isSample, rfl⟩))
  · intro apart
    refine ⟨sameLabels ▸ apart.distinct, fun ts isSeries => ?_,
      fun ts isSeries sample isSample => ?_⟩
    · obtain ⟨step, isStep, original, isThere, rfl⟩ :=
        mem_stampedSeries_iff.mp isSeries
      exact (pairwise_restamp_iff _ original).mpr
        (apart.single original
          ((mem_flatten_iff areResults).mpr ⟨step, isStep, isThere⟩))
    · obtain ⟨step, isStep, original, isThere, rfl⟩ :=
        mem_stampedSeries_iff.mp isSeries
      obtain ⟨before, isBefore, rfl⟩ := mem_map.mp isSample
      exact (stepTime step isStep).mpr
        (apart.representable step isStep
          ⟨original, isThere, ne_nil_of_mem isBefore⟩)

end Merging

/-- Every execution of a subquery returns merged series. -/
def MergesSteps (std : StdFloat) (executor : QueryExecutor) (expr : QueryPlan)
    (range resolution : Int64) (ctx : StepContext) :
    Prop :=
  ∀ series,
    .ok series ∈
        (executor.executePlan std (.subquery expr range resolution)
          ctx).outcomes →
      MergedSeries range resolution ctx series

/--
Every execution of a subquery returns one series for each set of labels, with
ascending samples at the timestamps of steps, exactly when the steps of every
execution are apart.
-/
theorem subquery_merges_iff (std : StdFloat) (executor : QueryExecutor)
    (expr : QueryPlan) (range : Int64) {resolution : Int64}
    (positive : 0 < resolution) (ctx : StepContext) :
    MergesSteps std executor expr range resolution ctx ↔
      ∀ results,
        StepResults (executor.executePart std expr) range resolution ctx
            results →
          StepsApart range resolution ctx results := by
  rw [MergesSteps, QueryExecutor.executePlan]
  simp only [ok_mem_executeSubquery_iff positive]
  constructor
  · intro merges results areResults
    exact (mergedSeries_iff positive areResults).mp
      (merges _ ⟨results, areResults, rfl⟩)
  · rintro apart _ ⟨results, areResults, rfl⟩
    exact (mergedSeries_iff positive areResults).mpr (apart results areResults)

theorem stepResults_time_iff {range resolution : Int64} {ctx : StepContext}
    {results : List (List TimeSeries)} :
    StepResults (exampleExecutor.executePart exampleStd timePlan) range
        resolution ctx results ↔
      (List.range (numSteps range resolution + 1)).map
          (fun i => executeTime (stepContext range resolution ctx i)) =
        results := by
  have returns :
      ∀ i series,
        .ok series ∈
            (exampleExecutor.executePart exampleStd timePlan
              (stepContext range resolution ctx i)).outcomes ↔
          executeTime (stepContext range resolution ctx i) = series := by
    intro i series
    rw [executePart_timePlan, Choice.outcomes_pure, Set.mem_singleton_iff,
      Except.ok.injEq, eq_comm]
  simp only [StepResults, returns]
  rw [← List.forall₂_map_left_iff, List.forall₂_eq_eq_eq]

/-- A subquery of the time with one step returns one series. -/
theorem one_step_is_merged :
    MergesSteps exampleStd exampleExecutor timePlan 0 2000
      ⟨⟨1000, 1000⟩, 1000⟩ :=
  (subquery_merges_iff exampleStd exampleExecutor timePlan 0 (by decide)
    ⟨⟨1000, 1000⟩, 1000⟩).mpr fun results areResults => by
      rw [← stepResults_time_iff.mp areResults]
      exact ⟨by decide, by decide, by decide⟩

theorem two_steps_are_not_merged :
    ¬MergesSteps exampleStd exampleExecutor timePlan 2000 2000
      ⟨⟨1000, 1000⟩, 1000⟩ := by
  intro merges
  have areResults :=
    @stepResults_time_iff 2000 2000 ⟨⟨1000, 1000⟩, 1000⟩ _ |>.mpr rfl
  have merged :=
    (mergedSeries_iff (by decide) areResults).mp
      (merges _
        ((ok_mem_executeSubquery_iff (by decide)).mpr ⟨_, areResults, rfl⟩))
  exact absurd merged.distinct (by decide)

end ChronoDB.Query
