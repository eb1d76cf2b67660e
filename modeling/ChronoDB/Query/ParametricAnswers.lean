import ChronoDB.Library.OrderStatistics
import ChronoDB.Query.CacheTransparency
import ChronoDB.Query.Parametric

namespace ChronoDB.Query

open Library Text Memstore List QueryPlanner ParametricCall

/-!
# What aggregations with a parameter return

Execution has functions for `topk`, `bottomk` and `quantile`, which calls would
reach; an aggregation with one of these names fails on the first sample.  So no
evaluation returns a sample, whatever the selector selects.
-/

/-!
## The samples that are asked for
-/

def VectorSelector.queryPlan (selector : VectorSelector) :
    VectorQueryPlan where
  matchers := selector.conditions
  atTimestamp := selector.atModifier.map AtModifier.timestamp
  offset := selector.offset

def VectorSelector.selectedSeries
    (selector : VectorSelector) (store : MemStore) (ctx : StepContext) :
    List TimeSeries :=
  (selector.queryPlan.selection ctx).read store

def VectorSelector.selectedSamples
    (selector : VectorSelector) (store : MemStore) (ctx : StepContext) :
    List Sample :=
  (selector.selectedSeries store ctx).flatMap TimeSeries.samples

/-- Some of the samples, as many as there are up to `k`, that no other precedes. -/
def AreFirst
    (precedes : Value → Value → Prop) (k : ℕ) (samples result : List Sample) :
    Prop :=
  ∃ others,
    samples.Perm (result ++ others) ∧
      result.length = min k samples.length ∧
      ∀ chosen ∈ result, ∀ other ∈ others, ¬precedes other.value chosen.value

def IsQuantile (q : Value) (samples result : List Sample) : Prop :=
  if samples = [] then result = []
  else
    ∃ value,
      quantileOf q (sortByKey id (samples.map Sample.value)) = some value ∧
        result.map Sample.value = [value]

/-- The samples that a call should return. -/
def ParametricCall.Answers
    (call : ParametricCall) (samples result : List Sample) :
    Prop :=
  match call with
  | .topk k _ => AreFirst (fun first second => second < first) k samples result
  | .bottomk k _ =>
    AreFirst (fun first second => first < second) k samples result
  | .quantile q _ => IsQuantile q.value samples result

theorem ParametricCall.answers_nil_iff
    {call : ParametricCall} {samples : List Sample} :
    call.Answers samples [] ↔ samples = [] := by
  have first :
      ∀ (precedes : Value → Value → Prop) {k : ℕ},
        1 ≤ k → (AreFirst precedes k samples [] ↔ samples = []) := by
    intro precedes k positive
    constructor
    · rintro ⟨_, _, isLength, _⟩
      rw [length_nil] at isLength
      exact eq_nil_of_length_eq_zero (by omega)
    · rintro rfl
      exact ⟨[], .refl [], by simp, by simp⟩
  cases call with
  | topk k positive =>
    exact first (fun first second => second < first) positive
  | bottomk k positive =>
    exact first (fun first second => first < second) positive
  | quantile q atMostOne =>
    rw [Answers, IsQuantile]
    split
    · rename_i noSamples
      exact iff_of_true rfl noSamples
    · rename_i someSamples
      refine iff_of_false ?_ someSamples
      rintro ⟨value, _, isResult⟩
      cases isResult

variable {quantile : Value} {values : List Value} {selector : VectorSelector}

theorem samples_ne_nil_of_mem_selectedSeries
    {store : MemStore} {ctx : StepContext} {ts : TimeSeries}
    (member : ts ∈ selector.selectedSeries store ctx) :
    ts.samples ≠ [] := by
  obtain ⟨seriesId, _, isQueried⟩ := mem_filterMap.mp member
  rw [MemStore.querySeries] at isQueried
  split at isQueried
  · cases isQueried
  · split at isQueried
    · cases isQueried
    · split at isQueried
      · cases isQueried
      · dsimp only at isQueried
        split at isQueried
        · cases isQueried
        · rename_i downsampled
          cases isQueried
          exact downsampled

theorem selectedSamples_eq_nil_iff {store : MemStore} {ctx : StepContext} :
    selector.selectedSamples store ctx = [] ↔
      selector.selectedSeries store ctx = [] := by
  rw [VectorSelector.selectedSamples, flatMap_eq_nil_iff]
  constructor
  · intro noSamples
    refine eq_nil_iff_forall_not_mem.mpr fun ts member => ?_
    exact samples_ne_nil_of_mem_selectedSeries member (noSamples ts member)
  · intro noSeries ts member
    rw [noSeries] at member
    cases member

/-!
## Executing the aggregation
-/

section Execution

variable {float : StdFloat} {op : Function}

theorem samples_eq_nil_of_aggregateGroup
    (unsupported : ∀ values, aggregateValues float op values = none)
    {key : List (String × String)} {series : List TimeSeries}
    {result : TimeSeries}
    (isOutcome :
      .ok result ∈ (aggregateGroup float op key series).outcomes) :
    ∀ ts ∈ series, ts.samples = [] := by
  rw [aggregateGroup, Choice.ok_mem_outcomes_bind] at isOutcome
  obtain ⟨timestamps, isOrder, isOutcome⟩ := isOutcome
  obtain ⟨samples, isMapped, _⟩ := Choice.ok_mem_outcomes_bind.mp isOutcome
  have noTimestamp : ∀ timestamp ∈ timestamps, False := by
    intro timestamp member
    obtain ⟨sample, isSample⟩ :=
      Choice.exists_of_mem_outcomes_mapM isMapped timestamp member
    rw [unsupported] at isSample
    cases isSample
  obtain ⟨_, reordered, same⟩ := isOrder
  cases same
  intro ts member
  refine eq_nil_iff_forall_not_mem.mpr fun sample isSample => ?_
  refine noTimestamp sample.timestamp (reordered.mem_iff.mpr ?_)
  rw [allTimestamps, mem_dedup, mem_flatMap]
  exact ⟨ts, member, mem_map_of_mem isSample⟩

theorem eq_nil_of_executeAggregation
    (unsupported : ∀ values, aggregateValues float op values = none)
    {grouping : List String} {without : Bool} {series result : List TimeSeries}
    (shown : ∀ ts ∈ series, ts.samples ≠ [])
    (isOutcome :
      .ok result ∈
        (executeAggregation float op grouping without series).outcomes) :
    series = [] ∧ result = [] := by
  rw [executeAggregation] at isOutcome
  split at isOutcome
  · rename_i noSeries
    cases isOutcome
    exact ⟨noSeries, rfl⟩
  · rename_i someSeries
    obtain ⟨keys, isOrder, isOutcome⟩ :=
      Choice.ok_mem_outcomes_bind.mp isOutcome
    obtain ⟨_, reordered, same⟩ := isOrder
    cases same
    obtain ⟨ts, member⟩ := exists_mem_of_ne_nil _ someSeries
    have isKey : groupKey grouping without ts ∈ keys := by
      rw [reordered.mem_iff, mem_dedup]
      exact mem_map_of_mem member
    obtain ⟨group, isGroup⟩ :=
      Choice.exists_of_mem_outcomes_mapM isOutcome _ isKey
    have inGroup :
        ts ∈ series.filter fun other =>
          groupKey grouping without other = groupKey grouping without ts := by
      rw [mem_filter]
      exact ⟨member, decide_eq_true rfl⟩
    exact absurd
      (samples_eq_nil_of_aggregateGroup unsupported isGroup ts inGroup)
      (shown ts member)

end Execution

/-!
## Evaluating the text
-/

theorem exists_planMatchers {matchers : List Matcher}
    (equal : ∀ matcher ∈ matchers, matcher.op = .equal) :
    ∃ planned, planMatchers matchers = .ok planned := by
  induction matchers with
  | nil => exact ⟨[], rfl⟩
  | cons first rest inductionHypothesis =>
    obtain ⟨firstEqual, restEqual⟩ := forall_mem_cons.mp equal
    obtain ⟨planned, isPlanned⟩ := inductionHypothesis restEqual
    refine ⟨(first.name, first.value) :: planned, ?_⟩
    rw [planMatchers, firstEqual, isPlanned]
    rfl

theorem op_of_parseVectorSelector {std : StdText} {text : Text}
    (parsed : parseVectorSelector std text = .ok selector) :
    ∀ matcher ∈ selector.matchers, matcher.op = .equal := by
  have baseEqual :
      ∀ {base : Text} {name : Option String} {matchers : List Matcher},
        parseBase base = .ok (name, matchers) →
          ∀ matcher ∈ matchers, matcher.op = .equal := by
    intro base name matchers isBase
    rw [parseBase] at isBase
    split at isBase
    · cases isBase
      exact forall_mem_nil _
    · obtain ⟨_, _, isBase⟩ := bind_eq_ok_iff.mp isBase
      obtain ⟨matchersStr, _, isBase⟩ := bind_eq_ok_iff.mp isBase
      obtain ⟨read, isRead, isBase⟩ := bind_eq_ok_iff.mp isBase
      have isMatchers : read = matchers := by
        split at isBase
        · cases isBase
          rfl
        · cases isBase
          rfl
      rw [← isMatchers]
      exact parseParts_op isRead
  rw [parseVectorSelector] at parsed
  obtain ⟨⟨offset, withoutOffset⟩, _, parsed⟩ := bind_eq_ok_iff.mp parsed
  obtain ⟨cut, _, parsed⟩ := bind_eq_ok_iff.mp parsed
  split at parsed
  · obtain ⟨⟨name, matchers⟩, isBase, parsed⟩ := bind_eq_ok_iff.mp parsed
    cases parsed
    exact baseEqual isBase
  · obtain ⟨_, _, parsed⟩ := bind_eq_ok_iff.mp parsed
    obtain ⟨⟨name, matchers⟩, isBase, parsed⟩ := bind_eq_ok_iff.mp parsed
    cases parsed
    exact baseEqual isBase

theorem planExpr_aggregation
    (equal : ∀ matcher ∈ selector.matchers, matcher.op = .equal) (op : Function)
    (grouping : List String) (without : Bool) :
    planExpr
        (.aggregation op (.vectorSelector selector) grouping without) =
      .ok
        (.aggregation op
          (part (.vectorQuery selector.queryPlan) 0) grouping
          without) := by
  obtain ⟨planned, isPlanned⟩ := exists_planMatchers equal
  have isSelector :
      planVectorSelector selector =
        .ok (.vectorQuery selector.queryPlan) := by
    have anyPlan :
        ∃ planType,
          planVectorSelector selector = .ok planType := by
      rw [planVectorSelector, isPlanned]
      exact ⟨_, rfl⟩
    obtain ⟨planType, isPlan⟩ := anyPlan
    rw [isPlan, planVectorSelector_eq_ok isPlan]
    rfl
  rw [planExpr, planExpr, isSelector]
  rfl

section Evaluation

variable
  {lru : BoundedCache CacheKey QueryResult}
  {engine : QueryEngine lru}
  {std : StdText}
  {float : StdFloat}
  {call : ParametricCall}
  {text : Text}
  {swallowed : VectorSelector}
  {start stop : Timestamp}
  {step : Int64}

variable {grouping : List String} {without : Bool}

theorem executeQuery_of_parsed
    (equal : ∀ matcher ∈ swallowed.matchers, matcher.op = .equal)
    (parsed :
      parsePromql std text =
        .ok
          (.aggregation call.op (.vectorSelector swallowed) grouping without)) :
    engine.executeQuery std float ⟨text, start, stop, step⟩ =
      (do
        let series ←
          Choice.anyOrder
            (swallowed.selectedSeries engine.memstore ⟨⟨start, stop⟩, step⟩)
        let aggregated ←
          executeAggregation float call.op grouping without series
        pure ⟨aggregated, start, stop, step⟩) := by
  have planned :
      planQuery std ⟨text, start, stop, step⟩ =
        .ok
          ⟨.aggregation call.op
            (part (.vectorQuery swallowed.queryPlan) 0) grouping
            without, start, stop, step⟩ := by
    rw [planQuery, parsed]
    dsimp only
    rw [plan, planExpr_aggregation equal]
    rfl
  rw [QueryEngine.executeQuery, planned]
  dsimp only
  rw [QueryExecutor.execute, QueryExecutor.executePlan, part,
    QueryExecutor.executePart, QueryExecutor.executePlan,
    QueryExecutor.executeVectorQuery_eq_anyOrder, bind_assoc]
  rfl

theorem eq_nil_of_executeQuery
    (equal : ∀ matcher ∈ swallowed.matchers, matcher.op = .equal)
    (parsed :
      parsePromql std text =
        .ok (.aggregation call.op (.vectorSelector swallowed) grouping without))
    {result : QueryResult}
    (isOutcome :
      .ok result ∈
        (engine.executeQuery std float ⟨text, start, stop, step⟩).outcomes) :
    swallowed.selectedSamples engine.memstore ⟨⟨start, stop⟩, step⟩ = [] ∧
      result.series = [] := by
  have unsupported : ∀ values, aggregateValues float call.op values = none := by
    intro values
    cases call <;> rfl
  rw [executeQuery_of_parsed equal parsed, Choice.ok_mem_outcomes_bind]
    at isOutcome
  obtain ⟨series, isOrder, isOutcome⟩ := isOutcome
  obtain ⟨aggregated, isAggregated, isResult⟩ :=
    Choice.ok_mem_outcomes_bind.mp isOutcome
  obtain ⟨_, reordered, same⟩ := isOrder
  cases same
  cases isResult
  have shown : ∀ ts ∈ series, ts.samples ≠ [] := fun ts member =>
    samples_ne_nil_of_mem_selectedSeries (reordered.mem_iff.mp member)
  obtain ⟨rfl, rfl⟩ :=
    eq_nil_of_executeAggregation unsupported shown isAggregated
  exact ⟨selectedSamples_eq_nil_iff.mpr reordered.symm.eq_nil, rfl⟩

theorem ensures_executeQuery_nil
    (equal : ∀ matcher ∈ swallowed.matchers, matcher.op = .equal)
    (parsed :
      parsePromql std text =
        .ok (.aggregation call.op (.vectorSelector swallowed) grouping without))
    (nothing :
      swallowed.selectedSamples engine.memstore ⟨⟨start, stop⟩, step⟩ = []) :
    (engine.executeQuery std float ⟨text, start, stop, step⟩).Ensures
      fun result => result.series = [] := by
  rw [executeQuery_of_parsed equal parsed,
    selectedSamples_eq_nil_iff.mp nothing]
  refine Choice.ensures_bind (Choice.ensures_anyOrder _) ?_
  intro series isNil
  rw [isNil.eq_nil, executeAggregation, if_pos rfl, pure_bind]
  exact Choice.ensures_pure rfl

theorem nonempty_executeQuery (key : CacheKey) :
    (engine.executeQuery std float key).outcomes.Nonempty := by
  rw [QueryEngine.executeQuery]
  split
  · exact Choice.nonempty_throw _
  · exact QueryExecutor.nonempty_execute float _ _

theorem exists_parsed_of_executeQuery {key : CacheKey} {result : QueryResult}
    (isOutcome :
      .ok result ∈ (engine.executeQuery std float key).outcomes) :
    ∃ expr, parsePromql std key.query = .ok expr := by
  rw [QueryEngine.executeQuery, planQuery] at isOutcome
  cases isParsed : parsePromql std key.query with
  | error fault =>
    rw [isParsed] at isOutcome
    cases isOutcome
  | ok expr => exact ⟨expr, rfl⟩

theorem nothing_selected_of_answers {selector : Text} {parsed : VectorSelector}
    (isSelector : parsePromql std selector = .ok (.vectorSelector parsed))
    (answers :
      (engine.executeQuery std float
        ⟨call.text selector, start, stop, step⟩).Ensures
          (fun result =>
            call.Answers
              (parsed.selectedSamples engine.memstore ⟨⟨start, stop⟩, step⟩)
              (result.series.flatMap TimeSeries.samples))) :
    parsed.selectedSamples engine.memstore ⟨⟨start, stop⟩, step⟩ = [] ∧
      ∃ swallowed,
        call.Swallows std selector swallowed ∧
          swallowed.selectedSamples engine.memstore
            ⟨⟨start, stop⟩, step⟩ = [] := by
  have noBracket := not_hasOutermostBracket_of_selector isSelector
  obtain ⟨outcome, isOutcome⟩ :=
    @nonempty_executeQuery _ engine std float
      ⟨call.text selector, start, stop, step⟩
  obtain ⟨result, rfl, isAnswer⟩ := answers outcome isOutcome
  obtain ⟨expr, isParsed⟩ := exists_parsed_of_executeQuery isOutcome
  obtain ⟨swallowed, grouping, without, swallows, rfl⟩ :=
    exists_swallows_of_parsePromql_text noBracket isParsed
  obtain ⟨inner, after, found, isSwallowed, accepted⟩ := swallows
  obtain ⟨nothing, noSeries⟩ :=
    eq_nil_of_executeQuery (op_of_parseVectorSelector isSwallowed) isParsed
      isOutcome
  rw [noSeries, flatMap_nil, answers_nil_iff] at isAnswer
  exact ⟨isAnswer, swallowed,
    ⟨inner, after, found, isSwallowed, accepted⟩, nothing⟩

/--
`topk`, `bottomk` and `quantile` return what they should exactly when their
selector selects no sample, and the selector that is made of it and of the
parameter is read and selects none either.
-/
theorem parametric_answers_iff {selector : Text} {parsed : VectorSelector}
    (isSelector : parsePromql std selector = .ok (.vectorSelector parsed)) :
    (engine.executeQuery std float
        ⟨call.text selector, start, stop, step⟩).Ensures
          (fun result =>
            call.Answers
              (parsed.selectedSamples engine.memstore ⟨⟨start, stop⟩, step⟩)
              (result.series.flatMap TimeSeries.samples)) ↔
      parsed.selectedSamples engine.memstore ⟨⟨start, stop⟩, step⟩ = [] ∧
        ∃ swallowed,
          call.Swallows std selector swallowed ∧
            swallowed.selectedSamples engine.memstore
              ⟨⟨start, stop⟩, step⟩ = [] := by
  refine ⟨nothing_selected_of_answers isSelector, ?_⟩
  rintro ⟨noSamples, swallowed, swallows, nothing⟩
  obtain ⟨grouping, without, isParsed⟩ :=
    swallows.exists_parsed (not_hasOutermostBracket_of_selector isSelector)
  obtain ⟨inner, after, _, isSwallowed, _⟩ := swallows
  refine (ensures_executeQuery_nil (op_of_parseVectorSelector isSwallowed)
    isParsed nothing).imp fun result noSeries => ?_
  rw [noSeries, noSamples]
  exact answers_nil_iff.mpr rfl

end Evaluation

/-!
## The largest sample of `up`
-/

/-- An engine over a store with one sample of `up`. -/
def engineOfUp : QueryEngine (.recency CacheKey QueryResult) :=
  .new (storeAfter [upWrite ⟨0, 1⟩]) ⟨false, false, false, 0, 0⟩

theorem parsed_of_selector {text : Text}
    (isSelector :
      (parsePromql StdText.basic text).toOption.bind Expr.selector? =
        some selector) :
    parsePromql StdText.basic text = .ok (.vectorSelector selector) := by
  obtain ⟨expr, isExpr, isSelector⟩ := Option.bind_eq_some_iff.mp isSelector
  cases outcome : parsePromql StdText.basic text with
  | error fault =>
    rw [outcome] at isExpr
    cases isExpr
  | ok other =>
    rw [outcome] at isExpr
    cases isExpr
    cases expr <;> cases isSelector
    rfl

theorem topk_of_nothing :
    ∃ parsed,
      parsePromql StdText.basic "down".toList = .ok (.vectorSelector parsed) ∧
        ∀ float,
          (engineOfUp.executeQuery StdText.basic float
            ⟨(topk 1 (le_refl 1)).text "down".toList, 0,
              60000, 1000⟩).Ensures
            (fun result =>
              (topk 1 (le_refl 1)).Answers
                (parsed.selectedSamples engineOfUp.memstore ⟨⟨0, 60000⟩, 1000⟩)
                (result.series.flatMap TimeSeries.samples)) := by
  have isSelector :
      parsePromql StdText.basic "down".toList =
        .ok (.vectorSelector ⟨some "down", [], none, none⟩) :=
    parsed_of_selector (by decide +kernel)
  refine ⟨_, isSelector, fun float =>
    (parametric_answers_iff isSelector).mpr
      ⟨by decide +kernel, ⟨some "1, down", [], none, none⟩,
        ⟨"1, down".toList, [], by decide +kernel, ?_, by decide +kernel⟩,
        by decide +kernel⟩⟩
  rfl

theorem topk_of_up_fails :
    ∃ parsed,
      parsePromql StdText.basic "up".toList = .ok (.vectorSelector parsed) ∧
        parsed.selectedSamples engineOfUp.memstore ⟨⟨0, 60000⟩, 1000⟩ =
          [⟨0, 1⟩] ∧
        ∀ float,
          ¬(engineOfUp.executeQuery StdText.basic float
            ⟨(topk 1 (le_refl 1)).text "up".toList, 0, 60000,
              1000⟩).Ensures
            (fun result =>
              (topk 1 (le_refl 1)).Answers
                (parsed.selectedSamples engineOfUp.memstore ⟨⟨0, 60000⟩, 1000⟩)
                (result.series.flatMap TimeSeries.samples)) := by
  have isSelector :
      parsePromql StdText.basic "up".toList =
        .ok (.vectorSelector ⟨some "up", [], none, none⟩) :=
    parsed_of_selector (by decide +kernel)
  have selected :
      VectorSelector.selectedSamples ⟨some "up", [], none, none⟩
          engineOfUp.memstore ⟨⟨0, 60000⟩, 1000⟩ =
        [⟨0, 1⟩] := by
    decide +kernel
  refine ⟨_, isSelector, selected, fun float answers => ?_⟩
  have nothing := (nothing_selected_of_answers isSelector answers).1
  rw [selected] at nothing
  cases nothing

/-!
## Quantiles between the values
-/

/-- The values by rank; from the last one on they stay the same. -/
def valueAt (values : List Value) (rank : ℕ) : Value :=
  values.getD (min rank (values.length - 1)) 0

theorem getElem?_eq_valueAt
    (nonempty : values ≠ []) {rank : ℕ} (within : rank ≤ values.length - 1) :
    values[rank]? = some (valueAt values rank) := by
  have positive := length_pos_iff.mpr nonempty
  have inside : rank < values.length := by omega
  rw [valueAt, Nat.min_eq_left within, getD_eq_getElem?_getD,
    getElem?_eq_getElem inside, Option.getD_some]

theorem valueAt_monotone
    (nonempty : values ≠ []) (ascending : values.Pairwise (KeyLE id)) :
    Monotone (valueAt values) := by
  have positive := length_pos_iff.mpr nonempty
  have inside (rank : ℕ) : min rank (values.length - 1) < values.length := by
    omega
  have isValue (rank : ℕ) :
      valueAt values rank = values.get ⟨_, inside rank⟩ := by
    rw [valueAt, getD_eq_getElem?_getD, getElem?_eq_getElem (inside rank),
      Option.getD_some, get_eq_getElem]
  intro first second notLater
  rw [isValue, isValue, get_eq_getElem, get_eq_getElem]
  rcases (min_le_min_right (values.length - 1) notLater).eq_or_lt with
    same | before
  · simp only [same, le_refl]
  · exact pairwise_iff_getElem.mp ascending _ _ _ _ before

theorem quantileOf_eq_interpolate
    (notNegative : 0 ≤ quantile) (atMostOne : quantile ≤ 1)
    (nonempty : values ≠ []) :
    quantileOf quantile values =
      some
        (interpolate (valueAt values)
          (quantile * ((values.length - 1 : ℕ) : Value))) := by
  have last : (0 : Value) ≤ ((values.length - 1 : ℕ) : Value) :=
    Nat.cast_nonneg _
  have positionNotNegative := mul_nonneg notNegative last
  have positionInside :
      quantile * ((values.length - 1 : ℕ) : Value) ≤
        ((values.length - 1 : ℕ) : Value) :=
    mul_le_of_le_one_left last atMostOne
  rw [quantileOf]
  dsimp only
  split_ifs with atStart atEnd whole
  · have position : quantile * ((values.length - 1 : ℕ) : Value) = (0 : ℕ) := by
      rcases atStart with single | isZero
      · rw [single]
        simp
      · rw [isZero, zero_mul, Nat.cast_zero]
    rw [position, interpolate_natCast,
      getElem?_eq_valueAt nonempty (Nat.zero_le _)]
  · rw [atEnd, one_mul, interpolate_natCast,
      getElem?_eq_valueAt nonempty le_rfl]
  · have position :
        quantile * ((values.length - 1 : ℕ) : Value) =
          (⌊quantile * ((values.length - 1 : ℕ) : Value)⌋₊ : ℕ) := by
      rw [Int.floor_toNat, Int.ceil_toNat] at whole
      refine le_antisymm ?_ (Nat.floor_le positionNotNegative)
      rw [whole]
      exact Nat.le_ceil _
    rw [Int.floor_toNat, getElem?_eq_valueAt nonempty (Nat.floor_le_of_le
      positionInside), position, interpolate_natCast, Nat.floor_natCast]
  · have next :
        ⌈quantile * ((values.length - 1 : ℕ) : Value)⌉₊ =
          ⌊quantile * ((values.length - 1 : ℕ) : Value)⌋₊ + 1 := by
      rw [Int.floor_toNat, Int.ceil_toNat] at whole
      have atMost :=
        Nat.ceil_le_floor_add_one (quantile * ((values.length - 1 : ℕ) : Value))
      have atLeast :=
        Nat.floor_le_ceil (quantile * ((values.length - 1 : ℕ) : Value))
      omega
    rw [Int.floor_toNat, Int.ceil_toNat,
      getElem?_eq_valueAt nonempty (Nat.floor_le_of_le positionInside),
      getElem?_eq_valueAt nonempty (Nat.ceil_le.mpr positionInside), next]
    rfl

/-- The quantile of values in any order, as a point on the line through them. -/
def quantileValue (values : List Value) (quantile : Value) : Value :=
  interpolate (valueAt (sortByKey id values))
    (quantile * ((values.length - 1 : ℕ) : Value))

theorem apply_executeQuantile
    (std : StdFloat) (ctx : StepContext) (notNegative : 0 ≤ quantile)
    (atMostOne : quantile ≤ 1) (nonempty : values ≠ []) (first : TimeSeries)
    (rest : List TimeSeries)
    (sameValues : (allValues (first :: rest)).Perm values) :
    (executeQuantile std (some quantile)).apply ctx (first :: rest) =
      pure
        [singleSample 0 first.labels ctx.start
          (quantileValue values quantile)] := by
  have sorted :
      sortByKey id (allValues (first :: rest)) = sortByKey id values :=
    sortByKey_congr_of_injOn id (fun _ _ _ _ same => same) sameValues
  have sortedNonempty := sortByKey_ne_nil id nonempty
  have inUnit : ¬(quantile < 0 ∨ 1 < quantile) := by
    rintro (negative | greater)
    · exact absurd notNegative (not_le_of_gt negative)
    · exact absurd atMostOne (not_le_of_gt greater)
  have found := quantileOf_eq_interpolate notNegative atMostOne sortedNonempty
  rw [length_sortByKey] at found
  rw [executeQuantile]
  dsimp only [Option.getD_some]
  rw [if_neg inUnit, sorted]
  obtain ⟨least, others, split⟩ := exists_cons_of_ne_nil sortedNonempty
  rw [split] at found ⊢
  dsimp only
  rw [found]
  simp only [quantileValue, split]

theorem quantileValue_mono (nonempty : values ≠ []) {quantile later : Value}
    (notNegative : 0 ≤ quantile) (notLater : quantile ≤ later) :
    quantileValue values quantile ≤ quantileValue values later := by
  have last : (0 : Value) ≤ ((values.length - 1 : ℕ) : Value) :=
    Nat.cast_nonneg _
  exact interpolate_le_interpolate
    (valueAt_monotone (sortByKey_ne_nil id nonempty)
      (pairwise_sortByKey id values))
    (mul_nonneg notNegative last)
    (mul_le_mul_of_nonneg_right notLater last)

theorem quantileValue_of_place {rank : ℕ} (within : rank < values.length)
    (place : quantile * ((values.length - 1 : ℕ) : Value) = rank) :
    (sortByKey id values)[rank]? = some (quantileValue values quantile) := by
  have nonempty : values ≠ [] := ne_nil_of_length_pos (Nat.zero_lt_of_lt within)
  have atMost : rank ≤ (sortByKey id values).length - 1 := by
    rw [length_sortByKey]
    exact Nat.le_sub_one_of_lt within
  rw [quantileValue, place, interpolate_natCast]
  exact getElem?_eq_valueAt (sortByKey_ne_nil id nonempty) atMost

theorem place_of_rank {count rank : ℕ} (within : rank < count) :
    (rank : Value) / ((count - 1 : ℕ) : Value) * ((count - 1 : ℕ) : Value) =
      rank := by
  rcases Nat.eq_zero_or_pos (count - 1) with single | several
  · have isFirst : rank = 0 := by omega
    rw [isFirst, Nat.cast_zero, zero_div, zero_mul]
  · exact div_mul_cancel₀ _ (Nat.cast_ne_zero.mpr several.ne')

theorem quantileValue_mem_bounds
    (nonempty : values ≠ []) (notNegative : 0 ≤ quantile)
    (atMostOne : quantile ≤ 1) {least greatest : Value}
    (isLeast : IsLeast {value | value ∈ values} least)
    (isGreatest : IsGreatest {value | value ∈ values} greatest) :
    least ≤ quantileValue values quantile ∧
      quantileValue values quantile ≤ greatest := by
  have positive := length_pos_iff.mpr nonempty
  have isValue {place : Value} {rank : ℕ}
      (within : rank < values.length)
      (atPlace : place * ((values.length - 1 : ℕ) : Value) = rank) :
      quantileValue values place ∈ values :=
    (mem_sortByKey id).mp
      (mem_of_getElem? (quantileValue_of_place within atPlace))
  constructor
  · calc
      least ≤ quantileValue values 0 :=
        isLeast.2 (isValue positive (by rw [zero_mul, Nat.cast_zero]))
      _ ≤ quantileValue values quantile :=
        quantileValue_mono nonempty le_rfl notNegative
  · calc
      quantileValue values quantile
        ≤ quantileValue values 1 :=
          quantileValue_mono nonempty notNegative atMostOne
      _ ≤ greatest :=
          isGreatest.2 (isValue (Nat.sub_one_lt_of_lt positive) (one_mul _))

/--
Quantiles of some values are found without an index that is not inside, whatever
the order of the values, lie between the least and the greatest one, ascend, and
are the ordered values at the quantiles between which the values divide.
-/
theorem quantile_well_defined (std : StdFloat) (ctx : StepContext)
    (values : List Value) (nonempty : values ≠ []) :
    ∃ result : Set.Icc (0 : Value) 1 → Value,
      (∀ quantile : Set.Icc (0 : Value) 1, ∀ first rest,
        (allValues (first :: rest)).Perm values →
          (executeQuantile std (some quantile.1)).apply ctx (first :: rest) =
            pure [singleSample 0 first.labels ctx.start (result quantile)]) ∧
      (∃ least greatest,
        IsLeast {value | value ∈ values} least ∧
          IsGreatest {value | value ∈ values} greatest ∧
            ∀ quantile, least ≤ result quantile ∧ result quantile ≤ greatest) ∧
      Monotone result ∧
      ∀ rank < values.length, ∀ quantile : Set.Icc (0 : Value) 1,
        quantile.1 = rank / ((values.length - 1 : ℕ) : Value) →
          (sortByKey id values)[rank]? = some (result quantile) := by
  obtain ⟨least, isMin⟩ :=
    Option.isSome_iff_exists.mp (isSome_min?_of_ne_nil nonempty)
  obtain ⟨greatest, isMax⟩ :=
    Option.isSome_iff_exists.mp (isSome_max?_of_ne_nil nonempty)
  have isLeast := min?_eq_some_iff.mp isMin
  have isGreatest := max?_eq_some_iff.mp isMax
  refine ⟨fun quantile => quantileValue values quantile.1, ?_,
    ⟨least, greatest, isLeast, isGreatest, ?_⟩, ?_, ?_⟩
  · intro quantile first rest sameValues
    exact apply_executeQuantile std ctx quantile.2.1 quantile.2.2 nonempty
      first rest sameValues
  · intro quantile
    exact quantileValue_mem_bounds nonempty quantile.2.1 quantile.2.2 isLeast
      isGreatest
  · intro quantile later notLater
    exact quantileValue_mono nonempty quantile.2.1 notLater
  · intro rank within quantile isRank
    refine quantileValue_of_place within ?_
    rw [isRank]
    exact place_of_rank within

/-- Three values have quantiles, with the middle value as the median. -/
theorem median_of_three :
    ∃ result : Set.Icc (0 : Value) 1 → Value,
      Monotone result ∧ result ⟨1 / 2, by norm_num, by norm_num⟩ = 2 := by
  obtain ⟨result, _, _, ascends, ranks⟩ :=
    quantile_well_defined exampleStd ⟨⟨0, 0⟩, 1⟩ [4, 1, 2] (by decide)
  have middle :=
    ranks 1 (by decide) ⟨1 / 2, by norm_num, by norm_num⟩ (by norm_num)
  exact ⟨result, ascends, (Option.some.inj middle).symm⟩

end ChronoDB.Query
