import ChronoDB.Query.Execution

namespace ChronoDB.Query

open Library List

/-!
# Aggregation by labels

The series of a group are aggregated at each of their timestamps.  A group is
found by a list of labels and its timestamps come out of a hash table, so series
whose labels are ordered differently are in different groups, and the samples of
a group come in any order.
-/

/-!
## What an aggregation should return
-/

def aggregationFunctions : List Function :=
  [.sum, .avg, .min, .max, .count, .stddev, .stdvar]

def IsAggregate
    (std : StdFloat) (op : Function) (values : List Value) (result : Value) :
    Prop :=
  match op with
  | .sum => result = values.sum
  | .avg => result = values.sum / values.length
  | .min => IsLeast {value | value ∈ values} result
  | .max => IsGreatest {value | value ∈ values} result
  | .count => result = values.length
  | .stddev => result = std.sqrt (variance values)
  | .stdvar => result = variance values
  | _ => False

def labelsGroupedBy
    (grouping : List String) (without : Bool) (ts : TimeSeries) :
    Finset Label :=
  (ts.labels.filter fun label =>
    if without then label.name ∉ grouping else label.name ∈ grouping).toFinset

structure AggregatesGroup
    (std : StdFloat) (op : Function) (group : List TimeSeries)
    (result : TimeSeries) :
    Prop where
  ascending :
    result.samples.Pairwise fun first second =>
      first.timestamp < second.timestamp
  timestamps :
    ∀ timestamp,
      timestamp ∈ result.samples.map Sample.timestamp ↔
        ∃ ts ∈ group, timestamp ∈ ts.samples.map Sample.timestamp
  values :
    ∀ sample ∈ result.samples,
      IsAggregate std op (valuesAt sample.timestamp group) sample.value

/-- There is one series for each set of grouping labels, its aggregate. -/
structure ExactResults
    (std : StdFloat) (op : Function) (grouping : List String) (without : Bool)
    (series results : List TimeSeries) :
    Prop where
  oneEach :
    (results.map fun result => result.labels.toFinset).Perm
      (series.map (labelsGroupedBy grouping without)).dedup
  aggregates :
    ∀ result ∈ results,
      AggregatesGroup std op
        (series.filter fun ts =>
          labelsGroupedBy grouping without ts = result.labels.toFinset)
        result

/--
Every execution, whatever the order of the series and of the hash tables, returns
the exact results, and the same ones.
-/
def AggregatesExactly
    (std : StdFloat) (op : Function) (grouping : List String) (without : Bool)
    (series : List TimeSeries) :
    Prop :=
  ∀ shuffled : List TimeSeries,
    shuffled.Perm series →
      (executeAggregation std op grouping without shuffled).Ensures
        fun results =>
          ExactResults std op grouping without series results ∧
            ∀ other,
              .ok other ∈
                  (executeAggregation std op grouping without series).outcomes →
                results.Perm other

/--
Series with the same set of grouping labels have the same list of them, and the
samples of a group are all at one time.
-/
structure UniformGroups
    (grouping : List String) (without : Bool) (series : List TimeSeries) :
    Prop where
  sameKey :
    ∀ first ∈ series, ∀ second ∈ series,
      labelsGroupedBy grouping without first =
          labelsGroupedBy grouping without second →
        groupKey grouping without first = groupKey grouping without second
  oneTime :
    ∀ first ∈ series, ∀ second ∈ series,
      groupKey grouping without first = groupKey grouping without second →
        ∀ sample ∈ first.samples, ∀ other ∈ second.samples,
          sample.timestamp = other.timestamp

/-- Floats that are numbers are not beyond the greatest one. -/
def FiniteValues (series : List TimeSeries) : Prop :=
  ∀ ts ∈ series, ∀ sample ∈ ts.samples, |sample.value| ≤ f64Max

/-!
## The values of a group
-/

section Values

variable {std : StdFloat} {op : Function} {values others : List Value}

def aggregateValue (std : StdFloat) (op : Function) (values : List Value) :
    Value :=
  (aggregateValues std op values).getD 0

theorem aggregateValues_eq_some
    (supported : op ∈ aggregationFunctions) (values : List Value) :
    aggregateValues std op values = some (aggregateValue std op values) := by
  simp only [aggregationFunctions, mem_cons, not_mem_nil, or_false] at supported
  rcases supported with rfl | rfl | rfl | rfl | rfl | rfl | rfl <;> rfl

theorem mean_perm (permuted : values.Perm others) :
    mean values = mean others := by
  rw [mean, mean, permuted.sum_eq, permuted.length_eq]

theorem variance_perm (permuted : values.Perm others) :
    variance values = variance others := by
  rw [variance, variance, mean_perm permuted, permuted.length_eq,
    (permuted.map _).sum_eq]

theorem aggregateValue_perm (permuted : values.Perm others) :
    aggregateValue std op values = aggregateValue std op others := by
  refine congrArg (Option.getD · 0) ?_
  unfold aggregateValues
  split
  · rw [permuted.sum_eq]
  · rw [mean_perm permuted]
  · rw [permuted.foldl_eq]
  · rw [permuted.foldl_eq]
  · rw [permuted.length_eq]
  · rw [variance_perm permuted]
  · rw [variance_perm permuted]
  · rfl

theorem isLeast_foldl_min {bound : Value} (notEmpty : values ≠ [])
    (bounded : ∀ value ∈ values, value ≤ bound) :
    IsLeast {value | value ∈ values} (values.foldl min bound) := by
  obtain ⟨least, isMin⟩ :=
    Option.isSome_iff_exists.mp (isSome_min?_of_ne_nil notEmpty)
  have isLeast := min?_eq_some_iff.mp isMin
  rw [foldl_min, isMin, Option.getD_some,
    min_eq_right (bounded least isLeast.1)]
  exact isLeast

theorem isGreatest_foldl_max {bound : Value} (notEmpty : values ≠ [])
    (bounded : ∀ value ∈ values, bound ≤ value) :
    IsGreatest {value | value ∈ values} (values.foldl max bound) := by
  obtain ⟨greatest, isMax⟩ :=
    Option.isSome_iff_exists.mp (isSome_max?_of_ne_nil notEmpty)
  have isGreatest := max?_eq_some_iff.mp isMax
  rw [foldl_max, isMax, Option.getD_some,
    max_eq_right (bounded greatest isGreatest.1)]
  exact isGreatest

theorem isAggregate_aggregateValue
    (supported : op ∈ aggregationFunctions) (notEmpty : values ≠ [])
    (finite : ∀ value ∈ values, |value| ≤ f64Max) :
    IsAggregate std op values (aggregateValue std op values) := by
  simp only [aggregationFunctions, mem_cons, not_mem_nil, or_false] at supported
  rcases supported with rfl | rfl | rfl | rfl | rfl | rfl | rfl
  case inr.inr.inl =>
    exact isLeast_foldl_min notEmpty fun value member =>
      (abs_le.mp (finite value member)).2
  case inr.inr.inr.inl =>
    exact isGreatest_foldl_max notEmpty fun value member =>
      (abs_le.mp (finite value member)).1
  all_goals exact Eq.refl _

theorem valuesAt_perm
    {series shuffled : List TimeSeries} (permuted : series.Perm shuffled)
    (timestamp : Timestamp) :
    (valuesAt timestamp series).Perm (valuesAt timestamp shuffled) :=
  ((permuted.flatMap_right _).filter _).map _

variable {series : List TimeSeries} {timestamp : Timestamp}

theorem mem_valuesAt_iff {value : Value} :
    value ∈ valuesAt timestamp series ↔
      ∃ ts ∈ series, ⟨timestamp, value⟩ ∈ ts.samples := by
  simp only [valuesAt, mem_map, mem_filter, mem_flatMap, decide_eq_true_eq]
  constructor
  · rintro ⟨⟨_, _⟩, ⟨⟨ts, isSeries, member⟩, rfl⟩, rfl⟩
    exact ⟨ts, isSeries, member⟩
  · rintro ⟨ts, isSeries, member⟩
    exact ⟨_, ⟨⟨ts, isSeries, member⟩, rfl⟩, rfl⟩

theorem mem_allTimestamps_iff :
    timestamp ∈ allTimestamps series ↔
      ∃ ts ∈ series, timestamp ∈ ts.samples.map Sample.timestamp := by
  rw [allTimestamps, mem_dedup, mem_flatMap]

theorem valuesAt_ne_nil (member : timestamp ∈ allTimestamps series) :
    valuesAt timestamp series ≠ [] := by
  obtain ⟨ts, isSeries, isTime⟩ := mem_allTimestamps_iff.mp member
  obtain ⟨sample, isSample, rfl⟩ := mem_map.mp isTime
  exact ne_nil_of_mem (mem_valuesAt_iff.mpr ⟨ts, isSeries, isSample⟩)

end Values

/-!
## What an aggregation returns
-/

section Returned

variable {std : StdFloat} {op : Function}
variable {grouping : List String} {without : Bool}
variable {series shuffled : List TimeSeries}

def groupResult (std : StdFloat) (op : Function) (key : List (String × String))
    (group : List TimeSeries) (timestamps : List Timestamp) :
    TimeSeries where
  id := 0
  labels := key.map fun (name, value) => { name := name, value := value }
  samples :=
    timestamps.map fun timestamp => {
      timestamp := timestamp
      value := aggregateValue std op (valuesAt timestamp group)
    }

theorem aggregateGroup_eq
    (supported : op ∈ aggregationFunctions) (key : List (String × String))
    (group : List TimeSeries) :
    aggregateGroup std op key group =
      Choice.choose
        (groupResult std op key group ''
          {timestamps | timestamps.Perm (allTimestamps group)}) := by
  rw [← Choice.choose_map, aggregateGroup, Choice.anyOrder]
  simp only [aggregateValues_eq_some supported]
  refine bind_congr fun timestamps => ?_
  rw [mapM_pure, pure_bind]
  rfl

def groupKeys
    (grouping : List String) (without : Bool) (series : List TimeSeries) :
    List (List (String × String)) :=
  (series.map (groupKey grouping without)).dedup

def groupOf (grouping : List String) (without : Bool) (series : List TimeSeries)
    (key : List (String × String)) :
    List TimeSeries :=
  series.filter fun ts => groupKey grouping without ts = key

theorem executeAggregation_eq (supported : op ∈ aggregationFunctions) :
    executeAggregation std op grouping without series =
      Choice.choose
        {results |
          ∃ keys, keys.Perm (groupKeys grouping without series) ∧
            List.Forall₂
              (fun key result =>
                ∃ timestamps,
                  timestamps.Perm
                      (allTimestamps (groupOf grouping without series key)) ∧
                    groupResult std op key
                        (groupOf grouping without series key) timestamps =
                      result)
              keys results} := by
  rw [executeAggregation]
  simp only [aggregateGroup_eq supported, Choice.mapM_choose, Choice.anyOrder]
  split
  · rename_i empty
    subst empty
    rw [← Choice.choose_singleton]
    refine congrArg _ (Set.ext fun results => ?_)
    simp [groupKeys]
  · rw [Choice.choose_bind_choose]
    rfl

theorem toFinset_groupKey (ts : TimeSeries) :
    ((groupKey grouping without ts).map fun (name, value) =>
        ({ name := name, value := value } : Label)).toFinset =
      labelsGroupedBy grouping without ts := by
  have sameLabels :
      ((groupKey grouping without ts).map fun (name, value) =>
          ({ name := name, value := value } : Label)) =
        ts.labels.filter fun label =>
          decide (label.name ∈ grouping) != without := by
    rw [groupKey, map_map]
    exact map_id _
  rw [sameLabels, labelsGroupedBy]
  congr 2
  cases without <;> simp

theorem mem_groupKeys_iff {key : List (String × String)} :
    key ∈ groupKeys grouping without series ↔
      ∃ ts ∈ series, groupKey grouping without ts = key := by
  rw [groupKeys, mem_dedup, mem_map]

/-- What is returned when every group has its timestamps in a certain order. -/
def resultsInOrder
    (std : StdFloat) (op : Function) (grouping : List String) (without : Bool)
    (series : List TimeSeries) (order : List Timestamp → List Timestamp) :
    List TimeSeries :=
  (groupKeys grouping without series).map fun key =>
    groupResult std op key (groupOf grouping without series key)
      (order (allTimestamps (groupOf grouping without series key)))

theorem resultsInOrder_mem_outcomes (supported : op ∈ aggregationFunctions)
    {order : List Timestamp → List Timestamp}
    (reorders : ∀ timestamps, (order timestamps).Perm timestamps) :
    .ok (resultsInOrder std op grouping without series order) ∈
      (executeAggregation std op grouping without series).outcomes := by
  rw [executeAggregation_eq supported]
  refine ⟨_, ⟨groupKeys grouping without series, .refl _, ?_⟩, rfl⟩
  rw [resultsInOrder, List.forall₂_map_right_iff, List.forall₂_same]
  exact fun key _ => ⟨_, reorders _, rfl⟩

/-!
## Groups that are uniform
-/

theorem eq_of_perm_of_subsingleton
    {Item : Type} {items others : List Item} (distinct : items.Nodup)
    (same : ∀ first ∈ items, ∀ second ∈ items, first = second)
    (permuted : others.Perm items) :
    others = items := by
  cases items with
  | nil => exact perm_nil.mp permuted
  | cons first rest =>
    have single : rest = [] := by
      refine eq_nil_iff_forall_not_mem.mpr fun second member => ?_
      have isFirst :=
        same second (mem_cons_of_mem first member) first mem_cons_self
      exact (nodup_cons.mp distinct).1 (isFirst ▸ member)
    subst single
    exact perm_singleton.mp permuted

theorem eq_of_ascending {timestamps : List Timestamp}
    (ascending : timestamps.Pairwise fun first second => first ≤ second)
    (reversed :
      timestamps.reverse.Pairwise fun first second => first ≤ second) :
    ∀ first ∈ timestamps, ∀ second ∈ timestamps, first = second := by
  have same : timestamps.Pairwise fun first second => first = second :=
    (ascending.and (pairwise_reverse.mp reversed)).imp
      fun both => Int64.le_antisymm both.1 both.2
  intro first isFirst second isSecond
  by_contra different
  exact different (same.forall isFirst isSecond different)

theorem UniformGroups.sameTimestamps
    (uniform : UniformGroups grouping without series)
    (key : List (String × String)) :
    ∀ first ∈ allTimestamps (groupOf grouping without series key),
      ∀ second ∈ allTimestamps (groupOf grouping without series key),
        first = second := by
  intro first isFirst second isSecond
  obtain ⟨ts, inGroup, isTime⟩ := mem_allTimestamps_iff.mp isFirst
  obtain ⟨other, otherInGroup, isOtherTime⟩ := mem_allTimestamps_iff.mp isSecond
  obtain ⟨isSeries, isKey⟩ := mem_filter.mp inGroup
  obtain ⟨isOtherSeries, isOtherKey⟩ := mem_filter.mp otherInGroup
  obtain ⟨sample, isSample, rfl⟩ := mem_map.mp isTime
  obtain ⟨otherSample, isOtherSample, rfl⟩ := mem_map.mp isOtherTime
  exact uniform.oneTime ts isSeries other isOtherSeries
    ((of_decide_eq_true isKey).trans (of_decide_eq_true isOtherKey).symm)
    sample isSample otherSample isOtherSample

theorem groupResult_perm
    {group others : List TimeSeries} (permuted : group.Perm others)
    (key : List (String × String)) (timestamps : List Timestamp) :
    groupResult std op key group timestamps =
      groupResult std op key others timestamps := by
  simp only [groupResult, aggregateValue_perm (valuesAt_perm permuted _)]

theorem allTimestamps_perm
    {group others : List TimeSeries} (permuted : group.Perm others) :
    (allTimestamps group).Perm (allTimestamps others) :=
  (permuted.flatMap_right _).dedup

theorem timestamps_groupResult
    (key : List (String × String)) (group : List TimeSeries)
    (timestamps : List Timestamp) :
    (groupResult std op key group timestamps).samples.map Sample.timestamp =
      timestamps := by
  rw [groupResult, map_map]
  exact map_id timestamps

theorem aggregatesGroup_groupResult
    (supported : op ∈ aggregationFunctions) {group : List TimeSeries}
    (finite : FiniteValues group) {timestamps : List Timestamp}
    (ascending : timestamps.Pairwise fun first second => first < second)
    (isAll : timestamps.Perm (allTimestamps group))
    (key : List (String × String)) :
    AggregatesGroup std op group (groupResult std op key group timestamps) where
  ascending := pairwise_map.mpr ascending
  timestamps := by
    intro timestamp
    rw [timestamps_groupResult, isAll.mem_iff, mem_allTimestamps_iff]
  values := by
    intro sample isSample
    obtain ⟨timestamp, isTime, rfl⟩ := mem_map.mp isSample
    have finiteThere :
        ∀ value ∈ valuesAt timestamp group, |value| ≤ f64Max := by
      intro value member
      obtain ⟨ts, isSeries, isValue⟩ := mem_valuesAt_iff.mp member
      exact finite ts isSeries ⟨timestamp, value⟩ isValue
    exact isAggregate_aggregateValue supported
      (valuesAt_ne_nil (isAll.mem_iff.mp isTime)) finiteThere

theorem UniformGroups.ensures_perm
    (uniform : UniformGroups grouping without series)
    (supported : op ∈ aggregationFunctions) (permuted : shuffled.Perm series) :
    (executeAggregation std op grouping without shuffled).Ensures
      fun results =>
        results.Perm (resultsInOrder std op grouping without series id) := by
  rw [executeAggregation_eq supported, Choice.ensures_choose_iff]
  rintro results ⟨keys, isOrder, aggregated⟩
  have isResult :
      ∀ key result,
        (∃ timestamps,
          timestamps.Perm
              (allTimestamps (groupOf grouping without shuffled key)) ∧
            groupResult std op key (groupOf grouping without shuffled key)
              timestamps = result) →
          groupResult std op key (groupOf grouping without series key)
              (allTimestamps (groupOf grouping without series key)) =
            result := by
    rintro key _ ⟨timestamps, isTimes, rfl⟩
    have sameGroup :
        (groupOf grouping without shuffled key).Perm
          (groupOf grouping without series key) :=
      permuted.filter _
    have isAll :
        timestamps = allTimestamps (groupOf grouping without series key) :=
      eq_of_perm_of_subsingleton (nodup_dedup _)
        (uniform.sameTimestamps key)
        (isTimes.trans (allTimestamps_perm sameGroup))
    rw [groupResult_perm sameGroup key, isAll]
  have isMapped := aggregated.imp isResult
  rw [← List.forall₂_map_left_iff, List.forall₂_eq_eq_eq] at isMapped
  rw [← isMapped]
  exact (isOrder.trans (permuted.map _).dedup).map _

theorem UniformGroups.groupOf_eq
    (uniform : UniformGroups grouping without series) {ts : TimeSeries}
    (isSeries : ts ∈ series) :
    groupOf grouping without series (groupKey grouping without ts) =
      series.filter fun other =>
        labelsGroupedBy grouping without other =
          labelsGroupedBy grouping without ts := by
  refine filter_congr fun other isOther => decide_eq_decide.mpr ?_
  refine ⟨fun isKey => ?_, uniform.sameKey other isOther ts isSeries⟩
  rw [← toFinset_groupKey, isKey, toFinset_groupKey]

theorem UniformGroups.exactResults
    (uniform : UniformGroups grouping without series)
    (supported : op ∈ aggregationFunctions) (finite : FiniteValues series) :
    ExactResults std op grouping without series
      (resultsInOrder std op grouping without series id) := by
  refine ⟨?_, fun result isResult => ?_⟩
  · rw [resultsInOrder, map_map]
    refine (perm_ext_iff_of_nodup ?_ (nodup_dedup _)).mpr fun labels => ?_
    · refine (nodup_dedup _).map_on fun key isKey other isOther same => ?_
      obtain ⟨ts, isSeries, rfl⟩ := mem_groupKeys_iff.mp isKey
      obtain ⟨otherTs, isOtherSeries, rfl⟩ := mem_groupKeys_iff.mp isOther
      refine uniform.sameKey ts isSeries otherTs isOtherSeries ?_
      rw [← toFinset_groupKey, ← toFinset_groupKey]
      exact same
    · rw [groupKeys, mem_map, mem_dedup, mem_map]
      simp only [mem_dedup, mem_map]
      constructor
      · rintro ⟨_, ⟨ts, isSeries, rfl⟩, rfl⟩
        exact ⟨ts, isSeries, (toFinset_groupKey ts).symm⟩
      · rintro ⟨ts, isSeries, rfl⟩
        exact ⟨_, ⟨ts, isSeries, rfl⟩, toFinset_groupKey ts⟩
  · obtain ⟨key, isKey, rfl⟩ := mem_map.mp isResult
    obtain ⟨ts, isSeries, rfl⟩ := mem_groupKeys_iff.mp isKey
    have isLabels :
        (groupResult std op (groupKey grouping without ts)
            (groupOf grouping without series (groupKey grouping without ts))
            (allTimestamps
              (groupOf grouping without series
                (groupKey grouping without ts)))).labels.toFinset =
          labelsGroupedBy grouping without ts :=
      toFinset_groupKey ts
    rw [id, isLabels, ← uniform.groupOf_eq isSeries]
    refine aggregatesGroup_groupResult supported
      (fun other isOther => finite other (mem_filter.mp isOther).1) ?_
      (.refl _) _
    refine (nodup_dedup _).imp_of_mem
      fun isFirst isSecond different => absurd ?_ different
    exact uniform.sameTimestamps _ _ isFirst _ isSecond

theorem ExactResults.of_perm {results others : List TimeSeries}
    (exact : ExactResults std op grouping without series results)
    (permuted : others.Perm results) :
    ExactResults std op grouping without series others where
  oneEach := (permuted.map _).trans exact.oneEach
  aggregates := fun result isResult =>
    exact.aggregates result (permuted.mem_iff.mp isResult)

/-!
## Exact aggregation
-/

theorem UniformGroups.of_aggregatesExactly
    (supported : op ∈ aggregationFunctions)
    (exact : AggregatesExactly std op grouping without series) :
    UniformGroups grouping without series := by
  have exactInOrder
      {order : List Timestamp → List Timestamp}
      (reorders : ∀ timestamps, (order timestamps).Perm timestamps) :
      ExactResults std op grouping without series
        (resultsInOrder std op grouping without series order) := by
    obtain ⟨results, isResults, isExact, _⟩ :=
      exact series (.refl _) _ (resultsInOrder_mem_outcomes supported reorders)
    exact Except.ok.inj isResults ▸ isExact
  constructor
  · intro first isFirst second isSecond sameLabels
    have oneEach :=
      (exactInOrder fun timestamps => .refl timestamps).oneEach.nodup_iff.mpr
        (nodup_dedup _)
    rw [resultsInOrder, map_map] at oneEach
    refine inj_on_of_nodup_map oneEach
      (mem_groupKeys_iff.mpr ⟨first, isFirst, rfl⟩)
      (mem_groupKeys_iff.mpr ⟨second, isSecond, rfl⟩) ?_
    exact (toFinset_groupKey first).trans
      (sameLabels.trans (toFinset_groupKey second).symm)
  · intro first isFirst second isSecond sameKey sample isSample other isOther
    have inGroup :
        ∀ ts ∈ series,
          groupKey grouping without ts = groupKey grouping without first →
            ∀ sample ∈ ts.samples,
              sample.timestamp ∈
                allTimestamps
                  (groupOf grouping without series
                    (groupKey grouping without first)) :=
      fun ts isSeries isKey sample isSample =>
        mem_allTimestamps_iff.mpr
          ⟨ts, mem_filter.mpr ⟨isSeries, decide_eq_true isKey⟩,
            mem_map.mpr ⟨sample, isSample, rfl⟩⟩
    have ascending
        {order : List Timestamp → List Timestamp}
        (reorders : ∀ timestamps, (order timestamps).Perm timestamps) :
        (order
            (allTimestamps
              (groupOf grouping without series
                (groupKey grouping without first)))).Pairwise
          fun first second => first < second := by
      have isAscending :=
        ((exactInOrder reorders).aggregates _
          (mem_map_of_mem
            (mem_groupKeys_iff.mpr ⟨first, isFirst, rfl⟩))).ascending
      have eachAscending := pairwise_map.mp isAscending
      exact eachAscending
    exact eq_of_ascending
      ((ascending fun timestamps => .refl timestamps).imp Int64.le_of_lt)
      ((ascending reverse_perm).imp Int64.le_of_lt)
      _ (inGroup first isFirst rfl sample isSample)
      _ (inGroup second isSecond sameKey.symm other isOther)

theorem UniformGroups.aggregatesExactly
    (uniform : UniformGroups grouping without series)
    (supported : op ∈ aggregationFunctions) (finite : FiniteValues series) :
    AggregatesExactly std op grouping without series := by
  intro shuffled permuted
  refine (uniform.ensures_perm supported permuted).imp fun results same => ?_
  refine ⟨(uniform.exactResults supported finite).of_perm same,
    fun other isOther => ?_⟩
  obtain ⟨_, isResult, alsoSame⟩ :=
    uniform.ensures_perm supported (.refl series) _ isOther
  exact same.trans (Except.ok.inj isResult ▸ alsoSame).symm

end Returned

/--
An aggregation returns one exact series for each set of grouping labels, the same
ones in every execution, exactly when series with the same set have the same list
of grouping labels and all samples of a group are at one time.
-/
theorem aggregation_exact_iff (std : StdFloat) {op : Function}
    (supported : op ∈ aggregationFunctions) (grouping : List String)
    (without : Bool) {series : List TimeSeries} (finite : FiniteValues series) :
    AggregatesExactly std op grouping without series ↔
      UniformGroups grouping without series :=
  ⟨UniformGroups.of_aggregatesExactly supported,
    fun uniform => uniform.aggregatesExactly supported finite⟩

def upSeries
    (id : TimeSeriesId) (labels : Labels) (timestamps : List Timestamp) :
    TimeSeries where
  id := id
  labels := labels
  samples :=
    timestamps.map fun timestamp => { timestamp := timestamp, value := 1 }

theorem finiteValues_of_ones {series : List TimeSeries}
    (ones : ∀ ts ∈ series, ∀ sample ∈ ts.samples, sample.value = 1) :
    FiniteValues series := by
  intro ts isSeries sample isSample
  rw [ones ts isSeries sample isSample, abs_one, f64Max]
  exact one_le_mul_of_one_le_of_one_le (by norm_num) (one_le_pow₀ (by norm_num))

/-- Two instances of a job are summed exactly at one time. -/
theorem instances_are_summed :
    AggregatesExactly exampleStd .sum ["job"] false
      [upSeries 1 [⟨"job", "api"⟩, ⟨"instance", "a"⟩] [1000],
        upSeries 2 [⟨"instance", "b"⟩, ⟨"job", "api"⟩] [1000]] :=
  (aggregation_exact_iff exampleStd (by decide) ["job"] false
    (finiteValues_of_ones (by decide))).mpr ⟨by decide, by decide⟩

/--
One series with samples at two times, and two series with the labels that they
are grouped by in another order, are not aggregated exactly.
-/
theorem orders_are_returned :
    ¬AggregatesExactly exampleStd .sum ["job"] false
        [upSeries 1 [⟨"job", "api"⟩] [1000, 2000]] ∧
      ¬AggregatesExactly exampleStd .sum ["job", "zone"] false
        [upSeries 1 [⟨"job", "api"⟩, ⟨"zone", "eu"⟩] [1000],
          upSeries 2 [⟨"zone", "eu"⟩, ⟨"job", "api"⟩] [1000]] := by
  constructor
  · intro exact
    have uniform := UniformGroups.of_aggregatesExactly (by decide) exact
    exact absurd uniform.oneTime (by decide)
  · intro exact
    have uniform := UniformGroups.of_aggregatesExactly (by decide) exact
    exact absurd uniform.sameKey (by decide)

end ChronoDB.Query
