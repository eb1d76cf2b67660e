import ChronoDB.Distributed.QueryCoordinator
import ChronoDB.Query.Aggregation

namespace ChronoDB.Distributed

open Library Query List

/-!
# Aggregation by the coordinator

The coordinator groups and aggregates series like the executor does.  Its samples
are sorted, and a group gets all labels of its first series.
-/

inductive AggregationType where
  | sum
  | avg
  | min
  | max
  | count
  deriving Repr, DecidableEq

namespace AggregationType

def aggregate : AggregationType → List Value → Value
  | sum, values => values.sum
  | avg, values => values.sum / values.length
  | min, values => values.foldl Min.min f64Max
  | max, values => values.foldl Max.max (-f64Max)
  | count, values => values.length

/-- The function of the query language with the same name. -/
def function : AggregationType → Function
  | sum => .sum
  | avg => .avg
  | min => .min
  | max => .max
  | count => .count

theorem function_mem (aggregationType : AggregationType) :
    aggregationType.function ∈ aggregationFunctions := by
  cases aggregationType <;> decide

theorem aggregate_eq
    (std : StdFloat) (aggregationType : AggregationType) (values : List Value) :
    aggregationType.aggregate values =
      aggregateValue std aggregationType.function values := by
  cases aggregationType <;> exact Eq.refl _

end AggregationType

namespace QueryCoordinator

def aggregationKey (groupBy : List String) (ts : TimeSeries) :
    List (String × String) :=
  (ts.labels.filter fun label => decide (label.name ∈ groupBy)).map
    fun label => (label.name, label.value)

/-- The samples are sorted after they come out of a hash table. -/
def aggregateGroup
    (series : List TimeSeries) (aggregationType : AggregationType) :
    Choice Fault TimeSeries := do
  let timestamps ← Choice.anyOrder (allTimestamps series)
  let aggregatedSamples :=
    timestamps.map fun timestamp => {
      timestamp := timestamp
      value := aggregationType.aggregate (valuesAt timestamp series)
    }
  pure {
    id := 0
    labels := (series.head?.map TimeSeries.labels).getD []
    samples := sortByKey Sample.sortKey aggregatedSamples
  }

/-- The groups, in the order of a hash table. -/
def aggregateSeries
    (series : List TimeSeries) (aggregationType : AggregationType)
    (groupBy : List String) :
    Execution := do
  let keys ← Choice.anyOrder (series.map (aggregationKey groupBy)).dedup
  keys.mapM fun key =>
    aggregateGroup
      (series.filter fun ts => aggregationKey groupBy ts = key)
      aggregationType

/-!
## What the coordinator returns
-/

theorem aggregationKey_eq (groupBy : List String) :
    aggregationKey groupBy = groupKey groupBy false := by
  funext ts
  simp [aggregationKey, groupKey]

def groupSamples (aggregationType : AggregationType) (group : List TimeSeries) :
    List Sample :=
  sortByKey Sample.sortKey
    ((allTimestamps group).map fun timestamp => {
      timestamp := timestamp
      value := aggregationType.aggregate (valuesAt timestamp group)
    })

def groupSeries (aggregationType : AggregationType) (group : List TimeSeries) :
    TimeSeries where
  id := 0
  labels := (group.head?.map TimeSeries.labels).getD []
  samples := groupSamples aggregationType group

theorem aggregateGroup_eq
    (group : List TimeSeries) (aggregationType : AggregationType) :
    aggregateGroup group aggregationType =
      pure (groupSeries aggregationType group) := by
  have sorted :
      ∀ timestamps : List Timestamp,
        timestamps.Perm (allTimestamps group) →
          sortByKey Sample.sortKey
              (timestamps.map fun timestamp => {
                timestamp := timestamp
                value := aggregationType.aggregate (valuesAt timestamp group)
              }) =
            groupSamples aggregationType group := by
    intro timestamps isTimes
    refine sortByKey_congr Sample.sortKey ?_ (isTimes.map _)
    rw [map_map]
    exact (isTimes.nodup_iff.mpr (nodup_dedup _)).map
      fun first second same => Int64.toInt.inj same
  rw [aggregateGroup, Choice.anyOrder, Choice.choose_map,
    ← Choice.choose_singleton]
  refine congrArg _ (Set.eq_singleton_iff_unique_mem.mpr ⟨?_, ?_⟩)
  · exact ⟨allTimestamps group, .refl _, rfl⟩
  · rintro _ ⟨timestamps, isTimes, rfl⟩
    exact congrArg (TimeSeries.mk 0 _) (sorted timestamps isTimes)

theorem aggregateSeries_eq
    (series : List TimeSeries) (aggregationType : AggregationType)
    (groupBy : List String) :
    aggregateSeries series aggregationType groupBy =
      Choice.choose
        ((List.map fun key =>
            groupSeries aggregationType (groupOf groupBy false series key)) ''
          {keys | keys.Perm (groupKeys groupBy false series)}) := by
  rw [aggregateSeries, aggregationKey_eq]
  simp only [aggregateGroup_eq, mapM_pure]
  rw [Choice.anyOrder, Choice.choose_map]
  rfl

/-!
## The coordinator and the executor
-/

structure SameSeries
    (alike : List Sample → List Sample → Prop) (first second : TimeSeries) :
    Prop where
  id : first.id = second.id
  labels : first.labels = second.labels
  samples : alike first.samples second.samples

structure SameResults (alike : List Sample → List Sample → Prop)
    (results others : List TimeSeries) :
    Prop where
  forth : ∀ result ∈ results, ∃ other ∈ others, SameSeries alike result other
  back : ∀ other ∈ others, ∃ result ∈ results, SameSeries alike result other

/-- The coordinator and the executor return the same series, if in any order. -/
def AggregatesAlike (alike : List Sample → List Sample → Prop) (std : StdFloat)
    (series : List TimeSeries) (aggregationType : AggregationType)
    (groupBy : List String) :
    Prop :=
  (aggregateSeries series aggregationType groupBy).Ensures fun results =>
    (executeAggregation std aggregationType.function groupBy false
      series).Ensures fun others => SameResults alike results others

/-- The first series of every group has no labels but those it is grouped by. -/
def FirstsGrouped (groupBy : List String) (series : List TimeSeries) : Prop :=
  ∀ key ∈ groupKeys groupBy false series,
    ∀ first ∈ (groupOf groupBy false series key).head?,
      ∀ label ∈ first.labels, label.name ∈ groupBy

/-- All samples of a group are at one time. -/
def OneTimeEach (groupBy : List String) (series : List TimeSeries) : Prop :=
  ∀ key ∈ groupKeys groupBy false series,
    ∀ first ∈ allTimestamps (groupOf groupBy false series key),
      ∀ second ∈ allTimestamps (groupOf groupBy false series key),
        first = second

section Alike

variable {alike : List Sample → List Sample → Prop}
variable {std : StdFloat} {series : List TimeSeries}
variable {aggregationType : AggregationType} {groupBy : List String}

theorem groupSamples_perm (std : StdFloat) (aggregationType : AggregationType)
    (key : List (String × String)) {group : List TimeSeries}
    {timestamps : List Timestamp}
    (isTimes : timestamps.Perm (allTimestamps group)) :
    (groupSamples aggregationType group).Perm
      (groupResult std aggregationType.function key group
        timestamps).samples := by
  rw [groupSamples, groupResult]
  simp only [aggregationType.aggregate_eq std]
  exact (sortByKey_perm _ _).trans (isTimes.symm.map _)

theorem exists_first {key : List (String × String)}
    (isKey : key ∈ groupKeys groupBy false series) :
    ∃ first,
      (groupOf groupBy false series key).head? = some first ∧
        groupKey groupBy false first = key := by
  obtain ⟨ts, isSeries, hasKey⟩ := mem_groupKeys_iff.mp isKey
  have inGroup : ts ∈ groupOf groupBy false series key :=
    mem_filter.mpr ⟨isSeries, decide_eq_true hasKey⟩
  obtain ⟨first, isFirst⟩ :=
    Option.isSome_iff_exists.mp (isSome_head?.mpr (ne_nil_of_mem inGroup))
  have isMember := mem_filter.mp (mem_of_head? isFirst)
  exact ⟨first, isFirst, of_decide_eq_true isMember.2⟩

theorem labels_groupKey
    (ts : TimeSeries) (group : List TimeSeries) (timestamps : List Timestamp) :
    (groupResult std aggregationType.function (groupKey groupBy false ts) group
        timestamps).labels =
      ts.labels.filter fun label => decide (label.name ∈ groupBy) := by
  rw [← aggregationKey_eq, groupResult, aggregationKey, map_map]
  exact map_id _

theorem sameSeries_group
    (firsts : FirstsGrouped groupBy series) {key : List (String × String)}
    (isKey : key ∈ groupKeys groupBy false series) {timestamps : List Timestamp}
    (samples :
      alike
        (groupSamples aggregationType (groupOf groupBy false series key))
        (groupResult std aggregationType.function key
          (groupOf groupBy false series key) timestamps).samples) :
    SameSeries alike
      (groupSeries aggregationType (groupOf groupBy false series key))
      (groupResult std aggregationType.function key
        (groupOf groupBy false series key) timestamps) where
  id := rfl
  labels := by
    obtain ⟨first, isFirst, rfl⟩ := exists_first isKey
    rw [groupSeries, isFirst, labels_groupKey]
    refine (filter_eq_self.mpr fun label isLabel => ?_).symm
    exact decide_eq_true (firsts _ isKey first isFirst label isLabel)
  samples := samples

theorem aggregatesAlike_of_samples (firsts : FirstsGrouped groupBy series)
    (samples :
      ∀ key ∈ groupKeys groupBy false series,
        ∀ timestamps,
          timestamps.Perm (allTimestamps (groupOf groupBy false series key)) →
            alike
              (groupSamples aggregationType (groupOf groupBy false series key))
              (groupResult std aggregationType.function key
                (groupOf groupBy false series key) timestamps).samples) :
    AggregatesAlike alike std series aggregationType groupBy := by
  rw [AggregatesAlike, aggregateSeries_eq, Choice.ensures_choose_iff]
  rintro _ ⟨keys, isOrder, rfl⟩
  rw [executeAggregation_eq aggregationType.function_mem,
    Choice.ensures_choose_iff]
  rintro others ⟨otherKeys, isOtherOrder, aggregated⟩
  constructor
  · intro result isResult
    obtain ⟨key, inKeys, rfl⟩ := mem_map.mp isResult
    have isKey := isOrder.mem_iff.mp inKeys
    obtain ⟨other, isOther, timestamps, isTimes, rfl⟩ :=
      exists_right_of_forall₂ aggregated key (isOtherOrder.mem_iff.mpr isKey)
    exact ⟨_, isOther,
      sameSeries_group firsts isKey (samples key isKey timestamps isTimes)⟩
  · intro other isOther
    obtain ⟨key, inKeys, timestamps, isTimes, rfl⟩ :=
      exists_left_of_forall₂ aggregated other isOther
    have isKey := isOtherOrder.mem_iff.mp inKeys
    exact ⟨_, mem_map.mpr ⟨key, isOrder.mem_iff.mpr isKey, rfl⟩,
      sameSeries_group firsts isKey (samples key isKey timestamps isTimes)⟩

theorem AggregatesAlike.sameResults
    (same : AggregatesAlike alike std series aggregationType groupBy)
    {order : List Timestamp → List Timestamp}
    (reorders : ∀ timestamps, (order timestamps).Perm timestamps) :
    SameResults alike
      ((groupKeys groupBy false series).map fun key =>
        groupSeries aggregationType (groupOf groupBy false series key))
      (resultsInOrder std aggregationType.function groupBy false series
        order) := by
  rw [AggregatesAlike, aggregateSeries_eq, Choice.ensures_choose_iff] at same
  obtain ⟨others, isOthers, sameResults⟩ :=
    same _ ⟨_, .refl _, rfl⟩ _
      (resultsInOrder_mem_outcomes aggregationType.function_mem reorders)
  exact Except.ok.inj isOthers ▸ sameResults

theorem FirstsGrouped.of_aggregatesAlike
    (same : AggregatesAlike alike std series aggregationType groupBy) :
    FirstsGrouped groupBy series := by
  intro key isKey first isFirst label isLabel
  have sameResults := same.sameResults fun timestamps => .refl timestamps
  obtain ⟨other, isOther, sameSeries⟩ :=
    sameResults.forth _ (mem_map_of_mem isKey)
  obtain ⟨otherKey, isOtherKey, rfl⟩ := mem_map.mp isOther
  obtain ⟨ts, isSeries, rfl⟩ := mem_groupKeys_iff.mp isOtherKey
  have isGroupLabel :
      label ∈
        (groupSeries aggregationType
          (groupOf groupBy false series key)).labels := by
    rw [groupSeries, isFirst]
    exact isLabel
  rw [sameSeries.labels, labels_groupKey] at isGroupLabel
  exact of_decide_eq_true (mem_filter.mp isGroupLabel).2

theorem OneTimeEach.of_aggregatesAlike
    (same : AggregatesAlike Eq std series aggregationType groupBy) :
    OneTimeEach groupBy series := by
  intro key isKey
  have ascending
      {order : List Timestamp → List Timestamp}
      (reorders : ∀ timestamps, (order timestamps).Perm timestamps) :
      (order (allTimestamps (groupOf groupBy false series key))).Pairwise
        fun first second => first ≤ second := by
    obtain ⟨result, isResult, sameSeries⟩ :=
      (same.sameResults reorders).back _ (mem_map_of_mem isKey)
    obtain ⟨otherKey, isOtherKey, rfl⟩ := mem_map.mp isResult
    have sorted :
        (groupResult std aggregationType.function key
          (groupOf groupBy false series key)
          (order
            (allTimestamps
              (groupOf groupBy false series key)))).samples.Pairwise
          (KeyLE Sample.sortKey) :=
      sameSeries.samples ▸ pairwise_sortByKey Sample.sortKey _
    exact (pairwise_map.mp sorted).imp Int64.le_iff_toInt_le.mpr
  exact eq_of_ascending (ascending fun timestamps => .refl timestamps)
    (ascending reverse_perm)

/--
The coordinator and the executor return the same series, up to the order of their
samples, exactly when the first series of every group has no labels but those it
is grouped by.  The samples are also in the same order exactly when those of each
group are, moreover, at one time.
-/
theorem aggregates_alike_iff (std : StdFloat) (series : List TimeSeries)
    (aggregationType : AggregationType) (groupBy : List String) :
    (AggregatesAlike List.Perm std series aggregationType groupBy ↔
        FirstsGrouped groupBy series) ∧
      (AggregatesAlike Eq std series aggregationType groupBy ↔
        FirstsGrouped groupBy series ∧ OneTimeEach groupBy series) := by
  refine ⟨⟨FirstsGrouped.of_aggregatesAlike, fun firsts => ?_⟩,
    ⟨fun same => ⟨.of_aggregatesAlike same, .of_aggregatesAlike same⟩, ?_⟩⟩
  · exact aggregatesAlike_of_samples firsts fun key _ timestamps isTimes =>
      groupSamples_perm std aggregationType key isTimes
  · rintro ⟨firsts, oneTime⟩
    refine aggregatesAlike_of_samples firsts
      fun key isKey timestamps isTimes => ?_
    have isAll :=
      eq_of_perm_of_subsingleton (nodup_dedup _) (oneTime key isKey) isTimes
    rw [isAll, groupSamples, groupResult]
    simp only [aggregationType.aggregate_eq std]
    refine (sortByKey_eq_self_iff Sample.sortKey).mpr
      (pairwise_map.mpr (pairwise_of_forall_mem_list ?_))
    intro first isFirst second isSecond
    exact le_of_eq
      (congrArg Int64.toInt (oneTime key isKey first isFirst second isSecond))

end Alike

theorem instance_label_is_kept :
    ¬AggregatesAlike List.Perm exampleStd
      [upSeries 1 [⟨"job", "api"⟩, ⟨"instance", "a"⟩] [1000]] .sum
      ["job"] := by
  intro same
  have grouped :=
    FirstsGrouped.of_aggregatesAlike same [("job", "api")] (by decide) _ rfl
      ⟨"instance", "a"⟩ (by decide)
  exact absurd grouped (by decide)

end QueryCoordinator

end ChronoDB.Distributed
