import ChronoDB.Library.Chunks
import ChronoDB.Query.Aggregation

namespace ChronoDB.Query

open Library List TimeSeries

/-!
# Sums of many series

From 21 series on, the sums of batches are summed, in the order in which they
arrive.  The values are those of one sum over all series, but the labels are those
of the batch that arrives first.
-/

/-!
## Sums at each timestamp
-/

section Totals

def totalAt (timestamp : Timestamp) (samples : List Sample) : Value :=
  ((samples.filter fun sample =>
    sample.timestamp = timestamp).map Sample.value).sum

/-- One sample for each timestamp, the sum of its values. -/
def totals (samples : List Sample) : List Sample :=
  (sortByKey Int64.toInt (samples.map Sample.timestamp).dedup).map
    fun timestamp =>
      { timestamp := timestamp, value := totalAt timestamp samples }

theorem samples_sumSeries (series : List TimeSeries) :
    (sumSeries series).samples = totals (series.flatMap samples) := by
  rw [sumSeries, totals, allTimestamps, map_flatMap]
  rfl

theorem totalAt_append (timestamp : Timestamp) (samples others : List Sample) :
    totalAt timestamp (samples ++ others) =
      totalAt timestamp samples + totalAt timestamp others := by
  rw [totalAt, filter_append, map_append, sum_append]
  rfl

theorem totalAt_flatten (timestamp : Timestamp) (lists : List (List Sample)) :
    totalAt timestamp lists.flatten = (lists.map (totalAt timestamp)).sum := by
  induction lists with
  | nil => rfl
  | cons samples rest inductionHypothesis =>
    rw [flatten_cons, totalAt_append, inductionHypothesis, map_cons, sum_cons]

theorem totalAt_eq_zero {timestamp : Timestamp} {samples : List Sample}
    (notThere : timestamp ∉ samples.map Sample.timestamp) :
    totalAt timestamp samples = 0 := by
  rw [totalAt, filter_eq_nil_iff.mpr, map_nil, sum_nil]
  intro sample isSample isTime
  exact notThere (mem_map.mpr ⟨sample, isSample, of_decide_eq_true isTime⟩)

theorem mem_timestamps_totals {timestamp : Timestamp} {samples : List Sample} :
    timestamp ∈ (totals samples).map Sample.timestamp ↔
      timestamp ∈ samples.map Sample.timestamp := by
  rw [totals, map_map]
  simp only [Function.comp_def, map_id', mem_sortByKey, mem_dedup]

theorem totalAt_totals (timestamp : Timestamp) (samples : List Sample) :
    totalAt timestamp (totals samples) = totalAt timestamp samples := by
  by_cases isThere : timestamp ∈ samples.map Sample.timestamp
  · have once :
        (sortByKey Int64.toInt (samples.map Sample.timestamp).dedup).filter
            (fun other => other = timestamp) =
          [timestamp] := by
      rw [filter_eq, (sortByKey_perm Int64.toInt _).count_eq, count_dedup,
        if_pos isThere]
      rfl
    rw [totalAt, totals, filter_map, map_map]
    simp only [Function.comp_def, once, map_singleton, sum_singleton]
  · rw [totalAt_eq_zero isThere,
      totalAt_eq_zero (mem_timestamps_totals.not.mpr isThere)]

theorem totals_congr {samples others : List Sample}
    (sameTimes :
      ∀ timestamp,
        timestamp ∈ samples.map Sample.timestamp ↔
          timestamp ∈ others.map Sample.timestamp)
    (sameTotals :
      ∀ timestamp, totalAt timestamp samples = totalAt timestamp others) :
    totals samples = totals others := by
  have permuted :
      (samples.map Sample.timestamp).dedup.Perm
        (others.map Sample.timestamp).dedup :=
    (perm_ext_iff_of_nodup (nodup_dedup _)
      (nodup_dedup _)).mpr fun timestamp => by
        rw [mem_dedup, mem_dedup, sameTimes]
  have distinct :
      ((samples.map Sample.timestamp).dedup.map Int64.toInt).Nodup :=
    (nodup_dedup _).map fun _ _ same => Int64.toInt.inj same
  rw [totals, totals, sortByKey_congr Int64.toInt distinct permuted]
  simp only [sameTotals]

theorem totals_parts {lists parts : List (List Sample)}
    (arePart : parts.Perm (lists.map totals)) :
    totals parts.flatten = totals lists.flatten := by
  refine totals_congr (fun timestamp => ?_) fun timestamp => ?_
  · have samePart :
        ∀ samples : List Sample,
          timestamp ∈ (totals samples).map Sample.timestamp ↔
            timestamp ∈ samples.map Sample.timestamp :=
      fun _ => mem_timestamps_totals
    rw [(arePart.flatten.map Sample.timestamp).mem_iff]
    simp only [map_flatten, mem_flatten, mem_map,
      exists_exists_and_eq_and] at samePart ⊢
    simp only [samePart]
  · rw [totalAt_flatten, totalAt_flatten, (arePart.map _).sum_eq, map_map]
    simp only [Function.comp_def, totalAt_totals]

end Totals

/-!
## The order of partial sums
-/

section Partials

variable {parallel : ParallelQueryExecutor} {series : List TimeSeries}

/-- The batches of a parallel aggregate. -/
def batchesOf (parallel : ParallelQueryExecutor) (series : List TimeSeries) :
    List (List TimeSeries) :=
  series.toChunks
    (max
      ((series.length + parallel.maxConcurrency - 1) / parallel.maxConcurrency)
      1)

theorem parallelAggregate_eq
    (aggregate : List TimeSeries → TimeSeries) (several : 1 < series.length) :
    parallelAggregate parallel aggregate series =
      Choice.choose
        (combinePartials aggregate ''
          {partials |
            partials.Perm ((batchesOf parallel series).map aggregate)}) := by
  unfold parallelAggregate
  split
  · cases several
  · exact absurd several (Nat.lt_irrefl 1)
  · refine congrArg Choice.choose (Set.ext fun total => ?_)
    have received
        (limits : TaskPool.Limits)
        (partials : List TimeSeries) :=
      @TaskPool.received_iff _ _ limits (fun batch => some (aggregate batch))
        (batchesOf parallel series) partials
    have sent :
        (batchesOf parallel series).filterMap
            (fun batch => some (aggregate batch)) =
          (batchesOf parallel series).map aggregate :=
      congrFun filterMap_eq_map _
    rw [sent] at received
    constructor
    · rintro ⟨actions, final, run, finished, rfl⟩
      exact ⟨final.received,
        (received _ _).mp ⟨actions, final, run, finished, rfl⟩, rfl⟩
    · rintro ⟨partials, isOrder, rfl⟩
      obtain ⟨actions, final, run, finished, rfl⟩ :=
        (received _ partials).mpr isOrder
      exact ⟨actions, final, run, finished, rfl⟩

theorem samples_combinePartials {partials : List TimeSeries}
    (areSums :
      partials.Perm ((batchesOf parallel series).map sumSeries)) :
    (combinePartials sumSeries partials).samples =
      (sumSeries series).samples := by
  have whole : (batchesOf parallel series).flatten = series :=
    flatten_toChunks _ series
  unfold combinePartials
  split
  · rename_i only
    obtain ⟨batch, isBatch, rfl⟩ :=
      map_eq_singleton_iff.mp (singleton_perm.mp areSums).symm
    rw [isBatch, flatten_singleton] at whole
    rw [whole]
  · have areTotals :
        (partials.map samples).Perm
          (((batchesOf parallel series).map fun batch =>
            batch.flatMap samples).map totals) := by
      have asTotals :
          samples ∘ sumSeries =
            totals ∘ fun batch => batch.flatMap samples :=
        funext samples_sumSeries
      rw [map_map, ← asTotals, ← map_map]
      exact areSums.map samples
    have isWhole :
        ((batchesOf parallel series).map fun batch =>
            batch.flatMap samples).flatten =
          series.flatMap samples := by
      conv_rhs => rw [← whole, ← flatMap_id, flatMap_assoc]
      rfl
    rw [samples_sumSeries, samples_sumSeries, flatMap_def,
      totals_parts areTotals, isWhole]

def firstLabels (series : List TimeSeries) : Labels :=
  (series.head?.map labels).getD []

theorem labels_combinePartials (partials : List TimeSeries) :
    (combinePartials sumSeries partials).labels = firstLabels partials := by
  unfold combinePartials
  split <;> rfl

theorem id_combinePartials {partials : List TimeSeries}
    (areSums : partials.Perm ((batchesOf parallel series).map sumSeries)) :
    (combinePartials sumSeries partials).id = 0 := by
  unfold combinePartials
  split
  · obtain ⟨batch, _, rfl⟩ :=
      mem_map.mp (areSums.mem_iff.mp mem_cons_self)
    rfl
  · rfl

theorem combinePartials_eq_iff {partials : List TimeSeries}
    (areSums : partials.Perm ((batchesOf parallel series).map sumSeries)) :
    combinePartials sumSeries partials = sumSeries series ↔
      firstLabels partials = firstLabels series := by
  rw [← labels_combinePartials]
  refine ⟨congrArg labels, fun sameLabels => ?_⟩
  have sameId := id_combinePartials areSums
  have sameSamples := samples_combinePartials areSums
  exact mk.injEq .. ▸ ⟨sameId, sameLabels, sameSamples⟩

end Partials

/-!
## Sums in parallel and in sequence
-/

/-- The sum of some series by an executor of a certain concurrency. -/
def sumBy (parallel : ParallelQueryExecutor) (series : List TimeSeries) :
    Execution :=
  if series = [] then
    pure []
  else if 20 < series.length then do
    let total ← parallelAggregate parallel sumSeries series
    pure [total]
  else
    pure [sumSeries series]

def sequentialSum (series : List TimeSeries) : List TimeSeries :=
  if series = [] then [] else [sumSeries series]

section SumBy

variable {parallel : ParallelQueryExecutor} {series : List TimeSeries}

theorem batchesOf_ne_nil (notEmpty : series ≠ []) :
    batchesOf parallel series ≠ [] := by
  intro nothing
  have whole : (batchesOf parallel series).flatten = series :=
    flatten_toChunks _ series
  rw [nothing] at whole
  exact notEmpty whole.symm

theorem firstLabels_partials_iff (notEmpty : series ≠ []) :
    (∀ partials : List TimeSeries,
        partials.Perm ((batchesOf parallel series).map sumSeries) →
          firstLabels partials = firstLabels series) ↔
      ∀ batch ∈ batchesOf parallel series,
        firstLabels batch = firstLabels series := by
  constructor
  · intro anyFirst batch isBatch
    obtain ⟨earlier, later, isSplit⟩ := append_of_mem isBatch
    refine anyFirst (sumSeries batch :: (earlier ++ later).map sumSeries) ?_
    rw [isSplit, ← map_cons]
    exact perm_middle.symm.map sumSeries
  · intro eachBatch partials areSums
    cases partials with
    | nil =>
      have nothing := map_eq_nil_iff.mp (nil_perm.mp areSums)
      exact absurd nothing (batchesOf_ne_nil notEmpty)
    | cons first rest =>
      obtain ⟨batch, isBatch, rfl⟩ :=
        mem_map.mp (areSums.mem_iff.mp mem_cons_self)
      exact eachBatch batch isBatch

theorem ensures_sumBy_iff (many : 20 < series.length) :
    (sumBy parallel series).Ensures
        (fun result => result = sequentialSum series) ↔
      ∀ batch ∈ batchesOf parallel series,
        firstLabels batch = firstLabels series := by
  have notEmpty : series ≠ [] := by
    rintro rfl
    cases many
  rw [sumBy, if_neg notEmpty, if_pos many, sequentialSum, if_neg notEmpty,
    parallelAggregate_eq sumSeries (Nat.lt_trans (by decide) many),
    Choice.choose_map, Choice.ensures_choose_iff, Set.forall_mem_image,
    Set.forall_mem_image, ← firstLabels_partials_iff notEmpty]
  refine forall_congr' fun partials => forall_congr' fun areSums => ?_
  rw [singleton_inj, combinePartials_eq_iff areSums]

end SumBy

/--
A sum in parallel is the sum in sequence, for every order of arrival, exactly
when there are at most 20 series or the first series of every batch has the labels
of the first one of all.
-/
theorem parallel_sum_iff (parallel : ParallelQueryExecutor)
    (series : List TimeSeries) :
    (sumBy parallel series).Ensures
        (fun result => result = sequentialSum series) ↔
      (20 < series.length →
        ∀ batch ∈ batchesOf parallel series,
          firstLabels batch = firstLabels series) := by
  by_cases many : 20 < series.length
  · rw [ensures_sumBy_iff many, imp_iff_right many]
  · refine iff_of_true ?_ fun isMany => absurd isMany many
    unfold sumBy sequentialSum
    split
    · exact Choice.ensures_pure rfl
    · exact Choice.ensures_pure rfl

/-- One series with a label before 20 series without labels. -/
def labelledFirst : List TimeSeries :=
  upSeries 1 [⟨"job", "api"⟩] [1000] :: List.replicate 20 (upSeries 2 [] [1000])

/-- When the second of two batches arrives first, the label is lost. -/
theorem label_of_sum_is_lost :
    ¬(sumBy (.new 2) labelledFirst).Ensures
      fun result => result = sequentialSum labelledFirst := by
  rw [ensures_sumBy_iff (by decide)]
  intro allAlike
  have lost :
      ∃ batch ∈ batchesOf (.new 2) labelledFirst,
        firstLabels batch ≠ firstLabels labelledFirst := by
    decide
  obtain ⟨batch, isBatch, differs⟩ := lost
  exact differs (allAlike batch isBatch)

end ChronoDB.Query
