import Mathlib.Data.Int.CardIntervalMod
import Mathlib.Data.List.MinMax
import Mathlib.Data.Rat.Floor
import ChronoDB.Compression.DeltaDecoder
import ChronoDB.Library.OrderStatistics

namespace ChronoDB.Summary

open Library Compression List

/-!
# Summaries of a series

A summary is computed from all samples, or from every `step`-th one when there
are too many.  The step is a quotient, so that a remainder lets more samples
through than the limit, and a limit of zero is divided by.
-/

/-- How a summary can fail. -/
inductive SummaryFault where
  | invalidData (message : String)
  | panic
  deriving Repr, DecidableEq

abbrev Point := Timestamp × Value

structure BasicStats where
  min : Value
  max : Value
  mean : Value
  median : Value
  stdDev : Value
  p25 : Value
  p75 : Value
  p95 : Value
  p99 : Value
  deriving Repr, DecidableEq

inductive TrendDirection where
  | up
  | down
  | stable
  deriving Repr, DecidableEq

structure TrendInfo where
  slope : Value
  intercept : Value
  rSquared : Value
  trendDirection : TrendDirection
  deriving Repr, DecidableEq

structure PeriodicityInfo where
  period : ℤ
  confidence : Value
  isPeriodic : Bool
  deriving Repr, DecidableEq

structure TimeSeriesSummary where
  metricName : String
  labels : List (String × String)
  sampleCount : ℕ
  timeRange : Timestamp × Timestamp
  basicStats : BasicStats
  trend : Option TrendInfo
  periodicity : Option PeriodicityInfo
  deriving Repr, DecidableEq

structure SummaryGenerator where
  minSamples : ℕ
  maxSamples : ℕ
  deriving Repr, DecidableEq

/-- What an unwrapped or indexed value is when there is none. -/
def orPanic {Result : Type} : Option Result → Except SummaryFault Result
  | none => .error .panic
  | some result => .ok result

/-- `Iterator::step_by`: the items at the multiples of a positive step. -/
def stepBy {Item : Type} (step : ℕ) (items : List Item) : List Item :=
  (items.zipIdx.filter fun entry => entry.2 % step = 0).map Prod.fst

def calculatePercentile (sorted : List Value) (percentile : Value) :
    Option Value :=
  if sorted = [] then some 0
  else
    let index := percentile / 100 * (sorted.length - 1 : ℕ)
    let lowerIndex := ⌊index⌋₊
    let upperIndex := ⌈index⌉₊
    if lowerIndex = upperIndex then sorted[lowerIndex]?
    else do
      let lower ← sorted[lowerIndex]?
      let upper ← sorted[upperIndex]?
      let fraction := index - lowerIndex
      some (lower * (1 - fraction) + upper * fraction)

def calculateMedian (sorted : List Value) : Option Value :=
  if sorted.length % 2 = 0 then do
    let lower ← sorted[sorted.length / 2 - 1]?
    let upper ← sorted[sorted.length / 2]?
    some ((lower + upper) / 2)
  else sorted[sorted.length / 2]?

/-- The statistics, with the square root of the standard library. -/
def calculateBasicStats (sqrt : Value → Value) (samples : List Point) :
    Except SummaryFault BasicStats :=
  let values := samples.map Prod.snd
  if values = [] then .error (.invalidData "No values to calculate stats")
  else
    let sorted := sortByKey id values
    let mean : Value := values.sum / values.length
    let variance : Value :=
      (values.map fun value => (value - mean) ^ 2).sum / values.length
    orPanic do
      let min ← sorted.head?
      let max ← sorted.getLast?
      let median ← calculateMedian sorted
      let p25 ← calculatePercentile sorted 25
      let p75 ← calculatePercentile sorted 75
      let p95 ← calculatePercentile sorted 95
      let p99 ← calculatePercentile sorted 99
      some {
        min, max, mean, median, p25, p75, p95, p99
        stdDev := sqrt variance
      }

def analyzeTrend (samples : List Point) : Option TrendInfo :=
  if samples.length < 2 then none
  else
    let n : Value := samples.length
    let points : List (Value × Value) :=
      samples.zipIdx.map fun entry => (entry.2, entry.1.2)
    let sumX := (points.map Prod.fst).sum
    let sumY := (points.map Prod.snd).sum
    let sumXY := (points.map fun point => point.1 * point.2).sum
    let sumX2 := (points.map fun point => point.1 * point.1).sum
    let denominator := n * sumX2 - sumX * sumX
    if denominator = 0 then none
    else
      let slope := (n * sumXY - sumX * sumY) / denominator
      let intercept := (sumY - slope * sumX) / n
      let total := (points.map fun point => (point.2 - sumY / n) ^ 2).sum
      let residual :=
        (points.map fun point =>
          (point.2 - (slope * point.1 + intercept)) ^ 2).sum
      some {
        slope, intercept
        rSquared := if total = 0 then 1 else 1 - residual / total
        trendDirection :=
          if 1 / 1000 < slope then .up
          else if slope < -1 / 1000 then .down
          else .stable
      }

def intervals (samples : List Point) : List ℤ :=
  (samples.zip samples.tail).map fun pair => pair.2.1.toInt - pair.1.1.toInt

/--
`detect_periodicity`.  An interval beyond 64 bits and a count beyond 31 bits
overflow.
-/
def detectPeriodicity (samples : List Point) :
    Option (Option PeriodicityInfo) :=
  if samples.length < 10 then some none
  else if ¬∀ interval ∈ intervals samples, FitsInt64 interval then none
  else
    let timeDiffs := (intervals samples).filter (0 < ·)
    if timeDiffs = [] then some none
    else
      let counts := timeDiffs.dedup.map fun diff => (diff, timeDiffs.count diff)
      if ¬∀ entry ∈ counts, entry.2 < 2 ^ 31 then none
      else
        (counts.argmax Prod.snd).map fun mostCommon =>
          let confidence : Value := mostCommon.2 / timeDiffs.length
          some {
            period := mostCommon.1
            confidence := confidence
            isPeriodic := 8 / 10 < confidence
          }

namespace SummaryGenerator

/-- The samples that are used; the step is not defined for a limit of zero. -/
def limitedSamples (generator : SummaryGenerator) (samples : List Point) :
    Option (List Point) :=
  if generator.maxSamples < samples.length then
    if generator.maxSamples = 0 then none
    else some (stepBy (samples.length / generator.maxSamples) samples)
  else some samples

def generateSummary
    (sqrt : Value → Value) (generator : SummaryGenerator) (metricName : String)
    (labels : List (String × String)) (samples : List Point) :
    Except SummaryFault TimeSeriesSummary :=
  if samples.length < generator.minSamples then
    .error (.invalidData "Insufficient samples for summary generation")
  else do
    let limited ← orPanic (generator.limitedSamples samples)
    let basicStats ← calculateBasicStats sqrt limited
    let periodicity ← orPanic (detectPeriodicity limited)
    let timeRange :=
      match samples.head?, samples.getLast? with
      | some first, some last => (first.1, last.1)
      | _, _ => (0, 0)
    pure {
      metricName, labels, timeRange, basicStats, periodicity
      sampleCount := samples.length
      trend := analyzeTrend limited
    }

end SummaryGenerator

/-!
## The order of the percentiles
-/

/-- The value at a place of a sorted list, and the last one beyond. -/
def place (sorted : List Value) (index : ℕ) : Value :=
  sorted.getD (min index (sorted.length - 1)) 0

variable {sorted : List Value} {samples : List Point}

theorem getElem?_place {index : ℕ} (inside : index < sorted.length) :
    sorted[index]? = some (place sorted index) := by
  rw [place, min_eq_left (by omega), getD_eq_getElem?_getD,
    List.getElem?_eq_getElem inside]
  rfl

theorem monotone_place (ascending : sorted.Pairwise (· ≤ ·)) :
    Monotone (place sorted) := by
  intro first second notAfter
  by_cases nonempty : sorted = []
  · subst nonempty
    exact le_rfl
  · have positive := length_pos_iff.mpr nonempty
    have inside (index : ℕ) :
        min index (sorted.length - 1) < sorted.length := by
      omega
    rw [place, place, getD_eq_getElem?_getD, getD_eq_getElem?_getD,
      List.getElem?_eq_getElem (inside first),
      List.getElem?_eq_getElem (inside second)]
    rcases (min_le_min_right (sorted.length - 1) notAfter).eq_or_lt with
      same | less
    · simp only [same, le_refl]
    · exact pairwise_iff_getElem.mp ascending _ _ _ _ less

theorem calculatePercentile_eq
    (nonempty : sorted ≠ []) {percentile : Value} (atLeast : 0 ≤ percentile)
    (atMost : percentile ≤ 100) :
    calculatePercentile sorted percentile =
      some (interpolate (place sorted)
        (percentile / 100 * (sorted.length - 1 : ℕ))) := by
  have positive := length_pos_iff.mpr nonempty
  rw [calculatePercentile, if_neg nonempty]
  set index : Value := percentile / 100 * (sorted.length - 1 : ℕ) with isIndex
  have notNegative : 0 ≤ index := by positivity
  have within : index ≤ (sorted.length - 1 : ℕ) := by
    refine mul_le_of_le_one_left (Nat.cast_nonneg _) ?_
    linarith
  have upperFits : ⌈index⌉₊ < sorted.length := by
    have := Nat.ceil_le.mpr within
    omega
  have ordered := Nat.floor_le_ceil index
  dsimp only
  split
  · rename_i same
    rw [getElem?_place (ordered.trans_lt upperFits)]
    have isWhole : (⌊index⌋₊ : Value) = index := by
      refine le_antisymm (Nat.floor_le notNegative) ?_
      exact (Nat.le_ceil index).trans (by rw [same])
    rw [← isWhole, interpolate_natCast, Nat.floor_natCast]
  · rename_i differ
    have next : ⌈index⌉₊ = ⌊index⌋₊ + 1 := by
      have := Nat.ceil_le_floor_add_one index
      omega
    rw [getElem?_place (ordered.trans_lt upperFits), next,
      getElem?_place (next ▸ upperFits)]
    rfl

theorem calculateMedian_eq (nonempty : sorted ≠ []) :
    calculateMedian sorted =
      some (interpolate (place sorted)
        ((sorted.length - 1 : ℕ) / 2 : Value)) := by
  have positive := length_pos_iff.mpr nonempty
  rw [calculateMedian]
  split
  · obtain ⟨half, isHalf⟩ : ∃ half, sorted.length = 2 * (half + 1) :=
      ⟨sorted.length / 2 - 1, by omega⟩
    have isIndex : ((sorted.length - 1 : ℕ) / 2 : Value) = half + 1 / 2 := by
      rw [isHalf, show 2 * (half + 1) - 1 = 2 * half + 1 by omega]
      push_cast
      ring
    have lower : ⌊(half + 1 / 2 : Value)⌋₊ = half := by
      rw [Nat.floor_eq_iff (by positivity)]
      constructor <;> linarith
    rw [show sorted.length / 2 - 1 = half by omega,
      show sorted.length / 2 = half + 1 by omega, getElem?_place (by omega),
      getElem?_place (by omega), isIndex, interpolate, lower]
    refine congrArg some ?_
    ring
  · obtain ⟨half, isHalf⟩ : ∃ half, sorted.length = 2 * half + 1 :=
      ⟨sorted.length / 2, by omega⟩
    have isIndex : ((sorted.length - 1 : ℕ) / 2 : Value) = half := by
      rw [isHalf, Nat.add_sub_cancel]
      push_cast
      ring
    rw [show sorted.length / 2 = half by omega, getElem?_place (by omega),
      isIndex, interpolate_natCast]

/-- The order of the statistics of a summary. -/
def BasicStats.Ordered (stats : BasicStats) : Prop :=
  stats.min ≤ stats.p25 ∧ stats.p25 ≤ stats.median ∧
    stats.median ≤ stats.p75 ∧ stats.p75 ≤ stats.p95 ∧
      stats.p95 ≤ stats.p99 ∧ stats.p99 ≤ stats.max

/-- The statistics of some samples are about their least and greatest values. -/
theorem calculateBasicStats_eq
    (sqrt : Value → Value) (nonempty : samples ≠ []) :
    ∃ stats,
      calculateBasicStats sqrt samples = .ok stats ∧
      IsLeast {value | value ∈ samples.map Prod.snd} stats.min ∧
      IsGreatest {value | value ∈ samples.map Prod.snd} stats.max ∧
      stats.Ordered := by
  have someValues : samples.map Prod.snd ≠ [] := by simpa using nonempty
  rw [calculateBasicStats, if_neg someValues]
  set sorted := sortByKey id (samples.map Prod.snd) with isSorted
  have ascending : sorted.Pairwise (· ≤ ·) := pairwise_sortByKey id _
  have someSorted : sorted ≠ [] := sortByKey_ne_nil id someValues
  have positive := length_pos_iff.mpr someSorted
  have ascends (first second : Value) (notNegative : 0 ≤ first)
      (notAfter : first ≤ second) :
      interpolate (place sorted) (first * (sorted.length - 1 : ℕ)) ≤
        interpolate (place sorted) (second * (sorted.length - 1 : ℕ)) :=
    interpolate_le_interpolate (monotone_place ascending) (by positivity)
      (mul_le_mul_of_nonneg_right notAfter (Nat.cast_nonneg _))
  have isMin : sorted.head? = some (place sorted 0) := by
    rw [head?_eq_getElem?, getElem?_place positive]
  have isMax : sorted.getLast? = some (place sorted (sorted.length - 1)) := by
    rw [getLast?_eq_getElem?, getElem?_place (by omega)]
  have member {value : Value} :
      value ∈ samples.map Prod.snd ↔
        ∃ index, index < sorted.length ∧ place sorted index = value := by
    rw [← mem_sortByKey id, ← isSorted, mem_iff_getElem?]
    refine exists_congr fun index => ⟨fun found => ?_, fun ⟨inside, same⟩ => ?_⟩
    · obtain ⟨inside, _⟩ := List.getElem?_eq_some_iff.mp found
      rw [getElem?_place inside] at found
      exact ⟨inside, Option.some.inj found⟩
    · rw [getElem?_place inside, same]
  dsimp only
  rw [isMin, isMax, calculateMedian_eq someSorted,
    calculatePercentile_eq someSorted (by norm_num) (by norm_num),
    calculatePercentile_eq someSorted (by norm_num) (by norm_num),
    calculatePercentile_eq someSorted (by norm_num) (by norm_num),
    calculatePercentile_eq someSorted (by norm_num) (by norm_num)]
  refine ⟨_, rfl, ⟨member.mpr ⟨0, positive, rfl⟩, fun value inside => ?_⟩,
    ⟨member.mpr ⟨_, by omega, rfl⟩, fun value inside => ?_⟩, ?_⟩
  · obtain ⟨index, _, rfl⟩ := member.mp inside
    exact monotone_place ascending (Nat.zero_le _)
  · obtain ⟨index, below, rfl⟩ := member.mp inside
    exact monotone_place ascending (by omega)
  · have isFirst :
        interpolate (place sorted) (0 * (sorted.length - 1 : ℕ)) =
          place sorted 0 := by
      rw [zero_mul, ← Nat.cast_zero, interpolate_natCast]
    have isHalf :
        ((sorted.length - 1 : ℕ) / 2 : Value) =
          1 / 2 * (sorted.length - 1 : ℕ) := by
      ring
    have isLast :
        interpolate (place sorted) (1 * (sorted.length - 1 : ℕ)) =
          place sorted (sorted.length - 1) := by
      rw [one_mul, interpolate_natCast]
    simp only [BasicStats.Ordered]
    rw [← isFirst, ← isLast, isHalf]
    refine ⟨ascends _ _ ?_ ?_, ascends _ _ ?_ ?_, ascends _ _ ?_ ?_,
      ascends _ _ ?_ ?_, ascends _ _ ?_ ?_, ascends _ _ ?_ ?_⟩
    all_goals norm_num

/-!
## The samples that are used
-/

section Thinning

variable {Item : Type} {step : ℕ} {items : List Item} {item : Item}

theorem mem_of_mem_stepBy (member : item ∈ stepBy step items) :
    item ∈ items := by
  obtain ⟨⟨_, index⟩, kept, rfl⟩ := mem_map.mp member
  exact fst_mem_of_mem_zipIdx (mem_filter.mp kept).1

theorem stepBy_ne_nil (nonempty : items ≠ []) : stepBy step items ≠ [] := by
  obtain ⟨first, rest, rfl⟩ := exists_cons_of_ne_nil nonempty
  rw [stepBy, zipIdx_cons, filter_cons_of_pos (by simp)]
  exact cons_ne_nil _ _

theorem length_stepBy (positive : 0 < step) :
    (stepBy step items).length =
      items.length / step + if 0 < items.length % step then 1 else 0 := by
  have counted :
      (stepBy step items).length = items.length.count (· ≡ 0 [MOD step]) := by
    induction items using List.reverseRecOn with
    | nil => rfl
    | append_singleton rest last inductionHypothesis =>
      rw [stepBy, zipIdx_append, filter_append, map_append, length_append,
        length_append, length_singleton, Nat.count_succ]
      refine congrArg₂ _ inductionHypothesis ?_
      by_cases isMultiple : rest.length % step = 0
      · simp [Nat.ModEq, isMultiple]
      · simp [Nat.ModEq, isMultiple]
  rw [counted, Nat.count_modEq_card _ positive, Nat.zero_mod]

theorem length_stepBy_le_iff
    {limit : ℕ} (positive : 0 < limit) (exceeds : limit < items.length) :
    (stepBy (items.length / limit) items).length ≤ limit ↔
      limit ∣ items.length := by
  have stepPositive := Nat.div_pos exceeds.le positive
  rw [length_stepBy stepPositive]
  constructor
  · intro within
    have enough : limit ≤ items.length / (items.length / limit) :=
      (Nat.le_div_iff_mul_le stepPositive).mpr (Nat.mul_div_le _ _)
    split at within
    · omega
    · rename_i noRest
      have isProduct := Nat.mul_div_cancel'
        (Nat.dvd_of_mod_eq_zero (Nat.eq_zero_of_not_pos noRest))
      rw [Nat.add_zero] at within
      rw [le_antisymm within enough] at isProduct
      exact ⟨_, (mul_comm _ _).trans isProduct |>.symm⟩
  · rintro ⟨step, isProduct⟩
    rw [isProduct, Nat.mul_div_cancel_left _ positive] at stepPositive ⊢
    rw [Nat.mul_div_cancel _ stepPositive, Nat.mul_mod_left]
    simp

end Thinning

/-!
## When a summary is consistent
-/

/-- The intervals and their counts are small enough for the machine numbers. -/
def IntervalsFit (samples : List Point) : Prop :=
  samples.length < 10 ∨
    ∀ interval ∈ intervals samples,
      FitsInt64 interval ∧
        (0 < interval → (intervals samples).count interval < 2 ^ 31)

theorem detectPeriodicity_isSome_iff :
    (detectPeriodicity samples).isSome ↔ IntervalsFit samples := by
  rw [detectPeriodicity, IntervalsFit]
  split
  · rename_i short
    exact iff_of_true rfl (.inl short)
  · rename_i long
    rw [or_iff_right long, forall₂_and]
    split
    · rename_i overflows
      exact iff_of_false Bool.false_ne_true fun fits => overflows fits.1
    · rename_i fits
      rw [and_iff_right (not_not.mp fits)]
      dsimp only
      split
      · rename_i noDiffs
        refine iff_of_true rfl fun interval member positive => ?_
        have kept : interval ∈ (intervals samples).filter (0 < ·) :=
          mem_filter.mpr ⟨member, decide_eq_true positive⟩
        rw [noDiffs] at kept
        cases kept
      · rename_i someDiffs
        have counted :
            (∀ entry ∈
                ((intervals samples).filter (0 < ·)).dedup.map fun diff =>
                  (diff, ((intervals samples).filter (0 < ·)).count diff),
              entry.2 < 2 ^ 31) ↔
              ∀ interval ∈ intervals samples, 0 < interval →
                (intervals samples).count interval < 2 ^ 31 := by
          rw [forall_mem_map]
          simp only [mem_dedup, mem_filter, decide_eq_true_eq, and_imp]
          refine forall₃_congr fun interval _ positive => ?_
          rw [count_filter (by simpa using positive)]
        rw [← counted]
        split
        · rename_i overflows
          exact iff_of_false Bool.false_ne_true overflows
        · rename_i countsFit
          refine iff_of_true ?_ (not_not.mp countsFit)
          rw [Option.isSome_map, Option.isSome_iff_ne_none]
          exact fun nothing => someDiffs ((dedup_eq_nil _).mp
            (map_eq_nil_iff.mp (argmax_eq_none.mp nothing)))

/-- The least and the greatest of all values are among those that are used. -/
def HasExtremes (used samples : List Point) : Prop :=
  (∃ point ∈ used, ∀ other ∈ samples, point.2 ≤ other.2) ∧
    ∃ point ∈ used, ∀ other ∈ samples, other.2 ≤ point.2

theorem isLeast_iff {used : List Point} {least greatest : Value}
    (fewer : ∀ point ∈ used, point ∈ samples)
    (isLeast : IsLeast {value | value ∈ used.map Prod.snd} least)
    (isGreatest : IsGreatest {value | value ∈ used.map Prod.snd} greatest) :
    (IsLeast {value | value ∈ samples.map Prod.snd} least ∧
        IsGreatest {value | value ∈ samples.map Prod.snd} greatest) ↔
      HasExtremes used samples := by
  obtain ⟨low, lowUsed, rfl⟩ := mem_map.mp isLeast.1
  obtain ⟨high, highUsed, rfl⟩ := mem_map.mp isGreatest.1
  constructor
  · rintro ⟨⟨_, leastOfAll⟩, ⟨_, greatestOfAll⟩⟩
    exact ⟨⟨low, lowUsed, fun other member =>
        leastOfAll (mem_map_of_mem member)⟩,
      high, highUsed, fun other member => greatestOfAll (mem_map_of_mem member)⟩
  · rintro ⟨⟨first, firstUsed, below⟩, last, lastUsed, above⟩
    refine ⟨⟨mem_map_of_mem (fewer low lowUsed), ?_⟩,
      ⟨mem_map_of_mem (fewer high highUsed), ?_⟩⟩
    · rintro _ member
      obtain ⟨other, inAll, rfl⟩ := mem_map.mp member
      exact (isLeast.2 (mem_map_of_mem firstUsed)).trans (below other inAll)
    · rintro _ member
      obtain ⟨other, inAll, rfl⟩ := mem_map.mp member
      exact (above other inAll).trans (isGreatest.2 (mem_map_of_mem lastUsed))

namespace SummaryGenerator

variable (sqrt : Value → Value) (generator : SummaryGenerator)

/-- What is expected of a summary. -/
structure Consistent (metricName : String) (labels : List (String × String))
    (samples : List Point) :
    Prop where
  noPanic :
    generator.generateSummary sqrt metricName labels samples ≠ .error .panic
  limited :
    ∀ used,
      generator.minSamples ≤ samples.length →
      generator.maxSamples < samples.length →
      generator.limitedSamples samples = some used →
      used.length ≤ generator.maxSamples
  exact :
    ∀ summary,
      generator.generateSummary sqrt metricName labels samples = .ok summary →
      (IsLeast {value | value ∈ samples.map Prod.snd} summary.basicStats.min ∧
        IsGreatest {value | value ∈ samples.map Prod.snd}
          summary.basicStats.max) ∧
        summary.basicStats.Ordered

/-- What the list and the limits have to meet. -/
def Suits (samples : List Point) : Prop :=
  samples.length < generator.minSamples ∨
    (samples.length ≤ generator.maxSamples ∧ IntervalsFit samples) ∨
      (0 < generator.maxSamples ∧ generator.maxSamples < samples.length ∧
        generator.maxSamples ∣ samples.length ∧
          HasExtremes
              (stepBy (samples.length / generator.maxSamples) samples)
              samples ∧
            IntervalsFit
              (stepBy (samples.length / generator.maxSamples) samples))

variable {sqrt generator} {metricName : String}
variable {labels : List (String × String)} {used : List Point}

theorem generateSummary_of_used
    (enough : ¬samples.length < generator.minSamples)
    (isUsed : generator.limitedSamples samples = some used)
    (nonempty : used ≠ []) :
    (¬IntervalsFit used ∧
        generator.generateSummary sqrt metricName labels samples =
          .error .panic) ∨
      IntervalsFit used ∧
        ∃ summary,
          generator.generateSummary sqrt metricName labels samples =
              .ok summary ∧
            IsLeast {value | value ∈ used.map Prod.snd}
              summary.basicStats.min ∧
            IsGreatest {value | value ∈ used.map Prod.snd}
              summary.basicStats.max ∧
            summary.basicStats.Ordered := by
  obtain ⟨stats, isStats, correct⟩ := calculateBasicStats_eq sqrt nonempty
  rw [generateSummary, if_neg enough, isUsed, ← detectPeriodicity_isSome_iff]
  simp only [orPanic, bind, Except.bind, isStats]
  cases detectPeriodicity used with
  | none => exact .inl ⟨Bool.false_ne_true, rfl⟩
  | some periodicity => exact .inr ⟨rfl, _, rfl, correct⟩

/--
The summary of a list of samples is consistent exactly when it is refused for
being short, or no sample is left out and the intervals fit, or the limit is a
positive divisor of the length, the extreme values are among the samples that
are used, and their intervals fit.
-/
theorem consistent_iff
    (sqrt : Value → Value) (generator : SummaryGenerator) (metricName : String)
    (labels : List (String × String)) {samples : List Point}
    (nonempty : samples ≠ []) :
    generator.Consistent sqrt metricName labels samples ↔
      generator.Suits samples := by
  rw [Suits]
  have positive := length_pos_iff.mpr nonempty
  by_cases short : samples.length < generator.minSamples
  · refine iff_of_true ⟨?_, fun _ enough => absurd short (not_lt.mpr enough),
      ?_⟩ (.inl short)
    · simp [generateSummary, short]
    · simp [generateSummary, short]
  rw [or_iff_right short]
  by_cases exceeds : generator.maxSamples < samples.length
  · rw [or_iff_right fun within => absurd exceeds (not_lt.mpr within.1),
      and_iff_right exceeds]
    rcases Nat.eq_zero_or_pos generator.maxSamples with isZero | limitPositive
    · refine iff_of_false (fun consistent => consistent.noPanic ?_)
        fun suits => suits.1.ne' isZero
      rw [generateSummary, if_neg short, limitedSamples, if_pos exceeds,
        if_pos isZero]
      rfl
    · have isUsed :
          generator.limitedSamples samples =
            some (stepBy (samples.length / generator.maxSamples) samples) :=
        by rw [limitedSamples, if_pos exceeds, if_neg limitPositive.ne']
      have withinIff := length_stepBy_le_iff limitPositive exceeds
      rw [and_iff_right limitPositive]
      rcases @generateSummary_of_used _ sqrt _ metricName labels _ short isUsed
          (stepBy_ne_nil nonempty) with
        ⟨misfits, panics⟩ | ⟨fits, summary, isSummary, least, greatest, ordered⟩
      · exact iff_of_false (fun consistent => consistent.noPanic panics)
          fun suits => misfits suits.2.2
      · have extremes := isLeast_iff
          (fun _ member => mem_of_mem_stepBy member) least greatest
        constructor
        · intro consistent
          exact ⟨withinIff.mp
              (consistent.limited _ (not_lt.mp short) exceeds isUsed),
            extremes.mp (consistent.exact summary isSummary).1, fits⟩
        · rintro ⟨divides, hasExtremes, _⟩
          refine ⟨?_, fun other _ _ isOther => ?_, fun other isOther => ?_⟩
          · rw [isSummary]
            exact nofun
          · cases isUsed.symm.trans isOther
            exact withinIff.mpr divides
          · cases isSummary.symm.trans isOther
            exact ⟨extremes.mpr hasExtremes, ordered⟩
  · have isUsed : generator.limitedSamples samples = some samples :=
      if_neg exceeds
    rw [or_iff_left fun within => exceeds within.2.1,
      and_iff_right (not_lt.mp exceeds)]
    rcases @generateSummary_of_used _ sqrt _ metricName labels _ short isUsed
        nonempty with
      ⟨misfits, panics⟩ | ⟨fits, summary, isSummary, least, greatest, ordered⟩
    · exact iff_of_false (fun consistent => consistent.noPanic panics) misfits
    · refine iff_of_true ⟨?_, fun _ _ above => absurd above exceeds, ?_⟩ fits
      · rw [isSummary]
        exact nofun
      · rintro other isOther
        cases isSummary.symm.trans isOther
        exact ⟨⟨least, greatest⟩, ordered⟩

/-- Two equal samples are summarized by the first one. -/
theorem pair_is_summarized :
    Consistent id ⟨1, 1⟩ "up" [] [(0, 1), (1000, 1)] := by
  refine (consistent_iff id ⟨1, 1⟩ "up" [] (by simp)).mpr (.inr (.inr ?_))
  refine ⟨by decide, by decide, by decide, ⟨?_, ?_⟩, .inl (by decide)⟩
  · exact ⟨(0, 1), by decide, by decide +kernel⟩
  · exact ⟨(0, 1), by decide, by decide +kernel⟩

/-- A limit of two samples lets all three samples through. -/
theorem three_samples_exceed_limit :
    ¬ ∀ (sqrt : Value → Value) (generator : SummaryGenerator)
        (metricName : String) (labels : List (String × String))
        (samples : List Point),
        samples ≠ [] →
        generator.Consistent sqrt metricName labels samples := by
  intro consistent
  have few :=
    (consistent id ⟨1, 2⟩ "up" [] [(0, 1), (1000, 2), (2000, 3)]
      (by simp)).limited _ (by decide) (by decide) rfl
  exact absurd few (by decide)

end SummaryGenerator

end ChronoDB.Summary
