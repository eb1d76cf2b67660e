import Mathlib.Algebra.BigOperators.Group.Finset.Piecewise
import ChronoDB.Query.PartialSums

namespace ChronoDB.Query

open Library List

/-!
# Vectorized execution

The vectorized engine has a loop of its own for every operation on the samples
of a series.  Its loops keep what they have computed so far after each sample,
and its rates are calculated without a look at resets of the counter.
-/

namespace VectorizedEngine

/-!
## The loops
-/

/-- A loop that pushes a value of its state after each sample. -/
def running
    {State : Type} (step : State → Sample → State) (output : State → Value) :
    State → List Sample → List Value
  | _, [] => []
  | state, sample :: rest =>
    output (step state sample) :: running step output (step state sample) rest

/-- Every pair of samples with a positive time between them has a rate. -/
def calculateRateBatch (samples : List Sample) : List Value :=
  (neighbours samples).filterMap fun (prev, curr) =>
    let timeDelta := curr.timestamp - prev.timestamp
    if 0 < timeDelta then
      let valueDelta := curr.value - prev.value
      some (valueDelta / timeValue timeDelta)
    else
      none

def calculateSumBatch : List Sample → List Value :=
  running (fun runningSum sample => runningSum + sample.value) id 0

/-- The state is the sum and the number of the samples so far. -/
def calculateAvgBatch : List Sample → List Value :=
  running (fun (sum, count) sample => (sum + sample.value, count + 1))
    (fun (sum, count) => sum / (count : ℕ)) (0, 0)

def calculateMinBatch : List Sample → List Value :=
  running (fun currentMin sample => min currentMin sample.value) id f64Max

def calculateMaxBatch : List Sample → List Value :=
  running (fun currentMax sample => max currentMax sample.value) id (-f64Max)

/-- A method of all values, one after the other. -/
def mapBatch (method : Value → Value) (samples : List Sample) : List Value :=
  samples.map fun sample => method sample.value

def processBatch (std : StdFloat) (samples : List Sample) (operation : String) :
    List Value :=
  if operation = "rate" then calculateRateBatch samples
  else if operation = "sum" then calculateSumBatch samples
  else if operation = "avg" then calculateAvgBatch samples
  else if operation = "min" then calculateMinBatch samples
  else if operation = "max" then calculateMaxBatch samples
  else if operation = "abs" then mapBatch (fun value => |value|) samples
  else if operation = "sqrt" then mapBatch std.sqrt samples
  else if operation = "exp" then mapBatch (std.unary .exp) samples
  else if operation = "log" then mapBatch (std.unary .ln) samples
  else if operation = "ceil" then mapBatch (fun value => ⌈value⌉) samples
  else if operation = "floor" then mapBatch (fun value => ⌊value⌋) samples
  else if operation = "round" then mapBatch roundValue samples
  else samples.map Sample.value

section Running

variable {State : Type} {step : State → Sample → State}
variable {output : State → Value} {state : State}

theorem getLast?_running (samples : List Sample) :
    (running step output state samples).getLast? =
      if samples = [] then none
      else some (output (samples.foldl step state)) := by
  induction samples generalizing state with
  | nil => rfl
  | cons sample rest inductionHypothesis =>
    rw [running, getLast?_cons, inductionHypothesis,
      if_neg (cons_ne_nil _ _), foldl_cons]
    cases rest with
    | nil => rfl
    | cons next others => rw [if_neg (cons_ne_nil _ _), Option.getD_some]

end Running

theorem foldl_avg (sum : Value) (count : ℕ) (samples : List Sample) :
    samples.foldl
        (fun (state : Value × ℕ) sample =>
          (state.1 + sample.value, state.2 + 1)) (sum, count) =
      (sum + (samples.map Sample.value).sum, count + samples.length) := by
  induction samples generalizing sum count with
  | nil => simp
  | cons sample rest inductionHypothesis =>
    rw [foldl_cons, inductionHypothesis, map_cons, sum_cons,
      length_cons, add_assoc, Nat.add_assoc, Nat.add_comm 1]

/-!
## The executor
-/

/-- The value of the last sample agrees with all that the executor returns. -/
def LastReturned (std : StdFloat) (samples : List Sample) (operation : String)
    (function : SeriesFunction) :
    Prop :=
  ∀ last ∈ (processBatch std samples operation).getLast?,
    ∀ ctx id labels,
      ∃ result,
        function.apply ctx [⟨id, labels, samples⟩] = pure result ∧
          (allValues result).sum = last

/--
The engine has the rates of the executor, and the last of its sums, averages and
bounds are those of the executor for one series of the samples.
-/
structure AgreesWithExecutor (std : StdFloat) (samples : List Sample) :
    Prop where
  rate :
    processBatch std samples "rate" = (calculateRate samples).map Sample.value
  sum : LastReturned std samples "sum" executeSum
  avg : LastReturned std samples "avg" executeAvg
  min : LastReturned std samples "min" executeMin
  max : LastReturned std samples "max" executeMax

/-- No value falls from one sample to the next one when time goes on. -/
def NoReset (samples : List Sample) : Prop :=
  ∀ pair ∈ neighbours samples,
    0 < pair.2.timestamp - pair.1.timestamp → pair.1.value ≤ pair.2.value

/-!
## Rates
-/

theorem filterMap_eq_filterMap_iff
    {Item Result : Type} {items : List Item} {all kept : Item → Option Result}
    (subset : ∀ item, kept item = none ∨ kept item = all item) :
    items.filterMap all = items.filterMap kept ↔
      ∀ item ∈ items, kept item = all item := by
  have atMost (rest : List Item) :
      (rest.filterMap kept).length ≤ (rest.filterMap all).length := by
    induction rest with
    | nil => exact le_rfl
    | cons item rest inductionHypothesis =>
      rcases subset item with isNone | same
      · rw [filterMap_cons_none isNone, filterMap_cons]
        cases all item <;> simp only [length_cons] <;> omega
      · rw [filterMap_cons, filterMap_cons, same]
        cases all item <;> simp only [length_cons] <;> omega
  constructor
  · intro same
    induction items with
    | nil =>
      exact fun _ isItem => nomatch isItem
    | cons item rest inductionHypothesis =>
      have first : kept item = all item := by
        rcases subset item with isNone | isSame
        · cases found : all item with
          | none => exact isNone
          | some result =>
            rw [filterMap_cons_none isNone, filterMap_cons_some found] at same
            have longer := congrArg List.length same
            rw [length_cons] at longer
            have shorter := atMost rest
            omega
        · exact isSame
      rw [filterMap_cons, filterMap_cons, first] at same
      have rests : rest.filterMap all = rest.filterMap kept := by
        cases found : all item with
        | none =>
          rw [found] at same
          exact same
        | some result =>
          rw [found] at same
          exact tail_eq_of_cons_eq same
      intro other isOther
      rcases mem_cons.mp isOther with rfl | inRest
      · exact first
      · exact inductionHypothesis rests other inRest
  · intro same
    exact filterMap_congr fun item isItem => (same item isItem).symm

theorem timeValue_nonpos_iff {time : Int64} :
    timeValue time ≤ 0 ↔ ¬0 < time := by
  have zero : (0 : Int64).toInt = 0 := by decide
  rw [timeValue, Int64.lt_iff_toInt_lt, zero, not_lt]
  exact Int.cast_nonpos

theorem calculateRateBatch_eq_iff (samples : List Sample) :
    calculateRateBatch samples = (calculateRate samples).map Sample.value ↔
      NoReset samples := by
  rw [calculateRateBatch, calculateRate, map_filterMap]
  simp only [timeValue_nonpos_iff, sub_neg]
  refine (filterMap_eq_filterMap_iff fun pair => ?_).trans ?_
  · by_cases goesOn : 0 < pair.2.timestamp - pair.1.timestamp
    · by_cases falls : pair.2.value < pair.1.value
      · simp [goesOn, falls]
      · simp [goesOn, falls]
    · simp [goesOn]
  · refine forall₂_congr fun pair _ => ?_
    by_cases goesOn : 0 < pair.2.timestamp - pair.1.timestamp
    · by_cases falls : pair.2.value < pair.1.value
      · simp [goesOn, falls]
      · simp [goesOn, falls, not_lt.mp falls]
    · simp [goesOn]

/-!
## Sums, averages and bounds
-/

theorem sum_totalAt
    {times : List Timestamp} (distinct : times.Nodup) {samples : List Sample}
    (listed : ∀ sample ∈ samples, sample.timestamp ∈ times) :
    (times.map fun time => totalAt time samples).sum =
      (samples.map Sample.value).sum := by
  induction samples with
  | nil => simp [totalAt]
  | cons sample rest inductionHypothesis =>
    have single (time : Timestamp) :
        totalAt time [sample] =
          if sample.timestamp = time then sample.value else 0 := by
      by_cases isTime : sample.timestamp = time <;>
        simp [totalAt, isTime]
    have split (time : Timestamp) :
        totalAt time (sample :: rest) =
          totalAt time [sample] + totalAt time rest :=
      totalAt_append time [sample] rest
    have once : sample.timestamp ∈ times.toFinset :=
      mem_toFinset.mpr (listed sample mem_cons_self)
    simp only [split, single]
    rw [sum_map_add, map_cons, sum_cons,
      inductionHypothesis fun other isOther =>
        listed other (mem_cons_of_mem _ isOther),
      ← sum_toFinset _ distinct, Finset.sum_ite_eq, if_pos once]

theorem sum_totals (samples : List Sample) :
    ((totals samples).map Sample.value).sum =
      (samples.map Sample.value).sum := by
  rw [totals, map_map, ((sortByKey_perm Int64.toInt _).map _).sum_eq]
  exact sum_totalAt (nodup_dedup _) fun sample isSample =>
    mem_dedup.mpr (mem_map_of_mem isSample)

theorem last_of_mem_getLast?
    {State : Type} {step : State → Sample → State} {output : State → Value}
    {state : State} {samples : List Sample} {last : Value}
    (isLast : last ∈ (running step output state samples).getLast?) :
    samples ≠ [] ∧ last = output (samples.foldl step state) := by
  rw [getLast?_running] at isLast
  by_cases nothing : samples = []
  · rw [if_pos nothing] at isLast
    cases isLast
  · rw [if_neg nothing] at isLast
    exact ⟨nothing, (Option.some.inj isLast).symm⟩

theorem allValues_singleton
    (id : TimeSeriesId) (labels : Labels) (samples : List Sample) :
    allValues [⟨id, labels, samples⟩] = samples.map Sample.value :=
  append_nil _

theorem lastReturned_sum (std : StdFloat) (samples : List Sample) :
    LastReturned std samples "sum" executeSum := by
  intro last isLast ctx id labels
  obtain ⟨_, rfl⟩ := last_of_mem_getLast? isLast
  refine ⟨[sumSeries [⟨id, labels, samples⟩]], rfl, ?_⟩
  rw [allValues, flatMap_singleton, samples_sumSeries,
    flatMap_singleton, sum_totals, sum_eq_foldl, foldl_map]
  rfl

theorem sum_allValues_singleSample
    (id : TimeSeriesId) (labels : Labels) (timestamp : Timestamp)
    (value : Value) :
    (allValues [singleSample id labels timestamp value]).sum = value := by
  rw [singleSample, allValues_singleton]
  exact sum_singleton

theorem valueOfAll_singleton
    (timestamp : Timestamp) (calculate : List Value → Value) (id : TimeSeriesId)
    (labels : Labels) (samples : List Sample) :
    valueOfAll timestamp calculate [⟨id, labels, samples⟩] =
      [singleSample 0 labels timestamp
        (calculate (samples.map Sample.value))] := by
  rw [← allValues_singleton id labels samples]
  rfl

theorem lastReturned_avg (std : StdFloat) (samples : List Sample) :
    LastReturned std samples "avg" executeAvg := by
  intro last isLast ctx id labels
  obtain ⟨notEmpty, rfl⟩ := last_of_mem_getLast? isLast
  refine ⟨valueOfSome ctx.start mean [⟨id, labels, samples⟩], rfl, ?_⟩
  have someValues : samples.map Sample.value ≠ [] :=
    fun noValues => notEmpty (map_eq_nil_iff.mp noValues)
  rw [valueOfSome, allValues_singleton, if_neg someValues,
    valueOfAll_singleton, sum_allValues_singleSample, foldl_avg, zero_add,
    Nat.zero_add, mean, length_map]

theorem lastReturned_min (std : StdFloat) (samples : List Sample) :
    LastReturned std samples "min" executeMin := by
  intro last isLast ctx id labels
  obtain ⟨_, rfl⟩ := last_of_mem_getLast? isLast
  refine ⟨valueOfAll ctx.start (fun values => values.foldl min f64Max)
    [⟨id, labels, samples⟩], rfl, ?_⟩
  rw [valueOfAll_singleton, sum_allValues_singleSample, foldl_map]
  rfl

theorem lastReturned_max (std : StdFloat) (samples : List Sample) :
    LastReturned std samples "max" executeMax := by
  intro last isLast ctx id labels
  obtain ⟨_, rfl⟩ := last_of_mem_getLast? isLast
  refine ⟨valueOfAll ctx.start (fun values => values.foldl max (-f64Max))
    [⟨id, labels, samples⟩], rfl, ?_⟩
  rw [valueOfAll_singleton, sum_allValues_singleSample, foldl_map]
  rfl

/--
The engine agrees with the executor exactly when no value falls from one sample
to a later one, as the executor then leaves no pair out.
-/
theorem agreesWithExecutor_iff (std : StdFloat) (samples : List Sample) :
    AgreesWithExecutor std samples ↔ NoReset samples := by
  constructor
  · intro agrees
    exact (calculateRateBatch_eq_iff samples).mp agrees.rate
  · intro noReset
    exact {
      rate := (calculateRateBatch_eq_iff samples).mpr noReset
      sum := lastReturned_sum std samples
      avg := lastReturned_avg std samples
      min := lastReturned_min std samples
      max := lastReturned_max std samples
    }

/-- A counter that was reset has a negative rate in the engine only. -/
theorem reset_has_rate :
    ¬AgreesWithExecutor exampleStd [⟨0, 5⟩, ⟨1000, 3⟩] := by
  intro agrees
  have noReset := (calculateRateBatch_eq_iff _).mp agrees.rate
  exact absurd noReset (by rw [NoReset]; decide)

end VectorizedEngine

end ChronoDB.Query
