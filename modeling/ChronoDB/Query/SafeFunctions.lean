import ChronoDB.Library.Chunks
import ChronoDB.Library.FallibleFold
import ChronoDB.Query.CheckedExecution

namespace ChronoDB.Query.Checked

open Library Checked.SeriesFunction List

/-!
# Functions that do not panic

Each function of the query language asks something of the series it works on:
that differences of times fit into 64 bits, that values can be sorted, that a
position is inside a list.  It panics exactly when it does not get what it asks
for.
-/

/-!
## Panics of single steps
-/

section Unwrapping

variable {Result : Type}

@[simp] theorem avoids_orPanic_iff {result : Option Result} :
    (orPanic result).Avoids .panic ↔ result.isSome := by
  cases result with
  | none => simp [orPanic, Choice.avoids_throw_iff]
  | some result => simp [orPanic]

@[simp] theorem ok_mem_orPanic_iff {option : Option Result} {result : Result} :
    .ok result ∈ (orPanic option).outcomes ↔ option = some result := by
  cases option with
  | none => simp [orPanic]
  | some other => simp [orPanic, eq_comm]

theorem nonempty_orPanic (option : Option Result) :
    (orPanic option).outcomes.Nonempty := by
  cases option with
  | none => exact Choice.nonempty_throw _
  | some result => exact Choice.nonempty_pure _

@[simp] theorem avoids_raiseInvalidData (message : String) :
    (raiseInvalidData message : Choice Fault Result).Avoids .panic :=
  Choice.avoids_throw_iff.mpr Fault.noConfusion

end Unwrapping

section Samples

variable {F : Type} (doubles : Doubles F)

theorem withSamples_isSome_iff
    {calculate : List (DoubleSample F) → Option (List (DoubleSample F))}
    {series : List (DoubleSeries F)} :
    (withSamples calculate series).isSome ↔
      ∀ ts ∈ series, (calculate ts.samples).isSome := by
  rw [withSamples, Option.isSome_map, mapM_isSome_iff]
  simp only [Option.isSome_map]

theorem rateBetween_isSome_iff {prev curr : DoubleSample F} :
    (rateBetween doubles prev curr).isSome ↔
      DifferenceFits curr.timestamp prev.timestamp := by
  rw [← checkedSub_isSome_iff, rateBetween]
  cases checkedSub curr.timestamp prev.timestamp with
  | none => rfl
  | some difference =>
    simp only [Option.bind_eq_bind, Option.bind_some]
    split
    · rfl
    · split <;> rfl

theorem calculateRate_isSome_iff {samples : List (DoubleSample F)} :
    (calculateRate doubles samples).isSome ↔
      ∀ pair ∈ adjacent samples,
        DifferenceFits pair.2.timestamp pair.1.timestamp := by
  rw [calculateRate, Option.isSome_map, mapM_isSome_iff]
  simp only [rateBetween_isSome_iff]

theorem calculateIrate_isSome_iff {samples : List (DoubleSample F)} :
    (calculateIrate doubles samples).isSome ↔
      ∀ pair ∈ (adjacent samples).getLast?,
        DifferenceFits pair.2.timestamp pair.1.timestamp := by
  rw [calculateIrate]
  cases (adjacent samples).getLast? with
  | none => simp
  | some pair =>
    simp only [Option.mem_some_iff, forall_eq', ← checkedSub_isSome_iff]
    cases checkedSub pair.2.timestamp pair.1.timestamp with
    | none => rfl
    | some difference =>
      simp only [Option.bind_eq_bind, Option.bind_some]
      split <;> rfl

theorem calculateIncrease_isSome_iff {samples : List (DoubleSample F)} :
    (calculateIncrease doubles samples).isSome ↔
      ∀ ends ∈ firstAndLast samples,
        DifferenceFits ends.2.timestamp ends.1.timestamp := by
  rw [calculateIncrease]
  cases firstAndLast samples with
  | none => simp
  | some ends =>
    simp only [Option.mem_some_iff, forall_eq', ← checkedSub_isSome_iff]
    cases checkedSub ends.2.timestamp ends.1.timestamp with
    | none => rfl
    | some difference =>
      simp only [Option.bind_eq_bind, Option.bind_some]
      split <;> rfl

end Samples

/-!
## What functions ask for
-/

section Conditions

variable {F : Type} (doubles : Doubles F)

/-- Numbers only, unless there is nothing to compare. -/
def Sortable (values : List F) : Prop :=
  values.length ≤ 1 ∨ ∀ value ∈ values, (doubles.rank value).isSome

/-- Numbers only, or no two numbers that differ. -/
def SortableOrEqual (values : List F) : Prop :=
  (∀ value ∈ values, (doubles.rank value).isSome) ∨
    ∀ first ∈ values.filterMap doubles.rank,
      ∀ second ∈ values.filterMap doubles.rank, first = second

/-- The position of a quantile is inside a list. -/
def QuantileInside (quantile : F) (count : ℕ) : Prop :=
  count = 1 ∨ doubles.eq quantile (doubles.nearest 0) ∨
    doubles.eq quantile (doubles.nearest 1) ∨
      let position := doubles.mul quantile (doubles.nearest (count - 1 : ℕ))
      doubles.toIndex (doubles.method .floor position) < count ∧
        doubles.toIndex (doubles.method .ceil position) < count

/-- A quantile that is not between zero and one is an error. -/
def isRefused (quantile : F) : Bool :=
  doubles.lt quantile (doubles.nearest 0) ||
    doubles.lt (doubles.nearest 1) quantile

def FunctionFits (func : Function) (k : Option ℕ) (quantile : Option Value)
    (series : List (DoubleSeries F)) :
    Prop :=
  match func with
  | .rate =>
    ∀ ts ∈ series, ∀ pair ∈ adjacent ts.samples,
      DifferenceFits pair.2.timestamp pair.1.timestamp
  | .irate =>
    ∀ ts ∈ series, ∀ pair ∈ (adjacent ts.samples).getLast?,
      DifferenceFits pair.2.timestamp pair.1.timestamp
  | .increase =>
    ∀ ts ∈ series, ∀ ends ∈ firstAndLast ts.samples,
      DifferenceFits ends.2.timestamp ends.1.timestamp
  | .topK | .bottomK =>
    k.getD 0 = 0 ∨ SortableOrEqual doubles (allValues series)
  | .quantile =>
    isRefused doubles (quantileAsked doubles quantile) ∨
      allValues series = [] ∨
        SortableOrEqual doubles (allValues series) ∧
          QuantileInside doubles (quantileAsked doubles quantile)
            (allValues series).length
  | .sort | .sortDesc => Sortable doubles (series.map (firstValue doubles))
  | .histogramQuantile =>
    ∀ ts ∈ series,
      Sortable doubles (ts.samples.map DoubleSample.value) ∧
        (ts.samples = [] ∨
          histogramIndex doubles ts.samples.length < ts.samples.length)
  | _ => True

end Conditions

/-!
## Each function
-/

section Functions

variable {F : Type} (doubles : Doubles F)

theorem comparesKeys_partialCmp {Item : Type} (value : Item → F) :
    ComparesKeys
      (fun first second => doubles.partialCmp (value first) (value second))
      fun item => doubles.rank (value item) := by
  intro first second
  simp only [Doubles.partialCmp]
  cases doubles.rank (value first) with
  | none => simp
  | some firstRank => cases doubles.rank (value second) <;> simp

theorem comparesKeys_swap
    {Item Key : Type} {compare : Item → Item → Option Ordering}
    {key : Item → Option Key} (comparesKeys : ComparesKeys compare key) :
    ComparesKeys (fun first second => compare second first) key :=
  fun first second => (comparesKeys second first).trans and_comm

theorem executeSort_avoids_iff
    (descending : Bool) (ctx : StepContext) (series : List (DoubleSeries F)) :
    ((executeSort doubles descending).apply ctx series).Avoids .panic ↔
      Sortable doubles (series.map (firstValue doubles)) := by
  refine avoids_orPanic_iff.trans ?_
  have ascending := comparesKeys_partialCmp doubles (firstValue doubles)
  cases descending with
  | false =>
    refine (sortUnwrapping_isSome_iff ascending series).trans ?_
    simp [Sortable]
  | true =>
    refine (sortUnwrapping_isSome_iff (comparesKeys_swap ascending)
      series).trans ?_
    simp [Sortable]

theorem histogramValue_isSome_iff {samples : List (DoubleSample F)} :
    (histogramValue doubles samples).isSome ↔
      Sortable doubles (samples.map DoubleSample.value) ∧
        (samples = [] ∨
          histogramIndex doubles samples.length < samples.length) := by
  have sorts :
      (sortUnwrapping doubles.partialCmp
          (samples.map DoubleSample.value)).isSome ↔
        Sortable doubles (samples.map DoubleSample.value) :=
    sortUnwrapping_isSome_iff (comparesKeys_partialCmp doubles id) _
  rw [histogramValue, ← sorts]
  cases isSorted : sortUnwrapping doubles.partialCmp
      (samples.map DoubleSample.value) with
  | none => simp
  | some values =>
    have sameLength : values.length = samples.length := by
      rw [(sortUnwrapping_perm isSorted).length_eq, length_map]
    have isEmpty : values.isEmpty = samples.isEmpty := by
      rw [Bool.eq_iff_iff, List.isEmpty_iff, List.isEmpty_iff,
        ← length_eq_zero_iff, sameLength, length_eq_zero_iff]
    simp only [Option.bind_eq_bind, Option.bind_some, isEmpty, sameLength,
      Option.isSome_some, true_and]
    cases samples with
    | nil => simp
    | cons first rest => simp [sameLength]

variable (ctx : StepContext) (series : List (DoubleSeries F))

theorem executeHistogramQuantile_avoids_iff :
    ((executeHistogramQuantile doubles).apply ctx series).Avoids .panic ↔
      FunctionFits doubles .histogramQuantile none none series := by
  refine Choice.avoids_bind_iff.trans ?_
  simp only [Choice.avoids_pure, implies_true, and_true, avoids_orPanic_iff,
    mapM_isSome_iff, Option.isSome_map, histogramValue_isSome_iff, FunctionFits]

theorem ordersAll_swap_iff
    {Item : Type} {compare : Item → Item → Ordering} {items : List Item} :
    OrdersAll (fun first second => compare second first) items ↔
      OrdersAll compare items := by
  have turn :
      ∀ {compare : Item → Item → Ordering},
        OrdersAll compare items →
          OrdersAll (fun first second => compare second first) items := by
    intro compare ordersAll
    refine ⟨fun first isFirst second isSecond => ?_, ?_⟩
    · exact ordersAll.swap second isSecond first isFirst
    · intro first isFirst second isSecond third isThird firstSecond secondThird
      exact ordersAll.trans third isThird second isSecond first isFirst
        secondThird firstSecond
  exact ⟨turn, turn⟩

theorem ordersAll_comap_iff
    {Item Value : Type} {compare : Value → Value → Ordering}
    {value : Item → Value} {items : List Item} :
    OrdersAll (fun first second => compare (value first) (value second)) items ↔
      OrdersAll compare (items.map value) := by
  constructor
  · rintro ⟨swap, trans⟩
    refine ⟨?_, ?_⟩
    · simpa only [forall_mem_map] using swap
    · simpa only [forall_mem_map] using trans
  · rintro ⟨swap, trans⟩
    refine ⟨?_, ?_⟩
    · simpa only [forall_mem_map] using swap
    · simpa only [forall_mem_map] using trans

theorem map_labelledSamples (series : List (DoubleSeries F)) :
    (labelledSamples series).map (fun item => item.2.1.value) =
      allValues series := by
  simp only [labelledSamples, allValues, map_flatMap, map_map]
  rfl

theorem firstSamples_avoids_iff {compareValues : F → F → Ordering} {k : ℕ}
    {series : List (DoubleSeries F)} :
    (firstSamples
        (fun first second => compareValues first.value second.value) k
        series).Avoids .panic ↔
      k = 0 ∨ OrdersAll compareValues (allValues series) := by
  rw [firstSamples]
  split
  · rename_i isZero
    exact iff_of_true (Choice.avoids_pure _) (.inl isZero)
  · rename_i positive
    have sameValues :=
      @ordersAll_comap_iff (TimeSeriesId × DoubleSample F × Labels) F
        compareValues (fun item => item.2.1.value) (labelledSamples series)
    rw [map_labelledSamples] at sameValues
    rw [Choice.avoids_bind_iff, avoids_sortOrFail_iff, sameValues]
    simp [positive]

theorem quantileOf_isSome_iff
    {quantile : F} {values : List F} (nonempty : values ≠ []) :
    (quantileOf doubles quantile values).isSome ↔
      QuantileInside doubles quantile values.length := by
  have positive := length_pos_iff.mpr nonempty
  rw [quantileOf, QuantileInside]
  by_cases single : values.length = 1
  · simp [single]
  by_cases isZero : doubles.eq quantile (doubles.nearest 0)
  · simp [single, isZero, positive]
  by_cases isOne : doubles.eq quantile (doubles.nearest 1)
  · simp [single, isZero, isOne, positive]
  simp only [single, isZero, isOne, if_false, false_or, Bool.false_eq_true]
  split
  · rename_i same
    rw [← same, and_self, isSome_getElem?]
  · have insideIff : ∀ i, i < values.length ↔ (values[i]?).isSome := by
      simp
    rw [insideIff, insideIff]
    generalize values[doubles.toIndex (doubles.method .floor _)]? = lower
    generalize values[doubles.toIndex (doubles.method .ceil _)]? = upper
    cases lower <;> cases upper <;> simp

theorem executeQuantile_avoids_iff (quantile : Option Value) (ctx : StepContext)
    (series : List (DoubleSeries F)) :
    ((executeQuantile doubles quantile).apply ctx series).Avoids .panic ↔
      FunctionFits doubles .quantile none quantile series := by
  rw [FunctionFits]
  by_cases refused : isRefused doubles (quantileAsked doubles quantile)
  · refine iff_of_true ?_ (.inl refused)
    have isError :
        (executeQuantile doubles quantile).apply ctx series =
          raiseInvalidData _ :=
      if_pos refused
    rw [isError]
    exact avoids_raiseInvalidData _
  · have isAccepted :
        (executeQuantile doubles quantile).apply ctx series = _ :=
      if_neg refused
    rw [isAccepted]
    simp only [refused, Bool.false_eq_true, false_or]
    cases series with
    | nil => exact iff_of_true (Choice.avoids_pure _) (.inl rfl)
    | cons first rest =>
      dsimp only
      split
      · rename_i isEmpty
        exact iff_of_true (Choice.avoids_pure _)
          (.inl (List.isEmpty_iff.mp isEmpty))
      · rename_i nonempty
        rw [List.isEmpty_iff] at nonempty
        simp only [Choice.avoids_bind_iff, Choice.avoids_pure, implies_true,
          and_true, avoids_orPanic_iff, avoids_sortOrFail_iff,
          nonempty, false_or]
        have isInside :
            ∀ sorted : List F, sorted.Perm (allValues (first :: rest)) →
              ((quantileOf doubles (quantileAsked doubles quantile)
                  sorted).isSome ↔
                QuantileInside doubles (quantileAsked doubles quantile)
                  (allValues (first :: rest)).length) := by
          intro sorted isPerm
          rw [← isPerm.length_eq]
          refine quantileOf_isSome_iff doubles fun isEmpty => nonempty ?_
          exact nil_perm.mp (isEmpty ▸ isPerm)
        refine and_congr_left' (ordersAll_compareOrEqual_iff _ _) |>.trans ?_
        refine and_congr_right fun sortable => ?_
        constructor
        · intro eachIsSome
          obtain ⟨sorted, isSorted⟩ :=
            returns_sortOrFail Fault.panic (compareOrEqual doubles.rank)
              (allValues (first :: rest))
          exact (isInside sorted (perm_of_mem_sortOrFail isSorted)).mp
            (eachIsSome sorted isSorted)
        · intro inside sorted isSorted
          exact (isInside sorted (perm_of_mem_sortOrFail isSorted)).mpr inside

theorem sumSeries_isSome
    {series : List (DoubleSeries F)} (nonempty : series ≠ []) :
    (sumSeries doubles series).isSome := by
  rw [sumSeries, Option.isSome_map]
  exact isSome_head?.mpr nonempty

theorem results_ne_nil {size : ℕ} {series results : List (DoubleSeries F)}
    {aggregate : List (DoubleSeries F) → Option (DoubleSeries F)}
    (nonempty : series ≠ [])
    (areResults : (series.toChunks size).mapM aggregate = some results) :
    results ≠ [] := by
  rintro rfl
  cases isChunks : series.toChunks size with
  | nil =>
    have isWhole := flatten_toChunks size series
    rw [isChunks] at isWhole
    exact nonempty isWhole.symm
  | cons batch rest =>
    rw [isChunks, mapM_cons] at areResults
    obtain ⟨first, _, areOthers⟩ := Option.bind_eq_some_iff.mp areResults
    obtain ⟨others, _, isWhole⟩ := Option.bind_eq_some_iff.mp areOthers
    cases isWhole

theorem parallelAggregate_avoids
    (maxConcurrency : ℕ) (series : List (DoubleSeries F)) :
    (parallelAggregate maxConcurrency (sumSeries doubles)
      series).Avoids .panic := by
  unfold parallelAggregate
  split
  · exact avoids_raiseInvalidData _
  · exact Choice.avoids_pure _
  · rename_i nonempty _
    refine Choice.avoids_bind_iff.mpr ⟨?_, fun results areResults => ?_⟩
    · rw [avoids_orPanic_iff, mapM_isSome_iff]
      exact fun batch isBatch =>
        sumSeries_isSome doubles (ne_nil_of_mem_toChunks isBatch)
    · refine Choice.avoids_bind_iff.mpr
        ⟨Choice.avoids_anyOrder _, fun partials arePartials => ?_⟩
      rw [avoids_orPanic_iff]
      unfold combinePartials
      split
      · rfl
      · refine sumSeries_isSome doubles ?_
        rintro rfl
        obtain ⟨_, isOrder, isNone⟩ := arePartials
        cases isNone
        exact results_ne_nil nonempty (ok_mem_orPanic_iff.mp areResults)
          (nil_perm.mp isOrder)

theorem executeSum_avoids :
    ((executeSum doubles).apply ctx series).Avoids .panic := by
  rw [executeSum]
  dsimp only [unary, exactly]
  split
  · exact Choice.avoids_pure _
  · rename_i nonempty
    split
    · refine Choice.avoids_bind_iff.mpr
        ⟨Choice.avoids_choose _, fun maxConcurrency _ => ?_⟩
      exact Choice.avoids_bind_iff.mpr
        ⟨parallelAggregate_avoids doubles maxConcurrency series,
          fun _ _ => Choice.avoids_pure _⟩
    · refine Choice.avoids_bind_iff.mpr ⟨?_, fun _ _ => Choice.avoids_pure _⟩
      rw [avoids_orPanic_iff]
      exact sumSeries_isSome doubles (by simpa using nonempty)

theorem avoids_apply_iff
    {k : Option ℕ} {quantile : Option Value} {labelName : String}
    {func : Function} {function : SeriesFunction F}
    (found : seriesFunction doubles k quantile labelName func = some function)
    (ctx : StepContext) (series : List (DoubleSeries F)) :
    (function.apply ctx series).Avoids .panic ↔
      FunctionFits doubles func k quantile series := by
  cases func <;> cases found
  case rate =>
    refine avoids_orPanic_iff.trans (withSamples_isSome_iff.trans ?_)
    simp only [calculateRate_isSome_iff, FunctionFits]
  case irate =>
    refine avoids_orPanic_iff.trans (withSamples_isSome_iff.trans ?_)
    simp only [calculateIrate_isSome_iff, FunctionFits]
  case increase =>
    refine avoids_orPanic_iff.trans (withSamples_isSome_iff.trans ?_)
    simp only [calculateIncrease_isSome_iff, FunctionFits]
  case delta | idelta | deriv | holtWinters =>
    refine iff_of_true (avoids_orPanic_iff.mpr ?_) trivial
    exact withSamples_isSome_iff.mpr fun _ _ => rfl
  case sum => exact iff_of_true (executeSum_avoids doubles ctx series) trivial
  case topK =>
    refine (@firstSamples_avoids_iff F
      (fun first second => compareOrEqual doubles.rank second first) _
      series).trans ?_
    rw [ordersAll_swap_iff, ordersAll_compareOrEqual_iff]
    rfl
  case bottomK =>
    refine (@firstSamples_avoids_iff F (compareOrEqual doubles.rank) _
      series).trans ?_
    rw [ordersAll_compareOrEqual_iff]
    rfl
  case quantile => exact executeQuantile_avoids_iff doubles quantile ctx series
  case countValues =>
    refine iff_of_true (Choice.avoids_bind_iff.mpr ?_) trivial
    exact ⟨Choice.avoids_anyOrder _, fun _ _ => Choice.avoids_pure _⟩
  case sort => exact executeSort_avoids_iff doubles false ctx series
  case sortDesc => exact executeSort_avoids_iff doubles true ctx series
  case histogramQuantile =>
    exact executeHistogramQuantile_avoids_iff doubles ctx series
  all_goals exact iff_of_true (Choice.avoids_pure _) trivial

theorem nonempty_parallelAggregate (maxConcurrency : ℕ)
    (aggregate : List (DoubleSeries F) → Option (DoubleSeries F))
    (series : List (DoubleSeries F)) :
    (parallelAggregate maxConcurrency aggregate series).outcomes.Nonempty := by
  unfold parallelAggregate
  split
  · exact Choice.nonempty_throw _
  · exact Choice.nonempty_pure _
  · refine Choice.nonempty_bind (nonempty_orPanic _) fun _ => ?_
    exact Choice.nonempty_bind (Choice.nonempty_anyOrder _)
      fun _ => nonempty_orPanic _

theorem nonempty_firstSamples
    (compareSamples : DoubleSample F → DoubleSample F → Ordering) (k : ℕ)
    (series : List (DoubleSeries F)) :
    (firstSamples compareSamples k series).outcomes.Nonempty := by
  rw [firstSamples]
  split
  · exact Choice.nonempty_pure _
  · exact Choice.nonempty_bind (returns_sortOrFail _ _ _).nonempty
      fun _ => Choice.nonempty_pure _

theorem nonempty_executeQuantile (quantile : Option Value) (ctx : StepContext)
    (series : List (DoubleSeries F)) :
    ((executeQuantile doubles quantile).apply ctx
      series).outcomes.Nonempty := by
  rw [executeQuantile]
  dsimp only [exactly]
  split
  · exact Choice.nonempty_throw _
  · split
    · exact Choice.nonempty_pure _
    · split
      · exact Choice.nonempty_pure _
      · refine Choice.nonempty_bind (returns_sortOrFail _ _ _).nonempty
          fun _ => ?_
        exact Choice.nonempty_bind (nonempty_orPanic _)
          fun _ => Choice.nonempty_pure _

theorem nonempty_executeSum :
    ((executeSum doubles).apply ctx series).outcomes.Nonempty := by
  rw [executeSum]
  dsimp only [unary, exactly]
  split
  · exact Choice.nonempty_pure _
  · split
    · refine Choice.nonempty_bind
        (Choice.nonempty_choose ⟨1, Nat.one_pos⟩) fun maxConcurrency => ?_
      exact Choice.nonempty_bind (nonempty_parallelAggregate _ _ _)
        fun _ => Choice.nonempty_pure _
    · exact Choice.nonempty_bind (nonempty_orPanic _)
        fun _ => Choice.nonempty_pure _

theorem nonempty_apply
    {k : Option ℕ} {quantile : Option Value} {labelName : String}
    {func : Function} {function : SeriesFunction F}
    (found : seriesFunction doubles k quantile labelName func = some function)
    (ctx : StepContext) (series : List (DoubleSeries F)) :
    (function.apply ctx series).outcomes.Nonempty := by
  cases func <;> cases found
  case rate | irate | increase | delta | idelta | deriv | holtWinters | sort
      | sortDesc =>
    exact nonempty_orPanic _
  case sum => exact nonempty_executeSum doubles ctx series
  case topK =>
    rw [executeTopk, exactly_apply]
    exact nonempty_firstSamples _ (k.getD 0) series
  case bottomK =>
    rw [executeBottomk, exactly_apply]
    exact nonempty_firstSamples _ (k.getD 0) series
  case quantile => exact nonempty_executeQuantile doubles quantile ctx series
  case countValues =>
    exact Choice.nonempty_bind (Choice.nonempty_anyOrder _)
      fun _ => Choice.nonempty_pure _
  case histogramQuantile =>
    exact Choice.nonempty_bind (nonempty_orPanic _)
      fun _ => Choice.nonempty_pure _
  all_goals exact Choice.nonempty_pure _

end Functions

end ChronoDB.Query.Checked
