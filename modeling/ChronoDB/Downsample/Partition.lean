import Mathlib.Algebra.Order.Ring.Rat
import Mathlib.Tactic.NormNum
import ChronoDB.Library.OrderStatistics
import ChronoDB.Query.DownsampleRouter
import ChronoDB.Query.Parallel

namespace ChronoDB.Downsample

open Library Columnstore Query List DownsampleProcessor DownsamplePoint

/-!
# Windows before the epoch

For sorted samples the processor makes one point for each start of a window, and
the point summarises the samples with that start.  The remainder of a negative
timestamp is negative, so a sample before the epoch that is not a multiple of
the resolution gets the start of the next window.
-/

/-!
## Starts of windows
-/

section Starts

variable {resolution : Int64}

theorem windowOf_mono
    (positive : 0 < resolution.toInt) {first second : Timestamp}
    (notAfter : first.toInt ≤ second.toInt) :
    (windowOf resolution first).toInt ≤ (windowOf resolution second).toInt := by
  rw [toInt_windowOf_eq_mul, toInt_windowOf_eq_mul]
  exact Int.mul_le_mul_of_nonneg_left
    (Int.tdiv_le_tdiv positive notAfter) positive.le

/-- A timestamp whose window starts at or before it. -/
def StartsInTime (resolution : Int64) (timestamp : Timestamp) : Prop :=
  0 ≤ timestamp ∨ timestamp % resolution = 0

instance (resolution : Int64) (timestamp : Timestamp) :
    Decidable (StartsInTime resolution timestamp) :=
  inferInstanceAs (Decidable (_ ∨ _))

theorem startsInTime_iff {timestamp : Timestamp} :
    StartsInTime resolution timestamp ↔
      0 ≤ timestamp.toInt ∨ timestamp.toInt.tmod resolution.toInt = 0 := by
  rw [StartsInTime, Int64.le_iff_toInt_le, Int64.toInt_zero,
    ← Int64.toInt_inj, Int64.toInt_mod, Int64.toInt_zero]

/-- A window holds the timestamps from its start that are less than a step away. -/
def InWindow (resolution : Int64) (window timestamp : Timestamp) : Prop :=
  window.toInt ≤ timestamp.toInt ∧
    timestamp.toInt < window.toInt + resolution.toInt

instance (resolution : Int64) (window timestamp : Timestamp) :
    Decidable (InWindow resolution window timestamp) :=
  inferInstanceAs (Decidable (_ ∧ _))

theorem windowOf_eq_iff_inWindow
    (positive : 0 < resolution.toInt) {window timestamp : Timestamp}
    (isMultiple : resolution.toInt ∣ window.toInt)
    (inTime : StartsInTime resolution timestamp) :
    windowOf resolution timestamp = window ↔
      InWindow resolution window timestamp := by
  have sameRemainder :
      timestamp.toInt.tmod resolution.toInt =
        timestamp.toInt % resolution.toInt := by
    rcases startsInTime_iff.mp inTime with nonneg | isZero
    · exact Int.tmod_eq_emod_of_nonneg nonneg
    · rw [isZero, eq_comm]
      exact Int.emod_eq_zero_of_dvd (Int.dvd_of_tmod_eq_zero isZero)
  have notNegative := Int.emod_nonneg timestamp.toInt (Int.ne_of_gt positive)
  have below := Int.emod_lt_of_pos timestamp.toInt positive
  rw [← Int64.toInt_inj, toInt_windowOf, sameRemainder, InWindow]
  constructor
  · intro isStart
    omega
  · rintro ⟨notBefore, inside⟩
    obtain ⟨factor, isFactor⟩ := isMultiple
    have shifted :
        (timestamp.toInt - window.toInt) % resolution.toInt =
          timestamp.toInt % resolution.toInt := by
      rw [isFactor, Int.sub_mul_emod_self_left]
    rw [Int.emod_eq_of_lt (by omega) (by omega)] at shifted
    omega

theorem windowOf_of_not_startsInTime
    (positive : 0 < resolution.toInt) {timestamp : Timestamp}
    (early : ¬StartsInTime resolution timestamp) :
    timestamp.toInt < (windowOf resolution timestamp).toInt ∧
      (windowOf resolution timestamp).toInt ≤ 0 := by
  rw [startsInTime_iff, not_or, Int.not_le] at early
  have opposite :=
    Int.tmod_nonneg resolution.toInt (show 0 ≤ -timestamp.toInt by omega)
  rw [Int.neg_tmod] at opposite
  have start := toInt_windowOf resolution timestamp
  have beforeEpoch : timestamp.toInt ≤ (0 : Timestamp).toInt := by
    rw [Int64.toInt_zero]
    omega
  have notAfterEpoch := windowOf_mono positive beforeEpoch
  have atEpoch : (windowOf resolution 0).toInt = 0 := by
    rw [toInt_windowOf, Int64.toInt_zero, Int.zero_tmod, Int.sub_zero]
  omega

end Starts

/-!
## What a point summarises
-/

structure Summarises (samples : List Sample)
    (point : DownsamplePoint) : Prop where
  nonempty : samples ≠ []
  count : point.count = samples.length
  sum : point.sumValue = (samples.map Sample.value).sum
  minimum : point.minValue ∈ samples.map Sample.value ∧
    ∀ sample ∈ samples, point.minValue ≤ sample.value
  maximum : point.maxValue ∈ samples.map Sample.value ∧
    ∀ sample ∈ samples, sample.value ≤ point.maxValue
  average : point.avgValue = (samples.map Sample.value).sum / samples.length
  last : samples.getLast?.map Sample.value = some point.lastValue

/-- A value between the smallest and the largest finite one. -/
def Finite (value : Value) : Prop :=
  -maxFinite ≤ value ∧ value ≤ maxFinite

instance (value : Value) : Decidable (Finite value) :=
  inferInstanceAs (Decidable (_ ∧ _))

theorem summarises_new
    (window : Timestamp) {sample : Sample} (finite : Finite sample.value) :
    Summarises [sample]
      ((new window).addSample sample.value) := by
  have least : min maxFinite sample.value = sample.value :=
    min_eq_right finite.2
  have greatest : max (-maxFinite) sample.value = sample.value :=
    max_eq_right finite.1
  constructor <;>
    simp [DownsamplePoint.addSample, new, least, greatest]

theorem Summarises.addSample {samples : List Sample} {point : DownsamplePoint}
    (summary : Summarises samples point) (sample : Sample) :
    Summarises (samples ++ [sample]) (point.addSample sample.value) where
  nonempty := by simp
  count := by simp [DownsamplePoint.addSample, summary.count]
  sum := by simp [DownsamplePoint.addSample, summary.sum]
  minimum := by
    show min point.minValue sample.value ∈ _ ∧ _
    rw [map_append, mem_append]
    constructor
    · rcases min_choice point.minValue sample.value with isOld | isNew
      · rw [isOld]
        exact .inl summary.minimum.1
      · rw [isNew]
        exact .inr (mem_singleton_self _)
    · intro other member
      rcases mem_append.mp member with isEarlier | isLast
      · exact (min_le_left _ _).trans (summary.minimum.2 other isEarlier)
      · rw [mem_singleton.mp isLast]
        exact min_le_right _ _
  maximum := by
    show max point.maxValue sample.value ∈ _ ∧ _
    rw [map_append, mem_append]
    constructor
    · rcases max_choice point.maxValue sample.value with isOld | isNew
      · rw [isOld]
        exact .inl summary.maximum.1
      · rw [isNew]
        exact .inr (mem_singleton_self _)
    · intro other member
      rcases mem_append.mp member with isEarlier | isLast
      · exact (summary.maximum.2 other isEarlier).trans (le_max_left _ _)
      · rw [mem_singleton.mp isLast]
        exact le_max_right _ _
  average := by
    simp [DownsamplePoint.addSample, summary.sum, summary.count]
  last := by simp [DownsamplePoint.addSample]

/-!
## One point for each start
-/

def startingAt
    (resolution : Int64) (window : Timestamp) (samples : List Sample) :
    List Sample :=
  samples.filter fun sample => windowOf resolution sample.timestamp = window

structure PointsFrom
    (resolution : Int64) (window : Timestamp) (samples : List Sample)
    (points : List DownsamplePoint) : Prop where
  ascending : points.Pairwise fun first second =>
    first.timestamp.toInt < second.timestamp.toInt
  notBefore : ∀ point ∈ points, window.toInt ≤ point.timestamp.toInt
  summarised : ∀ point ∈ points,
    Summarises (startingAt resolution point.timestamp samples) point
  counted : (points.map count).sum = samples.length
  covered : ∀ sample ∈ samples, ∃ point ∈ points,
    point.timestamp = windowOf resolution sample.timestamp

theorem Summarises.savePoint {samples : List Sample} {point : DownsamplePoint}
    (summary : Summarises samples point) :
    DownsampleProcessor.savePoint point = [point] := by
  have counted : point.count ≠ 0 := by
    rw [summary.count]
    exact mt eq_nil_of_length_eq_zero summary.nonempty
  rw [DownsampleProcessor.savePoint, DownsamplePoint.isEmpty,
    decide_eq_false counted]
  rfl

section Loop

variable
  {resolution : Int64}
  {run samples : List Sample}
  {point : DownsamplePoint}

theorem startingAt_of_run {window : Timestamp}
    (inWindow :
      ∀ sample ∈ run, windowOf resolution sample.timestamp = window)
    (later :
      ∀ sample ∈ samples, windowOf resolution sample.timestamp ≠ window) :
    startingAt resolution window (run ++ samples) = run := by
  rw [startingAt, filter_append,
    filter_eq_self.mpr fun sample member =>
      decide_eq_true (inWindow sample member),
    filter_eq_nil_iff.mpr, append_nil]
  intro sample member
  simpa using later sample member

theorem startingAt_of_later {window other : Timestamp}
    (inWindow :
      ∀ sample ∈ run, windowOf resolution sample.timestamp = window)
    (differs : other ≠ window) :
    startingAt resolution other (run ++ samples) =
      startingAt resolution other samples := by
  rw [startingAt, filter_append, filter_eq_nil_iff.mpr, nil_append, startingAt]
  intro sample member
  rw [inWindow sample member]
  simpa using differs.symm

theorem pointsFrom_nil (window : Timestamp) :
    PointsFrom resolution window [] [] :=
  ⟨List.Pairwise.nil, forall_mem_nil _, forall_mem_nil _, rfl, forall_mem_nil _⟩

theorem PointsFrom.savePoint
    {window : Timestamp} {points : List DownsamplePoint}
    (later : PointsFrom resolution window samples points)
    (summary : Summarises run point)
    (inWindow : ∀ sample ∈ run,
      windowOf resolution sample.timestamp = point.timestamp)
    (pointsLater : ∀ other ∈ points,
      point.timestamp.toInt < other.timestamp.toInt)
    (otherWindows : ∀ sample ∈ samples,
      windowOf resolution sample.timestamp ≠ point.timestamp) :
    PointsFrom resolution point.timestamp (run ++ samples)
      (DownsampleProcessor.savePoint point ++ points) := by
  rw [summary.savePoint, singleton_append]
  constructor
  · exact pairwise_cons.mpr ⟨pointsLater, later.ascending⟩
  · exact forall_mem_cons.mpr ⟨Int.le_refl _,
      fun other member => (pointsLater other member).le⟩
  · refine forall_mem_cons.mpr ⟨?_, fun other member => ?_⟩
    · rw [startingAt_of_run inWindow otherWindows]
      exact summary
    · have differs : other.timestamp ≠ point.timestamp := by
        intro same
        have isLater := pointsLater other member
        rw [same] at isLater
        exact Int.lt_irrefl _ isLater
      rw [startingAt_of_later inWindow differs]
      exact later.summarised other member
  · rw [map_cons, sum_cons, later.counted, summary.count, length_append]
  · intro other member
    rcases mem_append.mp member with inRun | isLeft
    · exact ⟨point, mem_cons_self, (inWindow other inRun).symm⟩
    · obtain ⟨cover, isPoint, isWindow⟩ := later.covered other isLeft
      exact ⟨cover, mem_cons_of_mem _ isPoint, isWindow⟩

/--
The loop makes the points of the open run and the samples after it.  The
induction is on the samples that are left.
-/
theorem pointsFrom_downseriesFrom
    (positive : 0 < resolution.toInt) (summary : Summarises run point)
    (inWindow : ∀ sample ∈ run,
      windowOf resolution sample.timestamp = point.timestamp)
    (notBefore : ∀ sample ∈ samples,
      point.timestamp.toInt ≤ (windowOf resolution sample.timestamp).toInt)
    (sorted : samples.Pairwise fun first second =>
      first.timestamp.toInt ≤ second.timestamp.toInt)
    (finite : ∀ sample ∈ samples, Finite sample.value) :
    PointsFrom resolution point.timestamp (run ++ samples)
      (downseriesFrom resolution point.timestamp point
        samples) := by
  induction samples generalizing run point with
  | nil =>
    have saved := (pointsFrom_nil point.timestamp).savePoint summary inWindow
      (forall_mem_nil _) (forall_mem_nil _)
    rw [append_nil (DownsampleProcessor.savePoint point)] at saved
    exact saved
  | cons sample rest inductionHypothesis =>
    rw [forall_mem_cons] at notBefore finite
    rw [pairwise_cons] at sorted
    rw [downseriesFrom]
    split
    · next otherWindow =>
      have notBack :
          ∀ other ∈ rest,
            (windowOf resolution sample.timestamp).toInt ≤
              (windowOf resolution other.timestamp).toInt :=
        fun other member =>
          windowOf_mono positive (sorted.1 other member)
      have later :=
        @inductionHypothesis [sample]
          ((new
            (windowOf resolution sample.timestamp)).addSample sample.value)
          (summarises_new _ finite.1)
          (forall_mem_singleton.mpr rfl) notBack sorted.2 finite.2
      have differs : (windowOf resolution sample.timestamp).toInt ≠
          point.timestamp.toInt :=
        fun same => otherWindow (Int64.toInt_inj.mp same)
      have isLater : point.timestamp.toInt <
          (windowOf resolution sample.timestamp).toInt := by
        have notEarlier := notBefore.1
        omega
      refine later.savePoint summary inWindow
        (fun other member => isLater.trans_le (later.notBefore other member))
        (forall_mem_cons.mpr ⟨otherWindow, ?_⟩)
      intro other member same
      have notEarlier := notBack other member
      rw [same] at notEarlier
      omega
    · next isWindow =>
      rw [not_not] at isWindow
      have next :=
        @inductionHypothesis (run ++ [sample]) (point.addSample sample.value)
          (summary.addSample sample) (by
            intro other member
            rcases mem_append.mp member with isEarlier | isLast
            · exact inWindow other isEarlier
            · rw [mem_singleton.mp isLast]
              exact isWindow) notBefore.2 sorted.2 finite.2
      rw [append_assoc] at next
      exact next

end Loop

theorem pointsFrom_downseries {resolution : Int64} {samples : List Sample}
    (positive : 0 < resolution.toInt)
    (sorted : samples.Pairwise fun first second =>
      first.timestamp.toInt ≤ second.timestamp.toInt)
    (finite : ∀ sample ∈ samples, Finite sample.value) :
    ∃ window,
      PointsFrom resolution window samples
        (downseries samples resolution) := by
  cases samples with
  | nil => exact ⟨0, pointsFrom_nil 0⟩
  | cons first rest =>
    rw [forall_mem_cons] at finite
    rw [pairwise_cons] at sorted
    have points :=
      @pointsFrom_downseriesFrom resolution [first] rest
        ((new
          (windowOf resolution first.timestamp)).addSample first.value)
        positive (summarises_new _ finite.1)
        (forall_mem_singleton.mpr rfl)
        (fun other member => windowOf_mono positive (sorted.1 other member))
        sorted.2 finite.2
    rw [downseries, downseriesFrom,
      if_neg (not_not.mpr rfl)]
    exact ⟨_, points⟩

/-!
## Samples in parts
-/

theorem downseriesFrom_append {resolution : Int64} {window : Timestamp}
    {point : DownsamplePoint} {earlier later : List Sample}
    (leaves : ∀ sample ∈ later, windowOf resolution sample.timestamp ≠ window)
    (apart : ∀ first ∈ earlier, ∀ second ∈ later,
      windowOf resolution second.timestamp ≠
        windowOf resolution first.timestamp) :
    downseriesFrom resolution window point (earlier ++ later) =
      downseriesFrom resolution window point earlier ++
        downseries later resolution := by
  induction earlier generalizing window point with
  | nil =>
    cases later with
    | nil => exact (append_nil _).symm
    | cons first rest =>
      rw [nil_append, downseriesFrom, downseriesFrom,
        if_pos (leaves first mem_cons_self), downseries, downseriesFrom,
        if_neg (not_not.mpr rfl)]
  | cons first rest inductionHypothesis =>
    obtain ⟨leavesFirst, apartRest⟩ := forall_mem_cons.mp apart
    rw [cons_append, downseriesFrom, downseriesFrom]
    split
    · rw [inductionHypothesis leavesFirst apartRest, append_assoc]
    · exact inductionHypothesis leaves apartRest

/-- Samples can be processed in parts as long as no window is cut. -/
theorem downseries_append {resolution : Int64} {earlier later : List Sample}
    (apart : ∀ first ∈ earlier, ∀ second ∈ later,
      windowOf resolution second.timestamp ≠
        windowOf resolution first.timestamp) :
    downseries (earlier ++ later) resolution =
      downseries earlier resolution ++ downseries later resolution := by
  cases earlier with
  | nil => rfl
  | cons first rest =>
    exact downseriesFrom_append (apart first mem_cons_self) apart

/-- Two minutes are processed one after the other. -/
theorem two_minutes_apart :
    downseries ([⟨5, 1⟩] ++ [⟨61, 2⟩]) 60 =
      downseries [⟨5, 1⟩] 60 ++ downseries [⟨61, 2⟩] 60 :=
  downseries_append (by decide)

/-!
## The four loops
-/

def averageValues (window : Timestamp) (windowValues : List Value) :
    List Sample :=
  if windowValues = [] then
    []
  else
    [{
      timestamp := window
      value := windowValues.sum / windowValues.length
    }]

/-- The loop of `downsample_series`, with the values of the open window. -/
def collectValues
    (resolution : Int64) (window : Timestamp) (windowValues : List Value) :
    List Sample → List Sample
  | [] => averageValues window windowValues
  | sample :: rest =>
    if windowOf resolution sample.timestamp ≠ window then
      averageValues window windowValues ++
        collectValues resolution (windowOf resolution sample.timestamp)
          [sample.value] rest
    else
      collectValues resolution window (windowValues ++ [sample.value]) rest

theorem collectValues_eq
    (resolution : Int64) (window : Timestamp) (windowValues : List Value)
    (samples : List Sample) :
    collectValues resolution window windowValues samples =
      downsampleFrom resolution window windowValues.sum windowValues.length
        samples := by
  have averages (start : Timestamp) (values : List Value) :
      averageValues start values =
        closeWindow start values.sum values.length := by
    rw [averageValues, closeWindow]
    cases values <;> simp
  induction samples generalizing window windowValues with
  | nil => exact averages window windowValues
  | cons sample rest inductionHypothesis =>
    rw [collectValues, downsampleFrom, inductionHypothesis,
      inductionHypothesis, averages]
    simp

/--
The loops of the store, of the tasks and of the router make these averages.  The
router's loop collects the values of a window before it sums them.
-/
structure AveragesAgree (samples : List Sample)
    (resolution : Int64) : Prop where
  store : ∀ level : DownsampleLevel,
    level ≠ .l0 → level.resolutionMs = resolution →
      applyDownsampling samples level =
        (downseries samples resolution).map
          average
  task : ∀ level : DownsampleLevel,
    level ≠ .l0 → level.resolutionMs = resolution →
      applyDownsamplingToSamples samples level =
        (downseries samples resolution).map
          average
  router : ∀ series : TimeSeries,
    series.samples = samples →
      (DownsampleQueryExecutor.downsampleSeries series resolution).samples =
        (downseries samples resolution).map
          average
  collected : ∀ first ∈ samples.head?,
    collectValues resolution (windowOf resolution first.timestamp) [] samples =
      (downseries samples resolution).map
        average

theorem averagesAgree (samples : List Sample) (resolution : Int64) :
    AveragesAgree samples resolution := by
  have store (level : DownsampleLevel)
      (averages : level ≠ .l0)
      (isResolution : level.resolutionMs = resolution) :
      applyDownsampling samples level =
        (downseries samples resolution).map
          average := by
    cases samples with
    | nil => rfl
    | cons first rest =>
      rw [map_average_downseries_eq, applyDownsampling, if_neg averages,
        isResolution]
  refine ⟨store, ?_, ?_, ?_⟩
  · intro level averages isResolution
    rw [applyDownsamplingToSamples_eq]
    exact store level averages isResolution
  · intro series isSamples
    cases samples with
    | nil =>
      rw [DownsampleQueryExecutor.downsampleSeries, isSamples]
      exact isSamples
    | cons first rest =>
      rw [map_average_downseries_eq,
        DownsampleQueryExecutor.downsampleSeries, isSamples]
  · intro first isFirst
    cases samples with
    | nil => cases isFirst
    | cons other rest =>
      cases isFirst
      rw [map_average_downseries_eq, collectValues_eq]
      rfl

/-!
## Exactly when the windows partition the samples
-/

/-- The points partition the samples into windows, and all loops agree. -/
structure Partitions (samples : List Sample)
    (resolution : Int64) : Prop where
  ascending :
    (downseries samples resolution).Pairwise
      fun first second => first.timestamp.toInt < second.timestamp.toInt
  multiples : ∀ point ∈ downseries samples resolution,
    resolution.toInt ∣ point.timestamp.toInt
  summarised : ∀ point ∈ downseries samples resolution,
    Summarises
      (samples.filter fun sample =>
        InWindow resolution point.timestamp sample.timestamp) point
  counted :
    ((downseries samples resolution).map
      count).sum = samples.length
  averages : AveragesAgree samples resolution

section Partition

variable
  {resolution : Int64}
  {window : Timestamp}
  {samples : List Sample}
  {points : List DownsamplePoint}

/-- The timestamp of a point is the start of a window. -/
theorem PointsFrom.dvd (found : PointsFrom resolution window samples points)
    {point : DownsamplePoint} (isPoint : point ∈ points) :
    resolution.toInt ∣ point.timestamp.toInt := by
  obtain ⟨sample, isSample⟩ :=
    exists_mem_of_ne_nil _ (found.summarised point isPoint).nonempty
  have starts := of_decide_eq_true (mem_filter.mp isSample).2
  rw [← starts, toInt_windowOf_eq_mul]
  exact Int.dvd_mul_right _ _

theorem of_filter_length_eq
    {Item : Type} {items : List Item} {narrow wide : Item → Bool}
    (narrower : ∀ item ∈ items, narrow item = true → wide item = true)
    (sameLength : (items.filter wide).length = (items.filter narrow).length)
    {item : Item} (isItem : item ∈ items) (isWide : wide item = true) :
    narrow item = true := by
  have again : (items.filter wide).filter narrow = items.filter narrow := by
    rw [filter_filter]
    refine filter_congr fun other isOther => ?_
    cases isNarrow : narrow other with
    | false => rfl
    | true =>
      rw [narrower other isOther isNarrow]
      rfl
  have all : (items.filter wide).filter narrow = items.filter wide :=
    filter_sublist.eq_of_length (by rw [again, sameLength])
  exact filter_eq_self.mp all item (mem_filter.mpr ⟨isItem, isWide⟩)

theorem partitions_of_startsInTime (positive : 0 < resolution.toInt)
    (found : PointsFrom resolution window samples
      (downseries samples resolution))
    (inTime : ∀ sample ∈ samples, StartsInTime resolution sample.timestamp) :
    Partitions samples resolution where
  ascending := found.ascending
  multiples := fun _ => found.dvd
  summarised := by
    intro point isPoint
    have sameSamples :
        (samples.filter fun sample =>
          InWindow resolution point.timestamp sample.timestamp) =
          startingAt resolution point.timestamp samples := by
      refine filter_congr fun sample isSample => ?_
      exact decide_eq_decide.mpr
        (windowOf_eq_iff_inWindow positive (found.dvd isPoint)
          (inTime sample isSample)).symm
    rw [sameSamples]
    exact found.summarised point isPoint
  counted := found.counted
  averages := averagesAgree samples resolution

theorem startsInTime_of_partitions (positive : 0 < resolution.toInt)
    (found : PointsFrom resolution window samples
      (downseries samples resolution))
    (partitions : Partitions samples resolution) :
    ∀ sample ∈ samples, StartsInTime resolution sample.timestamp := by
  by_contra someEarly
  let early := samples.filter fun sample =>
    ¬StartsInTime resolution sample.timestamp
  have nonempty : early.map (fun sample => sample.timestamp.toInt) ≠ [] := by
    intro noneEarly
    have none := filter_eq_nil_iff.mp (map_eq_nil_iff.mp noneEarly)
    refine someEarly fun sample isSample => ?_
    simpa using none sample isSample
  obtain ⟨greatest, isGreatest, atMost⟩ := exists_greatest nonempty
  obtain ⟨last, isEarly, rfl⟩ := mem_map.mp isGreatest
  obtain ⟨isSample, isLastEarly⟩ := mem_filter.mp isEarly
  have lastEarly : ¬StartsInTime resolution last.timestamp := by
    simpa using isLastEarly
  obtain ⟨after, notAfterEpoch⟩ :=
    windowOf_of_not_startsInTime positive lastEarly
  obtain ⟨point, isPoint, isWindow⟩ := found.covered last isSample
  have sameLength :
      (startingAt resolution point.timestamp samples).length =
        (samples.filter fun sample =>
          InWindow resolution point.timestamp sample.timestamp).length :=
    (found.summarised point isPoint).count.symm.trans
      (partitions.summarised point isPoint).count
  have inside := of_filter_length_eq ?_ sameLength isSample
    (decide_eq_true isWindow.symm)
  · have inWindow := of_decide_eq_true inside
    rw [isWindow] at inWindow
    have notBefore := inWindow.1
    omega
  · intro other isOther isInside
    have inWindow := of_decide_eq_true isInside
    refine decide_eq_true ?_
    by_cases inTime : StartsInTime resolution other.timestamp
    · exact (windowOf_eq_iff_inWindow positive (found.dvd isPoint) inTime).mpr
        inWindow
    · have isOtherEarly : other ∈ early :=
        mem_filter.mpr ⟨isOther, decide_eq_true inTime⟩
      have notLater := atMost other.timestamp.toInt
        (mem_map_of_mem isOtherEarly)
      have notBefore := inWindow.1
      rw [isWindow] at notBefore
      omega

end Partition

/-- Exactly when the windows partition the samples. -/
theorem downseries_partitions_iff {samples : List Sample} {resolution : Int64}
    (sorted : samples.Pairwise fun first second =>
      first.timestamp ≤ second.timestamp)
    (positive : 0 < resolution)
    (finite : ∀ sample ∈ samples, Finite sample.value) :
    Partitions samples resolution ↔
      ∀ sample ∈ samples, StartsInTime resolution sample.timestamp := by
  have positiveInt : 0 < resolution.toInt := by
    rw [Int64.lt_iff_toInt_lt, Int64.toInt_zero] at positive
    exact positive
  have sortedInt := sorted.imp fun notAfter =>
    Int64.le_iff_toInt_le.mp notAfter
  obtain ⟨window, found⟩ := pointsFrom_downseries positiveInt sortedInt finite
  exact ⟨startsInTime_of_partitions positiveInt found,
    partitions_of_startsInTime positiveInt found⟩

theorem finite_of_small {value : Value} (small : -100 ≤ value ∧ value ≤ 100) :
    Finite value := by
  have power : (1 : Value) ≤ 2 ^ 971 := one_le_pow₀ (by norm_num)
  have large : (100 : Value) ≤ maxFinite := by
    calc (100 : Value)
        ≤ (2 ^ 53 - 1) * 1 := by norm_num
      _ ≤ (2 ^ 53 - 1) * 2 ^ 971 :=
          mul_le_mul_of_nonneg_left power (by norm_num)
  exact ⟨(neg_le_neg large).trans small.1, small.2.trans large⟩

/-- Samples from the epoch on, and a multiple before it, are partitioned. -/
theorem downseries_partitions_from_epoch :
    Partitions [⟨-10, 1⟩, ⟨3, 2⟩, ⟨12, 4⟩] 10 := by
  refine (downseries_partitions_iff (by decide) (by decide) ?_).mpr (by decide)
  simp only [forall_mem_cons, not_mem_nil, false_implies,
    implies_true, and_true]
  exact ⟨finite_of_small (by norm_num), finite_of_small (by norm_num),
    finite_of_small (by norm_num)⟩

/-- A sample at -5 is put into the window from 0 to 10. -/
theorem downseries_misplaces_early_sample :
    ¬Partitions [⟨-5, 1⟩] 10 := by
  intro partitions
  have start : windowOf 10 (-5) = 0 := by
    decide
  have summary : Summarises [⟨-5, 1⟩] ((new 0).addSample 1) :=
    summarises_new 0 (finite_of_small (by norm_num))
  have points :
      downseries [⟨-5, 1⟩] 10 =
        [(new 0).addSample 1] := by
    rw [downseries, downseriesFrom,
      if_neg (not_not.mpr rfl), downseriesFrom, start,
      summary.savePoint]
  have isSummary :=
    partitions.summarised ((new 0).addSample 1)
      (by rw [points]; exact mem_cons_self)
  exact isSummary.nonempty (by decide)

end ChronoDB.Downsample
