import ChronoDB.Downsample.Worker

namespace ChronoDB.Query

open Library Columnstore Downsample Memstore DownsampleLevel

/-!
# Downsampled queries

The router chooses a level from the length of the range and the function.  The
executor looks for the blocks of the level in a directory of the level, and
averages samples from memory when it finds nothing there.
-/

inductive DownsampleRoute where
  | raw
  | downsampled (level : DownsampleLevel)
  deriving Repr, DecidableEq

inductive DownsamplePolicy where
  | auto
  | conservative
  | aggressive
  deriving Repr, DecidableEq

structure DownsampleRouter where
  enabled : Bool
  policy : DownsamplePolicy
  deriving Repr, DecidableEq

namespace DownsampleRouter

def new (enabled : Bool) : DownsampleRouter where
  enabled := enabled
  policy := .auto

/-- A route by four upper bounds in hours; a negative range is beyond all. -/
def routeByBounds (hours rawUpTo l1UpTo l2UpTo l3UpTo : Int64) :
    DownsampleRoute :=
  if hours < 0 then .downsampled .l4
  else if hours ≤ rawUpTo then .raw
  else if hours ≤ l1UpTo then .downsampled .l1
  else if hours ≤ l2UpTo then .downsampled .l2
  else if hours ≤ l3UpTo then .downsampled .l3
  else .downsampled .l4

def selectByTimeRange (router : DownsampleRouter) (queryRangeHours : Int64) :
    DownsampleRoute :=
  match router.policy with
  | .conservative => routeByBounds queryRangeHours 1 24 168 720
  | .aggressive => routeByBounds queryRangeHours 1 12 72 336
  | .auto => routeByBounds queryRangeHours 1 24 168 720

/-- Rates go one level down, quantiles need the samples themselves. -/
def adjustByFunction (base : DownsampleRoute) (funcType : String) :
    DownsampleRoute :=
  if funcType ∈ ["rate", "irate", "delta", "increase"] then
    match base with
    | .raw => .raw
    | .downsampled .l1 => .raw
    | .downsampled .l2 => .downsampled .l1
    | .downsampled .l3 => .downsampled .l2
    | .downsampled .l4 => .downsampled .l3
    | .downsampled .l0 => .downsampled .l0
  else if funcType ∈ ["quantile", "histogram_quantile"] then .raw
  else base

def selectLevel
    (router : DownsampleRouter) (queryRangeMs : Int64) (funcType : String) :
    DownsampleRoute :=
  if router.enabled then
    adjustByFunction
      (router.selectByTimeRange (queryRangeMs / (3600 * 1000))) funcType
  else
    .raw

end DownsampleRouter

/-!
## The blocks of a directory
-/

/-- A number as `str::parse::<u64>` accepts it. -/
def parseU64 (text : List Char) : Option UInt64 :=
  let digits := if text.head? = some '+' then text.tail else text
  if digits ≠ [] ∧ digits.all Char.isDigit ∧
      Nat.ofDigitChars 10 digits 0 < 2 ^ 64 then
    some (UInt64.ofNat (Nat.ofDigitChars 10 digits 0))
  else
    none

def blockIdOfName (name : String) : Option UInt64 :=
  (name.toList.dropPrefix? "block-".toList).bind parseU64

/-- The blocks of `ColumnBlockManager`. -/
abbrev BlockReaders := FiniteMap UInt64 FullReader

/-- One directory of the loop of `ColumnBlockManager::new`. -/
def openEntry (levelDir : List String) (blocks : BlockReaders)
    (entry : (_ : List String) × BlockFiles) :
    BlockReaders :=
  if entry.1.dropLast = levelDir then
    match entry.1.getLast?.bind blockIdOfName with
    | none => blocks
    | some blockId =>
      match FullReader.openFiles entry.2 with
      | .error _ => blocks
      | .ok reader => blocks.insert blockId reader
  else
    blocks

/-- `ColumnBlockManager::new` on a directory that exists. -/
def openBlocks (dirs : DataDir) (levelDir : List String) : BlockReaders :=
  dirs.entries.foldl (openEntry levelDir) ∅

def findBlocksInRange (blocks : BlockReaders) (start stop : Timestamp) :
    List FullReader :=
  (blocks.entries.map Sigma.snd).filter fun reader =>
    reader.metadata.minTimestamp ≤ stop && start ≤ reader.metadata.maxTimestamp

/-!
## The executor
-/

structure DownsampleQueryExecutor where
  router : DownsampleRouter
  store : MemStore
  dataDir : DataDir

namespace DownsampleQueryExecutor

variable (json : Codec Error Labels) (executor : DownsampleQueryExecutor)

/-- What a store holds of a series in a range, if there is something. -/
def rawSeries (start stop : Timestamp) (seriesId : TimeSeriesId) :
    Option TimeSeries :=
  (executor.store.getSeries seriesId).bind fun series =>
    let filteredSamples := series.samples.filter (Sample.inRange start stop)
    if filteredSamples = [] then none
    else
      some {
        id := seriesId
        labels := series.labels
        samples := filteredSamples
      }

def queryRaw (seriesIds : List TimeSeriesId) (start stop : Timestamp) :
    List TimeSeries :=
  seriesIds.filterMap (executor.rawSeries start stop)

/-- The series read so far; a series read from a block has no labels. -/
abbrev ResultsMap := FiniteMap TimeSeriesId TimeSeries

def addSamples
    (results : ResultsMap) (seriesId : TimeSeriesId) (samples : List Sample) :
    ResultsMap :=
  let series :=
    (results.lookup seriesId).getD
      { id := seriesId, labels := [], samples := [] }
  results.insert seriesId { series with samples := series.samples ++ samples }

/-- The loop over the series of a query for one block; errors are ignored. -/
def readBlock (reader : FullReader) (start stop : Timestamp) :
    List TimeSeriesId → ResultsMap → Except Unit ResultsMap
  | [], results => .ok results
  | seriesId :: rest, results =>
    match reader.toBlockReader.query json seriesId start stop with
    | .error .panic => .error ()
    | .error (.error _) => readBlock reader start stop rest results
    | .ok samples =>
      readBlock reader start stop rest
        (if samples = [] then results
        else addSamples results seriesId samples)

/-- The loop over the blocks in the range of a query. -/
def readBlocks (seriesIds : List TimeSeriesId) (start stop : Timestamp) :
    List FullReader → ResultsMap → Except Unit ResultsMap
  | [], results => .ok results
  | reader :: rest, results =>
    match readBlock json reader start stop seriesIds results with
    | .error panicked => .error panicked
    | .ok results => readBlocks seriesIds start stop rest results

/-- The only failure left is a panic. -/
def queryFromColumnstore
    (seriesIds : List TimeSeriesId) (start stop : Timestamp)
    (levelDir : List String) :
    Except Unit (List TimeSeries) :=
  let blocks :=
    findBlocksInRange (openBlocks executor.dataDir levelDir) start stop
  match readBlocks json seriesIds start stop blocks ∅ with
  | .error panicked => .error panicked
  | .ok results => .ok (results.entries.map Sigma.snd)

def downsampleSeries (series : TimeSeries) (resolution : Int64) : TimeSeries :=
  match series.samples with
  | [] => series
  | first :: _ =>
    {
      series with
      samples :=
        downsampleFrom resolution (windowOf resolution first.timestamp) 0
          0 series.samples
    }

def levelName : DownsampleLevel → String
  | .l0 => "L0"
  | .l1 => "L1"
  | .l2 => "L2"
  | .l3 => "L3"
  | .l4 => "L4"

def levelPath (level : DownsampleLevel) : List String :=
  downsamplePath ++ [levelName level]

/-- The averages of what the store still holds. -/
def queryRealTime (seriesIds : List TimeSeriesId) (start stop : Timestamp)
    (level : DownsampleLevel) :
    List TimeSeries :=
  ((executor.queryRaw seriesIds start stop).map fun series =>
    downsampleSeries series level.resolutionMs).filter fun series =>
      series.samples ≠ []

def queryDownsampled (seriesIds : List TimeSeriesId) (start stop : Timestamp)
    (level : DownsampleLevel) :
    Except Unit (List TimeSeries) :=
  match executor.dataDir.lookup (levelPath level) with
  | none => .ok (executor.queryRealTime seriesIds start stop level)
  | some _ =>
    match
      executor.queryFromColumnstore json seriesIds start stop
        (levelPath level) with
    | .error panicked => .error panicked
    | .ok [] => .ok (executor.queryRealTime seriesIds start stop level)
    | .ok results => .ok results

def query (seriesIds : List TimeSeriesId) (start stop : Timestamp)
    (funcType : String) :
    Except Unit (List TimeSeries) :=
  match executor.router.selectLevel (stop - start) funcType with
  | .raw => .ok (executor.queryRaw seriesIds start stop)
  | .downsampled level =>
    executor.queryDownsampled json seriesIds start stop level

end DownsampleQueryExecutor

/-!
## The level for a range
-/

section RangeLevels

open Compression

/-- The level of a route, where raw samples are the finest level. -/
def DownsampleRoute.level : DownsampleRoute → DownsampleLevel
  | raw => .l0
  | downsampled level => level

/-- The place of a level among the levels, from fine to coarse. -/
def coarseness : DownsampleLevel → ℕ
  | .l0 => 0
  | .l1 => 1
  | .l2 => 2
  | .l3 => 3
  | .l4 => 4

/-- The level that a router that was just made chooses for other functions. -/
def autoRoute (start stop : Timestamp) : DownsampleLevel :=
  ((DownsampleRouter.new true).selectLevel (stop - start) "unknown").level

/-- The length of a range in exact arithmetic. -/
def rangeLength (start stop : Timestamp) : ℤ :=
  stop.toInt - start.toInt

/--
The selectors choose one level for a range, and each of them chooses no coarser
one for a range that is not longer.
-/
structure SelectorsAgree (start stop : Timestamp) : Prop where
  ofQueryRange :
    fromQueryRange (stop - start) =
      MemStore.autoSelectDownsampleLevel start stop
  ofRouter :
    autoRoute start stop = MemStore.autoSelectDownsampleLevel start stop
  monotone :
    ∀ earlier later : Timestamp,
      0 ≤ rangeLength earlier later →
      rangeLength earlier later ≤ rangeLength start stop →
        coarseness (MemStore.autoSelectDownsampleLevel earlier later) ≤
            coarseness (MemStore.autoSelectDownsampleLevel start stop) ∧
          coarseness (fromQueryRange (later - earlier)) ≤
            coarseness (fromQueryRange (stop - start)) ∧
          coarseness (autoRoute earlier later) ≤
            coarseness (autoRoute start stop)

/-- The level for a length in hours, with bounds that are exclusive. -/
def levelBelow (hours : ℤ) : DownsampleLevel :=
  if hours < 1 then .l0
  else if hours < 24 then .l1
  else if hours < 168 then .l2
  else if hours < 720 then .l3
  else .l4

/-- The level for a length in hours, with bounds that are inclusive. -/
def levelUpTo (hours : ℤ) : DownsampleLevel :=
  if hours < 0 then .l4
  else levelBelow (hours - 1)

/-- The hours of a length, rounded towards zero. -/
def hoursOf (length : ℤ) : ℤ :=
  length.tdiv 3600000

theorem hoursOf_mono
    {length longer : ℤ} (notNegative : 0 ≤ length) (atMost : length ≤ longer) :
    hoursOf length ≤ hoursOf longer := by
  rw [hoursOf, hoursOf, Int.tdiv_eq_ediv_of_nonneg notNegative,
    Int.tdiv_eq_ediv_of_nonneg (notNegative.trans atMost)]
  exact Int.ediv_le_ediv (by decide) atMost

theorem levelBelow_mono {hours more : ℤ} (atMost : hours ≤ more) :
    coarseness (levelBelow hours) ≤ coarseness (levelBelow more) := by
  unfold levelBelow
  split_ifs <;> first | decide | omega

theorem levelUpTo_eq_levelBelow_iff {hours : ℤ} (notNegative : 0 ≤ hours) :
    levelUpTo hours = levelBelow hours ↔
      hours ∉ ([1, 24, 168, 720] : List ℤ) := by
  simp only [List.mem_cons, List.not_mem_nil, or_false]
  unfold levelUpTo levelBelow
  split_ifs <;> simp <;> omega

theorem levelUpTo_mono
    {hours more : ℤ} (notNegative : 0 ≤ hours) (atMost : hours ≤ more) :
    coarseness (levelUpTo hours) ≤ coarseness (levelUpTo more) := by
  rw [levelUpTo, levelUpTo, if_neg (not_lt.mpr notNegative),
    if_neg (not_lt.mpr (notNegative.trans atMost))]
  exact levelBelow_mono (by omega)

theorem toInt_hours (range : Int64) :
    (range / 3600000).toInt = hoursOf range.toInt := by
  have differs : (3600000 : Int64) ≠ -1 := by decide
  exact Int64.toInt_div_of_ne_right _ _ differs

theorem fromQueryRange_eq (range : Int64) :
    fromQueryRange range =
      levelBelow (hoursOf range.toInt) := by
  simp only [fromQueryRange, levelBelow,
    Int64.lt_iff_toInt_lt, toInt_hours]
  rfl

theorem level_routeByBounds (hours : Int64) :
    (DownsampleRouter.routeByBounds hours 1 24 168 720).level =
      levelUpTo hours.toInt := by
  have bounds :
      (0 : Int64).toInt = 0 ∧ (1 : Int64).toInt = 1 ∧
        (24 : Int64).toInt = 24 ∧ (168 : Int64).toInt = 168 ∧
          (720 : Int64).toInt = 720 := by
    decide
  obtain ⟨zero, one, day, week, month⟩ := bounds
  simp only [DownsampleRouter.routeByBounds, levelUpTo, levelBelow,
    Int64.lt_iff_toInt_lt, Int64.le_iff_toInt_le, zero, one, day, week, month]
  split_ifs <;> first | rfl | omega

theorem autoRoute_eq (start stop : Timestamp) :
    autoRoute start stop = levelUpTo (hoursOf (stop - start).toInt) := by
  rw [← toInt_hours]
  exact level_routeByBounds _

theorem autoSelectDownsampleLevel_eq
    {start stop : Timestamp} (notNegative : 0 ≤ rangeLength start stop)
    (fits : FitsInt64 (rangeLength start stop)) :
    MemStore.autoSelectDownsampleLevel start stop =
      levelBelow (hoursOf (rangeLength start stop)) := by
  obtain ⟨_, below⟩ := fits
  have least : Int64.minValue.toInt = -2 ^ 63 := by decide
  have greatest : Int64.maxValue.toInt = 2 ^ 63 - 1 := by decide
  rw [rangeLength] at notNegative below ⊢
  rw [MemStore.autoSelectDownsampleLevel, levelBelow, hoursOf, least,
    greatest, Int.tdiv_eq_ediv_of_nonneg notNegative]
  split_ifs <;> first | rfl | omega

theorem autoSelectDownsampleLevel_of_overflow
    {start stop : Timestamp} (notNegative : 0 ≤ rangeLength start stop)
    (overflows : ¬FitsInt64 (rangeLength start stop)) :
    MemStore.autoSelectDownsampleLevel start stop = .l4 := by
  rw [FitsInt64] at overflows
  have greatest : Int64.maxValue.toInt = 2 ^ 63 - 1 := by decide
  rw [rangeLength] at notNegative overflows
  rw [MemStore.autoSelectDownsampleLevel, greatest]
  exact if_pos (.inr (by omega))

theorem fromQueryRange_of_overflow
    {start stop : Timestamp} (notNegative : 0 ≤ rangeLength start stop)
    (overflows : ¬FitsInt64 (rangeLength start stop)) :
    fromQueryRange (stop - start) = .l0 := by
  rw [FitsInt64] at overflows
  have atLeast := start.le_toInt
  have atMost := stop.toInt_lt
  have negative : (stop - start).toInt < 0 := by
    rw [rangeLength] at notNegative overflows
    rw [Int64.toInt_sub, Int.bmod_def]
    split_ifs <;> omega
  rw [fromQueryRange_eq, levelBelow]
  refine if_pos ?_
  rw [hoursOf]
  have opposite :=
    Int.tdiv_nonneg (Int.neg_nonneg_of_nonpos negative.le)
      (by decide : (0 : ℤ) ≤ 3600000)
  rw [Int.neg_tdiv] at opposite
  omega

structure InsideBounds (start stop : Timestamp) : Prop where
  fits : FitsInt64 (rangeLength start stop)
  notAtBound : hoursOf (rangeLength start stop) ∉ ([1, 24, 168, 720] : List ℤ)

/--
The selectors agree on a range, and are monotone up to it, exactly when it fits a
word and its hours, rounded down, are not those of a bound.
-/
theorem selectorsAgree_iff {start stop : Timestamp}
    (notNegative : 0 ≤ rangeLength start stop) :
    SelectorsAgree start stop ↔ InsideBounds start stop := by
  have length {earlier later : Timestamp}
      (fits : FitsInt64 (rangeLength earlier later)) :
      (later - earlier).toInt = rangeLength earlier later :=
    fits.toInt_sub
  constructor
  · intro agree
    have fits : FitsInt64 (rangeLength start stop) := by
      by_contra overflows
      have same := agree.ofQueryRange
      rw [fromQueryRange_of_overflow notNegative overflows,
        autoSelectDownsampleLevel_of_overflow notNegative overflows] at same
      cases same
    refine ⟨fits, ?_⟩
    have same := agree.ofRouter
    rw [autoRoute_eq, autoSelectDownsampleLevel_eq notNegative fits,
      length fits] at same
    exact (levelUpTo_eq_levelBelow_iff
      (hoursOf_mono le_rfl notNegative)).mp same
  · intro inside
    have hours := hoursOf_mono le_rfl notNegative
    refine ⟨?_, ?_, ?_⟩
    · rw [fromQueryRange_eq, length inside.fits,
        autoSelectDownsampleLevel_eq notNegative inside.fits]
    · rw [autoRoute_eq, length inside.fits,
        autoSelectDownsampleLevel_eq notNegative inside.fits]
      exact (levelUpTo_eq_levelBelow_iff hours).mpr inside.notAtBound
    · intro earlier later shorterNotNegative shorter
      have shorterFits : FitsInt64 (rangeLength earlier later) :=
        ⟨by omega, lt_of_le_of_lt shorter inside.fits.2⟩
      have fewer := hoursOf_mono shorterNotNegative shorter
      have shorterHours := hoursOf_mono le_rfl shorterNotNegative
      rw [autoSelectDownsampleLevel_eq notNegative inside.fits,
        autoSelectDownsampleLevel_eq shorterNotNegative shorterFits,
        fromQueryRange_eq, fromQueryRange_eq, autoRoute_eq, autoRoute_eq,
        length inside.fits, length shorterFits]
      exact ⟨levelBelow_mono fewer, levelBelow_mono fewer,
        levelUpTo_mono shorterHours fewer⟩

/-- Two hours have one level. -/
theorem selectors_agree_on_two_hours : SelectorsAgree 0 7200000 :=
  (selectorsAgree_iff (by decide)).mpr ⟨by rw [FitsInt64]; decide, by decide⟩

/-- A range of one hour is read as raw samples by the router only. -/
theorem selectors_differ_at_one_hour : ¬SelectorsAgree 0 3600000 := by
  intro agree
  exact absurd agree.ofRouter (by decide)

end RangeLevels

end ChronoDB.Query
