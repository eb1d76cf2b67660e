import ChronoDB.Columnstore.LabelQuery
import ChronoDB.Query.DownsampleRouter

namespace ChronoDB.Query

open Library Columnstore Downsample List FullWriter

/-!
# The time ranges of blocks

A block is found by the time range in its metadata.  Writing widens the range of
the samples to that of the downsampled points, with a bound of zero for one that
is not known, and thereby forgets a bound that is zero.
-/

/-!
## Widening a bound
-/

section Widening

variable {Time : Type} {le : Time → Time → Prop}

/-- An item of a list that is before all others, in an order of choice. -/
def IsFirstOf (le : Time → Time → Prop) (first : Time) (times : List Time) :
    Prop :=
  first ∈ times ∧ ∀ time ∈ times, le first time

/--
A bound with `unset` for a missing one is before all times unless `unset` is the
first of the old times and before all of the new ones.
-/
theorem widened_iff
    (trans : ∀ {first second third}, le first second → le second third →
      le first third)
    (total : ∀ first second, le first second ∨ le second first)
    (antisymm : ∀ {first second}, le first second → le second first →
      first = second)
    {unset base current widened : Time} {times added : List Time}
    (isBase : times = [] ∧ base = unset ∨ IsFirstOf le base times)
    (isCurrent : IsFirstOf le current added)
    (takesCurrent :
      base = unset ∨ ¬le base current → widened = current)
    (takesBase : ¬(base = unset ∨ ¬le base current) → widened = base) :
    (∀ time, time ∈ times ∨ time ∈ added → le widened time) ↔
      ¬(IsFirstOf le unset times ∧
        ∀ time ∈ added, le unset time ∧ time ≠ unset) := by
  by_cases isUnset : base = unset
  · rw [takesCurrent (.inl isUnset)]
    subst isUnset
    rcases isBase with ⟨rfl, _⟩ | isFirst
    · refine iff_of_true (fun time member => ?_) fun hidden =>
        absurd hidden.1.1 not_mem_nil
      exact isCurrent.2 time (member.resolve_left not_mem_nil)
    · constructor
      · rintro below ⟨_, later⟩
        have isLater := later current isCurrent.1
        exact isLater.2 (antisymm (below base (.inl isFirst.1)) isLater.1)
      · intro shown
        have early : le current base := by
          by_contra late
          refine shown ⟨isFirst, fun time member => ?_⟩
          have currentFirst := isCurrent.2 time member
          have baseFirst := (total base current).resolve_right late
          refine ⟨trans baseFirst currentFirst, ?_⟩
          rintro rfl
          exact late currentFirst
        rintro time (member | member)
        · exact trans early (isFirst.2 time member)
        · exact isCurrent.2 time member
  · have isFirst := isBase.resolve_left fun missing => isUnset missing.2
    have notHidden :
        ¬(IsFirstOf le unset times ∧
          ∀ time ∈ added, le unset time ∧ time ≠ unset) := fun hidden =>
      isUnset (antisymm (isFirst.2 unset hidden.1.1)
        (hidden.1.2 base isFirst.1))
    refine iff_of_true ?_ notHidden
    by_cases before : le base current
    · rw [takesBase fun either => either.elim isUnset (· before)]
      rintro time (member | member)
      · exact isFirst.2 time member
      · exact trans before (isCurrent.2 time member)
    · rw [takesCurrent (.inr before)]
      have early := (total current base).resolve_right before
      rintro time (member | member)
      · exact trans early (isFirst.2 time member)
      · exact isCurrent.2 time member

end Widening

/-!
## The range in the metadata
-/

/-- Zero is a bound of the samples that the points after or before it hide. -/
structure ZeroHidden
    (le : Timestamp → Timestamp → Prop) (times pointTimes : List Timestamp) :
    Prop where
  isBound : IsFirstOf le 0 times
  somePoint : pointTimes ≠ []
  beyond : ∀ time ∈ pointTimes, le 0 time ∧ time ≠ 0

/-- The range in some metadata holds all of some timestamps. -/
def Covers (metadata : BlockMeta) (times : List Timestamp) : Prop :=
  ∀ time ∈ times, metadata.minTimestamp ≤ time ∧ time ≤ metadata.maxTimestamp

theorem isFirstOf_min (times : List Timestamp) :
    times = [] ∧ times.min?.getD 0 = 0 ∨
      IsFirstOf (· ≤ ·) (times.min?.getD 0) times := by
  cases isMin : times.min? with
  | none => exact .inl ⟨min?_eq_none_iff.mp isMin, rfl⟩
  | some least => exact .inr (min?_eq_some_iff.mp isMin)

theorem isFirstOf_max (times : List Timestamp) :
    times = [] ∧ times.max?.getD 0 = 0 ∨
      IsFirstOf (· ≥ ·) (times.max?.getD 0) times := by
  cases isMax : times.max? with
  | none => exact .inl ⟨max?_eq_none_iff.mp isMax, rfl⟩
  | some greatest => exact .inr (max?_eq_some_iff.mp isMax)

theorem covers_widenRange_iff {base : BlockMeta} {times : List Timestamp}
    (isMin : base.minTimestamp = times.min?.getD 0)
    (isMax : base.maxTimestamp = times.max?.getD 0)
    (pointTimes : List Timestamp) :
    Covers (widenRange base pointTimes) (times ++ pointTimes) ↔
      ¬ZeroHidden (· ≤ ·) times pointTimes ∧
        ¬ZeroHidden (· ≥ ·) times pointTimes := by
  have minOfTimes := isMin ▸ isFirstOf_min times
  have maxOfTimes := isMax ▸ isFirstOf_max times
  by_cases noPoint : pointTimes = []
  · subst noPoint
    rw [append_nil]
    refine iff_of_true (fun time member => ?_)
      ⟨fun hidden => hidden.somePoint rfl, fun hidden => hidden.somePoint rfl⟩
    have notEmpty := ne_nil_of_mem member
    exact ⟨(minOfTimes.resolve_left fun missing => notEmpty missing.1).2 time
        member,
      (maxOfTimes.resolve_left fun missing => notEmpty missing.1).2 time member⟩
  · obtain ⟨currentMin, isCurrentMin⟩ :=
      Option.isSome_iff_exists.mp (isSome_min?_of_ne_nil noPoint)
    obtain ⟨currentMax, isCurrentMax⟩ :=
      Option.isSome_iff_exists.mp (isSome_max?_of_ne_nil noPoint)
    have lower :=
      @widened_iff Timestamp (· ≤ ·) Int64.le_trans Int64.le_total
        Int64.le_antisymm 0 base.minTimestamp currentMin
        (widenRange base pointTimes).minTimestamp times pointTimes
        minOfTimes (min?_eq_some_iff.mp isCurrentMin)
        (fun takes => by
          rw [widenRange, isCurrentMin, isCurrentMax]
          exact if_pos (takes.imp_right Int64.not_le.mp))
        (fun keeps => by
          rw [widenRange, isCurrentMin, isCurrentMax]
          exact if_neg fun takes =>
            keeps (takes.imp_right Int64.not_le.mpr))
    have upper :=
      @widened_iff Timestamp (· ≥ ·)
        (fun first second => Int64.le_trans second first)
        (fun first second => Int64.le_total second first)
        (fun first second => Int64.le_antisymm second first)
        0 base.maxTimestamp currentMax
        (widenRange base pointTimes).maxTimestamp times pointTimes
        maxOfTimes (max?_eq_some_iff.mp isCurrentMax)
        (fun takes => by
          rw [widenRange, isCurrentMin, isCurrentMax]
          exact if_pos (takes.imp_right Int64.not_le.mp))
        (fun keeps => by
          rw [widenRange, isCurrentMin, isCurrentMax]
          exact if_neg fun takes =>
            keeps (takes.imp_right Int64.not_le.mpr))
    have hides :
        ∀ le : Timestamp → Timestamp → Prop,
          ZeroHidden le times pointTimes ↔
            IsFirstOf le 0 times ∧
              ∀ time ∈ pointTimes, le 0 time ∧ time ≠ 0 := fun le =>
      ⟨fun hidden => ⟨hidden.isBound, hidden.beyond⟩,
        fun hidden => ⟨hidden.1, noPoint, hidden.2⟩⟩
    rw [hides, hides, ← lower, ← upper, Covers]
    simp only [mem_append, forall_and]

/-!
## Blocks from calls
-/

inductive WriterCall where
  | addSeries (call : AddedSeries)
  | addDownsampleSeries
      (seriesId : TimeSeriesId)
      (labels : Labels)
      (points : List DownsamplePoint)
  deriving Repr, DecidableEq

namespace WriterCall

def run (hasher : Bytes → UInt64) (writer : FullWriter) :
    WriterCall → Except Fault FullWriter
  | .addSeries call =>
    writer.addSeries hasher call.seriesId call.labels call.samples
  | .addDownsampleSeries seriesId labels points =>
    writer.addDownsampleSeries hasher seriesId labels points

def runAll (hasher : Bytes → UInt64) :
    List WriterCall → FullWriter → Except Fault FullWriter
  | [], writer => .ok writer
  | call :: rest, writer =>
    match call.run hasher writer with
    | .error fault => .error fault
    | .ok writer => runAll hasher rest writer

def sampleTimes : WriterCall → List Timestamp
  | .addSeries call => call.samples.map Sample.timestamp
  | .addDownsampleSeries _ _ _ => []

def pointTimes : WriterCall → List Timestamp
  | .addSeries _ => []
  | .addDownsampleSeries _ _ points => points.map DownsamplePoint.timestamp

end WriterCall

def pointsOf (writer : FullWriter) (seriesId : TimeSeriesId) :
    List DownsamplePoint :=
  (writer.downsampleData.lookup seriesId).elim [] DownsampleSeriesData.points

variable {hasher : Bytes → UInt64} {writer after : FullWriter}

theorem addSeries_eq_ok
    {seriesId : TimeSeriesId} {labels : Labels} {samples : List Sample}
    (added : writer.addSeries hasher seriesId labels samples = .ok after) :
    after.toBlockWriter =
        writer.toBlockWriter.addSeries seriesId labels samples ∧
      after.downsampleData = writer.downsampleData := by
  rw [addSeries] at added
  dsimp only at added
  split at added
  · cases added
  · cases added
    exact ⟨rfl, rfl⟩

theorem addDownsampleSeries_eq_ok
    {seriesId : TimeSeriesId} {labels : Labels} {points : List DownsamplePoint}
    (added :
      writer.addDownsampleSeries hasher seriesId labels points = .ok after) :
    after.toBlockWriter = writer.toBlockWriter ∧
      ∀ other,
        pointsOf after other =
          pointsOf writer other ++ if seriesId = other then points else [] := by
  rw [addDownsampleSeries] at added
  split at added
  · cases added
  · cases added
    refine ⟨rfl, fun other => ?_⟩
    rw [pointsOf, pointsOf]
    by_cases same : seriesId = other
    · subst same
      cases writer.downsampleData.lookup seriesId <;> simp
    · simp [AList.lookup_insert_ne (Ne.symm same), same]

def HoldsSampleAt (writer : FullWriter) (time : Timestamp) : Prop :=
  ∃ seriesId,
    ∃ sample ∈ writer.toBlockWriter.samplesOf seriesId, sample.timestamp = time

/-- The timestamps of the downsampled points that a writer holds. -/
def HoldsPointAt (writer : FullWriter) (time : Timestamp) : Prop :=
  ∃ seriesId, ∃ point ∈ pointsOf writer seriesId, point.timestamp = time

theorem holds_after_run
    {call : WriterCall} (ran : call.run hasher writer = .ok after)
    (time : Timestamp) :
    (HoldsSampleAt after time ↔
        HoldsSampleAt writer time ∨ time ∈ call.sampleTimes) ∧
      (HoldsPointAt after time ↔
        HoldsPointAt writer time ∨ time ∈ call.pointTimes) := by
  cases call with
  | addSeries call =>
    obtain ⟨sameWriter, samePoints⟩ := addSeries_eq_ok ran
    rw [HoldsSampleAt, HoldsSampleAt, HoldsPointAt, HoldsPointAt, sameWriter]
    simp only [BlockWriter.samplesOf_addSeries, pointsOf, samePoints,
      WriterCall.sampleTimes, WriterCall.pointTimes, not_mem_nil, or_false,
      mem_append, or_and_right, exists_or, mem_map, and_true]
    refine or_congr_right ⟨?_, ?_⟩
    · rintro ⟨seriesId, sample, member, isTime⟩
      split at member
      · exact ⟨sample, member, isTime⟩
      · cases member
    · rintro ⟨sample, member, isTime⟩
      exact ⟨call.seriesId, sample, by rwa [if_pos rfl], isTime⟩
  | addDownsampleSeries seriesId labels points =>
    obtain ⟨sameWriter, morePoints⟩ := addDownsampleSeries_eq_ok ran
    rw [HoldsSampleAt, HoldsSampleAt, HoldsPointAt, HoldsPointAt, sameWriter]
    simp only [morePoints, WriterCall.sampleTimes, WriterCall.pointTimes,
      not_mem_nil, or_false, mem_append, or_and_right, exists_or,
      mem_map, true_and]
    refine or_congr_right ⟨?_, ?_⟩
    · rintro ⟨other, point, member, isTime⟩
      split at member
      · exact ⟨point, member, isTime⟩
      · cases member
    · rintro ⟨point, member, isTime⟩
      exact ⟨seriesId, point, by rwa [if_pos rfl], isTime⟩

theorem holds_after_runAll {calls : List WriterCall}
    (ran : WriterCall.runAll hasher calls writer = .ok after)
    (time : Timestamp) :
    (HoldsSampleAt after time ↔
        HoldsSampleAt writer time ∨
          time ∈ calls.flatMap WriterCall.sampleTimes) ∧
      (HoldsPointAt after time ↔
        HoldsPointAt writer time ∨
          time ∈ calls.flatMap WriterCall.pointTimes) := by
  induction calls generalizing writer with
  | nil =>
    cases ran
    simp
  | cons call rest inductionHypothesis =>
    rw [WriterCall.runAll] at ran
    split at ran
    · cases ran
    · rename_i between isBetween
      obtain ⟨samplesBetween, pointsBetween⟩ := holds_after_run isBetween time
      obtain ⟨samplesAfter, pointsAfter⟩ := inductionHypothesis ran
      rw [samplesAfter, pointsAfter, samplesBetween, pointsBetween,
        flatMap_cons, flatMap_cons, mem_append, mem_append, or_assoc, or_assoc]
      exact ⟨Iff.rfl, Iff.rfl⟩

theorem not_holds_new (blockId : UInt64) (time : Timestamp) :
    ¬HoldsSampleAt (.new blockId) time ∧ ¬HoldsPointAt (.new blockId) time := by
  constructor <;>
    · rintro ⟨seriesId, _, member, _⟩
      cases member

theorem mem_sampleTimes_iff
    {writer : FullWriter} (layout : writer.toBlockWriter.Layout)
    (time : Timestamp) :
    time ∈
        (BlockWriter.allSamples
          (writer.toBlockWriter.laidOut layout)).map Sample.timestamp ↔
      HoldsSampleAt writer time := by
  simp only [mem_map, BlockWriter.allSamples, mem_flatMap]
  constructor
  · rintro ⟨sample, ⟨⟨seriesId, data⟩, member, inSeries⟩, isTime⟩
    refine ⟨seriesId, sample, ?_, isTime⟩
    rwa [← BlockWriter.samples_of_mem_laidOut member]
  · rintro ⟨seriesId, sample, member, isTime⟩
    rw [BlockWriter.samplesOf] at member
    cases found : writer.seriesData.lookup seriesId with
    | none =>
      rw [found] at member
      cases member
    | some data =>
      rw [found] at member
      exact ⟨sample, ⟨(seriesId, data),
        (BlockWriter.mem_laidOut layout).mpr found, member⟩, isTime⟩

theorem mem_pointTimes_iff
    {writer : FullWriter} (layout : writer.PointLayout) (time : Timestamp) :
    time ∈
        (allPoints (writer.pointsLaidOut layout)).map
          DownsamplePoint.timestamp ↔
      HoldsPointAt writer time := by
  simp only [mem_map, allPoints, mem_flatMap,
    pointsLaidOut, mem_filterMap, Option.map_eq_some_iff]
  constructor
  · rintro ⟨point, ⟨_, ⟨seriesId, _, data, found, rfl⟩, inSeries⟩, isTime⟩
    refine ⟨seriesId, point, ?_, isTime⟩
    rwa [pointsOf, found]
  · rintro ⟨seriesId, point, member, isTime⟩
    rw [pointsOf] at member
    cases found : writer.downsampleData.lookup seriesId with
    | none =>
      rw [found] at member
      cases member
    | some data =>
      rw [found] at member
      have inOrder : seriesId ∈ layout.order :=
        layout.permuted.mem_iff.mpr
          (AList.mem_keys.mp (FiniteMap.mem_of_lookup found))
      exact ⟨point, ⟨(seriesId, data),
        ⟨seriesId, inOrder, data, found, rfl⟩, member⟩, isTime⟩

/-!
## Finding blocks
-/

/--
The range in the metadata of a block holds some timestamps, so that the block
is found for every range with one of them.
-/
def RangeSound (files : BlockFiles) (times : List Timestamp) : Prop :=
  ∃ metadata,
    files.metadata = some metadata ∧
      Covers metadata times ∧
        ∀ (blocks : BlockReaders) (reader : FullReader),
          reader ∈ blocks.entries.map Sigma.snd →
            reader.metadata = metadata →
              ∀ start stop,
                (∃ time ∈ times, start ≤ time ∧ time ≤ stop) →
                  reader ∈ findBlocksInRange blocks start stop

theorem mem_findBlocksInRange {blocks : BlockReaders} {reader : FullReader}
    (isBlock : reader ∈ blocks.entries.map Sigma.snd) {times : List Timestamp}
    (covers : Covers reader.metadata times) {start stop : Timestamp}
    (inRange : ∃ time ∈ times, start ≤ time ∧ time ≤ stop) :
    reader ∈ findBlocksInRange blocks start stop := by
  obtain ⟨time, member, afterStart, beforeStop⟩ := inRange
  obtain ⟨afterMin, beforeMax⟩ := covers time member
  rw [findBlocksInRange, mem_filter]
  refine ⟨isBlock, ?_⟩
  rw [Bool.and_eq_true, decide_eq_true_iff, decide_eq_true_iff]
  exact ⟨Int64.le_trans afterMin beforeStop,
    Int64.le_trans afterStart beforeMax⟩

theorem rangeSound_iff {files : BlockFiles} {metadata : BlockMeta}
    (isMetadata : files.metadata = some metadata) (times : List Timestamp) :
    RangeSound files times ↔ Covers metadata times := by
  constructor
  · rintro ⟨found, isFound, covers, _⟩
    rw [isMetadata] at isFound
    cases isFound
    exact covers
  · intro covers
    refine ⟨metadata, isMetadata, covers, ?_⟩
    rintro blocks reader isBlock rfl start stop inRange
    exact mem_findBlocksInRange isBlock covers inRange

theorem zeroHidden_congr {le : Timestamp → Timestamp → Prop}
    {times sameTimes pointTimes samePointTimes : List Timestamp}
    (same : ∀ time, time ∈ times ↔ time ∈ sameTimes)
    (samePoints : ∀ time, time ∈ pointTimes ↔ time ∈ samePointTimes) :
    ZeroHidden le times pointTimes ↔
      ZeroHidden le sameTimes samePointTimes := by
  have bound : IsFirstOf le 0 times ↔ IsFirstOf le 0 sameTimes := by
    simp only [IsFirstOf, same]
  have empty : pointTimes = [] ↔ samePointTimes = [] := by
    simp only [eq_nil_iff_forall_not_mem, samePoints]
  constructor
  · intro hidden
    exact ⟨bound.mp hidden.isBound, fun none => hidden.somePoint (empty.mpr none),
      fun time member => hidden.beyond time ((samePoints time).mpr member)⟩
  · intro hidden
    exact ⟨bound.mpr hidden.isBound, fun none => hidden.somePoint (empty.mp none),
      fun time member => hidden.beyond time ((samePoints time).mp member)⟩

theorem metadata_of_written {json : Codec Error Labels} {writer : FullWriter}
    {layout : writer.toBlockWriter.Layout} {pointLayout : writer.PointLayout}
    {existing files : BlockFiles}
    (written : writer.write json layout pointLayout existing = .ok files) :
    files.metadata =
      some (writer.fullMeta (writer.toBlockWriter.laidOut layout)
        (writer.pointsLaidOut pointLayout)) := by
  rw [write] at written
  split at written
  · cases written
  · split at written
    · cases written
    · split at written
      · cases written
      · split at written <;> cases written
        rfl

theorem covers_fullMeta_iff
    {blockId : UInt64} {calls : List WriterCall} {writer : FullWriter}
    (added : WriterCall.runAll hasher calls (.new blockId) = .ok writer)
    (layout : writer.toBlockWriter.Layout) (pointLayout : writer.PointLayout) :
    Covers
        (writer.fullMeta (writer.toBlockWriter.laidOut layout)
          (writer.pointsLaidOut pointLayout))
        (calls.flatMap WriterCall.sampleTimes ++
          calls.flatMap WriterCall.pointTimes) ↔
      ¬ZeroHidden (· ≤ ·) (calls.flatMap WriterCall.sampleTimes)
          (calls.flatMap WriterCall.pointTimes) ∧
        ¬ZeroHidden (· ≥ ·) (calls.flatMap WriterCall.sampleTimes)
          (calls.flatMap WriterCall.pointTimes) := by
  have sameTimes :
      ∀ time,
        time ∈
            (BlockWriter.allSamples
              (writer.toBlockWriter.laidOut layout)).map Sample.timestamp ↔
          time ∈ calls.flatMap WriterCall.sampleTimes := fun time =>
    (mem_sampleTimes_iff layout time).trans
      ((holds_after_runAll added time).1.trans
        (or_iff_right (not_holds_new blockId time).1))
  have samePoints :
      ∀ time,
        time ∈
            (allPoints (writer.pointsLaidOut pointLayout)).map
              DownsamplePoint.timestamp ↔
          time ∈ calls.flatMap WriterCall.pointTimes := fun time =>
    (mem_pointTimes_iff pointLayout time).trans
      ((holds_after_runAll added time).2.trans
        (or_iff_right (not_holds_new blockId time).2))
  have covers :=
    @covers_widenRange_iff
      (writer.toBlockWriter.blockMeta (writer.toBlockWriter.laidOut layout))
      _ rfl rfl
      ((allPoints (writer.pointsLaidOut pointLayout)).map
        DownsamplePoint.timestamp)
  rw [zeroHidden_congr sameTimes samePoints,
    zeroHidden_congr sameTimes samePoints] at covers
  rw [← covers, Covers, Covers]
  simp only [mem_append, sameTimes, samePoints]
  exact Iff.rfl

/--
The time range of a block holds all timestamps that were added, and the block is
found for them, unless zero is the least timestamp of the samples and all points
are later, or zero is the greatest one and all points are earlier.
-/
theorem block_range_sound_iff {hasher : Bytes → UInt64}
    {json : Codec Error Labels} {blockId : UInt64} {calls : List WriterCall}
    {writer : FullWriter}
    (added : WriterCall.runAll hasher calls (.new blockId) = .ok writer)
    {layout : writer.toBlockWriter.Layout} {pointLayout : writer.PointLayout}
    {existing files : BlockFiles}
    (written : writer.write json layout pointLayout existing = .ok files) :
    RangeSound files
        (calls.flatMap WriterCall.sampleTimes ++
          calls.flatMap WriterCall.pointTimes) ↔
      ¬ZeroHidden (· ≤ ·) (calls.flatMap WriterCall.sampleTimes)
          (calls.flatMap WriterCall.pointTimes) ∧
        ¬ZeroHidden (· ≥ ·) (calls.flatMap WriterCall.sampleTimes)
          (calls.flatMap WriterCall.pointTimes) := by
  rw [rangeSound_iff (metadata_of_written written),
    covers_fullMeta_iff added layout pointLayout]

def sampleAndPoint (time pointTime : Timestamp) : List WriterCall :=
  [.addSeries { seriesId := 1, labels := [], samples := [⟨time, 1⟩] },
    .addDownsampleSeries 1 [] [.new pointTime]]

theorem timeColumnOf_singleton {time : Timestamp} {column : Bytes}
    (isColumn : buildTimestampColumn [time] = .ok column) :
    timeColumnOf [time] = .ok (some column) := by
  rw [timeColumnOf, if_neg (cons_ne_nil _ _), isColumn]
  rfl

theorem exists_written {time pointTime : Timestamp}
    (timeFits : ∃ column, buildTimestampColumn [time] = .ok column)
    (pointFits : ∃ column, buildTimestampColumn [pointTime] = .ok column) :
    ∃ writer layout pointLayout files,
      WriterCall.runAll (fun _ => 0) (sampleAndPoint time pointTime)
          (.new 1) = .ok writer ∧
        writer.write labelsCodec layout pointLayout .empty = .ok files := by
  obtain ⟨column, isColumn⟩ := timeFits
  obtain ⟨pointColumn, isPointColumn⟩ := pointFits
  obtain ⟨between, adds, isBetween, sound⟩ :=
    (filterSound_new (fun _ => 0) 1).exists_addSeries
      { seriesId := 1, labels := [], samples := [⟨time, 1⟩] }
  obtain ⟨writer, addsPoint, sameSeries, isPoints⟩ :=
    @exists_addDownsampleSeries (fun _ => 0) between
      (sound.gains.sized sized_newFilter) 1
      (by rw [sound.noPoints]; rfl) [] [.new pointTime]
  have isSeries :
      writer.seriesData =
        ((BlockWriter.new 1).addSeries 1 [] [⟨time, 1⟩]).seriesData := by
    rw [sameSeries, isBetween]
    rfl
  have laid :
      writer.toBlockWriter.laidOut writer.toBlockWriter.tableLayout =
        [(1, { labels := [], samples := [⟨time, 1⟩] })] := by
    have isOrder : writer.toBlockWriter.tableLayout.order = [1] := by
      change writer.seriesData.keys = [1]
      rw [isSeries]
      rfl
    rw [BlockWriter.laidOut, isOrder, isSeries]
    rfl
  have laidPoints :
      writer.pointsLaidOut (pointTableLayout writer) =
        [(1, { labels := [], points := [.new pointTime] })] := by
    rw [sound.noPoints] at isPoints
    have isOrder : (pointTableLayout writer).order = [1] := by
      change writer.downsampleData.keys = [1]
      rw [isPoints]
      rfl
    rw [pointsLaidOut, isOrder, isPoints]
    rfl
  refine ⟨writer, writer.toBlockWriter.tableLayout, pointTableLayout writer, ?_⟩
  rw [write, laid, laidPoints]
  have ran :
      WriterCall.runAll (fun _ => 0) (sampleAndPoint time pointTime)
          (.new 1) = .ok writer := by
    rw [sampleAndPoint, WriterCall.runAll, WriterCall.run, adds]
    dsimp only
    rw [WriterCall.runAll, WriterCall.run, addsPoint]
    rfl
  have short : ¬BlockWriter.maxVecLength < 1 := by decide
  simp only [BlockWriter.allSamples, allPoints, flatMap_cons,
    flatMap_nil, append_nil, map_cons, map_nil, length_singleton, if_neg short,
    timeColumnOf_singleton isColumn, DownsamplePoint.new, timeColumnOf_singleton
    isPointColumn]
  exact ⟨_, ran, rfl⟩

theorem range_of_later_point :
    ∃ writer layout pointLayout files,
      WriterCall.runAll (fun _ => 0) (sampleAndPoint 5 1000) (.new 1) =
          .ok writer ∧
        writer.write labelsCodec layout pointLayout .empty = .ok files ∧
          RangeSound files
            ((sampleAndPoint 5 1000).flatMap WriterCall.sampleTimes ++
              (sampleAndPoint 5 1000).flatMap WriterCall.pointTimes) := by
  obtain ⟨writer, layout, pointLayout, files, added, written⟩ :=
    @exists_written 5 1000 ⟨_, rfl⟩ ⟨_, rfl⟩
  refine ⟨writer, layout, pointLayout, files, added, written,
    (block_range_sound_iff added written).mpr ⟨?_, ?_⟩⟩
  · exact fun hidden => absurd hidden.isBound.1 (by decide)
  · exact fun hidden => absurd hidden.isBound.1 (by decide)

/--
A block with a sample at zero and a point at 1000 has a range from 1000 on, so
that it is not found for zero.
-/
theorem sample_at_zero_is_hidden :
    ∃ writer layout pointLayout files,
      WriterCall.runAll (fun _ => 0) (sampleAndPoint 0 1000) (.new 1) =
          .ok writer ∧
        writer.write labelsCodec layout pointLayout .empty = .ok files ∧
          ¬RangeSound files
            ((sampleAndPoint 0 1000).flatMap WriterCall.sampleTimes ++
              (sampleAndPoint 0 1000).flatMap WriterCall.pointTimes) := by
  obtain ⟨writer, layout, pointLayout, files, added, written⟩ :=
    @exists_written 0 1000 ⟨_, rfl⟩ ⟨_, rfl⟩
  refine ⟨writer, layout, pointLayout, files, added, written, ?_⟩
  rw [rangeSound_iff (metadata_of_written written),
    covers_fullMeta_iff added layout pointLayout]
  exact fun shown =>
    shown.1
      ⟨⟨by decide, forall_mem_singleton.mpr (by decide)⟩, by decide,
        forall_mem_singleton.mpr (by decide)⟩

end ChronoDB.Query
