import ChronoDB.Library.Transition
import ChronoDB.Wal.Segment

namespace ChronoDB.Wal

open Library

/-!
# The log writer

The writer holds its counters in memory and rebuilds them from the directory
when it is opened.  Clock readings are arguments of the operations that take
them, so a theorem about every operation covers every clock.
-/

structure WalSegmentConfig where
  maxSegmentSize : ℕ
  maxSegmentEntries : ℕ
  maxSegmentDurationSecs : UInt64
  deriving Repr, DecidableEq

namespace WalSegmentConfig

def default : WalSegmentConfig where
  maxSegmentSize := 128 * 1024 * 1024
  maxSegmentEntries := 100000
  maxSegmentDurationSecs := 3600

/-- The limits of a segment, as both writers test them. -/
def limitReached (config : WalSegmentConfig) (size entries : ℕ) (age : UInt64) :
    Bool :=
  config.maxSegmentSize ≤ size ||
    config.maxSegmentEntries ≤ entries ||
    (0 < config.maxSegmentDurationSecs && config.maxSegmentDurationSecs ≤ age)

end WalSegmentConfig

/-- The fields of the writer; `openSegment` is the segment of its open file. -/
structure WalWriter where
  openSegment : ℕ
  currentSegment : ℕ
  currentSize : ℕ
  currentEntries : ℕ
  segmentCreatedAt : UInt64
  sequence : UInt64
  config : WalSegmentConfig
  deriving Repr, DecidableEq

/-- A log directory and the writer that is open on it. -/
structure WalState where
  dir : SegmentDir
  writer : WalWriter

/-- The readings that a rotation takes: seconds, then milliseconds. -/
structure RotationClock where
  secs : UInt64
  millis : Timestamp
  deriving Repr, DecidableEq

namespace WalWriter

/-- One directory entry of the scan for the latest segment. -/
def visitSegment
    (created : ℕ → UInt64) (latest : ℕ × UInt64 × UInt64) (segment : ℕ) :
    ℕ × UInt64 × UInt64 :=
  let (latestSegment, latestSequence, _) := latest
  if latestSegment < segment then
    (segment, latestSequence, created segment)
  else
    latest

/--
The latest segment, the sequence to continue with, and the creation time of the
segment.  `created` gives the creation times the file system reports.
-/
def findLatestSegment (dir : SegmentDir) (created : ℕ → UInt64) :
    ℕ × UInt64 × UInt64 :=
  dir.keys.foldl (visitSegment created) (0, 0, 0)

/-- An estimate from the file size: one entry for each kibibyte. -/
def countEntriesInSegment (fileSize : ℕ) : ℕ :=
  if fileSize ≤ WalHeader.size then 0
  else (fileSize - WalHeader.size) / 1024

def shouldRotate (writer : WalWriter) (now : UInt64) : Bool :=
  writer.config.limitReached writer.currentSize writer.currentEntries
    (now - writer.segmentCreatedAt)

end WalWriter

namespace WalState

variable (codec : WalCodec)

/-- `WalWriter::with_config` on a directory. -/
def withConfig
    (dir : SegmentDir) (config : WalSegmentConfig) (created : ℕ → UInt64)
    (millis : Timestamp) :
    WalState :=
  let (segment, sequence, createdAt) := WalWriter.findLatestSegment dir created
  let file := (dir.lookup segment).getD SegmentFile.created
  let currentSize := (file.bytes codec).length
  let opened :=
    if (dir.lookup segment).isNone || currentSize = 0 then
      { file with
        header := some { sequence := sequence, createdAt := millis } }
    else
      file
  {
    dir := dir.insert segment opened
    writer := {
      openSegment := segment
      currentSegment := segment
      currentSize := currentSize
      currentEntries := WalWriter.countEntriesInSegment currentSize
      segmentCreatedAt := createdAt
      sequence := sequence
      config := config
    }
  }

def rotate (state : WalState) (clock : RotationClock) :
    Except Error Unit × WalState :=
  let writer := {
    state.writer with
    currentSegment := state.writer.currentSegment + 1
    currentSize := 0
    currentEntries := 0
    segmentCreatedAt := clock.secs
  }
  match state.dir.lookup writer.currentSegment with
  | some _ => (.error (.io .alreadyExists), { state with writer := writer })
  | none =>
    let header := {
      sequence := writer.sequence
      createdAt := clock.millis
    }
    (.ok (), {
      dir := state.dir.insert writer.currentSegment
        { header := some header, frames := [] }
      writer := { writer with openSegment := writer.currentSegment }
    })

/-- Append one entry and advance the counters, as `write` does at first. -/
def appendEntry (state : WalState) (entry : WalEntry) : WalState where
  dir := state.dir.append state.writer.openSegment
    [{ sequence := state.writer.sequence, entry := entry }]
  writer := {
    state.writer with
    sequence := state.writer.sequence + 1
    currentSize := state.writer.currentSize + (8 + (entry.encode codec).length)
    currentEntries := state.writer.currentEntries + 1
  }

def write (state : WalState) (entry : WalEntry) (now : UInt64)
    (clock : RotationClock) :
    Except Error Unit × WalState :=
  let appended := state.appendEntry codec entry
  if appended.writer.shouldRotate now then
    appended.rotate clock
  else
    (.ok (), appended)

end WalState

/-- What a log can be asked to do. -/
inductive WalOperation where
  | write (entry : WalEntry) (now : UInt64) (clock : RotationClock)
  | rotate (clock : RotationClock)
  | sync
  | reopen
      (config : WalSegmentConfig)
      (created : ℕ → UInt64)
      (millis : Timestamp)

namespace WalOperation

variable (codec : WalCodec)

def run (state : WalState) :
    WalOperation → Except Error Unit × WalState
  | write entry now clock => state.write codec entry now clock
  | rotate clock => state.rotate clock
  | sync => (.ok (), state)
  | reopen config created millis =>
    (.ok (), WalState.withConfig codec state.dir config created millis)

def logged : WalOperation → Option WalEntry
  | write entry _ _ => some entry
  | rotate _ => none
  | sync => none
  | reopen _ _ _ => none

end WalOperation

/-- One operation that returns `Ok`. -/
def WalStep (codec : WalCodec) (before : WalState) (operation : WalOperation)
    (after : WalState) :
    Prop :=
  operation.run codec before = (.ok (), after)

/-- The first opening of a log in a directory without segments. -/
def WalState.initial
    (codec : WalCodec) (config : WalSegmentConfig) (created : ℕ → UInt64)
    (millis : Timestamp) :
    WalState :=
  withConfig codec ∅ config created millis

/-!
## What the operations do to a log that writers left behind
-/

namespace WalWriter

variable {dir : SegmentDir} {last : ℕ}

theorem visitSegment_greatest
    (created : ℕ → UInt64) (segments : List ℕ) (start : ℕ × UInt64 × UInt64)
    {greatest : ℕ} (startBelow : start.1 ≤ greatest)
    (allBelow : ∀ segment ∈ segments, segment ≤ greatest)
    (reached : start.1 = greatest ∨ greatest ∈ segments) :
    (segments.foldl (visitSegment created) start).1 = greatest := by
  induction segments generalizing start with
  | nil => simpa using reached
  | cons first rest inductionHypothesis =>
    obtain ⟨firstBelow, restBelow⟩ := List.forall_mem_cons.mp allBelow
    rw [List.foldl_cons]
    have visited :
        (visitSegment created start first).1 = max start.1 first := by
      simp only [visitSegment]
      split <;> simp <;> omega
    refine inductionHypothesis _ (by omega) restBelow ?_
    rcases reached with startReached | found
    · left
      omega
    · rcases List.mem_cons.mp found with isFirst | inRest
      · left
        omega
      · exact .inr inRest

theorem findLatestSegment_last
    (upTo : NumberedMap.UpTo dir last) (created : ℕ → UInt64) :
    (findLatestSegment dir created).1 = last :=
  visitSegment_greatest created dir.keys (0, 0, 0) (Nat.zero_le last)
    (fun segment member =>
      (upTo segment).mp (AList.mem_keys.mpr member))
    (.inr (AList.mem_keys.mp ((upTo last).mpr le_rfl)))

theorem findLatestSegment_sequence (dir : SegmentDir) (created : ℕ → UInt64) :
    (findLatestSegment dir created).2.1 = 0 := by
  have keeps :
      ∀ (segments : List ℕ) (start : ℕ × UInt64 × UInt64),
        (segments.foldl (visitSegment created) start).2.1 = start.2.1 := by
    intro segments
    induction segments with
    | nil =>
      exact fun start => rfl
    | cons first rest inductionHypothesis =>
      intro start
      rw [List.foldl_cons, inductionHypothesis, visitSegment]
      split <;> rfl
  exact keeps dir.keys (0, 0, 0)

end WalWriter

namespace WalState

/-- The log is well formed and the writer holds its last segment open. -/
structure Ready (state : WalState) : Prop where
  wellFormed : state.dir.WellFormed state.writer.currentSegment
  opensLast : state.writer.openSegment = state.writer.currentSegment

/-- The state after a rotation that found no file in its way. -/
def rotated (state : WalState) (clock : RotationClock) : WalState where
  dir := state.dir.insert (state.writer.currentSegment + 1) {
    header := some {
      sequence := state.writer.sequence
      createdAt := clock.millis
    }
    frames := []
  }
  writer := {
    state.writer with
    openSegment := state.writer.currentSegment + 1
    currentSegment := state.writer.currentSegment + 1
    currentSize := 0
    currentEntries := 0
    segmentCreatedAt := clock.secs
  }

variable (codec : WalCodec)

@[simp] theorem withConfig_sequence
    (dir : SegmentDir) (config : WalSegmentConfig) (created : ℕ → UInt64)
    (millis : Timestamp) :
    (withConfig codec dir config created millis).writer.sequence = 0 :=
  WalWriter.findLatestSegment_sequence dir created

theorem withConfig_dir
    {dir : SegmentDir} {last : ℕ} (wellFormed : dir.WellFormed last)
    (config : WalSegmentConfig) (created : ℕ → UInt64) (millis : Timestamp) :
    let opened := withConfig codec dir config created millis
    opened.dir = dir.append last [] ∧
      opened.writer.currentSegment = last ∧
      opened.writer.openSegment = last := by
  obtain ⟨file, found⟩ := wellFormed.lookup_last
  obtain ⟨header, hasHeader⟩ :=
    Option.isSome_iff_exists.mp (wellFormed.hasHeader last file found)
  have notEmpty : (file.bytes codec).length ≠ 0 := by
    simp [SegmentFile.bytes, hasHeader, WalHeader.size]
  rcases scan : WalWriter.findLatestSegment dir created with
    ⟨segment, sequence, createdAt⟩
  obtain rfl : segment = last := by
    simpa [scan] using WalWriter.findLatestSegment_last wellFormed.upTo created
  rw [withConfig, scan]
  simp [found, notEmpty, SegmentDir.append, SegmentFile.append]

theorem Ready.withConfig
    {dir : SegmentDir} {last : ℕ} (wellFormed : dir.WellFormed last)
    (config : WalSegmentConfig) (created : ℕ → UInt64) (millis : Timestamp) :
    let opened := WalState.withConfig codec dir config created millis
    Ready opened ∧ opened.dir.frames = dir.frames := by
  obtain ⟨sameDir, current, opens⟩ :=
    withConfig_dir codec wellFormed config created millis
  refine ⟨⟨?_, by rw [current, opens]⟩, ?_⟩
  · rw [current, sameDir]
    exact wellFormed.append []
  · rw [sameDir, wellFormed.frames_append, List.append_nil]

variable {state : WalState} (config : WalSegmentConfig) (created : ℕ → UInt64)
  (millis : Timestamp)

theorem initial_dir :
    (initial codec config created millis).dir =
      (∅ : SegmentDir).insert 0 {
        header := some { sequence := 0, createdAt := millis }
        frames := []
      } :=
  rfl

theorem Ready.initial :
    Ready (initial codec config created millis) where
  wellFormed := SegmentDir.WellFormed.first _
  opensLast := rfl

@[simp] theorem frames_initial :
    (initial codec config created millis).dir.frames = [] :=
  rfl

/-- In a ready log no file is in the way of a rotation. -/
theorem Ready.rotate (ready : Ready state) (clock : RotationClock) :
    state.rotate clock = (.ok (), state.rotated clock) := by
  simp [WalState.rotate, ready.wellFormed.nextUnused, rotated]

theorem Ready.rotated (ready : Ready state) (clock : RotationClock) :
    Ready (state.rotated clock) :=
  ⟨ready.wellFormed.create _, rfl⟩

theorem Ready.frames_rotated (ready : Ready state) (clock : RotationClock) :
    (state.rotated clock).dir.frames = state.dir.frames :=
  ready.wellFormed.frames_create _

theorem Ready.appendEntry (ready : Ready state) (entry : WalEntry) :
    Ready (state.appendEntry codec entry) := by
  refine ⟨?_, ready.opensLast⟩
  simp only [WalState.appendEntry, ready.opensLast]
  exact ready.wellFormed.append _

theorem Ready.frames_appendEntry (ready : Ready state) (entry : WalEntry) :
    (state.appendEntry codec entry).dir.frames =
      state.dir.frames ++
        [{ sequence := state.writer.sequence, entry := entry }] := by
  simp only [WalState.appendEntry, ready.opensLast]
  exact ready.wellFormed.frames_append _

/-- A write to a ready log succeeds, with or without a rotation. -/
theorem Ready.write (ready : Ready state) (entry : WalEntry) (now : UInt64)
    (clock : RotationClock) :
    state.write codec entry now clock =
      (.ok (),
        if (state.appendEntry codec entry).writer.shouldRotate now then
          (state.appendEntry codec entry).rotated clock
        else
          state.appendEntry codec entry) := by
  rw [WalState.write]
  split
  · exact (ready.appendEntry codec entry).rotate clock
  · rfl

end WalState

/-- The states that an operation on a ready log can lead to. -/
def WalOperation.Outcome (codec : WalCodec) (before after : WalState) :
    WalOperation → Prop
  | write entry _ clock =>
    after = before.appendEntry codec entry ∨
      after = (before.appendEntry codec entry).rotated clock
  | rotate clock => after = before.rotated clock
  | sync => after = before
  | reopen config created millis =>
    after = WalState.withConfig codec before.dir config created millis

namespace WalStep

variable {codec : WalCodec} {before after : WalState}

/--
What an operation on a ready log can do: append an entry, rotate, do both, or
open the log again.
-/
theorem outcome (ready : before.Ready) {operation : WalOperation}
    (step : WalStep codec before operation after) :
    operation.Outcome codec before after := by
  cases operation with
  | write entry now clock =>
    rw [WalStep, WalOperation.run, ready.write codec] at step
    have sameState := (Prod.mk.inj step).2
    split at sameState
    · exact .inr sameState.symm
    · exact .inl sameState.symm
  | rotate clock =>
    rw [WalStep, WalOperation.run, ready.rotate] at step
    exact (Prod.mk.inj step).2.symm
  | sync => exact (Prod.mk.inj step).2.symm
  | reopen config created millis => exact (Prod.mk.inj step).2.symm

theorem preserves {Invariant : WalState → Prop}
    (appendCase :
      ∀ {state entry},
        Invariant state → Invariant (state.appendEntry codec entry))
    (rotateCase :
      ∀ {state clock}, Invariant state → Invariant (state.rotated clock))
    (reopenCase :
      ∀ {state config created millis},
        Invariant state →
        Invariant (WalState.withConfig codec state.dir config created millis))
    (ready : before.Ready) {operation : WalOperation}
    (step : WalStep codec before operation after) (holds : Invariant before) :
    Invariant after := by
  have outcome := outcome ready step
  cases operation with
  | write entry now clock =>
    rcases outcome with rfl | rfl
    · exact appendCase holds
    · exact rotateCase (appendCase holds)
  | rotate clock =>
    obtain rfl : after = before.rotated clock := outcome
    exact rotateCase holds
  | sync =>
    obtain rfl : after = before := outcome
    exact holds
  | reopen config created millis =>
    obtain rfl :
        after = WalState.withConfig codec before.dir config created
        millis :=
      outcome
    exact reopenCase holds

theorem write_of_stays {entry : WalEntry} {now : UInt64}
    (stays :
      (before.appendEntry codec entry).writer.shouldRotate now = false)
    (clock : RotationClock) :
    WalStep codec before (.write entry now clock)
      (before.appendEntry codec entry) := by
  simp [WalStep, WalOperation.run, WalState.write, stays]

theorem dirExtends (ready : before.Ready) {operation : WalOperation}
    (step : WalStep codec before operation after) :
    before.dir.Extends after.dir := by
  have outcome := outcome ready step
  have appended : ∀ entry,
      before.dir.Extends (before.appendEntry codec entry).dir :=
    fun entry => SegmentDir.Extends.append _ _ _
  cases operation with
  | write entry now clock =>
    rcases outcome with rfl | rfl
    · exact appended entry
    · exact (appended entry).trans
        (SegmentDir.Extends.insert
          (ready.appendEntry codec entry).wellFormed.nextUnused _)
  | rotate clock =>
    obtain rfl : after = before.rotated clock := outcome
    exact SegmentDir.Extends.insert ready.wellFormed.nextUnused _
  | sync =>
    obtain rfl : after = before := outcome
    exact SegmentDir.Extends.refl _
  | reopen config created millis =>
    obtain rfl :
        after = WalState.withConfig codec before.dir config created
        millis :=
      outcome
    rw [(WalState.withConfig_dir codec ready.wellFormed config created
      millis).1]
    exact SegmentDir.Extends.append _ _ _

/-- Every operation leaves a log that is ready. -/
theorem ready (readyBefore : before.Ready) {operation : WalOperation}
    (step : WalStep codec before operation after) :
    after.Ready :=
  preserves
    (fun ready => ready.appendEntry codec _)
    (fun ready => ready.rotated _)
    (fun ready =>
      (WalState.Ready.withConfig codec ready.wellFormed _ _ _).1)
    readyBefore step readyBefore

theorem exists_after
    (codec : WalCodec) (ready : before.Ready) (operation : WalOperation) :
    ∃ after, WalStep codec before operation after := by
  cases operation with
  | write entry now clock => exact ⟨_, ready.write codec entry now clock⟩
  | rotate clock => exact ⟨_, ready.rotate clock⟩
  | sync => exact ⟨_, rfl⟩
  | reopen config created millis => exact ⟨_, rfl⟩

theorem frames_eq (ready : before.Ready) {operation : WalOperation}
    (step : WalStep codec before operation after) :
    after.dir.frames =
      before.dir.frames ++
        (operation.logged.toList.map fun entry =>
          { sequence := before.writer.sequence, entry := entry }) := by
  have outcome := outcome ready step
  cases operation with
  | write entry now clock =>
    have appendedFrames := ready.frames_appendEntry codec entry
    rcases outcome with rfl | rfl
    · simp [appendedFrames, WalOperation.logged]
    · rw [(ready.appendEntry codec entry).frames_rotated clock]
      simp [appendedFrames, WalOperation.logged]
  | rotate clock =>
    obtain rfl : after = before.rotated clock := outcome
    simp [ready.frames_rotated, WalOperation.logged]
  | sync =>
    obtain rfl : after = before := outcome
    simp [WalOperation.logged]
  | reopen config created millis =>
    obtain rfl :
        after = WalState.withConfig codec before.dir config created
        millis :=
      outcome
    simp [(WalState.Ready.withConfig codec ready.wellFormed config created
      millis).2, WalOperation.logged]

end WalStep

theorem ready_of_run {codec : WalCodec} {initial final : WalState}
    {operations : List WalOperation}
    (run : Run (WalStep codec) initial operations final)
    (ready : initial.Ready) :
    final.Ready :=
  run.preserves (fun ready step => step.ready ready) ready

theorem exists_run
    (codec : WalCodec) {initial : WalState} (ready : initial.Ready)
    (operations : List WalOperation) :
    ∃ final, Run (WalStep codec) initial operations final := by
  induction operations generalizing initial with
  | nil => exact ⟨initial, .nil initial⟩
  | cons operation rest inductionHypothesis =>
    obtain ⟨middle, first⟩ := WalStep.exists_after codec ready operation
    obtain ⟨final, later⟩ := inductionHypothesis (first.ready ready)
    exact ⟨final, .cons first later⟩

theorem entries_of_run {codec : WalCodec} {initial final : WalState}
    {operations : List WalOperation}
    (run : Run (WalStep codec) initial operations final)
    (ready : initial.Ready) :
    final.dir.frames.map Frame.entry =
      initial.dir.frames.map Frame.entry ++
        operations.filterMap WalOperation.logged := by
  induction run with
  | nil state => simp
  | cons first later inductionHypothesis =>
    rename_i operation rest
    rw [inductionHypothesis (first.ready ready), first.frames_eq ready]
    cases found : operation.logged <;>
      simp [found]

end ChronoDB.Wal
