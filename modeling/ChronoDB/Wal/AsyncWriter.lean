import Mathlib.Logic.Function.Basic
import ChronoDB.Library.BufferedWriter
import ChronoDB.Wal.Reader
import ChronoDB.Wal.Writer

namespace ChronoDB.Wal

open Library

/-!
# The asynchronous log writer

Entries wait in a batch, a batch is handed to a buffered writer, and the
buffered writer passes bytes on to the segment file.  A directory is kept as
what was handed to the buffered writers, with the number of newest bytes of each
segment that never left memory.
-/

structure AsyncWalConfig extends WalSegmentConfig where
  bufferSize : ℕ
  batchSize : ℕ
  deriving Repr, DecidableEq

structure AsyncWalWriter where
  openSegment : ℕ
  currentSegment : ℕ
  currentSize : ℕ
  currentEntries : ℕ
  segmentCreatedAt : UInt64
  sequence : UInt64
  config : AsyncWalConfig
  pendingBatch : List Frame
  deriving Repr, DecidableEq

/--
A log directory and the asynchronous writer that is open on it.  `unflushed`
counts the newest bytes of a segment that are only in memory; once the buffered
writer of the segment was dropped they are lost.
-/
structure AsyncWalState where
  dir : SegmentDir
  unflushed : ℕ → ℕ
  writer : AsyncWalWriter

/-- One entry to write, with the clock readings the call takes. -/
structure WriteCall where
  entry : WalEntry
  now : UInt64
  clock : RotationClock
  deriving Repr, DecidableEq

namespace AsyncWalWriter

variable (codec : WalCodec)

/-- Stamp an entry with the next sequence number and let it wait. -/
def push (writer : AsyncWalWriter) (entry : WalEntry) : AsyncWalWriter :=
  {
    writer with
    sequence := writer.sequence + 1
    pendingBatch :=
      writer.pendingBatch ++ [{ sequence := writer.sequence, entry := entry }]
  }

/-- The counters once the batch was handed to the buffered writer. -/
def clearBatch (writer : AsyncWalWriter) : AsyncWalWriter :=
  {
    writer with
    currentSize :=
      writer.currentSize +
        (writer.pendingBatch.map fun item => item.size codec).sum
    currentEntries := writer.currentEntries + writer.pendingBatch.length
    pendingBatch := []
  }

def shouldRotate (writer : AsyncWalWriter) (now : UInt64) : Bool :=
  writer.config.limitReached writer.currentSize writer.currentEntries
    (now - writer.segmentCreatedAt)

end AsyncWalWriter

namespace AsyncWalState

variable (codec : WalCodec) (policy : BufferPolicy)

/-- `AsyncWalWriter::with_config` in a directory without segments. -/
def create (config : AsyncWalConfig) (millis : Timestamp) :
    AsyncWalState where
  dir := (∅ : SegmentDir).insert 0 {
    header := some { sequence := 0, createdAt := millis }
    frames := []
  }
  unflushed := fun _ => 0
  writer := {
    openSegment := 0
    currentSegment := 0
    currentSize := 0
    currentEntries := 0
    segmentCreatedAt := 0
    sequence := 0
    config := config
    pendingBatch := []
  }

/-- `BufWriter::write_all` of one item. -/
def writeItem (state : AsyncWalState) (item : Frame) : AsyncWalState :=
  let segment := state.writer.openSegment
  {
    state with
    dir := state.dir.append segment [item]
    unflushed :=
      Function.update state.unflushed segment
        (policy.kept state.writer.config.bufferSize
          (state.unflushed segment) (item.size codec))
  }

/-- `BufWriter::flush`. -/
def flush (state : AsyncWalState) : AsyncWalState :=
  {
    state with
    unflushed := Function.update state.unflushed state.writer.openSegment 0
  }

def flushBatch (state : AsyncWalState) (now : UInt64) :
    Bool × AsyncWalState :=
  if state.writer.pendingBatch = [] then
    (false, state)
  else
    let written :=
      state.writer.pendingBatch.foldl (writeItem codec policy) state
    let cleared := { written with writer := written.writer.clearBatch codec }
    (cleared.writer.shouldRotate now, cleared)

/-- Dropping the buffered writer of the old segment forgets what it kept. -/
def rotateInner (state : AsyncWalState) (clock : RotationClock) :
    Except Error Unit × AsyncWalState :=
  let writer := {
    state.writer with
    currentSegment := state.writer.currentSegment + 1
    currentSize := 0
    currentEntries := 0
    segmentCreatedAt := clock.secs
  }
  match state.dir.lookup writer.currentSegment with
  | some _ => (.error (.io .alreadyExists), { state with writer := writer })
  | none =>
    let header := {
      sequence := writer.sequence
      createdAt := clock.millis
    }
    (.ok (), {
      dir := state.dir.insert writer.currentSegment
        { header := some header, frames := [] }
      unflushed := Function.update state.unflushed writer.currentSegment 0
      writer := { writer with openSegment := writer.currentSegment }
    })

theorem pendingBatch_rotateInner
    (state : AsyncWalState) (clock : RotationClock) :
    (state.rotateInner clock).2.writer.pendingBatch =
      state.writer.pendingBatch := by
  rw [rotateInner]
  split <;> rfl

theorem length_flushBatch_lt {state : AsyncWalState} {now : UInt64}
    (asks : (state.flushBatch codec policy now).1 = true) :
    (state.flushBatch codec policy now).2.writer.pendingBatch.length <
      state.writer.pendingBatch.length := by
  rw [flushBatch] at asks ⊢
  split at asks
  · cases asks
  · rename_i waiting
    rw [if_neg waiting]
    exact List.length_pos_iff.mpr waiting

/--
The loop `while self.flush_batch()? { self.rotate_inner()? }`.  Only its first
iteration finds a batch, so only that one takes clock readings.
-/
def drain (state : AsyncWalState) (now : UInt64) (clock : RotationClock) :
    Except Error Unit × AsyncWalState :=
  let flushed := state.flushBatch codec policy now
  if _asks : flushed.1 = true then
    match flushed.2.rotateInner clock with
    | (.error cause, failed) => (.error cause, failed)
    | (.ok (), _) => drain (flushed.2.rotateInner clock).2 now clock
  else
    (.ok (), flushed.2)
termination_by state.writer.pendingBatch.length
decreasing_by
  rw [pendingBatch_rotateInner]
  exact length_flushBatch_lt codec policy _asks

def write (state : AsyncWalState) (call : WriteCall) :
    Except Error Unit × AsyncWalState :=
  let pushed := { state with writer := state.writer.push call.entry }
  if pushed.writer.config.batchSize ≤ pushed.writer.pendingBatch.length then
    pushed.drain codec policy call.now call.clock
  else
    (.ok (), pushed)

/-- The loop of `write_batch`, whose body is that of `write`. -/
def writeBatch (state : AsyncWalState) :
    List WriteCall → Except Error Unit × AsyncWalState
  | [] => (.ok (), state)
  | call :: rest =>
    match state.write codec policy call with
    | (.error cause, failed) => (.error cause, failed)
    | (.ok (), written) => written.writeBatch rest

def sync (state : AsyncWalState) (now : UInt64) (clock : RotationClock) :
    Except Error Unit × AsyncWalState :=
  match state.drain codec policy now clock with
  | (.error cause, failed) => (.error cause, failed)
  | (.ok (), drained) => (.ok (), drained.flush)

def rotate
    (state : AsyncWalState) (now : UInt64) (drainClock clock : RotationClock) :
    Except Error Unit × AsyncWalState :=
  match state.drain codec policy now drainClock with
  | (.error cause, failed) => (.error cause, failed)
  | (.ok (), drained) => drained.flush.rotateInner clock

/-- What has reached the segment files. -/
def contents (state : AsyncWalState) : LogContents :=
  FiniteMap.mapKeyed
    (fun segment file =>
      (file.bytes codec).take
        ((file.bytes codec).length - state.unflushed segment))
    state.dir

end AsyncWalState

inductive AsyncOperation where
  | write (call : WriteCall)
  | writeBatch (calls : List WriteCall)
  | flushBatch (now : UInt64)
  | sync (now : UInt64) (clock : RotationClock)
  | rotate (now : UInt64) (drainClock clock : RotationClock)
  deriving Repr, DecidableEq

namespace AsyncOperation

variable (codec : WalCodec) (policy : BufferPolicy)

def run (state : AsyncWalState) :
    AsyncOperation → Except Error Unit × AsyncWalState
  | write call => state.write codec policy call
  | writeBatch calls => state.writeBatch codec policy calls
  | flushBatch now => (.ok (), (state.flushBatch codec policy now).2)
  | sync now clock => state.sync codec policy now clock
  | rotate now drainClock clock =>
    state.rotate codec policy now drainClock clock

def passed : AsyncOperation → List WalEntry
  | write call => [call.entry]
  | writeBatch calls => calls.map WriteCall.entry
  | flushBatch _ => []
  | sync _ _ => []
  | rotate _ _ _ => []

end AsyncOperation

/-- One operation that returns `Ok`. -/
def AsyncStep
    (codec : WalCodec) (policy : BufferPolicy) (before : AsyncWalState)
    (operation : AsyncOperation) (after : AsyncWalState) :
    Prop :=
  operation.run codec policy before = (.ok (), after)

end ChronoDB.Wal
