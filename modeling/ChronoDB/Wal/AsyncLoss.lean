import ChronoDB.Wal.AsyncWriter
import ChronoDB.Wal.TornTail

namespace ChronoDB.Wal

open Library List WalReader AsyncOperation AsyncWalState

/-!
# What the asynchronous writer loses

A rotation that is triggered by a batch drops the buffered writer of the old
segment without flushing it.  The log is complete exactly when no such rotation
ever found bytes in memory.
-/

namespace AsyncWalState

/-- The log is well formed and the writer holds its last segment open. -/
structure Ready (state : AsyncWalState) : Prop where
  wellFormed : state.dir.WellFormed state.writer.currentSegment
  opensLast : state.writer.openSegment = state.writer.currentSegment

/-- No closed segment lacks a byte. -/
def NoLoss (state : AsyncWalState) : Prop :=
  ∀ segment < state.writer.currentSegment, state.unflushed segment = 0

/-- The entries the writer was given: those handed on and those waiting. -/
def entries (state : AsyncWalState) : List WalEntry :=
  state.dir.frames.map Frame.entry ++ state.writer.pendingBatch.map Frame.entry

variable (codec : WalCodec) (policy : BufferPolicy)

/-- The number of bytes in memory once the batch was handed on. -/
def keptOfBatch (state : AsyncWalState) : ℕ :=
  policy.keptAfter state.writer.config.bufferSize
    (state.unflushed state.writer.openSegment)
    (state.writer.pendingBatch.map fun item => item.size codec)

/-- Handing the batch on will reach a limit of the segment. -/
def RotationDue (state : AsyncWalState) (now : UInt64) : Bool :=
  (state.writer.clearBatch codec).shouldRotate now

/-- A rotation that the batch triggers finds nothing in memory. -/
def DrainsCleanly (state : AsyncWalState) (now : UInt64) : Prop :=
  state.writer.pendingBatch ≠ [] →
    state.RotationDue codec now = true →
    state.keptOfBatch codec policy = 0

/-- The state once the batch was handed to the buffered writer. -/
def batchWritten (state : AsyncWalState) : AsyncWalState where
  dir := state.dir.append state.writer.openSegment state.writer.pendingBatch
  unflushed :=
    Function.update state.unflushed state.writer.openSegment
      (state.keptOfBatch codec policy)
  writer := state.writer.clearBatch codec

/-- The state after a rotation that found no file in its way. -/
def rotated (state : AsyncWalState) (clock : RotationClock) :
    AsyncWalState where
  dir := state.dir.insert (state.writer.currentSegment + 1) {
    header := some {
      sequence := state.writer.sequence
      createdAt := clock.millis
    }
    frames := []
  }
  unflushed :=
    Function.update state.unflushed (state.writer.currentSegment + 1) 0
  writer := {
    state.writer with
    openSegment := state.writer.currentSegment + 1
    currentSegment := state.writer.currentSegment + 1
    currentSize := 0
    currentEntries := 0
    segmentCreatedAt := clock.secs
  }

/-- The state after the loop that hands on batches and rotates. -/
def drained (state : AsyncWalState) (now : UInt64) (clock : RotationClock) :
    AsyncWalState :=
  if state.writer.pendingBatch = [] then
    state
  else if state.RotationDue codec now then
    (state.batchWritten codec policy).rotated clock
  else
    state.batchWritten codec policy

def written (state : AsyncWalState) (call : WriteCall) : AsyncWalState :=
  let pushed := { state with writer := state.writer.push call.entry }
  if pushed.writer.config.batchSize ≤ pushed.writer.pendingBatch.length then
    pushed.drained codec policy call.now call.clock
  else
    pushed

theorem foldl_writeItem (state : AsyncWalState) (items : List Frame) :
    items ≠ [] →
    items.foldl (writeItem codec policy) state =
      {
        state with
        dir := state.dir.append state.writer.openSegment items
        unflushed :=
          Function.update state.unflushed state.writer.openSegment
            (policy.keptAfter state.writer.config.bufferSize
              (state.unflushed state.writer.openSegment)
              (items.map fun item => item.size codec))
      } := by
  induction items generalizing state with
  | nil =>
    intro nonempty
    exact absurd rfl nonempty
  | cons item rest inductionHypothesis =>
    intro _
    rw [foldl_cons]
    cases rest with
    | nil => rfl
    | cons second others =>
      rw [inductionHypothesis _ (cons_ne_nil _ _)]
      simp [writeItem, SegmentDir.append_append]

variable {state : AsyncWalState}

theorem flushBatch_empty
    (noBatch : state.writer.pendingBatch = []) (now : UInt64) :
    state.flushBatch codec policy now = (false, state) := by
  rw [flushBatch, if_pos noBatch]

theorem flushBatch_waiting
    (waiting : state.writer.pendingBatch ≠ []) (now : UInt64) :
    state.flushBatch codec policy now =
      (state.RotationDue codec now, state.batchWritten codec policy) := by
  rw [flushBatch, if_neg waiting, foldl_writeItem codec policy state _ waiting]
  rfl

namespace Ready

variable {state : AsyncWalState}

theorem create (config : AsyncWalConfig) (millis : Timestamp) :
    Ready (AsyncWalState.create config millis) where
  wellFormed := SegmentDir.WellFormed.first _
  opensLast := rfl

@[simp] theorem entries_create (config : AsyncWalConfig) (millis : Timestamp) :
    (AsyncWalState.create config millis).entries = [] :=
  rfl

theorem batchWritten (ready : Ready state) :
    Ready (state.batchWritten codec policy) := by
  refine ⟨?_, ready.opensLast⟩
  simp only [AsyncWalState.batchWritten, ready.opensLast]
  exact ready.wellFormed.append _

theorem flush (ready : Ready state) : Ready state.flush :=
  ⟨ready.wellFormed, ready.opensLast⟩

theorem push (ready : Ready state) (entry : WalEntry) :
    Ready { state with writer := state.writer.push entry } :=
  ⟨ready.wellFormed, ready.opensLast⟩

theorem rotated (ready : Ready state) (clock : RotationClock) :
    Ready (state.rotated clock) :=
  ⟨ready.wellFormed.create _, rfl⟩

theorem rotateInner (ready : Ready state) (clock : RotationClock) :
    state.rotateInner clock = (.ok (), state.rotated clock) := by
  simp [AsyncWalState.rotateInner, ready.wellFormed.nextUnused,
    AsyncWalState.rotated]

theorem drained (ready : Ready state) (now : UInt64) (clock : RotationClock) :
    Ready (state.drained codec policy now clock) := by
  rw [AsyncWalState.drained]
  split
  · exact ready
  · split
    · exact (ready.batchWritten codec policy).rotated clock
    · exact ready.batchWritten codec policy

/-- On a ready log the loop ends after at most one rotation. -/
theorem drain (ready : Ready state) (now : UInt64) (clock : RotationClock) :
    state.drain codec policy now clock =
      (.ok (), state.drained codec policy now clock) := by
  rw [AsyncWalState.drain, AsyncWalState.drained]
  by_cases noBatch : state.writer.pendingBatch = []
  · rw [flushBatch_empty codec policy noBatch]
    simp [noBatch]
  · rw [flushBatch_waiting codec policy noBatch, if_neg noBatch]
    have readyWritten := ready.batchWritten codec policy
    have nothingLeft :
        ((state.batchWritten codec policy).rotated
          clock).writer.pendingBatch = [] :=
      rfl
    by_cases due : state.RotationDue codec now = true
    · simp only [due, ↓reduceDIte, ↓reduceIte, readyWritten.rotateInner clock]
      rw [AsyncWalState.drain, flushBatch_empty codec policy nothingLeft]
      simp
    · simp [due]

/-- A write that completes a batch drains it. -/
theorem write (ready : Ready state) (call : WriteCall) :
    state.write codec policy call =
      (.ok (), state.written codec policy call) := by
  rw [AsyncWalState.write, AsyncWalState.written]
  split
  · exact (ready.push call.entry).drain codec policy call.now call.clock
  · rfl

theorem written (ready : Ready state) (call : WriteCall) :
    Ready (state.written codec policy call) := by
  rw [AsyncWalState.written]
  split
  · exact (ready.push call.entry).drained codec policy _ _
  · exact ready.push call.entry

theorem writeBatch (ready : Ready state) (calls : List WriteCall) :
    state.writeBatch codec policy calls =
      (.ok (), calls.foldl (AsyncWalState.written codec policy) state) := by
  induction calls generalizing state with
  | nil => rfl
  | cons call rest inductionHypothesis =>
    rw [AsyncWalState.writeBatch, ready.write codec policy call]
    exact inductionHypothesis (ready.written codec policy call)

theorem foldl_written (ready : Ready state) (calls : List WriteCall) :
    Ready (calls.foldl (AsyncWalState.written codec policy) state) := by
  induction calls generalizing state with
  | nil => exact ready
  | cons call rest inductionHypothesis =>
    exact inductionHypothesis (ready.written codec policy call)

end Ready

/-!
## Which steps lose bytes
-/

theorem noLoss_of_update {state after : AsyncWalState} (ready : Ready state)
    (sameSegment :
      after.writer.currentSegment = state.writer.currentSegment)
    {bytes : ℕ}
    (updated :
      after.unflushed =
        Function.update state.unflushed state.writer.openSegment bytes) :
    NoLoss after ↔ NoLoss state := by
  rw [NoLoss, NoLoss, sameSegment, updated]
  refine forall_congr' fun segment => forall_congr' fun closed => ?_
  have notOpen : segment ≠ state.writer.openSegment := by
    rw [ready.opensLast]
    exact closed.ne
  rw [Function.update_of_ne notOpen]

theorem noLoss_batchWritten (ready : Ready state) :
    NoLoss (state.batchWritten codec policy) ↔ NoLoss state :=
  noLoss_of_update ready rfl rfl

theorem noLoss_flush (ready : Ready state) :
    NoLoss state.flush ↔ NoLoss state :=
  noLoss_of_update ready rfl rfl

theorem noLoss_rotated (state : AsyncWalState) (clock : RotationClock) :
    NoLoss (state.rotated clock) ↔
      NoLoss state ∧ state.unflushed state.writer.currentSegment = 0 := by
  have sameCounts :
      ∀ segment < state.writer.currentSegment + 1,
        (state.rotated clock).unflushed segment = state.unflushed segment := by
    intro segment below
    exact Function.update_of_ne (by omega) _ _
  constructor
  · intro noLoss
    refine ⟨fun segment closed => ?_, ?_⟩
    · rw [← sameCounts segment (by omega)]
      exact noLoss segment (Nat.lt_succ_of_lt closed)
    · rw [← sameCounts _ (Nat.lt_succ_self _)]
      exact noLoss _ (Nat.lt_succ_self _)
  · rintro ⟨noLoss, flushed⟩ segment closed
    rw [sameCounts segment closed]
    rcases Nat.lt_succ_iff_lt_or_eq.mp closed with earlier | rfl
    · exact noLoss segment earlier
    · exact flushed

theorem noLoss_drained
    (ready : Ready state) (now : UInt64) (clock : RotationClock) :
    NoLoss (state.drained codec policy now clock) ↔
      NoLoss state ∧ state.DrainsCleanly codec policy now := by
  rw [drained, DrainsCleanly]
  split
  · rename_i noBatch
    simp [noBatch]
  · rename_i waiting
    split
    · rename_i due
      have keptInOpen :
          (state.batchWritten codec policy).unflushed
              (state.batchWritten codec policy).writer.currentSegment =
            state.keptOfBatch codec policy := by
        have sameSegment :
            (state.batchWritten codec policy).writer.currentSegment =
              state.writer.openSegment :=
          ready.opensLast.symm
        rw [sameSegment]
        exact Function.update_self _ _ _
      rw [noLoss_rotated, noLoss_batchWritten codec policy ready, keptInOpen]
      simp [waiting, due]
    · rename_i notDue
      rw [noLoss_batchWritten codec policy ready]
      simp [notDue]

def WritesCleanly (state : AsyncWalState) (call : WriteCall) : Prop :=
  let pushed := { state with writer := state.writer.push call.entry }
  pushed.writer.config.batchSize ≤ pushed.writer.pendingBatch.length →
    pushed.DrainsCleanly codec policy call.now

/-- Every write of a list drains cleanly in the state it finds. -/
def BatchWritesCleanly (state : AsyncWalState) : List WriteCall → Prop
  | [] => True
  | call :: rest =>
    state.WritesCleanly codec policy call ∧
      BatchWritesCleanly (state.written codec policy call) rest

theorem noLoss_written (ready : Ready state) (call : WriteCall) :
    NoLoss (state.written codec policy call) ↔
      NoLoss state ∧ state.WritesCleanly codec policy call := by
  have samePushed :
      NoLoss { state with writer := state.writer.push call.entry } ↔
        NoLoss state :=
    Iff.rfl
  rw [written, WritesCleanly]
  split
  · rename_i complete
    rw [noLoss_drained codec policy (ready.push call.entry), samePushed]
    simp only [complete, true_imp_iff]
  · rename_i waits
    rw [samePushed]
    simp only [waits, false_imp_iff, and_true]

theorem noLoss_foldl_written (ready : Ready state) (calls : List WriteCall) :
    NoLoss (calls.foldl (written codec policy) state) ↔
      NoLoss state ∧ state.BatchWritesCleanly codec policy calls := by
  induction calls generalizing state with
  | nil => simp [BatchWritesCleanly]
  | cons call rest inductionHypothesis =>
    rw [foldl_cons, inductionHypothesis (ready.written codec policy call),
      noLoss_written codec policy ready, BatchWritesCleanly, and_assoc]

/-!
## Which entries the writer holds
-/

@[simp] theorem entries_batchWritten (ready : Ready state) :
    (state.batchWritten codec policy).entries = state.entries := by
  simp only [entries, batchWritten, AsyncWalWriter.clearBatch, ready.opensLast,
    ready.wellFormed.frames_append, map_append, map_nil, append_nil]

theorem entries_rotated (ready : Ready state) (clock : RotationClock) :
    (state.rotated clock).entries = state.entries := by
  simp only [entries, rotated, ready.wellFormed.frames_create]

theorem entries_drained
    (ready : Ready state) (now : UInt64) (clock : RotationClock) :
    (state.drained codec policy now clock).entries = state.entries := by
  have written := entries_batchWritten codec policy ready
  rw [drained]
  split
  · rfl
  · split
    · rw [entries_rotated (ready.batchWritten codec policy), written]
    · exact written

theorem entries_written (ready : Ready state) (call : WriteCall) :
    (state.written codec policy call).entries =
      state.entries ++ [call.entry] := by
  have pushed :
      entries
          { state with writer := state.writer.push call.entry } =
        state.entries ++ [call.entry] := by
    simp [entries, AsyncWalWriter.push]
  rw [written]
  split
  · rw [entries_drained codec policy (ready.push call.entry), pushed]
  · exact pushed

theorem entries_foldl_written (ready : Ready state) (calls : List WriteCall) :
    (calls.foldl (written codec policy) state).entries =
      state.entries ++ calls.map WriteCall.entry := by
  induction calls generalizing state with
  | nil => simp
  | cons call rest inductionHypothesis =>
    rw [foldl_cons, inductionHypothesis (ready.written codec policy call),
      entries_written codec policy ready]
    simp

theorem pendingBatch_drained
    (state : AsyncWalState) (now : UInt64) (clock : RotationClock) :
    (state.drained codec policy now clock).writer.pendingBatch = [] := by
  rw [drained]
  split
  · assumption
  · split <;> rfl

end AsyncWalState

namespace AsyncOperation

variable (codec : WalCodec) (policy : BufferPolicy)

/-- The state an operation leads to on a ready log. -/
def outcome (state : AsyncWalState) : AsyncOperation → AsyncWalState
  | write call => state.written codec policy call
  | writeBatch calls => calls.foldl (AsyncWalState.written codec policy) state
  | flushBatch _ =>
    if state.writer.pendingBatch = [] then state
    else state.batchWritten codec policy
  | sync now clock => (state.drained codec policy now clock).flush
  | rotate now drainClock clock =>
    (state.drained codec policy now drainClock).flush.rotated clock

/-- No rotation of the operation finds bytes in memory. -/
def RotatesCleanly (state : AsyncWalState) : AsyncOperation → Prop
  | write call => state.WritesCleanly codec policy call
  | writeBatch calls => state.BatchWritesCleanly codec policy calls
  | flushBatch _ => True
  | sync now _ => state.DrainsCleanly codec policy now
  | rotate now _ _ => state.DrainsCleanly codec policy now

theorem pendingBatch_rotate
    (state : AsyncWalState) (now : UInt64) (drainClock clock : RotationClock) :
    ((rotate now drainClock clock).outcome codec policy
      state).writer.pendingBatch = [] :=
  pendingBatch_drained codec policy state now drainClock

variable {codec policy} {state : AsyncWalState}

/-- No operation on a ready log fails. -/
theorem run_eq (ready : state.Ready) (operation : AsyncOperation) :
    operation.run codec policy state =
      (.ok (), operation.outcome codec policy state) := by
  cases operation with
  | write call => exact ready.write codec policy call
  | writeBatch calls => exact ready.writeBatch codec policy calls
  | flushBatch now =>
    rw [run, outcome]
    split
    · rename_i noBatch
      rw [AsyncWalState.flushBatch_empty codec policy noBatch]
    · rename_i waiting
      rw [AsyncWalState.flushBatch_waiting codec policy waiting]
  | sync now clock =>
    rw [run, AsyncWalState.sync, ready.drain codec policy]
    rfl
  | rotate now drainClock clock =>
    have drained := ready.drained codec policy now drainClock
    rw [run, AsyncWalState.rotate, ready.drain codec policy]
    exact drained.flush.rotateInner clock

theorem step_outcome (ready : state.Ready) (operation : AsyncOperation) :
    AsyncStep codec policy state operation
      (operation.outcome codec policy state) :=
  run_eq ready operation

theorem ready_outcome (ready : state.Ready) (operation : AsyncOperation) :
    (operation.outcome codec policy state).Ready := by
  cases operation with
  | write call => exact ready.written codec policy call
  | writeBatch calls => exact ready.foldl_written codec policy calls
  | flushBatch now =>
    rw [outcome]
    split
    · exact ready
    · exact ready.batchWritten codec policy
  | sync now clock => exact (ready.drained codec policy now clock).flush
  | rotate now drainClock clock =>
    exact (ready.drained codec policy now drainClock).flush.rotated clock

theorem noLoss_outcome (ready : state.Ready) (operation : AsyncOperation) :
    (operation.outcome codec policy state).NoLoss ↔
      state.NoLoss ∧ operation.RotatesCleanly codec policy state := by
  cases operation with
  | write call => exact AsyncWalState.noLoss_written codec policy ready call
  | writeBatch calls =>
    exact AsyncWalState.noLoss_foldl_written codec policy ready calls
  | flushBatch now =>
    rw [outcome, RotatesCleanly, and_true]
    split
    · rfl
    · exact AsyncWalState.noLoss_batchWritten codec policy ready
  | sync now clock =>
    rw [outcome, RotatesCleanly,
      noLoss_flush (ready.drained codec policy now clock)]
    exact noLoss_drained codec policy ready now clock
  | rotate now drainClock clock =>
    have drained := ready.drained codec policy now drainClock
    have flushed :
        (state.drained codec policy now drainClock).flush.unflushed
            (state.drained codec policy now
              drainClock).flush.writer.currentSegment =
          0 := by
      have sameSegment :
          (state.drained codec policy now
              drainClock).flush.writer.currentSegment =
            (state.drained codec policy now drainClock).writer.openSegment :=
        drained.opensLast.symm
      rw [sameSegment]
      exact Function.update_self _ _ _
    rw [outcome, RotatesCleanly, AsyncWalState.noLoss_rotated,
      noLoss_flush drained,
      noLoss_drained codec policy ready]
    simp [flushed]

theorem entries_outcome (ready : state.Ready) (operation : AsyncOperation) :
    (operation.outcome codec policy state).entries =
      state.entries ++ operation.passed := by
  cases operation with
  | write call => exact AsyncWalState.entries_written codec policy ready call
  | writeBatch calls =>
    exact AsyncWalState.entries_foldl_written codec policy ready calls
  | flushBatch now =>
    rw [outcome, passed, append_nil]
    split
    · rfl
    · exact AsyncWalState.entries_batchWritten codec policy ready
  | sync now clock =>
    rw [passed, append_nil]
    exact AsyncWalState.entries_drained codec policy ready now clock
  | rotate now drainClock clock =>
    have drained := ready.drained codec policy now drainClock
    rw [outcome, passed, append_nil,
      AsyncWalState.entries_rotated drained.flush]
    exact AsyncWalState.entries_drained codec policy ready now drainClock

end AsyncOperation

namespace AsyncStep

variable {codec : WalCodec} {policy : BufferPolicy}
variable {before after : AsyncWalState} {operation : AsyncOperation}

theorem after_eq (ready : before.Ready)
    (step : AsyncStep codec policy before operation after) :
    after = operation.outcome codec policy before := by
  rw [AsyncStep, run_eq ready] at step
  exact (Prod.mk.inj step).2.symm

theorem ready (readyBefore : before.Ready)
    (step : AsyncStep codec policy before operation after) :
    after.Ready := by
  rw [step.after_eq readyBefore]
  exact ready_outcome readyBefore operation

theorem noLoss_iff (ready : before.Ready)
    (step : AsyncStep codec policy before operation after) :
    after.NoLoss ↔
      before.NoLoss ∧ operation.RotatesCleanly codec policy before := by
  rw [step.after_eq ready]
  exact noLoss_outcome ready operation

theorem entries_eq (ready : before.Ready)
    (step : AsyncStep codec policy before operation after) :
    after.entries = before.entries ++ operation.passed := by
  rw [step.after_eq ready]
  exact entries_outcome ready operation

end AsyncStep

section Runs

variable {codec : WalCodec} {policy : BufferPolicy}
variable {initial final : AsyncWalState}
variable {operations : List AsyncOperation}

theorem ready_of_asyncRun
    (run : Run (AsyncStep codec policy) initial operations final)
    (ready : initial.Ready) :
    final.Ready :=
  run.preserves (fun ready step => step.ready ready) ready

theorem noLoss_of_run_iff
    (run : Run (AsyncStep codec policy) initial operations final)
    (ready : initial.Ready) (noLoss : initial.NoLoss) :
    final.NoLoss ↔
      Run
        (Restrict (AsyncStep codec policy)
          fun state operation =>
            operation.RotatesCleanly codec policy state)
        initial operations final := by
  have invariant : initial.Ready ∧ initial.NoLoss := ⟨ready, noLoss⟩
  refine run.holds_iff_restrict invariant id
    (fun ready step => step.ready ready) ?_ ?_ ?_
  · intro before action after holds clean step
    exact ⟨step.ready holds.1, (step.noLoss_iff holds.1).mpr ⟨holds.2, clean⟩⟩
  · intro before action after holds step noLossAfter
    exact ((step.noLoss_iff holds.1).mp noLossAfter).2
  · intro before action after ready step noLossAfter
    exact ((step.noLoss_iff ready).mp noLossAfter).1

theorem entries_of_asyncRun
    (run : Run (AsyncStep codec policy) initial operations final)
    (ready : initial.Ready) :
    final.entries =
      initial.entries ++ operations.flatMap passed := by
  induction run with
  | nil state => simp
  | cons first later inductionHypothesis =>
    rename_i operation rest
    rw [inductionHypothesis (first.ready ready), first.entries_eq ready]
    simp

end Runs

/-!
## Reading the log back
-/

section Reading

variable (codec : WalCodec)

theorem readSegments_eq_iff
    {contents : LogContents} {whole : ℕ → List WalEntry} {segments : List ℕ}
    (parts :
      ∀ segment ∈ segments, ∀ part,
        readSegmentFile codec contents segment = .ok part →
        part.Sublist (whole segment)) :
    (∀ {entries},
        readSegments codec contents segments = .ok entries →
        entries.Sublist (segments.flatMap whole)) ∧
      (readSegments codec contents segments =
          .ok (segments.flatMap whole) ↔
        ∀ segment ∈ segments,
          readSegmentFile codec contents segment =
            .ok (whole segment)) := by
  induction segments with
  | nil => simp [readSegments]
  | cons segment rest inductionHypothesis =>
    obtain ⟨firstPart, restParts⟩ := forall_mem_cons.mp parts
    obtain ⟨restSublist, restWhole⟩ := inductionHypothesis restParts
    rw [forall_mem_cons, ← restWhole, readSegments]
    cases readFirst : readSegmentFile codec contents segment with
    | error cause => simp
    | ok part =>
      cases readRest : readSegments codec contents rest with
      | error cause => simp
      | ok entries =>
        have partSublist := firstPart part readFirst
        have entriesSublist := restSublist readRest
        constructor
        · intro found isFound
          cases isFound
          exact partSublist.append entriesSublist
        · simp only [Except.ok.injEq, flatMap_cons]
          exact append_eq_append_of_sublist partSublist entriesSublist

def entriesIn (dir : SegmentDir) (segment : ℕ) : List WalEntry :=
  (dir.lookup segment).elim [] fun file => file.frames.map Frame.entry

theorem entries_eq_flatMap (dir : SegmentDir) :
    dir.frames.map Frame.entry = dir.numbers.flatMap (entriesIn dir) := by
  rw [SegmentDir.frames, map_flatMap, NumberedMap.flatMap_inOrder]
  rfl

theorem recordable_frames_iff (dir : SegmentDir) :
    (∀ frame ∈ dir.frames, frame.entry.Recordable codec) ↔
      ∀ segment ∈ dir.numbers,
        ∀ entry ∈ entriesIn dir segment, entry.Recordable codec := by
  have mapped :
      (∀ frame ∈ dir.frames, frame.entry.Recordable codec) ↔
        ∀ entry ∈ dir.frames.map Frame.entry, entry.Recordable codec :=
    forall_mem_map.symm
  rw [mapped, entries_eq_flatMap]
  simp only [mem_flatMap, forall_exists_index, and_imp]
  exact ⟨fun all segment member entry inside =>
      all entry segment member inside,
    fun all entry segment member inside =>
      all segment member entry inside⟩

section SegmentFiles

variable {state : AsyncWalState}

variable {segment : ℕ} {file : SegmentFile}

theorem readSegmentFile_contents
    (found : state.dir.lookup segment = some file) :
    readSegmentFile codec (state.contents codec) segment =
      readSegment codec
        ((file.bytes codec).take
          ((file.bytes codec).length - state.unflushed segment)) := by
  simp [readSegmentFile, AsyncWalState.contents, found]

theorem readSegmentFile_sublist
    (ready : state.Ready) (found : state.dir.lookup segment = some file)
    {part : List WalEntry}
    (read :
      readSegmentFile codec (state.contents codec) segment =
        .ok part) :
    part.Sublist (entriesIn state.dir segment) := by
  have hasHeader := ready.wellFormed.hasHeader segment file found
  rw [readSegmentFile_contents codec found] at read
  simpa [entriesIn, found] using readSegment_take_sublist codec hasHeader read

theorem readSegmentFile_complete_iff
    (ready : state.Ready) (found : state.dir.lookup segment = some file) :
    readSegmentFile codec (state.contents codec) segment =
        .ok (entriesIn state.dir segment) ↔
      state.unflushed segment = 0 ∧
        ∀ entry ∈ entriesIn state.dir segment, entry.Recordable codec := by
  have hasHeader := ready.wellFormed.hasHeader segment file found
  have complete :=
    readSegment_missing_iff codec hasHeader (state.unflushed segment)
  rw [readSegmentFile_contents codec found]
  simpa [entriesIn, found] using complete

end SegmentFiles

/--
Reading all segment files gives all entries exactly when no byte is missing
and no entry is oversized.
-/
theorem readAll_contents_iff {state : AsyncWalState} (ready : state.Ready) :
    readAll codec (state.contents codec) =
        .ok (state.dir.frames.map Frame.entry) ↔
      (∀ segment ≤ state.writer.currentSegment, state.unflushed segment = 0) ∧
        ∀ frame ∈ state.dir.frames, frame.entry.Recordable codec := by
  have upTo := ready.wellFormed.upTo
  have upToBytes :
      NumberedMap.UpTo (state.contents codec) state.writer.currentSegment :=
    upTo.mapKeyed _
  have segmentsEq :
      listSegments (state.contents codec) = state.dir.numbers := by
    rw [listSegments, upToBytes.numbers_eq, upTo.numbers_eq]
  have inDir :
      ∀ segment,
        segment ∈ state.dir.numbers ↔
          segment ≤ state.writer.currentSegment := by
    intro segment
    rw [upTo.numbers_eq, mem_range, Nat.lt_succ_iff]
  have exists_file :
      ∀ segment ∈ state.dir.numbers, ∃ file,
        state.dir.lookup segment = some file :=
    fun segment member =>
      FiniteMap.exists_lookup ((upTo segment).mpr ((inDir segment).mp member))
  have parts :
      ∀ segment ∈ state.dir.numbers, ∀ part,
        readSegmentFile codec (state.contents codec) segment =
          .ok part →
        part.Sublist (entriesIn state.dir segment) := by
    intro segment member part read
    obtain ⟨file, found⟩ := exists_file segment member
    exact readSegmentFile_sublist codec ready found read
  have eachFile :
      ∀ segment ∈ state.dir.numbers,
        (readSegmentFile codec (state.contents codec) segment =
            .ok (entriesIn state.dir segment) ↔
          state.unflushed segment = 0 ∧
            ∀ entry ∈ entriesIn state.dir segment, entry.Recordable codec) := by
    intro segment member
    obtain ⟨file, found⟩ := exists_file segment member
    exact readSegmentFile_complete_iff codec ready found
  rw [readAll, segmentsEq, entries_eq_flatMap, (readSegments_eq_iff
    codec parts).2, forall₂_congr eachFile, recordable_frames_iff]
  simp only [← inDir]
  exact forall₂_and

/--
After a sync the segment files hold what the writer was given exactly when no
closed segment lacks a byte and no entry is oversized.
-/
theorem readAll_synced_iff
    {policy : BufferPolicy} {before after : AsyncWalState}
    (ready : before.Ready) {now : UInt64} {clock : RotationClock}
    (step : AsyncStep codec policy before (.sync now clock) after) :
    readAll codec (after.contents codec) = .ok after.entries ↔
      (∀ entry ∈ after.entries, entry.Recordable codec) ∧ after.NoLoss := by
  have readyAfter := step.ready ready
  have drained := ready.drained codec policy now clock
  have nothingWaits : after.writer.pendingBatch = [] := by
    rw [step.after_eq ready]
    exact pendingBatch_drained codec policy before now clock
  have flushed : after.unflushed after.writer.currentSegment = 0 := by
    rw [← readyAfter.opensLast, step.after_eq ready]
    exact Function.update_self _ _ _
  have allHandedOn : after.entries = after.dir.frames.map Frame.entry := by
    rw [entries, nothingWaits, map_nil, append_nil]
  have closedIff :
      (∀ segment ≤ after.writer.currentSegment, after.unflushed segment = 0) ↔
        after.NoLoss := by
    constructor
    · intro complete segment closed
      exact complete segment closed.le
    · intro noLoss segment upToLast
      rcases upToLast.lt_or_eq with closed | rfl
      · exact noLoss segment closed
      · exact flushed
  rw [allHandedOn, readAll_contents_iff codec readyAfter, closedIff,
    and_comm, forall_mem_map]

end Reading

/-- Segments and batches of two entries behind a buffer of 64 KiB. -/
def smallSegments : AsyncWalConfig where
  maxSegmentSize := 128 * 1024 * 1024
  maxSegmentEntries := 2
  maxSegmentDurationSecs := 0
  bufferSize := 65536
  batchSize := 2

def firstCall : WriteCall where
  entry := Json.writeEntry
  now := 1
  clock := ⟨1, 2000⟩

def secondCall : WriteCall where
  entry := Json.deleteEntry
  now := 2
  clock := ⟨2, 2001⟩

/-- A fresh log after the first call. -/
def oneWaiting : AsyncWalState :=
  {
    AsyncWalState.create smallSegments 1000 with
    writer :=
      (AsyncWalState.create smallSegments 1000).writer.push firstCall.entry
  }

theorem ready_oneWaiting : oneWaiting.Ready :=
  (AsyncWalState.Ready.create smallSegments 1000).push firstCall.entry

theorem write_firstCall :
    AsyncStep jsonCodec .bypassing
      (AsyncWalState.create smallSegments 1000) (.write firstCall)
      oneWaiting :=
  rfl

end ChronoDB.Wal
