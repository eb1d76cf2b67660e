import ChronoDB.Wal.Json

namespace ChronoDB.Wal

open Library List

/-!
# Sequence numbers

The counter of the writer lives in memory and starts at zero whenever a log is
opened.  The sequence numbers of a log therefore increase as long as every
entry is written under the number of entries in front of it, and a write to a
reopened log that already holds an entry repeats a number.
-/

/-- The sequence numbers strictly increase in segment order. -/
def Increasing (dir : SegmentDir) : Prop :=
  dir.frames.Pairwise fun first second =>
    first.sequence < second.sequence

/-- Every segment header carries the sequence number of its first entry. -/
def HeadersMatch (dir : SegmentDir) : Prop :=
  ∀ segment file header frame rest,
    dir.lookup segment = some file →
    file.header = some header →
    file.frames = frame :: rest →
    header.sequence = frame.sequence

/-- What a log promises about its sequence numbers. -/
structure WellSequenced (state : WalState) : Prop where
  increasing : Increasing state.dir
  headersMatch : HeadersMatch state.dir

/-- The counter of the writer is the number of entries in the log. -/
def CounterAgrees (state : WalState) : Prop :=
  state.writer.sequence.toNat = state.dir.frames.length

/-- A write finds the counter in agreement with the log. -/
def ContinuesSequence (state : WalState) (operation : WalOperation) : Prop :=
  operation.logged.isSome → CounterAgrees state

/--
The invariant behind the sequence numbers: entries are numbered from zero, and
either the counter continues the numbering or it was reset in front of entries.
-/
structure InSequence (state : WalState) : Prop where
  ready : state.Ready
  numbered :
    state.dir.frames.map (fun frame => frame.sequence.toNat) =
      List.range state.dir.frames.length
  headersMatch : HeadersMatch state.dir
  counter :
    (CounterAgrees state ∧
        ∀ file header,
          state.dir.lookup state.writer.currentSegment = some file →
          file.header = some header →
          file.frames = [] →
          header.sequence = state.writer.sequence) ∨
      (state.writer.sequence = 0 ∧ state.dir.frames ≠ [])

namespace InSequence

variable {codec : WalCodec} {state : WalState}

theorem wellSequenced (inSequence : InSequence state) :
    WellSequenced state where
  increasing := by
    have numbers :
        (state.dir.frames.map
          fun frame => frame.sequence.toNat).Pairwise (· < ·) := by
      rw [inSequence.numbered]
      exact pairwise_lt_range
    rw [pairwise_map] at numbers
    exact numbers.imp UInt64.lt_iff_toNat_lt.mpr
  headersMatch := inSequence.headersMatch

theorem initial
    (config : WalSegmentConfig) (created : ℕ → UInt64) (millis : Timestamp) :
    InSequence (WalState.initial codec config created millis) where
  ready := WalState.Ready.initial codec config created millis
  numbered := by simp
  headersMatch := by
    intro segment file header frame rest found _ startsWith
    rw [WalState.initial_dir] at found
    by_cases isFirst : segment = 0
    · subst isFirst
      rw [AList.lookup_insert] at found
      cases found
      cases startsWith
    · rw [AList.lookup_insert_ne isFirst] at found
      cases found
  counter := by
    left
    refine ⟨?_, ?_⟩
    · rw [CounterAgrees, WalState.frames_initial]
      simp [WalState.initial]
    intro file header found isHeader _
    have current :
        (WalState.initial codec config created millis).dir.lookup
            (WalState.initial codec config created
              millis).writer.currentSegment =
          some {
            header := some { sequence := 0, createdAt := millis }
            frames := []
          } :=
      rfl
    rw [current] at found
    cases found
    cases isHeader
    simp [WalState.initial]

/-- Appending an entry under an agreeing counter continues the sequence. -/
theorem appendEntry
    (inSequence : InSequence state) (agrees : CounterAgrees state)
    (entry : WalEntry) :
    InSequence (state.appendEntry codec entry) where
  ready := inSequence.ready.appendEntry codec entry
  numbered := by
    rw [inSequence.ready.frames_appendEntry codec entry, length_append,
      length_singleton, range_succ, map_append, inSequence.numbered]
    rw [CounterAgrees] at agrees
    simp [agrees]
  headersMatch := by
    intro segment file header frame rest found isHeader startsWith
    simp only [WalState.appendEntry, inSequence.ready.opensLast,
      SegmentDir.lookup_append] at found
    split at found
    · rename_i isLast
      obtain ⟨old, foundOld, rfl⟩ := Option.map_eq_some_iff.mp found
      rw [SegmentFile.header_append] at isHeader
      rw [SegmentFile.frames_append] at startsWith
      cases oldFrames : old.frames with
      | nil =>
        rw [oldFrames, nil_append] at startsWith
        cases startsWith
        rcases inSequence.counter with ⟨_, continues⟩ | ⟨reset, nonempty⟩
        · exact continues old header foundOld isHeader oldFrames
        · rw [CounterAgrees, reset] at agrees
          exact absurd (length_eq_zero_iff.mp agrees.symm) nonempty
      | cons first others =>
        rw [oldFrames, cons_append] at startsWith
        obtain ⟨rfl, _⟩ := List.cons.inj startsWith
        exact inSequence.headersMatch _ old header first others foundOld
          isHeader oldFrames
    · exact inSequence.headersMatch segment file header frame rest found
        isHeader startsWith
  counter := by
    have appended := inSequence.ready.frames_appendEntry codec entry
    have nextNumber :
        (state.appendEntry codec entry).writer.sequence.toNat =
          (state.dir.frames.length + 1) % 2 ^ 64 := by
      have agrees : state.writer.sequence.toNat = _ := agrees
      simp [WalState.appendEntry, UInt64.toNat_add, agrees]
    by_cases fits : state.dir.frames.length + 1 < 2 ^ 64
    · left
      constructor
      · rw [CounterAgrees, nextNumber, appended, Nat.mod_eq_of_lt fits,
          length_append, length_singleton]
      · intro file header found _ noFrames
        simp only [WalState.appendEntry, inSequence.ready.opensLast,
          SegmentDir.lookup_append, ↓reduceIte] at found
        obtain ⟨old, _, rfl⟩ := Option.map_eq_some_iff.mp found
        simp at noFrames
    · right
      have counterBound := state.writer.sequence.toNat_lt
      rw [CounterAgrees] at agrees
      have wraps : state.dir.frames.length + 1 = 2 ^ 64 := by omega
      constructor
      · apply UInt64.toNat_inj.mp
        rw [nextNumber, wraps]
        rfl
      · rw [appended]
        simp

theorem rotated (inSequence : InSequence state) (clock : RotationClock) :
    InSequence (state.rotated clock) where
  ready := inSequence.ready.rotated clock
  numbered := by
    rw [inSequence.ready.frames_rotated clock]
    exact inSequence.numbered
  headersMatch := by
    intro segment file header frame rest found isHeader startsWith
    rw [WalState.rotated] at found
    by_cases isNext : segment = state.writer.currentSegment + 1
    · subst isNext
      rw [AList.lookup_insert] at found
      cases found
      cases startsWith
    · rw [AList.lookup_insert_ne isNext] at found
      exact inSequence.headersMatch segment file header frame rest found
        isHeader startsWith
  counter := by
    rw [CounterAgrees, inSequence.ready.frames_rotated clock]
    rcases inSequence.counter with ⟨agrees, _⟩ | reset
    · left
      refine ⟨agrees, ?_⟩
      intro file header found isHeader _
      simp only [WalState.rotated, AList.lookup_insert] at found
      cases found
      cases isHeader
      rfl
    · exact .inr reset

theorem withConfig (inSequence : InSequence state) (config : WalSegmentConfig)
    (created : ℕ → UInt64) (millis : Timestamp) :
    InSequence (WalState.withConfig codec state.dir config created millis) := by
  have wellFormed := inSequence.ready.wellFormed
  obtain ⟨sameDir, sameSegment, _⟩ :=
    WalState.withConfig_dir codec wellFormed config created millis
  obtain ⟨ready, sameFrames⟩ :=
    WalState.Ready.withConfig codec wellFormed config created millis
  have sameFiles :
      ∀ segment,
        (WalState.withConfig codec state.dir config created
            millis).dir.lookup segment =
          state.dir.lookup segment := by
    intro segment
    rw [sameDir, SegmentDir.lookup_append]
    split
    · rename_i isLast
      subst isLast
      simp [SegmentFile.append]
    · rfl
  have resets :=
    WalState.withConfig_sequence codec state.dir config created millis
  refine ⟨ready, ?_, ?_, ?_⟩
  · rw [sameFrames]
    exact inSequence.numbered
  · intro segment file header frame rest found
    rw [sameFiles] at found
    exact inSequence.headersMatch segment file header frame rest found
  · rw [CounterAgrees, sameFrames, resets]
    by_cases noFrames : state.dir.frames = []
    · left
      refine ⟨by simp [noFrames], ?_⟩
      intro file header found isHeader empty
      rw [sameSegment, sameFiles] at found
      rcases inSequence.counter with ⟨agrees, continues⟩ | ⟨_, nonempty⟩
      · rw [continues file header found isHeader empty]
        rw [CounterAgrees, noFrames] at agrees
        exact UInt64.toNat_inj.mp agrees
      · exact absurd noFrames nonempty
    · exact .inr ⟨rfl, noFrames⟩

theorem step {after : WalState} {operation : WalOperation}
    (inSequence : InSequence state)
    (continues : ContinuesSequence state operation)
    (step : WalStep codec state operation after) :
    InSequence after := by
  have outcome := step.outcome inSequence.ready
  cases operation with
  | write entry now clock =>
    have appended :=
      @InSequence.appendEntry codec _ inSequence (continues rfl) entry
    rcases outcome with rfl | rfl
    · exact appended
    · exact appended.rotated clock
  | rotate clock =>
    obtain rfl : after = state.rotated clock := outcome
    exact inSequence.rotated clock
  | sync =>
    obtain rfl : after = state := outcome
    exact inSequence
  | reopen config created millis =>
    obtain rfl :
        after = WalState.withConfig codec state.dir config created
        millis :=
      outcome
    exact inSequence.withConfig config created millis

end InSequence

variable {codec : WalCodec}

theorem wellSequenced_before
    {before after : WalState} {operation : WalOperation} (ready : before.Ready)
    (step : WalStep codec before operation after)
    (wellSequenced : WellSequenced after) :
    WellSequenced before where
  increasing := by
    have increasing := wellSequenced.increasing
    rw [Increasing, step.frames_eq ready] at increasing
    exact (pairwise_append.mp increasing).1
  headersMatch := by
    intro segment file header frame rest found isHeader startsWith
    obtain ⟨frames, foundAfter⟩ := step.dirExtends ready segment file found
    exact wellSequenced.headersMatch segment (file.append frames) header
      frame (rest ++ frames) foundAfter isHeader (by simp [startsWith])

theorem continues_of_wellSequenced
    {before after : WalState} {operation : WalOperation}
    (inSequence : InSequence before)
    (step : WalStep codec before operation after)
    (wellSequenced : WellSequenced after) :
    ContinuesSequence before operation := by
  intro logs
  rcases inSequence.counter with ⟨agrees, _⟩ | ⟨reset, nonempty⟩
  · exact agrees
  · obtain ⟨first, others, startsWith⟩ := exists_cons_of_ne_nil nonempty
    obtain ⟨entry, isLogged⟩ := Option.isSome_iff_exists.mp logs
    have increasing := wellSequenced.increasing
    rw [Increasing, step.frames_eq inSequence.ready, isLogged,
      startsWith, reset] at increasing
    have below :=
      (pairwise_append.mp increasing).2.2 first mem_cons_self _ mem_cons_self
    exact absurd below UInt64.not_lt_zero

/--
The sequence numbers of a log strictly increase and match the segment headers
exactly when every write of its history found the counter of the writer equal
to the number of entries in the log.
-/
theorem wellSequenced_iff {config : WalSegmentConfig} {created : ℕ → UInt64}
    {millis : Timestamp} {operations : List WalOperation} {final : WalState}
    (run :
      Run (WalStep codec)
        (WalState.initial codec config created millis) operations final) :
    WellSequenced final ↔
      Run (Restrict (WalStep codec) ContinuesSequence)
        (WalState.initial codec config created millis) operations final :=
  run.holds_iff_restrict
    (InSequence.initial config created millis)
    (fun inSequence => ⟨inSequence.ready, inSequence.wellSequenced⟩)
    (fun ready step => step.ready ready)
    (fun inSequence continues step => inSequence.step continues step)
    continues_of_wellSequenced
    wellSequenced_before

def writtenLog : WalState :=
  freshLog.appendEntry jsonCodec Json.writeEntry

/-- A fresh log after a write and a rotation. -/
def rotatedLog : WalState :=
  writtenLog.rotated ⟨2, 2500⟩

theorem wellSequenced_across_rotation :
    WellSequenced (rotatedLog.appendEntry jsonCodec Json.deleteEntry) := by
  have writes :
      WalStep jsonCodec freshLog (.write Json.writeEntry 1 ⟨1, 2000⟩)
        writtenLog :=
    WalStep.write_of_stays (by decide +kernel) _
  have rotates : WalStep jsonCodec writtenLog (.rotate ⟨2, 2500⟩) rotatedLog :=
    (ready_freshLog.appendEntry jsonCodec Json.writeEntry).rotate _
  have writesAgain :
      WalStep jsonCodec rotatedLog (.write Json.deleteEntry 3 ⟨3, 3000⟩)
        (rotatedLog.appendEntry jsonCodec Json.deleteEntry) :=
    WalStep.write_of_stays (by decide +kernel) _
  have firstAgrees : CounterAgrees freshLog := rfl
  have secondAgrees : CounterAgrees rotatedLog := by
    unfold CounterAgrees
    decide +kernel
  exact (wellSequenced_iff
    (.cons writes (.cons rotates (.single writesAgain)))).mpr
    (.cons ⟨fun _ => firstAgrees, writes⟩
      (.cons ⟨nofun, rotates⟩ (.single ⟨fun _ => secondAgrees, writesAgain⟩)))

/--
A log that was closed and opened again stamps its second entry with the number
of the first.
-/
theorem sequence_repeats_after_reopen :
    ¬ ∀ final,
      Run (WalStep jsonCodec) freshLog
          [
            .write Json.writeEntry 1 ⟨1, 2000⟩,
            .reopen .default (fun _ => 0) 2500,
            .write Json.deleteEntry 3 ⟨3, 3000⟩
          ] final →
        WellSequenced final := by
  intro neverRepeats
  obtain ⟨final, run⟩ := exists_run jsonCodec ready_freshLog _
  have increasing := (neverRepeats final run).increasing
  cases run with
  | cons writes later =>
    cases later with
    | cons reopens last =>
      cases last with
      | cons writesAgain ends =>
        cases ends
        have readyFirst := writes.ready ready_freshLog
        have readySecond := reopens.ready readyFirst
        have reset := reopens.outcome readyFirst
        rw [WalOperation.Outcome] at reset
        rw [Increasing, writesAgain.frames_eq readySecond, reopens.frames_eq
          readyFirst, writes.frames_eq ready_freshLog, frames_freshLog, reset]
          at increasing
        simp [WalOperation.logged, freshLog, WalState.initial] at increasing

end ChronoDB.Wal
