import ChronoDB.Memstore.Restart
import ChronoDB.Rules.Alerting

namespace ChronoDB.Rules

open Library Text Memstore Wal List

/-!
# Evaluation of recording rules

An evaluation copies the samples of the last five minutes of all series that the
rule selects.  The labels of the copies come from the rule alone, so that all of
them go to one series, and the next evaluation copies most samples again.
-/

structure RecordingRule where
  name : String
  expr : Text
  labels : List (String × String)
  deriving Repr, DecidableEq

structure RecordingEvaluation where
  now : SystemTime
  clock : ℕ → WriteClock

/-- The store, and the samples copied so far with the series they stem from. -/
structure RecordingState where
  store : MemStore
  copies : List (TimeSeriesId × Sample)

namespace RecordingRule

variable (codec : WalCodec) (hasher : Bytes → TimeSeriesId)
variable (rule : RecordingRule)

def outputLabels : Labels :=
  ⟨"__name__", rule.name⟩ :: rule.labels.map fun label => ⟨label.1, label.2⟩

/-- The only series that the rule writes to. -/
def output : TimeSeriesId :=
  calculateSeriesId hasher rule.outputLabels

def reads (store : MemStore) (now : SystemTime) :
    Except Fault (List (TimeSeriesId × Sample)) := do
  let matchers ← parseLabelMatchers rule.expr
  let now ← epochMillis now
  let start ← windowStart now
  .ok ((store.query matchers start now).flatMap fun ts =>
    ts.samples.map fun sample => (ts.id, sample))

/-- Samples are written one by one, up to the first failure. -/
def copyEach (clock : ℕ → WriteClock) (state : RecordingState) (index : ℕ) :
    List (TimeSeriesId × Sample) → Except Fault Unit × RecordingState
  | [] => (.ok (), state)
  | (source, sample) :: rest =>
    match state.store.write codec hasher
        ⟨rule.outputLabels, [sample], clock index⟩ with
    | (.error cause, failed) =>
      (.error (.error cause), { state with store := failed })
    | (.ok (), written) =>
      copyEach clock ⟨written, state.copies ++ [(source, sample)]⟩ (index + 1)
        rest

def evaluateRecording
    (evaluation : RecordingEvaluation) (state : RecordingState) :
    Except Fault Unit × RecordingState :=
  match rule.reads state.store evaluation.now with
  | .error fault => (.error fault, state)
  | .ok reads => rule.copyEach codec hasher evaluation.clock state 0 reads

def Step (before : RecordingState) (evaluation : RecordingEvaluation)
    (after : RecordingState) : Prop :=
  (rule.evaluateRecording codec hasher evaluation before).2 = after

/-- No two sources were copied, and the output has one sample at a time. -/
def KeepsApart (state : RecordingState) : Prop :=
  (∀ first ∈ state.copies, ∀ second ∈ state.copies, first.1 = second.1) ∧
    ((state.store.samplesOf (rule.output hasher)).map Sample.timestamp).Nodup

/-- An evaluation reads one source, and no time twice or that was copied. -/
def ReadsOnce (source : TimeSeriesId) (before : RecordingState)
    (evaluation : RecordingEvaluation) : Prop :=
  ∀ reads, rule.reads before.store evaluation.now = .ok reads →
    (∀ read ∈ reads, read.1 = source) ∧
      ((before.store.samplesOf (rule.output hasher) ++
        reads.map Prod.snd).map Sample.timestamp).Nodup

def CopiesOnly (source : TimeSeriesId) (state : RecordingState) : Prop :=
  (∀ copy ∈ state.copies, copy.1 = source) ∧
    ((state.store.samplesOf (rule.output hasher)).map Sample.timestamp).Nodup

variable {codec hasher rule}

theorem copyEach_spec
    (clock : ℕ → WriteClock) (state : RecordingState) (index : ℕ)
    (reads : List (TimeSeriesId × Sample)) :
    ∃ copied, copied <+: reads ∧
      (rule.copyEach codec hasher clock state index reads).2.copies =
        state.copies ++ copied ∧
      ((rule.copyEach codec hasher clock state index reads).2.store.samplesOf
        (rule.output hasher)).Perm
          (state.store.samplesOf (rule.output hasher) ++
            copied.map Prod.snd) := by
  induction reads generalizing state index with
  | nil => exact ⟨[], prefix_refl _, (append_nil _).symm, by simp [copyEach]⟩
  | cons read rest inductionHypothesis =>
    obtain ⟨source, sample⟩ := read
    rw [copyEach]
    split
    · rename_i failed
      exact ⟨[], ( nil_prefix), (append_nil _).symm, by
        simpa using MemStore.samplesOf_of_failed_write failed _⟩
    · rename_i written isWritten
      obtain ⟨copied, isStart, copies, samples⟩ :=
        inductionHypothesis ⟨written, state.copies ++ [(source, sample)]⟩
          (index + 1)
      refine ⟨(source, sample) :: copied,
        cons_prefix_cons.mpr ⟨rfl, isStart⟩, copies.trans (by simp), ?_⟩
      have grown := (MemStore.Absorbs.ofWrite isWritten).samplesOf
        (rule.output hasher)
      let write : SeriesWrite := ⟨rule.outputLabels, [sample], clock index⟩
      have isOutput :
          calculateSeriesId hasher write.labels = rule.output hasher := rfl
      rw [MemStore.writtenTo, flatMap_singleton, if_pos isOutput] at grown
      refine samples.trans ((grown.append_right _).trans ?_)
      rw [append_assoc]
      rfl

theorem copiesOnly_step {source : TimeSeriesId} {before after : RecordingState}
    {evaluation : RecordingEvaluation}
    (holds : rule.CopiesOnly hasher source before)
    (step :
      Restrict (rule.Step codec hasher) (rule.ReadsOnce hasher source) before
        evaluation after) :
    rule.CopiesOnly hasher source after := by
  obtain ⟨readsOnce, step⟩ := step
  rw [Step, evaluateRecording] at step
  split at step
  · cases step
    exact holds
  · rename_i reads isRead
    obtain ⟨copied, isStart, copies, samples⟩ :=
      @copyEach_spec codec hasher rule evaluation.clock before 0 reads
    obtain ⟨sameSource, newTimes⟩ := readsOnce reads isRead
    subst step
    constructor
    · rw [copies]
      intro copy member
      rcases mem_append.mp member with earlier | now
      · exact holds.1 copy earlier
      · exact sameSource copy (isStart.subset now)
    · refine (samples.map Sample.timestamp).nodup_iff.mpr
        (newTimes.sublist (Sublist.map _ ?_))
      exact (Sublist.refl _).append (isStart.sublist.map Prod.snd)

/--
When every evaluation of a run reads one and the same source, and only samples
at times that the output does not have, no two sources are mixed and the output
has at most one sample at any time.
-/
theorem keepsApart_of_run
    {codec : WalCodec} {hasher : Bytes → TimeSeriesId} {rule : RecordingRule}
    {source : TimeSeriesId} {start : MemStore} {final : RecordingState}
    {evaluations : List RecordingEvaluation}
    (oncePerTime :
      ((start.samplesOf (rule.output hasher)).map Sample.timestamp).Nodup)
    (run :
      Run (Restrict (rule.Step codec hasher) (rule.ReadsOnce hasher source))
        ⟨start, []⟩ evaluations final) :
    rule.KeepsApart hasher final := by
  have kept : rule.CopiesOnly hasher source final :=
    run.preserves (fun holds step => copiesOnly_step holds step)
      ⟨fun _ member => absurd member not_mem_nil, oncePerTime⟩
  exact ⟨fun first isFirst second isSecond =>
    (kept.1 first isFirst).trans (kept.1 second isSecond).symm, kept.2⟩

/-- A rule that selects the series of the example writes. -/
def exampleRule : RecordingRule where
  name := "copy"
  expr := "\x7bjob=\"test\"\x7d".toList
  labels := []

/-- A store with one sample, before any evaluation. -/
def exampleStart : RecordingState where
  store :=
    ((freshStore none).write jsonCodec SipHash.hash
      (exampleWrite [⟨1000, 1⟩])).2
  copies := []

/-- An evaluation one second after the sample. -/
def exampleEvaluation : RecordingEvaluation where
  now := 2000000000
  clock := fun _ => (exampleWrite []).clock

/-- One evaluation copies the sample of one series. -/
theorem single_evaluation_keeps_apart :
    ∃ final,
      Run (exampleRule.Step jsonCodec SipHash.hash) exampleStart
        [exampleEvaluation] final ∧
      exampleRule.KeepsApart SipHash.hash final := by
  have reads :
      exampleRule.reads exampleStart.store exampleEvaluation.now =
        .ok [(Json.seriesId, ⟨1000, 1⟩)] := by
    decide +kernel
  have nothing :
      exampleStart.store.samplesOf (exampleRule.output SipHash.hash) = [] := by
    decide +kernel
  have oncePerTime :
      ((exampleStart.store.samplesOf
        (exampleRule.output SipHash.hash)).map Sample.timestamp).Nodup := by
    rw [nothing]
    exact nodup_nil
  have readsOnce :
      exampleRule.ReadsOnce SipHash.hash Json.seriesId exampleStart
        exampleEvaluation := by
    intro others isOthers
    cases reads.symm.trans isOthers
    rw [nothing]
    exact ⟨by simp, by simp⟩
  exact ⟨_, .single rfl,
    keepsApart_of_run oncePerTime (.single ⟨readsOnce, rfl⟩)⟩

/-- Two evaluations copy one sample twice. -/
theorem second_evaluation_repeats :
    ¬ ∀ (codec : WalCodec) (hasher : Bytes → TimeSeriesId)
        (rule : RecordingRule) (start : MemStore)
        (evaluations : List RecordingEvaluation) (final : RecordingState),
        start.samplesOf (rule.output hasher) = [] →
        Run (rule.Step codec hasher) ⟨start, []⟩ evaluations final →
        rule.KeepsApart hasher final := by
  intro keeps
  have repeats :
      ¬ (((exampleRule.evaluateRecording jsonCodec SipHash.hash
          exampleEvaluation
          (exampleRule.evaluateRecording jsonCodec SipHash.hash
            exampleEvaluation exampleStart).2).2.store.samplesOf
              (exampleRule.output SipHash.hash)).map
                Sample.timestamp).Nodup := by
    decide +kernel
  exact repeats (keeps jsonCodec SipHash.hash exampleRule exampleStart.store
    [exampleEvaluation, exampleEvaluation] _ (by decide +kernel)
    (.cons rfl (.single rfl))).2

end RecordingRule

end ChronoDB.Rules
