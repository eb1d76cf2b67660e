import Mathlib.Algebra.Order.Group.Multiset
import Mathlib.Tactic.Abel
import ChronoDB.Library.Transition

namespace ChronoDB.Remote

open Library

/-!
# The remote writer

Writes put requests into a queue, and a loop moves them to a buffer and sends
the buffer when it is full or when a timer ticks.  A buffer is given up when its
last attempt fails.  The branch that would end the loop is taken when no other
branch can be, and the timer always can.
-/

structure RemoteConfig where
  queueSize : ℕ
  batchSize : ℕ
  maxRetries : ℕ
  deriving Repr, DecidableEq

/-- Where the loop is: in `select!`, before an attempt, or at its end. -/
inductive WriterPhase where
  | selecting
  | flushing (attempt : ℕ) (isFinal : Bool)
  | stopped
  deriving Repr, DecidableEq

/-- The writer, with the series of all writes that returned `Ok`. -/
structure WriterState (Series : Type) where
  queue : List (List Series)
  isOpen : Bool
  batchBuffer : List Series
  phase : WriterPhase
  sent : List (List Series)
  accepted : List Series

/-- A write, the end of the last sender, a branch of the loop, or an attempt. -/
inductive WriterAction (Series : Type) where
  | write (series : List Series)
  | close
  | receive
  | tick
  | exit
  | attempt (succeeds : Bool)

variable {Series : Type}

namespace WriterState

def new : WriterState Series where
  queue := []
  isOpen := true
  batchBuffer := []
  phase := .selecting
  sent := []
  accepted := []

variable (config : RemoteConfig) (encodes : List Series → Bool)

/-- A flush gets to its first attempt. -/
def Sends (series : List Series) : Prop :=
  series ≠ [] ∧ encodes series = true ∧ 0 < config.maxRetries

instance (series : List Series) :
    Decidable (Sends config encodes series) :=
  inferInstanceAs (Decidable (_ ∧ _))

/-- The end of a flush with any result: the buffer is cleared. -/
def finish (state : WriterState Series) (isFinal : Bool) :
    WriterState Series :=
  {
    state with
    batchBuffer := []
    phase := if isFinal then .stopped else .selecting
  }

def flush (state : WriterState Series) (isFinal : Bool) :
    WriterState Series :=
  if Sends config encodes state.batchBuffer then
    { state with phase := .flushing 0 isFinal }
  else state.finish isFinal

/-- The pattern of the timer's branch matches everything. -/
def tickIsEnabled : Bool :=
  true

def next (state : WriterState Series) :
    WriterAction Series → Option (WriterState Series)
  | .write series =>
    if state.isOpen ∧ state.queue.length < config.queueSize ∧
        state.phase ≠ .stopped then
      some {
        state with
        queue := state.queue ++ [series]
        accepted := state.accepted ++ series
      }
    else none
  | .close => if state.isOpen then some { state with isOpen := false } else none
  | .receive =>
    match state.phase, state.queue with
    | .selecting, series :: rest =>
      let received := {
        state with
        queue := rest
        batchBuffer := state.batchBuffer ++ series
      }
      if config.batchSize ≤ received.batchBuffer.length then
        some (received.flush config encodes false)
      else some received
    | _, _ => none
  | .tick =>
    if state.phase = .selecting then
      if state.batchBuffer = [] then some state
      else some (state.flush config encodes false)
    else none
  | .exit =>
    if state.phase = .selecting ∧ !state.isOpen ∧ state.queue = [] ∧
        !tickIsEnabled then
      some (state.flush config encodes true)
    else none
  | .attempt succeeds =>
    match state.phase with
    | .flushing attempt isFinal =>
      if succeeds then
        some ({ state with sent := state.sent ++ [state.batchBuffer] }.finish
          isFinal)
      else if attempt + 1 < config.maxRetries then
        some { state with phase := .flushing (attempt + 1) isFinal }
      else some (state.finish isFinal)
    | _ => none

def Step (before : WriterState Series) (action : WriterAction Series)
    (after : WriterState Series) : Prop :=
  before.next config encodes action = some after

/-!
## What is promised, and when it is kept
-/

/-- Each series is in the queue, in the buffer or in a sent request, once. -/
def Accounted (state : WriterState Series) : Prop :=
  (state.accepted : Multiset Series) =
    state.queue.flatten + state.batchBuffer + state.sent.flatten

/-- All senders are dropped and the queue is empty. -/
def Drained (state : WriterState Series) : Prop :=
  state.phase = .selecting ∧ state.isOpen = false ∧ state.queue = []

/-- From a drained state the loop goes to its exit and nowhere else. -/
def TakesExit (state : WriterState Series) : Prop :=
  state.Drained → ∀ action after,
    action = .receive ∨ action = .tick ∨ action = .exit →
    Step config encodes state action after → action = .exit

/-- A buffer is given up: it cannot be sent, or its last attempt fails. -/
def Abandons (state : WriterState Series) : WriterAction Series → Prop
  | .receive => ∃ series rest,
      state.queue = series :: rest ∧ state.batchBuffer ++ series ≠ [] ∧
        config.batchSize ≤ (state.batchBuffer ++ series).length ∧
          ¬Sends config encodes (state.batchBuffer ++ series)
  | .tick => state.batchBuffer ≠ [] ∧ ¬Sends config encodes state.batchBuffer
  | .attempt succeeds =>
      succeeds = false ∧ ∃ attempt isFinal,
        state.phase = .flushing attempt isFinal ∧
          config.maxRetries ≤ attempt + 1
  | _ => False

/-- The last sender goes or the last request is dealt with. -/
def Drains (state : WriterState Series) : WriterAction Series → Prop
  | .close => state.phase = .selecting ∧ state.queue = []
  | .receive => state.isOpen = false ∧ ∃ series,
      state.queue = [series] ∧
        (config.batchSize ≤ (state.batchBuffer ++ series).length →
          ¬Sends config encodes (state.batchBuffer ++ series))
  | .attempt succeeds =>
      state.isOpen = false ∧ state.queue = [] ∧ ∃ attempt,
        state.phase = .flushing attempt false ∧
          (succeeds = true ∨ config.maxRetries ≤ attempt + 1)
  | _ => False

/-- A buffer that is being sent is not empty. -/
def Valid (state : WriterState Series) : Prop :=
  ∀ attempt isFinal,
    state.phase = .flushing attempt isFinal → state.batchBuffer ≠ []

variable {config encodes} {before after state : WriterState Series}
variable {action : WriterAction Series}

theorem takesExit_iff : state.TakesExit config encodes ↔ ¬state.Drained := by
  refine ⟨fun exits drained => ?_, fun notDrained drained =>
    absurd drained notDrained⟩
  obtain ⟨after, ticks⟩ : ∃ after, Step config encodes state .tick after := by
    simp only [Step, next, if_pos drained.1]
    split
    · exact ⟨_, rfl⟩
    · exact ⟨_, rfl⟩
  cases exits drained .tick after (.inr (.inl rfl)) ticks

theorem accounted_finish (accounted : state.Accounted) (isFinal : Bool) :
    (state.finish isFinal).Accounted ↔ state.batchBuffer = [] := by
  rw [Accounted] at accounted
  rw [Accounted, finish, accounted]
  constructor
  · intro same
    have sizes := congrArg Multiset.card same
    simp only [Multiset.card_add, Multiset.coe_card, List.length_nil] at sizes
    exact List.length_eq_zero_iff.mp (by omega)
  · intro isEmpty
    rw [isEmpty]

theorem accounted_flush (accounted : state.Accounted) (isFinal : Bool) :
    (state.flush config encodes isFinal).Accounted ↔
      ¬(state.batchBuffer ≠ [] ∧ ¬Sends config encodes state.batchBuffer) := by
  rw [flush]
  split
  · rename_i sends
    exact iff_of_true accounted fun abandoned => abandoned.2 sends
  · rename_i sendsNot
    rw [accounted_finish accounted, not_and_not_right]
    exact ⟨fun isEmpty nonempty => absurd isEmpty nonempty,
      fun sends => not_not.mp fun nonempty => sendsNot (sends nonempty)⟩

theorem drained_flush :
    (state.flush config encodes false).Drained ↔
      ¬Sends config encodes state.batchBuffer ∧ state.isOpen = false ∧
        state.queue = [] := by
  rw [flush]
  split
  · rename_i sends
    exact iff_of_false (fun drained => nomatch drained.1)
      fun drained => drained.1 sends
  · rename_i sendsNot
    exact ⟨fun drained => ⟨sendsNot, drained.2⟩, fun drained =>
      ⟨rfl, drained.2⟩⟩

theorem valid_flush (isFinal : Bool) :
    (state.flush config encodes isFinal).Valid := by
  rw [flush]
  split
  · rename_i sends
    exact fun _ _ _ => sends.1
  · intro attempt final isFlushing
    rw [finish] at isFlushing
    split at isFlushing
    · cases isFlushing
    · cases isFlushing

/-- What one step does to the promises. -/
theorem step_holds (valid : before.Valid) (accounted : before.Accounted)
    (notDrained : ¬before.Drained)
    (step : Step config encodes before action after) :
    after.Valid ∧
      (after.Accounted ↔ ¬Abandons config encodes before action) ∧
      (after.Drained ↔ Drains config encodes before action) := by
  cases action with
  | write series =>
    simp only [Step, next] at step
    split at step
    · rename_i free
      cases step
      refine ⟨valid, iff_of_true ?_ id, iff_of_false (fun drained => ?_) id⟩
      · rw [Accounted] at accounted ⊢
        simp only [List.flatten_append, List.flatten_singleton,
          ← Multiset.coe_add, accounted]
        abel
      · exact List.append_ne_nil_of_right_ne_nil _ (List.cons_ne_nil _ _)
          drained.2.2
    · cases step
  | close =>
    simp only [Step, next] at step
    split at step
    · cases step
      exact ⟨valid, iff_of_true accounted id,
        ⟨fun drained => ⟨drained.1, drained.2.2⟩,
          fun drains => ⟨drains.1, rfl, drains.2⟩⟩⟩
    · cases step
  | receive =>
    simp only [Step, next] at step
    split at step
    · rename_i series rest selecting isQueue
      have received : Accounted {
          before with
          queue := rest
          batchBuffer := before.batchBuffer ++ series
        } := by
        rw [Accounted, isQueue] at accounted
        rw [Accounted]
        simp only [List.flatten_cons, ← Multiset.coe_add] at accounted ⊢
        rw [accounted]
        abel
      have noBuffer : ∀ attempt isFinal,
          ¬before.phase = .flushing attempt isFinal := by
        simp [selecting]
      split at step
      · rename_i full
        cases step
        refine ⟨valid_flush false, (accounted_flush received false).trans
          (not_congr ?_), drained_flush.trans ?_⟩
        · simp only [Abandons, isQueue, List.cons.injEq]
          exact ⟨fun abandons =>
              ⟨series, rest, ⟨rfl, rfl⟩, abandons.1, full, abandons.2⟩,
            fun ⟨_, _, ⟨rfl, rfl⟩, nonempty, _, sendsNot⟩ =>
              ⟨nonempty, sendsNot⟩⟩
        · simp only [Drains, isQueue, List.cons.injEq]
          exact ⟨fun ⟨sendsNot, closed, isEmpty⟩ =>
              ⟨closed, series, ⟨rfl, isEmpty⟩, fun _ => sendsNot⟩,
            fun ⟨closed, _, ⟨rfl, isEmpty⟩, sendsNot⟩ =>
              ⟨sendsNot full, closed, isEmpty⟩⟩
      · rename_i notFull
        cases step
        refine ⟨fun attempt isFinal flushing =>
            absurd flushing (noBuffer attempt isFinal),
          iff_of_true received ?_, ?_⟩
        · rintro ⟨_, _, sameQueue, _, full, _⟩
          rw [isQueue] at sameQueue
          cases sameQueue
          exact notFull full
        · simp only [Drained, Drains, isQueue, List.cons.injEq]
          exact ⟨fun ⟨_, closed, isEmpty⟩ =>
              ⟨closed, series, ⟨rfl, isEmpty⟩, fun full => absurd full notFull⟩,
            fun ⟨closed, _, ⟨_, isEmpty⟩, _⟩ => ⟨selecting, closed, isEmpty⟩⟩
    · cases step
  | tick =>
    simp only [Step, next] at step
    split at step
    · rename_i selecting
      have goesOn : ¬(before.isOpen = false ∧ before.queue = []) :=
        fun drained => notDrained ⟨selecting, drained⟩
      split at step
      · rename_i isEmpty
        cases step
        exact ⟨valid, iff_of_true accounted fun abandons => abandons.1 isEmpty,
          iff_of_false notDrained id⟩
      · cases step
        exact ⟨valid_flush false, accounted_flush accounted false,
          iff_of_false (fun drained => goesOn (drained_flush.mp drained).2) id⟩
    · cases step
  | exit => simp [Step, next, tickIsEnabled] at step
  | attempt succeeds =>
    simp only [Step, next] at step
    split at step
    · rename_i attempt isFinal flushing
      have someSeries := valid attempt isFinal flushing
      have finished (state : WriterState Series) :
          (state.finish isFinal).Valid ∧
            ((state.finish isFinal).Drained ↔
              isFinal = false ∧ state.isOpen = false ∧ state.queue = []) := by
        cases isFinal with
        | false =>
          exact ⟨nofun, ⟨fun drained => ⟨rfl, drained.2⟩, fun drained =>
            ⟨rfl, drained.2⟩⟩⟩
        | true =>
          exact ⟨nofun, iff_of_false (fun drained => nomatch drained.1) nofun⟩
      have flushes {other : ℕ} {final : Bool} :
          before.phase = .flushing other final ↔
            attempt = other ∧ isFinal = final := by
        rw [flushing, WriterPhase.flushing.injEq]
      split at step
      · rename_i isSent
        cases step
        refine ⟨(finished _).1, iff_of_true ?_ fun abandons => ?_,
          (finished _).2.trans ?_⟩
        · rw [Accounted] at accounted ⊢
          simp only [finish, List.flatten_append, List.flatten_singleton,
            ← Multiset.coe_add, accounted, Multiset.coe_nil]
          abel
        · rw [isSent] at abandons
          cases abandons.1
        · simp only [Drains, flushes, isSent, true_or, and_true]
          exact ⟨fun ⟨final, closed, isEmpty⟩ =>
              ⟨closed, isEmpty, _, rfl, final⟩,
            fun ⟨closed, isEmpty, _, _, final⟩ => ⟨final, closed, isEmpty⟩⟩
      · rename_i failed
        have failed : succeeds = false := Bool.eq_false_of_not_eq_true failed
        split at step
        · rename_i again
          cases step
          refine ⟨fun _ _ _ => someSeries, iff_of_true accounted ?_,
            iff_of_false (fun drained => nomatch drained.1) ?_⟩
          · rintro ⟨_, _, _, isPhase, last⟩
            obtain ⟨rfl, _⟩ := flushes.mp isPhase
            omega
          · rintro ⟨_, _, _, isPhase, succeeded | last⟩
            · rw [failed] at succeeded
              cases succeeded
            · obtain ⟨rfl, _⟩ := flushes.mp isPhase
              omega
        · rename_i last
          cases step
          refine ⟨(finished _).1, ?_, (finished _).2.trans ?_⟩
          · rw [accounted_finish accounted]
            exact iff_of_false someSeries fun kept =>
              kept ⟨failed, attempt, isFinal, flushing, by omega⟩
          · simp only [Drains, flushes, failed]
            exact ⟨fun ⟨final, closed, isEmpty⟩ =>
                ⟨closed, isEmpty, _, ⟨rfl, final⟩, .inr (by omega)⟩,
              fun ⟨closed, isEmpty, _, ⟨_, final⟩, _⟩ =>
                ⟨final, closed, isEmpty⟩⟩
    · cases step

/--
Along a run every series is accounted for and the loop stops when it should,
exactly when no buffer is given up and the writer is never drained.
-/
theorem keeps_series_and_stops_iff
    {Series : Type} {config : RemoteConfig} {encodes : List Series → Bool}
    {actions : List (WriterAction Series)} {final : WriterState Series}
    (run : Run (Step config encodes) new actions final) :
    (∀ passed remaining middle,
        actions = passed ++ remaining →
          Run (Step config encodes) new passed middle →
            middle.Accounted ∧ middle.TakesExit config encodes) ↔
      Run (Restrict (Step config encodes) fun before action =>
        ¬Abandons config encodes before action ∧
          ¬Drains config encodes before action) new actions final := by
  refine @Run.always_iff_restrict _ _ (Step config encodes) _ Valid _ _ _ _ run
    (fun first second => Option.some.inj (first.symm.trans second)) nofun
    ⟨rfl, takesExit_iff.mpr fun drained => nomatch drained.2.1⟩ ?_
  intro before action after valid holds step
  obtain ⟨validAfter, accounted, drained⟩ :=
    step_holds valid holds.1 (takesExit_iff.mp holds.2) step
  exact ⟨validAfter, and_congr accounted
    (takesExit_iff.trans (not_congr drained))⟩

/-- A writer of batches of one, each with one attempt. -/
def oneAttempt : RemoteConfig where
  queueSize := 1
  batchSize := 1
  maxRetries := 1

theorem sent_series_is_kept :
    ∃ final : WriterState ℕ,
      Run (Step oneAttempt fun _ => true) new
        [.write [7], .receive, .attempt true] final ∧
      final.Accounted ∧ final.sent = [[7]] := by
  have run : Run (Step oneAttempt fun _ => true) (new : WriterState ℕ)
      [.write [7], .receive, .attempt true] _ :=
    .cons rfl (.cons rfl (.single rfl))
  refine ⟨_, run, ((keeps_series_and_stops_iff run).mpr ?_ _ [] _
    (List.append_nil _).symm run).1, rfl⟩
  refine .cons ⟨⟨id, id⟩, rfl⟩ (.cons ⟨⟨?_, ?_⟩, rfl⟩ (.single ⟨⟨?_, ?_⟩, rfl⟩))
  · rintro ⟨_, _, isQueue, _, _, sendsNot⟩
    cases isQueue
    exact sendsNot (by decide)
  · exact fun drains => nomatch drains.1
  · exact fun abandons => nomatch abandons.1
  · exact fun drains => nomatch drains.1

/-- A series whose only attempt fails is lost. -/
theorem failed_batch_is_lost :
    ¬ ∀ (config : RemoteConfig) (encodes : List ℕ → Bool)
        (actions : List (WriterAction ℕ)) (final : WriterState ℕ),
        Run (Step config encodes) new actions final →
          final.Accounted ∧ final.TakesExit config encodes := by
  intro keeps
  have run : Run (Step oneAttempt fun _ => true) (new : WriterState ℕ)
      [.write [7], .receive, .attempt false] _ :=
    .cons rfl (.cons rfl (.single rfl))
  have sizes := congrArg Multiset.card (keeps _ _ _ _ run).1
  exact absurd sizes (by decide)

end WriterState

end ChronoDB.Remote
