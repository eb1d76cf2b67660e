import ChronoDB.Library.Transition
import Mathlib.Data.List.Perm.Basic

namespace ChronoDB.Library

open List

/-!
# A pool of tasks that report through a channel

All tasks are spawned at once.  A task waits for one of a number of permits,
does its work, sends its message if it has one, and gives the permit back.  The
channel holds a bounded number of messages until the collector receives them.
Tasks may take permits and send in any order.

Whatever the tasks did so far, the pool can finish, and then the collector has
received the messages of all tasks, in some order.
-/

theorem exists_perm_filterMap
    {Item Result : Type} {work : Item → Option Result} {items : List Item}
    {results : List Result} (reordered : results.Perm (items.filterMap work)) :
    ∃ ordered : List Item,
      ordered.Perm items ∧ ordered.filterMap work = results := by
  induction items generalizing results with
  | nil => exact ⟨[], .nil, reordered.eq_nil.symm⟩
  | cons item rest inductionHypothesis =>
    cases found : work item with
    | none =>
      rw [filterMap_cons_none found] at reordered
      obtain ⟨ordered, same, isResults⟩ := inductionHypothesis reordered
      exact ⟨item :: ordered, same.cons item, by
        rw [filterMap_cons_none found, isResults]⟩
    | some result =>
      rw [filterMap_cons_some found] at reordered
      -- the result of the item is put back where it was found
      obtain ⟨before, after, rfl⟩ :=
        append_of_mem (reordered.mem_iff.mpr mem_cons_self)
      obtain ⟨ordered, same, isResults⟩ :=
        inductionHypothesis ((perm_middle.symm.trans reordered).cons_inv)
      obtain ⟨earlier, later, rfl, isBefore, isAfter⟩ :=
        filterMap_eq_append_iff.mp isResults
      refine ⟨earlier ++ item :: later, perm_middle.trans (same.cons item), ?_⟩
      rw [filterMap_append, filterMap_cons_some found, isBefore, isAfter]

variable {Task Message : Type}

structure TaskPool (Task Message : Type) where
  waiting : List Task
  running : List Task
  channel : List Message
  received : List Message

namespace TaskPool

def spawned (tasks : List Task) : TaskPool Task Message where
  waiting := tasks
  running := []
  channel := []
  received := []

/-- All tasks ended and all messages were received. -/
def Finished (pool : TaskPool Task Message) : Prop :=
  pool.waiting = [] ∧ pool.running = [] ∧ pool.channel = []

/-- The number of permits and the capacity of the channel. -/
structure Limits where
  permits : ℕ
  capacity : ℕ
  permitted : 0 < permits
  positive : 0 < capacity

inductive Action where
  | start
  | finish
  | send
  | receive
  deriving Repr, DecidableEq

/-- One step of one task or of the collector. -/
inductive Step (limits : Limits) (work : Task → Option Message) :
    TaskPool Task Message → Action → TaskPool Task Message → Prop where
  | start
      {earlier later running : List Task}
      {task : Task}
      {channel received : List Message}
      (permit : running.length < limits.permits) :
      Step limits work
        ⟨earlier ++ task :: later, running, channel, received⟩ .start
        ⟨earlier ++ later, task :: running, channel, received⟩
  | finish
      {waiting earlier later : List Task}
      {task : Task}
      {channel received : List Message}
      (nothing : work task = none) :
      Step limits work
        ⟨waiting, earlier ++ task :: later, channel, received⟩ .finish
        ⟨waiting, earlier ++ later, channel, received⟩
  | send
      {waiting earlier later : List Task}
      {task : Task}
      {message : Message}
      {channel received : List Message}
      (sends : work task = some message)
      (room : channel.length < limits.capacity) :
      Step limits work
        ⟨waiting, earlier ++ task :: later, channel, received⟩ .send
        ⟨waiting, earlier ++ later, channel ++ [message], received⟩
  | receive
      {waiting running : List Task}
      {message : Message}
      {channel received : List Message} :
      Step limits work
        ⟨waiting, running, message :: channel, received⟩ .receive
        ⟨waiting, running, channel, received ++ [message]⟩

variable {limits : Limits} {work : Task → Option Message}
variable {before after : TaskPool Task Message}

def messages (work : Task → Option Message) (pool : TaskPool Task Message) :
    List Message :=
  pool.received ++ pool.channel ++ (pool.running ++ pool.waiting).filterMap work

theorem Step.messages_perm
    {action : Action} (step : Step limits work before action after) :
    (messages work after).Perm (messages work before) := by
  cases step with
  | start permit =>
    rename_i earlier later running task channel received
    refine List.Perm.append_left _ (List.Perm.filterMap work ?_)
    change
      (task :: (running ++ (earlier ++ later))).Perm
        (running ++ (earlier ++ task :: later))
    rw [← append_assoc, ← append_assoc]
    exact perm_middle.symm
  | finish nothing =>
    simp only [messages, filterMap_append, filterMap_cons_none nothing]
    exact .refl _
  | send sends room =>
    simp only [messages, filterMap_append, filterMap_cons_some sends,
      append_assoc, cons_append, nil_append]
    exact List.Perm.append_left _ (List.Perm.append_left _ perm_middle.symm)
  | receive =>
    simp only [messages, append_assoc, cons_append, nil_append]
    exact .refl _

/-- The number of steps to the end. -/
def remaining (pool : TaskPool Task Message) : ℕ :=
  3 * pool.waiting.length + 2 * pool.running.length + pool.channel.length

theorem Step.remaining_lt
    {action : Action} (step : Step limits work before action after) :
    after.remaining < before.remaining := by
  cases step <;> simp only [remaining, length_append, length_cons,
    length_nil] <;> omega

theorem exists_step (unfinished : ¬ before.Finished) :
    ∃ action after, Step limits work before action after := by
  obtain ⟨waiting, running, channel, received⟩ := before
  have startFirst :
      ∀ {task rest},
        Step limits work ⟨task :: rest, [], [], received⟩ .start
          ⟨rest, [task], [], received⟩ :=
    fun {task rest} => @Step.start _ _ limits work [] rest [] task [] received
      limits.permitted
  have finishFirst :
      ∀ {task rest}, work task = none →
        Step limits work ⟨waiting, task :: rest, [], received⟩ .finish
          ⟨waiting, rest, [], received⟩ :=
    fun {task rest} nothing =>
      @Step.finish _ _ limits work waiting [] rest task [] received nothing
  have sendFirst :
      ∀ {task rest message}, work task = some message →
        Step limits work ⟨waiting, task :: rest, [], received⟩ .send
          ⟨waiting, rest, [message], received⟩ :=
    fun {task rest message} sends =>
      @Step.send _ _ limits work waiting [] rest task message [] received
        sends limits.positive
  cases channel with
  | cons message channel => exact ⟨.receive, _, .receive⟩
  | nil =>
    cases running with
    | cons task running =>
      cases sends : work task with
      | none => exact ⟨.finish, _, finishFirst sends⟩
      | some message => exact ⟨.send, _, sendFirst sends⟩
    | nil =>
      cases waiting with
      | cons task waiting => exact ⟨.start, _, startFirst⟩
      | nil => exact absurd ⟨rfl, rfl, rfl⟩ unfinished

theorem exists_finished_run (limits : Limits) (work : Task → Option Message)
    (pool : TaskPool Task Message) :
    ∃ actions final, Run (Step limits work) pool actions final ∧
      final.Finished := by
  induction left : pool.remaining using Nat.strongRecOn generalizing pool with
  | _ bound inductionHypothesis =>
    by_cases finished : pool.Finished
    · exact ⟨[], pool, .nil pool, finished⟩
    · obtain ⟨action, next, step⟩ := @exists_step _ _ limits work _ finished
      obtain ⟨actions, final, run, finishes⟩ :=
        inductionHypothesis next.remaining (left ▸ step.remaining_lt) next rfl
      exact ⟨action :: actions, final, .cons step run, finishes⟩

theorem exists_run_of_perm
    (limits : Limits) (work : Task → Option Message) {tasks ordered : List Task}
    (permuted : ordered.Perm tasks) (received : List Message) :
    ∃ actions,
      Run (Step limits work) ⟨tasks, [], [], received⟩ actions
        ⟨[], [], [], received ++ ordered.filterMap work⟩ := by
  induction ordered generalizing tasks received with
  | nil =>
    rw [nil_perm.mp permuted, filterMap_nil, append_nil]
    exact ⟨[], .nil _⟩
  | cons task rest inductionHypothesis =>
    obtain ⟨earlier, later, rfl⟩ :=
      append_of_mem (permuted.mem_iff.mp mem_cons_self)
    have permutedRest : rest.Perm (earlier ++ later) :=
      (permuted.trans perm_middle).cons_inv
    have starts :
        Step limits work ⟨earlier ++ task :: later, [], [], received⟩ .start
          ⟨earlier ++ later, [task], [], received⟩ :=
      .start limits.permitted
    cases sends : work task with
    | none =>
      obtain ⟨actions, run⟩ := inductionHypothesis permutedRest received
      rw [filterMap_cons_none sends]
      have finishes :=
        @Step.finish _ _ limits work (earlier ++ later) [] [] task []
          received sends
      exact ⟨_, .cons starts (.cons finishes run)⟩
    | some message =>
      obtain ⟨actions, run⟩ :=
        inductionHypothesis permutedRest (received ++ [message])
      rw [append_assoc] at run
      rw [filterMap_cons_some sends]
      have reports :=
        @Step.send _ _ limits work (earlier ++ later) [] [] task message []
          received sends limits.positive
      exact ⟨_, .cons starts (.cons reports (.cons .receive run))⟩

theorem received_perm
    {tasks : List Task} {actions : List Action} {final : TaskPool Task Message}
    (run : Run (Step limits work) (spawned tasks) actions final)
    (finished : final.Finished) :
    final.received.Perm (tasks.filterMap work) := by
  have kept : (messages work final).Perm (messages work (spawned tasks)) :=
    run.preserves (fun perm step => step.messages_perm.trans perm) (.refl _)
  obtain ⟨noWaiting, noRunning, noChannel⟩ := finished
  rw [messages, noWaiting, noRunning, noChannel] at kept
  simpa [messages, spawned] using kept

theorem received_iff {tasks : List Task} {messages : List Message} :
    (∃ actions final,
        Run (Step limits work) (spawned tasks) actions final ∧
          final.Finished ∧ final.received = messages) ↔
      messages.Perm (tasks.filterMap work) := by
  constructor
  · rintro ⟨actions, final, run, finished, rfl⟩
    exact received_perm run finished
  · intro reordered
    obtain ⟨ordered, permuted, rfl⟩ := exists_perm_filterMap reordered
    obtain ⟨actions, run⟩ := exists_run_of_perm limits work permuted []
    exact ⟨actions, _, run, ⟨rfl, rfl, rfl⟩, rfl⟩

end TaskPool

end ChronoDB.Library
