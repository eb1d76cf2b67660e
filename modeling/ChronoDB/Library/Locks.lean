import ChronoDB.Library.Transition
import Mathlib.Data.Finset.Max
import Mathlib.Tactic.Common

namespace ChronoDB.Library

/-!
# Calls that take and release locks

A call is the list of the locks it acquires and releases.  A lock is held by
one writer or by readers, and a call whose next lock is not granted waits.  A
deadlock is a set of calls each of which waits for a lock that another one of
them holds.

Which locks are taken under which others bounds the deadlocks that can happen:
in each of them, some call holds a lock and waits for one of lower rank.
-/

variable {Lock Call : Type}

inductive LockMode where
  | read
  | write
  deriving Repr, DecidableEq

/-- Two guards of one lock exclude each other unless both read. -/
def LockMode.Excludes (wanted taken : LockMode) : Prop :=
  wanted = .write ∨ taken = .write

instance (wanted taken : LockMode) : Decidable (wanted.Excludes taken) :=
  inferInstanceAs (Decidable (_ ∨ _))

structure LockGuard (Lock : Type) where
  lock : Lock
  mode : LockMode
  deriving Repr, DecidableEq

inductive LockStep (Lock : Type) where
  | acquire (guard : LockGuard Lock)
  | release (lock : Lock)
  deriving Repr, DecidableEq

/-- A lock that is held around other steps. -/
def guarded (guard : LockGuard Lock) (inside : List (LockStep Lock)) :
    List (LockStep Lock) :=
  .acquire guard :: (inside ++ [.release guard.lock])

/-- The locks that a call holds, and its remaining steps. -/
structure LockingCall (Lock : Type) where
  held : List (LockGuard Lock)
  rest : List (LockStep Lock)
  deriving Repr, DecidableEq

namespace LockingCall

def awaited (call : LockingCall Lock) : Option (LockGuard Lock) :=
  match call.rest with
  | .acquire guard :: _ => some guard
  | _ => none

def Holds (lock : Lock) (call : LockingCall Lock) : Prop :=
  lock ∈ call.held.map LockGuard.lock

def Awaits (lock : Lock) (call : LockingCall Lock) : Prop :=
  call.awaited.map LockGuard.lock = some lock

end LockingCall

/-!
## Deadlocks
-/

def BlockedBy (calls : List (LockingCall Lock)) (waiter holder : ℕ) :
    Prop :=
  ∃ waiting holding guard taken,
    calls[waiter]? = some waiting ∧ calls[holder]? = some holding ∧
      waiting.awaited = some guard ∧ taken ∈ holding.held ∧
      taken.lock = guard.lock ∧ guard.mode.Excludes taken.mode

/-- Each call of a set waits for a lock that another one of them holds. -/
def Stuck (calls : List (LockingCall Lock)) (waiting : Finset ℕ) :
    Prop :=
  ∀ waiter ∈ waiting,
    ∃ holder ∈ waiting, holder ≠ waiter ∧ BlockedBy calls waiter holder

def Deadlocked (calls : List (LockingCall Lock)) : Prop :=
  ∃ waiting : Finset ℕ, waiting.Nonempty ∧ Stuck calls waiting

theorem Deadlocked.of_blocked
    {calls : List (LockingCall Lock)} {first second : ℕ}
    (different : first ≠ second) (firstWaits : BlockedBy calls first second)
    (secondWaits : BlockedBy calls second first) :
    Deadlocked calls := by
  refine ⟨{first, second}, ⟨first, Finset.mem_insert_self _ _⟩, ?_⟩
  intro waiter member
  rcases Finset.mem_insert.mp member with rfl | member
  · exact ⟨second, Finset.mem_insert_of_mem (Finset.mem_singleton_self _),
      different.symm, firstWaits⟩
  · rw [Finset.mem_singleton] at member
    subst member
    exact ⟨first, Finset.mem_insert_self _ _, different, secondWaits⟩

def awaitedRank
    (rank : Lock → ℕ) (calls : List (LockingCall Lock)) (index : ℕ) :
    ℕ :=
  (calls[index]?.bind LockingCall.awaited).elim 0 fun guard =>
    rank guard.lock

theorem awaitedRank_eq
    {rank : Lock → ℕ} {calls : List (LockingCall Lock)} {index : ℕ}
    {call : LockingCall Lock} {guard : LockGuard Lock}
    (found : calls[index]? = some call) (awaits : call.awaited = some guard) :
    awaitedRank rank calls index = rank guard.lock := by
  rw [awaitedRank, found, Option.bind_some, awaits, Option.elim_some]

/--
In a deadlock some call holds a lock and waits for one of no higher rank, and
the call that it waits for waits for no higher one either.
-/
theorem Stuck.exists_inversion
    {calls : List (LockingCall Lock)} {waiting : Finset ℕ}
    (stuck : Stuck calls waiting) (nonempty : waiting.Nonempty)
    (rank : Lock → ℕ) :
    ∃ (first second : ℕ) (firstCall secondCall : LockingCall Lock)
      (outer inner taken back : LockGuard Lock),
      first ≠ second ∧
        calls[first]? = some firstCall ∧ calls[second]? = some secondCall ∧
        outer ∈ firstCall.held ∧ firstCall.awaited = some inner ∧
        taken ∈ secondCall.held ∧ secondCall.awaited = some back ∧
        taken.lock = inner.lock ∧ inner.mode.Excludes taken.mode ∧
        rank inner.lock ≤ rank outer.lock ∧
        rank back.lock ≤ rank outer.lock := by
  obtain ⟨highest, isWaiting, isHighest⟩ :=
    Finset.exists_max_image waiting (awaitedRank rank calls) nonempty
  obtain ⟨first, firstWaits, _, highestBlocked⟩ := stuck highest isWaiting
  obtain ⟨_, firstCall, guard, outer, highestFound, firstFound, awaitsGuard,
    isOuter, sameLock, _⟩ := highestBlocked
  have highestRank : awaitedRank rank calls highest = rank outer.lock := by
    rw [awaitedRank_eq highestFound awaitsGuard, sameLock]
  obtain ⟨second, secondWaits, different, firstBlocked⟩ :=
    stuck first firstWaits
  obtain ⟨call, secondCall, inner, taken, found, secondFound, awaitsInner,
    isTaken, sameInner, excludes⟩ := firstBlocked
  cases firstFound.symm.trans found
  obtain ⟨_, _, secondBlocked⟩ := stuck second secondWaits
  obtain ⟨_, call, _, back, _, foundAgain, _, awaitsBack, _⟩ := secondBlocked
  cases secondFound.symm.trans foundAgain
  have innerRank := isHighest first firstWaits
  rw [highestRank, awaitedRank_eq firstFound awaitsInner] at innerRank
  have backRank := isHighest second secondWaits
  rw [highestRank, awaitedRank_eq secondFound awaitsBack] at backRank
  exact ⟨first, second, _, _, outer, inner, taken, back, different.symm,
    firstFound, secondFound, isOuter, awaitsInner, isTaken, awaitsBack,
    sameInner, excludes, innerRank, backRank⟩

/-!
## Steps
-/

variable [DecidableEq Lock]

namespace LockingCall

instance (lock : Lock) (call : LockingCall Lock) :
    Decidable (call.Holds lock) :=
  inferInstanceAs (Decidable (_ ∈ _))

instance (lock : Lock) (call : LockingCall Lock) :
    Decidable (call.Awaits lock) :=
  inferInstanceAs (Decidable (_ = _))

/-- The call after its next step. -/
def moved (call : LockingCall Lock) : LockingCall Lock :=
  match call.rest with
  | [] => call
  | .acquire guard :: later => ⟨guard :: call.held, later⟩
  | .release lock :: later =>
    ⟨call.held.eraseP fun guard => guard.lock = lock, later⟩

end LockingCall

/-- No call holds the lock in a mode that excludes the guard. -/
def Grants (calls : List (LockingCall Lock)) (guard : LockGuard Lock) :
    Prop :=
  ∀ call ∈ calls, ∀ taken ∈ call.held,
    taken.lock = guard.lock → ¬guard.mode.Excludes taken.mode

instance (calls : List (LockingCall Lock)) (guard : LockGuard Lock) :
    Decidable (Grants calls guard) :=
  inferInstanceAs (Decidable (∀ call ∈ calls, ∀ taken ∈ call.held, _ → _))

inductive LockAction (Call : Type) where
  | start (call : Call)
  | advance (index : ℕ)
  deriving Repr, DecidableEq

/-- A call starts, or one that need not wait takes its next step. -/
def LockAction.next
    (trace : Call → List (LockStep Lock)) (calls : List (LockingCall Lock)) :
    LockAction Call → Option (List (LockingCall Lock))
  | .start call => some (calls ++ [⟨[], trace call⟩])
  | .advance index =>
    match calls[index]? with
    | none => none
    | some call =>
      if call.rest ≠ [] ∧ ∀ guard ∈ call.awaited, Grants calls guard then
        some (calls.set index call.moved)
      else none

def LockingStep
    (trace : Call → List (LockStep Lock)) (before : List (LockingCall Lock))
    (action : LockAction Call) (after : List (LockingCall Lock)) :
    Prop :=
  action.next trace before = some after

/-- What a step can do. -/
theorem LockingStep.cases {trace : Call → List (LockStep Lock)}
    {before after : List (LockingCall Lock)} {action : LockAction Call}
    (step : LockingStep trace before action after) :
    (∃ call, action = .start call ∧ after = before ++ [⟨[], trace call⟩]) ∨
      ∃ index call,
        action = .advance index ∧ before[index]? = some call ∧
          (∀ guard ∈ call.awaited, Grants before guard) ∧
          after = before.set index call.moved := by
  cases action with
  | start call => exact .inl ⟨call, rfl, (Option.some.inj step).symm⟩
  | advance index =>
    rw [LockingStep, LockAction.next] at step
    cases found : before[index]? with
    | none =>
      rw [found] at step
      cases step
    | some call =>
      rw [found] at step
      dsimp only at step
      split at step
      · rename_i ready
        exact .inr ⟨index, call, rfl, found, ready.2,
          (Option.some.inj step).symm⟩
      · cases step

theorem LockingStep.deterministic {trace : Call → List (LockStep Lock)}
    {before after other : List (LockingCall Lock)} {action : LockAction Call}
    (step : LockingStep trace before action after)
    (otherStep : LockingStep trace before action other) :
    after = other :=
  Option.some.inj (step.symm.trans otherStep)

/-!
## Which locks are taken under which
-/

section Nesting

variable (mayNest : LockGuard Lock → LockGuard Lock → Prop)

/-- Steps made of guarded steps, under locks that allow them. -/
inductive Nested : List (LockGuard Lock) → List (LockStep Lock) → Prop where
  | nothing (held : List (LockGuard Lock)) :
      Nested held []
  | append
      {held : List (LockGuard Lock)}
      {earlier later : List (LockStep Lock)}
      (first : Nested held earlier)
      (second : Nested held later) :
      Nested held (earlier ++ later)
  | guarded
      {held : List (LockGuard Lock)}
      {guard : LockGuard Lock}
      {inside : List (LockStep Lock)}
      (allowed : ∀ outer ∈ held, mayNest outer guard)
      (within : Nested (guard :: held) inside) :
      Nested held (guarded guard inside)

/-- Every lock still to be taken is allowed under those held by then. -/
def Orderly : List (LockGuard Lock) → List (LockStep Lock) → Prop
  | _, [] => True
  | held, .acquire guard :: later =>
    (∀ outer ∈ held, mayNest outer guard) ∧ Orderly (guard :: held) later
  | held, .release lock :: later =>
    Orderly (held.eraseP fun guard => guard.lock = lock) later

variable {mayNest}

theorem Nested.orderly_append
    {held : List (LockGuard Lock)} {steps : List (LockStep Lock)}
    (nested : Nested mayNest held steps) :
    ∀ {later : List (LockStep Lock)},
      Orderly mayNest held later → Orderly mayNest held (steps ++ later) := by
  induction nested with
  | nothing held =>
    intro later orderly
    exact orderly
  | append first second firstHypothesis secondHypothesis =>
    intro later orderly
    rw [List.append_assoc]
    exact firstHypothesis (secondHypothesis orderly)
  | guarded allowed within inductionHypothesis =>
    intro later orderly
    rw [Library.guarded, List.cons_append, List.append_assoc,
      List.singleton_append]
    refine ⟨allowed, inductionHypothesis ?_⟩
    rw [Orderly, List.eraseP_cons_of_pos (by simp)]
    exact orderly

theorem Nested.orderly
    {held : List (LockGuard Lock)} {steps : List (LockStep Lock)}
    (nested : Nested mayNest held steps) :
    Orderly mayNest held steps := by
  have nothingLeft : Orderly mayNest held [] := trivial
  have whole := nested.orderly_append nothingLeft
  rwa [List.append_nil] at whole

omit [DecidableEq Lock] in
theorem Nested.flatMap {Part : Type} {held : List (LockGuard Lock)}
    {steps : Part → List (LockStep Lock)}
    (nested : ∀ part, Nested mayNest held (steps part)) (parts : List Part) :
    Nested mayNest held (parts.flatMap steps) := by
  induction parts with
  | nil => exact .nothing held
  | cons part rest inductionHypothesis =>
    rw [List.flatMap_cons]
    exact .append (nested part) inductionHypothesis

end Nesting

namespace LockingCall

variable {mayNest : LockGuard Lock → LockGuard Lock → Prop}

theorem mayNest_of_awaited
    {call : LockingCall Lock} {outer inner : LockGuard Lock}
    (orderly : Orderly mayNest call.held call.rest) (isHeld : outer ∈ call.held)
    (awaits : call.awaited = some inner) :
    mayNest outer inner := by
  obtain ⟨held, rest⟩ := call
  rw [awaited] at awaits
  split at awaits
  · rename_i guard later isRest
    cases Option.some.inj awaits
    cases isRest
    exact orderly.1 outer isHeld
  · cases awaits

theorem orderly_moved
    {call : LockingCall Lock} (orderly : Orderly mayNest call.held call.rest) :
    Orderly mayNest call.moved.held call.moved.rest := by
  obtain ⟨held, rest⟩ := call
  cases rest with
  | nil => exact orderly
  | cons first later =>
    cases first with
    | acquire guard => exact orderly.2
    | release lock => exact orderly

end LockingCall

theorem LockingStep.orderly {mayNest : LockGuard Lock → LockGuard Lock → Prop}
    {trace : Call → List (LockStep Lock)}
    {before after : List (LockingCall Lock)} {action : LockAction Call}
    (nested : ∀ call, Nested mayNest [] (trace call))
    (orderly : ∀ call ∈ before, Orderly mayNest call.held call.rest)
    (step : LockingStep trace before action after) :
    ∀ call ∈ after, Orderly mayNest call.held call.rest := by
  obtain ⟨started, _, rfl⟩ | ⟨index, moving, _, found, _, rfl⟩ := step.cases
  · intro call member
    rcases List.mem_append.mp member with member | member
    · exact orderly call member
    · rw [List.mem_singleton] at member
      subst member
      exact (nested started).orderly
  · intro call member
    rcases List.mem_or_eq_of_mem_set member with member | rfl
    · exact orderly call member
    · exact LockingCall.orderly_moved
        (orderly moving (List.mem_of_getElem? found))

end ChronoDB.Library
