import ChronoDB.Distributed.Locks

namespace ChronoDB.Distributed.Locks

open Library List ClusterCall

/-!
# Deadlocks between the managers' calls

Two pairs of locks are taken in both orders: the nodes and the id of the leader,
and the shards and the map from nodes to shards.  Every deadlock contains two
calls that hold the locks of such a pair crosswise.
-/

abbrev Running := LockingCall ClusterLock

def Crosses (first second : ClusterLock) (call other : Running) : Prop :=
  call.Holds first ∧ call.Awaits second ∧
    other.Holds second ∧ other.Awaits first

instance (first second : ClusterLock) (call other : Running) :
    Decidable (Crosses first second call other) :=
  inferInstanceAs (Decidable (_ ∧ _))

/-- The two calls hold the locks of a pair that is taken in both orders. -/
def Crossed (call other : Running) : Prop :=
  Crosses .leaderId .nodes call other ∨ Crosses .nodeShards .shards call other

instance (call other : Running) : Decidable (Crossed call other) :=
  inferInstanceAs (Decidable (_ ∨ _))

/-- Some two of the calls do so. -/
def HasCrossed (calls : List Running) : Prop :=
  ∃ (first second : ℕ) (call other : Running),
    first ≠ second ∧ calls[first]? = some call ∧
      calls[second]? = some other ∧ Crossed call other

/-- All calls take their locks as the traces do. -/
def AllOrderly (calls : List Running) : Prop :=
  ∀ call ∈ calls, Orderly MayNest call.held call.rest

/-- The call that moves does not end up crosswise with another one. -/
def Careful (calls : List Running) : LockAction ClusterCall → Prop
  | .start _ => True
  | .advance index =>
    ∀ call ∈ calls[index]?, ∀ other ∈ calls.eraseIdx index,
      ¬Crossed call.moved other ∧ ¬Crossed other call.moved

instance (calls : List Running) :
    (action : LockAction ClusterCall) → Decidable (Careful calls action)
  | .start _ => isTrue trivial
  | .advance index =>
    inferInstanceAs
      (Decidable
        (∀ call ∈ calls[index]?, ∀ other ∈ calls.eraseIdx index,
          ¬Crossed call.moved other ∧ ¬Crossed other call.moved))

/-!
## Every deadlock crosses
-/

def rank : ClusterLock → ℕ
  | .nodes => 0
  | .leaderId => 1
  | .shards => 2
  | .nodeShards => 3

theorem returns_of_descends :
    ∀ first ∈ nestings, ∀ second ∈ nestings,
      second.1.lock = first.2.lock →
      first.2.mode.Excludes second.1.mode →
      rank first.2.lock ≤ rank first.1.lock →
      rank second.2.lock ≤ rank first.1.lock →
      second.2.lock = first.1.lock ∧
        ((first.1.lock = .leaderId ∧ first.2.lock = .nodes) ∨
          (first.1.lock = .nodeShards ∧ first.2.lock = .shards)) := by
  decide

theorem excludes_of_crosswise :
    ∀ first ∈ nestings, ∀ second ∈ nestings,
      second.1.lock = first.2.lock →
      second.2.lock = first.1.lock →
      first.2.mode.Excludes second.1.mode ∧
        second.2.mode.Excludes first.1.mode := by
  decide

theorem awaits_iff {lock : ClusterLock} {call : Running} :
    call.Awaits lock ↔
      ∃ guard : Guard, call.awaited = some guard ∧ guard.lock = lock := by
  rw [LockingCall.Awaits, Option.map_eq_some_iff]

theorem holds_iff {lock : ClusterLock} {call : Running} :
    call.Holds lock ↔ ∃ guard ∈ call.held, guard.lock = lock := by
  rw [LockingCall.Holds, mem_map]

theorem blocked_of_crosses
    {calls : List Running} (orderly : AllOrderly calls) {first second : ℕ}
    {call other : Running} (found : calls[first]? = some call)
    (otherFound : calls[second]? = some other) {lock otherLock : ClusterLock}
    (crosses : Crosses lock otherLock call other) :
    BlockedBy calls first second ∧ BlockedBy calls second first := by
  obtain ⟨holds, awaits, otherHolds, otherAwaits⟩ := crosses
  obtain ⟨outer, isHeld, rfl⟩ := holds_iff.mp holds
  obtain ⟨inner, isAwaited, rfl⟩ := awaits_iff.mp awaits
  obtain ⟨taken, isTaken, sameLock⟩ := holds_iff.mp otherHolds
  obtain ⟨back, isBack, sameBack⟩ := awaits_iff.mp otherAwaits
  have allowed : MayNest outer inner :=
    LockingCall.mayNest_of_awaited
      (orderly call (mem_of_getElem? found)) isHeld isAwaited
  have otherAllowed : MayNest taken back :=
    LockingCall.mayNest_of_awaited
      (orderly other (mem_of_getElem? otherFound)) isTaken isBack
  have excludes :=
    excludes_of_crosswise _ allowed _ otherAllowed sameLock sameBack
  exact
    ⟨⟨call, other, inner, taken, found, otherFound, isAwaited, isTaken,
        sameLock, excludes.1⟩,
      ⟨other, call, back, outer, otherFound, found, isBack, isHeld,
        sameBack.symm, excludes.2⟩⟩

theorem deadlocked_iff_hasCrossed
    {calls : List Running} (orderly : AllOrderly calls) :
    Deadlocked calls ↔ HasCrossed calls := by
  constructor
  · rintro ⟨waiting, nonempty, stuck⟩
    obtain ⟨first, second, call, other, outer, inner, taken, back, different,
      found, otherFound, isHeld, isAwaited, isTaken, isBack, sameLock,
      excludes, descends, low⟩ := stuck.exists_inversion nonempty rank
    have allowed : MayNest outer inner :=
      LockingCall.mayNest_of_awaited
        (orderly call (mem_of_getElem? found)) isHeld isAwaited
    have otherAllowed : MayNest taken back :=
      LockingCall.mayNest_of_awaited
        (orderly other (mem_of_getElem? otherFound)) isTaken isBack
    obtain ⟨returns, pair⟩ :=
      returns_of_descends _ allowed _ otherAllowed sameLock excludes
        descends low
    have crosses : Crosses outer.lock inner.lock call other :=
      ⟨holds_iff.mpr ⟨outer, isHeld, rfl⟩,
        awaits_iff.mpr ⟨inner, isAwaited, rfl⟩,
        holds_iff.mpr ⟨taken, isTaken, sameLock⟩,
        awaits_iff.mpr ⟨back, isBack, returns⟩⟩
    refine ⟨first, second, call, other, different, found, otherFound, ?_⟩
    rcases pair with ⟨isLeader, isNodes⟩ | ⟨isMap, isShards⟩
    · rw [isLeader, isNodes] at crosses
      exact .inl crosses
    · rw [isMap, isShards] at crosses
      exact .inr crosses
  · rintro ⟨first, second, call, other, different, found, otherFound,
      crossed⟩
    have blocked :
        BlockedBy calls first second ∧ BlockedBy calls second first := by
      rcases crossed with crosses | crosses
      · exact blocked_of_crosses orderly found otherFound crosses
      · exact blocked_of_crosses orderly found otherFound crosses
    exact .of_blocked different blocked.1 blocked.2

/-!
## Runs
-/

theorem Crossed.held_ne_nil
    {call other : Running} (crossed : Crossed call other) :
    call.held ≠ [] ∧ other.held ≠ [] := by
  constructor
  · intro isNil
    rcases crossed with crosses | crosses
    · simp [Crosses, LockingCall.Holds, isNil] at crosses
    · simp [Crosses, LockingCall.Holds, isNil] at crosses
  · intro isNil
    rcases crossed with crosses | crosses
    · simp [Crosses, LockingCall.Holds, isNil] at crosses
    · simp [Crosses, LockingCall.Holds, isNil] at crosses

theorem hasCrossed_of_start {calls : List Running} {trace : Trace}
    (crossed : HasCrossed (calls ++ [⟨[], trace⟩])) :
    HasCrossed calls := by
  obtain ⟨first, second, call, other, different, found, otherFound,
    crossed⟩ := crossed
  have earlier :
      ∀ {index : ℕ} {call : Running},
        (calls ++ [⟨[], trace⟩])[index]? = some call →
        call.held ≠ [] →
        calls[index]? = some call := by
    intro index call found holds
    rw [getElem?_append] at found
    split at found
    · exact found
    · have fresh := mem_of_getElem? found
      rw [mem_singleton] at fresh
      rw [fresh] at holds
      exact absurd rfl holds
  have bothHold := crossed.held_ne_nil
  exact ⟨first, second, call, other, different, earlier found bothHold.1,
    earlier otherFound bothHold.2, crossed⟩

theorem hasCrossed_set_iff {calls : List Running} {index : ℕ} {call : Running}
    (free : ¬HasCrossed calls) (found : calls[index]? = some call) :
    HasCrossed (calls.set index call.moved) ↔
      ¬Careful calls (.advance index) := by
  have movedFound : (calls.set index call.moved)[index]? = some call.moved := by
    rw [getElem?_set_self]
    exact (List.getElem?_eq_some_iff.mp found).1
  constructor
  · rintro ⟨first, second, firstCall, secondCall, different, firstFound,
      secondFound, crossed⟩ careful
    have others := careful call found
    by_cases isFirst : first = index
    · subst isFirst
      cases movedFound.symm.trans firstFound
      rw [getElem?_set_ne different] at secondFound
      have isOther :=
        mem_eraseIdx_iff_getElem?.mpr ⟨second, different.symm, secondFound⟩
      exact (others _ isOther).1 crossed
    · rw [getElem?_set_ne (Ne.symm isFirst)] at firstFound
      by_cases isSecond : second = index
      · subst isSecond
        cases movedFound.symm.trans secondFound
        have isOther :=
          mem_eraseIdx_iff_getElem?.mpr ⟨first, different, firstFound⟩
        exact (others _ isOther).2 crossed
      · rw [getElem?_set_ne (Ne.symm isSecond)] at secondFound
        exact free ⟨first, second, firstCall, secondCall, different,
          firstFound, secondFound, crossed⟩
  · intro careless
    by_contra stillFree
    refine careless fun moving isMoving other isOther => ?_
    cases found.symm.trans isMoving
    obtain ⟨second, different, otherFound⟩ :=
      mem_eraseIdx_iff_getElem?.mp isOther
    have otherAfter : (calls.set index call.moved)[second]? = some other := by
      rwa [getElem?_set_ne (Ne.symm different)]
    constructor
    · intro crossed
      exact stillFree ⟨index, second, _, _, Ne.symm different, movedFound,
        otherAfter, crossed⟩
    · intro crossed
      exact stillFree ⟨second, index, _, _, different, otherAfter,
        movedFound, crossed⟩

theorem not_deadlocked_iff_careful
    {before after : List Running} {action : LockAction ClusterCall}
    (orderly : AllOrderly before) (free : ¬Deadlocked before)
    (step : LockingStep locks before action after) :
    AllOrderly after ∧ (¬Deadlocked after ↔ Careful before action) := by
  have orderlyAfter : AllOrderly after :=
    step.orderly nested orderly
  refine ⟨orderlyAfter, ?_⟩
  rw [deadlocked_iff_hasCrossed orderly] at free
  rw [deadlocked_iff_hasCrossed orderlyAfter]
  obtain ⟨call, rfl, rfl⟩ | ⟨index, call, rfl, found, _, rfl⟩ := step.cases
  · exact iff_of_true (fun crossed => free (hasCrossed_of_start crossed))
      trivial
  · rw [hasCrossed_set_iff free found, not_not]

theorem not_deadlocked_nil : ¬Deadlocked ([] : List Running) := by
  rintro ⟨waiting, ⟨waiter, member⟩, stuck⟩
  obtain ⟨_, _, _, _, _, _, _, found, _⟩ := stuck waiter member
  cases found

/--
A run of calls, in any order of their steps, passes no deadlock exactly when all
of its steps are careful.
-/
theorem deadlockFree_always_iff {actions : List (LockAction ClusterCall)}
    {final : List Running}
    (run : Run (LockingStep locks) [] actions final) :
    (∀ passed remaining middle,
        actions = passed ++ remaining →
          Run (LockingStep locks) [] passed middle →
          ¬Deadlocked middle) ↔
      Run (Restrict (LockingStep locks) Careful) [] actions
        final := by
  refine run.always_iff_restrict LockingStep.deterministic ?_
    not_deadlocked_nil not_deadlocked_iff_careful
  intro call member
  cases member

/-!
## A tick and a question for the leader
-/

/-- A step that is only taken when it is careful. -/
def carefulNext (calls : List Running) (action : LockAction ClusterCall) :
    Option (List Running) :=
  if Careful calls action then action.next locks calls else none

theorem restrict_of_carefulNext
    {before after : List Running} {action : LockAction ClusterCall}
    (taken : carefulNext before action = some after) :
    Restrict (LockingStep locks) Careful before action after := by
  rw [carefulNext] at taken
  split at taken
  · rename_i careful
    exact ⟨careful, taken⟩
  · cases taken

/-- The tick begins when the other call has given the leader's id back. -/
def oneAfterTheOther : List (LockAction ClusterCall) :=
  [.start (.getLeader true), .start (.heartbeatTick true [] []),
    .advance 0, .advance 0, .advance 0, .advance 0,
    .advance 1, .advance 1, .advance 1, .advance 1]

/-- The tick takes the nodes while the other call holds the leader's id. -/
def inBetween : List (LockAction ClusterCall) :=
  [.start (.getLeader true), .start (.heartbeatTick true [] []),
    .advance 0, .advance 1]

/-- A shard is assigned while a failover writes the map. -/
def duringFailover : List (LockAction ClusterCall) :=
  [.start (.shardFailover (.reassigned .missing [])), .start .assignShard,
    .advance 0, .advance 0, .advance 0, .advance 0, .advance 0, .advance 1]

/-- One call after the other is free of deadlocks. -/
theorem oneAfterTheOther_deadlockFree :
    ∃ final,
      Run (LockingStep locks) [] oneAfterTheOther final ∧
        ∀ passed remaining middle,
          oneAfterTheOther = passed ++ remaining →
            Run (LockingStep locks) [] passed middle →
            ¬Deadlocked middle := by
  have careful :
      Run (Restrict (LockingStep locks) Careful) []
        oneAfterTheOther [⟨[], []⟩, ⟨[], []⟩] :=
    Run.ofFoldlM restrict_of_carefulNext (by decide)
  exact ⟨_, careful.ofRestrict,
    (deadlockFree_always_iff careful.ofRestrict).mpr careful⟩

/-- Calls that come in between each other can wait for each other. -/
theorem inBetween_deadlocked :
    ¬∀ actions final,
      Run (LockingStep locks) [] actions final →
        ¬Deadlocked final := by
  intro free
  have run :
      Run (LockingStep locks) [] inBetween
        [(LockingCall.mk [] (getLeader true)).moved,
          (LockingCall.mk [] (heartbeatTick true [] [])).moved] :=
    @Run.ofFoldlM _ _ _ (LockAction.next locks) id _ _ _ rfl
  refine free _ _ run (@Deadlocked.of_blocked _ _ 0 1 (by decide) ?_ ?_)
  · exact ⟨_, _, reading .nodes, writing .nodes, rfl, rfl, rfl, by decide,
      rfl, by decide⟩
  · exact ⟨_, _, writing .leaderId, reading .leaderId, rfl, rfl, rfl,
      by decide, rfl, by decide⟩

/-- So can an assignment and a failover that writes the map. -/
example :
    ∃ calls,
      duringFailover.foldlM (LockAction.next locks) [] =
          some calls ∧
        ∃ call ∈ calls, ∃ other ∈ calls, Crossed call other := by
  refine ⟨_, rfl, ?_⟩
  decide

end ChronoDB.Distributed.Locks
