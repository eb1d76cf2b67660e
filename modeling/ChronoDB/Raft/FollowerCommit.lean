import ChronoDB.Raft.Commit

namespace ChronoDB.Raft

open Library List RaftNode

/-!
# What a follower commits

A leader confirms the entries up to the last one of its message.  A follower
takes over the commit index of the leader up to the length of its own log, which
can have later entries that the leader did not confirm.
-/

/-- Entries carry the indices after the first ones. -/
def IndexedAfter (start : ℕ) (entries : Log) : Prop :=
  ∀ position entry, entries[position]? = some entry →
    entry.index.toNat = start + position + 1

def Conflicts (log : Log) (entry : LogEntry) : Prop :=
  ∃ existing ∈ entryAt log entry.index, existing.term ≠ entry.term

instance (log : Log) (entry : LogEntry) : Decidable (Conflicts log entry) :=
  inferInstanceAs (Decidable (∃ existing ∈ _, _))

variable {log : Log} {start : ℕ} {entry : LogEntry}

theorem IndexedAfter.of_cons
    {rest : Log} (indexed : IndexedAfter start (entry :: rest)) :
    entry.index.toNat = start + 1 ∧ IndexedAfter (start + 1) rest := by
  refine ⟨indexed 0 entry rfl, ?_⟩
  intro position other isOther
  have isIndex := indexed (position + 1) other isOther
  omega

theorem IndexedAfter.lt_of_mem
    {entries : Log} (indexed : IndexedAfter start entries)
    (member : entry ∈ entries) :
    ∃ position, start ≤ position ∧ entry.index.toNat = position + 1 := by
  obtain ⟨position, isEntry⟩ := getElem?_of_mem member
  exact ⟨start + position, Nat.le_add_right _ _, indexed _ _ isEntry⟩

/-!
## The length of the log after the loop
-/

theorem length_appendEntry_of_conflicts
    (isIndex : entry.index.toNat = start + 1)
    (conflicts : Conflicts log entry) :
    (appendEntry log entry).length = start + 1 := by
  obtain ⟨existing, isExisting, differs⟩ := conflicts
  have isPlace : log[start]? = some existing := by
    rw [← entryAt_eq isIndex]
    exact isExisting
  obtain ⟨inside, _⟩ := List.getElem?_eq_some_iff.mp isPlace
  have positive : 0 < entry.index := by
    rw [UInt64.lt_iff_toNat_lt, isIndex]
    exact Nat.succ_pos start
  have before := toNat_index_sub_one positive
  have cut : (entry.index - 1).toNat = start := by omega
  rw [appendEntry, if_pos (by omega), entryAt_eq isIndex, isPlace]
  dsimp only
  rw [if_pos differs, cut, length_append, length_take_of_le
    (Nat.le_of_lt inside)]
  rfl

theorem appendEntry_of_within
    (isIndex : entry.index.toNat = start + 1) (within : start < log.length)
    (agrees : ¬Conflicts log entry) :
    appendEntry log entry = log := by
  have isPlace := getElem?_eq_getElem within
  rw [appendEntry, if_pos (by omega), entryAt_eq isIndex, isPlace]
  dsimp only
  apply if_neg
  intro differs
  refine agrees ⟨log[start], ?_, differs⟩
  rw [entryAt_eq isIndex, isPlace]
  rfl

theorem length_appendEntries_of_end
    {log entries : Log} (indexed : IndexedAfter log.length entries) :
    (appendEntries log entries).length =
      log.length + entries.length := by
  induction entries generalizing log with
  | nil => rfl
  | cons entry rest inductionHypothesis =>
    obtain ⟨isIndex, indexedRest⟩ := indexed.of_cons
    have added : appendEntry log entry = log ++ [entry] := by
      rw [appendEntry, if_neg (by omega)]
    have isLength : (log ++ [entry]).length = log.length + 1 := length_append
    rw [← isLength] at indexedRest
    have later := inductionHypothesis indexedRest
    rw [appendEntries, foldl_cons, added]
    rw [appendEntries, isLength] at later
    rw [later, length_cons]
    omega

theorem length_appendEntries_of_conflicts
    {log entries : Log} (indexed : IndexedAfter start entries)
    (reaches : start ≤ log.length)
    (conflicts : ∃ entry ∈ entries, Conflicts log entry) :
    (appendEntries log entries).length = start + entries.length := by
  induction entries generalizing start with
  | nil =>
    obtain ⟨entry, member, _⟩ := conflicts
    cases member
  | cons entry rest inductionHypothesis =>
    obtain ⟨isIndex, indexedRest⟩ := indexed.of_cons
    rw [appendEntries, foldl_cons, length_cons]
    by_cases here : Conflicts log entry
    · have cutLength := length_appendEntry_of_conflicts isIndex here
      rw [← cutLength] at indexedRest
      have later := length_appendEntries_of_end indexedRest
      rw [appendEntries, cutLength] at later
      rw [later]
      omega
    · obtain ⟨other, member, differs⟩ := conflicts
      have inRest : other ∈ rest := by
        rcases mem_cons.mp member with rfl | inRest
        · exact absurd differs here
        · exact inRest
      have within : start < log.length := by
        obtain ⟨position, notBefore, isOther⟩ := indexedRest.lt_of_mem inRest
        obtain ⟨existing, isExisting, _⟩ := differs
        rw [entryAt_eq isOther] at isExisting
        obtain ⟨inside, _⟩ := List.getElem?_eq_some_iff.mp isExisting
        omega
      rw [appendEntry_of_within isIndex within here]
      have later :=
        inductionHypothesis indexedRest within ⟨other, inRest, differs⟩
      rw [appendEntries] at later
      rw [later]
      omega

theorem length_appendEntries_of_agrees
    {log entries : Log} (indexed : IndexedAfter start entries)
    (reaches : start ≤ log.length)
    (agrees : ¬∃ entry ∈ entries, Conflicts log entry) :
    (appendEntries log entries).length =
      max log.length (start + entries.length) := by
  induction entries generalizing start with
  | nil => exact (Nat.max_eq_left reaches).symm
  | cons entry rest inductionHypothesis =>
    obtain ⟨isIndex, indexedRest⟩ := indexed.of_cons
    have headAgrees : ¬Conflicts log entry :=
      fun conflict => agrees ⟨entry, mem_cons_self, conflict⟩
    have restAgrees : ¬∃ other ∈ rest, Conflicts log other := by
      rintro ⟨other, member, conflict⟩
      exact agrees ⟨other, mem_cons_of_mem _ member, conflict⟩
    by_cases within : start < log.length
    · rw [appendEntries, foldl_cons,
        appendEntry_of_within isIndex within headAgrees, length_cons]
      have later := inductionHypothesis indexedRest within restAgrees
      rw [appendEntries] at later
      rw [later]
      omega
    · obtain rfl : start = log.length := by omega
      rw [length_appendEntries_of_end indexed]
      exact (Nat.max_eq_right (Nat.le_add_right _ _)).symm

/-!
## The commit index after a message
-/

/-- The entries of a message have the indices after the one before them. -/
def AppendEntriesArgs.Consecutive (args : AppendEntriesArgs) : Prop :=
  IndexedAfter args.prevLogIndex.toNat args.entries

def AppendEntriesArgs.lastConfirmed (args : AppendEntriesArgs) : ℕ :=
  args.prevLogIndex.toNat + args.entries.length

theorem followCommit_le_iff {commitIndex leaderCommit : UInt64} {bound : ℕ}
    (within : commitIndex.toNat ≤ bound) :
    (followCommit commitIndex leaderCommit log).toNat ≤ bound ↔
      leaderCommit.toNat ≤ bound ∨ log.length ≤ bound := by
  rw [followCommit]
  split
  · split
    · rename_i inLog
      constructor
      · exact .inl
      · rintro (leaderWithin | logWithin)
        · exact leaderWithin
        · exact inLog.trans logWithin
    · rename_i tooShort
      have fits := leaderCommit.toNat_lt
      have isLength : (lengthAsU64 log).toNat = log.length := by
        apply UInt64.toNat_ofNat_of_lt'
        rw [UInt64.size]
        omega
      rw [isLength]
      constructor
      · exact .inr
      · rintro (leaderWithin | logWithin)
        · omega
        · exact logWithin
  · rename_i notHigher
    rw [UInt64.lt_iff_toNat_lt] at notHigher
    exact iff_of_true within (.inl (by omega))

namespace RaftNode

/-- A follower commits at most what it had committed or the leader confirmed. -/
def CommitsConfirmed (node : RaftNode) (args : AppendEntriesArgs) : Prop :=
  (node.handleAppendEntries args).1.commitIndex.toNat ≤
    max node.commitIndex.toNat args.lastConfirmed

theorem adoptTerm_commitIndex (node : RaftNode) (term : UInt64) :
    (node.adoptTerm term).commitIndex = node.commitIndex := by
  obtain ⟨_, _, _, adopted⟩ := node.adoptTerm_eq term
  rw [adopted]

variable {node : RaftNode} {args : AppendEntriesArgs}

theorem commitIndex_handleAppendEntries_of_refused
    (refused : args.term < node.currentTerm ∨ ¬node.PrevMatches args) :
    (node.handleAppendEntries args).1.commitIndex = node.commitIndex := by
  rw [handleAppendEntries]
  split
  · rfl
  · rename_i current
    have differs : ¬node.PrevMatches args := refused.resolve_left current
    have sameCommit := node.adoptTerm_commitIndex args.term
    obtain ⟨positive, noTerm⟩ := Classical.not_imp.mp differs
    rw [appendToLog]
    dsimp only
    rw [if_pos positive, adoptTerm_log]
    split
    · exact sameCommit
    · cases found : entryAt node.log args.prevLogIndex with
      | none => exact sameCommit
      | some entry =>
        have otherTerm : entry.term ≠ args.prevLogTerm :=
          fun sameTerm => noTerm ⟨entry, found, sameTerm⟩
        dsimp only
        rw [if_pos otherTerm]
        exact sameCommit

theorem commitIndex_handleAppendEntries_of_accepted
    (current : ¬args.term < node.currentTerm)
    (prevMatches : node.PrevMatches args) :
    (node.handleAppendEntries args).1.commitIndex =
      followCommit node.commitIndex args.leaderCommit
        (appendEntries node.log args.entries) := by
  have sameCommit := node.adoptTerm_commitIndex args.term
  rw [handleAppendEntries, if_neg current, appendToLog]
  dsimp only
  rw [adoptTerm_log, sameCommit]
  split
  · rename_i positive
    obtain ⟨entry, found, sameTerm⟩ := prevMatches positive
    have before := toNat_index_sub_one positive
    have isPlace : node.log[(args.prevLogIndex - 1).toNat]? = some entry :=
      found
    obtain ⟨inside, _⟩ := List.getElem?_eq_some_iff.mp isPlace
    rw [if_neg (by omega), show entryAt node.log args.prevLogIndex = some entry
      from found]
    dsimp only
    rw [if_neg (not_not.mpr sameTerm)]
  · rfl

theorem PrevMatches.reaches (prevMatches : node.PrevMatches args) :
    args.prevLogIndex.toNat ≤ node.log.length := by
  by_cases positive : 0 < args.prevLogIndex
  · obtain ⟨entry, found, _⟩ := prevMatches positive
    have isPlace : node.log[(args.prevLogIndex - 1).toNat]? = some entry :=
      found
    obtain ⟨inside, _⟩ := List.getElem?_eq_some_iff.mp isPlace
    have before := toNat_index_sub_one positive
    omega
  · rw [UInt64.lt_iff_toNat_lt, UInt64.toNat_zero] at positive
    omega

/--
The cases in which a follower commits only what the leader confirmed: it refuses
the message, the leader has committed no more, its own log is no longer, or a
sent entry conflicts with its log, which then ends with the message.
-/
def BoundsCommit (node : RaftNode) (args : AppendEntriesArgs) : Prop :=
  args.term < node.currentTerm ∨ ¬node.PrevMatches args ∨
    args.leaderCommit.toNat ≤ max node.commitIndex.toNat args.lastConfirmed ∨
      node.log.length ≤ max node.commitIndex.toNat args.lastConfirmed ∨
        ∃ entry ∈ args.entries, Conflicts node.log entry

instance (node : RaftNode) (args : AppendEntriesArgs) :
    Decidable (node.BoundsCommit args) :=
  inferInstanceAs (Decidable (_ ∨ _))

/--
For every state of a follower and every message with consecutive indices, the
follower commits only what the leader confirmed exactly when it refuses the
message, the leader has committed no more, its log is no longer, or a sent entry
conflicts with its log.
-/
theorem commitsConfirmed_iff {node : RaftNode} {args : AppendEntriesArgs}
    (consecutive : args.Consecutive) :
    node.CommitsConfirmed args ↔ node.BoundsCommit args := by
  rw [CommitsConfirmed, BoundsCommit]
  by_cases stale : args.term < node.currentTerm
  · rw [commitIndex_handleAppendEntries_of_refused (.inl stale)]
    exact iff_of_true (Nat.le_max_left _ _) (.inl stale)
  · rw [or_iff_right stale]
    by_cases prevMatches : node.PrevMatches args
    · rw [or_iff_right (not_not.mpr prevMatches),
        commitIndex_handleAppendEntries_of_accepted stale prevMatches,
        followCommit_le_iff (Nat.le_max_left _ _)]
      apply or_congr_right
      have reaches := prevMatches.reaches
      by_cases conflicts : ∃ entry ∈ args.entries, Conflicts node.log entry
      · have isLength :=
          length_appendEntries_of_conflicts consecutive reaches conflicts
        rw [isLength]
        exact iff_of_true (Nat.le_max_right _ _) (.inr conflicts)
      · have isLength :=
          length_appendEntries_of_agrees consecutive reaches conflicts
        have confirmed :
            args.lastConfirmed ≤
              max node.commitIndex.toNat args.lastConfirmed :=
          Nat.le_max_right _ _
        rw [isLength, or_iff_left conflicts]
        exact Nat.max_le.trans (and_iff_left confirmed)
    · rw [commitIndex_handleAppendEntries_of_refused (.inr prevMatches)]
      exact iff_of_true (Nat.le_max_left _ _) (.inl prevMatches)

/-- A follower with a second entry of a leader that has failed since. -/
def staleFollower : RaftNode :=
  { new ⟨"n2", ["n1", "n3"]⟩ with
    currentTerm := 2
    log := [⟨1, 1, []⟩, ⟨2, 1, []⟩] }

/-- The next leader confirms the first entry; it has committed two. -/
def shortHeartbeat : AppendEntriesArgs :=
  ⟨2, "n3", 1, 1, [], 2⟩

/-- The next leader sends its own second entry with the heartbeat. -/
def fullHeartbeat : AppendEntriesArgs :=
  ⟨2, "n3", 1, 1, [⟨2, 2, []⟩], 2⟩

/-- The follower that replaces its second entry commits the confirmed ones. -/
theorem staleFollower_commits_fullHeartbeat :
    fullHeartbeat.Consecutive ∧
      (staleFollower.handleAppendEntries fullHeartbeat).1.commitIndex = 2 ∧
        staleFollower.CommitsConfirmed fullHeartbeat := by
  have consecutive : fullHeartbeat.Consecutive := by
    intro position entry isEntry
    rcases position with _ | position
    · cases isEntry
      rfl
    · cases isEntry
  exact ⟨consecutive, by decide,
    (commitsConfirmed_iff consecutive).mpr (by decide)⟩

theorem staleFollower_commits_unconfirmed :
    shortHeartbeat.Consecutive ∧
      (staleFollower.handleAppendEntries shortHeartbeat).1.commitIndex = 2 ∧
        shortHeartbeat.lastConfirmed = 1 ∧
          ¬staleFollower.CommitsConfirmed shortHeartbeat := by
  have consecutive : shortHeartbeat.Consecutive := by
    intro position entry isEntry
    cases isEntry
  refine ⟨consecutive, by decide, rfl, ?_⟩
  rw [CommitsConfirmed]
  decide

end RaftNode

end ChronoDB.Raft
