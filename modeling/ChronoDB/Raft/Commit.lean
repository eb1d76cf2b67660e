import ChronoDB.Library.Transition
import ChronoDB.Raft.Node

namespace ChronoDB.Raft

open Library List

/-!
# Committed entries

A node handles messages and timeouts.  A follower takes over what a leader
sends, also where it conflicts with entries that are committed: these are then
cut off or replaced, and the commit index can fall.  As long as no message that
is accepted conflicts with committed entries, they stay, and the commit index
neither falls nor exceeds the length of the log.
-/

/-- What a node handles. -/
inductive NodeInput where
  | electionTimeout
  | message (message : RaftMessage)
  deriving Repr, DecidableEq

namespace RaftNode

def handleInput (node : RaftNode) : NodeInput → RaftNode
  | .electionTimeout => node.handleElectionTimeout.1
  | .message message => node.handleMessage message

def InputStep (node : RaftNode) (input : NodeInput) (next : RaftNode) : Prop :=
  node.handleInput input = next

inductive Effect (node : RaftNode) : NodeInput → RaftNode → Prop where
  | unchanged {input : NodeInput} :
      Effect node input node
  | stands
      (notLeader : node.state ≠ .leader) :
      Effect node .electionTimeout
        { node with
          state := .candidate
          currentTerm := node.currentTerm + 1
          votedFor := some node.config.nodeId }
  | follows
      {input : NodeInput}
      {term : UInt64}
      (higher : node.currentTerm < term) :
      Effect node input (node.follow term)
  | adopts {args : RequestVoteArgs} :
      Effect node (.message (.requestVote args)) (node.adoptTerm args.term)
  | votes
      {args : RequestVoteArgs}
      (canVote :
        (node.adoptTerm args.term).votedFor = none ∨
          (node.adoptTerm args.term).votedFor = some args.candidateId) :
      Effect node (.message (.requestVote args))
        { node.adoptTerm args.term with votedFor := some args.candidateId }
  | leads
      {reply : RequestVoteReply}
      (notHigher : reply.term ≤ node.currentTerm)
      (granted : reply.voteGranted = true)
      (candidate : node.state = .candidate) :
      Effect node (.message (.requestVoteResponse reply)) node.becomeLeader
  | accepts
      {args : AppendEntriesArgs}
      (current : node.currentTerm ≤ args.term) :
      Effect node (.message (.appendEntries args))
        ((node.adoptTerm args.term).appendToLog args).1
  | advances {reply : AppendEntriesReply} :
      Effect node (.message (.appendEntriesResponse reply)) node.advanceCommit
  | records
      {args : ClientRequestArgs}
      (entry : LogEntry) :
      Effect node (.message (.clientRequest args))
        { node with log := node.log ++ [entry] }

theorem effect_handleInput (node : RaftNode) (input : NodeInput) :
    node.Effect input (node.handleInput input) := by
  cases input with
  | electionTimeout =>
    rw [handleInput, handleElectionTimeout]
    split
    · exact .unchanged
    · rename_i notLeader
      exact .stands notLeader
  | message message =>
    rw [handleInput]
    cases message with
    | requestVote args =>
      rw [handleMessage]
      rcases node.handleRequestVote_cases args with
        refused | silent | ⟨canVote, granted⟩
      · rw [refused]
        exact .unchanged
      · rw [silent]
        exact .adopts
      · rw [granted]
        exact .votes canVote
    | requestVoteResponse reply =>
      rw [handleMessage, handleRequestVoteResponse]
      split
      · rename_i higher
        exact .follows higher
      · rename_i notHigher
        split
        · rename_i wins
          exact .leads (UInt64.not_lt.mp notHigher) wins.1 wins.2
        · exact .unchanged
    | appendEntries args =>
      rw [handleMessage, handleAppendEntries]
      split
      · exact .unchanged
      · rename_i current
        exact .accepts (UInt64.not_lt.mp current)
    | appendEntriesResponse reply =>
      rw [handleMessage, handleAppendEntriesResponse]
      split
      · rename_i higher
        exact .follows higher
      · exact .advances
    | clientRequest args =>
      rw [handleMessage, handleClientRequest]
      split
      · exact .records _
      · exact .unchanged
    | clientResponse => exact .unchanged

def HasTerm (log : Log) (index term : UInt64) : Prop :=
  ∃ entry ∈ entryAt log index, entry.term = term

instance (log : Log) (index term : UInt64) : Decidable (HasTerm log index term) :=
  inferInstanceAs (Decidable (∃ entry ∈ _, _))

/-- The log consistency check of a message succeeds. -/
def PrevMatches (node : RaftNode) (args : AppendEntriesArgs) : Prop :=
  0 < args.prevLogIndex → HasTerm node.log args.prevLogIndex args.prevLogTerm

instance (node : RaftNode) (args : AppendEntriesArgs) :
    Decidable (node.PrevMatches args) :=
  inferInstanceAs (Decidable (_ → _))

/--
A message of a leader does not conflict with committed entries: neither in the
entry before the sent ones, nor, if that one matches, in a sent one.
-/
structure AgreesWithCommit (node : RaftNode) (args : AppendEntriesArgs) :
    Prop where
  prev : 0 < args.prevLogIndex → args.prevLogIndex ≤ node.commitIndex →
    HasTerm node.log args.prevLogIndex args.prevLogTerm
  entries : node.PrevMatches args →
    ∀ entry ∈ args.entries, 0 < entry.index →
      entry.index ≤ node.commitIndex → HasTerm node.log entry.index entry.term

/-- Messages of leaders that are not out of date agree with what is committed. -/
def RespectsCommit (node : RaftNode) : NodeInput → Prop
  | .message (.appendEntries args) =>
    node.currentTerm ≤ args.term → node.AgreesWithCommit args
  | _ => True

/-- The log holds all committed entries. -/
def CommitInLog (node : RaftNode) : Prop :=
  node.commitIndex.toNat ≤ node.log.length

/-- The entries that are committed. -/
def committed (node : RaftNode) : Log :=
  node.log.take node.commitIndex.toNat

/--
The commit index has not fallen and is within the log, and what was committed is
still there.
-/
structure CommitKept (earlier later : RaftNode) : Prop where
  commitIndex : earlier.commitIndex ≤ later.commitIndex
  inLog : later.CommitInLog
  kept : earlier.committed <+: later.log

variable {node : RaftNode} {entries log : Log} {args : AppendEntriesArgs}

theorem CommitInLog.length_committed (inLog : node.CommitInLog) :
    node.committed.length = node.commitIndex.toNat :=
  length_take_of_le inLog

theorem CommitKept.trans
    {first second third : RaftNode} (firstInLog : first.CommitInLog)
    (firstSecond : first.CommitKept second)
    (secondThird : second.CommitKept third) :
    first.CommitKept third := by
  refine ⟨UInt64.le_trans firstSecond.commitIndex secondThird.commitIndex,
    secondThird.inLog, ?_⟩
  have committedStill : first.committed <+: second.committed := by
    apply prefix_take_iff.mpr
    refine ⟨firstSecond.kept, ?_⟩
    rw [firstInLog.length_committed]
    exact UInt64.le_iff_toNat_le.mp firstSecond.commitIndex
  exact committedStill.trans secondThird.kept

theorem CommitKept.of_isPrefix {node next : RaftNode} (inLog : node.CommitInLog)
    (extended : node.committed <+: next.log)
    (sameCommit : next.commitIndex = node.commitIndex) :
    node.CommitKept next where
  commitIndex := sameCommit ▸ UInt64.le_refl _
  inLog := by
    rw [CommitInLog, sameCommit, ← inLog.length_committed]
    exact extended.length_le
  kept := extended

theorem CommitKept.of_same {node next : RaftNode} (inLog : node.CommitInLog)
    (sameLog : next.log = node.log)
    (sameCommit : next.commitIndex = node.commitIndex) :
    node.CommitKept next := by
  apply CommitKept.of_isPrefix inLog
  · rw [sameLog]
    exact take_prefix _ _
  · exact sameCommit

/-!
## The loop over the entries of a message
-/

theorem entryAt_of_isPrefix (isPrefix : entries <+: log) {index : UInt64}
    (within : (index - 1).toNat < entries.length) :
    entryAt log index = entryAt entries index := by
  obtain ⟨later, rfl⟩ := isPrefix
  exact getElem?_append_left within

theorem length_le_of_not_hasTerm
    (isPrefix : entries <+: log) (fits : entries.length < 2 ^ 64)
    {index term : UInt64} {existing : LogEntry}
    (found : entryAt log index = some existing) (differs : existing.term ≠ term)
    (agrees : 0 < index → index.toNat ≤ entries.length →
      HasTerm entries index term) :
    entries.length ≤ (index - 1).toNat := by
  by_contra within
  rw [Nat.not_le] at within
  by_cases positive : 0 < index
  · have isPosition := toNat_index_sub_one positive
    obtain ⟨entry, isEntry, sameTerm⟩ := agrees positive (by omega)
    rw [entryAt_of_isPrefix isPrefix within, isEntry] at found
    cases found
    exact differs sameTerm
  · have isZero : index = 0 := UInt64.le_antisymm
      (UInt64.not_lt.mp positive) (UInt64.zero_le)
    subst isZero
    have last : ((0 : UInt64) - 1).toNat = 2 ^ 64 - 1 := rfl
    omega

theorem prefix_appendEntry
    (isPrefix : entries <+: log) (fits : entries.length < 2 ^ 64)
    {entry : LogEntry}
    (agrees : 0 < entry.index → entry.index.toNat ≤ entries.length →
      HasTerm entries entry.index entry.term) :
    entries <+: appendEntry log entry := by
  rw [appendEntry]
  split
  · cases found : entryAt log entry.index with
    | none => exact isPrefix
    | some existing =>
      dsimp only
      split
      · rename_i differs
        have beyond :=
          length_le_of_not_hasTerm isPrefix fits found differs agrees
        apply prefix_append_of_prefix
        exact prefix_take_iff.mpr ⟨isPrefix, beyond⟩
      · exact isPrefix
  · exact prefix_append_of_prefix isPrefix

theorem prefix_appendEntries
    {entries log sent : Log} (isPrefix : entries <+: log)
    (fits : entries.length < 2 ^ 64)
    (agrees : ∀ entry ∈ sent, 0 < entry.index →
      entry.index.toNat ≤ entries.length →
        HasTerm entries entry.index entry.term) :
    entries <+: appendEntries log sent := by
  induction sent generalizing log with
  | nil => exact isPrefix
  | cons entry rest inductionHypothesis =>
    obtain ⟨headAgrees, restAgrees⟩ := forall_mem_cons.mp agrees
    exact inductionHypothesis (prefix_appendEntry isPrefix fits headAgrees)
      restAgrees

/-!
## The handlers
-/

theorem followCommit_within {commitIndex leaderCommit : UInt64} {log : Log}
    (inLog : commitIndex.toNat ≤ log.length) :
    commitIndex ≤ followCommit commitIndex leaderCommit log ∧
      (followCommit commitIndex leaderCommit log).toNat ≤ log.length := by
  rw [followCommit]
  split
  · rename_i higher
    split
    · rename_i within
      exact ⟨UInt64.le_of_lt higher, within⟩
    · rename_i tooShort
      have bound := leaderCommit.toNat_lt
      have isLength : (lengthAsU64 log).toNat = log.length := by
        apply UInt64.toNat_ofNat_of_lt'
        rw [UInt64.size]
        omega
      refine ⟨UInt64.le_iff_toNat_le.mpr ?_, ?_⟩
      · rw [isLength]
        exact inLog
      · rw [isLength]
  · exact ⟨UInt64.le_refl _, inLog⟩

theorem hasTerm_committed
    (inLog : node.CommitInLog) {index term : UInt64} (positive : 0 < index)
    (within : index ≤ node.commitIndex)
    (hasTerm : HasTerm node.log index term) :
    HasTerm node.committed index term := by
  have isPosition := toNat_index_sub_one positive
  have inside : (index - 1).toNat < node.committed.length := by
    rw [inLog.length_committed]
    rw [UInt64.le_iff_toNat_le] at within
    omega
  obtain ⟨entry, isEntry, sameTerm⟩ := hasTerm
  have sameEntry := entryAt_of_isPrefix (List.take_prefix _ node.log) inside
  exact ⟨entry, sameEntry ▸ isEntry, sameTerm⟩

theorem commitKept_append (inLog : node.CommitInLog)
    (agrees : ∀ entry ∈ args.entries, 0 < entry.index →
      entry.index ≤ node.commitIndex → HasTerm node.log entry.index entry.term) :
    node.CommitKept
      { node with
        log := appendEntries node.log args.entries
        commitIndex :=
          followCommit node.commitIndex args.leaderCommit
            (appendEntries node.log args.entries) } := by
  have fits : node.committed.length < 2 ^ 64 := by
    rw [inLog.length_committed]
    exact node.commitIndex.toNat_lt
  have kept : node.committed <+: appendEntries node.log args.entries := by
    have isPrefix : node.committed <+: node.log := take_prefix _ _
    apply prefix_appendEntries isPrefix fits
    intro entry member positive within
    rw [inLog.length_committed, ← UInt64.le_iff_toNat_le] at within
    exact hasTerm_committed inLog positive within
      (agrees entry member positive within)
  have stillInLog :
      node.commitIndex.toNat ≤
        (appendEntries node.log args.entries).length := by
    rw [← inLog.length_committed]
    exact kept.length_le
  obtain ⟨notLower, within⟩ := followCommit_within stillInLog
  exact ⟨notLower, within, kept⟩

theorem commitKept_appendToLog
    (inLog : node.CommitInLog) (agrees : node.AgreesWithCommit args) :
    node.CommitKept (node.appendToLog args).1 := by
  rw [appendToLog]
  dsimp only
  split
  · rename_i positive
    split
    · exact .of_same inLog rfl rfl
    · cases found : entryAt node.log args.prevLogIndex with
      | none => exact .of_same inLog rfl rfl
      | some entry =>
        dsimp only
        split
        · rename_i differs
          refine CommitKept.of_isPrefix inLog ?_ rfl
          have isPrefix : node.committed <+: node.log := take_prefix _ _
          apply prefix_take_iff.mpr
          refine ⟨isPrefix, ?_⟩
          have fits : node.committed.length < 2 ^ 64 := by
            rw [inLog.length_committed]
            exact node.commitIndex.toNat_lt
          apply length_le_of_not_hasTerm isPrefix fits found differs
          intro _ within
          rw [inLog.length_committed, ← UInt64.le_iff_toNat_le] at within
          exact hasTerm_committed inLog positive within
            (agrees.prev positive within)
        · rename_i sameTerm
          apply commitKept_append inLog
          apply agrees.entries
          intro _
          exact ⟨entry, found, not_not.mp sameTerm⟩
  · rename_i notPositive
    apply commitKept_append inLog
    apply agrees.entries
    exact fun positive => absurd positive notPositive

theorem commitKept_advanceCommit (inLog : node.CommitInLog) :
    node.CommitKept node.advanceCommit := by
  rw [advanceCommit]
  cases node.majorityIndex with
  | none => exact .of_same inLog rfl rfl
  | some newCommitIndex =>
    dsimp only
    split
    · rename_i higher
      cases found : entryAt node.log newCommitIndex with
      | none => exact .of_same inLog rfl rfl
      | some entry =>
        dsimp only
        split
        · have positive : 0 < newCommitIndex := by
            rw [UInt64.lt_iff_toNat_lt] at higher ⊢
            simp only [UInt64.reduceToNat]
            omega
          have isPosition := toNat_index_sub_one positive
          obtain ⟨inside, _⟩ := List.getElem?_eq_some_iff.mp found
          refine ⟨UInt64.le_of_lt higher, ?_, take_prefix _ _⟩
          rw [CommitInLog]
          dsimp only
          omega
        · exact .of_same inLog rfl rfl
    · exact .of_same inLog rfl rfl

theorem adoptTerm_eq (node : RaftNode) (term : UInt64) :
    ∃ currentTerm state votedFor,
      node.adoptTerm term =
        { node with
          currentTerm := currentTerm
          state := state
          votedFor := votedFor } := by
  rw [adoptTerm]
  split
  · exact ⟨_, _, _, rfl⟩
  · exact ⟨node.currentTerm, node.state, node.votedFor, rfl⟩

theorem appendToLog_eq (node : RaftNode) (args : AppendEntriesArgs) :
    ∃ log commitIndex,
      (node.appendToLog args).1 =
        { node with log := log, commitIndex := commitIndex } := by
  rw [appendToLog]
  dsimp only
  split
  · split
    · exact ⟨node.log, node.commitIndex, rfl⟩
    · cases entryAt node.log args.prevLogIndex with
      | none => exact ⟨node.log, node.commitIndex, rfl⟩
      | some entry =>
        dsimp only
        split
        · exact ⟨_, node.commitIndex, rfl⟩
        · exact ⟨_, _, rfl⟩
  · exact ⟨_, _, rfl⟩

theorem advanceCommit_eq (node : RaftNode) :
    ∃ commitIndex,
      node.advanceCommit = { node with commitIndex := commitIndex } := by
  rw [advanceCommit]
  cases node.majorityIndex with
  | none => exact ⟨node.commitIndex, rfl⟩
  | some newCommitIndex =>
    dsimp only
    split
    · cases entryAt node.log newCommitIndex with
      | none => exact ⟨node.commitIndex, rfl⟩
      | some entry =>
        dsimp only
        split
        · exact ⟨_, rfl⟩
        · exact ⟨node.commitIndex, rfl⟩
    · exact ⟨node.commitIndex, rfl⟩

theorem commitKept_accept
    (inLog : node.CommitInLog) (agrees : node.AgreesWithCommit args) :
    node.CommitKept ((node.adoptTerm args.term).appendToLog args).1 := by
  obtain ⟨prev, entries⟩ := agrees
  obtain ⟨currentTerm, state, votedFor, adopted⟩ := node.adoptTerm_eq args.term
  rw [adopted]
  have kept := @commitKept_appendToLog
    { node with
      currentTerm := currentTerm
      state := state
      votedFor := votedFor } args inLog ⟨prev, entries⟩
  exact ⟨kept.commitIndex, kept.inLog, kept.kept⟩

theorem commitKept_handleInput {input : NodeInput} (inLog : node.CommitInLog)
    (respects : node.RespectsCommit input) :
    node.CommitKept (node.handleInput input) := by
  have effect := node.effect_handleInput input
  generalize node.handleInput input = next at effect ⊢
  cases effect with
  | unchanged | stands _ | follows _ | leads _ _ _ =>
    exact .of_same inLog rfl rfl
  | @adopts args =>
    obtain ⟨_, _, _, adopted⟩ := node.adoptTerm_eq args.term
    rw [adopted]
    exact .of_same inLog rfl rfl
  | @votes args _ =>
    obtain ⟨_, _, _, adopted⟩ := node.adoptTerm_eq args.term
    rw [adopted]
    exact .of_same inLog rfl rfl
  | accepts current => exact commitKept_accept inLog (respects current)
  | advances => exact commitKept_advanceCommit inLog
  | records entry =>
    refine .of_isPrefix inLog ?_ rfl
    exact prefix_append_of_prefix (List.take_prefix _ _)

theorem commitKept_of_run {earlier later : RaftNode} {inputs : List NodeInput}
    (run : Run (Restrict InputStep RespectsCommit) earlier inputs later)
    (inLog : earlier.CommitInLog) :
    earlier.CommitKept later := by
  induction run with
  | nil node => exact .of_same inLog rfl rfl
  | cons first _ inductionHypothesis =>
    obtain ⟨respects, rfl⟩ := first
    have kept := commitKept_handleInput inLog respects
    exact kept.trans inLog (inductionHypothesis kept.inLog)

/--
A new node that handles any inputs of which none conflicts with the commits: its
commit index never falls and is within the log, and what is committed at some
time stays in its place.
-/
theorem commits_stable_of_respecting_run {config : RaftConfig}
    {passed remaining : List NodeInput} {earlier later : RaftNode}
    (passedRun :
      Run (Restrict InputStep RespectsCommit) (new config) passed earlier)
    (remainingRun :
      Run (Restrict InputStep RespectsCommit) earlier remaining later) :
    earlier.CommitKept later := by
  have inLog : (new config).CommitInLog := Nat.zero_le _
  have kept := commitKept_of_run passedRun inLog
  exact commitKept_of_run remainingRun kept.inLog

/-- Two entries of the first term, with both committed. -/
def firstEntries : AppendEntriesArgs :=
  ⟨1, "leader", 0, 0, [⟨1, 1, []⟩, ⟨2, 1, []⟩], 2⟩

/-- An entry of the second term after them. -/
def nextEntry : AppendEntriesArgs :=
  ⟨2, "leader", 2, 1, [⟨3, 2, []⟩], 3⟩

/-- A leader of the second term that has another first entry. -/
def otherEntries : AppendEntriesArgs :=
  ⟨2, "other", 0, 0, [⟨1, 2, []⟩], 5⟩

/-- A leader of the second term whose second entry is of that term. -/
def otherPrev : AppendEntriesArgs :=
  ⟨2, "other", 2, 2, [], 0⟩

/-- A node alone with its log. -/
def exampleNode : RaftNode :=
  new ⟨"node-1", []⟩

/-- Entries of the next term after the committed ones are committed too. -/
theorem commitKept_nextEntry :
    ∃ earlier later,
      Run (Restrict InputStep RespectsCommit) exampleNode
          [.message (.appendEntries firstEntries)] earlier ∧
        Run (Restrict InputStep RespectsCommit) earlier
            [.message (.appendEntries nextEntry)] later ∧
          earlier.commitIndex = 2 ∧ later.commitIndex = 3 ∧
            earlier.CommitKept later := by
  let earlier := exampleNode.handleInput (.message (.appendEntries firstEntries))
  let later := earlier.handleInput (.message (.appendEntries nextEntry))
  have passedRun :
      Run (Restrict InputStep RespectsCommit) exampleNode
        [.message (.appendEntries firstEntries)] earlier :=
    .single ⟨fun _ => ⟨by decide, by decide⟩, rfl⟩
  have remainingRun :
      Run (Restrict InputStep RespectsCommit) earlier
        [.message (.appendEntries nextEntry)] later :=
    .single ⟨fun _ => ⟨by decide, by decide⟩, rfl⟩
  exact ⟨earlier, later, passedRun, remainingRun, by decide, by decide,
    commits_stable_of_respecting_run passedRun remainingRun⟩

/--
A leader with another first entry replaces a committed one and lowers the commit
index; one with another second entry cuts the log below the commit index.
-/
theorem conflicting_messages_undo_commits :
    ∃ earlier replaced cut,
      Run InputStep exampleNode
          [.message (.appendEntries firstEntries)] earlier ∧
        earlier.commitIndex = 2 ∧
          Run InputStep earlier
              [.message (.appendEntries otherEntries)] replaced ∧
            replaced.commitIndex = 1 ∧ replaced.log = [⟨1, 2, []⟩] ∧
              Run InputStep earlier [.message (.appendEntries otherPrev)] cut ∧
                cut.commitIndex = 2 ∧ cut.log = [⟨1, 1, []⟩] ∧
                  ¬earlier.CommitKept replaced ∧ ¬earlier.CommitKept cut := by
  refine ⟨exampleNode.handleInput (.message (.appendEntries firstEntries)),
    _, _, .single rfl, by decide, .single rfl, by decide, by decide,
    .single rfl, by decide, by decide, fun kept => ?_, fun kept => ?_⟩
  · exact absurd kept.commitIndex (by decide)
  · exact absurd kept.kept.length_le (by decide)

end RaftNode

end ChronoDB.Raft
