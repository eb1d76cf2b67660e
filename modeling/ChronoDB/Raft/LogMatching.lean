import ChronoDB.Raft.FollowerCommit

namespace ChronoDB.Raft

open Library List

/-!
# Log matching

A leader sends the part of its log after an index that it believes a follower
has.  The follower checks the entry at that index and walks the sent ones,
keeping entries of equal terms, cutting its log at the first other one and
adding what it lacks.
-/

/-- Entries of equal terms at one place follow equal entries. -/
def LogsMatch (leaderLog log : Log) : Prop :=
  ∀ position leaderEntry entry,
    leaderLog[position]? = some leaderEntry →
      log[position]? = some entry → leaderEntry.term = entry.term →
        leaderLog.take (position + 1) = log.take (position + 1)

/-- The entries of a log carry the indices from one on. -/
def Indexed (log : Log) : Prop :=
  ∀ position entry, log[position]? = some entry →
    entry.index.toNat = position + 1

theorem logsMatch_take (leaderLog : Log) (count : ℕ) :
    LogsMatch leaderLog (leaderLog.take count) := by
  intro position leaderEntry entry _ isEntry _
  have within : position < count := by
    by_contra beyond
    rw [getElem?_take, if_neg beyond] at isEntry
    cases isEntry
  rw [take_take, Nat.min_eq_left within]

theorem length_of_take_eq
    {leaderLog log : Log} {count : ℕ} (within : count ≤ leaderLog.length)
    (agree : log.take count = leaderLog.take count) :
    count ≤ log.length := by
  have sameLength := congrArg List.length agree
  rw [length_take, length_take_of_le within] at sameLength
  omega

namespace RaftNode

variable {leaderLog log : Log} {position : ℕ} {peer : NodeId} {entry : LogEntry}

theorem appendEntry_agrees
    (indexed : Indexed leaderLog) (isEntry : leaderLog[position]? = some entry)
    (logsMatch : LogsMatch leaderLog log)
    (agree : log.take position = leaderLog.take position) :
    (appendEntry log entry).take (position + 1) =
        leaderLog.take (position + 1) ∧
      LogsMatch leaderLog (appendEntry log entry) := by
  have isPosition := indexed position entry isEntry
  obtain ⟨inside, _⟩ := List.getElem?_eq_some_iff.mp isEntry
  have reaches := length_of_take_eq (Nat.le_of_lt inside) agree
  have extended :
      leaderLog.take position ++ [entry] = leaderLog.take (position + 1) := by
    rw [take_add_one, isEntry, Option.toList_some]
  have extendedAgrees :
      (leaderLog.take (position + 1)).take (position + 1) =
          leaderLog.take (position + 1) ∧
        LogsMatch leaderLog (leaderLog.take (position + 1)) :=
    ⟨by rw [take_take, Nat.min_self], logsMatch_take _ _⟩
  rw [appendEntry, entryAt_eq isPosition]
  split
  · rename_i known
    have insideLog : position < log.length := by omega
    rw [getElem?_eq_getElem insideLog]
    dsimp only
    split
    · have cut : (entry.index - 1).toNat = position := by
        have positive : 0 < entry.index := by
          rw [UInt64.lt_iff_toNat_lt, isPosition]
          exact Nat.succ_pos position
        have before := toNat_index_sub_one positive
        omega
      rw [cut, agree, extended]
      exact extendedAgrees
    · rename_i sameTerm
      have same := logsMatch position entry _ isEntry
        (getElem?_eq_getElem insideLog) (not_not.mp sameTerm).symm
      exact ⟨same.symm, logsMatch⟩
  · rename_i unknown
    have isWhole : log.take position = log := take_of_length_le (by omega)
    rw [← isWhole, agree, extended]
    exact extendedAgrees

theorem logsMatch_of_isPrefix {newLog : Log}
    (logsMatch : LogsMatch leaderLog log)
    (isPrefix : newLog <+: log ∨ newLog <+: leaderLog) :
    LogsMatch leaderLog newLog := by
  rcases isPrefix with ofLog | ofLeader
  · intro position leaderEntry entry isLeader isEntry sameTerm
    obtain ⟨inside, _⟩ := List.getElem?_eq_some_iff.mp isEntry
    obtain ⟨later, rfl⟩ := ofLog
    rw [logsMatch position leaderEntry entry isLeader
      (by rw [getElem?_append_left inside, isEntry]) sameTerm,
      take_append_of_le_length inside]
  · rw [prefix_iff_eq_take.mp ofLeader]
    exact logsMatch_take _ _

theorem appendEntry_cases (indexed : Indexed leaderLog)
    (isEntry : leaderLog[position]? = some entry)
    (logsMatch : LogsMatch leaderLog log)
    (agree : log.take position = leaderLog.take position) :
    appendEntry log entry = log ∨ appendEntry log entry <+: leaderLog := by
  have isIndex := indexed position entry isEntry
  have taken (isLength : (appendEntry log entry).length = position + 1) :
      appendEntry log entry <+: leaderLog := by
    rw [← take_of_length_le isLength.le,
      (appendEntry_agrees indexed isEntry logsMatch agree).1]
    exact take_prefix _ _
  by_cases conflicts : Conflicts log entry
  · exact .inr (taken (length_appendEntry_of_conflicts isIndex conflicts))
  by_cases within : position < log.length
  · exact .inl (appendEntry_of_within isIndex within conflicts)
  · obtain ⟨inside, _⟩ := List.getElem?_eq_some_iff.mp isEntry
    have reaches := length_of_take_eq (Nat.le_of_lt inside) agree
    refine .inr (taken ?_)
    rw [appendEntry, if_neg (by omega), length_append, length_singleton]
    omega

/-- The induction is on the entries that are left of the sent ones. -/
theorem appendEntries_cases {known : Log} (indexed : Indexed leaderLog)
    (isPrefix : known <+: leaderLog) (within : position ≤ known.length)
    (logsMatch : LogsMatch leaderLog log)
    (agree : log.take position = leaderLog.take position) :
    (appendEntries log (known.drop position) <+: log ∨
        appendEntries log (known.drop position) <+: leaderLog) ∧
      known <+: appendEntries log (known.drop position) := by
  induction remaining : known.length - position
    generalizing position log with
  | zero =>
    obtain rfl : position = known.length := by omega
    rw [drop_length]
    refine ⟨.inl prefix_rfl, prefix_iff_eq_take.mpr ?_⟩
    exact (prefix_iff_eq_take.mp isPrefix).trans agree.symm
  | succ left inductionHypothesis =>
    have inside : position < known.length := by omega
    have isEntry := prefix_iff_getElem?.mp isPrefix position inside
    obtain ⟨stepAgree, stepMatch⟩ :=
      appendEntry_agrees indexed isEntry logsMatch agree
    obtain ⟨rest, whole⟩ :=
      inductionHypothesis inside stepMatch stepAgree (by omega)
    rw [drop_eq_getElem_cons inside, appendEntries, foldl_cons]
    refine ⟨rest.elim (fun ofStep => ?_) .inr, whole⟩
    rcases appendEntry_cases indexed isEntry logsMatch agree with same | taken
    · rw [same] at ofStep
      exact .inl (by rwa [same])
    · exact .inr (ofStep.trans taken)

theorem appendEntries_agrees
    (indexed : Indexed leaderLog) (within : position ≤ leaderLog.length)
    (logsMatch : LogsMatch leaderLog log)
    (agree : log.take position = leaderLog.take position) :
    (appendEntries log (leaderLog.drop position)).take leaderLog.length =
        leaderLog ∧
      LogsMatch leaderLog (appendEntries log (leaderLog.drop position)) := by
  obtain ⟨origin, whole⟩ :=
    appendEntries_cases indexed prefix_rfl within logsMatch agree
  exact ⟨(prefix_iff_eq_take.mp whole).symm,
    logsMatch_of_isPrefix logsMatch origin⟩

/-- The index after which a leader sends entries to a peer, plus one. -/
def nextIndexFor (leader : RaftNode) (peer : NodeId) : UInt64 :=
  (leader.nextIndex.lookup peer).getD 1

/-- What a follower did to its log, by whether it accepted a message. -/
def Outcome (leaderLog log newLog : Log) : Bool → Prop
  | false =>
    ∃ count, newLog = log.take count ∧
      ∀ position entry, leaderLog[position]? = some entry →
        log[position]? = some entry → position < count
  | true =>
    newLog.take leaderLog.length = leaderLog ∧ LogsMatch leaderLog newLog

theorem Outcome.keeps_agreeing {leaderLog log newLog : Log} {success : Bool}
    (outcome : Outcome leaderLog log newLog success)
    (isLeaderEntry : leaderLog[position]? = some entry)
    (isEntry : log[position]? = some entry) :
    newLog[position]? = some entry := by
  cases success with
  | false =>
    obtain ⟨count, rfl, beyond⟩ := outcome
    have within := beyond position entry isLeaderEntry isEntry
    rw [getElem?_take, if_pos within, isEntry]
  | true =>
    obtain ⟨agrees, _⟩ := outcome
    obtain ⟨inside, _⟩ := List.getElem?_eq_some_iff.mp isLeaderEntry
    have sameEntry :
        (newLog.take leaderLog.length)[position]? = leaderLog[position]? := by
      rw [agrees]
    rwa [getElem?_take, if_pos inside, isLeaderEntry] at sameEntry

theorem prevLogTerm_eq {leader : RaftNode}
    (positive : 0 < (leader.appendEntriesFor peer).prevLogIndex)
    (isEntry :
      entryAt leader.log (leader.appendEntriesFor peer).prevLogIndex =
        some entry) :
    (leader.appendEntriesFor peer).prevLogTerm = entry.term := by
  have isTerm :
      (leader.appendEntriesFor peer).prevLogTerm =
        ((entryAt leader.log
          (leader.appendEntriesFor peer).prevLogIndex).map
            LogEntry.term).getD 0 :=
    if_pos positive
  rw [isTerm, isEntry]
  rfl

theorem prevLogIndex_toNat
    {leader : RaftNode} (atLeastOne : 1 ≤ leader.nextIndexFor peer) :
    (leader.appendEntriesFor peer).prevLogIndex.toNat + 1 =
      (leader.nextIndexFor peer).toNat := by
  have positive : 0 < leader.nextIndexFor peer := by
    rw [UInt64.le_iff_toNat_le] at atLeastOne
    rw [UInt64.lt_iff_toNat_lt]
    simp only [UInt64.reduceToNat] at atLeastOne ⊢
    omega
  exact toNat_index_sub_one positive

theorem outcome_unchanged (leaderLog log : Log) :
    Outcome leaderLog log log false := by
  refine ⟨log.length, take_length.symm, ?_⟩
  intro position entry _ isEntry
  obtain ⟨inside, _⟩ := List.getElem?_eq_some_iff.mp isEntry
  exact inside

theorem outcome_cut
    {leaderEntry entry : LogEntry} (logsMatch : LogsMatch leaderLog log)
    (isLeaderEntry : leaderLog[position]? = some leaderEntry)
    (isEntry : log[position]? = some entry)
    (differs : entry.term ≠ leaderEntry.term) :
    Outcome leaderLog log (log.take position) false := by
  refine ⟨position, rfl, ?_⟩
  intro later common isLeaderLater isLater
  by_contra beyond
  have samePrefix := logsMatch later common common isLeaderLater isLater rfl
  have inPrefix : position < later + 1 := by omega
  have sameEntry :
      (leaderLog.take (later + 1))[position]? =
        (log.take (later + 1))[position]? := by
    rw [samePrefix]
  rw [getElem?_take, getElem?_take, if_pos inPrefix,
    if_pos inPrefix, isLeaderEntry, isEntry] at sameEntry
  exact differs (congrArg LogEntry.term (Option.some.inj sameEntry)).symm

/--
A follower whose log matches that of the leader refuses what the leader sends or
takes it over.
-/
theorem appendToLog_outcome
    {leader follower : RaftNode} (indexed : Indexed leader.log)
    (atLeastOne : 1 ≤ leader.nextIndexFor peer)
    (within : (leader.nextIndexFor peer).toNat ≤ leader.log.length + 1)
    (logsMatch : LogsMatch leader.log follower.log) :
    ∃ reply,
      (follower.appendToLog (leader.appendEntriesFor peer)).2 = some reply ∧
        Outcome leader.log follower.log
          (follower.appendToLog (leader.appendEntriesFor peer)).1.log
          reply.success := by
  have isPrev := prevLogIndex_toNat atLeastOne
  have prevWithin :
      (leader.appendEntriesFor peer).prevLogIndex.toNat ≤
        leader.log.length := by
    omega
  have accepted :
      follower.log.take (leader.appendEntriesFor peer).prevLogIndex.toNat =
          leader.log.take (leader.appendEntriesFor peer).prevLogIndex.toNat →
        Outcome leader.log follower.log
          (appendEntries follower.log (leader.appendEntriesFor peer).entries)
          true :=
    appendEntries_agrees indexed prevWithin logsMatch
  rw [appendToLog]
  dsimp only
  split
  · rename_i positive
    have before := toNat_index_sub_one positive
    obtain ⟨position, isPosition⟩ :
        ∃ position,
          (leader.appendEntriesFor peer).prevLogIndex.toNat = position + 1 :=
      ⟨_, before.symm⟩
    have inside : position < leader.log.length := by omega
    have isLeaderEntry := getElem?_eq_getElem inside
    have isTerm := prevLogTerm_eq positive
      ((entryAt_eq isPosition leader.log).trans isLeaderEntry)
    split
    · exact ⟨_, rfl, outcome_unchanged _ _⟩
    · rename_i reaches
      have insideFollower : position < follower.log.length := by omega
      have isEntry := getElem?_eq_getElem insideFollower
      rw [entryAt_eq isPosition, isEntry]
      dsimp only
      split
      · rename_i differs
        rw [isTerm] at differs
        have cut :
            ((leader.appendEntriesFor peer).prevLogIndex - 1).toNat =
              position := by
          omega
        rw [cut]
        exact ⟨_, rfl, outcome_cut logsMatch isLeaderEntry isEntry differs⟩
      · rename_i sameTerm
        rw [isTerm] at sameTerm
        have samePrefix := logsMatch position _ _ isLeaderEntry isEntry
          (not_not.mp sameTerm).symm
        rw [← isPosition] at samePrefix
        exact ⟨_, rfl, accepted samePrefix.symm⟩
  · rename_i notPositive
    have isZero : (leader.appendEntriesFor peer).prevLogIndex.toNat = 0 := by
      rw [UInt64.lt_iff_toNat_lt] at notPositive
      simp only [UInt64.reduceToNat] at notPositive
      omega
    refine ⟨_, rfl, accepted ?_⟩
    rw [isZero, take_zero, take_zero]

/--
What a leader sends to a peer, for any index that it believes the peer needs
next, is refused by a follower whose log matches, which keeps at least the
entries that agree, or is taken over as a whole with the logs still matching.
-/
theorem handleAppendEntries_keeps_matching {leader follower : RaftNode}
    {peer : NodeId} {args : AppendEntriesArgs}
    (sent : (peer, args) ∈ leader.sendHeartbeats) (indexed : Indexed leader.log)
    (atLeastOne : 1 ≤ leader.nextIndexFor peer)
    (within : (leader.nextIndexFor peer).toNat ≤ leader.log.length + 1)
    (logsMatch : LogsMatch leader.log follower.log) :
    (∃ reply, (follower.handleAppendEntries args).2 = some reply ∧
        Outcome leader.log follower.log
          (follower.handleAppendEntries args).1.log reply.success) ∧
      ∀ (position : ℕ) (entry : LogEntry),
        leader.log[position]? = some entry →
          follower.log[position]? = some entry →
            (follower.handleAppendEntries args).1.log[position]? =
              some entry := by
  obtain rfl : args = leader.appendEntriesFor peer := by
    rw [sendHeartbeats] at sent
    split at sent
    · obtain ⟨other, _, same⟩ := mem_map.mp sent
      cases same
      rfl
    · cases sent
  have outcome :
      ∃ reply,
        (follower.handleAppendEntries (leader.appendEntriesFor peer)).2 =
            some reply ∧
          Outcome leader.log follower.log
            (follower.handleAppendEntries (leader.appendEntriesFor peer)).1.log
            reply.success := by
    rw [handleAppendEntries]
    split
    · exact ⟨_, rfl, outcome_unchanged _ _⟩
    · have sameLog := (follower.adoptTerm_log
        (leader.appendEntriesFor peer).term)
      rw [← sameLog]
      rw [← sameLog] at logsMatch
      exact appendToLog_outcome indexed atLeastOne within logsMatch
  refine ⟨outcome, ?_⟩
  intro position entry isLeaderEntry isEntry
  obtain ⟨reply, _, isOutcome⟩ := outcome
  exact isOutcome.keeps_agreeing isLeaderEntry isEntry

/-- A leader of the second term that believes its peer needs the second entry. -/
def exampleLeader : RaftNode :=
  { new ⟨"n1", ["n2"]⟩ with
    state := .leader
    currentTerm := 2
    log := [⟨1, 1, []⟩, ⟨2, 2, []⟩]
    nextIndex := insertPeers ["n2"] 2 ∅ }

/-- A follower whose second entry is of the first term. -/
def exampleFollower : RaftNode :=
  { new ⟨"n2", ["n1"]⟩ with
    currentTerm := 1
    log := [⟨1, 1, []⟩, ⟨2, 1, []⟩] }

/-- The follower replaces its second entry and keeps the first one. -/
theorem exampleFollower_takes_over :
    ∃ args, ("n2", args) ∈ exampleLeader.sendHeartbeats ∧
      (exampleFollower.handleAppendEntries args).1.log = exampleLeader.log ∧
        ∃ reply,
          (exampleFollower.handleAppendEntries args).2 = some reply ∧
            Outcome exampleLeader.log exampleFollower.log
              (exampleFollower.handleAppendEntries args).1.log
              reply.success := by
  have sent :
      ("n2", exampleLeader.appendEntriesFor "n2") ∈
        exampleLeader.sendHeartbeats :=
    mem_singleton_self _
  have indexed : Indexed exampleLeader.log := by
    intro position entry isEntry
    rcases position with _ | _ | position
    · cases isEntry
      decide
    · cases isEntry
      decide
    · cases isEntry
  have logsMatch : LogsMatch exampleLeader.log exampleFollower.log := by
    intro position leaderEntry entry isLeaderEntry isEntry sameTerm
    rcases position with _ | _ | position
    · rfl
    · cases isLeaderEntry
      cases isEntry
      exact absurd sameTerm (by decide)
    · cases isEntry
  have outcome := handleAppendEntries_keeps_matching sent indexed (by decide)
    (by decide) logsMatch
  exact ⟨_, sent, by decide, outcome.1⟩

/-!
## A leadership over an unreliable network
-/

/-- A message that a leader sent, maybe when its log was shorter. -/
def DrawnFrom (leaderLog : Log) (args : AppendEntriesArgs) : Prop :=
  ∃ known, known <+: leaderLog ∧ args.prevLogIndex.toNat ≤ known.length ∧
    args.entries = known.drop args.prevLogIndex.toNat ∧
      ∀ position entry, args.prevLogIndex.toNat = position + 1 →
        known[position]? = some entry → args.prevLogTerm = entry.term

/-- The number of entries that a reply confirms. -/
def confirms : Option AppendEntriesReply → ℕ
  | some reply => if reply.success then reply.matchIndex.toNat else 0
  | none => 0

/-- Both logs have the same first entries. -/
def AgreeUpTo (leaderLog log : Log) (count : ℕ) : Prop :=
  ∃ known, known.length = count ∧ known <+: leaderLog ∧ known <+: log

/-- A log takes over what a leader sends, or keeps some of its entries. -/
structure Follows (leaderLog log newLog : Log) (confirmed : ℕ) : Prop where
  origin : newLog <+: log ∨ newLog <+: leaderLog
  keeps : ∀ known, known <+: leaderLog → known <+: log → known <+: newLog
  agree : AgreeUpTo leaderLog newLog confirmed

theorem Follows.refl : Follows leaderLog log log 0 :=
  ⟨.inl prefix_rfl, fun _ _ => id, [], rfl, nil_prefix, nil_prefix⟩

theorem follows_handleAppendEntries {follower : RaftNode}
    {args : AppendEntriesArgs} (indexed : Indexed leaderLog)
    (fits : leaderLog.length < 2 ^ 64)
    (logsMatch : LogsMatch leaderLog follower.log)
    (drawn : DrawnFrom leaderLog args) :
    Follows leaderLog follower.log (follower.handleAppendEntries args).1.log
      (confirms (follower.handleAppendEntries args).2) := by
  rw [handleAppendEntries]
  split
  · exact .refl
  rw [← follower.adoptTerm_log args.term] at logsMatch ⊢
  generalize follower.adoptTerm args.term = node at logsMatch ⊢
  obtain ⟨known, isPrefix, within, isSent, isTerm⟩ := drawn
  have reaches := isPrefix.length_le
  have accepted
      (agree : node.log.take args.prevLogIndex.toNat =
        leaderLog.take args.prevLogIndex.toNat) :
      Follows leaderLog node.log (appendEntries node.log args.entries)
        (args.prevLogIndex + UInt64.ofNat args.entries.length).toNat := by
    obtain ⟨origin, whole⟩ :=
      appendEntries_cases indexed isPrefix within logsMatch agree
    rw [isSent, length_drop]
    refine ⟨origin, fun kept ofLeader ofLog => ?_, _, ?_, isPrefix, whole⟩
    · refine prefix_appendEntries ofLog (ofLeader.length_le.trans_lt fits)
        fun entry member _ reached => ?_
      obtain ⟨place, isPlace⟩ := getElem?_of_mem (mem_of_mem_drop member)
      obtain ⟨inside, rfl⟩ := List.getElem?_eq_some_iff.mp isPlace
      have isLeader := prefix_iff_getElem?.mp isPrefix place inside
      have isIndex := indexed place _ isLeader
      refine ⟨_, ?_, rfl⟩
      rw [Option.mem_def, entryAt_eq isIndex, ← isLeader,
        prefix_iff_getElem?.mp ofLeader place (by omega), getElem?_eq_getElem]
    · rw [UInt64.toNat_add, UInt64.toNat_ofNat']
      omega
  rw [appendToLog]
  dsimp only
  split
  · rename_i positive
    split
    · exact .refl
    rename_i long
    have isPrev := toNat_index_sub_one positive
    have inside : (args.prevLogIndex - 1).toNat < node.log.length := by omega
    have insideKnown : (args.prevLogIndex - 1).toNat < known.length := by omega
    have isLeaderEntry :=
      prefix_iff_getElem?.mp isPrefix (args.prevLogIndex - 1).toNat insideKnown
    have isEntry := getElem?_eq_getElem inside
    have sameTerm := isTerm _ _ isPrev.symm (getElem?_eq_getElem insideKnown)
    rw [entryAt, isEntry]
    dsimp only
    split
    · rename_i differs
      refine ⟨.inl ( take_prefix _ _), fun kept ofLeader ofLog => ?_,
        Follows.refl.agree⟩
      rw [prefix_take_iff]
      refine ⟨ofLog, le_of_not_gt fun beyond => differs ?_⟩
      have ofKept := prefix_iff_getElem?.mp ofLog _ beyond
      have same := (prefix_iff_getElem?.mp ofLeader _ beyond).symm.trans
        isLeaderEntry
      rw [isEntry] at ofKept
      rw [sameTerm, Option.some.inj ofKept, Option.some.inj same]
    · rename_i equal
      rw [not_not, sameTerm] at equal
      have samePrefix := logsMatch _ _ _ isLeaderEntry isEntry equal.symm
      rw [isPrev] at samePrefix
      exact accepted samePrefix.symm
  · rename_i notPositive
    have isZero : args.prevLogIndex.toNat = 0 := by
      rw [UInt64.lt_iff_toNat_lt] at notPositive
      simpa using notPositive
    exact accepted (by rw [isZero, take_zero, take_zero])

end RaftNode

open RaftNode

/--
A leader and one of its followers, the messages that were sent, each of which
can arrive late, again or never, and how many entries the follower confirmed.
-/
structure Leadership where
  leader : RaftNode
  follower : RaftNode
  sent : List AppendEntriesArgs
  confirmed : ℕ

namespace Leadership

/-- What a leadership becomes while the leader stays one. -/
inductive Becomes (peer : NodeId) (system : Leadership) :
    Leadership → Prop where
  | refl : Becomes peer system system
  | clientRequest
      {later : Leadership}
      (becomes : Becomes peer system later)
      (args : ClientRequestArgs) :
      Becomes peer system
        { later with leader := later.leader.handleClientRequest args }
  | heartbeat
      {later : Leadership}
      {args : AppendEntriesArgs}
      (becomes : Becomes peer system later)
      (isSent : (peer, args) ∈ later.leader.sendHeartbeats) :
      Becomes peer system { later with sent := args :: later.sent }
  | deliver
      {later : Leadership}
      {args : AppendEntriesArgs}
      (becomes : Becomes peer system later)
      (isSent : args ∈ later.sent) :
      Becomes peer system
        { later with
          follower := (later.follower.handleAppendEntries args).1
          confirmed :=
            max later.confirmed
              (confirms (later.follower.handleAppendEntries args).2) }
  | acknowledge
      {later : Leadership}
      {reply : AppendEntriesReply}
      (becomes : Becomes peer system later)
      (current : reply.term ≤ later.leader.currentTerm) :
      Becomes peer system
        { later with
          leader := later.leader.handleAppendEntriesResponse reply }

/-- A leader that may send to a peer, with the log that the peer had. -/
structure Leads (peer : NodeId) (joined : Log) (leader : RaftNode) : Prop where
  indexed : Indexed leader.log
  atLeastOne : 1 ≤ leader.nextIndexFor peer
  within : (leader.nextIndexFor peer).toNat ≤ leader.log.length + 1
  logsMatch : LogsMatch leader.log joined
  /-- Nothing else appended entries in the current term. -/
  newTerm : ∀ (position : ℕ) (entry : LogEntry),
    joined[position]? = some entry →
      entry.term = leader.currentTerm → position < leader.log.length

variable {peer : NodeId} {joined : Log} {leader : RaftNode}

theorem Leads.drawnFrom (leads : Leads peer joined leader)
    {args : AppendEntriesArgs} (isSent : (peer, args) ∈ leader.sendHeartbeats) :
    DrawnFrom leader.log args := by
  rw [sendHeartbeats] at isSent
  split at isSent
  · obtain ⟨other, _, same⟩ := mem_map.mp isSent
    cases same
    have isPrev := prevLogIndex_toNat leads.atLeastOne
    have within := leads.within
    refine ⟨_, prefix_rfl, by omega, rfl, fun position entry isIndex isEntry =>
      prevLogTerm_eq ?_ ((entryAt_eq isIndex _).trans isEntry)⟩
    rw [UInt64.lt_iff_toNat_lt, isIndex]
    exact Nat.succ_pos position
  · cases isSent

theorem Leads.handleClientRequest (leads : Leads peer joined leader)
    (args : ClientRequestArgs)
    (fits : (leader.handleClientRequest args).log.length < 2 ^ 64) :
    Leads peer joined (leader.handleClientRequest args) := by
  rw [RaftNode.handleClientRequest] at fits ⊢
  split at fits
  · rename_i isLeader
    rw [if_pos isLeader]
    have longer (last : LogEntry) :
        (leader.log ++ [last]).length = leader.log.length + 1 :=
      length_append
    rw [longer] at fits
    have cases_of {position : ℕ} {entry last : LogEntry}
        (isEntry : (leader.log ++ [last])[position]? = some entry) :
        leader.log[position]? = some entry ∨
          position = leader.log.length ∧ entry = last := by
      rw [getElem?_append] at isEntry
      split at isEntry
      · exact .inl isEntry
      · obtain ⟨inside, rfl⟩ := List.getElem?_eq_some_iff.mp isEntry
        rw [length_singleton] at inside
        exact .inr ⟨by omega, by simp⟩
    constructor
    · intro position entry isEntry
      rcases cases_of isEntry with isOld | ⟨rfl, rfl⟩
      · exact leads.indexed position entry isOld
      · rw [lengthAsU64, UInt64.toNat_add, UInt64.toNat_ofNat']
        simp
        omega
    · exact leads.atLeastOne
    · rw [longer]
      exact leads.within.trans (Nat.le_succ _)
    · intro position leaderEntry entry isLeader isEntry sameTerm
      rcases cases_of isLeader with isOld | ⟨rfl, rfl⟩
      · obtain ⟨inside, _⟩ := List.getElem?_eq_some_iff.mp isOld
        rw [take_append_of_le_length inside]
        exact leads.logsMatch _ _ _ isOld isEntry sameTerm
      · exact absurd (leads.newTerm _ _ isEntry sameTerm.symm)
          (Nat.lt_irrefl _)
    · intro position entry isEntry isOwn
      rw [longer]
      exact (leads.newTerm _ _ isEntry isOwn).trans (Nat.lt_succ_self _)
  · rename_i follows
    rwa [if_neg follows]

/--
Messages of one leader that arrive late, in any order, again or never keep the
logs matching, and the follower keeps every entry that it has confirmed.
-/
theorem confirmed_kept {system later : Leadership}
    (becomes : Becomes peer system later)
    (leads : Leads peer system.follower.log system.leader)
    (starts : system.sent = [] ∧ system.confirmed = 0)
    (fits : later.leader.log.length < 2 ^ 64) :
    LogsMatch later.leader.log later.follower.log ∧
      AgreeUpTo later.leader.log later.follower.log later.confirmed := by
  suffices kept : Leads peer system.follower.log later.leader ∧
      (later.follower.log <+: system.follower.log ∨
        later.follower.log <+: later.leader.log) ∧
      (∀ args ∈ later.sent, DrawnFrom later.leader.log args) ∧
        AgreeUpTo later.leader.log later.follower.log later.confirmed from
    ⟨logsMatch_of_isPrefix kept.1.logsMatch kept.2.1, kept.2.2.2⟩
  induction becomes with
  | refl =>
    rw [starts.1, starts.2]
    exact ⟨leads, .inl prefix_rfl, nofun, [], rfl, nil_prefix, nil_prefix⟩
  | @clientRequest later _ args inductionHypothesis =>
    have grows : later.leader.log <+:
        (later.leader.handleClientRequest args).log := by
      rw [handleClientRequest]
      split
      · exact prefix_append _ _
      · exact prefix_rfl
    obtain ⟨stillLeads, origin, drawn, known, isCount, ofLeader, ofLog⟩ :=
      inductionHypothesis (grows.length_le.trans_lt fits)
    refine ⟨stillLeads.handleClientRequest args fits,
      origin.imp_right fun isPrefix => isPrefix.trans grows,
      fun message isSent => ?_, known, isCount, ofLeader.trans grows, ofLog⟩
    obtain ⟨sent, isPrefix, drawnFrom⟩ := drawn message isSent
    exact ⟨sent, isPrefix.trans grows, drawnFrom⟩
  | heartbeat _ isSent inductionHypothesis =>
    obtain ⟨stillLeads, origin, drawn, agree⟩ := inductionHypothesis fits
    exact ⟨stillLeads, origin,
      forall_mem_cons.mpr ⟨stillLeads.drawnFrom isSent, drawn⟩, agree⟩
  | deliver _ isSent inductionHypothesis =>
    obtain ⟨stillLeads, origin, drawn, known, isCount, ofLeader, ofLog⟩ :=
      inductionHypothesis fits
    have follows := follows_handleAppendEntries stillLeads.indexed fits
      (logsMatch_of_isPrefix stillLeads.logsMatch origin) (drawn _ isSent)
    refine ⟨stillLeads, ?_, drawn, ?_⟩
    · rcases follows.origin with ofFollower | ofLeader
      · exact origin.imp ofFollower.trans ofFollower.trans
      · exact .inr ofLeader
    · dsimp only
      rw [Nat.max_def]
      split
      · exact follows.agree
      · exact ⟨known, isCount, ofLeader, follows.keeps known ofLeader ofLog⟩
  | @acknowledge later _ _ current inductionHypothesis =>
    obtain ⟨_, advanced⟩ := later.leader.advanceCommit_eq
    rw [handleAppendEntriesResponse, if_neg (UInt64.not_lt.mpr current),
      advanced] at fits ⊢
    obtain ⟨⟨indexed, atLeastOne, within, logsMatch, newTerm⟩, kept⟩ :=
      inductionHypothesis fits
    exact ⟨⟨indexed, atLeastOne, within, logsMatch, newTerm⟩, kept⟩

/-- A leader of the first term, whose log is empty. -/
def firstLeader : RaftNode :=
  { RaftNode.new ⟨"n1", ["n2"]⟩ with state := .leader, currentTerm := 1 }

/-- The first entry is confirmed, and its message arrives again. -/
theorem first_entry_confirmed :
    ∃ later,
      Becomes "n2" ⟨firstLeader, .new ⟨"n2", ["n1"]⟩, [], 0⟩ later ∧
        later.confirmed = 1 ∧
          LogsMatch later.leader.log later.follower.log ∧
            AgreeUpTo later.leader.log later.follower.log later.confirmed := by
  have leads : Leads "n2" [] firstLeader :=
    ⟨nofun, by decide, by decide, nofun, nofun⟩
  have becomes :=
    (((@Becomes.refl "n2" ⟨firstLeader, .new ⟨"n2", ["n1"]⟩, [],
      0⟩).clientRequest ⟨[7]⟩).heartbeat (mem_singleton_self _)).deliver
        (mem_singleton_self _)
  exact ⟨_, becomes.deliver (mem_singleton_self _), by decide,
    confirmed_kept (becomes.deliver (mem_singleton_self _)) leads ⟨rfl, rfl⟩
      (by decide)⟩

end Leadership

end ChronoDB.Raft
