import ChronoDB.Library.FiniteMap

namespace ChronoDB.Raft

open Library

/-!
# One node of the consensus protocol

The handlers of a node as functions of its state.  A handler returns the new
state and the reply it computes.  Terms and log indices are machine integers;
the length of a log is compared as a number.  Timers and channels are left out.
-/

abbrev NodeId := String

structure LogEntry where
  index : UInt64
  term : UInt64
  command : List UInt8
  deriving Repr, DecidableEq

abbrev Log := List LogEntry

structure RequestVoteArgs where
  term : UInt64
  candidateId : NodeId
  lastLogIndex : UInt64
  lastLogTerm : UInt64
  deriving Repr, DecidableEq

structure RequestVoteReply where
  term : UInt64
  voteGranted : Bool
  deriving Repr, DecidableEq

structure AppendEntriesArgs where
  term : UInt64
  leaderId : NodeId
  prevLogIndex : UInt64
  prevLogTerm : UInt64
  entries : List LogEntry
  leaderCommit : UInt64
  deriving Repr, DecidableEq

structure AppendEntriesReply where
  term : UInt64
  success : Bool
  matchIndex : UInt64
  deriving Repr, DecidableEq

structure ClientRequestArgs where
  command : List UInt8
  deriving Repr, DecidableEq

inductive RaftMessage where
  | requestVote (args : RequestVoteArgs)
  | requestVoteResponse (reply : RequestVoteReply)
  | appendEntries (args : AppendEntriesArgs)
  | appendEntriesResponse (reply : AppendEntriesReply)
  | clientRequest (args : ClientRequestArgs)
  | clientResponse
  deriving Repr, DecidableEq

inductive RaftState where
  | follower
  | candidate
  | leader
  deriving Repr, DecidableEq

structure RaftConfig where
  nodeId : NodeId
  peers : List NodeId
  deriving Repr, DecidableEq

structure RaftNode where
  config : RaftConfig
  state : RaftState
  currentTerm : UInt64
  votedFor : Option NodeId
  log : Log
  commitIndex : UInt64
  nextIndex : FiniteMap NodeId UInt64
  matchIndex : FiniteMap NodeId UInt64

/-- The length of a log as the source casts it. -/
def lengthAsU64 (log : Log) : UInt64 :=
  UInt64.ofNat log.length

def lastTerm (log : Log) : UInt64 :=
  (log.getLast?.map LogEntry.term).getD 0

/-- The entry at an index, which counts from one. -/
def entryAt (log : Log) (index : UInt64) : Option LogEntry :=
  log[(index - 1).toNat]?

theorem toNat_index_sub_one {index : UInt64} (positive : 0 < index) :
    (index - 1).toNat + 1 = index.toNat := by
  have atLeastOne : (1 : UInt64) ≤ index := by
    rw [UInt64.lt_iff_toNat_lt] at positive
    rw [UInt64.le_iff_toNat_le]
    simp only [UInt64.reduceToNat] at positive ⊢
    omega
  rw [UInt64.toNat_sub_of_le _ _ atLeastOne]
  rw [UInt64.le_iff_toNat_le] at atLeastOne
  simp only [UInt64.reduceToNat] at atLeastOne ⊢
  omega

theorem entryAt_eq
    {index : UInt64} {position : ℕ} (isPosition : index.toNat = position + 1)
    (log : Log) :
    entryAt log index = log[position]? := by
  have positive : 0 < index := by
    rw [UInt64.lt_iff_toNat_lt, isPosition]
    exact Nat.succ_pos position
  have before := toNat_index_sub_one positive
  rw [entryAt]
  congr 1
  omega

def insertPeers
    (peers : List NodeId) (value : UInt64) (indices : FiniteMap NodeId UInt64) :
    FiniteMap NodeId UInt64 :=
  peers.foldl (fun indices peer => indices.insert peer value) indices

namespace RaftNode

def new (config : RaftConfig) : RaftNode where
  config := config
  state := .follower
  currentTerm := 0
  votedFor := none
  log := []
  commitIndex := 0
  nextIndex := insertPeers config.peers 1 ∅
  matchIndex := insertPeers config.peers 0 ∅

/-- The common answer to a higher term: follow it, with no vote yet. -/
def follow (node : RaftNode) (term : UInt64) : RaftNode :=
  { node with currentTerm := term, state := .follower, votedFor := none }

/-- Follow a term that is higher than the current one. -/
def adoptTerm (node : RaftNode) (term : UInt64) : RaftNode :=
  if node.currentTerm < term then node.follow term else node

theorem adoptTerm_log (node : RaftNode) (term : UInt64) :
    (node.adoptTerm term).log = node.log := by
  rw [adoptTerm]
  split <;> rfl

def requestVotes (node : RaftNode) (term : UInt64) :
    List (NodeId × RequestVoteArgs) :=
  let args : RequestVoteArgs :=
    { term := term
      candidateId := node.config.nodeId
      lastLogIndex := lengthAsU64 node.log
      lastLogTerm := lastTerm node.log }
  node.config.peers.map fun peer => (peer, args)

/-- The new state and the requests to the peers. -/
def handleElectionTimeout (node : RaftNode) :
    RaftNode × List (NodeId × RequestVoteArgs) :=
  if node.state = .leader then
    (node, [])
  else
    let term := node.currentTerm + 1
    let candidate :=
      { node with
        state := .candidate
        currentTerm := term
        votedFor := some node.config.nodeId }
    (candidate, candidate.requestVotes term)

/-- The entries and the commit index that a leader sends to one peer. -/
def appendEntriesFor (node : RaftNode) (peer : NodeId) : AppendEntriesArgs :=
  let prevLogIndex := (node.nextIndex.lookup peer).getD 1 - 1
  { term := node.currentTerm
    leaderId := node.config.nodeId
    prevLogIndex := prevLogIndex
    prevLogTerm :=
      if 0 < prevLogIndex then
        ((entryAt node.log prevLogIndex).map LogEntry.term).getD 0
      else
        0
    entries := node.log.drop prevLogIndex.toNat
    leaderCommit := node.commitIndex }

def sendHeartbeats (node : RaftNode) : List (NodeId × AppendEntriesArgs) :=
  if node.state = .leader then
    node.config.peers.map fun peer => (peer, node.appendEntriesFor peer)
  else
    []

/-- Whether the log of a candidate is at least as up to date. -/
def logIsUpToDate (node : RaftNode) (args : RequestVoteArgs) : Prop :=
  lastTerm node.log < args.lastLogTerm ∨
    (args.lastLogTerm = lastTerm node.log ∧
      lengthAsU64 node.log ≤ args.lastLogIndex)

instance (node : RaftNode) (args : RequestVoteArgs) :
    Decidable (node.logIsUpToDate args) :=
  inferInstanceAs (Decidable (_ ∨ _))

def handleRequestVote (node : RaftNode) (args : RequestVoteArgs) :
    RaftNode × Option RequestVoteReply :=
  if args.term < node.currentTerm then
    (node, some ⟨node.currentTerm, false⟩)
  else
    let node := node.adoptTerm args.term
    let canVote := node.votedFor = none ∨ node.votedFor = some args.candidateId
    if canVote ∧ node.logIsUpToDate args then
      ({ node with votedFor := some args.candidateId },
        some ⟨node.currentTerm, true⟩)
    else
      (node, none)

theorem handleRequestVote_cases (node : RaftNode) (args : RequestVoteArgs) :
    node.handleRequestVote args = (node, some ⟨node.currentTerm, false⟩) ∨
      node.handleRequestVote args = (node.adoptTerm args.term, none) ∨
        ((node.adoptTerm args.term).votedFor = none ∨
            (node.adoptTerm args.term).votedFor = some args.candidateId) ∧
          node.handleRequestVote args =
            ({ node.adoptTerm args.term with
                votedFor := some args.candidateId },
              some ⟨(node.adoptTerm args.term).currentTerm, true⟩) := by
  rw [handleRequestVote]
  split
  · exact .inl rfl
  · dsimp only
    split
    · rename_i votes
      exact .inr (.inr ⟨votes.1, rfl⟩)
    · exact .inr (.inl rfl)

/-- What a candidate does with any granted vote. -/
def becomeLeader (node : RaftNode) : RaftNode :=
  { node with
    state := .leader
    nextIndex :=
      insertPeers node.config.peers (lengthAsU64 node.log + 1) node.nextIndex
    matchIndex := insertPeers node.config.peers 0 node.matchIndex }

def handleRequestVoteResponse (node : RaftNode) (reply : RequestVoteReply) :
    RaftNode :=
  if node.currentTerm < reply.term then
    node.follow reply.term
  else if reply.voteGranted = true ∧ node.state = .candidate then
    node.becomeLeader
  else
    node

/-- The loop body over the entries of a message. -/
def appendEntry (log : Log) (entry : LogEntry) : Log :=
  if entry.index.toNat ≤ log.length then
    match entryAt log entry.index with
    | some existing =>
      if existing.term ≠ entry.term then
        log.take (entry.index - 1).toNat ++ [entry]
      else
        log
    | none => log
  else
    log ++ [entry]

def appendEntries (log : Log) (entries : List LogEntry) : Log :=
  entries.foldl appendEntry log

def followCommit (commitIndex leaderCommit : UInt64) (log : Log) : UInt64 :=
  if commitIndex < leaderCommit then
    if leaderCommit.toNat ≤ log.length then leaderCommit
    else lengthAsU64 log
  else
    commitIndex

/-- The part after the terms were compared: the log and the commit index. -/
def appendToLog (node : RaftNode) (args : AppendEntriesArgs) :
    RaftNode × Option AppendEntriesReply :=
  let rejected : AppendEntriesReply := ⟨args.term, false, 0⟩
  let append :=
    let log := appendEntries node.log args.entries
    ({ node with
        log := log
        commitIndex := followCommit node.commitIndex args.leaderCommit log },
      some
        { term := args.term
          success := true
          matchIndex := args.prevLogIndex + UInt64.ofNat args.entries.length })
  if 0 < args.prevLogIndex then
    if node.log.length < args.prevLogIndex.toNat then
      (node, some rejected)
    else
      match entryAt node.log args.prevLogIndex with
      | some entry =>
        if entry.term ≠ args.prevLogTerm then
          ({ node with
              log := node.log.take (args.prevLogIndex - 1).toNat },
            some rejected)
        else
          append
      | none => (node, none)
  else
    append

def handleAppendEntries (node : RaftNode) (args : AppendEntriesArgs) :
    RaftNode × Option AppendEntriesReply :=
  if args.term < node.currentTerm then
    (node, some ⟨node.currentTerm, false, 0⟩)
  else
    (node.adoptTerm args.term).appendToLog args

/-- The index that a majority of the nodes has, from what a node knows. -/
def majorityIndex (node : RaftNode) : Option UInt64 :=
  let matchIndices :=
    ((node.matchIndex.entries.map Sigma.snd ++
      [lengthAsU64 node.log]).insertionSort (· ≤ ·))
  let majority := (node.config.peers.length + 1) / 2 + 1
  if majority ≤ matchIndices.length then
    matchIndices[matchIndices.length - majority]?
  else
    none

/-- Commit what a majority has, if its last entry is of the current term. -/
def advanceCommit (node : RaftNode) : RaftNode :=
  match node.majorityIndex with
  | none => node
  | some newCommitIndex =>
    if node.commitIndex < newCommitIndex then
      match entryAt node.log newCommitIndex with
      | some entry =>
        if entry.term = node.currentTerm then
          { node with commitIndex := newCommitIndex }
        else
          node
      | none => node
    else
      node

def handleAppendEntriesResponse (node : RaftNode) (reply : AppendEntriesReply) :
    RaftNode :=
  if node.currentTerm < reply.term then
    node.follow reply.term
  else
    node.advanceCommit

def handleClientRequest (node : RaftNode) (args : ClientRequestArgs) :
    RaftNode :=
  if node.state = .leader then
    { node with
      log := node.log ++
        [⟨lengthAsU64 node.log + 1, node.currentTerm, args.command⟩] }
  else
    node

def handleMessage (node : RaftNode) : RaftMessage → RaftNode
  | .requestVote args => (node.handleRequestVote args).1
  | .requestVoteResponse reply => node.handleRequestVoteResponse reply
  | .appendEntries args => (node.handleAppendEntries args).1
  | .appendEntriesResponse reply => node.handleAppendEntriesResponse reply
  | .clientRequest args => node.handleClientRequest args
  | .clientResponse => node

end RaftNode

end ChronoDB.Raft
