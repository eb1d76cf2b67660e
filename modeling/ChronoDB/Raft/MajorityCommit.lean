import ChronoDB.Library.OrderStatistics
import ChronoDB.Raft.Commit
import ChronoDB.Raft.Election

namespace ChronoDB.Raft

open Library List

/-!
# Majorities

A leader commits an index that a majority of the nodes has reached, as far as it
knows.  A candidate becomes leader with any granted vote, also with one for an
earlier term; in runs where the vote completes a majority, leaders are elected.
The replies carry no sender, so a run names the peer that each message is from.
-/

instance totalUInt64 : @Std.Total UInt64 (· ≤ ·) where
  total := UInt64.le_total

instance isTransUInt64 : IsTrans UInt64 (· ≤ ·) where
  trans _ _ _ := UInt64.le_trans

namespace RaftNode

/-- What a node knows of how far the logs have come, its own one included. -/
def knownIndices (node : RaftNode) : List UInt64 :=
  node.matchIndex.entries.map Sigma.snd ++ [lengthAsU64 node.log]

def peersWith (node : RaftNode) (index : UInt64) : Finset NodeId :=
  node.config.peers.toFinset.filter fun peer =>
    ∃ known ∈ node.matchIndex.lookup peer, index ≤ known

/-- Only peers have match indices. -/
def KnowsPeers (node : RaftNode) : Prop :=
  ∀ peer ∈ node.matchIndex, peer ∈ node.config.peers

/--
An index is in the log with an entry of the current term, and a majority of the
known indices has reached it; if these are of peers, a majority of the peers and
the node itself.
-/
structure Replicated (node : RaftNode) (index : UInt64) : Prop where
  inLog : index.toNat ≤ node.log.length
  ofTerm : HasTerm node.log index node.currentTerm
  known :
    node.config.peers.length + 1 < 2 * node.knownIndices.countP (index ≤ ·)
  peers : node.KnowsPeers →
    node.config.peers.length + 1 < 2 * ((node.peersWith index).card + 1)

def CommitsReplicated (node : RaftNode) (reply : AppendEntriesReply) : Prop :=
  node.commitIndex < (node.handleAppendEntriesResponse reply).commitIndex →
    node.Replicated (node.handleAppendEntriesResponse reply).commitIndex

variable {node : RaftNode}

theorem majority_of_majorityIndex
    {index : UInt64} (isMajority : node.majorityIndex = some index) :
    (node.config.peers.length + 1) / 2 + 1 ≤
      node.knownIndices.countP (index ≤ ·) := by
  rw [majorityIndex] at isMajority
  split at isMajority
  · rename_i enough
    rw [length_insertionSort] at enough isMajority
    exact rank_le_countP enough isMajority
  · cases isMajority

theorem countP_le_card_peersWith
    (knowsPeers : node.KnowsPeers) (index : UInt64) :
    (node.matchIndex.entries.map Sigma.snd).countP (index ≤ ·) ≤
      (node.peersWith index).card := by
  let reached := node.matchIndex.entries.filter fun entry => index ≤ entry.2
  have distinct : (reached.map Sigma.fst).Nodup :=
    List.NodupKeys.sublist filter_sublist node.matchIndex.nodupKeys
  have arePeers : (reached.map Sigma.fst).toFinset ⊆ node.peersWith index := by
    intro peer member
    obtain ⟨entry, isReached, rfl⟩ := mem_map.mp (mem_toFinset.mp member)
    obtain ⟨isEntry, reaches⟩ := mem_filter.mp isReached
    have found : node.matchIndex.lookup entry.1 = some entry.2 :=
      AList.mem_lookup_iff.mpr isEntry
    have isPeer := knowsPeers entry.1 (FiniteMap.mem_of_lookup found)
    exact Finset.mem_filter.mpr ⟨mem_toFinset.mpr isPeer, entry.2, found,
      of_decide_eq_true reaches⟩
  have enough := Finset.card_le_card arePeers
  rw [toFinset_card_of_nodup distinct, length_map] at enough
  rw [countP_map, countP_eq_length_filter]
  exact enough

theorem commitsReplicated (node : RaftNode) (reply : AppendEntriesReply) :
    node.CommitsReplicated reply := by
  rw [CommitsReplicated, handleAppendEntriesResponse]
  split
  · intro raised
    exact absurd raised (UInt64.lt_irrefl _)
  · rw [advanceCommit]
    cases isMajority : node.majorityIndex with
    | none =>
      intro raised
      exact absurd raised (UInt64.lt_irrefl _)
    | some newCommitIndex =>
      dsimp only
      split
      · rename_i higher
        cases found : entryAt node.log newCommitIndex with
        | none =>
          intro raised
          exact absurd raised (UInt64.lt_irrefl _)
        | some entry =>
          dsimp only
          split
          · rename_i ofTerm
            intro _
            have positive : 0 < newCommitIndex := by
              rw [UInt64.lt_iff_toNat_lt] at higher ⊢
              rw [UInt64.toNat_zero]
              omega
            have before := toNat_index_sub_one positive
            obtain ⟨inside, _⟩ := List.getElem?_eq_some_iff.mp found
            have majority := majority_of_majorityIndex isMajority
            refine ⟨?_, ⟨entry, found, ofTerm⟩, ?_, ?_⟩
            · dsimp only
              omega
            · dsimp only
              omega
            · intro knowsPeers
              have peersReach :=
                countP_le_card_peersWith knowsPeers newCommitIndex
              have own :
                  [lengthAsU64 node.log].countP (newCommitIndex ≤ ·) ≤ 1 :=
                countP_le_length
              rw [knownIndices, countP_append] at majority
              dsimp only
              omega
          · intro raised
            exact absurd raised (UInt64.lt_irrefl _)
      · intro raised
        exact absurd raised (UInt64.lt_irrefl _)

/-!
## What an input does to the state of a node
-/

/-- The state of a node stays, is that of a follower, or of a new candidate. -/
inductive ElectionEffect (node next : RaftNode) : Prop where
  | stays
      (state : next.state = node.state)
      (term : next.currentTerm = node.currentTerm)
      (vote : ∀ candidate, node.votedFor = some candidate →
        next.votedFor = some candidate)
  | follows (state : next.state = .follower)
  | stands
      (state : next.state = .candidate)
      (vote : next.votedFor = some node.config.nodeId)

theorem electionEffect_adoptTerm (node : RaftNode) (term : UInt64) :
    node.ElectionEffect (node.adoptTerm term) := by
  rw [adoptTerm]
  split
  · exact .follows rfl
  · exact .stays rfl rfl fun _ voted => voted

theorem electionEffect_grant {args : RequestVoteArgs}
    (canVote :
      (node.adoptTerm args.term).votedFor = none ∨
        (node.adoptTerm args.term).votedFor = some args.candidateId) :
    node.ElectionEffect
      { node.adoptTerm args.term with votedFor := some args.candidateId } := by
  by_cases higher : node.currentTerm < args.term
  · have adopted : node.adoptTerm args.term = node.follow args.term :=
      if_pos higher
    rw [adopted]
    exact .follows rfl
  · have unchanged : node.adoptTerm args.term = node := if_neg higher
    rw [unchanged] at canVote ⊢
    refine .stays rfl rfl ?_
    intro candidate voted
    rw [voted] at canVote
    rcases canVote with noVote | sameVote
    · cases noVote
    · exact sameVote.symm

theorem electionEffect_accept (node : RaftNode) (args : AppendEntriesArgs) :
    node.ElectionEffect ((node.adoptTerm args.term).appendToLog args).1 := by
  obtain ⟨log, commitIndex, appended⟩ :=
    (node.adoptTerm args.term).appendToLog_eq args
  rw [appended]
  cases node.electionEffect_adoptTerm args.term with
  | stays state term vote => exact .stays state term vote
  | follows state => exact .follows state
  | stands state vote => exact .stands state vote

def Leads (node : RaftNode) : NodeInput → Prop
  | .message (.requestVoteResponse reply) =>
    reply.voteGranted = true ∧ reply.term ≤ node.currentTerm ∧
      node.state = .candidate
  | _ => False

instance (node : RaftNode) : DecidablePred node.Leads
  | .message (.requestVoteResponse _) => inferInstanceAs (Decidable (_ ∧ _))
  | .electionTimeout | .message (.requestVote _)
  | .message (.appendEntries _) | .message (.appendEntriesResponse _)
  | .message (.clientRequest _) | .message .clientResponse =>
    inferInstanceAs (Decidable False)

theorem handleInput_of_leads {input : NodeInput} (leads : node.Leads input) :
    node.state = .candidate ∧ node.handleInput input = node.becomeLeader := by
  cases input with
  | electionTimeout => cases leads
  | message message =>
    cases message with
    | requestVoteResponse reply =>
      obtain ⟨granted, notHigher, stands⟩ := leads
      refine ⟨stands, ?_⟩
      rw [handleInput, handleMessage, handleRequestVoteResponse,
        if_neg (UInt64.not_lt.mpr notHigher), if_pos ⟨granted, stands⟩]
    | requestVote args => cases leads
    | appendEntries args => cases leads
    | appendEntriesResponse reply => cases leads
    | clientRequest args => cases leads
    | clientResponse => cases leads

theorem electionEffect_handleInput
    {input : NodeInput} (notLeads : ¬node.Leads input) :
    node.ElectionEffect (node.handleInput input) := by
  have effect := node.effect_handleInput input
  generalize node.handleInput input = next at effect ⊢
  cases effect with
  | unchanged | records _ =>
    exact .stays rfl rfl fun _ voted => voted
  | stands _ => exact .stands rfl rfl
  | follows _ => exact .follows rfl
  | adopts => exact node.electionEffect_adoptTerm _
  | votes canVote => exact electionEffect_grant canVote
  | leads notHigher granted candidate =>
    exact absurd ⟨granted, notHigher, candidate⟩ notLeads
  | accepts _ => exact node.electionEffect_accept _
  | advances =>
    obtain ⟨commitIndex, advanced⟩ := node.advanceCommit_eq
    rw [advanced]
    exact .stays rfl rfl fun _ voted => voted

theorem mem_insertPeers
    {peers : List NodeId} {value : UInt64} {indices : FiniteMap NodeId UInt64}
    {peer : NodeId} (member : peer ∈ insertPeers peers value indices) :
    peer ∈ peers ∨ peer ∈ indices := by
  induction peers generalizing indices with
  | nil => exact .inr member
  | cons first rest inductionHypothesis =>
    rcases inductionHypothesis member with inRest | inserted
    · exact .inl (mem_cons_of_mem _ inRest)
    · rcases (AList.mem_insert _).mp inserted with rfl | earlier
      · exact .inl mem_cons_self
      · exact .inr earlier

theorem handleInput_indices (node : RaftNode) (input : NodeInput) :
    (node.handleInput input).config = node.config ∧
      ((node.handleInput input).matchIndex = node.matchIndex ∨
        (node.handleInput input).matchIndex =
          insertPeers node.config.peers 0 node.matchIndex) := by
  have effect := node.effect_handleInput input
  generalize node.handleInput input = next at effect ⊢
  cases effect with
  | unchanged | stands _ | follows _ | records _ => exact ⟨rfl, .inl rfl⟩
  | leads _ _ _ => exact ⟨rfl, .inr rfl⟩
  | @adopts args =>
    obtain ⟨_, _, _, adopted⟩ := node.adoptTerm_eq args.term
    rw [adopted]
    exact ⟨rfl, .inl rfl⟩
  | @votes args _ =>
    obtain ⟨_, _, _, adopted⟩ := node.adoptTerm_eq args.term
    rw [adopted]
    exact ⟨rfl, .inl rfl⟩
  | @accepts args _ =>
    obtain ⟨_, _, _, adopted⟩ := node.adoptTerm_eq args.term
    obtain ⟨_, _, appended⟩ := (node.adoptTerm args.term).appendToLog_eq args
    rw [appended, adopted]
    exact ⟨rfl, .inl rfl⟩
  | advances =>
    obtain ⟨_, advanced⟩ := node.advanceCommit_eq
    rw [advanced]
    exact ⟨rfl, .inl rfl⟩

theorem KnowsPeers.handleInput
    (knowsPeers : node.KnowsPeers) (input : NodeInput) :
    (node.handleInput input).KnowsPeers := by
  obtain ⟨sameConfig, isIndex⟩ := node.handleInput_indices input
  intro peer member
  rw [sameConfig]
  rcases isIndex with unchanged | inserted
  · rw [unchanged] at member
    exact knowsPeers peer member
  · rw [inserted] at member
    exact (mem_insertPeers member).elim id (knowsPeers peer)

end RaftNode

/-!
## Runs that count votes
-/

/-- What a node handles, with the peer that a message is from. -/
inductive PeerInput where
  | electionTimeout
  | message (sender : NodeId) (message : RaftMessage)
  deriving Repr, DecidableEq

structure GrantedVote where
  peer : NodeId
  term : UInt64
  deriving Repr, DecidableEq

namespace PeerInput

def content : PeerInput → NodeInput
  | .electionTimeout => .electionTimeout
  | .message _ received => .message received

def grantedVotes : PeerInput → List GrantedVote
  | .message sender (.requestVoteResponse reply) =>
    if reply.voteGranted then [⟨sender, reply.term⟩] else []
  | _ => []

end PeerInput

structure ElectingNode where
  node : RaftNode
  granted : List GrantedVote

namespace ElectingNode

def start (config : RaftConfig) : ElectingNode where
  node := .new config
  granted := []

def handle (electing : ElectingNode) (input : PeerInput) : ElectingNode where
  node := electing.node.handleInput input.content
  granted := input.grantedVotes ++ electing.granted

def Step (electing : ElectingNode) (input : PeerInput) (next : ElectingNode) :
    Prop :=
  electing.handle input = next

def voters (node : RaftNode) (granted : List GrantedVote) (term : UInt64) :
    Finset NodeId :=
  node.config.peers.toFinset.filter fun peer => ⟨peer, term⟩ ∈ granted

/-- Votes of peers make a majority with the own vote, in the current term. -/
def HasMajority (node : RaftNode) (granted : List GrantedVote) : Prop :=
  node.config.peers.length + 1 <
    2 * ((voters node granted node.currentTerm).card + 1)

instance (node : RaftNode) (granted : List GrantedVote) :
    Decidable (HasMajority node granted) :=
  inferInstanceAs (Decidable (_ < _))

/-- A leader has voted for itself and has received a majority of votes. -/
def LeadsElected (electing : ElectingNode) : Prop :=
  electing.node.state = .leader →
    electing.node.votedFor = some electing.node.config.nodeId ∧
      HasMajority electing.node electing.granted

/-- A candidate becomes leader with a vote that completes a majority. -/
def CountsVotes (electing : ElectingNode) (input : PeerInput) : Prop :=
  electing.node.Leads input.content →
    HasMajority electing.node (input.grantedVotes ++ electing.granted)

instance (electing : ElectingNode) : DecidablePred electing.CountsVotes :=
  fun _ => inferInstanceAs (Decidable (_ → _))

/-- Only peers have match indices, and who does not follow votes for itself. -/
structure Valid (electing : ElectingNode) : Prop where
  knowsPeers : electing.node.KnowsPeers
  votesForSelf : electing.node.state ≠ .follower →
    electing.node.votedFor = some electing.node.config.nodeId

theorem HasMajority.mono {node next : RaftNode} {granted : List GrantedVote}
    (majority : HasMajority node granted)
    (sameConfig : next.config = node.config)
    (sameTerm : next.currentTerm = node.currentTerm) (more : List GrantedVote) :
    HasMajority next (more ++ granted) := by
  have grows :
      voters node granted node.currentTerm ⊆
        voters next (more ++ granted) next.currentTerm := by
    intro peer member
    obtain ⟨isPeer, voted⟩ := Finset.mem_filter.mp member
    refine Finset.mem_filter.mpr ⟨?_, ?_⟩
    · rw [sameConfig]
      exact isPeer
    · rw [sameTerm]
      exact mem_append_right _ voted
  have enough := Finset.card_le_card grows
  rw [HasMajority] at majority ⊢
  rw [sameConfig]
  omega

theorem valid_start (config : RaftConfig) : (start config).Valid := by
  refine ⟨?_, fun notFollower => absurd rfl notFollower⟩
  intro peer member
  rcases RaftNode.mem_insertPeers member with isPeer | absent
  · exact isPeer
  · cases absent

theorem Valid.step
    {electing next : ElectingNode} {input : PeerInput} (valid : electing.Valid)
    (step : Step electing input next) :
    next.Valid := by
  subst step
  refine ⟨valid.knowsPeers.handleInput input.content, ?_⟩
  obtain ⟨sameConfig, _⟩ := electing.node.handleInput_indices input.content
  intro notFollower
  rw [handle] at notFollower ⊢
  dsimp only at notFollower ⊢
  by_cases leads : electing.node.Leads input.content
  · obtain ⟨stands, becomes⟩ := RaftNode.handleInput_of_leads leads
    rw [sameConfig, becomes]
    exact valid.votesForSelf (by rw [stands]; decide)
  · cases RaftNode.electionEffect_handleInput leads with
    | stays state _ vote =>
      rw [state] at notFollower
      rw [sameConfig]
      exact vote _ (valid.votesForSelf notFollower)
    | follows state => exact absurd state notFollower
    | stands _ vote =>
      rw [sameConfig]
      exact vote

theorem leadsElected_iff_of_step
    {electing next : ElectingNode} {input : PeerInput} (valid : electing.Valid)
    (elected : electing.LeadsElected) (step : Step electing input next) :
    next.LeadsElected ↔ electing.CountsVotes input := by
  have validNext := valid.step step
  subst step
  obtain ⟨sameConfig, _⟩ := electing.node.handleInput_indices input.content
  by_cases leads : electing.node.Leads input.content
  · obtain ⟨_, becomes⟩ := RaftNode.handleInput_of_leads leads
    have isLeader : (electing.handle input).node.state = .leader := by
      rw [handle, becomes]
      rfl
    have majorityIff :
        HasMajority (electing.handle input).node
            (electing.handle input).granted ↔
          HasMajority electing.node
            (input.grantedVotes ++ electing.granted) := by
      rw [handle]
      dsimp only
      rw [becomes]
      rfl
    have votesForSelf := validNext.votesForSelf (by rw [isLeader]; decide)
    rw [LeadsElected, CountsVotes, ← majorityIff]
    constructor
    · intro electedNext _
      exact (electedNext isLeader).2
    · intro counts _
      exact ⟨votesForSelf, counts leads⟩
  · refine iff_of_true ?_ (fun isReply => absurd isReply leads)
    intro isLeader
    cases RaftNode.electionEffect_handleInput leads with
    | stays state term vote =>
      obtain ⟨votesForSelf, majority⟩ := elected (state.symm.trans isLeader)
      have keptVote := vote _ votesForSelf
      rw [← sameConfig] at keptVote
      exact ⟨keptVote, majority.mono sameConfig term _⟩
    | follows state =>
      rw [handle, state] at isLeader
      cases isLeader
    | stands state _ =>
      rw [handle, state] at isLeader
      cases isLeader

theorem step_functional
    {electing first second : ElectingNode} {input : PeerInput}
    (firstStep : Step electing input first)
    (secondStep : Step electing input second) :
    first = second :=
  firstStep.symm.trans secondStep

/--
Every reply to a leader, in any state, raises the commit index to an index that
is replicated only.  In every run of a new node its match indices are of peers,
and it leads only with its own vote and a majority of votes of its term, at every
time, exactly when every vote that makes it leader completes such a majority.
-/
theorem commits_replicated_and_elected_iff {config : RaftConfig}
    {inputs : List PeerInput} {final : ElectingNode}
    (run : Run Step (start config) inputs final) :
    (∀ (node : RaftNode) (reply : AppendEntriesReply),
        node.CommitsReplicated reply) ∧
      final.node.KnowsPeers ∧
        ((∀ passed remaining middle,
            inputs = passed ++ remaining →
              Run Step (start config) passed middle → middle.LeadsElected) ↔
          Run (Restrict Step CountsVotes) (start config) inputs final) := by
  have valid : final.Valid :=
    run.preserves (fun valid step => valid.step step) (valid_start config)
  have electedAtStart : (start config).LeadsElected := by
    intro isLeader
    cases isLeader
  refine ⟨RaftNode.commitsReplicated, valid.knowsPeers, ?_⟩
  exact run.always_iff_restrict step_functional (valid_start config)
    electedAtStart fun valid elected step =>
      ⟨valid.step step, leadsElected_iff_of_step valid elected step⟩

/-- A node with four peers. -/
def fiveNodes : RaftConfig :=
  ⟨"n1", ["n2", "n3", "n4", "n5"]⟩

/-- A node with two peers that stands for election and receives a vote. -/
def threeNodes : RaftConfig :=
  ⟨"n1", ["n2", "n3"]⟩

/-- The inputs of a node that becomes candidate and receives one vote. -/
def oneVote : List PeerInput :=
  [.electionTimeout, .message "n2" (.requestVoteResponse ⟨1, true⟩)]

/-- Of three nodes, one vote besides the own one is a majority. -/
theorem threeNodes_elected :
    ∃ final, Run Step (start threeNodes) oneVote final ∧
      final.node.state = .leader ∧ final.LeadsElected := by
  let final := oneVote.foldl handle (start threeNodes)
  have along : Along handle CountsVotes (start threeNodes) oneVote :=
    ⟨by decide, by decide, trivial⟩
  have restricted :
      Run (Restrict Step CountsVotes) (start threeNodes) oneVote final :=
    .ofAlong (fun counts => ⟨counts, rfl⟩) along
  have run := restricted.ofRestrict
  obtain ⟨_, _, electedIff⟩ := commits_replicated_and_elected_iff run
  exact ⟨final, run, by decide,
    electedIff.mpr restricted oneVote [] final (by simp) run⟩

/-- Of five nodes, one vote makes a leader that has no majority. -/
theorem fiveNodes_not_elected :
    ∃ final, Run Step (start fiveNodes) oneVote final ∧
      final.node.state = .leader ∧ ¬final.LeadsElected := by
  refine ⟨oneVote.foldl handle (start fiveNodes),
    .ofFoldl (fun _ _ => rfl) _ _, by decide, ?_⟩
  intro elected
  exact absurd (elected (by decide)).2 (by decide)

end ElectingNode

end ChronoDB.Raft
