import ChronoDB.Library.Transition
import ChronoDB.Raft.Node
import Mathlib.Data.Finset.Card

namespace ChronoDB.Raft

open Library

/-!
# Elections in a cluster

Nodes exchange vote requests and the replies computed for them.  A message that
was sent can be delivered at any later time, more than once or never.  A node
becomes leader with any granted vote, so two nodes can lead in one term; in runs
where a node only does so when a majority has voted for it, they cannot.
-/

/-- A vote that a node has cast, for itself or by a reply. -/
structure Vote where
  voter : NodeId
  candidate : NodeId
  term : UInt64
  deriving Repr, DecidableEq

/--
The nodes by their ids, the requests and replies that were sent, with their
receivers, and the votes that were cast.
-/
structure Cluster where
  members : Finset NodeId
  nodes : NodeId → RaftNode
  requests : List (NodeId × RequestVoteArgs)
  replies : List (NodeId × RequestVoteReply)
  votes : List Vote

inductive ClusterAction where
  | electionTimeout (node : NodeId)
  | deliverRequest (receiver : NodeId) (args : RequestVoteArgs)
  | deliverReply (receiver : NodeId) (reply : RequestVoteReply)
  deriving Repr, DecidableEq

namespace Cluster

def start (members : Finset NodeId) (peers : NodeId → List NodeId) : Cluster where
  members := members
  nodes := fun id => .new ⟨id, peers id⟩
  requests := []
  replies := []
  votes := []

/-- A cluster with another state of one node. -/
def setNode (cluster : Cluster) (id : NodeId) (node : RaftNode) : Cluster :=
  { cluster with nodes := Function.update cluster.nodes id node }

/-- An election timeout; a node that becomes candidate votes for itself. -/
def electionTimeout (cluster : Cluster) (id : NodeId) : Cluster :=
  let node := cluster.nodes id
  let (next, requests) := node.handleElectionTimeout
  { cluster.setNode id next with
    requests := cluster.requests ++ requests
    votes :=
      if node.state = .leader then cluster.votes
      else ⟨id, id, next.currentTerm⟩ :: cluster.votes }

def deliverRequest
    (cluster : Cluster) (receiver : NodeId) (args : RequestVoteArgs) :
    Cluster :=
  let (next, reply) := (cluster.nodes receiver).handleRequestVote args
  { cluster.setNode receiver next with
    replies :=
      cluster.replies ++ reply.toList.map fun reply => (args.candidateId, reply)
    votes :=
      (reply.toList.filter RequestVoteReply.voteGranted).map
          (fun reply => ⟨receiver, args.candidateId, reply.term⟩) ++
        cluster.votes }

def deliverReply
    (cluster : Cluster) (receiver : NodeId) (reply : RequestVoteReply) :
    Cluster :=
  cluster.setNode receiver
    ((cluster.nodes receiver).handleRequestVoteResponse reply)

def perform (cluster : Cluster) : ClusterAction → Cluster
  | .electionTimeout id => cluster.electionTimeout id
  | .deliverRequest receiver args => cluster.deliverRequest receiver args
  | .deliverReply receiver reply => cluster.deliverReply receiver reply

/-- Members time out, and receive what was sent to them. -/
def Possible (cluster : Cluster) : ClusterAction → Prop
  | .electionTimeout id => id ∈ cluster.members
  | .deliverRequest receiver args =>
    receiver ∈ cluster.members ∧ (receiver, args) ∈ cluster.requests
  | .deliverReply receiver reply =>
    receiver ∈ cluster.members ∧ (receiver, reply) ∈ cluster.replies

instance (cluster : Cluster) : DecidablePred cluster.Possible
  | .electionTimeout id => inferInstanceAs (Decidable (id ∈ cluster.members))
  | .deliverRequest _ _ | .deliverReply _ _ =>
    inferInstanceAs (Decidable (_ ∧ _))

def Step (cluster : Cluster) (action : ClusterAction) (after : Cluster) :
    Prop :=
  cluster.Possible action ∧ cluster.perform action = after

def voters (cluster : Cluster) (candidate : NodeId) (term : UInt64) :
    Finset NodeId :=
  cluster.members.filter fun voter => ⟨voter, candidate, term⟩ ∈ cluster.votes

/-- A majority of the members has voted for a candidate in a term. -/
def Elected (cluster : Cluster) (candidate : NodeId) (term : UInt64) : Prop :=
  cluster.members.card < 2 * (cluster.voters candidate term).card

instance (cluster : Cluster) (candidate : NodeId) (term : UInt64) :
    Decidable (cluster.Elected candidate term) :=
  inferInstanceAs (Decidable (_ < _))

/--
The steps that count votes and terms: a candidate that is granted a vote has
those of a majority in its term, and no node times out in the last term.
-/
def Counts (cluster : Cluster) : ClusterAction → Prop
  | .electionTimeout id =>
    (cluster.nodes id).state ≠ .leader → (cluster.nodes id).currentTerm + 1 ≠ 0
  | .deliverRequest _ _ => True
  | .deliverReply receiver reply =>
    reply.voteGranted = true →
      reply.term ≤ (cluster.nodes receiver).currentTerm →
        (cluster.nodes receiver).state = .candidate →
          cluster.Elected receiver (cluster.nodes receiver).currentTerm

instance (cluster : Cluster) : DecidablePred cluster.Counts
  | .electionTimeout _ | .deliverReply _ _ =>
    inferInstanceAs (Decidable (_ → _))
  | .deliverRequest _ _ => inferInstanceAs (Decidable True)

def ElectionSafe (earlier later : Cluster) : Prop :=
  ∀ first ∈ earlier.members, ∀ second ∈ later.members,
    (earlier.nodes first).state = .leader →
      (later.nodes second).state = .leader →
        (earlier.nodes first).currentTerm = (later.nodes second).currentTerm →
          first = second

end Cluster

/-!
## What a handler does to a vote
-/

namespace RaftNode

/--
A node keeps its votes when its term does not fall, and its vote stays while the
term does.  It also keeps its name.
-/
structure KeepsVotes (node next : RaftNode) : Prop where
  config : next.config = node.config
  term : node.currentTerm ≤ next.currentTerm
  vote : next.currentTerm = node.currentTerm →
    ∀ candidate, node.votedFor = some candidate → next.votedFor = some candidate

theorem keepsVotes_follow
    {node : RaftNode} {term : UInt64} (higher : node.currentTerm < term) :
    node.KeepsVotes (node.follow term) where
  config := rfl
  term := UInt64.le_of_lt higher
  vote := fun same => absurd same (UInt64.ne_of_lt higher).symm

theorem keepsVotes_adoptTerm (node : RaftNode) (term : UInt64) :
    node.KeepsVotes (node.adoptTerm term) := by
  rw [adoptTerm]
  split
  · rename_i higher
    exact keepsVotes_follow higher
  · exact ⟨rfl, UInt64.le_refl _, fun _ _ voted => voted⟩

theorem adoptTerm_of_leader {node : RaftNode} {term : UInt64}
    (leads : (node.adoptTerm term).state = .leader) :
    node.adoptTerm term = node := by
  rw [adoptTerm] at leads ⊢
  split
  · rename_i higher
    rw [if_pos higher] at leads
    cases leads
  · rfl

theorem keepsVotes_grant {node : RaftNode} {args : RequestVoteArgs}
    (canVote :
      (node.adoptTerm args.term).votedFor = none ∨
        (node.adoptTerm args.term).votedFor = some args.candidateId) :
    node.KeepsVotes
      { node.adoptTerm args.term with votedFor := some args.candidateId } := by
  have adopted := node.keepsVotes_adoptTerm args.term
  refine ⟨adopted.config, adopted.term, fun same candidate voted => ?_⟩
  have votedStill := adopted.vote same candidate voted
  rcases canVote with noVote | sameVote
  · rw [noVote] at votedStill
    cases votedStill
  · rw [← votedStill, sameVote]

theorem keepsVotes_candidate
    {node : RaftNode} (noWrap : node.currentTerm + 1 ≠ 0) (id : NodeId) :
    node.KeepsVotes
      { node with
        state := .candidate
        currentTerm := node.currentTerm + 1
        votedFor := some id } := by
  have higher : node.currentTerm < node.currentTerm + 1 := by
    have bound := node.currentTerm.toNat_lt
    have noWrapNat : (node.currentTerm + 1).toNat ≠ 0 := fun zero =>
      noWrap (UInt64.toNat_inj.mp zero)
    rw [UInt64.toNat_add] at noWrapNat
    rw [UInt64.lt_iff_toNat_lt, UInt64.toNat_add]
    simp only [UInt64.reduceToNat] at noWrapNat ⊢
    omega
  exact ⟨rfl, UInt64.le_of_lt higher, fun same =>
    absurd same (UInt64.ne_of_lt higher).symm⟩

end RaftNode

/-!
## Votes are backed by the voters, leaders by a majority
-/

namespace Cluster

/--
A voter has reached the terms it voted in, and remembers its vote while it is in
that term.  It votes once in a term.  Leaders are elected.
-/
structure Invariant (cluster : Cluster) : Prop where
  named : ∀ id, (cluster.nodes id).config.nodeId = id
  backed : ∀ vote ∈ cluster.votes,
    vote.term ≤ (cluster.nodes vote.voter).currentTerm ∧
      ((cluster.nodes vote.voter).currentTerm = vote.term →
        (cluster.nodes vote.voter).votedFor = some vote.candidate)
  unique : ∀ vote ∈ cluster.votes, ∀ other ∈ cluster.votes,
    vote.voter = other.voter → vote.term = other.term →
      vote.candidate = other.candidate
  elected : ∀ id ∈ cluster.members, (cluster.nodes id).state = .leader →
    cluster.Elected id (cluster.nodes id).currentTerm

/-- The same members have cast at least the same votes. -/
structure Grows (before after : Cluster) : Prop where
  members : after.members = before.members
  votes : ∀ vote ∈ before.votes, vote ∈ after.votes

variable {before after : Cluster} {cluster : Cluster} {id : NodeId}

/-- Every step adds to the votes that were cast. -/
theorem Step.grows {action : ClusterAction} (step : Step before action after) :
    before.Grows after := by
  obtain ⟨_, rfl⟩ := step
  cases action with
  | electionTimeout id =>
    refine ⟨rfl, fun vote voted => ?_⟩
    rw [perform, Cluster.electionTimeout]
    dsimp only
    split
    · exact voted
    · exact List.mem_cons_of_mem _ voted
  | deliverRequest receiver args =>
    exact ⟨rfl, fun vote voted => List.mem_append_right _ voted⟩
  | deliverReply receiver reply =>
    exact ⟨rfl, fun _ voted => voted⟩

theorem grows_of_run
    {actions : List ClusterAction} (run : Run Step before actions after) :
    before.Grows after := by
  apply run.relates
  · exact fun _ => ⟨rfl, fun _ voted => voted⟩
  · intro first second third firstSecond secondThird
    exact ⟨secondThird.members.trans firstSecond.members,
      fun vote voted => secondThird.votes vote (firstSecond.votes vote voted)⟩
  · exact Step.grows

theorem Elected.mono {candidate : NodeId} {term : UInt64}
    (elected : before.Elected candidate term) (grown : before.Grows after) :
    after.Elected candidate term := by
  obtain ⟨sameMembers, grows⟩ := grown
  have more : before.voters candidate term ⊆ after.voters candidate term := by
    intro voter member
    obtain ⟨isMember, voted⟩ := Finset.mem_filter.mp member
    apply Finset.mem_filter.mpr
    exact ⟨sameMembers ▸ isMember, grows _ voted⟩
  have enough := Finset.card_le_card more
  rw [Elected, sameMembers]
  rw [Elected] at elected
  omega

theorem Invariant.update {next : RaftNode} (invariant : before.Invariant)
    (sameMembers : after.members = before.members)
    (updated : after.nodes = Function.update before.nodes id next)
    (grows : ∀ vote ∈ before.votes, vote ∈ after.votes)
    (cast :
      ∀ vote ∈ after.votes,
        vote ∈ before.votes ∨
          vote.voter = id ∧ vote.term = next.currentTerm ∧
            next.votedFor = some vote.candidate)
    (keeps : (before.nodes id).KeepsVotes next)
    (leads : next.state = .leader → after.Elected id next.currentTerm) :
    after.Invariant := by
  have nodeOf : ∀ other, after.nodes other =
      if other = id then next else before.nodes other := by
    intro other
    rw [updated, Function.update_apply]
  have backed : ∀ vote ∈ after.votes,
      vote.term ≤ (after.nodes vote.voter).currentTerm ∧
        ((after.nodes vote.voter).currentTerm = vote.term →
          (after.nodes vote.voter).votedFor = some vote.candidate) := by
    intro vote member
    rcases cast vote member with earlier | ⟨isVoter, isTerm, voted⟩
    · obtain ⟨reached, remembers⟩ := invariant.backed vote earlier
      rw [nodeOf]
      split
      · rename_i isId
        rw [isId] at reached remembers
        refine ⟨UInt64.le_trans reached keeps.term, fun sameTerm => ?_⟩
        have unchanged : next.currentTerm = (before.nodes id).currentTerm :=
          UInt64.le_antisymm (sameTerm ▸ reached) keeps.term
        exact keeps.vote unchanged _ (remembers (unchanged ▸ sameTerm))
      · exact ⟨reached, remembers⟩
    · rw [nodeOf, if_pos isVoter, isTerm]
      exact ⟨UInt64.le_refl _, fun _ => voted⟩
  have sameCandidate : ∀ vote ∈ after.votes, ∀ other ∈ after.votes,
      vote.voter = other.voter → vote.term = other.term →
        vote.voter = id → vote.term = next.currentTerm →
          vote.candidate = other.candidate := by
    intro vote member other otherMember sameVoter sameTerm isId isTerm
    have voted := (backed vote member).2
    have otherVoted := (backed other otherMember).2
    rw [nodeOf, if_pos isId] at voted
    rw [nodeOf, if_pos (sameVoter ▸ isId)] at otherVoted
    have isCandidate := voted isTerm.symm
    rw [otherVoted (sameTerm ▸ isTerm.symm)] at isCandidate
    exact (Option.some.inj isCandidate).symm
  refine ⟨?_, backed, ?_, ?_⟩
  · intro other
    rw [nodeOf]
    split
    · rename_i isId
      rw [keeps.config, isId]
      exact invariant.named id
    · exact invariant.named other
  · intro vote member other otherMember sameVoter sameTerm
    rcases cast vote member with earlier | ⟨isVoter, isTerm, _⟩
    · rcases cast other otherMember with otherEarlier | ⟨isVoter, isTerm, _⟩
      · exact invariant.unique vote earlier other otherEarlier sameVoter
          sameTerm
      · exact (sameCandidate other otherMember vote member sameVoter.symm
          sameTerm.symm isVoter isTerm).symm
    · exact sameCandidate vote member other otherMember sameVoter sameTerm
        isVoter isTerm
  · intro member isMember isLeader
    rw [nodeOf] at isLeader ⊢
    split
    · rename_i isId
      rw [if_pos isId] at isLeader
      rw [isId]
      exact leads isLeader
    · rename_i notId
      rw [if_neg notId] at isLeader
      exact (invariant.elected member (sameMembers ▸ isMember) isLeader).mono
        ⟨sameMembers, grows⟩

theorem Invariant.updateNode {next : RaftNode} (invariant : before.Invariant)
    (sameMembers : after.members = before.members)
    (updated : after.nodes = Function.update before.nodes id next)
    (sameVotes : after.votes = before.votes)
    (keeps : (before.nodes id).KeepsVotes next)
    (leads : next.state = .leader → before.Elected id next.currentTerm) :
    after.Invariant := by
  have grows : ∀ vote ∈ before.votes, vote ∈ after.votes :=
    fun _ member => sameVotes ▸ member
  apply invariant.update sameMembers updated grows
  · intro vote member
    exact .inl (sameVotes ▸ member)
  · exact keeps
  · intro isLeader
    exact (leads isLeader).mono ⟨sameMembers, grows⟩

theorem Invariant.electionTimeout
    (invariant : cluster.Invariant) (member : id ∈ cluster.members)
    (counts : cluster.Counts (.electionTimeout id)) :
    (cluster.electionTimeout id).Invariant := by
  have sameMembers :
      (cluster.electionTimeout id).members = cluster.members := rfl
  by_cases leads : (cluster.nodes id).state = .leader
  · have unchanged :
        (cluster.nodes id).handleElectionTimeout = (cluster.nodes id, []) :=
      if_pos leads
    have isNext :
        (cluster.electionTimeout id).nodes =
          Function.update cluster.nodes id (cluster.nodes id) :=
      congrArg (Function.update cluster.nodes id) (congrArg Prod.fst unchanged)
    have sameVotes : (cluster.electionTimeout id).votes = cluster.votes :=
      if_pos leads
    apply invariant.updateNode sameMembers isNext sameVotes
    · exact ⟨rfl, UInt64.le_refl _, fun _ _ voted => voted⟩
    · exact invariant.elected id member
  · have isCandidate :
        (cluster.nodes id).handleElectionTimeout.1 =
          { cluster.nodes id with
            state := .candidate
            currentTerm := (cluster.nodes id).currentTerm + 1
            votedFor := some (cluster.nodes id).config.nodeId } :=
      congrArg Prod.fst (if_neg leads)
    have isNext :
        (cluster.electionTimeout id).nodes =
          Function.update cluster.nodes id
            (cluster.nodes id).handleElectionTimeout.1 := rfl
    have isVotes :
        (cluster.electionTimeout id).votes =
          ⟨id, id, (cluster.nodes id).handleElectionTimeout.1.currentTerm⟩ ::
            cluster.votes :=
      if_neg leads
    rw [isCandidate] at isNext isVotes
    apply invariant.update sameMembers isNext
    · intro vote voted
      rw [isVotes]
      exact List.mem_cons_of_mem _ voted
    · intro vote voted
      rw [isVotes, List.mem_cons] at voted
      rcases voted with rfl | earlier
      · exact .inr ⟨rfl, rfl, congrArg some (invariant.named id)⟩
      · exact .inl earlier
    · exact RaftNode.keepsVotes_candidate (counts leads) _
    · intro isLeader
      cases isLeader

theorem Invariant.deliverRequest
    {receiver : NodeId} (invariant : cluster.Invariant)
    (member : receiver ∈ cluster.members) (args : RequestVoteArgs) :
    (cluster.deliverRequest receiver args).Invariant := by
  have sameMembers :
      (cluster.deliverRequest receiver args).members = cluster.members := rfl
  have isNext :
      (cluster.deliverRequest receiver args).nodes =
        Function.update cluster.nodes receiver
          ((cluster.nodes receiver).handleRequestVote args).1 := rfl
  have isVotes :
      (cluster.deliverRequest receiver args).votes =
        (((cluster.nodes receiver).handleRequestVote args).2.toList.filter
            RequestVoteReply.voteGranted).map
            (fun reply => ⟨receiver, args.candidateId, reply.term⟩) ++
          cluster.votes := rfl
  have electedStill :
      ((cluster.nodes receiver).adoptTerm args.term).state = .leader →
        cluster.Elected receiver
          ((cluster.nodes receiver).adoptTerm args.term).currentTerm := by
    intro leads
    have unchanged := RaftNode.adoptTerm_of_leader leads
    rw [unchanged] at leads ⊢
    exact invariant.elected receiver member leads
  rcases (cluster.nodes receiver).handleRequestVote_cases args with
    refused | silent | ⟨canVote, granted⟩
  · rw [refused] at isNext isVotes
    apply invariant.updateNode sameMembers isNext isVotes
    · exact ⟨rfl, UInt64.le_refl _, fun _ _ voted => voted⟩
    · exact invariant.elected receiver member
  · rw [silent] at isNext isVotes
    apply invariant.updateNode sameMembers isNext isVotes
    · exact (cluster.nodes receiver).keepsVotes_adoptTerm args.term
    · exact electedStill
  · rw [granted] at isNext isVotes
    have grows : ∀ vote ∈ cluster.votes,
        vote ∈ (cluster.deliverRequest receiver args).votes := by
      intro vote voted
      rw [isVotes]
      exact List.mem_append_right _ voted
    apply invariant.update sameMembers isNext grows
    · intro vote voted
      rw [isVotes] at voted
      rcases List.mem_cons.mp voted with rfl | earlier
      · exact .inr ⟨rfl, rfl, rfl⟩
      · exact .inl earlier
    · exact RaftNode.keepsVotes_grant canVote
    · intro leads
      exact (electedStill leads).mono ⟨sameMembers, grows⟩

theorem Invariant.deliverReply {receiver : NodeId} {reply : RequestVoteReply}
    (invariant : cluster.Invariant) (member : receiver ∈ cluster.members)
    (counts : cluster.Counts (.deliverReply receiver reply)) :
    (cluster.deliverReply receiver reply).Invariant := by
  have sameMembers :
      (cluster.deliverReply receiver reply).members = cluster.members := rfl
  have sameVotes :
      (cluster.deliverReply receiver reply).votes = cluster.votes := rfl
  have isNext :
      (cluster.deliverReply receiver reply).nodes =
        Function.update cluster.nodes receiver
          ((cluster.nodes receiver).handleRequestVoteResponse reply) := rfl
  apply invariant.updateNode sameMembers isNext sameVotes
  · rw [RaftNode.handleRequestVoteResponse]
    split
    · rename_i higher
      exact RaftNode.keepsVotes_follow higher
    · split
      · exact ⟨rfl, UInt64.le_refl _, fun _ _ voted => voted⟩
      · exact ⟨rfl, UInt64.le_refl _, fun _ _ voted => voted⟩
  · rw [RaftNode.handleRequestVoteResponse]
    split
    · intro leads
      cases leads
    · rename_i notHigher
      split
      · rename_i granted
        intro _
        exact counts granted.1 (UInt64.not_lt.mp notHigher) granted.2
      · exact invariant.elected receiver member

theorem Invariant.step {action : ClusterAction} (invariant : before.Invariant)
    (taken : Restrict Step Counts before action after) :
    after.Invariant := by
  obtain ⟨counts, possible, rfl⟩ := taken
  cases action with
  | electionTimeout id => exact invariant.electionTimeout possible counts
  | deliverRequest receiver args =>
    exact invariant.deliverRequest possible.1 args
  | deliverReply receiver reply =>
    exact invariant.deliverReply possible.1 counts

theorem invariant_start
    (members : Finset NodeId) (peers : NodeId → List NodeId) :
    (start members peers).Invariant where
  named := fun _ => rfl
  backed := List.forall_mem_nil _
  unique := List.forall_mem_nil _
  elected := by
    intro id _ leads
    cases leads

theorem voters_subset (cluster : Cluster) (candidate : NodeId) (term : UInt64) :
    cluster.voters candidate term ⊆ cluster.members :=
  Finset.filter_subset _ _

theorem Invariant.eq_of_elected
    (invariant : cluster.Invariant) {first second : NodeId} {term : UInt64}
    (firstElected : cluster.Elected first term)
    (secondElected : cluster.Elected second term) :
    first = second := by
  have overlap :
      cluster.members.card <
        (cluster.voters first term).card +
          (cluster.voters second term).card := by
    rw [Elected] at firstElected secondElected
    omega
  obtain ⟨voter, inBoth⟩ :=
    Finset.inter_nonempty_of_card_lt_card_add_card
      (voters_subset _ _ _) (voters_subset _ _ _) overlap
  obtain ⟨inFirst, inSecond⟩ := Finset.mem_inter.mp inBoth
  exact invariant.unique _ (Finset.mem_filter.mp inFirst).2
    _ (Finset.mem_filter.mp inSecond).2 rfl rfl

theorem Invariant.run
    {actions : List ClusterAction} (invariant : before.Invariant)
    (run : Run (Restrict Step Counts) before actions after) :
    after.Invariant := by
  apply run.preserves
  · exact Invariant.step
  · exact invariant

/--
In every run of a cluster whose steps count votes, a node that leads is the only
one that ever leads in its term, whatever the order and number of deliveries.
-/
theorem electionSafe_of_counting_run {members : Finset NodeId}
    {peers : NodeId → List NodeId} {passed remaining : List ClusterAction}
    {earlier later : Cluster}
    (passedRun :
      Run (Restrict Step Counts) (start members peers) passed earlier)
    (remainingRun : Run (Restrict Step Counts) earlier remaining later) :
    earlier.ElectionSafe later := by
  intro first firstMember second secondMember firstLeads secondLeads sameTerm
  have earlierInvariant := (invariant_start members peers).run passedRun
  have laterInvariant := earlierInvariant.run remainingRun
  have grown := grows_of_run remainingRun.ofRestrict
  have firstElected :=
    (earlierInvariant.elected first firstMember firstLeads).mono grown
  rw [sameTerm] at firstElected
  have secondElected := laterInvariant.elected second secondMember secondLeads
  exact laterInvariant.eq_of_elected firstElected secondElected

/-- New nodes with all others as their peers. -/
def startAll (ids : List NodeId) : Cluster :=
  start ids.toFinset fun id => ids.filter (· ≠ id)

/-- The request of a new node in its first term. -/
def firstRequest (candidateId : NodeId) : RequestVoteArgs :=
  ⟨1, candidateId, 0, 0⟩

/-- One of three nodes times out and is granted the vote of another. -/
def wonElection : List ClusterAction :=
  [.electionTimeout "n1", .deliverRequest "n2" (firstRequest "n1"),
    .deliverReply "n1" ⟨1, true⟩]

/-- The only leader after an election by two of three nodes. -/
theorem electionSafe_wonElection :
    ∃ cluster,
      Run (Restrict Step Counts) (startAll ["n1", "n2", "n3"]) wonElection
          cluster ∧
        (cluster.nodes "n1").state = .leader ∧
          cluster.ElectionSafe cluster := by
  have run :
      Run (Restrict Step Counts) (startAll ["n1", "n2", "n3"]) wonElection
        (wonElection.foldl perform (startAll ["n1", "n2", "n3"])) := by
    refine .cons ⟨by decide, by decide, rfl⟩ ?_
    refine .cons ⟨by decide, by decide, rfl⟩ ?_
    exact .single ⟨by decide, by decide, rfl⟩
  exact ⟨_, run, by decide, electionSafe_of_counting_run run (.nil _)⟩

/-- Two nodes of four time out, and each is granted one of the other votes. -/
def splitVote : List ClusterAction :=
  [.electionTimeout "n1", .electionTimeout "n2",
    .deliverRequest "n3" (firstRequest "n1"),
    .deliverRequest "n4" (firstRequest "n2"),
    .deliverReply "n1" ⟨1, true⟩, .deliverReply "n2" ⟨1, true⟩]

/-- With two votes of four each, two nodes lead in the first term. -/
theorem two_leaders_after_split_vote :
    ∃ cluster,
      Run Step (startAll ["n1", "n2", "n3", "n4"]) splitVote cluster ∧
        (cluster.nodes "n1").state = .leader ∧
          (cluster.nodes "n2").state = .leader ∧
            (cluster.nodes "n1").currentTerm =
                (cluster.nodes "n2").currentTerm ∧
              ¬cluster.ElectionSafe cluster := by
  refine ⟨splitVote.foldl perform (startAll ["n1", "n2", "n3", "n4"]),
    ?_, by decide, by decide, by decide, fun safe => ?_⟩
  · refine .cons ⟨by decide, rfl⟩ ?_
    refine .cons ⟨by decide, rfl⟩ ?_
    refine .cons ⟨by decide, rfl⟩ ?_
    refine .cons ⟨by decide, rfl⟩ ?_
    refine .cons ⟨by decide, rfl⟩ ?_
    exact .single ⟨by decide, rfl⟩
  · have same := safe "n1" (by decide) "n2" (by decide) (by decide)
      (by decide) (by decide)
    exact absurd same (by decide)

end Cluster

end ChronoDB.Raft
