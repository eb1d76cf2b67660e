import ChronoDB.Raft.Commit
import ChronoDB.Raft.Election

namespace ChronoDB.Raft

open Library

/-!
# One vote in a term

The votes of one node over a run of messages and election timeouts.  A timeout
raises the term by one, which wraps in the last term: the node then falls back
to the first terms and votes in them again.  Without such a timeout the term
never falls and the node votes for one candidate in each term.
-/

structure TermVote where
  term : UInt64
  candidate : NodeId
  deriving Repr, DecidableEq

/-- A node and the votes that it has cast. -/
structure VotingNode where
  node : RaftNode
  votes : List TermVote

namespace RaftNode

def castVotes (node : RaftNode) : NodeInput → List TermVote
  | .electionTimeout =>
    if node.state = .leader then []
    else [⟨node.handleElectionTimeout.1.currentTerm, node.config.nodeId⟩]
  | .message (.requestVote args) =>
    ((node.handleRequestVote args).2.toList.filter
        RequestVoteReply.voteGranted).map
      fun reply => ⟨reply.term, args.candidateId⟩
  | .message _ => []

/-- A node that times out as a follower or candidate is not in the last term. -/
def TermCanRise (node : RaftNode) : NodeInput → Prop
  | .electionTimeout => node.state ≠ .leader → node.currentTerm + 1 ≠ 0
  | .message _ => True

instance (node : RaftNode) : DecidablePred node.TermCanRise
  | .electionTimeout => inferInstanceAs (Decidable (_ → _))
  | .message _ => inferInstanceAs (Decidable True)

end RaftNode

namespace VotingNode

/-- A node in any state, with the vote that it remembers. -/
def start (node : RaftNode) : VotingNode where
  node := node
  votes := node.votedFor.toList.map fun candidate =>
    ⟨node.currentTerm, candidate⟩

def handle (voting : VotingNode) (input : NodeInput) : VotingNode where
  node := voting.node.handleInput input
  votes := voting.node.castVotes input ++ voting.votes

def Step (voting : VotingNode) (input : NodeInput) (next : VotingNode) : Prop :=
  voting.handle input = next

/-- The steps that do not wrap the term. -/
def TermCanRise (voting : VotingNode) (input : NodeInput) : Prop :=
  voting.node.TermCanRise input

instance (voting : VotingNode) : DecidablePred voting.TermCanRise :=
  fun input => inferInstanceAs (Decidable (voting.node.TermCanRise input))

def VotesOnce (voting : VotingNode) : Prop :=
  ∀ vote ∈ voting.votes, ∀ other ∈ voting.votes,
    vote.term = other.term → vote.candidate = other.candidate

/--
The node has reached the terms that it voted in, remembers its vote while it is
in that term, and votes once in a term.
-/
structure Invariant (voting : VotingNode) : Prop where
  reached : ∀ vote ∈ voting.votes, vote.term ≤ voting.node.currentTerm
  remembers : ∀ vote ∈ voting.votes, voting.node.currentTerm = vote.term →
    voting.node.votedFor = some vote.candidate
  once : voting.VotesOnce

end VotingNode

/-!
## What a handler does to the votes
-/

namespace RaftNode

theorem keepsVotes_accept (node : RaftNode) (args : AppendEntriesArgs) :
    node.KeepsVotes ((node.adoptTerm args.term).appendToLog args).1 := by
  have adopted := node.keepsVotes_adoptTerm args.term
  obtain ⟨log, commitIndex, appended⟩ :=
    (node.adoptTerm args.term).appendToLog_eq args
  rw [appended]
  exact ⟨adopted.config, adopted.term, adopted.vote⟩

theorem keepsVotes_advanceCommit (node : RaftNode) :
    node.KeepsVotes node.advanceCommit := by
  obtain ⟨commitIndex, advanced⟩ := node.advanceCommit_eq
  rw [advanced]
  exact ⟨rfl, UInt64.le_refl _, fun _ _ voted => voted⟩

variable {node : RaftNode} {input : NodeInput}

theorem keepsVotes_handleInput (canRise : node.TermCanRise input) :
    node.KeepsVotes (node.handleInput input) := by
  have effect := node.effect_handleInput input
  generalize node.handleInput input = next at effect ⊢
  cases effect with
  | unchanged | leads _ _ _ | records _ =>
    exact ⟨rfl, UInt64.le_refl _, fun _ _ voted => voted⟩
  | stands notLeader => exact keepsVotes_candidate (canRise notLeader) _
  | follows higher => exact keepsVotes_follow higher
  | adopts => exact node.keepsVotes_adoptTerm _
  | votes canVote => exact keepsVotes_grant canVote
  | accepts _ => exact node.keepsVotes_accept _
  | advances => exact node.keepsVotes_advanceCommit

theorem remembers_castVotes
    {vote : TermVote} (cast : vote ∈ node.castVotes input) :
    vote.term = (node.handleInput input).currentTerm ∧
      (node.handleInput input).votedFor = some vote.candidate := by
  cases input with
  | electionTimeout =>
    rw [castVotes] at cast
    split at cast
    · cases cast
    · rename_i notLeader
      obtain rfl := List.mem_singleton.mp cast
      rw [handleInput, handleElectionTimeout, if_neg notLeader]
      exact ⟨rfl, rfl⟩
  | message message =>
    cases message with
    | requestVote args =>
      rw [castVotes] at cast
      rw [handleInput, handleMessage]
      rcases node.handleRequestVote_cases args with
        refused | silent | ⟨_, granted⟩
      · rw [refused] at cast
        cases cast
      · rw [silent] at cast
        cases cast
      · rw [granted] at cast ⊢
        obtain rfl := List.mem_singleton.mp cast
        exact ⟨rfl, rfl⟩
    | requestVoteResponse reply => cases cast
    | appendEntries args => cases cast
    | appendEntriesResponse reply => cases cast
    | clientRequest args => cases cast
    | clientResponse => cases cast

theorem termCanRise_of_le
    (notLower : node.currentTerm ≤ (node.handleInput input).currentTerm) :
    node.TermCanRise input := by
  cases input with
  | electionTimeout =>
    intro notLeader wraps
    have isNext :
        (node.handleInput .electionTimeout).currentTerm =
          node.currentTerm + 1 := by
      rw [handleInput, handleElectionTimeout, if_neg notLeader]
    rw [isNext, wraps, UInt64.le_iff_toNat_le, UInt64.toNat_zero] at notLower
    have isZero : node.currentTerm = 0 :=
      UInt64.toNat_inj.mp (Nat.le_zero.mp notLower)
    rw [isZero] at wraps
    exact absurd wraps (by decide)
  | message message => trivial

end RaftNode

/-!
## Runs
-/

namespace VotingNode

theorem invariant_start (node : RaftNode) : (start node).Invariant := by
  have isVote : ∀ vote ∈ (start node).votes,
      vote.term = node.currentTerm ∧ node.votedFor = some vote.candidate := by
    intro vote member
    obtain ⟨candidate, isCandidate, rfl⟩ := List.mem_map.mp member
    exact ⟨rfl, Option.mem_toList.mp isCandidate⟩
  refine ⟨?_, ?_, ?_⟩
  · intro vote member
    rw [(isVote vote member).1]
    exact UInt64.le_refl _
  · intro vote member _
    exact (isVote vote member).2
  · intro vote member other otherMember _
    have sameVote := (isVote vote member).2
    rw [(isVote other otherMember).2] at sameVote
    exact (Option.some.inj sameVote).symm

theorem Invariant.step {voting next : VotingNode} {input : NodeInput}
    (invariant : voting.Invariant) (canRise : voting.TermCanRise input)
    (step : Step voting input next) :
    next.Invariant := by
  subst step
  have keeps := RaftNode.keepsVotes_handleInput canRise
  have reached : ∀ vote ∈ (voting.handle input).votes,
      vote.term ≤ (voting.handle input).node.currentTerm := by
    intro vote member
    rcases List.mem_append.mp member with cast | earlier
    · rw [(RaftNode.remembers_castVotes cast).1]
      exact UInt64.le_refl _
    · exact UInt64.le_trans (invariant.reached vote earlier) keeps.term
  have remembers : ∀ vote ∈ (voting.handle input).votes,
      (voting.handle input).node.currentTerm = vote.term →
        (voting.handle input).node.votedFor = some vote.candidate := by
    intro vote member sameTerm
    rcases List.mem_append.mp member with cast | earlier
    · exact (RaftNode.remembers_castVotes cast).2
    · have unchanged :
          (voting.handle input).node.currentTerm = voting.node.currentTerm :=
        UInt64.le_antisymm (sameTerm ▸ invariant.reached vote earlier)
          keeps.term
      exact keeps.vote unchanged _
        (invariant.remembers vote earlier (unchanged ▸ sameTerm))
  have sameAsCast : ∀ vote ∈ voting.node.castVotes input,
      ∀ other ∈ (voting.handle input).votes,
        vote.term = other.term → vote.candidate = other.candidate := by
    intro vote cast other member sameTerm
    obtain ⟨isTerm, isVote⟩ := RaftNode.remembers_castVotes cast
    have otherVote := remembers other member (isTerm.symm.trans sameTerm)
    exact Option.some.inj (isVote.symm.trans otherVote)
  refine ⟨reached, remembers, ?_⟩
  intro vote member other otherMember sameTerm
  rcases List.mem_append.mp member with cast | earlier
  · exact sameAsCast vote cast other otherMember sameTerm
  · rcases List.mem_append.mp otherMember with otherCast | otherEarlier
    · exact (sameAsCast other otherCast vote member sameTerm.symm).symm
    · exact invariant.once vote earlier other otherEarlier sameTerm

theorem step_deterministic
    {voting first second : VotingNode} {input : NodeInput}
    (firstStep : Step voting input first)
    (secondStep : Step voting input second) :
    first = second :=
  firstStep.symm.trans secondStep

/--
For every node and every run of messages and election timeouts, the term never
falls and the node votes for one candidate in each term, at every time of the
run, exactly when it never times out in the last term as follower or candidate.
-/
theorem votesOnce_always_iff {node : RaftNode} {inputs : List NodeInput}
    {final : VotingNode} (run : Run Step (start node) inputs final) :
    (∀ passed between remaining earlier later,
        inputs = passed ++ (between ++ remaining) →
          Run Step (start node) passed earlier →
          Run Step earlier between later →
          earlier.node.currentTerm ≤ later.node.currentTerm ∧ later.VotesOnce) ↔
      Run (Restrict Step TermCanRise) (start node) inputs final := by
  have stepRises : ∀ {voting next : VotingNode} {input : NodeInput},
      voting.Invariant →
        Step voting input next →
          (voting.node.currentTerm ≤ next.node.currentTerm ∧ next.Invariant ↔
            voting.TermCanRise input) := by
    intro voting next input invariant step
    constructor
    · rintro ⟨notLower, _⟩
      subst step
      exact RaftNode.termCanRise_of_le notLower
    · intro canRise
      refine ⟨?_, invariant.step canRise step⟩
      subst step
      exact (RaftNode.keepsVotes_handleInput canRise).term
  have invariantAlways :=
    @Run.related_iff_restrict _ _ Step TermCanRise Invariant
      (fun earlier later => earlier.node.currentTerm ≤ later.node.currentTerm)
      _ _ _ run step_deterministic (fun _ => UInt64.le_refl _) UInt64.le_trans
      (invariant_start node) stepRises
  constructor
  · intro always
    apply (@Run.steps_iff_restrict _ _ Step TermCanRise (fun _ => True)
      Invariant
      (fun before after => before.node.currentTerm ≤ after.node.currentTerm)
      _ _ _ run step_deterministic trivial (invariant_start node) ?_).mp
    · rintro passed input remaining before after rfl reached taken
      exact (always passed [input] remaining before after rfl reached
        (.single taken)).1
    · intro before input after _ invariant taken
      have rises := stepRises invariant taken
      refine ⟨trivial, ?_, ?_⟩
      · constructor
        · intro notLower
          subst taken
          exact RaftNode.termCanRise_of_le notLower
        · exact fun canRise => (rises.mpr canRise).1
      · intro notLower
        refine invariant.step ?_ taken
        subst taken
        exact RaftNode.termCanRise_of_le notLower
  · intro restricted passed between remaining earlier later isInputs reached
      goesOn
    have holds := invariantAlways.mpr restricted passed between remaining
      earlier later isInputs reached goesOn
    exact ⟨holds.1, holds.2.once⟩

/-- A node becomes candidate, follows a leader, and votes for another node. -/
def ordinaryInputs : List NodeInput :=
  [.electionTimeout,
    .message (.appendEntries ⟨2, "n2", 0, 0, [], 0⟩),
    .electionTimeout,
    .message (.requestVote ⟨4, "n3", 0, 0⟩)]

/-- The same with a leader of the last term and a candidate of the first. -/
def lastTermInputs : List NodeInput :=
  [.electionTimeout,
    .message (.appendEntries ⟨0xFFFFFFFFFFFFFFFF, "n2", 0, 0, [], 0⟩),
    .electionTimeout,
    .message (.requestVote ⟨1, "n3", 0, 0⟩)]

/-- A new node with two peers. -/
def exampleVoter : RaftNode :=
  .new ⟨"n1", ["n2", "n3"]⟩

/-- A node that does not reach the last term votes in the terms one by one. -/
theorem ordinaryInputs_votes :
    ∃ final, Run Step (start exampleVoter) ordinaryInputs final ∧
      final.votes = [⟨4, "n3"⟩, ⟨3, "n1"⟩, ⟨1, "n1"⟩] ∧ final.VotesOnce := by
  let final := ordinaryInputs.foldl handle (start exampleVoter)
  have along : Along handle TermCanRise (start exampleVoter) ordinaryInputs :=
    ⟨by decide, trivial, by decide, trivial, trivial⟩
  have restricted :
      Run (Restrict Step TermCanRise) (start exampleVoter) ordinaryInputs
        final :=
    .ofAlong (fun canRise => ⟨canRise, rfl⟩) along
  have run := restricted.ofRestrict
  have always := (votesOnce_always_iff run).mpr restricted
  refine ⟨final, run, by decide, ?_⟩
  exact (always ordinaryInputs [] [] final final (by simp) run (.nil _)).2

/-- After the last term a node votes for another candidate in the first one. -/
theorem lastTermInputs_votes_twice :
    ∃ final, Run Step (start exampleVoter) lastTermInputs final ∧
      final.votes = [⟨1, "n3"⟩, ⟨0, "n1"⟩, ⟨1, "n1"⟩] ∧ ¬final.VotesOnce := by
  refine ⟨lastTermInputs.foldl handle (start exampleVoter),
    .ofFoldl (fun _ _ => rfl) _ _, by decide, ?_⟩
  intro once
  exact absurd (once ⟨1, "n3"⟩ (by decide) ⟨1, "n1"⟩ (by decide) rfl)
    (by decide)

end VotingNode

end ChronoDB.Raft
