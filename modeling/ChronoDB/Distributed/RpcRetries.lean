import ChronoDB.Distributed.RpcHandler
import Mathlib.Algebra.Order.Group.Multiset
import Mathlib.Data.Multiset.OrderedMonoid

namespace ChronoDB.Distributed

open Library Wal Memstore Query

/-!
# One call over a network that loses and delays

The client sends its request again after every error, a timeout included, and
cannot know whether the server has handled it.  The server handles whatever
arrives, also after the client has given up, and the store keeps duplicates.
-/

/-- The part of the configuration that does not only say how long to wait. -/
structure RpcClientConfig where
  maxRetries : ℕ
  deriving Repr, DecidableEq

/-- The default of the source. -/
def RpcClientConfig.default : RpcClientConfig where
  maxRetries := 3

structure RpcCall where
  config : RpcClientConfig
  request : RpcRequest

/-- A response on its way, and whether the node used its own store for it. -/
structure RpcReply where
  attempt : ℕ
  response : RpcResponse
  isLocal : Bool
  deriving Repr, DecidableEq

inductive RpcClientState where
  | sending (attempt : ℕ)
  | waiting (attempt : ℕ)
  | returned (result : Except ClusterError RpcReply)

/--
The client and the receiving node, the attempts whose request is on its way, the
responses that are, and the samples that the call has added to the node's store.
-/
structure RpcCallState where
  client : RpcClientState
  requests : List ℕ
  replies : List RpcReply
  storage : DistributedStorage
  added : Multiset Sample

inductive RpcAction where
  /-- The client has a connection and writes its request. -/
  | send
  /-- An attempt ends without a response: an error or a timeout. -/
  | fail (cause : ClusterError)
  | handle
      (attempt : ℕ)
      (environment : WriteEnvironment)
      (fault : Option LogFault)
  /-- The server cannot read a request. -/
  | reject (attempt : ℕ) (cause : String)
  | loseRequest (attempt : ℕ)
  | loseReply (reply : RpcReply)
  | receive (reply : RpcReply)
  /-- Anything else that happens at the node. -/
  | node (action : StorageAction)

namespace RpcCall

def samples (call : RpcCall) : Multiset Sample :=
  call.request.series.samples

/-- The loop of `RpcClient::call` after an attempt that failed. -/
def afterFailure (call : RpcCall) (cause : ClusterError) :
    RpcClientState → RpcClientState
  | .sending attempt | .waiting attempt =>
    if attempt < call.config.maxRetries then .sending (attempt + 1)
    else .returned (.error cause)
  | .returned result => .returned result

/-- The number of attempts that have been made, at most. -/
def attempts (call : RpcCall) : RpcClientState → ℕ
  | .sending attempt => attempt
  | .waiting attempt => attempt + 1
  | .returned _ => call.config.maxRetries + 1

/-- The loop goes over the attempts from zero to `max_retries`. -/
def Within (call : RpcCall) : RpcClientState → Prop
  | .sending attempt | .waiting attempt => attempt ≤ call.config.maxRetries
  | .returned _ => True

/-- The result is a success. -/
def Succeeds (call : RpcCall) (reply : RpcReply) : Prop :=
  RpcClient.Succeeds call.request (.ok reply.response)

end RpcCall

namespace RpcCallState

section Steps

variable (codec : WalCodec) (hasher : Bytes → TimeSeriesId)
variable (debugError : ClusterError → String) (debug : QueryPlan → String)
variable (call : RpcCall)

def start (storage : DistributedStorage) : RpcCallState where
  client := .sending 0
  requests := []
  replies := []
  storage := storage
  added := 0

def held (storage : DistributedStorage) : Multiset Sample :=
  storage.memStore.samplesOf
    (calculateSeriesId hasher call.request.series.labels)

def perform (state : RpcCallState) : RpcAction → RpcCallState
  | .send =>
    match state.client with
    | .sending attempt =>
      { state with
        client := .waiting attempt
        requests := attempt :: state.requests }
    | _ => state
  | .fail cause => { state with client := call.afterFailure cause state.client }
  | .handle attempt environment fault =>
    let (response, after) :=
      state.storage.handle codec hasher debugError environment fault
        call.request
    { state with
      requests := state.requests.erase attempt
      replies :=
        ⟨attempt, response, state.storage.IsLocal call.request⟩ :: state.replies
      storage := after
      added :=
        state.added +
          (held hasher call after - held hasher call state.storage) }
  | .reject attempt cause =>
    { state with
      requests := state.requests.erase attempt
      replies :=
        ⟨attempt, .error ("Deserialization error: " ++ cause), false⟩ ::
          state.replies }
  | .loseRequest attempt =>
    { state with requests := state.requests.erase attempt }
  | .loseReply reply => { state with replies := state.replies.erase reply }
  | .receive reply =>
    { state with
      client := .returned (.ok reply)
      replies := state.replies.erase reply }
  | .node action =>
    { state with
      storage := state.storage.perform codec hasher debug action }

/-- Only what is on its way arrives, and only a waiting client receives. -/
def Possible (state : RpcCallState) : RpcAction → Prop
  | .send => ∃ attempt, state.client = .sending attempt
  | .fail _ => True
  | .handle attempt _ _ | .reject attempt _ | .loseRequest attempt =>
    attempt ∈ state.requests
  | .loseReply reply => reply ∈ state.replies
  | .receive reply =>
    reply ∈ state.replies ∧ state.client = .waiting reply.attempt
  | .node action => state.storage.Possible action

def Step (state : RpcCallState) (action : RpcAction) (after : RpcCallState) :
    Prop :=
  state.Possible action ∧
    state.perform codec hasher debugError debug call action = after

structure AppliedOnce (state : RpcCallState) : Prop where
  atMostOnce : state.added ≤ call.samples
  onceIfSuccess :
    ∀ reply,
      state.client = .returned (.ok reply) →
        call.Succeeds reply → state.added = call.samples

/--
The node takes no samples when an earlier request of the call has added them, and
the client does not learn of a success at another node when none has.
-/
def KeepsOnce (state : RpcCallState) : RpcAction → Prop
  | .handle _ environment fault =>
    state.storage.Takes codec hasher environment.clock fault call.request →
      call.samples = 0 ∨ state.added = 0
  | .receive reply =>
    call.Succeeds reply →
      reply.isLocal = false → call.samples = 0 ∨ state.added ≠ 0
  | _ => True

/-- The samples were added as many times as requests were taken. -/
structure Counted (state : RpcCallState) (times : ℕ) : Prop where
  added : state.added = times • call.samples
  budget : times + state.requests.length ≤ call.attempts state.client
  within : call.Within state.client
  replied :
    ∀ reply ∈ state.replies,
      reply.isLocal = true → call.Succeeds reply → 0 < times
  returned :
    ∀ reply,
      state.client = .returned (.ok reply) →
        reply.isLocal = true → call.Succeeds reply → 0 < times

/-- The samples were added a whole number of times. -/
def Valid (state : RpcCallState) : Prop :=
  ∃ times, Counted call state times

end Steps

variable {codec : WalCodec} {hasher : Bytes → TimeSeriesId}
variable {debugError : ClusterError → String} {debug : QueryPlan → String}
variable {call : RpcCall}

theorem held_handle
    {storage : DistributedStorage} {environment : WriteEnvironment}
    {fault : Option LogFault} :
    (storage.Takes codec hasher environment.clock fault call.request →
        held hasher call
            (storage.handle codec hasher debugError environment fault
              call.request).2 -
          held hasher call storage =
          call.samples) ∧
      (¬storage.Takes codec hasher environment.clock fault call.request →
        held hasher call
            (storage.handle codec hasher debugError environment fault
              call.request).2 -
          held hasher call storage =
          0) := by
  constructor
  · intro takes
    obtain ⟨memStore, isAfter, _, samples⟩ :=
      @DistributedStorage.handle_of_takes codec hasher debugError storage
        environment fault call.request takes
    have sameSamples := Multiset.coe_eq_coe.mpr
      (samples (calculateSeriesId hasher call.request.series.labels))
    rw [if_pos rfl, ← Multiset.coe_add] at sameSamples
    rw [isAfter, held, held]
    dsimp only
    rw [sameSamples]
    exact add_tsub_cancel_left _ _
  · intro notTaken
    have sameSamples := Multiset.coe_eq_coe.mpr
      (@DistributedStorage.samplesOf_handle_of_not_takes codec hasher
        debugError storage environment fault call.request notTaken
        (calculateSeriesId hasher call.request.series.labels))
    rw [held, held, sameSamples]
    exact tsub_self _

theorem within_afterFailure {cause : ClusterError} {client : RpcClientState}
    (within : call.Within client) :
    call.attempts client ≤ call.attempts (call.afterFailure cause client) ∧
      call.Within (call.afterFailure cause client) := by
  cases client with
  | returned result => exact ⟨Nat.le_refl _, within⟩
  | sending attempt =>
    rw [RpcCall.afterFailure]
    split
    · rename_i more
      exact ⟨Nat.le_succ attempt, more⟩
    · exact ⟨within.trans (Nat.le_succ _), trivial⟩
  | waiting attempt =>
    rw [RpcCall.afterFailure]
    split
    · rename_i more
      exact ⟨Nat.le_refl _, more⟩
    · exact ⟨Nat.succ_le_succ within, trivial⟩

theorem attempts_le {client : RpcClientState} (within : call.Within client) :
    call.attempts client ≤ call.config.maxRetries + 1 := by
  cases client with
  | returned result => exact Nat.le_refl _
  | sending attempt => exact within.trans (Nat.le_succ _)
  | waiting attempt => exact Nat.succ_le_succ within

theorem returned_of_afterFailure
    {cause : ClusterError} {client : RpcClientState} {reply : RpcReply}
    (isReturned : call.afterFailure cause client = .returned (.ok reply)) :
    client = .returned (.ok reply) := by
  cases client with
  | returned result => exact isReturned
  | sending attempt =>
    rw [RpcCall.afterFailure] at isReturned
    split at isReturned <;> cases isReturned
  | waiting attempt =>
    rw [RpcCall.afterFailure] at isReturned
    split at isReturned <;> cases isReturned

namespace Counted

variable {state : RpcCallState} {times : ℕ}

theorem ofFewer
    {requests : List ℕ} {replies : List RpcReply} {storage : DistributedStorage}
    (counted : state.Counted call times)
    (fewerRequests : requests.length ≤ state.requests.length)
    (fewerReplies :
      ∀ reply ∈ replies, reply ∈ state.replies ∨ ¬call.Succeeds reply) :
    Counted call
      { state with
        requests := requests
        replies := replies
        storage := storage } times where
  added := counted.added
  budget := (Nat.add_le_add_left fewerRequests times).trans counted.budget
  within := counted.within
  replied reply member isLocal succeeds := by
    rcases fewerReplies reply member with before | fails
    · exact counted.replied reply before isLocal succeeds
    · exact absurd succeeds fails
  returned := counted.returned

theorem fail (counted : state.Counted call times) (cause : ClusterError) :
    Counted call
      { state with client := call.afterFailure cause state.client } times := by
  obtain ⟨more, within⟩ := @within_afterFailure _ cause _ counted.within
  exact
    { added := counted.added
      budget := counted.budget.trans more
      within := within
      replied := counted.replied
      returned := fun reply isReturned =>
        counted.returned reply (returned_of_afterFailure isReturned) }

theorem send {attempt : ℕ} (counted : state.Counted call times)
    (isSending : state.client = .sending attempt) :
    Counted call
      { state with
        client := .waiting attempt
        requests := attempt :: state.requests } times := by
  have budget := counted.budget
  have within := counted.within
  rw [isSending] at budget within
  exact
    { added := counted.added
      budget := Nat.succ_le_succ budget
      within := within
      replied := counted.replied
      returned := fun reply isReturned => by cases isReturned }

/-- A request that arrives is counted when the node takes its samples. -/
theorem handle
    {attempt : ℕ} {environment : WriteEnvironment} {fault : Option LogFault}
    (counted : state.Counted call times) (arrives : attempt ∈ state.requests) :
    (state.storage.Takes codec hasher environment.clock fault call.request →
        Counted call
          (state.perform codec hasher debugError debug call
            (.handle attempt environment fault)) (times + 1)) ∧
      (¬state.storage.Takes codec hasher environment.clock fault call.request →
        Counted call
          (state.perform codec hasher debugError debug call
            (.handle attempt environment fault)) times) := by
  have oneFewer : (state.requests.erase attempt).length + 1 =
      state.requests.length :=
    List.length_erase_add_one arrives
  have budget := counted.budget
  constructor
  · intro takes
    refine ⟨?_, ?_, counted.within, ?_, ?_⟩
    · rw [perform, succ_nsmul, ← counted.added]
      exact congrArg (state.added + ·) (held_handle.1 takes)
    · change times + 1 + (state.requests.erase attempt).length ≤ _
      rw [Nat.add_assoc, Nat.add_comm 1, oneFewer]
      exact budget
    · exact fun _ _ _ _ => Nat.succ_pos times
    · exact fun _ _ _ _ => Nat.succ_pos times
  · intro notTaken
    refine ⟨?_, ?_, counted.within, ?_, counted.returned⟩
    · rw [perform, ← counted.added]
      exact (congrArg (state.added + ·) (held_handle.2 notTaken)).trans
        (add_zero _)
    · exact
        (Nat.add_le_add_left List.length_erase_le times).trans budget
    · intro reply member isLocal succeeds
      rcases List.mem_cons.mp member with rfl | before
      · exact absurd
          (DistributedStorage.takes_of_succeeds (of_decide_eq_true isLocal)
            succeeds)
          notTaken
      · exact counted.replied reply before isLocal succeeds

theorem receive {reply : RpcReply} (counted : state.Counted call times)
    (arrives : reply ∈ state.replies) :
    Counted call
      { state with
        client := .returned (.ok reply)
        replies := state.replies.erase reply } times where
  added := counted.added
  budget := counted.budget.trans (attempts_le counted.within)
  within := trivial
  replied other member := counted.replied other (List.mem_of_mem_erase member)
  returned other isReturned := by
    cases isReturned
    exact counted.replied reply arrives

end Counted

theorem valid_start (storage : DistributedStorage) :
    (start storage).Valid call := by
  refine ⟨0, ?_, Nat.le_refl 0, Nat.zero_le _, ?_, ?_⟩
  · exact (zero_nsmul _).symm
  · intro reply member
    cases member
  · intro reply isReturned
    cases isReturned

theorem Valid.step {before after : RpcCallState} {action : RpcAction}
    (valid : before.Valid call)
    (step : Step codec hasher debugError debug call before action after) :
    after.Valid call := by
  obtain ⟨times, counted⟩ := valid
  obtain ⟨possible, rfl⟩ := step
  cases action with
  | send =>
    obtain ⟨attempt, isSending⟩ := possible
    refine ⟨times, ?_⟩
    rw [perform, isSending]
    exact counted.send isSending
  | fail cause => exact ⟨times, counted.fail cause⟩
  | handle attempt environment fault =>
    have handled :=
      @Counted.handle codec hasher debugError debug call before times attempt
        environment fault counted possible
    by_cases takes :
      before.storage.Takes codec hasher environment.clock fault call.request
    · exact ⟨times + 1, handled.1 takes⟩
    · exact ⟨times, handled.2 takes⟩
  | reject attempt cause =>
    refine ⟨times, counted.ofFewer List.length_erase_le ?_⟩
    intro reply member
    rcases List.mem_cons.mp member with rfl | earlier
    · exact .inr (RpcClient.not_succeeds_error_response _ _)
    · exact .inl earlier
  | loseRequest attempt =>
    exact ⟨times, counted.ofFewer List.length_erase_le fun _ => .inl⟩
  | loseReply reply =>
    exact
      ⟨times, counted.ofFewer (Nat.le_refl _) fun _ member =>
        .inl (List.mem_of_mem_erase member)⟩
  | receive reply => exact ⟨times, counted.receive possible.1⟩
  | node action =>
    exact ⟨times, counted.ofFewer (Nat.le_refl _) fun _ => .inl⟩

theorem eq_zero_or_eq_of_nsmul_le {times : ℕ} {samples : Multiset Sample}
    (atMostOnce : times • samples ≤ samples) (some : samples ≠ 0) :
    times = 0 ∨ times = 1 := by
  have cards := Multiset.card_le_card atMostOnce
  have positive := Multiset.card_pos.mpr some
  rw [Multiset.card_nsmul] at cards
  have few : times ≤ 1 := by
    by_contra more
    have twice := Nat.mul_le_mul_right samples.card (Nat.lt_of_not_le more)
    omega
  omega

theorem eq_samples_iff {state : RpcCallState} (valid : state.Valid call)
    (atMostOnce : state.added ≤ call.samples) :
    state.added = call.samples ↔ call.samples = 0 ∨ state.added ≠ 0 := by
  obtain ⟨times, counted⟩ := valid
  rw [counted.added] at atMostOnce ⊢
  by_cases none : call.samples = 0
  · rw [none, nsmul_zero]
    exact iff_of_true rfl (.inl rfl)
  · rw [or_iff_right none]
    rcases eq_zero_or_eq_of_nsmul_le atMostOnce none with rfl | rfl
    · rw [zero_nsmul]
      exact iff_of_false (Ne.symm none) fun added => added rfl
    · rw [one_nsmul]
      exact iff_of_true rfl none

theorem AppliedOnce.congr
    {before after : RpcCallState} (once : before.AppliedOnce call)
    (sameAdded : after.added = before.added)
    (sameClient :
      ∀ reply,
        after.client = .returned (.ok reply) →
          before.client = .returned (.ok reply)) :
    after.AppliedOnce call where
  atMostOnce := sameAdded ▸ once.atMostOnce
  onceIfSuccess reply isReturned succeeds :=
    sameAdded.trans
      (once.onceIfSuccess reply (sameClient reply isReturned) succeeds)

theorem appliedOnce_of_takes_iff
    {before after : RpcCallState} (once : before.AppliedOnce call)
    (added : after.added = before.added + call.samples) :
    after.AppliedOnce call ↔ call.samples = 0 ∨ before.added = 0 := by
  constructor
  · intro onceAfter
    have atMostOnce := onceAfter.atMostOnce
    rw [added, add_le_iff_nonpos_left] at atMostOnce
    exact .inr (nonpos_iff_eq_zero.mp atMostOnce)
  · intro first
    have isSamples : after.added = call.samples := by
      rw [added]
      rcases first with none | first
      · have nothing := once.atMostOnce
        rw [none, nonpos_iff_eq_zero] at nothing
        rw [nothing, zero_add]
      · rw [first, zero_add]
    exact ⟨isSamples.le, fun _ _ _ => isSamples⟩

theorem appliedOnce_of_receive_iff
    {before : RpcCallState} {reply : RpcReply} (valid : before.Valid call)
    (once : before.AppliedOnce call) (arrives : reply ∈ before.replies) :
    AppliedOnce call
        { before with
          client := .returned (.ok reply)
          replies := before.replies.erase reply } ↔
      (call.Succeeds reply →
        reply.isLocal = false → call.samples = 0 ∨ before.added ≠ 0) := by
  constructor
  · intro onceAfter succeeds _
    exact (eq_samples_iff valid once.atMostOnce).mp
      (onceAfter.onceIfSuccess reply rfl succeeds)
  · intro elsewhere
    refine ⟨once.atMostOnce, ?_⟩
    intro other isReturned succeeds
    cases isReturned
    apply (eq_samples_iff valid once.atMostOnce).mpr
    cases isLocal : reply.isLocal with
    | false => exact elsewhere succeeds isLocal
    | true =>
      obtain ⟨times, counted⟩ := valid
      have positive := counted.replied reply arrives isLocal succeeds
      by_cases none : call.samples = 0
      · exact .inl none
      · refine .inr ?_
        rw [counted.added]
        intro nothing
        have cards := congrArg Multiset.card nothing
        rw [Multiset.card_nsmul, Multiset.card_zero, Nat.mul_eq_zero] at cards
        rcases cards with noTimes | noSamples
        · omega
        · exact none (Multiset.card_eq_zero.mp noSamples)

theorem appliedOnce_iff_of_step
    {before after : RpcCallState} {action : RpcAction}
    (valid : before.Valid call) (once : before.AppliedOnce call)
    (step : Step codec hasher debugError debug call before action after) :
    after.AppliedOnce call ↔ before.KeepsOnce codec hasher call action := by
  obtain ⟨possible, rfl⟩ := step
  cases action with
  | send =>
    obtain ⟨attempt, isSending⟩ := possible
    refine iff_of_true ?_ trivial
    rw [perform, isSending]
    exact once.congr rfl fun reply isReturned => by cases isReturned
  | fail cause =>
    exact iff_of_true (once.congr rfl fun _ => returned_of_afterFailure) trivial
  | handle attempt environment fault =>
    by_cases takes :
      before.storage.Takes codec hasher environment.clock fault call.request
    · have added :
          (before.perform codec hasher debugError debug call
              (.handle attempt environment fault)).added =
            before.added + call.samples :=
        congrArg (before.added + ·) (held_handle.1 takes)
      refine (appliedOnce_of_takes_iff once added).trans ?_
      exact ⟨fun first _ => first, fun first => first takes⟩
    · refine iff_of_true (once.congr ?_ fun _ => id)
        fun isTaken => absurd isTaken takes
      exact (congrArg (before.added + ·) (held_handle.2 takes)).trans
        (add_zero _)
  | receive reply => exact appliedOnce_of_receive_iff valid once possible.1
  | _ =>
    exact iff_of_true (once.congr rfl fun _ => id) trivial

theorem step_functional
    {before first second : RpcCallState} {action : RpcAction}
    (firstStep : Step codec hasher debugError debug call before action first)
    (secondStep :
      Step codec hasher debugError debug call before action second) :
    first = second :=
  firstStep.2.symm.trans secondStep.2

/--
In every run a call adds its samples a whole number of times, at most once for
each attempt, and at least once if it returns a success of the node's own store.
At all times they were added at most once, and once if the call has succeeded,
exactly when the node takes no request after another, and the client learns of no
success elsewhere before.
-/
theorem call_applied_iff {storage : DistributedStorage}
    {actions : List RpcAction} {final : RpcCallState}
    (run :
      Run (Step codec hasher debugError debug call) (start storage) actions
        final) :
    (∃ times ≤ call.config.maxRetries + 1,
        final.added = times • call.samples ∧
          ∀ reply,
            final.client = .returned (.ok reply) →
              reply.isLocal = true → call.Succeeds reply → 0 < times) ∧
      ((∀ passed remaining middle,
          actions = passed ++ remaining →
            Run (Step codec hasher debugError debug call) (start storage)
              passed middle →
              middle.AppliedOnce call) ↔
        Run
          (Restrict (Step codec hasher debugError debug call)
            fun state => state.KeepsOnce codec hasher call)
          (start storage) actions final) := by
  have validStart := @valid_start call storage
  constructor
  · obtain ⟨times, counted⟩ :=
      run.preserves (fun valid step => Valid.step valid step) validStart
    refine ⟨times, ?_, counted.added, counted.returned⟩
    have budget := counted.budget.trans (attempts_le counted.within)
    exact (Nat.le_add_right _ _).trans budget
  · have onceStart : (start storage).AppliedOnce call := by
      refine ⟨Multiset.zero_le _, ?_⟩
      intro reply isReturned
      cases isReturned
    exact run.always_iff_restrict step_functional validStart onceStart
      fun valid once step =>
        ⟨Valid.step valid step, appliedOnce_iff_of_step valid once step⟩

/-- A write of one sample with the default configuration. -/
def exampleCall : RpcCall where
  config := .default
  request := .write (unlabelledSeries (SipHash.hash []))

/-- What the node answers when it has stored the sample. -/
def exampleReply (attempt : ℕ) : RpcReply where
  attempt := attempt
  response := .write ⟨true, "Write successful"⟩
  isLocal := true

/-- The call at the only node, where errors are shown without a text. -/
abbrev performExample : RpcCallState → RpcAction → RpcCallState :=
  perform jsonCodec SipHash.hash (fun _ => "") (fun _ => "") exampleCall

abbrev ExampleStep : RpcCallState → RpcAction → RpcCallState → Prop :=
  Step jsonCodec SipHash.hash (fun _ => "") (fun _ => "") exampleCall

/-- Without errors there is one attempt. -/
def answeredActions : List RpcAction :=
  [.send, .handle 0 aloneEnvironment none, .receive (exampleReply 0)]

/-- The first response is late, and the request is sent again. -/
def repeatedActions : List RpcAction :=
  [.send, .handle 0 aloneEnvironment none,
    .fail (.internal "Request timeout"), .send,
    .handle 1 aloneEnvironment none, .receive (exampleReply 1)]

/-- Without errors the sample is added once. -/
theorem appliedOnce_answeredActions :
    ∃ final,
      Run ExampleStep (start onlyNode) answeredActions final ∧
        final.client = .returned (.ok (exampleReply 0)) ∧
          final.AppliedOnce exampleCall := by
  have along :
      Along performExample
        (fun state action =>
          state.KeepsOnce jsonCodec SipHash.hash exampleCall action ∧
            state.Possible action)
        (start onlyNode) answeredActions := by
    refine ⟨⟨trivial, ⟨0, rfl⟩⟩, ⟨?_, ?_⟩, ⟨?_, ?_, rfl⟩, trivial⟩
    · exact fun _ => .inr rfl
    · exact List.mem_singleton_self 0
    · intro _ elsewhere
      cases elsewhere
    · decide +kernel
  have restricted :
      Run
        (Restrict ExampleStep
          fun state => state.KeepsOnce jsonCodec SipHash.hash exampleCall)
        (start onlyNode) answeredActions _ :=
    Run.ofAlong (fun allowed => ⟨allowed.1, allowed.2, rfl⟩) along
  have run := restricted.ofRestrict
  exact ⟨_, run, rfl,
    (call_applied_iff run).2.mpr restricted answeredActions [] _ rfl run⟩

/-- After a timeout the sample is added twice, and the call succeeds. -/
theorem not_appliedOnce_repeatedActions :
    ∃ final,
      Run ExampleStep (start onlyNode) repeatedActions final ∧
        final.client = .returned (.ok (exampleReply 1)) ∧
          exampleCall.Succeeds (exampleReply 1) ∧
            final.added = 2 • exampleCall.samples ∧
              ¬final.AppliedOnce exampleCall := by
  have along :
      Along performExample Possible (start onlyNode) repeatedActions := by
    refine ⟨⟨0, rfl⟩, ?_, trivial, ⟨1, rfl⟩, ?_, ⟨?_, rfl⟩, trivial⟩
    · exact List.mem_singleton_self 0
    · exact List.mem_singleton_self 1
    · decide +kernel
  have twice :
      (repeatedActions.foldl performExample (start onlyNode)).added =
        2 • exampleCall.samples := by
    decide +kernel
  refine ⟨_, Run.ofAlong (fun allowed => ⟨allowed, rfl⟩) along, rfl,
    ⟨_, rfl⟩, twice, ?_⟩
  intro once
  have atMostOnce := Multiset.card_le_card once.atMostOnce
  rw [twice] at atMostOnce
  exact absurd atMostOnce (by decide)

end RpcCallState

end ChronoDB.Distributed
