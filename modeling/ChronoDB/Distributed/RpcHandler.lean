import ChronoDB.Distributed.LocalWrite
import ChronoDB.Memstore.BatchFailure

namespace ChronoDB.Distributed

open Library Wal Memstore Query

/-!
# Requests to another node

A node writes a series to its own store when it is the primary of the shard, or
when the request is to replicate the series.  The store's log may fail.  What the
client makes of an answer depends on the request that it sent.
-/

structure WriteResponse where
  success : Bool
  message : String
  deriving Repr, DecidableEq

structure ReplicateResponse where
  success : Bool
  message : String
  deriving Repr, DecidableEq

inductive RpcRequest where
  | write (series : TimeSeries)
  | replicate (shardId : UInt64) (series : TimeSeries)

inductive RpcResponse where
  | write (response : WriteResponse)
  | replicate (response : ReplicateResponse)
  | error (message : String)
  deriving Repr, DecidableEq

namespace RpcRequest

def series : RpcRequest → TimeSeries
  | .write series => series
  | .replicate _ series => series

end RpcRequest

/-!
## The client's results
-/

namespace RpcClient

/-- What `RpcClient::write` makes of the result of a call. -/
def write :
    Except ClusterError RpcResponse → Except ClusterError WriteResponse
  | .error cause => .error cause
  | .ok (.write response) => .ok response
  | .ok (.error message) => .error (.internal message)
  | .ok _ => .error (.internal "Unexpected response type")

/-- What `RpcClient::replicate` makes of the result of a call. -/
def replicate :
    Except ClusterError RpcResponse → Except ClusterError ReplicateResponse
  | .error cause => .error cause
  | .ok (.replicate response) => .ok response
  | .ok (.error message) => .error (.internal message)
  | .ok _ => .error (.internal "Unexpected response type")

/-- The client function for a request returns success. -/
def Succeeds (request : RpcRequest) (result : Except ClusterError RpcResponse) :
    Prop :=
  match request with
  | .write _ => ∃ message, write result = .ok ⟨true, message⟩
  | .replicate _ _ => ∃ message, replicate result = .ok ⟨true, message⟩

theorem not_succeeds_error_response (request : RpcRequest) (message : String) :
    ¬Succeeds request (.ok (.error message)) := by
  intro succeeds
  cases request with
  | write series =>
    obtain ⟨message, isOk⟩ := succeeds
    cases isOk
  | replicate shardId series =>
    obtain ⟨message, isOk⟩ := succeeds
    cases isOk

end RpcClient

/-!
## The handler
-/

namespace DistributedStorage

variable (codec : WalCodec) (hasher : Bytes → TimeSeriesId)
variable (debugError : ClusterError → String)

/-- The write of a series to the node's own store. -/
def localWrite
    (clock : WriteClock) (fault : Option LogFault) (series : TimeSeries) :
    LoggedWrite where
  write := {
    labels := series.labels
    samples := series.samples
    clock := clock
  }
  fault := fault

/-- `writeToLocal` when the log call may fail. -/
def writeToLocalUnder (storage : DistributedStorage) (clock : WriteClock)
    (fault : Option LogFault) (series : TimeSeries) :
    Except ClusterError Unit × DistributedStorage :=
  match storage.memStore.writeUnder codec hasher (localWrite clock fault series)
  with
  | (.error cause, failed) =>
    (.error (.storage cause), { storage with memStore := failed })
  | (.ok (), written) => (.ok (), { storage with memStore := written })

/-- `writeAsPrimary` when the log call may fail. -/
def writeAsPrimaryUnder
    (storage : DistributedStorage) (environment : WriteEnvironment)
    (fault : Option LogFault) (shardId : UInt64) (series : TimeSeries) :
    Except ClusterError Unit × DistributedStorage :=
  match storage.writeToLocalUnder codec hasher environment.clock fault series
  with
  | (.error cause, failed) => (.error cause, failed)
  | (.ok (), written) =>
    (written.replicateToFollowers environment shardId series, written)

/-- `write` when the log call may fail. -/
def writeUnder (storage : DistributedStorage) (environment : WriteEnvironment)
    (fault : Option LogFault) (series : TimeSeries) :
    Except ClusterError Unit × DistributedStorage :=
  let shardId := storage.shardManager.getShardForSeries series.id
  match storage.shardManager.getPrimaryNode shardId with
  | .error cause => (.error cause, storage)
  | .ok primaryNode =>
    if primaryNode = storage.config.nodeId then
      storage.writeAsPrimaryUnder codec hasher environment fault shardId series
    else (environment.forward primaryNode series, storage)

def handle (storage : DistributedStorage) (environment : WriteEnvironment)
    (fault : Option LogFault) :
    RpcRequest → RpcResponse × DistributedStorage
  | .write series =>
    match storage.writeUnder codec hasher environment fault series with
    | (.ok (), after) => (.write ⟨true, "Write successful"⟩, after)
    | (.error cause, after) =>
      (.write ⟨false, "Write failed: " ++ debugError cause⟩, after)
  | .replicate _ series =>
    match storage.writeToLocalUnder codec hasher environment.clock fault series
    with
    | (.ok (), after) => (.replicate ⟨true, "Replication successful"⟩, after)
    | (.error cause, after) =>
      (.replicate ⟨false, "Replication failed: " ++ debugError cause⟩, after)

/-- The node answers a request from its own store. -/
def IsLocal (storage : DistributedStorage) : RpcRequest → Prop
  | .write series =>
    storage.IsPrimary (storage.shardManager.getShardForSeries series.id)
  | .replicate _ _ => True

instance (storage : DistributedStorage) (request : RpcRequest) :
    Decidable (storage.IsLocal request) :=
  match request with
  | .write _ => inferInstanceAs (Decidable (_ = _))
  | .replicate _ _ => inferInstanceAs (Decidable True)

/-- The node's own store takes the series of a request. -/
def Takes (storage : DistributedStorage) (clock : WriteClock)
    (fault : Option LogFault) (request : RpcRequest) :
    Prop :=
  storage.IsLocal request ∧
    (storage.memStore.admission.accept codec hasher
      (localWrite clock fault request.series)).isSome

variable {codec hasher debugError}

/-!
## What a request changes
-/

variable {storage : DistributedStorage}
variable {environment : WriteEnvironment} {fault : Option LogFault}

variable {request : RpcRequest} {series : TimeSeries}

theorem writeToLocalUnder_of_accepted {clock : WriteClock}
    (accepted :
      (storage.memStore.admission.accept codec hasher
        (localWrite clock fault series)).isSome) :
    ∃ memStore,
      storage.writeToLocalUnder codec hasher clock fault series =
          (.ok (), { storage with memStore := memStore }) ∧
        storage.memStore.admission.accept codec hasher
            (localWrite clock fault series) =
          some memStore.admission ∧
          ∀ seriesId,
            (memStore.samplesOf seriesId).Perm
              (storage.memStore.samplesOf seriesId ++
                if calculateSeriesId hasher series.labels = seriesId then
                  series.samples
                else []) := by
  obtain ⟨admitted, admits⟩ := Option.isSome_iff_exists.mp accepted
  obtain ⟨memStore, succeeds, rfl, samples⟩ :=
    MemStore.writeUnder_of_admit admits
  refine ⟨memStore, ?_, admits, samples⟩
  rw [writeToLocalUnder, succeeds]

theorem writeToLocalUnder_of_not_accepted {clock : WriteClock}
    (refused :
      ¬(storage.memStore.admission.accept codec hasher
        (localWrite clock fault series)).isSome) :
    ∃ cause memStore,
      storage.writeToLocalUnder codec hasher clock fault series =
          (.error cause, { storage with memStore := memStore }) ∧
        ∀ seriesId,
          (memStore.samplesOf seriesId).Perm
            (storage.memStore.samplesOf seriesId) := by
  obtain ⟨cause, memStore, fails, samples⟩ :=
    MemStore.writeUnder_of_refused (Option.not_isSome_iff_eq_none.mp refused)
  refine ⟨.storage cause, memStore, ?_, samples⟩
  rw [writeToLocalUnder, fails]

theorem handle_of_not_isLocal (notLocal : ¬storage.IsLocal request) :
    (storage.handle codec hasher debugError environment fault request).2 =
      storage := by
  cases request with
  | replicate shardId series => exact absurd trivial notLocal
  | write series =>
    have isOther :
        (storage.writeUnder codec hasher environment fault series).2 =
          storage := by
      rw [writeUnder]
      split
      · rfl
      · rename_i primaryNode found
        rw [if_neg]
        intro isOwn
        rw [isOwn] at found
        exact notLocal found
    rw [handle]
    split
    · rename_i written
      rw [← isOther, written]
    · rename_i failed
      rw [← isOther, failed]

theorem writeUnder_of_isPrimary
    (isPrimary :
      storage.IsPrimary (storage.shardManager.getShardForSeries series.id)) :
    (storage.writeUnder codec hasher environment fault series).2 =
        (storage.writeToLocalUnder codec hasher environment.clock fault
          series).2 ∧
      ((storage.writeUnder codec hasher environment fault series).1 = .ok () →
        (storage.writeToLocalUnder codec hasher environment.clock fault
            series).1 =
          .ok ()) := by
  rw [writeUnder, isPrimary]
  dsimp only
  rw [if_pos rfl, writeAsPrimaryUnder]
  rcases storage.writeToLocalUnder codec hasher environment.clock fault
      series with ⟨_ | _, written⟩
  · exact ⟨rfl, id⟩
  · exact ⟨rfl, fun _ => rfl⟩

theorem handle_of_isLocal (isLocal : storage.IsLocal request) :
    (storage.handle codec hasher debugError environment fault request).2 =
        (storage.writeToLocalUnder codec hasher environment.clock fault
          request.series).2 ∧
      (RpcClient.Succeeds request
          (.ok (storage.handle codec hasher debugError environment fault
            request).1) →
        (storage.writeToLocalUnder codec hasher environment.clock fault
            request.series).1 =
          .ok ()) := by
  cases request with
  | replicate shardId series =>
    rw [handle, RpcRequest.series]
    rcases storage.writeToLocalUnder codec hasher environment.clock fault
        series with ⟨_ | _, written⟩
    · refine ⟨rfl, ?_⟩
      rintro ⟨message, isOk⟩
      cases isOk
    · exact ⟨rfl, fun _ => rfl⟩
  | write series =>
    obtain ⟨isAfter, isOk⟩ :=
      @writeUnder_of_isPrimary codec hasher storage environment fault series
        isLocal
    rw [handle, RpcRequest.series, ← isAfter]
    rcases written :
        storage.writeUnder codec hasher environment fault series with
      ⟨_ | _, after⟩
    · refine ⟨rfl, ?_⟩
      rintro ⟨message, isSuccess⟩
      cases isSuccess
    · rw [written] at isOk
      exact ⟨rfl, fun _ => isOk rfl⟩

theorem handle_of_takes
    (takes : storage.Takes codec hasher environment.clock fault request) :
    ∃ memStore,
      (storage.handle codec hasher debugError environment fault request).2 =
          { storage with memStore := memStore } ∧
        storage.memStore.admission.accept codec hasher
            (localWrite environment.clock fault request.series) =
          some memStore.admission ∧
          ∀ seriesId,
            (memStore.samplesOf seriesId).Perm
              (storage.memStore.samplesOf seriesId ++
                if calculateSeriesId hasher request.series.labels =
                    seriesId then
                  request.series.samples
                else []) := by
  obtain ⟨memStore, written, admits, samples⟩ :=
    writeToLocalUnder_of_accepted takes.2
  refine ⟨memStore, ?_, admits, samples⟩
  rw [(handle_of_isLocal takes.1).1, written]

theorem samplesOf_handle_of_not_takes
    (notTaken : ¬storage.Takes codec hasher environment.clock fault request)
    (seriesId : TimeSeriesId) :
    ((storage.handle codec hasher debugError environment fault
        request).2.memStore.samplesOf seriesId).Perm
      (storage.memStore.samplesOf seriesId) := by
  by_cases isLocal : storage.IsLocal request
  · obtain ⟨cause, memStore, fails, samples⟩ :=
      writeToLocalUnder_of_not_accepted fun accepted =>
        notTaken ⟨isLocal, accepted⟩
    rw [(handle_of_isLocal isLocal).1, fails]
    exact samples seriesId
  · rw [handle_of_not_isLocal isLocal]

theorem takes_of_succeeds (isLocal : storage.IsLocal request)
    (succeeds :
      RpcClient.Succeeds request
        (.ok (storage.handle codec hasher debugError environment fault
          request).1)) :
    storage.Takes codec hasher environment.clock fault request := by
  refine ⟨isLocal, ?_⟩
  by_contra refused
  obtain ⟨cause, memStore, fails, _⟩ :=
    writeToLocalUnder_of_not_accepted refused
  have isOk := (handle_of_isLocal isLocal).2 succeeds
  rw [fails] at isOk
  cases isOk

end DistributedStorage

end ChronoDB.Distributed
