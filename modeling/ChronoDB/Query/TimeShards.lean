import ChronoDB.Compression.Delta
import ChronoDB.Library.Grouping
import ChronoDB.Query.Parallel

namespace ChronoDB.Query

open Library Compression List

/-!
# Shards of a time range

A time range is divided into shards of one size, of which the last one takes the
rest.  A task for each shard reads the samples between its ends, and both ends
belong to the shard, as they do in the ranges of a store.
-/

namespace ParallelQueryExecutor

/-- The size of a shard, where the number of shards is read as a signed one. -/
def shardSize (start stop : Timestamp) (numShards : UInt64) : Int64 :=
  (stop - start) / numShards.toInt64

/-- The ends of a shard that its task reads between. -/
def shardRange (start stop : Timestamp) (numShards : UInt64) (index : ℕ) :
    Timestamp × Timestamp :=
  let size := shardSize start stop numShards
  let shardStart := start + Int64.ofNat index * size
  let shardEnd :=
    if index = numShards.toNat - 1 then stop else shardStart + size
  (shardStart, shardEnd)

/-- What the task of a shard sends. -/
def shardMessage (process : Timestamp → Timestamp → Except Error (List Sample))
    (start stop : Timestamp) (numShards : UInt64) (index : ℕ) :
    Except Error (ℕ × List Sample) :=
  let (shardStart, shardEnd) := shardRange start stop numShards index
  (process shardStart shardEnd).map fun samples => (index, samples)

/-- The collector fills the slots of the shards and keeps the first error. -/
def collectShards
    (shardResults : List (Option (List Sample))) (error : Option Error) :
    List (Except Error (ℕ × List Sample)) →
    Except Fault (List (List Sample))
  | [] =>
    match error with
    | some cause => .error (.error cause)
    | none => .ok shardResults.reduceOption
  | .ok (shardIndex, samples) :: rest =>
    collectShards (shardResults.set shardIndex (some samples)) error rest
  | .error cause :: rest =>
    collectShards shardResults (error.or (some cause)) rest

/-- The largest capacity of a channel; larger ones panic. -/
def maxPermits : ℕ :=
  (2 ^ 64 - 1) >>> 3

/-- The permits of the semaphore, and a channel with room for all shards. -/
def shardLimits (executor : ParallelQueryExecutor) (numShards : UInt64) :
    TaskPool.Limits where
  permits := executor.maxConcurrency
  capacity := max numShards.toNat 1
  permitted := executor.positive
  positive := Nat.lt_of_lt_of_le Nat.one_pos (Nat.le_max_right _ _)

/-- `execute_time_range_parallel` under some schedule of its tasks. -/
def ExecutesTimeRangeParallel (executor : ParallelQueryExecutor)
    (process : Timestamp → Timestamp → Except Error (List Sample))
    (start stop : Timestamp) (numShards : UInt64)
    (outcome : Except Fault (List (List Sample))) :
    Prop :=
  if stop ≤ start ∨ numShards = 0 then
    outcome = .ok []
  else if shardSize start stop numShards = 0 then
    outcome =
      match process start stop with
      | .ok samples => .ok [samples]
      | .error cause => .error (.error cause)
  else if maxPermits < numShards.toNat then
    outcome = .error .panic
  else
    ∃ actions final,
      Run
          (TaskPool.Step (executor.shardLimits numShards) fun index =>
            some (shardMessage process start stop numShards index))
          (TaskPool.spawned (List.range numShards.toNat)) actions final ∧
        final.Finished ∧
          outcome =
            collectShards (List.replicate numShards.toNat none) none
              final.received

/-!
## Ranges that are covered once
-/

/-- The ranges that are passed on to be read. -/
def passedRanges (start stop : Timestamp) (numShards : UInt64) :
    List (Timestamp × Timestamp) :=
  if shardSize start stop numShards = 0 then
    [(start, stop)]
  else
    (List.range numShards.toNat).map (shardRange start stop numShards)

/-- The samples of a range, as a store reads them. -/
def samplesBetween (samples : List Sample) (start stop : Timestamp) :
    List Sample :=
  samples.filter (Sample.inRange start stop)

/-- No operation on the ends of the shards leaves the numbers of 64 bits. -/
structure WithoutOverflow (start stop : Timestamp) (numShards : UInt64) :
    Prop where
  range : FitsInt64 (stop.toInt - start.toInt)
  shards :
    let size := (shardSize start stop numShards).toInt
    size ≠ 0 →
      ∀ index < numShards.toNat,
        FitsInt64 (index * size) ∧
          FitsInt64 (start.toInt + index * size) ∧
            (index ≠ numShards.toNat - 1 →
              FitsInt64 (start.toInt + index * size + size))

/--
The ends of the shards are computed without overflow, and under every schedule
the samples of the range are returned once each, shard by shard.
-/
structure CoversOnce (executor : ParallelQueryExecutor) (samples : List Sample)
    (start stop : Timestamp) (numShards : UInt64) :
    Prop where
  withoutOverflow : WithoutOverflow start stop numShards
  once :
    ∀ outcome,
      executor.ExecutesTimeRangeParallel
          (fun shardStart shardEnd =>
            .ok (samplesBetween samples shardStart shardEnd))
          start stop numShards outcome →
        ∃ shards,
          outcome = .ok shards ∧
            shards =
              (passedRanges start stop numShards).map (fun range =>
                samplesBetween samples range.1 range.2) ∧
            shards.flatten.Perm (samplesBetween samples start stop)

/--
The length of the range fits 64 bits, the channel has room for the shards if
there are any, and no sample is at a border between shards.
-/
structure DividesSamples
    (samples : List Sample) (start stop : Timestamp) (numShards : UInt64) :
    Prop where
  fits : FitsInt64 (stop.toInt - start.toInt)
  hasRoom :
    numShards.toNat ≤ maxPermits ∨
      stop.toInt - start.toInt < numShards.toInt64.toInt.natAbs
  noBorder :
    numShards.toNat ≤ stop.toInt - start.toInt →
      ∀ sample ∈ samples, ∀ index, 0 < index → index < numShards.toNat →
        sample.timestamp.toInt ≠
          partStart start.toInt
            ((stop.toInt - start.toInt) / numShards.toNat) index

section Ranges

variable {start stop : Timestamp} {numShards : UInt64}

theorem toInt_numShards (below : numShards.toNat < 2 ^ 63) :
    numShards.toInt64.toInt = numShards.toNat := by
  have wraps : numShards.toInt64.toInt = (numShards.toNat : ℤ).bmod (2 ^ 64) :=
    BitVec.toInt_eq_toNat_bmod _
  rw [wraps]
  exact Int.bmod_eq_of_le (by omega) (by omega)

theorem lt_of_hasRoom (hasRoom : numShards.toNat ≤ maxPermits) :
    numShards.toNat < 2 ^ 63 :=
  lt_of_le_of_lt hasRoom (by decide)

theorem toInt_numShards_ne_zero (someShards : numShards ≠ 0) :
    numShards.toInt64.toInt ≠ 0 := by
  intro isZero
  have sameWord : numShards.toInt64 = 0 := Int64.toInt_inj.mp isZero
  exact someShards (congrArg Int64.toUInt64 sameWord)

variable (before : start < stop)
variable (fits : FitsInt64 (stop.toInt - start.toInt))

include before fits

theorem toInt_shardSize :
    (shardSize start stop numShards).toInt =
      (stop.toInt - start.toInt).tdiv numShards.toInt64.toInt := by
  have positive := Int64.lt_iff_toInt_lt.mp before
  have notLeast : stop - start ≠ Int64.minValue := by
    intro isLeast
    have sameInt := congrArg Int64.toInt isLeast
    rw [fits.toInt_sub] at sameInt
    have least : Int64.minValue.toInt = -2 ^ 63 := by decide
    omega
  rw [shardSize, Int64.toInt_div_of_ne_left _ _ notLeast, fits.toInt_sub]

theorem shardSize_eq_zero_iff (someShards : numShards ≠ 0) :
    shardSize start stop numShards = 0 ↔
      stop.toInt - start.toInt < numShards.toInt64.toInt.natAbs := by
  have positive := Int64.lt_iff_toInt_lt.mp before
  have divides := Int.natAbs_pos.mpr (toInt_numShards_ne_zero someShards)
  have zero : (0 : Int64).toInt = 0 := by decide
  rw [← Int64.toInt_inj, zero, toInt_shardSize before fits,
    ← Int.natAbs_eq_zero, Int.natAbs_tdiv]
  have quotient :=
    @Nat.div_eq_zero_iff_lt _ (stop.toInt - start.toInt).natAbs divides
  refine quotient.trans ?_
  omega

variable (hasRoom : numShards.toNat ≤ maxPermits)

include hasRoom

theorem toInt_shardSize_of_room :
    (shardSize start stop numShards).toInt =
      (stop.toInt - start.toInt) / numShards.toNat := by
  have positive := Int64.lt_iff_toInt_lt.mp before
  rw [toInt_shardSize before fits, toInt_numShards (lt_of_hasRoom hasRoom),
    Int.tdiv_eq_ediv_of_nonneg (by omega)]

variable (sharded : shardSize start stop numShards ≠ 0)

include sharded

theorem shardSize_bounds :
    0 < (shardSize start stop numShards).toInt ∧
      numShards.toNat * (shardSize start stop numShards).toInt ≤
        stop.toInt - start.toInt := by
  have positive := Int64.lt_iff_toInt_lt.mp before
  have notZero : (shardSize start stop numShards).toInt ≠ 0 :=
    fun isZero => sharded (Int64.toInt_inj.mp isZero)
  rw [toInt_shardSize_of_room before fits hasRoom] at notZero ⊢
  have notNegative : 0 ≤ (stop.toInt - start.toInt) / (numShards.toNat : ℤ) :=
    Int.ediv_nonneg (by omega) (Int.natCast_nonneg _)
  refine ⟨by omega, ?_⟩
  rw [mul_comm]
  refine Int.ediv_mul_le _ ?_
  intro none
  rw [none, Int.ediv_zero] at notZero
  exact notZero rfl

theorem ends_fit {index : ℕ} (within : index < numShards.toNat) :
    FitsInt64 (index * (shardSize start stop numShards).toInt) ∧
      FitsInt64 (start.toInt + index * (shardSize start stop numShards).toInt) ∧
      FitsInt64
        (start.toInt + index * (shardSize start stop numShards).toInt +
          (shardSize start stop numShards).toInt) := by
  obtain ⟨positive, inRange⟩ := shardSize_bounds before fits hasRoom sharded
  obtain ⟨afterStart, beforeStop⟩ := partStart_bounds positive inRange within
  rw [partStart] at afterStart beforeStop
  have least := start.le_toInt
  have greatest := stop.toInt_lt
  refine ⟨⟨?_, ?_⟩, ⟨?_, ?_⟩, ?_, ?_⟩ <;> obtain ⟨_, below⟩ := fits <;> linarith

theorem toInt_shardRange {index : ℕ} (within : index < numShards.toNat) :
    (shardRange start stop numShards index).1.toInt =
        partStart start.toInt (shardSize start stop numShards).toInt index ∧
      (shardRange start stop numShards index).2.toInt =
        partEnd start.toInt stop.toInt
          (shardSize start stop numShards).toInt numShards.toNat index := by
  obtain ⟨offsetFits, startFits, endFits⟩ :=
    ends_fit before fits hasRoom sharded within
  have isIndex : (Int64.ofNat index).toInt = index :=
    Int64.toInt_ofNat_of_lt (within.trans (lt_of_hasRoom hasRoom))
  rw [← isIndex] at offsetFits startFits endFits
  rw [← offsetFits.toInt_mul] at startFits endFits
  rw [← startFits.toInt_add] at endFits
  have isStart :
      (shardRange start stop numShards index).1.toInt =
        partStart start.toInt (shardSize start stop numShards).toInt index := by
    rw [shardRange, partStart, startFits.toInt_add, offsetFits.toInt_mul,
      isIndex]
  refine ⟨isStart, ?_⟩
  rw [shardRange]
  dsimp only
  rw [partEnd]
  split
  · rfl
  · rw [endFits.toInt_add, ← isStart]
    rfl

theorem inRange_shardRange_iff
    {index : ℕ} (within : index < numShards.toNat) (sample : Sample) :
    sample.inRange (shardRange start stop numShards index).1
        (shardRange start stop numShards index).2 ↔
      InPart start.toInt stop.toInt (shardSize start stop numShards).toInt
        numShards.toNat index sample.timestamp.toInt := by
  obtain ⟨isStart, isEnd⟩ := toInt_shardRange before fits hasRoom sharded within
  rw [Sample.inRange, Bool.and_eq_true, decide_eq_true_iff, decide_eq_true_iff,
    Int64.le_iff_toInt_le, Int64.le_iff_toInt_le, isStart, isEnd, InPart]

theorem passedRanges_perm_iff (samples : List Sample) :
    (((passedRanges start stop numShards).map fun range =>
            samplesBetween samples range.1 range.2).flatten).Perm
        (samplesBetween samples start stop) ↔
      ∀ sample ∈ samples, ∀ index, 0 < index → index < numShards.toNat →
        sample.timestamp.toInt ≠
          partStart start.toInt (shardSize start stop numShards).toInt
            index := by
  obtain ⟨positive, inside⟩ := shardSize_bounds before fits hasRoom sharded
  have someShards : 0 < numShards.toNat := by
    by_contra none
    rw [Nat.eq_zero_of_not_pos none] at hasRoom
    have noShards : numShards = 0 :=
      UInt64.toNat_inj.mp (Nat.eq_zero_of_not_pos none)
    rw [shardSize, noShards] at sharded
    exact sharded (Int64.div_zero)
  rw [passedRanges, if_neg sharded, map_map, ← flatMap_def]
  refine (flatMap_filter_perm_iff nodup_range).trans ?_
  refine forall₂_congr fun sample _ => ?_
  have covers :
      (∃ index ∈ List.range numShards.toNat,
          sample.inRange (shardRange start stop numShards index).1
            (shardRange start stop numShards index).2) ↔
        sample.inRange start stop := by
    have inside := exists_inPart_iff positive someShards inside
      sample.timestamp.toInt
    rw [Sample.inRange, Bool.and_eq_true, decide_eq_true_iff,
      decide_eq_true_iff, Int64.le_iff_toInt_le, Int64.le_iff_toInt_le,
      ← inside]
    refine exists_congr fun index => and_congr_right fun isIndex => ?_
    exact inRange_shardRange_iff before fits hasRoom sharded
      (mem_range.mp isIndex) sample
  rw [iff_true_intro covers, true_and]
  refine Iff.trans ?_ (inPart_unique_iff positive inside _)
  refine forall₂_congr fun first isFirst => ?_
  refine forall₂_congr fun second isSecond => ?_
  rw [inRange_shardRange_iff before fits hasRoom sharded (mem_range.mp isFirst),
    inRange_shardRange_iff before fits hasRoom sharded (mem_range.mp isSecond)]

end Ranges

/-!
## Slots that are filled
-/

theorem getElem?_foldl_set (read : ℕ → List Sample) (indices : List ℕ)
    (slots : List (Option (List Sample))) (slot : ℕ) :
    (indices.foldl
        (fun slots index => slots.set index (some (read index))) slots)[slot]? =
      if slot ∈ indices then slots[slot]?.map fun _ => some (read slot)
      else slots[slot]? := by
  induction indices generalizing slots with
  | nil => rw [foldl_nil, if_neg not_mem_nil]
  | cons index rest inductionHypothesis =>
    rw [foldl_cons, inductionHypothesis, getElem?_set]
    by_cases same : index = slot
    · subst same
      rw [if_pos rfl, if_pos mem_cons_self]
      by_cases inside : index < slots.length
      · rw [if_pos inside, getElem?_eq_getElem inside]
        split <;> rfl
      · rw [if_neg inside, getElem?_eq_none (Nat.le_of_not_lt inside)]
        split <;> rfl
    · simp only [if_neg same, mem_cons, Ne.symm same, false_or]

theorem collectShards_ok (read : ℕ → List Sample) (indices : List ℕ)
    (slots : List (Option (List Sample))) :
    collectShards slots none
        (indices.map fun index => .ok (index, read index)) =
      .ok
        (indices.foldl
          (fun slots index => slots.set index (some (read index)))
          slots).reduceOption := by
  induction indices generalizing slots with
  | nil => rfl
  | cons index rest inductionHypothesis => exact inductionHypothesis _

theorem collectShards_perm (read : ℕ → List Sample) {count : ℕ}
    {received : List (Except Error (ℕ × List Sample))}
    (all :
      received.Perm
        ((List.range count).filterMap fun index =>
          some (.ok (index, read index)))) :
    collectShards (List.replicate count none) none received =
      .ok ((List.range count).map read) := by
  obtain ⟨ordered, permuted, rfl⟩ := exists_perm_filterMap all
  have filled :
      ordered.foldl (fun slots index => slots.set index (some (read index)))
          (List.replicate count none) =
        ((List.range count).map read).map some := by
    refine ext_getElem? fun slot => ?_
    simp only [getElem?_foldl_set, permuted.mem_iff, mem_range]
    by_cases inside : slot < count
    · simp [inside]
    · simp [inside]
  rw [filterMap_eq_map', collectShards_ok, filled]
  change Except.ok (filterMap id (map some _)) = _
  rw [filterMap_map]
  simp

/-!
## The samples of the shards
-/

section Covering

variable {executor : ParallelQueryExecutor} {samples : List Sample}
variable {start stop : Timestamp} {numShards : UInt64}

theorem not_early (before : start < stop) (someShards : numShards ≠ 0) :
    ¬(stop ≤ start ∨ numShards = 0) := by
  rintro (notAfter | none)
  · exact Int64.not_le.mpr before notAfter
  · exact someShards none

theorem executesTimeRangeParallel_iff
    (before : start < stop) (someShards : numShards ≠ 0)
    (hasRoom : numShards.toNat ≤ maxPermits)
    (sharded : shardSize start stop numShards ≠ 0)
    {outcome : Except Fault (List (List Sample))} :
    executor.ExecutesTimeRangeParallel
        (fun shardStart shardEnd =>
          .ok (samplesBetween samples shardStart shardEnd))
        start stop numShards outcome ↔
      outcome =
        .ok
          ((passedRanges start stop numShards).map fun range =>
            samplesBetween samples range.1 range.2) := by
  have shardSamples (received : List (Except Error (ℕ × List Sample))) :
      received.Perm
          ((List.range numShards.toNat).filterMap fun index =>
            some
              (shardMessage
                (fun shardStart shardEnd =>
                  .ok (samplesBetween samples shardStart shardEnd))
                start stop numShards index)) →
        collectShards (List.replicate numShards.toNat none) none received =
          .ok
            ((passedRanges start stop numShards).map fun range =>
              samplesBetween samples range.1 range.2) := by
    intro all
    rw [passedRanges, if_neg sharded, map_map]
    exact collectShards_perm
      (fun index =>
        samplesBetween samples (shardRange start stop numShards index).1
          (shardRange start stop numShards index).2)
      all
  rw [ExecutesTimeRangeParallel, if_neg (not_early before someShards),
    if_neg sharded, if_neg (Nat.not_lt.mpr hasRoom)]
  constructor
  · rintro ⟨actions, final, run, finished, rfl⟩
    exact shardSamples _ (TaskPool.received_perm run finished)
  · rintro rfl
    obtain ⟨actions, final, run, finished, received⟩ :=
      TaskPool.received_iff.mpr (List.Perm.refl _)
    refine ⟨actions, final, run, finished, (shardSamples _ ?_).symm⟩
    rw [received]

theorem executesTimeRangeParallel_of_whole
    (before : start < stop) (someShards : numShards ≠ 0)
    (whole : shardSize start stop numShards = 0)
    {outcome : Except Fault (List (List Sample))} :
    executor.ExecutesTimeRangeParallel
        (fun shardStart shardEnd =>
          .ok (samplesBetween samples shardStart shardEnd))
        start stop numShards outcome ↔
      outcome = .ok [samplesBetween samples start stop] := by
  rw [ExecutesTimeRangeParallel, if_neg (not_early before someShards),
    if_pos whole]

theorem executesTimeRangeParallel_of_noRoom
    (before : start < stop) (someShards : numShards ≠ 0)
    (sharded : shardSize start stop numShards ≠ 0)
    (noRoom : maxPermits < numShards.toNat)
    {outcome : Except Fault (List (List Sample))} :
    executor.ExecutesTimeRangeParallel
        (fun shardStart shardEnd =>
          .ok (samplesBetween samples shardStart shardEnd))
        start stop numShards outcome ↔
      outcome = .error .panic := by
  rw [ExecutesTimeRangeParallel, if_neg (not_early before someShards),
    if_neg sharded, if_pos noRoom]

/--
The samples of a range are returned once, shard by shard, exactly when the
length of the range fits 64 bits, the channel has room for the shards, and no
sample is at a border between two of them.
-/
theorem coversOnce_iff (executor : ParallelQueryExecutor)
    (samples : List Sample) (before : start < stop)
    (someShards : numShards ≠ 0) :
    CoversOnce executor samples start stop numShards ↔
      DividesSamples samples start stop numShards := by
  constructor
  · intro covers
    have fits := covers.withoutOverflow.range
    have isWhole := @shardSize_eq_zero_iff _ _ numShards before fits someShards
    have hasRoom :
        numShards.toNat ≤ maxPermits ∨
          stop.toInt - start.toInt < numShards.toInt64.toInt.natAbs := by
      by_contra neither
      obtain ⟨noRoom, notWhole⟩ := not_or.mp neither
      have panics :=
        (@executesTimeRangeParallel_of_noRoom executor samples _ _ _ before
          someShards (fun whole => notWhole (isWhole.mp whole))
          (Nat.lt_of_not_le noRoom) _).mpr rfl
      obtain ⟨shards, isOk, _⟩ := covers.once _ panics
      cases isOk
    refine ⟨fits, hasRoom, fun divides => ?_⟩
    have below : numShards.toNat < 2 ^ 63 := by
      obtain ⟨_, short⟩ := fits
      omega
    have sharded : shardSize start stop numShards ≠ 0 := by
      intro whole
      have short := isWhole.mp whole
      rw [toInt_numShards below] at short
      omega
    have hasRoom :=
      hasRoom.resolve_right fun short => sharded (isWhole.mpr short)
    obtain ⟨shards, _, rfl, once⟩ :=
      covers.once _
        ((executesTimeRangeParallel_iff before someShards hasRoom
          sharded).mpr rfl)
    rw [passedRanges_perm_iff before fits hasRoom sharded,
      toInt_shardSize_of_room before fits hasRoom] at once
    exact once
  · intro divides
    have isWhole :=
      @shardSize_eq_zero_iff _ _ numShards before divides.fits someShards
    by_cases whole : shardSize start stop numShards = 0
    · refine ⟨⟨divides.fits, fun sharded => ?_⟩, ?_⟩
      · rw [whole] at sharded
        exact absurd rfl sharded
      · intro outcome executes
        rw [executesTimeRangeParallel_of_whole before someShards whole]
          at executes
        refine ⟨_, executes, ?_, ?_⟩
        · rw [passedRanges, if_pos whole]
          rfl
        · rw [flatten_singleton]
    · have hasRoom :=
        divides.hasRoom.resolve_right fun short => whole (isWhole.mpr short)
      refine ⟨⟨divides.fits, fun _ index within => ?_⟩, ?_⟩
      · obtain ⟨offset, shardStart, shardEnd⟩ :=
          ends_fit before divides.fits hasRoom whole within
        exact ⟨offset, shardStart, fun _ => shardEnd⟩
      · intro outcome executes
        rw [executesTimeRangeParallel_iff before someShards hasRoom whole]
          at executes
        refine ⟨_, executes, rfl, ?_⟩
        rw [passedRanges_perm_iff before divides.fits hasRoom whole,
          toInt_shardSize_of_room before divides.fits hasRoom]
        refine divides.noBorder ?_
        rw [isWhole, toInt_numShards (lt_of_hasRoom hasRoom)] at whole
        omega

end Covering

/-- Two shards of a range cover samples away from the middle. -/
theorem coversOnce_halves :
    CoversOnce (ParallelQueryExecutor.new 4) [⟨0, 1⟩, ⟨7, 2⟩, ⟨10, 3⟩] 0 10
      2 := by
  refine (coversOnce_iff _ _ (by decide) (by decide)).mpr ⟨?_, ?_, ?_⟩
  · rw [FitsInt64]
    decide
  · exact .inl (by decide)
  · intro _ sample isSample index notFirst within
    have isOne : index = 1 := by
      have below : index < 2 := within
      omega
    rw [isOne]
    revert sample
    decide

/-- A sample in the middle is in both halves. -/
theorem middle_is_doubled :
    ¬CoversOnce (ParallelQueryExecutor.new 4) [⟨5, 1⟩] 0 10 2 := by
  intro covers
  obtain ⟨shards, _, rfl, once⟩ :=
    covers.once _
      ((executesTimeRangeParallel_iff (by decide) (by decide) (by decide)
        (by decide)).mpr rfl)
  exact absurd once.length_eq (by decide)

end ParallelQueryExecutor

end ChronoDB.Query
