import Mathlib.Data.List.Induction
import ChronoDB.Memstore.Chunk

namespace ChronoDB.Memstore

open Library List

/-!
# The two vectors of a chunk

A chunk keeps timestamps and values in two vectors, which it sorts together when
a sample is not later than all others.  It is a stable sorted multiset for every
order of arrival and every type of values.
-/

structure ChunkVectors (Stored : Type) where
  timestamps : List Timestamp
  values : List Stored
  minTimestamp : Timestamp
  maxTimestamp : Timestamp
  deriving Repr, DecidableEq

namespace ChunkVectors

variable {Stored : Type}

def new : ChunkVectors Stored where
  timestamps := []
  values := []
  minTimestamp := Int64.maxValue
  maxTimestamp := Int64.minValue

/-- The order of the sort by timestamp. -/
def timeKey (sample : Timestamp × Stored) : ℤ :=
  sample.1.toInt

def sortByTimestamp (chunk : ChunkVectors Stored) : ChunkVectors Stored :=
  let indexed := sortByKey timeKey (chunk.timestamps.zip chunk.values)
  {
    chunk with
    timestamps := indexed.map Prod.fst
    values := indexed.map Prod.snd
  }

def push (chunk : ChunkVectors Stored) (sample : Timestamp × Stored) :
    ChunkVectors Stored :=
  {
    chunk with
    timestamps := chunk.timestamps ++ [sample.1]
    values := chunk.values ++ [sample.2]
  }

def add (chunk : ChunkVectors Stored) (sample : Timestamp × Stored) :
    ChunkVectors Stored :=
  let pushed :=
    if chunk.timestamps ≠ [] ∧ sample.1 ≤ chunk.maxTimestamp then
      (chunk.push sample).sortByTimestamp
    else
      chunk.push sample
  {
    pushed with
    minTimestamp := min chunk.minTimestamp sample.1
    maxTimestamp := max chunk.maxTimestamp sample.1
  }

def isEmpty (chunk : ChunkVectors Stored) : Bool :=
  chunk.timestamps.isEmpty

def samples (chunk : ChunkVectors Stored) : List (Timestamp × Stored) :=
  chunk.timestamps.zip chunk.values

def samplesInRange (chunk : ChunkVectors Stored) (start stop : Timestamp) :
    List (Timestamp × Stored) :=
  (chunk.timestamps.zip chunk.values).filter fun sample =>
    start ≤ sample.1 && sample.1 ≤ stop

/-- `min_timestamp()`, which hides the bound of an empty chunk. -/
def getMinTimestamp (chunk : ChunkVectors Stored) : Option Timestamp :=
  if chunk.isEmpty then none else some chunk.minTimestamp

def getMaxTimestamp (chunk : ChunkVectors Stored) : Option Timestamp :=
  if chunk.isEmpty then none else some chunk.maxTimestamp

/-- The chunk after a sequence of calls of `add`. -/
def collect (added : List (Timestamp × Stored)) : ChunkVectors Stored :=
  added.foldl add new

def Paired (chunk : ChunkVectors Stored) : Prop :=
  chunk.timestamps.length = chunk.values.length

/-!
## One call
-/

variable {chunk : ChunkVectors Stored}

theorem Paired.vectors (paired : chunk.Paired) :
    chunk.samples.map Prod.fst = chunk.timestamps ∧
      chunk.samples.map Prod.snd = chunk.values :=
  ⟨map_fst_zip (Nat.le_of_eq paired), map_snd_zip (Nat.le_of_eq paired.symm)⟩

theorem paired_push (paired : chunk.Paired) (sample : Timestamp × Stored) :
    (chunk.push sample).Paired := by
  rw [Paired, push, length_append, length_append, paired]
  rfl

theorem samples_push (paired : chunk.Paired) (sample : Timestamp × Stored) :
    (chunk.push sample).samples = chunk.samples ++ [sample] := by
  rw [samples, push, zip_append paired]
  rfl

theorem paired_sortByTimestamp (chunk : ChunkVectors Stored) :
    chunk.sortByTimestamp.Paired := by
  rw [Paired, sortByTimestamp, length_map, length_map]

@[simp] theorem samples_sortByTimestamp (chunk : ChunkVectors Stored) :
    chunk.sortByTimestamp.samples = sortByKey timeKey chunk.samples := by
  rw [samples, sortByTimestamp, zip_map', samples]
  exact map_id _

theorem Paired.add (paired : chunk.Paired) (sample : Timestamp × Stored) :
    (chunk.add sample).Paired := by
  rw [ChunkVectors.add]
  split
  · exact paired_sortByTimestamp _
  · exact paired_push paired sample

theorem samples_add (paired : chunk.Paired) (sample : Timestamp × Stored) :
    (chunk.add sample).samples =
      if chunk.timestamps ≠ [] ∧ sample.1 ≤ chunk.maxTimestamp then
        sortByKey timeKey (chunk.samples ++ [sample])
      else
        chunk.samples ++ [sample] := by
  rw [add, ← samples_push paired]
  split
  · exact samples_sortByTimestamp _
  · rfl

/-!
## Every order of arrival
-/

/-- What a chunk is after the samples `added` arrived, in any order. -/
structure StableSorted (added : List (Timestamp × Stored))
    (chunk : ChunkVectors Stored) : Prop where
  /-- Each timestamp has its value. -/
  paired : chunk.Paired
  sorted : chunk.timestamps.Pairwise (· ≤ ·)
  /-- The pairs are the added ones, as often as they were added. -/
  exactly : chunk.samples.Perm added
  /-- Pairs with equal timestamps stay in the order of arrival. -/
  stable : ∀ timestamp,
    chunk.samples.filter (fun sample => sample.1 = timestamp) =
      added.filter fun sample => sample.1 = timestamp
  minimum : ∀ timestamp,
    chunk.getMinTimestamp = some timestamp ↔
      timestamp ∈ added.map Prod.fst ∧ ∀ sample ∈ added, timestamp ≤ sample.1
  maximum : ∀ timestamp,
    chunk.getMaxTimestamp = some timestamp ↔
      timestamp ∈ added.map Prod.fst ∧ ∀ sample ∈ added, sample.1 ≤ timestamp
  inRange : ∀ start stop,
    chunk.samplesInRange start stop =
      chunk.samples.filter fun sample =>
        start ≤ sample.1 && sample.1 ≤ stop

/-- What every call preserves, with the bounds of the empty chunk. -/
structure Sorting (added : List (Timestamp × Stored))
    (chunk : ChunkVectors Stored) : Prop where
  paired : chunk.Paired
  sorted : chunk.samples.Pairwise (KeyLE timeKey)
  exactly : chunk.samples.Perm added
  stable : ∀ key,
    chunk.samples.filter (fun sample => timeKey sample = key) =
      added.filter fun sample => timeKey sample = key
  lower : ∀ sample ∈ added, chunk.minTimestamp ≤ sample.1
  upper : ∀ sample ∈ added, sample.1 ≤ chunk.maxTimestamp
  lowerTaken : chunk.minTimestamp ∈ Int64.maxValue :: added.map Prod.fst
  upperTaken : chunk.maxTimestamp ∈ Int64.minValue :: added.map Prod.fst

theorem sorting_new : Sorting [] (new : ChunkVectors Stored) where
  paired := rfl
  sorted := List.Pairwise.nil
  exactly := List.Perm.refl _
  stable := fun _ => rfl
  lower := fun _ isAdded => absurd isAdded not_mem_nil
  upper := fun _ isAdded => absurd isAdded not_mem_nil
  lowerTaken := mem_cons_self
  upperTaken := mem_cons_self

section Invariant

variable {added : List (Timestamp × Stored)}

theorem Sorting.timestamps_eq_nil_iff (sorting : Sorting added chunk) :
    chunk.timestamps = [] ↔ added = [] := by
  rw [← sorting.paired.vectors.1, map_eq_nil_iff]
  constructor
  · intro noSamples
    exact nil_perm.mp (noSamples ▸ sorting.exactly)
  · intro nothing
    exact perm_nil.mp (nothing ▸ sorting.exactly)

theorem Sorting.sorted_append
    (sorting : Sorting added chunk) {sample : Timestamp × Stored}
    (later : ¬(chunk.timestamps ≠ [] ∧ sample.1 ≤ chunk.maxTimestamp)) :
    (chunk.samples ++ [sample]).Pairwise (KeyLE timeKey) := by
  refine pairwise_append.mpr ⟨sorting.sorted, pairwise_singleton _ _, ?_⟩
  intro earlier isEarlier last isLast
  rw [mem_singleton.mp isLast]
  have isAdded := sorting.exactly.mem_iff.mp isEarlier
  have nonempty : chunk.timestamps ≠ [] := fun noTimestamps =>
    ne_nil_of_mem isAdded (sorting.timestamps_eq_nil_iff.mp noTimestamps)
  have bounded := Int64.le_iff_toInt_le.mp (sorting.upper earlier isAdded)
  have beyond : ¬ sample.1 ≤ chunk.maxTimestamp := fun notLater =>
    later ⟨nonempty, notLater⟩
  rw [Int64.le_iff_toInt_le] at beyond
  show earlier.1.toInt ≤ sample.1.toInt
  omega

/-- One call of `add` keeps the invariant, whichever branch it takes. -/
theorem Sorting.add
    (sorting : Sorting added chunk) (sample : Timestamp × Stored) :
    Sorting (added ++ [sample]) (chunk.add sample) where
  paired := sorting.paired.add sample
  sorted := by
    rw [samples_add sorting.paired]
    split
    · exact pairwise_sortByKey timeKey _
    · next later => exact sorting.sorted_append later
  exactly := by
    have appended := sorting.exactly.append_right [sample]
    rw [samples_add sorting.paired]
    split
    · exact (sortByKey_perm timeKey _).trans appended
    · exact appended
  stable := by
    intro key
    have appended :
        (chunk.samples ++ [sample]).filter
            (fun sample => timeKey sample = key) =
          (added ++ [sample]).filter fun sample => timeKey sample = key := by
      rw [filter_append, filter_append, sorting.stable]
    rw [samples_add sorting.paired]
    split
    · rw [filter_sortByKey, appended]
    · exact appended
  lower := by
    intro other isAdded
    show min chunk.minTimestamp sample.1 ≤ other.1
    rcases mem_append.mp isAdded with isEarlier | isLast
    · exact Int64.le_trans Std.min_le_left (sorting.lower other isEarlier)
    · rw [mem_singleton.mp isLast]
      exact Std.min_le_right
  upper := by
    intro other isAdded
    show other.1 ≤ max chunk.maxTimestamp sample.1
    rcases mem_append.mp isAdded with isEarlier | isLast
    · exact Int64.le_trans (sorting.upper other isEarlier)
        (le_max_timestamp chunk.maxTimestamp sample.1).1
    · rw [mem_singleton.mp isLast]
      exact (le_max_timestamp chunk.maxTimestamp sample.1).2
  lowerTaken := by
    show min chunk.minTimestamp sample.1 ∈ _
    rw [map_append, ← cons_append]
    have taken :
        min chunk.minTimestamp sample.1 = chunk.minTimestamp ∨
          min chunk.minTimestamp sample.1 = sample.1 :=
      Std.min_eq_or
    rcases taken with isBound | isNew
    · rw [isBound]
      exact mem_append_left _ sorting.lowerTaken
    · rw [isNew]
      exact mem_append_right _ mem_cons_self
  upperTaken := by
    show max chunk.maxTimestamp sample.1 ∈ _
    rw [map_append, ← cons_append]
    rcases max_timestamp_eq_or chunk.maxTimestamp sample.1 with
      isBound | isNew
    · rw [isBound]
      exact mem_append_left _ sorting.upperTaken
    · rw [isNew]
      exact mem_append_right _ mem_cons_self

theorem Sorting.minTimestamp_mem
    (sorting : Sorting added chunk) (nonempty : added ≠ []) :
    chunk.minTimestamp ∈ added.map Prod.fst := by
  rcases mem_cons.mp sorting.lowerTaken with isInitial | isTaken
  · obtain ⟨sample, isAdded⟩ := exists_mem_of_ne_nil added nonempty
    have atLeast := sorting.lower sample isAdded
    rw [isInitial] at atLeast ⊢
    have initial := Int64.le_antisymm atLeast (Int64.le_maxValue _)
    exact initial ▸ mem_map_of_mem isAdded
  · exact isTaken

theorem Sorting.maxTimestamp_mem
    (sorting : Sorting added chunk) (nonempty : added ≠ []) :
    chunk.maxTimestamp ∈ added.map Prod.fst := by
  rcases mem_cons.mp sorting.upperTaken with isInitial | isTaken
  · obtain ⟨sample, isAdded⟩ := exists_mem_of_ne_nil added nonempty
    have atMost := sorting.upper sample isAdded
    rw [isInitial] at atMost ⊢
    have initial := Int64.le_antisymm atMost (Int64.minValue_le _)
    exact initial ▸ mem_map_of_mem isAdded
  · exact isTaken

theorem Sorting.minimum
    (sorting : Sorting added chunk) (timestamp : Timestamp) :
    chunk.getMinTimestamp = some timestamp ↔
      timestamp ∈ added.map Prod.fst ∧
        ∀ sample ∈ added, timestamp ≤ sample.1 := by
  rw [getMinTimestamp, isEmpty]
  by_cases nothing : added = []
  · rw [sorting.timestamps_eq_nil_iff.mpr nothing, nothing]
    simp
  · have nonempty :
        chunk.timestamps.isEmpty = false :=
      isEmpty_eq_false_iff.mpr fun noTimestamps =>
        nothing (sorting.timestamps_eq_nil_iff.mp noTimestamps)
    rw [nonempty, if_neg Bool.false_ne_true, Option.some_inj]
    constructor
    · rintro rfl
      exact ⟨sorting.minTimestamp_mem nothing, sorting.lower⟩
    · rintro ⟨isTaken, least⟩
      obtain ⟨sample, isAdded, rfl⟩ := mem_map.mp isTaken
      obtain ⟨first, isFirst, isBound⟩ :=
        mem_map.mp (sorting.minTimestamp_mem nothing)
      exact Int64.le_antisymm (sorting.lower sample isAdded)
        (isBound ▸ least first isFirst)

theorem Sorting.maximum
    (sorting : Sorting added chunk) (timestamp : Timestamp) :
    chunk.getMaxTimestamp = some timestamp ↔
      timestamp ∈ added.map Prod.fst ∧
        ∀ sample ∈ added, sample.1 ≤ timestamp := by
  rw [getMaxTimestamp, isEmpty]
  by_cases nothing : added = []
  · rw [sorting.timestamps_eq_nil_iff.mpr nothing, nothing]
    simp
  · have nonempty :
        chunk.timestamps.isEmpty = false :=
      isEmpty_eq_false_iff.mpr fun noTimestamps =>
        nothing (sorting.timestamps_eq_nil_iff.mp noTimestamps)
    rw [nonempty, if_neg Bool.false_ne_true, Option.some_inj]
    constructor
    · rintro rfl
      exact ⟨sorting.maxTimestamp_mem nothing, sorting.upper⟩
    · rintro ⟨isTaken, greatest⟩
      obtain ⟨sample, isAdded, rfl⟩ := mem_map.mp isTaken
      obtain ⟨last, isLast, isBound⟩ :=
        mem_map.mp (sorting.maxTimestamp_mem nothing)
      exact Int64.le_antisymm (isBound ▸ greatest last isLast)
        (sorting.upper sample isAdded)

theorem Sorting.stableSorted (sorting : Sorting added chunk) :
    StableSorted added chunk where
  paired := sorting.paired
  sorted := by
    rw [← sorting.paired.vectors.1, pairwise_map]
    refine sorting.sorted.imp ?_
    intro first second notAfter
    exact Int64.le_iff_toInt_le.mpr notAfter
  exactly := sorting.exactly
  stable := by
    intro timestamp
    have sameTest :
        (fun sample : Timestamp × Stored =>
            decide (timeKey sample = timestamp.toInt)) =
          fun sample => decide (sample.1 = timestamp) := by
      funext sample
      exact decide_eq_decide.mpr Int64.toInt_inj
    have stable := sorting.stable timestamp.toInt
    rw [sameTest] at stable
    exact stable
  minimum := sorting.minimum
  maximum := sorting.maximum
  inRange := fun _ _ => rfl

end Invariant

theorem sorting_collect (added : List (Timestamp × Stored)) :
    Sorting added (collect added) := by
  induction added using List.reverseRecOn with
  | nil => exact sorting_new
  | append_singleton earlier last sorting =>
    rw [collect, foldl_append]
    exact sorting.add last

/-- A chunk is a stable sorted multiset after any sequence of calls. -/
theorem stableSorted_collect (added : List (Timestamp × Stored)) :
    StableSorted added (collect added) :=
  (sorting_collect added).stableSorted

/-!
## The chunk of the store
-/

/-- A chunk whose values are those of a sample, as the store keeps it. -/
def toChunk (chunk : ChunkVectors Value) : Chunk where
  samples := chunk.samples.map fun sample => ⟨sample.1, sample.2⟩
  minTimestamp := chunk.minTimestamp
  maxTimestamp := chunk.maxTimestamp

theorem toChunk_add {chunk : ChunkVectors Value} (paired : chunk.Paired)
    (sample : Timestamp × Value) :
    (chunk.add sample).toChunk = chunk.toChunk.add ⟨sample.1, sample.2⟩ := by
  have sameEmpty : chunk.timestamps ≠ [] ↔ chunk.toChunk.samples ≠ [] := by
    rw [toChunk, ← paired.vectors.1]
    simp
  have appended :
      (chunk.samples ++ [sample]).map
          (fun sample => (⟨sample.1, sample.2⟩ : Sample)) =
        chunk.toChunk.samples ++ [⟨sample.1, sample.2⟩] :=
    map_append
  have bounds :
      (chunk.add sample).minTimestamp = min chunk.minTimestamp sample.1 ∧
        (chunk.add sample).maxTimestamp = max chunk.maxTimestamp sample.1 :=
    ⟨rfl, rfl⟩
  rw [toChunk, Chunk.add, samples_add paired, bounds.1, bounds.2]
  refine congrArg (fun samples =>
    Chunk.mk samples (min chunk.minTimestamp sample.1)
      (max chunk.maxTimestamp sample.1)) ?_
  by_cases notLater : chunk.timestamps ≠ [] ∧ sample.1 ≤ chunk.maxTimestamp
  · rw [if_pos notLater, if_pos ⟨sameEmpty.mp notLater.1, notLater.2⟩,
      ← appended]
    have sameKey (sample : Timestamp × Value) :
        Sample.sortKey ⟨sample.1, sample.2⟩ = timeKey sample :=
      rfl
    exact map_sortByKey timeKey sameKey _
  · rw [if_neg notLater, if_neg fun alsoNotLater =>
      notLater ⟨sameEmpty.mpr alsoNotLater.1, alsoNotLater.2⟩, ← appended]

theorem toChunk_collect (added : List (Timestamp × Value)) :
    (collect added).toChunk =
      (added.map fun sample => (⟨sample.1, sample.2⟩ : Sample)).foldl
        Chunk.add Chunk.new := by
  induction added using List.reverseRecOn with
  | nil => rfl
  | append_singleton earlier last sameChunk =>
    have oneMore : collect (earlier ++ [last]) = (collect earlier).add last :=
      foldl_append
    rw [oneMore, toChunk_add (sorting_collect earlier).paired, sameChunk,
      map_append, foldl_append]
    rfl

end ChunkVectors

end ChronoDB.Memstore
