import ChronoDB.Model.Types

namespace ChronoDB.Memstore

open Library

/-!
# Chunks and series in memory

A chunk keeps its samples sorted by timestamp; its two parallel vectors are kept
as one list of samples.  A series is a list of frozen chunks and the chunk that
is being filled, so its samples are sorted within a chunk only.
-/

structure Chunk where
  samples : List Sample
  minTimestamp : Timestamp
  maxTimestamp : Timestamp
  deriving Repr, DecidableEq

namespace Chunk

def defaultCapacity : ℕ := 120

def new : Chunk where
  samples := []
  minTimestamp := Int64.maxValue
  maxTimestamp := Int64.minValue

/-- Append a sample, and sort when it is not later than all others. -/
def add (chunk : Chunk) (sample : Sample) : Chunk where
  samples :=
    if chunk.samples ≠ [] ∧ sample.timestamp ≤ chunk.maxTimestamp then
      sortByKey Sample.sortKey (chunk.samples ++ [sample])
    else
      chunk.samples ++ [sample]
  minTimestamp := min chunk.minTimestamp sample.timestamp
  maxTimestamp := max chunk.maxTimestamp sample.timestamp

def isFull (chunk : Chunk) : Bool :=
  defaultCapacity ≤ chunk.samples.length

def samplesInRange (chunk : Chunk) (start stop : Timestamp) :
    List Sample :=
  chunk.samples.filter (Sample.inRange start stop)

theorem add_perm (chunk : Chunk) (sample : Sample) :
    (chunk.add sample).samples.Perm (chunk.samples ++ [sample]) := by
  rw [add]
  split
  · exact sortByKey_perm Sample.sortKey _
  · exact List.Perm.refl _

end Chunk

structure TimeSeriesEntry where
  labels : Labels
  currentChunk : Chunk
  frozenChunks : List Chunk
  totalSamples : ℕ
  deriving Repr, DecidableEq

namespace TimeSeriesEntry

def new (labels : Labels) : TimeSeriesEntry where
  labels := labels
  currentChunk := Chunk.new
  frozenChunks := []
  totalSamples := 0

def addSample (entry : TimeSeriesEntry) (sample : Sample) :
    TimeSeriesEntry :=
  let current :=
    if entry.currentChunk.isFull then Chunk.new else entry.currentChunk
  let frozen :=
    if entry.currentChunk.isFull then
      entry.frozenChunks ++ [entry.currentChunk]
    else
      entry.frozenChunks
  {
    entry with
    currentChunk := current.add sample
    frozenChunks := frozen
    totalSamples := entry.totalSamples + 1
  }

def samplesInRange (entry : TimeSeriesEntry) (start stop : Timestamp) :
    List Sample :=
  (entry.frozenChunks.flatMap fun chunk =>
    chunk.samplesInRange start stop) ++
    entry.currentChunk.samplesInRange start stop

def samples (entry : TimeSeriesEntry) : List Sample :=
  entry.frozenChunks.flatMap Chunk.samples ++ entry.currentChunk.samples

@[simp] theorem samples_new (labels : Labels) :
    (new labels).samples = [] :=
  rfl

@[simp] theorem labels_new (labels : Labels) :
    (new labels).labels = labels :=
  rfl

@[simp] theorem labels_addSample (entry : TimeSeriesEntry) (sample : Sample) :
    (entry.addSample sample).labels = entry.labels :=
  rfl

theorem samplesInRange_eq (entry : TimeSeriesEntry) (start stop : Timestamp) :
    entry.samplesInRange start stop =
      entry.samples.filter (Sample.inRange start stop) := by
  rw [samples, List.filter_append, List.filter_flatMap]
  rfl

theorem samplesInRange_full (entry : TimeSeriesEntry) :
    entry.samplesInRange Int64.minValue Int64.maxValue = entry.samples := by
  rw [samplesInRange_eq]
  exact List.filter_eq_self.mpr fun sample _ =>
    Sample.inRange_full sample

theorem addSample_perm (entry : TimeSeriesEntry) (sample : Sample) :
    (entry.addSample sample).samples.Perm (entry.samples ++ [sample]) := by
  rw [samples, samples, addSample]
  split
  · rw [List.flatMap_append, List.flatMap_singleton]
    exact List.Perm.append_left _ (Chunk.add_perm Chunk.new sample)
  · rw [List.append_assoc]
    exact List.Perm.append_left _ (Chunk.add_perm entry.currentChunk sample)

end TimeSeriesEntry

end ChronoDB.Memstore
