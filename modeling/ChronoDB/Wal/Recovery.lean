import ChronoDB.Wal.Json
import ChronoDB.Wal.Reader

namespace ChronoDB.Wal

open Library List WalReader

/-!
# Recovery

`recover` reads every segment file, passes over those that fail, and sorts what
it read by the wall-clock timestamps of the entries.  Two questions are settled
here: which entries come back after the last file was cut off at some byte, and
when the entries come back in the order in which they were logged.
-/

/-- `Wal::log_write`; `millis` is the wall-clock reading of the entry. -/
def logWrite (seriesId : TimeSeriesId) (labels : Labels) (samples : List Sample)
    (millis : Timestamp) (now : UInt64) (clock : RotationClock) :
    WalOperation :=
  .write (WalEntry.write seriesId labels samples millis) now clock

/-- `Wal::log_delete`; `millis` is the wall-clock reading of the entry. -/
def logDelete (seriesId : TimeSeriesId) (millis : Timestamp) (now : UInt64)
    (clock : RotationClock) :
    WalOperation :=
  .write (WalEntry.delete seriesId millis) now clock

namespace WalEntry

def sortKey (entry : WalEntry) : ℤ :=
  entry.timestamp.toInt

end WalEntry

variable (codec : WalCodec)

/-- The entries of one segment; a segment that fails contributes none. -/
def segmentEntries (data : Bytes) : List WalEntry :=
  match readSegment codec data with
  | .ok entries => entries
  | .error _ => []

def recover (contents : LogContents) : Except Error (List WalEntry) :=
  let entries :=
    (listSegments contents).flatMap fun segment =>
      match readSegmentFile codec contents segment with
      | .ok segmentEntries => segmentEntries
      | .error _ => []
  .ok (sortByKey WalEntry.sortKey entries)

theorem recover_eq (contents : LogContents) :
    recover codec contents =
      .ok (sortByKey WalEntry.sortKey
        (contents.inOrder.flatMap (segmentEntries codec))) := by
  rw [recover, NumberedMap.flatMap_inOrder, listSegments]
  congr 3
  funext segment
  cases found : contents.lookup segment <;>
    simp [readSegmentFile, segmentEntries, found]

theorem segmentEntries_bytes
    {file : SegmentFile} (hasHeader : file.header.isSome) :
    segmentEntries codec (file.bytes codec) =
      readable codec file.frames := by
  rw [segmentEntries, readSegment_bytes codec hasHeader]

theorem segmentEntries_below
    {dir : SegmentDir} {last : ℕ} (wellFormed : dir.WellFormed last)
    (bound : ℕ) :
    (NumberedMap.below (dir.contents codec) bound).flatMap
        (segmentEntries codec) =
      (NumberedMap.below dir bound).flatMap fun file =>
        readable codec file.frames := by
  rw [SegmentDir.contents, NumberedMap.below_mapValues, flatMap_map]
  refine flatMap_congr fun file member => ?_
  obtain ⟨segment, found⟩ := NumberedMap.mem_below member
  exact segmentEntries_bytes codec (wellFormed.hasHeader segment file found)

theorem append_eq_append_of_sublist
    {firstPart first secondPart second : List WalEntry}
    (firstSublist : firstPart.Sublist first)
    (secondSublist : secondPart.Sublist second) :
    firstPart ++ secondPart = first ++ second ↔
      firstPart = first ∧ secondPart = second := by
  constructor
  · intro whole
    have lengths := congrArg List.length whole
    have firstLength := firstSublist.length_le
    have secondLength := secondSublist.length_le
    rw [length_append, length_append] at lengths
    exact ⟨firstSublist.eq_of_length (by omega),
      secondSublist.eq_of_length (by omega)⟩
  · rintro ⟨rfl, rfl⟩
    rfl

theorem readable_sublist (files : List SegmentFile) :
    (files.flatMap fun file => readable codec file.frames)
      |>.Sublist ((files.flatMap SegmentFile.frames).map Frame.entry) := by
  induction files with
  | nil => exact List.Sublist.slnil
  | cons file files inductionHypothesis =>
    simpa using
      ( readable_prefix codec file.frames).sublist.append
        inductionHypothesis

theorem readable_files_iff (files : List SegmentFile) :
    (files.flatMap fun file => readable codec file.frames) =
        (files.flatMap SegmentFile.frames).map Frame.entry ↔
      ∀ frame ∈ files.flatMap SegmentFile.frames,
        frame.entry.Recordable codec := by
  induction files with
  | nil => simp
  | cons file files inductionHypothesis =>
    have firstPart := ( readable_prefix codec file.frames).sublist
    have otherPart := readable_sublist codec files
    rw [flatMap_cons, flatMap_cons, map_append, append_eq_append_of_sublist
      firstPart otherPart, readable_eq_iff, inductionHypothesis]
    simp [or_imp, forall_and]

/-!
## Log order
-/

theorem recover_contents
    {dir : SegmentDir} {last : ℕ} (wellFormed : dir.WellFormed last) :
    recover codec (dir.contents codec) =
      .ok (sortByKey WalEntry.sortKey
        (dir.inOrder.flatMap fun file =>
          readable codec file.frames)) := by
  obtain ⟨file, found⟩ := wellFormed.lookup_last
  have foundBytes :
      (dir.contents codec).lookup last = some (file.bytes codec) := by
    simp [SegmentDir.contents, found]
  have upToBytes : NumberedMap.UpTo (dir.contents codec) last :=
    wellFormed.upTo.mapValues _
  rw [recover_eq, upToBytes.inOrder_eq foundBytes, flatMap_append,
    segmentEntries_below codec wellFormed,
    wellFormed.upTo.inOrder_eq found, flatMap_append]
  simp [segmentEntries_bytes codec (wellFormed.hasHeader last file found)]

/--
A log comes back as it was logged exactly when its timestamps never decrease
and none of its entries is oversized.
-/
theorem recover_eq_entries_iff
    {dir : SegmentDir} {last : ℕ} (wellFormed : dir.WellFormed last) :
    recover codec (dir.contents codec) = .ok (dir.frames.map Frame.entry) ↔
      (dir.frames.map Frame.entry).Pairwise
          (fun first second => first.timestamp ≤ second.timestamp) ∧
        ∀ entry ∈ dir.frames.map Frame.entry, entry.Recordable codec := by
  have sameOrder :
      KeyLE WalEntry.sortKey =
        fun first second => first.timestamp ≤ second.timestamp := by
    funext first second
    exact propext Int64.le_iff_toInt_le.symm
  have ascending :
      sortByKey WalEntry.sortKey (dir.frames.map Frame.entry) =
          dir.frames.map Frame.entry ↔
        (dir.frames.map Frame.entry).Pairwise (KeyLE WalEntry.sortKey) :=
    sortByKey_eq_self_iff WalEntry.sortKey
  have parts := readable_sublist codec dir.inOrder
  have complete := readable_files_iff codec dir.inOrder
  rw [← SegmentDir.frames] at parts complete
  rw [recover_contents codec wellFormed, Except.ok.injEq, ← sameOrder,
    forall_mem_map]
  constructor
  · intro sorted
    have lengths := congrArg List.length sorted
    rw [length_sortByKey] at lengths
    have whole := parts.eq_of_length lengths
    rw [whole] at sorted
    exact ⟨ascending.mp sorted, complete.mp whole⟩
  · rintro ⟨ordered, recordable⟩
    rw [complete.mpr recordable]
    exact ascending.mpr ordered

variable {codec}

end ChronoDB.Wal
