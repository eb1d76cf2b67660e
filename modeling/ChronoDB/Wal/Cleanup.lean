import ChronoDB.Library.FiniteMap
import ChronoDB.Model.Types
import Mathlib.Algebra.Order.BigOperators.Group.List

namespace ChronoDB.Wal

open Library List

/-!
# Cleaning up old segments

The cleanup goes through the segment files in the order of their creation and
deletes those that are too old or too much.  What it deletes follows from the
files that come earlier in that order, and has to do with the numbers of the
segments only if they were created in the order of their numbers.
-/

structure WalConfig where
  retentionHours : UInt64
  maxRetentionBytes : UInt64
  minSegmentsToKeep : ℕ
  deriving Repr, DecidableEq

/-- The metadata of a segment file; `created` is in seconds, if it is known. -/
structure SegmentMetadata where
  created : Option Int64
  len : UInt64
  deriving Repr, DecidableEq

/-- Seconds since the epoch; times before it count as the epoch. -/
def secondsSinceEpoch (time : Int64) : ℕ :=
  time.toInt.toNat

/-- One of `segments_by_time`. -/
structure SegmentInfo where
  segment : ℕ
  createdSecs : ℕ
  size : ℕ
  deriving Repr, DecidableEq

abbrev SegmentFiles := NumberedMap SegmentMetadata

/-- What the cleanup reads of every segment file, in the order of the numbers. -/
def segmentInfos (files : SegmentFiles) : List SegmentInfo :=
  files.numbers.filterMap fun segment =>
    (files.lookup segment).map fun metadata => {
      segment := segment
      createdSecs := secondsSinceEpoch (metadata.created.getD 0)
      size := metadata.len.toNat
    }

def totalSize (infos : List SegmentInfo) : ℕ :=
  (infos.map SegmentInfo.size).sum

/-- A difference of unsigned numbers; an underflow panics. -/
def checkedSub (first second : ℕ) : Except Fault ℕ :=
  if second ≤ first then .ok (first - second) else .error .panic

/-- An unsigned number of 64 bits; an overflow panics. -/
def checkedU64 (number : ℕ) : Except Fault ℕ :=
  if number < 2 ^ 64 then .ok number else .error .panic

inductive Judgement where
  | stop
  | keep
  | delete
  deriving Repr, DecidableEq

/-- The numbers that the loop of a cleanup does not change. -/
structure CleanupBounds where
  now : ℕ
  retentionSecs : ℕ
  maxBytes : ℕ
  minSegments : ℕ
  totalSegments : ℕ
  bytesTotal : ℕ
  deriving Repr, DecidableEq

namespace CleanupBounds

variable (bounds : CleanupBounds)

/-- What the loop decides about a segment. -/
def judge (deletedCount bytesToDelete : ℕ) (info : SegmentInfo) :
    Except Fault Judgement := do
  let segmentsLeft ← checkedSub bounds.totalSegments deletedCount
  if segmentsLeft ≤ bounds.minSegments then
    .ok .stop
  else do
    let ageSecs ← checkedSub bounds.now info.createdSecs
    let bytesLeft ← checkedSub bounds.bytesTotal bytesToDelete
    if bounds.retentionSecs < ageSecs ∨ bounds.maxBytes < bytesLeft then
      .ok .delete
    else
      .ok .keep

/--
The loop over the segments that are left, with those that are deleted so far.
The removal of some files fails.
-/
def cleanupFrom (removes : ℕ → Bool) (deleted : List SegmentInfo) :
    List SegmentInfo → Except Fault ℕ × List SegmentInfo
  | [] => (.ok deleted.length, deleted)
  | info :: rest =>
    match bounds.judge deleted.length (totalSize deleted) info with
    | .error fault => (.error fault, deleted)
    | .ok .stop => (.ok deleted.length, deleted)
    | .ok .keep => cleanupFrom removes deleted rest
    | .ok .delete =>
      if removes info.segment then
        cleanupFrom removes (deleted ++ [info]) rest
      else
        cleanupFrom removes deleted rest

end CleanupBounds

/--
`Wal::cleanup_old_segments` at a time, and the segments whose files it deletes
before it returns or panics.
-/
def cleanupOldSegments
    (config : WalConfig) (files : SegmentFiles) (clock : Int64)
    (removes : ℕ → Bool) :
    Except Fault ℕ × List SegmentInfo :=
  let infos := segmentInfos files
  if files.numbers.length ≤ config.minSegmentsToKeep then
    (.ok 0, [])
  else
    match checkedU64 (config.retentionHours.toNat * 3600) with
    | .error fault => (.error fault, [])
    | .ok retentionSecs =>
      match checkedU64 (totalSize infos) with
      | .error fault => (.error fault, [])
      | .ok bytesTotal =>
        CleanupBounds.cleanupFrom {
          now := secondsSinceEpoch clock
          retentionSecs := retentionSecs
          maxBytes := config.maxRetentionBytes.toNat
          minSegments := config.minSegmentsToKeep
          totalSegments := infos.length
          bytesTotal := bytesTotal
        } removes [] (sortByKey SegmentInfo.createdSecs infos)

/-!
## What the loop deletes
-/

@[simp] theorem totalSize_nil : totalSize [] = 0 :=
  rfl

@[simp] theorem totalSize_append (first second : List SegmentInfo) :
    totalSize (first ++ second) = totalSize first + totalSize second := by
  rw [totalSize, map_append, sum_append]
  rfl

@[simp] theorem totalSize_cons (info : SegmentInfo) (rest : List SegmentInfo) :
    totalSize (info :: rest) = info.size + totalSize rest := by
  rw [totalSize, map_cons, sum_cons]
  rfl

namespace CleanupBounds

variable (bounds : CleanupBounds) (removes : ℕ → Bool)

/-- A segment is too old, or all without some others are too much. -/
def Expired (others : List SegmentInfo) (info : SegmentInfo) : Prop :=
  bounds.retentionSecs < bounds.now - info.createdSecs ∨
    bounds.maxBytes + totalSize others < bounds.bytesTotal

/--
Enough segments stay without those before a segment whose files can be removed,
and it has expired when those are gone.
-/
def Due (earlier : List SegmentInfo) (info : SegmentInfo) : Prop :=
  bounds.minSegments + earlier.length < bounds.totalSegments ∧
    bounds.Expired earlier info

instance (others : List SegmentInfo) (info : SegmentInfo) :
    Decidable (bounds.Expired others info) :=
  inferInstanceAs (Decidable (_ ∨ _))

instance (earlier : List SegmentInfo) (info : SegmentInfo) :
    Decidable (bounds.Due earlier info) :=
  inferInstanceAs (Decidable (_ ∧ _))

def removable (info : SegmentInfo) : List SegmentInfo :=
  if removes info.segment then [info] else []

def goneAt (earlier : List SegmentInfo) (info : SegmentInfo) :
    List SegmentInfo :=
  if bounds.Due earlier info then removable removes info else []

/-- The segments that are due, with the removable ones before them. -/
def goneFrom (earlier : List SegmentInfo) :
    List SegmentInfo → List SegmentInfo
  | [] => []
  | info :: rest =>
    bounds.goneAt removes earlier info ++
      goneFrom (earlier ++ removable removes info) rest

/-- A segment of the future is reached before enough others are deleted. -/
def ReachesFuture (deleted earlier rest : List SegmentInfo) : Prop :=
  ∃ before info after,
    rest = before ++ info :: after ∧
      bounds.now < info.createdSecs ∧
        bounds.minSegments +
            (deleted ++ bounds.goneFrom removes earlier before).length <
          bounds.totalSegments

section Loop

variable {bounds removes} {deleted earlier rest : List SegmentInfo}
variable {info : SegmentInfo}

theorem judge_eq (counted : deleted.length ≤ bounds.totalSegments)
    (sized : totalSize deleted ≤ bounds.bytesTotal) :
    bounds.judge deleted.length (totalSize deleted) info =
      if bounds.totalSegments ≤ bounds.minSegments + deleted.length then
        .ok .stop
      else if bounds.now < info.createdSecs then
        .error .panic
      else if bounds.Expired deleted info then
        .ok .delete
      else
        .ok .keep := by
  rw [judge, checkedSub, if_pos counted]
  change (if _ then _ else _) = _
  by_cases few : bounds.totalSegments ≤ bounds.minSegments + deleted.length
  · rw [if_pos (by omega), if_pos few]
  · rw [if_neg (by omega), if_neg few, checkedSub, checkedSub, if_pos sized]
    by_cases future : bounds.now < info.createdSecs
    · rw [if_neg (Nat.not_le.mpr future), if_pos future]
      rfl
    · rw [if_pos (Nat.le_of_not_lt future), if_neg future]
      change (if _ then _ else _) = _
      refine if_congr ?_ rfl rfl
      rw [Expired]
      refine or_congr_right ?_
      omega

theorem goneFrom_eq_nil
    (full : bounds.totalSegments ≤ bounds.minSegments + earlier.length) :
    bounds.goneFrom removes earlier rest = [] := by
  induction rest generalizing earlier with
  | nil => rfl
  | cons info rest inductionHypothesis =>
    rw [goneFrom, goneAt, if_neg (fun due => by have := due.1; omega),
      nil_append]
    refine inductionHypothesis ?_
    rw [length_append]
    omega

theorem reachesFuture_cons_iff :
    bounds.ReachesFuture removes deleted earlier (info :: rest) ↔
      bounds.now < info.createdSecs ∧
          bounds.minSegments + deleted.length < bounds.totalSegments ∨
        bounds.ReachesFuture removes
          (deleted ++ bounds.goneAt removes earlier info)
          (earlier ++ removable removes info) rest := by
  constructor
  · rintro ⟨before, future, after, isSplit, isFuture, isReached⟩
    cases before with
    | nil =>
      cases isSplit
      refine .inl ⟨isFuture, ?_⟩
      rwa [goneFrom, append_nil] at isReached
    | cons first before =>
      cases isSplit
      refine .inr ⟨before, future, after, rfl, isFuture, ?_⟩
      rwa [goneFrom, ← append_assoc] at isReached
  · rintro (⟨isFuture, isReached⟩ |
      ⟨before, future, after, rfl, isFuture, isReached⟩)
    · exact ⟨[], info, rest, rfl, isFuture,
        by rwa [goneFrom, append_nil]⟩
    · refine ⟨info :: before, future, after, rfl, isFuture, ?_⟩
      rwa [goneFrom, ← append_assoc]

/--
Either all removable segments so far are deleted, or what is left has not
expired and never will.
-/
def Phase (deleted earlier rest : List SegmentInfo) : Prop :=
  deleted = earlier ∨
    deleted.length ≤ earlier.length ∧
      totalSize deleted ≤ totalSize earlier ∧
        ∀ info ∈ rest, ¬bounds.Expired deleted info

theorem Phase.length_le (phase : bounds.Phase deleted earlier rest) :
    deleted.length ≤ earlier.length ∧
      totalSize deleted ≤ totalSize earlier := by
  rcases phase with rfl | ⟨counted, sized, _⟩
  · exact ⟨Nat.le_refl _, Nat.le_refl _⟩
  · exact ⟨counted, sized⟩

theorem removable_le :
    (removable removes info).length ≤ 1 ∧
      totalSize (removable removes info) ≤ info.size := by
  rw [removable]
  split <;> simp

/-- A segment that has expired when the loop gets to it is due. -/
theorem Phase.due (phase : bounds.Phase deleted earlier (info :: rest))
    (enough : bounds.minSegments + deleted.length < bounds.totalSegments)
    (expired : bounds.Expired deleted info) :
    deleted = earlier ∧ bounds.Due earlier info := by
  have all : deleted = earlier :=
    phase.resolve_right fun settled =>
      settled.2.2 info mem_cons_self expired
  exact ⟨all, all ▸ enough, all ▸ expired⟩

theorem Phase.not_due (phase : bounds.Phase deleted earlier rest)
    (retained : ¬bounds.Expired deleted info) :
    ¬bounds.Due earlier info := by
  have smaller := phase.length_le.2
  rintro ⟨_, tooOld | tooMuch⟩
  · exact retained (.inl tooOld)
  · exact retained (.inr (by omega))

theorem Phase.settled (phase : bounds.Phase deleted earlier (info :: rest))
    (isFirst : ∀ later ∈ rest, info.createdSecs ≤ later.createdSecs)
    (retained : ¬bounds.Expired deleted info) :
    bounds.Phase deleted (earlier ++ removable removes info) rest := by
  obtain ⟨fewer, smaller⟩ := phase.length_le
  refine .inr ⟨?_, ?_, fun later member => ?_⟩
  · rw [length_append]
    exact Nat.le_add_right_of_le fewer
  · rw [totalSize_append]
    exact Nat.le_add_right_of_le smaller
  · have older := isFirst later member
    rintro (tooOld | tooMuch)
    · exact retained (.inl (by omega))
    · exact retained (.inr tooMuch)

theorem cleanupFrom_of_delete
    (judged :
      bounds.judge deleted.length (totalSize deleted) info = .ok .delete) :
    bounds.cleanupFrom removes deleted (info :: rest) =
      bounds.cleanupFrom removes (deleted ++ removable removes info) rest := by
  rw [cleanupFrom, judged, removable]
  by_cases canRemove : removes info.segment = true <;> simp [canRemove]

theorem cleanupFrom_of_keep
    (judged :
      bounds.judge deleted.length (totalSize deleted) info = .ok .keep) :
    bounds.cleanupFrom removes deleted (info :: rest) =
      bounds.cleanupFrom removes deleted rest := by
  rw [cleanupFrom, judged]

/--
The loop deletes what is due, and panics if it reaches a segment of the future.
-/
theorem cleanupFrom_spec
    (sorted :
      rest.Pairwise (KeyLE SegmentInfo.createdSecs))
    (counted : deleted.length + rest.length ≤ bounds.totalSegments)
    (sized : totalSize deleted + totalSize rest ≤ bounds.bytesTotal)
    (phase : bounds.Phase deleted earlier rest) :
    (bounds.ReachesFuture removes deleted earlier rest →
        (bounds.cleanupFrom removes deleted rest).1 = .error .panic) ∧
      (¬bounds.ReachesFuture removes deleted earlier rest →
        bounds.cleanupFrom removes deleted rest =
          (.ok (deleted ++ bounds.goneFrom removes earlier rest).length,
            deleted ++ bounds.goneFrom removes earlier rest)) := by
  induction rest generalizing deleted earlier with
  | nil =>
    constructor
    · rintro ⟨before, info, after, isSplit, _⟩
      exact absurd isSplit.symm
        (append_ne_nil_of_right_ne_nil _ (cons_ne_nil _ _))
    · intro _
      rw [cleanupFrom, goneFrom, append_nil]
  | cons info rest inductionHypothesis =>
    obtain ⟨isFirst, sortedRest⟩ := pairwise_cons.mp sorted
    rw [length_cons] at counted
    rw [totalSize_cons] at sized
    obtain ⟨fewer, smaller⟩ := phase.length_le
    have judged := @judge_eq bounds deleted info (by omega) (by omega)
    by_cases full : bounds.totalSegments ≤ bounds.minSegments + deleted.length
    · rw [if_pos full] at judged
      constructor
      · rintro ⟨before, future, after, _, _, isReached⟩
        rw [length_append] at isReached
        omega
      · intro _
        rw [cleanupFrom, judged, goneFrom_eq_nil (by omega), append_nil]
    · rw [if_neg full] at judged
      by_cases future : bounds.now < info.createdSecs
      · rw [if_pos future] at judged
        have reaches :
            bounds.ReachesFuture removes deleted earlier (info :: rest) :=
          reachesFuture_cons_iff.mpr (.inl ⟨future, by omega⟩)
        refine ⟨fun _ => ?_, fun notReached => absurd reaches notReached⟩
        rw [cleanupFrom, judged]
      · rw [if_neg future] at judged
        rw [reachesFuture_cons_iff, or_iff_right fun first =>
          future first.1, goneFrom]
        by_cases expired : bounds.Expired deleted info
        · rw [if_pos expired] at judged
          obtain ⟨all, due⟩ := phase.due (Nat.lt_of_not_le full) expired
          obtain ⟨short, small⟩ := @removable_le removes info
          rw [goneAt, if_pos due, ← append_assoc, cleanupFrom_of_delete judged]
          refine inductionHypothesis sortedRest ?_ ?_ (.inl (by rw [all]))
          · rw [length_append]
            omega
          · rw [totalSize_append]
            omega
        · rw [if_neg expired] at judged
          rw [goneAt, if_neg (phase.not_due expired), append_nil,
            nil_append, cleanupFrom_of_keep judged]
          exact inductionHypothesis sortedRest (by omega) (by omega)
            (phase.settled isFirst expired)

theorem keepsEnough_cleanupFrom
    (counted : deleted.length + rest.length ≤ bounds.totalSegments)
    (enough :
      deleted = [] ∨
        bounds.minSegments + deleted.length ≤ bounds.totalSegments) :
    (bounds.cleanupFrom removes deleted rest).2 = [] ∨
      bounds.minSegments + (bounds.cleanupFrom removes deleted rest).2.length ≤
        bounds.totalSegments := by
  induction rest generalizing deleted with
  | nil => exact enough
  | cons info rest inductionHypothesis =>
    rw [length_cons] at counted
    rw [cleanupFrom]
    cases judged : bounds.judge deleted.length (totalSize deleted) info with
    | error fault => exact enough
    | ok judgement =>
      cases judgement with
      | stop => exact enough
      | keep => exact inductionHypothesis (by omega) enough
      | delete =>
        dsimp only
        split
        · refine inductionHypothesis ?_ (.inr ?_)
          · rw [length_append, length_singleton]
            omega
          · have left :
                ¬bounds.totalSegments - deleted.length ≤
                  bounds.minSegments := by
              intro few
              rw [judge, checkedSub, if_pos (by omega)] at judged
              change (if _ then _ else _) = _ at judged
              rw [if_pos few] at judged
              cases judged
            rw [length_append, length_singleton]
            omega
        · exact inductionHypothesis (by omega) enough

end Loop

end CleanupBounds

/-!
## The order of creation
-/

namespace SegmentInfo

/-- A segment comes first in the order of creation and then of the numbers. -/
def Before (first second : SegmentInfo) : Prop :=
  first.createdSecs < second.createdSecs ∨
    first.createdSecs = second.createdSecs ∧ first.segment < second.segment

instance (first second : SegmentInfo) : Decidable (first.Before second) :=
  inferInstanceAs (Decidable (_ ∨ _))

theorem not_before_self (info : SegmentInfo) : ¬info.Before info := by
  rintro (earlier | ⟨_, smaller⟩)
  · exact Nat.lt_irrefl _ earlier
  · exact Nat.lt_irrefl _ smaller

theorem Before.asymm
    {first second : SegmentInfo} (before : first.Before second) :
    ¬second.Before first := by
  rw [Before] at before ⊢
  omega

end SegmentInfo

/-- The segments before another one. -/
def earlierThan (infos : List SegmentInfo) (info : SegmentInfo) :
    List SegmentInfo :=
  infos.filter fun other => other.Before info

theorem earlierThan_append_cons
    {before after : List SegmentInfo} {info : SegmentInfo}
    (ordered : (before ++ info :: after).Pairwise SegmentInfo.Before) :
    earlierThan (before ++ info :: after) info = before := by
  obtain ⟨_, orderedAfter, apart⟩ := pairwise_append.mp ordered
  have allBefore : before.filter (fun other => other.Before info) = before :=
    filter_eq_self.mpr fun other member =>
      decide_eq_true (apart other member info mem_cons_self)
  have noneAfter :
      (info :: after).filter (fun other => other.Before info) = [] := by
    refine filter_eq_nil_iff.mpr fun other member isBefore => ?_
    rcases mem_cons.mp member with rfl | later
    · exact other.not_before_self (of_decide_eq_true isBefore)
    · exact (rel_of_pairwise_cons orderedAfter later).asymm
        (of_decide_eq_true isBefore)
  rw [earlierThan, filter_append, allBefore, noneAfter, append_nil]

theorem segmentInfos_ordered (files : SegmentFiles) :
    (segmentInfos files).Pairwise fun first second =>
      first.segment < second.segment := by
  have distinct : files.numbers.Nodup :=
    (sortByKey_perm id files.keys).nodup_iff.mpr files.keys_nodup
  have ascending : files.numbers.Pairwise (· < ·) :=
    ((pairwise_sortByKey id files.keys).and distinct).imp
      fun bounds => Nat.lt_of_le_of_ne bounds.1 bounds.2
  refine List.Pairwise.filterMap _ ?_ ascending
  intro number other less first isFirst second isSecond
  obtain ⟨_, _, rfl⟩ := Option.map_eq_some_iff.mp isFirst
  obtain ⟨_, _, rfl⟩ := Option.map_eq_some_iff.mp isSecond
  exact less

theorem map_segment_segmentInfos (files : SegmentFiles) :
    (segmentInfos files).map SegmentInfo.segment = files.numbers := by
  have known :
      ∀ number ∈ files.numbers, ∃ metadata,
        files.lookup number = some metadata := by
    intro number member
    refine Option.isSome_iff_exists.mp (AList.lookup_isSome.mpr ?_)
    exact AList.mem_keys.mpr ((mem_sortByKey id).mp member)
  rw [segmentInfos, map_filterMap]
  refine (filterMap_congr (g := some) fun number member => ?_).trans
    filterMap_some
  obtain ⟨metadata, found⟩ := known number member
  rw [found]
  rfl

theorem sorted_by_creation (files : SegmentFiles) :
    (sortByKey SegmentInfo.createdSecs (segmentInfos files)).Pairwise
      SegmentInfo.Before :=
  pairwise_sortByKey_of_pairwise SegmentInfo.createdSecs
    (segmentInfos_ordered files)

/-!
## What a cleanup deletes
-/

theorem totalSize_of_perm
    {infos others : List SegmentInfo} (permuted : infos.Perm others) :
    totalSize infos = totalSize others :=
  (permuted.map SegmentInfo.size).sum_eq

namespace CleanupBounds

variable (bounds : CleanupBounds) (removes : ℕ → Bool)

/--
The file of a segment can be removed, and the segment is due when the removable
ones that come before it are gone.
-/
def Gone (infos : List SegmentInfo) (info : SegmentInfo) : Prop :=
  removes info.segment = true ∧
    bounds.Due
      ((earlierThan infos info).filter fun other => removes other.segment) info

instance (infos : List SegmentInfo) (info : SegmentInfo) :
    Decidable (bounds.Gone removes infos info) :=
  inferInstanceAs (Decidable (_ ∧ _))

/-- A segment of the future comes before enough other segments are gone. -/
def FutureReached (infos : List SegmentInfo) : Prop :=
  ∃ info ∈ infos,
    bounds.now < info.createdSecs ∧
      bounds.minSegments +
          ((earlierThan infos info).filter fun other =>
            bounds.Gone removes infos other).length <
        bounds.totalSegments

variable {bounds removes}

theorem gone_congr
    {infos others : List SegmentInfo} (permuted : infos.Perm others)
    (info : SegmentInfo) :
    bounds.Gone removes infos info ↔ bounds.Gone removes others info := by
  have earlier :=
    (permuted.filter fun other => other.Before info).filter
      fun other => removes other.segment
  rw [Gone, Gone, Due, Due, Expired, Expired, earlierThan, earlierThan,
    earlier.length_eq, totalSize_of_perm earlier]

theorem goneFrom_eq_filter {before between after : List SegmentInfo}
    (ordered :
      (before ++ (between ++ after)).Pairwise SegmentInfo.Before) :
    bounds.goneFrom removes
        (before.filter fun other => removes other.segment) between =
      between.filter fun info =>
        bounds.Gone removes (before ++ (between ++ after)) info := by
  induction between generalizing before with
  | nil => rfl
  | cons info between inductionHypothesis =>
    rw [cons_append] at ordered ⊢
    have earlier := earlierThan_append_cons ordered
    have shifted :
        before ++ info :: (between ++ after) =
          (before ++ [info]) ++ (between ++ after) := by
      simp
    have removed :
        before.filter (fun other => removes other.segment) ++
            removable removes info =
          (before ++ [info]).filter fun other => removes other.segment := by
      rw [filter_append, removable, filter_singleton]
      cases removes info.segment <;> rfl
    have isGone :
        bounds.Gone removes (before ++ info :: (between ++ after)) info ↔
          removes info.segment = true ∧
            bounds.Due
              (before.filter fun other => removes other.segment) info := by
      rw [Gone, earlier]
    rw [goneFrom, goneAt, removed, filter_cons, removable]
    rw [shifted] at ordered isGone ⊢
    rw [inductionHypothesis ordered]
    simp only [isGone]
    by_cases canRemove : removes info.segment = true <;>
      by_cases due :
        bounds.Due (before.filter fun other => removes other.segment) info <;>
      simp [canRemove, due]

theorem reachesFuture_iff
    {infos sorted : List SegmentInfo} (permuted : sorted.Perm infos)
    (ordered : sorted.Pairwise SegmentInfo.Before) :
    bounds.ReachesFuture removes [] [] sorted ↔
      bounds.FutureReached removes infos := by
  have counted :
      ∀ {before after : List SegmentInfo} {info : SegmentInfo},
        sorted = before ++ info :: after →
          (bounds.goneFrom removes [] before).length =
            ((earlierThan infos info).filter fun other =>
              bounds.Gone removes infos other).length := by
    rintro before after info rfl
    have isGone :=
      @goneFrom_eq_filter bounds removes [] before (info :: after) ordered
    rw [filter_nil, nil_append] at isGone
    have earlier := earlierThan_append_cons ordered
    have sameEarlier :
        (earlierThan (before ++ info :: after) info).Perm
          (earlierThan infos info) :=
      permuted.filter _
    rw [earlier] at sameEarlier
    rw [isGone, ← (sameEarlier.filter _).length_eq]
    simp only [gone_congr permuted]
  constructor
  · rintro ⟨before, info, after, isSplit, future, isReached⟩
    refine ⟨info, permuted.mem_iff.mp (by simp [isSplit]), future, ?_⟩
    rwa [nil_append, counted isSplit] at isReached
  · rintro ⟨info, member, future, isReached⟩
    obtain ⟨before, after, isSplit⟩ :=
      mem_iff_append.mp (permuted.mem_iff.mpr member)
    refine ⟨before, info, after, isSplit, future, ?_⟩
    rwa [nil_append, counted isSplit]

end CleanupBounds

/-- The numbers of the loop, without regard to the width of the products. -/
def cleanupBounds (config : WalConfig) (files : SegmentFiles) (clock : Int64) :
    CleanupBounds where
  now := secondsSinceEpoch clock
  retentionSecs := config.retentionHours.toNat * 3600
  maxBytes := config.maxRetentionBytes.toNat
  minSegments := config.minSegmentsToKeep
  totalSegments := (segmentInfos files).length
  bytesTotal := totalSize (segmentInfos files)

theorem cleanupOldSegments_eq {config : WalConfig} {files : SegmentFiles}
    (many : config.minSegmentsToKeep < files.numbers.length) (clock : Int64)
    (removes : ℕ → Bool) :
    cleanupOldSegments config files clock removes =
      if config.retentionHours.toNat * 3600 < 2 ^ 64 ∧
          totalSize (segmentInfos files) < 2 ^ 64 then
        (cleanupBounds config files clock).cleanupFrom removes []
          (sortByKey SegmentInfo.createdSecs (segmentInfos files))
      else
        (.error .panic, []) := by
  rw [cleanupOldSegments, if_neg (Nat.not_le.mpr many)]
  by_cases fits : config.retentionHours.toNat * 3600 < 2 ^ 64
  · rw [checkedU64, if_pos fits]
    by_cases sized : totalSize (segmentInfos files) < 2 ^ 64
    · rw [checkedU64, if_pos sized, if_pos ⟨fits, sized⟩]
      rfl
    · rw [checkedU64, if_neg sized, if_neg fun both => sized both.2]
  · rw [checkedU64, if_neg fits, if_neg fun both => fits both.1]

/--
A cleanup keeps the log: it returns, no segment stays in front of one that it
deletes, and the open segment and enough others stay.
-/
structure KeepsLog (config : WalConfig) (files : SegmentFiles) (openSegment : ℕ)
    (outcome : Except Fault ℕ × List SegmentInfo) :
    Prop where
  returns : ∃ deletedCount, outcome.1 = .ok deletedCount
  isPrefix :
    ∀ deleted ∈ outcome.2, ∀ segment ∈ files.numbers,
      segment < deleted.segment → ∃ other ∈ outcome.2, other.segment = segment
  keepsOpen : ∀ deleted ∈ outcome.2, deleted.segment ≠ openSegment
  keepsEnough :
    min config.minSegmentsToKeep files.numbers.length ≤
      (files.numbers.filter fun segment =>
        segment ∉ outcome.2.map SegmentInfo.segment).length

/--
The numbers of a cleanup fit, segments of the future are not reached, and what
is gone is a set of the lowest numbers without the open segment.
-/
structure Orderly (config : WalConfig) (files : SegmentFiles) (clock : Int64)
    (removes : ℕ → Bool) (openSegment : ℕ) :
    Prop where
  retentionFits : config.retentionHours.toNat * 3600 < 2 ^ 64
  sizeFits : totalSize (segmentInfos files) < 2 ^ 64
  noFuture :
    ¬(cleanupBounds config files clock).FutureReached removes
      (segmentInfos files)
  inOrder :
    ∀ first ∈ segmentInfos files, ∀ second ∈ segmentInfos files,
      first.segment < second.segment →
        (cleanupBounds config files clock).Gone removes (segmentInfos files)
            second →
          (cleanupBounds config files clock).Gone removes
            (segmentInfos files) first
  openStays :
    ∀ info ∈ segmentInfos files,
      info.segment = openSegment →
        ¬(cleanupBounds config files clock).Gone removes (segmentInfos files)
          info

section Outcome

variable {config : WalConfig} {files : SegmentFiles} {clock : Int64}
variable {removes : ℕ → Bool}

theorem nodup_numbers (files : SegmentFiles) : files.numbers.Nodup :=
  (sortByKey_perm id files.keys).nodup_iff.mpr files.keys_nodup

theorem keepsEnough_of_sublist {deleted : List SegmentInfo}
    (isPart :
      deleted.Sublist (sortByKey SegmentInfo.createdSecs (segmentInfos files)))
    (enough :
      deleted = [] ∨
        config.minSegmentsToKeep + deleted.length ≤ files.numbers.length) :
    min config.minSegmentsToKeep files.numbers.length ≤
      (files.numbers.filter fun segment =>
        segment ∉ deleted.map SegmentInfo.segment).length := by
  have permuted :
      ((sortByKey SegmentInfo.createdSecs (segmentInfos files)).map
        SegmentInfo.segment).Perm files.numbers := by
    rw [← map_segment_segmentInfos]
    exact (sortByKey_perm _ _).map _
  have isSublist := isPart.map SegmentInfo.segment
  have distinct : (deleted.map SegmentInfo.segment).Nodup :=
    isSublist.nodup (permuted.nodup_iff.mpr (nodup_numbers files))
  have isDeleted :
      (files.numbers.filter fun segment =>
        segment ∈ deleted.map SegmentInfo.segment).Perm
        (deleted.map SegmentInfo.segment) := by
    refine (perm_ext_iff_of_nodup ((nodup_numbers files).filter _)
      distinct).mpr fun segment => ?_
    rw [mem_filter, decide_eq_true_iff]
    exact and_iff_right_of_imp fun member =>
      permuted.mem_iff.mp (isSublist.subset member)
  have parts :=
    length_eq_length_filter_add (l := files.numbers)
      fun segment => decide (segment ∈ deleted.map SegmentInfo.segment)
  rw [isDeleted.length_eq, length_map] at parts
  simp only [← decide_not] at parts
  rcases enough with rfl | enough
  · simp
  · omega

theorem eq_of_segment_eq
    {first second : SegmentInfo} (isFirst : first ∈ segmentInfos files)
    (isSecond : second ∈ segmentInfos files)
    (same : first.segment = second.segment) :
    first = second := by
  have distinct : ((segmentInfos files).map SegmentInfo.segment).Nodup := by
    rw [map_segment_segmentInfos]
    exact nodup_numbers files
  exact inj_on_of_nodup_map distinct isFirst isSecond same

theorem cleanupFrom_cases
    (config : WalConfig) (files : SegmentFiles) (clock : Int64)
    (removes : ℕ → Bool) :
    let bounds := cleanupBounds config files clock
    let infos := segmentInfos files
    let sorted := sortByKey SegmentInfo.createdSecs infos
    (bounds.FutureReached removes infos ∧
        (bounds.cleanupFrom removes [] sorted).1 = .error .panic) ∨
      ¬bounds.FutureReached removes infos ∧
        ∃ deletedCount,
          bounds.cleanupFrom removes [] sorted =
            (.ok deletedCount,
              sorted.filter fun info => bounds.Gone removes infos info) := by
  intro bounds infos sorted
  have permuted : sorted.Perm infos := sortByKey_perm _ _
  have ordered : sorted.Pairwise SegmentInfo.Before := sorted_by_creation files
  obtain ⟨panics, returns⟩ :=
    @CleanupBounds.cleanupFrom_spec bounds removes [] [] sorted
      (pairwise_sortByKey _ _)
      (by
        rw [length_nil, Nat.zero_add, permuted.length_eq]
        exact Nat.le_refl _)
      (by
        rw [totalSize_nil, Nat.zero_add, totalSize_of_perm permuted]
        exact Nat.le_refl _)
      (.inl rfl)
  have isGone :=
    @CleanupBounds.goneFrom_eq_filter bounds removes [] sorted []
      (by rwa [nil_append, append_nil])
  rw [filter_nil, nil_append, append_nil] at isGone
  simp only [CleanupBounds.gone_congr permuted] at isGone
  rw [CleanupBounds.reachesFuture_iff permuted ordered] at panics returns
  by_cases reached : bounds.FutureReached removes infos
  · exact .inl ⟨reached, panics reached⟩
  · have outcome := returns reached
    rw [nil_append, isGone] at outcome
    exact .inr ⟨reached, _, outcome⟩

abbrev goneInOrder (config : WalConfig) (files : SegmentFiles) (clock : Int64)
    (removes : ℕ → Bool) :
    List SegmentInfo :=
  (sortByKey SegmentInfo.createdSecs (segmentInfos files)).filter fun info =>
    (cleanupBounds config files clock).Gone removes (segmentInfos files) info

theorem mem_goneInOrder {info : SegmentInfo} :
    info ∈ goneInOrder config files clock removes ↔
      info ∈ segmentInfos files ∧
        (cleanupBounds config files clock).Gone removes (segmentInfos files)
          info := by
  rw [mem_filter, mem_sortByKey, decide_eq_true_iff]

theorem inOrder_of_keepsLog {openSegment deletedCount : ℕ}
    (keeps :
      KeepsLog config files openSegment
        (.ok deletedCount, goneInOrder config files clock removes))
    {first second : SegmentInfo} (isFirst : first ∈ segmentInfos files)
    (isSecond : second ∈ segmentInfos files)
    (less : first.segment < second.segment)
    (gone :
      (cleanupBounds config files clock).Gone removes (segmentInfos files)
        second) :
    (cleanupBounds config files clock).Gone removes (segmentInfos files)
      first := by
  have inNumbers : first.segment ∈ files.numbers := by
    rw [← map_segment_segmentInfos]
    exact mem_map_of_mem isFirst
  obtain ⟨other, otherDeleted, same⟩ :=
    keeps.isPrefix second (mem_goneInOrder.mpr ⟨isSecond, gone⟩)
      first.segment inNumbers less
  obtain ⟨isOther, otherGone⟩ := mem_goneInOrder.mp otherDeleted
  rwa [← eq_of_segment_eq isOther isFirst same]

theorem Orderly.keepsLog
    {openSegment : ℕ} (orderly : Orderly config files clock removes openSegment)
    (deletedCount : ℕ)
    (enough :
      goneInOrder config files clock removes = [] ∨
        config.minSegmentsToKeep +
            (goneInOrder config files clock removes).length ≤
          files.numbers.length) :
    KeepsLog config files openSegment
      (.ok deletedCount, goneInOrder config files clock removes) where
  returns := ⟨deletedCount, rfl⟩
  isPrefix := by
    intro deleted member segment inNumbers less
    rw [← map_segment_segmentInfos] at inNumbers
    obtain ⟨other, isOther, rfl⟩ := mem_map.mp inNumbers
    obtain ⟨isInfo, gone⟩ := mem_goneInOrder.mp member
    exact ⟨other, mem_goneInOrder.mpr
      ⟨isOther, orderly.inOrder other isOther deleted isInfo less gone⟩, rfl⟩
  keepsOpen := by
    intro deleted member isOpen
    obtain ⟨isInfo, gone⟩ := mem_goneInOrder.mp member
    exact orderly.openStays deleted isInfo isOpen gone
  keepsEnough := keepsEnough_of_sublist filter_sublist enough

/--
A cleanup keeps the log exactly when it has nothing to do or is orderly: no
number overflows, no segment of the future is reached, and what is gone are the
lowest numbers without the open segment.
-/
theorem cleanup_keeps_log_iff (config : WalConfig) (files : SegmentFiles)
    (clock : Int64) (removes : ℕ → Bool) (openSegment : ℕ) :
    KeepsLog config files openSegment
        (cleanupOldSegments config files clock removes) ↔
      files.numbers.length ≤ config.minSegmentsToKeep ∨
        Orderly config files clock removes openSegment := by
  by_cases few : files.numbers.length ≤ config.minSegmentsToKeep
  · refine iff_of_true ?_ (.inl few)
    rw [cleanupOldSegments, if_pos few]
    exact ⟨⟨0, rfl⟩, fun _ member => absurd member not_mem_nil,
      fun _ member => absurd member not_mem_nil,
      keepsEnough_of_sublist (nil_sublist _) (.inl rfl)⟩
  · rw [or_iff_right few, cleanupOldSegments_eq (Nat.lt_of_not_le few)]
    split
    · rename_i fits
      have counted : (segmentInfos files).length = files.numbers.length := by
        rw [← map_segment_segmentInfos, length_map]
      have enough :=
        @CleanupBounds.keepsEnough_cleanupFrom
          (cleanupBounds config files clock) removes []
          (sortByKey SegmentInfo.createdSecs (segmentInfos files))
          (by
            rw [length_nil, Nat.zero_add, length_sortByKey]
            exact Nat.le_refl _)
          (.inl rfl)
      rcases cleanupFrom_cases config files clock removes with
        ⟨reached, panics⟩ | ⟨notReached, deletedCount, returns⟩
      · refine iff_of_false ?_ fun orderly => orderly.noFuture reached
        rintro ⟨⟨deletedCount, isOk⟩, _⟩
        rw [panics] at isOk
        cases isOk
      · rw [returns] at enough ⊢
        constructor
        · intro keeps
          refine ⟨fits.1, fits.2, notReached, ?_, ?_⟩
          · intro first isFirst second isSecond less gone
            exact inOrder_of_keepsLog keeps isFirst isSecond less gone
          · intro info member isOpen gone
            exact keeps.keepsOpen info (mem_goneInOrder.mpr ⟨member, gone⟩)
              isOpen
        · intro orderly
          refine orderly.keepsLog deletedCount ?_
          rw [← counted]
          exact enough
    · rename_i overflows
      refine iff_of_false ?_ fun orderly =>
        overflows ⟨orderly.retentionFits, orderly.sizeFits⟩
      rintro ⟨⟨deletedCount, isOk⟩, _⟩
      cases isOk

end Outcome

/-- Three segments; the clock stepped back before the second one. -/
def steppedBack : SegmentFiles :=
  [(0, ⟨some 100, 10⟩), (1, ⟨some 50, 10⟩), (2, ⟨some 200, 10⟩)].foldl
    (fun files file => files.insert file.1 file.2) ∅

/-- Nothing is retained for long, but two segments stay. -/
def twoSegments : WalConfig where
  retentionHours := 0
  maxRetentionBytes := 1000
  minSegmentsToKeep := 2

/--
The segment that was created first is deleted and the one before it stays.  A
clock that is behind the files makes the age of a segment underflow.
-/
theorem cleanup_leaves_hole :
    cleanupOldSegments twoSegments steppedBack 300 (fun _ => true) =
        (.ok 1, [⟨1, 50, 10⟩]) ∧
      ¬KeepsLog twoSegments steppedBack 2
        (cleanupOldSegments twoSegments steppedBack 300 fun _ => true) ∧
        (cleanupOldSegments twoSegments steppedBack 40 fun _ => true).1 =
          .error .panic := by
  have hole :
      cleanupOldSegments twoSegments steppedBack 300 (fun _ => true) =
        (.ok 1, [⟨1, 50, 10⟩]) := by
    decide
  refine ⟨hole, fun keeps => ?_, by decide⟩
  rw [hole] at keeps
  obtain ⟨other, member, isZero⟩ :=
    keeps.isPrefix ⟨1, 50, 10⟩ (mem_singleton_self _) 0 (by decide) (by decide)
  rw [mem_singleton.mp member] at isZero
  cases isZero

end ChronoDB.Wal
