import Mathlib.Tactic.Linarith
import Mathlib.Tactic.Ring
import ChronoDB.Library.FiniteMap

namespace ChronoDB.Library

open List

/-!
# Grouping by a key

Pairs of a key and some items are collected in a finite map that has all items
of a key under it, in their order.  The second half is about groups that may
overlap, and about the parts of a range, which overlap at their borders.
-/

section Grouping

variable {Key Item : Type} [DecidableEq Key]

def addToGroup (groups : FiniteMap Key (List Item)) (batch : Key × List Item) :
    FiniteMap Key (List Item) :=
  groups.insert batch.1 ((groups.lookup batch.1).getD [] ++ batch.2)

def groupByKey (batches : List (Key × List Item)) :
    FiniteMap Key (List Item) :=
  batches.foldl addToGroup ∅

theorem lookup_groupByKey (batches : List (Key × List Item)) (key : Key) :
    ((groupByKey batches).lookup key).getD [] =
      (batches.filter fun batch => batch.1 = key).flatMap Prod.snd := by
  have fromGroups :
      ∀ groups : FiniteMap Key (List Item),
        ((batches.foldl addToGroup groups).lookup key).getD [] =
          (groups.lookup key).getD [] ++
            (batches.filter fun batch => batch.1 = key).flatMap Prod.snd := by
    induction batches with
    | nil =>
      exact fun groups => (append_nil _).symm
    | cons batch rest inductionHypothesis =>
      intro groups
      rw [foldl_cons, inductionHypothesis, addToGroup]
      by_cases same : batch.1 = key
      · rw [same, AList.lookup_insert, Option.getD_some,
          filter_cons_of_pos (by simpa using same), flatMap_cons,
          append_assoc]
      · rw [AList.lookup_insert_ne (Ne.symm same),
          filter_cons_of_neg (by simpa using same)]
  rw [groupByKey, fromGroups, AList.lookup_empty]
  rfl

theorem mem_groupByKey
    {batches : List (Key × List Item)} {key : Key} {item : Item} :
    item ∈ ((groupByKey batches).lookup key).getD [] ↔
      ∃ batch ∈ batches, batch.1 = key ∧ item ∈ batch.2 := by
  simp only [lookup_groupByKey, mem_flatMap, mem_filter, decide_eq_true_iff,
    and_assoc]

theorem forall_groups_iff
    {batches : List (Key × List Item)} {Holds : Key → Item → Prop} :
    (∀ group ∈ (groupByKey batches).entries, ∀ item ∈ group.2,
        Holds group.1 item) ↔
      ∀ batch ∈ batches, ∀ item ∈ batch.2, Holds batch.1 item := by
  constructor
  · intro allGroups batch member item inBatch
    have inGroup := mem_groupByKey.mpr ⟨batch, member, rfl, inBatch⟩
    cases found : (groupByKey batches).lookup batch.1 with
    | none =>
      rw [found] at inGroup
      cases inGroup
    | some items =>
      rw [found] at inGroup
      exact allGroups ⟨batch.1, items⟩ (AList.mem_lookup_iff.mp found) item
        inGroup
  · rintro allBatches ⟨key, items⟩ isGroup item inGroup
    have found : (groupByKey batches).lookup key = some items :=
      AList.mem_lookup_iff.mpr isGroup
    obtain ⟨batch, member, rfl, inBatch⟩ :=
      mem_groupByKey.mp
        (show item ∈ ((groupByKey batches).lookup key).getD [] by
          rw [found]
          exact inGroup)
    exact allBatches batch member item inBatch

end Grouping

/-!
## Parts that may overlap
-/

section Parts

variable {Index Item : Type} [DecidableEq Item]
variable {indices : List Index} {items : List Item}
variable {inPart : Index → Item → Bool} {inWhole : Item → Bool}

theorem count_flatMap_filter (item : Item) :
    (indices.flatMap fun index => items.filter (inPart index)).count item =
      indices.countP (inPart · item) * items.count item := by
  induction indices with
  | nil => simp
  | cons index rest inductionHypothesis =>
    rw [flatMap_cons, count_append, inductionHypothesis,
      countP_cons, Nat.add_mul, Nat.add_comm]
    congr 1
    cases isIn : inPart index item with
    | false =>
      have notKept : item ∉ items.filter (inPart index) := by
        intro kept
        rw [(mem_filter.mp kept).2] at isIn
        cases isIn
      rw [count_eq_zero_of_not_mem notKept, if_neg nofun, Nat.zero_mul]
    | true => rw [count_filter isIn, if_pos rfl, Nat.one_mul]

theorem countP_le_one_iff (distinct : indices.Nodup) {holds : Index → Bool} :
    indices.countP holds ≤ 1 ↔
      ∀ first ∈ indices, ∀ second ∈ indices,
        holds first → holds second → first = second := by
  rw [countP_eq_length_filter]
  constructor
  · intro atMostOne first isFirst second isSecond firstHolds secondHolds
    have firstKept := mem_filter.mpr ⟨isFirst, firstHolds⟩
    have secondKept := mem_filter.mpr ⟨isSecond, secondHolds⟩
    match kept : indices.filter holds, atMostOne with
    | [], _ =>
      rw [kept] at firstKept
      cases firstKept
    | [only], _ =>
      rw [kept, mem_singleton] at firstKept secondKept
      rw [firstKept, secondKept]
  · intro unique
    match kept : indices.filter holds with
    | [] => exact Nat.zero_le 1
    | [only] => exact le_rfl
    | first :: second :: rest =>
      have differ := distinct.filter holds
      rw [kept] at differ
      have firstKept : first ∈ indices.filter holds := by
        rw [kept]
        exact mem_cons_self
      have secondKept : second ∈ indices.filter holds := by
        rw [kept]
        exact mem_cons_of_mem _ mem_cons_self
      obtain ⟨isFirst, firstHolds⟩ := mem_filter.mp firstKept
      obtain ⟨isSecond, secondHolds⟩ := mem_filter.mp secondKept
      have same := unique first isFirst second isSecond firstHolds secondHolds
      exact absurd (same ▸ mem_cons_self) (nodup_cons.mp differ).1

/--
The items of some parts, one part after the other, are the items of a whole once
each exactly when the items are in one part each, or in none outside the whole.
-/
theorem flatMap_filter_perm_iff (distinct : indices.Nodup) :
    (indices.flatMap fun index => items.filter (inPart index)).Perm
        (items.filter inWhole) ↔
      ∀ item ∈ items,
        ((∃ index ∈ indices, inPart index item) ↔ inWhole item) ∧
          ∀ first ∈ indices, ∀ second ∈ indices,
            inPart first item → inPart second item → first = second := by
  have wholeCount (item : Item) :
      (items.filter inWhole).count item =
        (if inWhole item then 1 else 0) * items.count item := by
    have single :=
      @count_flatMap_filter _ _ _ [()] items (fun _ => inWhole) item
    simpa [countP_cons] using single
  have perItem (item : Item) :
      indices.countP (inPart · item) = (if inWhole item then 1 else 0) ↔
        ((∃ index ∈ indices, inPart index item) ↔ inWhole item) ∧
          ∀ first ∈ indices, ∀ second ∈ indices,
            inPart first item → inPart second item → first = second := by
    rw [← countP_le_one_iff distinct, ← countP_pos_iff]
    generalize indices.countP (inPart · item) = parts
    cases inWhole item <;> simp <;> omega
  rw [perm_iff_count]
  constructor
  · intro sameCounts item isItem
    have same := sameCounts item
    rw [count_flatMap_filter, wholeCount] at same
    exact (perItem item).mp
      (Nat.eq_of_mul_eq_mul_right (count_pos_iff.mpr isItem) same)
  · intro once item
    rw [count_flatMap_filter, wholeCount]
    by_cases isItem : item ∈ items
    · rw [(perItem item).mpr (once item isItem)]
    · rw [count_eq_zero_of_not_mem isItem, Nat.mul_zero, Nat.mul_zero]

end Parts

/-!
## Equal parts of a range
-/

section EqualParts

variable (start stop size : ℤ) (count : ℕ)

def partStart (index : ℕ) : ℤ :=
  start + index * size

/-- The last part ends with the range. -/
def partEnd (index : ℕ) : ℤ :=
  if index = count - 1 then stop else partStart start size index + size

/-- A number is in a part, both of whose ends belong to it. -/
def InPart (index : ℕ) (number : ℤ) : Prop :=
  partStart start size index ≤ number ∧
    number ≤ partEnd start stop size count index

variable {start stop size count}

theorem partStart_add_le
    (notNegative : 0 ≤ size) {index later : ℕ} (before : index < later) :
    partStart start size index + size ≤ partStart start size later := by
  have steps : (index : ℤ) + 1 ≤ later := by omega
  have moved := mul_le_mul_of_nonneg_right steps notNegative
  rw [partStart, partStart]
  linarith

theorem partStart_bounds
    (positive : 0 < size) (fits : count * size ≤ stop - start) {index : ℕ}
    (within : index < count) :
    start ≤ partStart start size index ∧
      partStart start size index + size ≤ stop := by
  have gone : 0 ≤ (index : ℤ) * size :=
    mul_nonneg (Int.natCast_nonneg _) positive.le
  have next := @partStart_add_le start _ positive.le _ _ within
  rw [partStart] at next ⊢
  rw [partStart] at next
  constructor <;> linarith

theorem partEnd_of_lt {index : ℕ} (notLast : index < count - 1) :
    partEnd start stop size count index = partStart start size index + size :=
  if_neg notLast.ne

theorem partEnd_bounds
    (positive : 0 < size) (fits : count * size ≤ stop - start) {index : ℕ}
    (within : index < count) :
    partStart start size index + size ≤ partEnd start stop size count index ∧
      partEnd start stop size count index ≤ stop := by
  have inside := (partStart_bounds positive fits within).2
  rw [partEnd]
  split
  · exact ⟨inside, le_rfl⟩
  · exact ⟨le_rfl, inside⟩

theorem exists_inPart_iff (positive : 0 < size) (nonempty : 0 < count)
    (fits : count * size ≤ stop - start) (number : ℤ) :
    (∃ index ∈ List.range count, InPart start stop size count index number) ↔
      start ≤ number ∧ number ≤ stop := by
  constructor
  · rintro ⟨index, isIndex, after, before⟩
    have within := mem_range.mp isIndex
    exact ⟨(partStart_bounds positive fits within).1.trans after,
      before.trans (partEnd_bounds positive fits within).2⟩
  · rintro ⟨after, before⟩
    obtain ⟨quotient, isQuotient⟩ :=
      Int.eq_ofNat_of_zero_le
        (Int.ediv_nonneg (sub_nonneg.mpr after) positive.le)
    have started : (quotient : ℤ) * size ≤ number - start := by
      rw [← isQuotient]
      exact Int.ediv_mul_le _ positive.ne'
    have ends : number - start < (quotient + 1) * size := by
      rw [← isQuotient]
      exact Int.lt_ediv_add_one_mul_self _ positive
    by_cases isEarlier : quotient < count - 1
    · refine ⟨quotient, mem_range.mpr (by omega), ?_, ?_⟩
      · rw [partStart]
        linarith
      · rw [partEnd_of_lt isEarlier, partStart]
        linarith
    · refine ⟨count - 1, mem_range.mpr (by omega), ?_, ?_⟩
      · have notMore : ((count - 1 : ℕ) : ℤ) ≤ quotient := by omega
        have reached := mul_le_mul_of_nonneg_right notMore positive.le
        rw [partStart]
        linarith
      · rw [partEnd, if_pos rfl]
        exact before

theorem inPart_unique_iff
    (positive : 0 < size) (fits : count * size ≤ stop - start) (number : ℤ) :
    (∀ first ∈ List.range count, ∀ second ∈ List.range count,
        InPart start stop size count first number →
          InPart start stop size count second number → first = second) ↔
      ∀ index, 0 < index → index < count →
        number ≠ partStart start size index := by
  constructor
  · rintro unique index notFirst within rfl
    obtain ⟨earlier, rfl⟩ := Nat.exists_eq_succ_of_ne_zero notFirst.ne'
    have border :
        partStart start size (earlier + 1) =
          partStart start size earlier + size := by
      rw [partStart, partStart, Nat.cast_succ]
      ring
    have inEarlier :
        InPart start stop size count earlier
          (partStart start size (earlier + 1)) := by
      rw [InPart, partEnd_of_lt (by omega), border]
      exact ⟨by linarith, le_rfl⟩
    have inLater :
        InPart start stop size count (earlier + 1)
          (partStart start size (earlier + 1)) := by
      have ends := (partEnd_bounds positive fits within).1
      exact ⟨le_rfl, by linarith⟩
    have same :=
      unique earlier (mem_range.mpr (by omega)) (earlier + 1)
        (mem_range.mpr within) inEarlier inLater
    omega
  · intro notAtBorder first isFirst second isSecond inFirst inSecond
    -- a number in an earlier part is at the border of the later one
    have ordered {earlier later : ℕ}
        (within : later < count)
        (before : earlier < later)
        (inEarlier : InPart start stop size count earlier number)
        (inLater : InPart start stop size count later number) :
        False := by
      have ends := inEarlier.2
      rw [partEnd_of_lt (by omega)] at ends
      have next := @partStart_add_le start _ positive.le _ _ before
      exact notAtBorder later (by omega) within
        (le_antisymm (ends.trans next) inLater.1)
    rcases lt_trichotomy first second with before | same | after
    · exact (ordered (mem_range.mp isSecond) before inFirst
        inSecond).elim
    · exact same
    · exact (ordered (mem_range.mp isFirst) after inSecond
        inFirst).elim

end EqualParts

end ChronoDB.Library
