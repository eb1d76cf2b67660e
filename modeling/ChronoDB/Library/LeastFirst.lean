import ChronoDB.Library.StableSort
import Mathlib.Data.List.Nodup

namespace ChronoDB.Library

open List

/-!
# The least items of a list

Among items with equal keys the one listed first is preferred.  A loop that
keeps the first least item finds the one preferred to all others, and the first
items of a stable sort are those with few enough preferred ones.
-/

variable {Key Item : Type} [LinearOrder Key] [DecidableEq Item]

/-- The key is smaller, or equal with the item listed first. -/
def PrefersTo (key : Item → Key) (items : List Item) (first second : Item) :
    Prop :=
  key first < key second ∨
    key first = key second ∧ items.idxOf first < items.idxOf second

instance (key : Item → Key) (items : List Item) (first second : Item) :
    Decidable (PrefersTo key items first second) :=
  inferInstanceAs (Decidable (_ ∨ _))

namespace PrefersTo

variable {key : Item → Key} {items : List Item} {first second : Item}

theorem asymm (prefers : PrefersTo key items first second) :
    ¬PrefersTo key items second first := by
  rintro (less | ⟨_, before⟩)
  · rcases prefers with otherLess | ⟨same, _⟩
    · exact lt_asymm less otherLess
    · exact less.ne same.symm
  · rcases prefers with otherLess | ⟨_, otherBefore⟩
    · rename_i same
      exact otherLess.ne same.symm
    · exact Nat.lt_asymm before otherBefore

theorem cons_iff
    {item : Item} (notFirst : first ≠ item) (notSecond : second ≠ item) :
    PrefersTo key (item :: items) first second ↔
      PrefersTo key items first second := by
  rw [PrefersTo, PrefersTo, idxOf_cons_ne _ notFirst.symm,
    idxOf_cons_ne _ notSecond.symm, Nat.succ_lt_succ_iff]

theorem cons_head {item : Item} (differs : second ≠ item)
    (notGreater : key item ≤ key second) :
    PrefersTo key (item :: items) item second := by
  rcases notGreater.lt_or_eq with less | same
  · exact .inl less
  · refine .inr ⟨same, ?_⟩
    rw [idxOf_cons_eq _ rfl, idxOf_cons_ne _ differs.symm]
    exact Nat.succ_pos _

end PrefersTo

/-!
## The first least item
-/

section FirstLeast

variable (key : Item → Key)

/-- The loop body keeps the better item. -/
def keepLess (best item : Item) : Item :=
  if key item < key best then item else best

/-- The loop that starts with the first item and keeps the first least one. -/
def firstLeast (default : Item) (items : List Item) : Item :=
  items.foldl (keepLess key) (items.headD default)

theorem prefersTo_foldl_keepLess
    {seen rest : List Item} {best : Item} (isSeen : best ∈ seen)
    (prefers :
      ∀ other ∈ seen, other ≠ best → PrefersTo key (seen ++ rest) best other) :
    rest.foldl (keepLess key) best ∈ seen ++ rest ∧
      ∀ other ∈ seen ++ rest, other ≠ rest.foldl (keepLess key) best →
        PrefersTo key (seen ++ rest) (rest.foldl (keepLess key) best)
          other := by
  induction rest generalizing seen best with
  | nil =>
    rw [append_nil] at prefers ⊢
    exact ⟨isSeen, prefers⟩
  | cons item rest inductionHypothesis =>
    have split : seen ++ item :: rest = (seen ++ [item]) ++ rest := by
      rw [append_assoc, singleton_append]
    rw [foldl_cons, split]
    rw [split] at prefers
    have isNext : keepLess key best item ∈ seen ++ [item] := by
      rw [keepLess]
      split_ifs
      · exact mem_append_right _ (mem_singleton_self _)
      · exact mem_append_left _ isSeen
    refine inductionHypothesis isNext fun other member differs => ?_
    rw [keepLess] at differs ⊢
    split_ifs at differs ⊢ with less
    · rcases mem_append.mp member with known | isItem
      · by_cases same : other = best
        · rw [same]
          exact .inl less
        · rcases prefers other known same with lessToo | ⟨equal, _⟩
          · exact .inl (less.trans lessToo)
          · exact .inl (less.trans_eq equal)
      · exact absurd (mem_singleton.mp isItem) differs
    · by_cases known : other ∈ seen
      · exact prefers other known differs
      · have isItem : other = item := by
          rcases mem_append.mp member with inSeen | isItem
          · exact absurd inSeen known
          · exact mem_singleton.mp isItem
        subst isItem
        rcases (not_lt.mp less).lt_or_eq with greater | equal
        · exact .inl greater
        · refine .inr ⟨equal, ?_⟩
          rw [append_assoc, idxOf_append_of_mem isSeen,
            idxOf_append_of_notMem known]
          exact Nat.lt_of_lt_of_le (idxOf_lt_length_of_mem isSeen)
            (Nat.le_add_right _ _)

theorem prefersTo_firstLeast
    (default : Item) {items : List Item} (nonempty : items ≠ []) :
    firstLeast key default items ∈ items ∧
      ∀ other ∈ items, other ≠ firstLeast key default items →
        PrefersTo key items (firstLeast key default items) other := by
  obtain ⟨first, rest, rfl⟩ := exists_cons_of_ne_nil nonempty
  have same :
      firstLeast key default (first :: rest) =
        rest.foldl (keepLess key) first := by
    rw [firstLeast, headD_cons, foldl_cons, keepLess, ite_self]
  rw [same]
  refine
    @prefersTo_foldl_keepLess _ _ _ _ key [first] rest first
      (mem_singleton_self _) fun other member differs => ?_
  exact absurd (mem_singleton.mp member) differs

theorem eq_firstLeast
    (default : Item) {items : List Item} {item : Item} (member : item ∈ items)
    (prefers :
      ∀ other ∈ items, other ≠ item → PrefersTo key items item other) :
    firstLeast key default items = item := by
  obtain ⟨isLeast, leastPrefers⟩ :=
    prefersTo_firstLeast key default (ne_nil_of_mem member)
  by_contra differs
  exact (prefers _ isLeast differs).asymm
    (leastPrefers item member (Ne.symm differs))

end FirstLeast

/-!
## The first items of a stable sort
-/

section Sorted

variable (key : Item → Key)

omit [DecidableEq Item] in
theorem le_of_mem_dropWhile
    {items : List Item} (ascending : items.Pairwise (KeyLE key))
    {item other : Item}
    (member :
      other ∈ items.dropWhile fun before => ¬KeyLE key item before) :
    key item ≤ key other := by
  induction items with
  | nil => cases member
  | cons first rest inductionHypothesis =>
    obtain ⟨leRest, restAscending⟩ := pairwise_cons.mp ascending
    rw [dropWhile_cons] at member
    split at member
    · exact inductionHypothesis restAscending member
    · rename_i notSmaller
      have leFirst : key item ≤ key first := by
        simpa [KeyLE] using notSmaller
      rcases mem_cons.mp member with rfl | inRest
      · exact leFirst
      · exact leFirst.trans (leRest other inRest)

theorem pairwise_prefersTo_sortByKey
    {items : List Item} (distinct : items.Nodup) :
    (sortByKey key items).Pairwise (PrefersTo key items) := by
  induction items with
  | nil => exact .nil
  | cons item rest inductionHypothesis =>
    obtain ⟨notInRest, restDistinct⟩ := nodup_cons.mp distinct
    have differs : ∀ other ∈ sortByKey key rest, other ≠ item := by
      rintro other member rfl
      exact notInRest ((mem_sortByKey key).mp member)
    have sorted :
        (sortByKey key rest).Pairwise (PrefersTo key (item :: rest)) := by
      refine (inductionHypothesis restDistinct).imp_of_mem ?_
      intro first second isFirst isSecond prefers
      exact
        (PrefersTo.cons_iff (differs first isFirst)
          (differs second isSecond)).mpr prefers
    have splits := takeWhile_append_dropWhile
      (l := sortByKey key rest) (p := fun other => ¬KeyLE key item other)
    rw [← splits, pairwise_append] at sorted
    obtain ⟨sortedFront, sortedBack, frontBack⟩ := sorted
    have inFront :
        ∀ other ∈
            (sortByKey key rest).takeWhile (fun other => ¬KeyLE key item other),
          PrefersTo key (item :: rest) other item := by
      intro other member
      have smaller := all_eq_true.mp all_takeWhile other member
      exact .inl (not_le.mp (of_decide_eq_true smaller))
    rw [sortByKey, insertionSort_cons_eq_take_drop, pairwise_append]
    refine ⟨sortedFront, pairwise_cons.mpr ⟨?_, sortedBack⟩, ?_⟩
    · intro other member
      have isSorted := (dropWhile_sublist _).subset member
      exact .cons_head (differs other isSorted)
        (le_of_mem_dropWhile key (pairwise_sortByKey key rest) member)
    · intro first isFirst second isSecond
      rcases mem_cons.mp isSecond with rfl | inBack
      · exact inFront first isFirst
      · exact frontBack first isFirst second inBack

omit [DecidableEq Item] in
theorem mem_take_iff_of_pairwise
    {before : Item → Item → Prop} [DecidableRel before]
    (asymm : ∀ {first second}, before first second → ¬before second first)
    {ordered : List Item} (isOrdered : ordered.Pairwise before)
    (distinct : ordered.Nodup) {item : Item} (member : item ∈ ordered)
    (count : ℕ) :
    item ∈ ordered.take count ↔
      (ordered.countP fun other => before other item) < count := by
  obtain ⟨front, back, rfl⟩ := append_of_mem member
  obtain ⟨_, backOrdered, frontBack⟩ := pairwise_append.mp isOrdered
  have countFront :
      (front.countP fun other => before other item) = front.length := by
    apply countP_eq_length.mpr
    intro other inFront
    exact decide_eq_true (frontBack other inFront item mem_cons_self)
  have countBack :
      ((item :: back).countP fun other => before other item) = 0 := by
    apply countP_eq_zero.mpr
    intro other inBack isBefore
    have beforeItem := of_decide_eq_true isBefore
    rcases mem_cons.mp inBack with rfl | later
    · exact asymm beforeItem beforeItem
    · exact asymm beforeItem (rel_of_pairwise_cons backOrdered later)
  have notInFront : item ∉ front := fun inFront =>
    (disjoint_of_nodup_append distinct) inFront mem_cons_self
  rw [countP_append, countFront, countBack, Nat.add_zero]
  constructor
  · intro inTake
    by_contra notLess
    rw [take_append_of_le_length (not_lt.mp notLess)] at inTake
    exact notInFront (mem_of_mem_take inTake)
  · intro less
    rw [take_append, take_of_length_le less.le]
    apply mem_append_right
    obtain ⟨more, isMore⟩ := Nat.exists_eq_add_of_lt less
    rw [isMore, Nat.add_assoc, Nat.add_sub_cancel_left]
    exact mem_cons_self

theorem mem_take_sortByKey_iff
    {items : List Item} (distinct : items.Nodup) {item : Item} (count : ℕ) :
    item ∈ (sortByKey key items).take count ↔
      item ∈ items ∧
        (items.countP fun other => PrefersTo key items other item) < count := by
  have permuted := sortByKey_perm key items
  have sortedDistinct := permuted.nodup_iff.mpr distinct
  by_cases member : item ∈ items
  · rw [mem_take_iff_of_pairwise PrefersTo.asymm
      (pairwise_prefersTo_sortByKey key distinct) sortedDistinct
      (permuted.mem_iff.mpr member), permuted.countP_eq]
    exact (and_iff_right member).symm
  · refine iff_of_false (fun inFront => member ?_) fun both => member both.1
    exact permuted.mem_iff.mp (mem_of_mem_take inFront)

end Sorted

/-!
## The least items of a list with repetitions
-/

section LeastItems

variable (key : Item → Key)

/-- The entry has the smaller key, or the same one and the smaller place. -/
def Precedes (first second : Item × ℕ) : Prop :=
  key first.1 < key second.1 ∨ key first.1 = key second.1 ∧ first.2 < second.2

instance (first second : Item × ℕ) : Decidable (Precedes key first second) :=
  inferInstanceAs (Decidable (_ ∨ _))

/-- The items that fewer than `count` others precede, in their order. -/
def leastItems (count : ℕ) (items : List Item) : List Item :=
  (items.zipIdx.filter fun entry =>
    (items.zipIdx.countP fun other => Precedes key other entry) <
      count).map Prod.fst

theorem nodup_zipIdx {Content : Type} (items : List Content) :
    items.zipIdx.Nodup := by
  apply List.Nodup.of_map Prod.snd
  rw [zipIdx_map_snd]
  exact nodup_range'

theorem idxOf_zipIdx
    {Content : Type} [DecidableEq (Content × ℕ)] {items : List Content}
    {entry : Content × ℕ} (member : entry ∈ items.zipIdx) :
    items.zipIdx.idxOf entry = entry.2 := by
  obtain ⟨inBounds, isEntry⟩ :=
    List.getElem?_eq_some_iff.mp (mem_zipIdx_iff_getElem?.mp member)
  have inZip : entry.2 < items.zipIdx.length := by
    rwa [length_zipIdx]
  have atPlace : items.zipIdx[entry.2] = entry := by
    rw [getElem_zipIdx, isEntry, Nat.zero_add]
  calc
    items.zipIdx.idxOf entry = items.zipIdx.idxOf items.zipIdx[entry.2] := by
      rw [atPlace]
    _ = entry.2 := (nodup_zipIdx items).idxOf_getElem _ inZip

theorem take_sortByKey_perm (count : ℕ) (items : List Item) :
    ((sortByKey key items).take count).Perm (leastItems key count items) := by
  have sortedEntries :
      (sortByKey (fun entry : Item × ℕ => key entry.1) items.zipIdx).map
          Prod.fst =
        sortByKey key items := by
    rw [sortByKey, sortByKey]
    conv_rhs => rw [← zipIdx_map_fst 0 items]
    exact map_insertionSort _ _ _ _ fun _ _ _ _ => Iff.rfl
  have isLeast :
      ((sortByKey (fun entry : Item × ℕ => key entry.1) items.zipIdx).take
          count).Perm
        (items.zipIdx.filter fun entry =>
          (items.zipIdx.countP fun other => Precedes key other entry) <
            count) := by
    have distinct := nodup_zipIdx items
    have sortedDistinct :=
      (sortByKey_perm (fun entry : Item × ℕ => key entry.1)
        items.zipIdx).nodup_iff.mpr distinct
    refine (perm_ext_iff_of_nodup
      (sortedDistinct.sublist (take_sublist _ _))
      (distinct.filter _)).mpr fun entry => ?_
    rw [mem_take_sortByKey_iff _ distinct, mem_filter, decide_eq_true_eq]
    refine and_congr_right fun member => ?_
    have sameCount :
        (items.zipIdx.countP fun other =>
            PrefersTo (fun entry : Item × ℕ => key entry.1) items.zipIdx
              other entry) =
          items.zipIdx.countP fun other => Precedes key other entry := by
      refine countP_congr fun other isOther => ?_
      rw [decide_eq_true_eq, decide_eq_true_eq, PrefersTo, Precedes,
        idxOf_zipIdx member, idxOf_zipIdx isOther]
    rw [sameCount]
  rw [← sortedEntries, ← map_take, leastItems]
  exact isLeast.map Prod.fst

end LeastItems

end ChronoDB.Library
