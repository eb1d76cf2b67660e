import Mathlib.Data.List.Sort
import Mathlib.Order.Basic

namespace ChronoDB.Library

open List

/-!
# Stable sorting by a key

Insertion sort is stable, so it computes what every stable sort by the same key
computes.  Sorting leaves a list unchanged exactly when the keys already ascend
in it.  A sort by a comparison puts a least item first.
-/

variable {Key Item : Type} [LinearOrder Key]

/-- The comparison of two items by their keys. -/
def KeyLE (key : Item → Key) : Item → Item → Prop :=
  fun first second => key first ≤ key second

instance (key : Item → Key) : DecidableRel (KeyLE key) :=
  fun first second => inferInstanceAs (Decidable (key first ≤ key second))

instance (key : Item → Key) : Std.Total (KeyLE key) where
  total first second := le_total (key first) (key second)

instance (key : Item → Key) : IsTrans Item (KeyLE key) where
  trans _ _ _ firstSecond secondThird :=
    le_trans (α := Key) firstSecond secondThird

/-- Sort by ascending key, keeping the order of items with equal keys. -/
def sortByKey (key : Item → Key) (items : List Item) : List Item :=
  items.insertionSort (KeyLE key)

variable (key : Item → Key)

@[simp] theorem sortByKey_nil : sortByKey key [] = [] :=
  rfl

theorem sortByKey_perm (items : List Item) :
    (sortByKey key items).Perm items :=
  perm_insertionSort (KeyLE key) items

@[simp] theorem length_sortByKey (items : List Item) :
    (sortByKey key items).length = items.length :=
  (sortByKey_perm key items).length_eq

theorem sortByKey_ne_nil {items : List Item} (nonempty : items ≠ []) :
    sortByKey key items ≠ [] := by
  intro isEmpty
  have noItems := (sortByKey_perm key items).symm
  rw [isEmpty] at noItems
  exact nonempty noItems.eq_nil

@[simp] theorem mem_sortByKey {items : List Item} {item : Item} :
    item ∈ sortByKey key items ↔ item ∈ items :=
  (sortByKey_perm key items).mem_iff

theorem pairwise_sortByKey (items : List Item) :
    (sortByKey key items).Pairwise (KeyLE key) :=
  pairwise_insertionSort (KeyLE key) items

theorem sortByKey_eq_self_iff {items : List Item} :
    sortByKey key items = items ↔ items.Pairwise (KeyLE key) := by
  constructor
  · intro unchanged
    rw [← unchanged]
    exact pairwise_sortByKey key items
  · intro ascending
    exact List.Pairwise.insertionSort_eq ascending

theorem filter_sortByKey (items : List Item) (value : Key) :
    (sortByKey key items).filter (fun item => key item = value) =
      items.filter fun item => key item = value := by
  have oneKey :
      (items.filter fun item => key item = value).Pairwise (KeyLE key) := by
    refine pairwise_of_forall_mem_list ?_
    intro first isFirst second isSecond
    have firstKey := of_decide_eq_true (mem_filter.mp isFirst).2
    have secondKey := of_decide_eq_true (mem_filter.mp isSecond).2
    exact le_of_eq (firstKey.trans secondKey.symm)
  have kept :
      (items.filter fun item => key item = value).Sublist
        ((sortByKey key items).filter fun item => key item = value) := by
    have sorted := sublist_insertionSort oneKey filter_sublist
    simpa [sortByKey] using sorted.filter fun item => key item = value
  exact (kept.eq_of_length
    ((sortByKey_perm key items).filter _).length_eq.symm).symm

theorem filter_key_cons_of_eq
    {item : Item} {value : Key} (isValue : key item = value)
    (rest : List Item) :
    (item :: rest).filter (fun item => key item = value) =
      item :: rest.filter fun item => key item = value :=
  filter_cons_of_pos (decide_eq_true isValue)

theorem filter_key_cons_of_ne
    {item : Item} {value : Key} (notValue : key item ≠ value)
    (rest : List Item) :
    (item :: rest).filter (fun item => key item = value) =
      rest.filter fun item => key item = value :=
  filter_cons_of_neg (by simpa using notValue)

theorem eq_of_filter_eq
    {first second : List Item} (sorted : first.Pairwise (KeyLE key))
    (alsoSorted : second.Pairwise (KeyLE key))
    (same : ∀ value,
      first.filter (fun item => key item = value) =
        second.filter fun item => key item = value) :
    first = second := by
  have heads
      {item other : Item}
      {rest others : List Item}
      (ascending : (item :: rest).Pairwise (KeyLE key))
      (sameOfOther :
        (item :: rest).filter (fun item => key item = key other) =
          (other :: others).filter fun item => key item = key other) :
      key item ≤ key other := by
    have isOther :
        other ∈ (other :: others).filter fun item => key item = key other :=
      mem_filter.mpr ⟨mem_cons_self, decide_eq_true rfl⟩
    rw [← sameOfOther] at isOther
    rcases mem_cons.mp (mem_filter.mp isOther).1 with rfl | inRest
    · exact le_rfl
    · exact rel_of_pairwise_cons ascending inRest
  induction first generalizing second with
  | nil =>
    cases second with
    | nil => rfl
    | cons other others =>
      have noneThere := same (key other)
      rw [filter_key_cons_of_eq key rfl] at noneThere
      cases noneThere
  | cons item rest inductionHypothesis =>
    cases second with
    | nil =>
      have noneThere := same (key item)
      rw [filter_key_cons_of_eq key rfl] at noneThere
      cases noneThere
    | cons other others =>
      have sameKey : key item = key other :=
        le_antisymm (heads sorted (same (key other)))
          (heads alsoSorted (same (key item)).symm)
      have sameFirst := same (key item)
      rw [filter_key_cons_of_eq key rfl,
        filter_key_cons_of_eq key sameKey.symm] at sameFirst
      obtain ⟨rfl, _⟩ := List.cons.inj sameFirst
      rw [inductionHypothesis sorted.of_cons alsoSorted.of_cons]
      intro value
      have whole := same value
      by_cases isValue : key item = value
      · rw [filter_key_cons_of_eq key isValue,
          filter_key_cons_of_eq key isValue] at whole
        exact (List.cons.inj whole).2
      · rw [filter_key_cons_of_ne key isValue,
          filter_key_cons_of_ne key isValue] at whole
        exact whole

theorem pairwise_sortByKey_of_pairwise
    {before : Item → Item → Prop} {items : List Item}
    (ordered : items.Pairwise before) :
    (sortByKey key items).Pairwise fun first second =>
      key first < key second ∨
        key first = key second ∧ before first second := by
  rw [pairwise_iff_forall_sublist]
  intro first second isSublist
  have ascending : key first ≤ key second :=
    pairwise_iff_forall_sublist.mp (pairwise_sortByKey key items) isSublist
  refine ascending.lt_or_eq.imp_right fun sameKey => ⟨sameKey, ?_⟩
  have ofKey := isSublist.filter fun item => key item = key second
  rw [filter_sortByKey, filter_key_cons_of_eq key sameKey,
    filter_key_cons_of_eq key rfl, filter_nil] at ofKey
  exact pairwise_iff_forall_sublist.mp ordered (ofKey.trans filter_sublist)

theorem map_sortByKey
    {Image : Type} {imageKey : Image → Key} {transform : Item → Image}
    (sameKey : ∀ item, imageKey (transform item) = key item)
    (items : List Item) :
    (sortByKey key items).map transform =
      sortByKey imageKey (items.map transform) := by
  refine map_insertionSort _ _ _ _ fun first _ second _ => ?_
  rw [KeyLE, KeyLE, sameKey, sameKey]

theorem sortByKey_congr_of_injOn {items others : List Item}
    (injective :
      ∀ first ∈ items, ∀ second ∈ items, key first = key second →
        first = second)
    (permuted : items.Perm others) :
    sortByKey key items = sortByKey key others := by
  refine List.Perm.eq_of_pairwise ?_ (pairwise_sortByKey key items)
    (pairwise_sortByKey key others)
    ((sortByKey_perm key items).trans
      (permuted.trans (sortByKey_perm key others).symm))
  intro first second isFirst isSecond notAfter notBefore
  have inItems := (mem_sortByKey key).mp isFirst
  have alsoInItems := permuted.mem_iff.mpr ((mem_sortByKey key).mp isSecond)
  exact injective first inItems second alsoInItems
    (le_antisymm notAfter notBefore)

theorem sortByKey_congr
    {items others : List Item} (distinct : (items.map key).Nodup)
    (permuted : items.Perm others) :
    sortByKey key items = sortByKey key others :=
  sortByKey_congr_of_injOn key
    (fun _ isFirst _ isSecond same =>
      inj_on_of_nodup_map distinct isFirst isSecond same)
    permuted

theorem sortByKey_map_eq_self_iff
    {Item : Type} [LinearOrder Item] {items : List Item} {image : Item → Item} :
    sortByKey id ((sortByKey id items).map image) =
        (sortByKey id items).map image ↔
      ∀ first ∈ items, ∀ second ∈ items,
        first ≤ second → image first ≤ image second := by
  rw [sortByKey_eq_self_iff, pairwise_map]
  constructor
  · intro ordered first isFirst second isSecond before
    have forwards :
        (sortByKey id items).Pairwise fun one other =>
          one ≤ other → image one ≤ image other := by
      refine ordered.imp ?_
      intro one other images _
      exact images
    have backwards :
        (sortByKey id items).Pairwise fun one other =>
          other ≤ one → image other ≤ image one :=
      (pairwise_sortByKey id items).imp fun sorted back =>
        (congrArg image (le_antisymm back sorted)).le
    exact forwards.forall_of_forall_of_flip (fun _ _ _ => le_rfl) backwards
      ((mem_sortByKey id).mpr isFirst) ((mem_sortByKey id).mpr isSecond) before
  · intro kept
    refine (pairwise_sortByKey id items).imp_of_mem
      fun isFirst isSecond before => ?_
    exact kept _ ((mem_sortByKey id).mp isFirst) _
      ((mem_sortByKey id).mp isSecond) before

/-!
## Sorting by a comparison
-/

section Comparison

variable {compareItems : Item → Item → Ordering}

theorem total_ne_gt [Std.OrientedCmp compareItems] :
    Std.Total fun first second => compareItems first second ≠ .gt where
  total first second := by
    rw [@Std.OrientedCmp.eq_swap _ compareItems _ first second]
    cases compareItems second first <;> simp

theorem trans_ne_gt [Std.TransCmp compareItems] :
    IsTrans Item fun first second => compareItems first second ≠ .gt where
  trans first second third firstSecond secondThird := by
    simp only [Ordering.ne_gt_iff_isLE] at firstSecond secondThird ⊢
    exact Std.TransCmp.isLE_trans firstSecond secondThird

theorem ne_gt_of_head?_insertionSort
    [Std.TransCmp compareItems] {items : List Item} {least : Item}
    (isFirst :
      (items.insertionSort fun first second =>
        compareItems first second ≠ .gt).head? = some least) :
    least ∈ items ∧ ∀ item ∈ items, compareItems least item ≠ .gt := by
  have total := @total_ne_gt _ compareItems _
  have trans := @trans_ne_gt _ compareItems _
  have sameItems :=
    perm_insertionSort
      (fun first second => compareItems first second ≠ .gt) items
  have sorted :=
    pairwise_insertionSort
      (fun first second => compareItems first second ≠ .gt) items
  obtain ⟨rest, split⟩ := head?_eq_some_iff.mp isFirst
  rw [split] at sameItems sorted
  constructor
  · exact sameItems.mem_iff.mp mem_cons_self
  · intro item isItem
    rcases mem_cons.mp (sameItems.mem_iff.mpr isItem) with rfl | later
    · rw [@Std.ReflCmp.compare_self _ compareItems]
      exact nofun
    · exact rel_of_pairwise_cons sorted later

end Comparison

end ChronoDB.Library
