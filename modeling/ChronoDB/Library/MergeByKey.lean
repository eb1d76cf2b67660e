import Mathlib.Data.List.Destutter
import ChronoDB.Library.StableSort

namespace ChronoDB.Library

open List

/-!
# Merging by a key

Items are sorted by a key, and of the items with one key the first is kept.  A
merged list is determined by the first item of every key, so merging forgets the
order of its input up to the question which item of a key comes first.
-/

variable {Key Item : Type} [LinearOrder Key] (key : Item → Key)

/-- Drop every item that has the key of the item kept before it. -/
def dedupByKey (items : List Item) : List Item :=
  items.destutter fun kept next => key kept ≠ key next

/-- Sort by a key, and keep the first item of every key. -/
def mergeByKey (items : List Item) : List Item :=
  dedupByKey key (sortByKey key items)

def firstWithKey (wanted : Key) (items : List Item) : Option Item :=
  items.find? fun item => key item = wanted

variable {key}

theorem mem_of_firstWithKey {wanted : Key} {items : List Item} {item : Item}
    (found : firstWithKey key wanted items = some item) :
    item ∈ items ∧ key item = wanted :=
  ⟨mem_of_find?_eq_some found, by
    simpa using find?_some found⟩

theorem firstWithKey_isSome_iff {wanted : Key} {items : List Item} :
    (firstWithKey key wanted items).isSome = true ↔
      ∃ item ∈ items, key item = wanted := by
  simp [firstWithKey]

/-!
## Stability
-/

variable (wanted : Key) (items : List Item)

theorem firstWithKey_orderedInsert (item : Item) (items : List Item) :
    firstWithKey key wanted (items.orderedInsert (KeyLE key) item) =
      if key item = wanted then some item
      else firstWithKey key wanted items := by
  induction items with
  | nil => simp [firstWithKey, find?_singleton]
  | cons first rest inductionHypothesis =>
    rw [orderedInsert_cons]
    split
    · simp only [firstWithKey, find?_cons]
      split <;> simp_all
    · rename_i after
      rw [firstWithKey, find?_cons, ← firstWithKey, inductionHypothesis]
      by_cases same : key item = wanted
      · -- what stays in front of the inserted item has a smaller key
        have different : key first ≠ wanted := by
          rintro rfl
          exact after same.le
        simp [same, different]
      · simp only [same, if_false, firstWithKey, find?_cons]

@[simp] theorem firstWithKey_sortByKey :
    firstWithKey key wanted (sortByKey key items) =
      firstWithKey key wanted items := by
  induction items with
  | nil => rfl
  | cons first rest inductionHypothesis =>
    rw [sortByKey, insertionSort_cons, ← sortByKey,
      firstWithKey_orderedInsert, inductionHypothesis]
    by_cases same : key first = wanted <;> simp [firstWithKey, same]

/-!
## Dropping repeated keys
-/

theorem firstWithKey_destutter' (kept : Item) (items : List Item) :
    firstWithKey key wanted
        (items.destutter' (fun kept next => key kept ≠ key next) kept) =
      firstWithKey key wanted (kept :: items) := by
  induction items generalizing kept with
  | nil => rfl
  | cons next rest inductionHypothesis =>
    by_cases different : key kept ≠ key next
    · rw [destutter'_cons, if_pos different]
      simp only [firstWithKey, find?_cons] at inductionHypothesis ⊢
      rw [inductionHypothesis]
    · rw [destutter'_cons, if_neg different, inductionHypothesis]
      have same : key kept = key next := not_not.mp different
      simp only [firstWithKey, find?_cons, same]
      split <;> rfl

@[simp] theorem firstWithKey_dedupByKey :
    firstWithKey key wanted (dedupByKey key items) =
      firstWithKey key wanted items := by
  cases items with
  | nil => rfl
  | cons first rest => exact firstWithKey_destutter' wanted first rest

theorem pairwise_dedupByKey
    {items : List Item} (ascending : items.Pairwise (KeyLE key)) :
    (dedupByKey key items).Pairwise fun first second =>
      key first < key second := by
  have stillAscending : (dedupByKey key items).IsChain (KeyLE key) :=
    (ascending.sublist (destutter_sublist _ items)).isChain
  have different :
      (dedupByKey key items).IsChain fun first second =>
        key first ≠ key second :=
    isChain_destutter _ items
  rw [isChain_iff_forall_rel_of_append_cons_cons] at *
  have strict : ((dedupByKey key items).map key).IsChain (· < ·) := by
    rw [isChain_map, isChain_iff_forall_rel_of_append_cons_cons]
    intro first second before after isSplit
    exact lt_of_le_of_ne (stillAscending isSplit) (different isSplit)
  exact pairwise_map.mp (isChain_iff_pairwise.mp strict)

/-!
## Merging
-/

@[simp] theorem firstWithKey_mergeByKey :
    firstWithKey key wanted (mergeByKey key items) =
      firstWithKey key wanted items := by
  rw [mergeByKey, firstWithKey_dedupByKey, firstWithKey_sortByKey]

theorem pairwise_mergeByKey (items : List Item) :
    (mergeByKey key items).Pairwise fun first second =>
      key first < key second :=
  pairwise_dedupByKey (pairwise_sortByKey key items)

theorem exists_mem_mergeByKey {wanted : Key} {items : List Item} :
    (∃ item ∈ mergeByKey key items, key item = wanted) ↔
      ∃ item ∈ items, key item = wanted := by
  rw [← firstWithKey_isSome_iff, firstWithKey_mergeByKey,
    firstWithKey_isSome_iff]

theorem nodup_map_mergeByKey (items : List Item) :
    ((mergeByKey key items).map key).Nodup :=
  pairwise_map.mpr
    ((@pairwise_mergeByKey _ _ _ key items).imp fun less => less.ne)

theorem mem_mergeByKey_iff {items : List Item} {item : Item} :
    item ∈ mergeByKey key items ↔
      firstWithKey key (key item) items = some item := by
  rw [← firstWithKey_mergeByKey]
  constructor
  · intro member
    have someFound :
        (firstWithKey key (key item) (mergeByKey key items)).isSome = true :=
      firstWithKey_isSome_iff.mpr ⟨item, member, rfl⟩
    obtain ⟨found, isFound⟩ := Option.isSome_iff_exists.mp someFound
    obtain ⟨foundMember, sameKey⟩ := mem_of_firstWithKey isFound
    rw [isFound,
      inj_on_of_nodup_map (nodup_map_mergeByKey items) foundMember
        member sameKey]
  · intro found
    exact (mem_of_firstWithKey found).1

theorem mergeByKey_eq_iff {items others : List Item} :
    mergeByKey key items = mergeByKey key others ↔
      ∀ wanted,
        firstWithKey key wanted items = firstWithKey key wanted others := by
  constructor
  · intro same wanted
    rw [← firstWithKey_mergeByKey, same, firstWithKey_mergeByKey]
  · intro same
    have sameMembers : (mergeByKey key items).Perm (mergeByKey key others) := by
      have distinct : ∀ items, (mergeByKey key items).Nodup :=
        fun items => (nodup_map_mergeByKey items).of_map key
      refine (perm_ext_iff_of_nodup (distinct items)
        (distinct others)).mpr fun item => ?_
      rw [mem_mergeByKey_iff, mem_mergeByKey_iff, same]
    exact sameMembers.eq_of_pairwise
      (fun first second _ _ less more => absurd less more.asymm)
      (pairwise_mergeByKey items) (pairwise_mergeByKey others)

/-!
## Sources in any order
-/

/-- What a search through all sources finds first does not depend on their
order exactly when all sources that find something find the same. -/
theorem findSome?_perm_iff
    {Source Found : Type} (search : Source → Option Found)
    (sources : List Source) :
    (∀ reordered : List Source, reordered.Perm sources →
        reordered.findSome? search = sources.findSome? search) ↔
      ∀ first ∈ sources, ∀ second ∈ sources, ∀ one other,
        search first = some one → search second = some other → one = other := by
  constructor
  · intro sameFound first firstMember second secondMember one other finds
      findsOther
    have inFront :
        ∀ source ∈ sources, ∀ found, search source = some found →
          sources.findSome? search = some found := by
      intro source member found isFound
      obtain ⟨before, after, isSplit⟩ := append_of_mem member
      have moved : (source :: (before ++ after)).Perm sources := by
        rw [isSplit]
        exact perm_middle.symm
      rw [← sameFound _ moved, findSome?_cons, isFound]
    have foundFirst := inFront first firstMember one finds
    rw [inFront second secondMember other findsOther] at foundFirst
    exact (Option.some.inj foundFirst).symm
  · intro agree reordered perm
    cases found : sources.findSome? search with
    | none =>
      rw [findSome?_eq_none_iff] at found ⊢
      exact fun source member => found source (perm.mem_iff.mp member)
    | some one =>
      obtain ⟨source, member, finds⟩ := exists_of_findSome?_eq_some found
      cases foundAgain : reordered.findSome? search with
      | none =>
        rw [findSome?_eq_none_iff] at foundAgain
        rw [foundAgain source (perm.mem_iff.mpr member)] at finds
        cases finds
      | some other =>
        obtain ⟨otherSource, otherMember, findsOther⟩ :=
          exists_of_findSome?_eq_some foundAgain
        rw [agree otherSource (perm.mem_iff.mp otherMember) source member
          other one findsOther finds]

end ChronoDB.Library
