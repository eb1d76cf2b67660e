import Mathlib.Algebra.GroupWithZero.Nat
import Mathlib.Data.List.AList
import ChronoDB.Library.StableSort

namespace ChronoDB.Library

open List

/-!
# Finite maps

Hash maps and directories are finite maps with distinct keys.  The list behind
a map is one of its iteration orders.  The second half is about maps whose keys
are the numbers from zero to a last one, read in ascending order.
-/

/-- A finite map, backed by an association list with distinct keys. -/
abbrev FiniteMap (Key Content : Type) :=
  AList fun _ : Key => Content

namespace FiniteMap

variable {Key Content Image : Type}

/-- Apply a function to every key and value of a map. -/
def mapKeyed
    (transform : Key → Content → Image) (items : FiniteMap Key Content) :
    FiniteMap Key Image where
  entries :=
    items.entries.map
      (Sigma.map id transform : (_ : Key) × Content → (_ : Key) × Image)
  nodupKeys := by
    have sameKeys :
        (items.entries.map
            (Sigma.map id transform :
              (_ : Key) × Content → (_ : Key) × Image)).keys =
          items.entries.keys := by
      simp [List.keys, map_map, Function.comp_def, Sigma.map]
    rw [List.NodupKeys, sameKeys]
    exact items.nodupKeys

@[simp] theorem keys_mapKeyed
    (transform : Key → Content → Image) (items : FiniteMap Key Content) :
    (items.mapKeyed transform).keys = items.keys := by
  simp [mapKeyed, AList.keys, List.keys, map_map, Function.comp_def, Sigma.map]

@[simp] theorem lookup_mapKeyed
    [DecidableEq Key] (transform : Key → Content → Image)
    (items : FiniteMap Key Content) (key : Key) :
    (items.mapKeyed transform).lookup key =
      (items.lookup key).map (transform key) :=
  dlookup_map₂ key

/-- Apply a function to every value of a map. -/
def mapValues (transform : Content → Image) (items : FiniteMap Key Content) :
    FiniteMap Key Image :=
  items.mapKeyed fun _ => transform

@[simp] theorem lookup_mapValues [DecidableEq Key] (transform : Content → Image)
    (items : FiniteMap Key Content) (key : Key) :
    (items.mapValues transform).lookup key = (items.lookup key).map transform :=
  lookup_mapKeyed _ items key

theorem mem_of_lookup
    [DecidableEq Key] {items : FiniteMap Key Content} {key : Key}
    {content : Content} (found : items.lookup key = some content) :
    key ∈ items := by
  rw [← AList.lookup_isSome, found]
  rfl

theorem exists_lookup
    [DecidableEq Key] {items : FiniteMap Key Content} {key : Key}
    (member : key ∈ items) :
    ∃ content, items.lookup key = some content :=
  Option.isSome_iff_exists.mp (AList.lookup_isSome.mpr member)

theorem lookup_foldl_insert
    [DecidableEq Key] (make : Key → Content) (items : FiniteMap Key Content)
    (keys : List Key) (key : Key) :
    (keys.foldl (fun items own => items.insert own (make own)) items).lookup
        key =
      if key ∈ keys then some (make key) else items.lookup key := by
  induction keys generalizing items with
  | nil => rw [foldl_nil, if_neg (not_mem_nil)]
  | cons own rest inductionHypothesis =>
    rw [foldl_cons, inductionHypothesis]
    by_cases inRest : key ∈ rest
    · rw [if_pos inRest, if_pos (mem_cons_of_mem _ inRest)]
    · rw [if_neg inRest]
      by_cases same : key = own
      · subst same
        rw [AList.lookup_insert, if_pos mem_cons_self]
      · rw [AList.lookup_insert_ne same, if_neg]
        exact not_mem_cons_of_ne_of_not_mem same inRest

variable (items : FiniteMap Key Content) (key : Key)

theorem length_keys_insert [DecidableEq Key] (content : Content) :
    (items.insert key content).keys.length =
      if (items.lookup key).isSome then items.keys.length
      else items.keys.length + 1 := by
  rw [AList.keys_insert, length_cons]
  split
  · rename_i present
    have member : key ∈ items.keys :=
      AList.mem_keys.mp (AList.lookup_isSome.mp present)
    have positive := length_pos_of_mem member
    rw [length_erase_of_mem member]
    omega
  · rename_i absent
    have notMember : key ∉ items.keys := fun member =>
      absent (AList.lookup_isSome.mpr (AList.mem_keys.mpr member))
    rw [erase_of_not_mem notMember]

theorem length_keys_erase_le [DecidableEq Key] :
    (items.erase key).keys.length ≤ items.keys.length := by
  rw [AList.keys_erase]
  exact length_erase_le

theorem flatMap_entries_eq [DecidableEq Key] (parts : Content → List Image) :
    (items.entries.flatMap fun entry =>
        if entry.1 = key then parts entry.2 else []) =
      (items.lookup key).elim [] parts := by
  obtain ⟨entries, distinct⟩ := items
  change _ = (entries.dlookup key).elim [] parts
  induction entries with
  | nil => rfl
  | cons entry rest inductionHypothesis =>
    obtain ⟨own, content⟩ := entry
    obtain ⟨notLater, distinctRest⟩ := nodupKeys_cons.mp distinct
    rw [flatMap_cons, inductionHypothesis distinctRest]
    by_cases same : own = key
    · subst same
      have absent : rest.dlookup own = none := dlookup_eq_none.mpr notLater
      simp [absent]
    · rw [if_neg same, nil_append, dlookup_cons_ne _ _ (Ne.symm same)]

/-- The sum of a measure over the values of a map. -/
def total (measure : Content → ℕ) (items : FiniteMap Key Content) :
    ℕ :=
  (items.entries.map fun entry => measure entry.2).sum

theorem total_erase
    [DecidableEq Key] (measure : Content → ℕ) (items : FiniteMap Key Content)
    (key : Key) :
    total measure (items.erase key) + (items.lookup key).elim 0 measure =
      total measure items := by
  obtain ⟨entries, distinct⟩ := items
  change
    ((entries.kerase key).map fun entry => measure entry.2).sum +
        (entries.dlookup key).elim 0 measure =
      (entries.map fun entry => measure entry.2).sum
  induction entries with
  | nil => rfl
  | cons entry rest inductionHypothesis =>
    obtain ⟨own, content⟩ := entry
    obtain ⟨_, distinctRest⟩ := nodupKeys_cons.mp distinct
    by_cases same : key = own
    · subst same
      have erased : List.kerase key (⟨key, content⟩ :: rest) = rest :=
        kerase_cons_eq rfl
      rw [erased, dlookup_cons_eq, map_cons, sum_cons, Nat.add_comm]
      rfl
    · rw [kerase_cons_ne same, dlookup_cons_ne _ _ same, map_cons, sum_cons,
        map_cons, sum_cons, Nat.add_assoc, inductionHypothesis distinctRest]

theorem total_insert
    [DecidableEq Key] (measure : Content → ℕ) (items : FiniteMap Key Content)
    (key : Key) (content : Content) :
    total measure (items.insert key content) +
        (items.lookup key).elim 0 measure =
      total measure items + measure content := by
  have inserted :
      total measure (items.insert key content) =
        measure content + total measure (items.erase key) := by
    rw [total, AList.entries_insert, map_cons, sum_cons]
    rfl
  rw [inserted, Nat.add_assoc, total_erase, Nat.add_comm]

end FiniteMap

/-!
## Maps numbered from zero
-/

/-- A map whose keys are numbers. -/
abbrev NumberedMap (Content : Type) := FiniteMap ℕ Content

namespace NumberedMap

variable {Content Image : Type}

def numbers (items : NumberedMap Content) : List ℕ :=
  sortByKey id items.keys

def inOrder (items : NumberedMap Content) : List Content :=
  items.numbers.filterMap fun number => items.lookup number

theorem flatMap_inOrder
    (items : NumberedMap Content) (results : Content → List Image) :
    items.inOrder.flatMap results =
      items.numbers.flatMap fun number =>
        (items.lookup number).elim [] results := by
  rw [inOrder]
  induction items.numbers with
  | nil => rfl
  | cons number rest inductionHypothesis =>
    rw [flatMap_cons, ← inductionHypothesis]
    cases found : items.lookup number <;> simp [found]

def below (items : NumberedMap Content) (bound : ℕ) : List Content :=
  (List.range bound).filterMap fun number => items.lookup number

/-- The numbers of a map are exactly those from zero to `last`. -/
def UpTo (items : NumberedMap Content) (last : ℕ) : Prop :=
  ∀ number, number ∈ items ↔ number ≤ last

variable {items : NumberedMap Content} {last : ℕ} {content : Content}

theorem UpTo.mapKeyed
    (upTo : UpTo items last) (transform : ℕ → Content → Image) :
    UpTo (FiniteMap.mapKeyed transform items) last := by
  intro number
  rw [← upTo number, AList.mem_keys, AList.mem_keys, FiniteMap.keys_mapKeyed]

theorem UpTo.mapValues (upTo : UpTo items last) (transform : Content → Image) :
    UpTo (FiniteMap.mapValues transform items) last :=
  upTo.mapKeyed fun _ => transform

theorem UpTo.numbers_eq (upTo : UpTo items last) :
    items.numbers = List.range (last + 1) := by
  have sameMembers :
      ∀ number, number ∈ items.numbers ↔ number ∈ List.range (last + 1) := by
    intro number
    rw [numbers, mem_sortByKey, ← AList.mem_keys, upTo number, mem_range]
    omega
  have distinct : items.numbers.Nodup :=
    (sortByKey_perm id items.keys).nodup_iff.mpr items.keys_nodup
  have permuted : items.numbers.Perm (List.range (last + 1)) :=
    (perm_ext_iff_of_nodup distinct nodup_range).mpr sameMembers
  have ascending : items.numbers.Pairwise (· ≤ ·) :=
    pairwise_sortByKey id items.keys
  exact permuted.eq_of_pairwise' ascending (pairwise_lt_range.imp Nat.le_of_lt)

theorem UpTo.inOrder_eq
    (upTo : UpTo items last) (found : items.lookup last = some content) :
    items.inOrder = items.below last ++ [content] := by
  rw [inOrder, upTo.numbers_eq, range_succ, filterMap_append]
  simp [below, found]

theorem below_insert
    {bound number : ℕ} (notBelow : bound ≤ number) (content : Content) :
    below (items.insert number content) bound = items.below bound := by
  apply filterMap_congr
  intro smaller member
  have different : smaller ≠ number := by
    have := mem_range.mp member
    omega
  exact AList.lookup_insert_ne different

theorem below_succ {bound : ℕ} (found : items.lookup bound = some content) :
    items.below (bound + 1) = items.below bound ++ [content] := by
  rw [below, range_succ, filterMap_append]
  simp [below, found]

theorem below_mapValues
    (transform : Content → Image) (items : NumberedMap Content) (bound : ℕ) :
    below (FiniteMap.mapValues transform items) bound =
      (items.below bound).map transform := by
  simp [below, map_filterMap]

theorem mem_below {bound : ℕ} (member : content ∈ items.below bound) :
    ∃ number, items.lookup number = some content := by
  obtain ⟨number, _, found⟩ := mem_filterMap.mp member
  exact ⟨number, found⟩

theorem UpTo.insert_last (upTo : UpTo items last) (content : Content) :
    UpTo (items.insert last content) last := by
  intro number
  rw [AList.mem_insert, upTo number]
  omega

theorem UpTo.insert_next (upTo : UpTo items last) (content : Content) :
    UpTo (items.insert (last + 1) content) (last + 1) := by
  intro number
  rw [AList.mem_insert, upTo number]
  omega

end NumberedMap

end ChronoDB.Library
