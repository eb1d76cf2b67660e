import Mathlib.Data.List.Basic
import Mathlib.Data.List.Nodup
import Mathlib.Logic.Function.Basic

namespace ChronoDB.Library

open List

/-!
# Caches with bounded room

What a program may rely on when it uses a cache that forgets: a lookup finds
what was stored last under the key, or nothing.  A list with the most recently
used key first is one such cache.  A list beside a table can keep the order of
use too.
-/

/-- The operations of a cache and what they promise. -/
structure BoundedCache (Key Content : Type) where
  Cache : Type
  new : ℕ → Cache
  /-- What a lookup would find. -/
  peek : Cache → Key → Option Content
  get : Cache → Key → Option Content × Cache
  put : Cache → Key → Content → Cache
  clear : Cache → Cache
  len : Cache → ℕ
  peek_new : ∀ capacity key, peek (new capacity) key = none
  fst_get : ∀ cache key, (get cache key).1 = peek cache key
  peek_get : ∀ cache key other, peek (get cache key).2 other = peek cache other
  peek_put :
    ∀ cache key content other found,
      peek (put cache key content) other = some found →
        other = key ∧ found = content ∨
          other ≠ key ∧ peek cache other = some found
  peek_clear : ∀ cache key, peek (clear cache) key = none

/-- Items with the most recently used first. -/
structure RecencyList (Key Content : Type) where
  capacity : ℕ
  items : List (Key × Content)
  deriving Repr, DecidableEq

namespace RecencyList

variable {Key Content : Type} [DecidableEq Key]

def peek (cache : RecencyList Key Content) (key : Key) : Option Content :=
  cache.items.lookup key

/-- Move what is found to the front. -/
def get (cache : RecencyList Key Content) (key : Key) :
    Option Content × RecencyList Key Content :=
  match cache.items.lookup key with
  | none => (none, cache)
  | some content =>
    (some content,
      {
        cache with
        items := (key, content) :: cache.items.filter (·.1 ≠ key)
      })

/-- Put an item to the front and drop the last one when there is no room. -/
def put (cache : RecencyList Key Content) (key : Key) (content : Content) :
    RecencyList Key Content :=
  {
    cache with
    items :=
      ((key, content) :: cache.items.filter (·.1 ≠ key)).take cache.capacity
  }

theorem lookup_filter_ne
    {key other : Key} (different : other ≠ key) (items : List (Key × Content)) :
    (items.filter (·.1 ≠ key)).lookup other = items.lookup other := by
  induction items with
  | nil => rfl
  | cons item rest inductionHypothesis =>
    obtain ⟨itemKey, content⟩ := item
    by_cases isKey : itemKey = key
    · have notOther : (other == itemKey) = false := by
        rw [isKey]
        exact beq_false_of_ne different
      rw [filter_cons_of_neg (by simp [isKey]), inductionHypothesis,
        lookup_cons, notOther]
    · rw [filter_cons_of_pos (by simp [isKey]), lookup_cons,
        lookup_cons, inductionHypothesis]

theorem lookup_of_lookup_take
    {key : Key} {content : Content} {count : ℕ} {items : List (Key × Content)}
    (found : (items.take count).lookup key = some content) :
    items.lookup key = some content := by
  induction items generalizing count with
  | nil => simp at found
  | cons item rest inductionHypothesis =>
    cases count with
    | zero => simp at found
    | succ count =>
      rw [take_succ_cons, lookup_cons] at found
      rw [lookup_cons]
      split at found
      · exact found
      · exact inductionHypothesis found

theorem peek_get (cache : RecencyList Key Content) (key other : Key) :
    (cache.get key).2.peek other = cache.peek other := by
  rw [get]
  cases found : cache.items.lookup key with
  | none => rfl
  | some content =>
    simp only [peek, lookup_cons]
    by_cases same : other = key
    · simp [same, found]
    · rw [beq_false_of_ne same, lookup_filter_ne same]

theorem peek_put {cache : RecencyList Key Content} {key other : Key}
    {content found : Content}
    (isFound : (cache.put key content).peek other = some found) :
    other = key ∧ found = content ∨
      other ≠ key ∧ cache.peek other = some found := by
  have inAll := lookup_of_lookup_take isFound
  rw [lookup_cons] at inAll
  by_cases same : other = key
  · rw [same, beq_self_eq_true] at inAll
    exact .inl ⟨same, (Option.some.inj inAll).symm⟩
  · rw [beq_false_of_ne same, lookup_filter_ne same] at inAll
    exact .inr ⟨same, inAll⟩

end RecencyList

/-- The cache that drops the least recently used item. -/
def BoundedCache.recency (Key Content : Type) [DecidableEq Key] :
    BoundedCache Key Content where
  Cache := RecencyList Key Content
  new := fun capacity => ⟨capacity, []⟩
  peek := RecencyList.peek
  get := RecencyList.get
  put := RecencyList.put
  clear := fun cache => { cache with items := [] }
  len := fun cache => cache.items.length
  peek_new := fun _ _ => rfl
  fst_get := fun cache key => by
    rw [RecencyList.get, RecencyList.peek]
    cases cache.items.lookup key <;> rfl
  peek_get := RecencyList.peek_get
  peek_put := fun _ _ _ _ _ => RecencyList.peek_put
  peek_clear := fun _ _ => rfl

/-!
## Orders of use
-/

/-- A list has what is present once each, from the first use to the last one. -/
structure ListsByUse {Key : Type} (order : List Key) (isPresent : Key → Prop)
    (lastUse : Key → ℕ) :
    Prop where
  distinct : order.Nodup
  mem_iff : ∀ key, key ∈ order ↔ isPresent key
  inOrder : order.Pairwise fun first second => lastUse first < lastUse second

namespace ListsByUse

variable {Key : Type} {order : List Key} {isPresent : Key → Prop}
variable {lastUse : Key → ℕ}

theorem nil (nothing : ∀ key, ¬isPresent key) :
    ListsByUse [] isPresent lastUse :=
  ⟨.nil, fun key => iff_of_false not_mem_nil (nothing key), .nil⟩

theorem congr {others : Key → Prop} (lists : ListsByUse order isPresent lastUse)
    (same : ∀ key, others key ↔ isPresent key) :
    ListsByUse order others lastUse :=
  ⟨lists.distinct, fun key => (lists.mem_iff key).trans (same key).symm,
    lists.inOrder⟩

theorem length_eq
    (lists : ListsByUse order isPresent lastUse) {others : List Key}
    (distinct : others.Nodup) (mem_iff : ∀ key, key ∈ others ↔ isPresent key) :
    order.length = others.length :=
  ((perm_ext_iff_of_nodup lists.distinct distinct).mpr fun key =>
    (lists.mem_iff key).trans (mem_iff key).symm).length_eq

theorem le_of_cons
    {first : Key} (lists : ListsByUse (first :: order) isPresent lastUse)
    {other : Key} (present : isPresent other) :
    lastUse first ≤ lastUse other := by
  rcases mem_cons.mp ((lists.mem_iff other).mpr present) with
    rfl | later
  · exact Nat.le_refl _
  · exact Nat.le_of_lt (rel_of_pairwise_cons lists.inOrder later)

theorem tail
    {first : Key} (lists : ListsByUse (first :: order) isPresent lastUse) :
    ListsByUse order (fun key => key ≠ first ∧ isPresent key) lastUse := by
  obtain ⟨notLater, distinct⟩ := nodup_cons.mp lists.distinct
  refine ⟨distinct, fun key => ?_, (pairwise_cons.mp lists.inOrder).2⟩
  rw [← lists.mem_iff key, mem_cons]
  constructor
  · intro isLater
    exact ⟨fun same => notLater (same ▸ isLater), .inr isLater⟩
  · rintro ⟨notFirst, isFirst | isLater⟩
    · exact absurd isFirst notFirst
    · exact isLater

variable [DecidableEq Key]

theorem erase (lists : ListsByUse order isPresent lastUse) (key : Key) :
    ListsByUse (order.filter (· ≠ key))
      (fun other => other ≠ key ∧ isPresent other) lastUse := by
  refine ⟨lists.distinct.filter _, fun other => ?_, lists.inOrder.filter _⟩
  rw [mem_filter, lists.mem_iff, decide_eq_true_iff, and_comm]

theorem push (lists : ListsByUse order isPresent lastUse) {key : Key}
    (absent : ¬isPresent key) {use : ℕ}
    (earlier : ∀ other, lastUse other < use) :
    ListsByUse (order ++ [key]) (fun other => other = key ∨ isPresent other)
      (Function.update lastUse key use) := by
  have notListed : key ∉ order := fun listed =>
    absent ((lists.mem_iff key).mp listed)
  have differs {other : Key} (listed : other ∈ order) : other ≠ key :=
    fun same => notListed (same ▸ listed)
  refine ⟨?_, fun other => ?_, ?_⟩
  · rw [nodup_append]
    refine ⟨lists.distinct, nodup_singleton key, ?_⟩
    intro other listed last isLast
    rw [mem_singleton.mp isLast]
    exact differs listed
  · rw [mem_append, mem_singleton, lists.mem_iff, or_comm]
  · rw [pairwise_append]
    refine ⟨?_, pairwise_singleton _ _, ?_⟩
    · refine lists.inOrder.imp_of_mem ?_
      intro first second isFirst isSecond before
      rw [Function.update_of_ne (differs isFirst),
        Function.update_of_ne (differs isSecond)]
      exact before
    · intro other listed last isLast
      rw [mem_singleton.mp isLast, Function.update_self,
        Function.update_of_ne (differs listed)]
      exact earlier other

theorem touch (lists : ListsByUse order isPresent lastUse) {key : Key}
    (present : isPresent key) {use : ℕ}
    (earlier : ∀ other, lastUse other < use) :
    ListsByUse (order.filter (· ≠ key) ++ [key]) isPresent
      (Function.update lastUse key use) := by
  refine ((lists.erase key).push (fun isPresent => isPresent.1 rfl)
    earlier).congr fun other => ?_
  by_cases same : other = key
  · rw [same]
    exact iff_of_true present (.inl rfl)
  · rw [or_iff_right same, and_iff_right same]

end ListsByUse

end ChronoDB.Library
