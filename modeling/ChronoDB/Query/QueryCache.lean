import ChronoDB.Library.BoundedCache
import ChronoDB.Library.FiniteMap
import ChronoDB.Library.Transition

namespace ChronoDB.Query.Cache

open Library FiniteMap

/-!
# The query cache

The cache keeps its entries in a hash table and the order of their use in a list
beside it.  Entries expire some time after they were set; an expired entry is
dropped when it is read or when the cache is cleaned up.
-/

structure CacheEntry (Value : Type) where
  value : Value
  createdAt : ℕ
  ttl : ℕ
  accessCount : ℕ
  deriving Repr, DecidableEq

namespace CacheEntry

variable {Value : Type}

def new (value : Value) (ttl now : ℕ) : CacheEntry Value where
  value := value
  createdAt := now
  ttl := ttl
  accessCount := 0

def isExpired (entry : CacheEntry Value) (now : ℕ) : Bool :=
  entry.ttl < now - entry.createdAt

def access (entry : CacheEntry Value) : CacheEntry Value :=
  { entry with accessCount := entry.accessCount + 1 }

end CacheEntry

structure CacheStats where
  hits : ℕ
  misses : ℕ
  evictions : ℕ
  size : ℕ
  entryCount : ℕ
  deriving Repr, DecidableEq

def CacheStats.new : CacheStats where
  hits := 0
  misses := 0
  evictions := 0
  size := 0
  entryCount := 0

structure CacheConfig where
  maxSize : ℕ
  ttl : ℕ
  enabled : Bool
  deriving Repr, DecidableEq

structure QueryCache (Key Value : Type) where
  cache : FiniteMap Key (CacheEntry Value)
  config : CacheConfig
  stats : CacheStats
  accessOrder : List Key

namespace QueryCache

variable {Key Value : Type}

def new (config : CacheConfig) : QueryCache Key Value where
  cache := ∅
  config := config
  stats := CacheStats.new
  accessOrder := []

def len (cache : QueryCache Key Value) : ℕ :=
  cache.cache.keys.length

/-- The sizes in the statistics follow the table. -/
def updateSizes (cache : QueryCache Key Value) : QueryCache Key Value :=
  { cache with
    stats := { cache.stats with size := cache.len, entryCount := cache.len } }

variable [DecidableEq Key]

/-- An expired entry leaves the table, but not the list. -/
def get (cache : QueryCache Key Value) (now : ℕ) (key : Key) :
    Option Value × QueryCache Key Value :=
  if !cache.config.enabled then
    (none, cache)
  else
    match cache.cache.lookup key with
    | none =>
      (none,
        { cache with
          stats := { cache.stats with misses := cache.stats.misses + 1 } })
    | some entry =>
      if entry.isExpired now then
        (none,
          { cache with
            cache := cache.cache.erase key
            stats :=
              { cache.stats with
                misses := cache.stats.misses + 1
                evictions := cache.stats.evictions + 1 } })
      else
        (some entry.value,
          { cache with
            cache := cache.cache.insert key entry.access
            stats := { cache.stats with hits := cache.stats.hits + 1 }
            accessOrder := cache.accessOrder.filter (· ≠ key) ++ [key] })

/-- A cache that is full drops the entry at the front of the list. -/
def evict (cache : QueryCache Key Value) : QueryCache Key Value :=
  if cache.config.maxSize ≤ cache.len then
    match cache.accessOrder with
    | [] => cache
    | evictKey :: rest =>
      { cache with
        cache := cache.cache.erase evictKey
        accessOrder := rest
        stats := { cache.stats with evictions := cache.stats.evictions + 1 } }
  else
    cache

/-- The key is pushed to the list, whether it is there or not. -/
def set (cache : QueryCache Key Value) (now : ℕ) (key : Key) (value : Value) :
    QueryCache Key Value :=
  if !cache.config.enabled then
    cache
  else
    updateSizes
      { cache.evict with
        cache :=
          cache.evict.cache.insert key
            (CacheEntry.new value cache.config.ttl now)
        accessOrder := cache.evict.accessOrder ++ [key] }

def remove (cache : QueryCache Key Value) (key : Key) :
    QueryCache Key Value :=
  if key ∈ cache.cache then
    updateSizes
      { cache with
        cache := cache.cache.erase key
        accessOrder := cache.accessOrder.filter (· ≠ key) }
  else
    cache

def clear (cache : QueryCache Key Value) : QueryCache Key Value :=
  { cache with
    cache := ∅
    accessOrder := []
    stats := { cache.stats with size := 0, entryCount := 0 } }

def expiredKeys (cache : QueryCache Key Value) (now : ℕ) : List Key :=
  (cache.cache.entries.filter fun entry => entry.2.isExpired now).map Sigma.fst

def dropExpired (cache : QueryCache Key Value) (key : Key) :
    QueryCache Key Value :=
  { cache with
    cache := cache.cache.erase key
    accessOrder := cache.accessOrder.filter (· ≠ key)
    stats := { cache.stats with evictions := cache.stats.evictions + 1 } }

def cleanupExpired (cache : QueryCache Key Value) (now : ℕ) :
    QueryCache Key Value :=
  updateSizes ((cache.expiredKeys now).foldl dropExpired cache)

end QueryCache

/-!
## Caches with a history
-/

/-- The calls on a cache, and time that passes between them. -/
inductive CacheCall (Key Value : Type) where
  | get (key : Key)
  | set (key : Key) (value : Value)
  | remove (key : Key)
  | clear
  | cleanupExpired
  | wait (duration : ℕ)
  deriving Repr, DecidableEq

/--
A cache with what the calls so far say about it: the value that was last set for
a key and when, unless it was taken away since; the number of uses, and the last
use of a key; and whether all evictions were right.
-/
structure TrackedCache (Key Value : Type) where
  cache : QueryCache Key Value
  now : ℕ
  stored : Key → Option (Value × ℕ)
  uses : ℕ
  lastUse : Key → ℕ
  evictedRightly : Prop

namespace TrackedCache

variable {Key Value : Type}

def new (config : CacheConfig) (now : ℕ) : TrackedCache Key Value where
  cache := QueryCache.new config
  now := now
  stored := fun _ => none
  uses := 0
  lastUse := fun _ => 0
  evictedRightly := True

variable [DecidableEq Key]

/-- The key is used now. -/
def use (tracked : TrackedCache Key Value) (key : Key) :
    TrackedCache Key Value :=
  { tracked with
    uses := tracked.uses + 1
    lastUse := Function.update tracked.lastUse key (tracked.uses + 1) }

/-- The keys that setting another one takes out of the cache. -/
def Dropped (tracked : TrackedCache Key Value) (key : Key) (value : Value)
    (dropped : Key) :
    Prop :=
  dropped ∈ tracked.cache.cache ∧
    dropped ∉ (tracked.cache.set tracked.now key value).cache

instance (tracked : TrackedCache Key Value) (key : Key) (value : Value)
    (dropped : Key) :
    Decidable (tracked.Dropped key value dropped) :=
  inferInstanceAs (Decidable (_ ∧ _))

/--
Setting a key evicts nothing if the key is there, and else no entry while there
is one that was used less recently.
-/
structure EvictsRightly
    (tracked : TrackedCache Key Value) (key : Key) (value : Value) :
    Prop where
  absent :
    (tracked.cache.set tracked.now key value).stats.evictions ≠
        tracked.cache.stats.evictions →
      key ∉ tracked.cache.cache
  leastRecent :
    ∀ dropped, tracked.Dropped key value dropped →
      ∀ other ∈ tracked.cache.cache,
        tracked.lastUse dropped ≤ tracked.lastUse other

def call (tracked : TrackedCache Key Value) :
    CacheCall Key Value → TrackedCache Key Value
  | .get key =>
    let (found, cache) := tracked.cache.get tracked.now key
    if found.isSome then { tracked.use key with cache := cache }
    else { tracked with cache := cache }
  | .set key value =>
    { tracked.use key with
      cache := tracked.cache.set tracked.now key value
      stored := fun other =>
        if other = key then some (value, tracked.now)
        else if tracked.Dropped key value other then none
        else tracked.stored other
      evictedRightly :=
        tracked.evictedRightly ∧ tracked.EvictsRightly key value }
  | .remove key =>
    { tracked with
      cache := tracked.cache.remove key
      stored := Function.update tracked.stored key none }
  | .clear =>
    { tracked with
      cache := tracked.cache.clear
      stored := fun _ => none }
  | .cleanupExpired =>
    { tracked with cache := tracked.cache.cleanupExpired tracked.now }
  | .wait duration => { tracked with now := tracked.now + duration }

/-- A value that was set is current until it expires. -/
def currentValue (tracked : TrackedCache Key Value) (key : Key) :
    Option Value :=
  match tracked.stored key with
  | none => none
  | some (value, setAt) =>
    if tracked.cache.config.ttl < tracked.now - setAt then none
    else some value

/--
The list of the order has the keys of the cache once each, in the order of their
last uses; the cache is not too long; reading a key finds its current value; and
only the least recently used entries were evicted, for keys that were new.
-/
structure KeepsBooks (tracked : TrackedCache Key Value) : Prop where
  lists :
    ListsByUse tracked.cache.accessOrder (· ∈ tracked.cache.cache)
      tracked.lastUse
  bounded : tracked.cache.len ≤ tracked.cache.config.maxSize
  reads :
    ∀ key, (tracked.cache.get tracked.now key).1 = tracked.currentValue key
  evictedRightly : tracked.evictedRightly

/-- The calls after which the books are still kept. -/
def Careful (tracked : TrackedCache Key Value) :
    CacheCall Key Value → Prop
  | .set key _ => tracked.cache.config.enabled ∧ key ∉ tracked.cache.cache
  | .get key =>
    tracked.cache.config.enabled →
      ∀ entry ∈ tracked.cache.cache.lookup key, ¬entry.isExpired tracked.now
  | _ => True

structure Consistent (tracked : TrackedCache Key Value) : Prop where
  hasRoom : 0 < tracked.cache.config.maxSize
  counted : ∀ key, tracked.lastUse key < tracked.uses + 1
  entries :
    ∀ key, ∀ entry ∈ tracked.cache.cache.lookup key,
      entry.ttl = tracked.cache.config.ttl ∧
        tracked.stored key = some (entry.value, entry.createdAt)
  unused :
    tracked.cache.config.enabled = false → ∀ key, key ∉ tracked.cache.cache

/-- What was stored and did not expire is in the table. -/
def Keeps (tracked : TrackedCache Key Value) : Prop :=
  ∀ key value setAt, tracked.stored key = some (value, setAt) →
    ¬tracked.cache.config.ttl < tracked.now - setAt →
      tracked.cache.config.enabled = true ∧ key ∈ tracked.cache.cache

end TrackedCache

namespace QueryCache

variable {Key Value : Type} [DecidableEq Key]
variable (cache : QueryCache Key Value) (now : ℕ) (key : Key)

theorem fst_get :
    (cache.get now key).1 =
      if cache.config.enabled then
        ((cache.cache.lookup key).filter fun entry =>
          !entry.isExpired now).map CacheEntry.value
      else none := by
  rw [get]
  cases cache.config.enabled with
  | false => rfl
  | true =>
    cases cache.cache.lookup key with
    | none => rfl
    | some entry =>
      by_cases expired : entry.isExpired now = true
      · simp [expired]
      · simp [expired]

end QueryCache

namespace TrackedCache

variable {Key Value : Type} [DecidableEq Key]
variable {tracked : TrackedCache Key Value}

theorem Consistent.reads_iff (consistent : tracked.Consistent) :
    (∀ key, (tracked.cache.get tracked.now key).1 = tracked.currentValue key) ↔
      tracked.Keeps := by
  constructor
  · intro reads key value setAt isStored current
    have found := reads key
    rw [currentValue, isStored] at found
    dsimp only at found
    rw [if_neg current, QueryCache.fst_get] at found
    obtain ⟨isEnabled, found⟩ := Option.ite_none_right_eq_some.mp found
    obtain ⟨entry, isEntry, _⟩ := Option.map_eq_some_iff.mp found
    exact ⟨isEnabled,
      mem_of_lookup (Option.filter_eq_some_iff.mp isEntry).1⟩
  · intro keeps key
    rw [currentValue, QueryCache.fst_get]
    cases isStored : tracked.stored key with
    | none =>
      have absent : tracked.cache.cache.lookup key = none := by
        cases isEntry : tracked.cache.cache.lookup key with
        | none => rfl
        | some entry =>
          have stored := (consistent.entries key entry isEntry).2
          rw [isStored] at stored
          cases stored
      rw [absent]
      exact ite_self none
    | some found =>
      obtain ⟨value, setAt⟩ := found
      dsimp only
      cases isEntry : tracked.cache.cache.lookup key with
      | none =>
        by_cases expired : tracked.cache.config.ttl < tracked.now - setAt
        · rw [if_pos expired]
          exact ite_self none
        · have present := (keeps key value setAt isStored expired).2
          rw [← AList.lookup_isSome, isEntry] at present
          cases present
      | some entry =>
        obtain ⟨isTtl, stored⟩ := consistent.entries key entry isEntry
        rw [isStored] at stored
        cases stored
        by_cases expired :
            tracked.cache.config.ttl < tracked.now - entry.createdAt
        · have isExpired : entry.isExpired tracked.now = true := by
            rw [CacheEntry.isExpired, isTtl]
            exact decide_eq_true expired
          simp [isExpired, expired]
        · have isCurrent : entry.isExpired tracked.now = false := by
            rw [CacheEntry.isExpired, isTtl]
            exact decide_eq_false expired
          have isEnabled := (keeps key _ _ isStored expired).1
          simp only [isEnabled, if_pos, Option.filter_some, isCurrent,
            Bool.not_false, Option.map_some, if_neg expired]

theorem Consistent.keepsBooks_iff (consistent : tracked.Consistent) :
    tracked.KeepsBooks ↔
      ListsByUse tracked.cache.accessOrder (· ∈ tracked.cache.cache)
          tracked.lastUse ∧
        tracked.cache.len ≤ tracked.cache.config.maxSize ∧
          tracked.Keeps ∧ tracked.evictedRightly := by
  rw [← consistent.reads_iff]
  exact ⟨fun books =>
      ⟨books.lists, books.bounded, books.reads, books.evictedRightly⟩,
    fun ⟨lists, bounded, reads, evictedRightly⟩ =>
      ⟨lists, bounded, reads, evictedRightly⟩⟩

omit [DecidableEq Key] in
theorem length_accessOrder
    (lists :
      ListsByUse tracked.cache.accessOrder (· ∈ tracked.cache.cache)
        tracked.lastUse) :
    tracked.cache.accessOrder.length = tracked.cache.len :=
  lists.length_eq tracked.cache.cache.keys_nodup fun _ => AList.mem_keys.symm

theorem counted_use (counted : ∀ key, tracked.lastUse key < tracked.uses + 1)
    (key other : Key) :
    (tracked.use key).lastUse other < (tracked.use key).uses + 1 := by
  rw [use]
  dsimp only
  by_cases same : other = key
  · rw [same, Function.update_self]
    exact Nat.lt_succ_self _
  · rw [Function.update_of_ne same]
    exact Nat.lt_succ_of_lt (counted other)

/-!
## Reading
-/

theorem call_get_cases (tracked : TrackedCache Key Value) (key : Key) :
    tracked.Careful (.get key) ∧
        (∃ stats,
          tracked.call (.get key) =
            { tracked with cache := { tracked.cache with stats := stats } }) ∨
      (tracked.cache.config.enabled = true ∧
        tracked.Careful (.get key) ∧
        ∃ entry stats,
          tracked.cache.cache.lookup key = some entry ∧
            tracked.call (.get key) =
              { tracked.use key with
                cache :=
                  { tracked.cache with
                    cache := tracked.cache.cache.insert key entry.access
                    stats := stats
                    accessOrder :=
                      tracked.cache.accessOrder.filter (· ≠ key) ++ [key] } }) ∨
        (¬tracked.Careful (.get key) ∧
          key ∈ tracked.cache.cache ∧
          tracked.cache.config.enabled = true ∧
          ∃ stats,
            tracked.call (.get key) =
              { tracked with
                cache :=
                  { tracked.cache with
                    cache := tracked.cache.cache.erase key
                    stats := stats } }) := by
  rw [Careful, call, QueryCache.get]
  cases isEnabled : tracked.cache.config.enabled with
  | false => exact .inl ⟨nofun, tracked.cache.stats, rfl⟩
  | true =>
    cases isEntry : tracked.cache.cache.lookup key with
    | none =>
      exact .inl ⟨fun _ => nofun, _, rfl⟩
    | some entry =>
      by_cases expired : entry.isExpired tracked.now = true
      · refine .inr (.inr ⟨fun careful => ?_,
          mem_of_lookup isEntry, rfl, ?_⟩)
        · exact careful rfl entry rfl expired
        · simp only [expired]
          exact ⟨_, rfl⟩
      · refine .inr (.inl ⟨rfl, fun _ found isFound => ?_, entry, ?_⟩)
        · cases isFound
          exact expired
        · simp only [expired]
          exact ⟨_, trivial, rfl⟩

theorem lookup_of_lookup_erase
    {Content : Type} {items : FiniteMap Key Content} {key other : Key}
    {content : Content} (found : content ∈ (items.erase key).lookup other) :
    content ∈ items.lookup other := by
  by_cases same : other = key
  · rw [same, Option.mem_def, AList.lookup_erase] at found
    cases found
  · rw [Option.mem_def, AList.lookup_erase_ne same] at found
    exact found

/-- Reading keeps the books unless it drops a key. -/
theorem Consistent.get
    (consistent : tracked.Consistent) (books : tracked.KeepsBooks) (key : Key) :
    (tracked.call (.get key)).Consistent ∧
      ((tracked.call (.get key)).KeepsBooks ↔ tracked.Careful (.get key)) := by
  have parts := consistent.keepsBooks_iff.mp books
  obtain ⟨careful, stats, result⟩ |
      ⟨isEnabled, careful, entry, stats, isEntry, result⟩ |
      ⟨careless, present, isEnabled, stats, result⟩ :=
    call_get_cases tracked key
  · rw [result]
    have consistentAfter :
        Consistent
          { tracked with cache := { tracked.cache with stats := stats } } :=
      ⟨consistent.hasRoom, consistent.counted, consistent.entries,
        consistent.unused⟩
    exact ⟨consistentAfter,
      iff_of_true (consistentAfter.keepsBooks_iff.mpr parts) careful⟩
  · obtain ⟨lists, bounded, keeps, evictedRightly⟩ := parts
    have present := mem_of_lookup isEntry
    have sameKeys (other : Key) :
        other ∈ tracked.cache.cache.insert key entry.access ↔
          other ∈ tracked.cache.cache := by
      rw [AList.mem_insert]
      exact or_iff_right_of_imp fun same => same ▸ present
    rw [result]
    have consistentAfter :
        Consistent
          { tracked.use key with
            cache :=
              { tracked.cache with
                cache := tracked.cache.cache.insert key entry.access
                stats := stats
                accessOrder :=
                  tracked.cache.accessOrder.filter (· ≠ key) ++ [key] } } := by
      refine ⟨consistent.hasRoom, counted_use consistent.counted key, ?_, ?_⟩
      · intro other found isFound
        by_cases same : other = key
        · rw [same, Option.mem_def, AList.lookup_insert] at isFound
          cases isFound
          rw [same]
          exact consistent.entries key entry isEntry
        · rw [Option.mem_def, AList.lookup_insert_ne same] at isFound
          exact consistent.entries other found isFound
      · intro isDisabled
        rw [isEnabled] at isDisabled
        cases isDisabled
    refine ⟨consistentAfter, iff_of_true ?_ careful⟩
    refine consistentAfter.keepsBooks_iff.mpr
      ⟨(lists.touch present consistent.counted).congr sameKeys, ?_, ?_,
        evictedRightly⟩
    · have sameLength :=
        length_keys_insert tracked.cache.cache key entry.access
      rw [isEntry, Option.isSome_some, if_pos rfl] at sameLength
      exact sameLength.trans_le bounded
    · intro other value setAt isStored current
      obtain ⟨_, isThere⟩ := keeps other value setAt isStored current
      exact ⟨isEnabled, (sameKeys other).mpr isThere⟩
  · rw [result]
    have consistentAfter :
        Consistent
          { tracked with
            cache :=
              { tracked.cache with
                cache := tracked.cache.cache.erase key
                stats := stats } } := by
      refine ⟨consistent.hasRoom, consistent.counted, ?_, ?_⟩
      · intro other found isFound
        exact consistent.entries other found (lookup_of_lookup_erase isFound)
      · intro isDisabled
        rw [isEnabled] at isDisabled
        cases isDisabled
    refine ⟨consistentAfter, iff_of_false ?_ careless⟩
    intro booksAfter
    have listed := (books.lists.mem_iff key).mpr present
    have isThere := (booksAfter.lists.mem_iff key).mp listed
    exact (AList.mem_erase.mp isThere).1 rfl

/-!
## Setting
-/

theorem evict_cases (hasRoom : 0 < tracked.cache.config.maxSize)
    (lists :
      ListsByUse tracked.cache.accessOrder (· ∈ tracked.cache.cache)
        tracked.lastUse) :
    tracked.cache.len < tracked.cache.config.maxSize ∧
        tracked.cache.evict = tracked.cache ∨
      ∃ first rest,
        tracked.cache.accessOrder = first :: rest ∧
          tracked.cache.evict =
            { tracked.cache with
              cache := tracked.cache.cache.erase first
              accessOrder := rest
              stats :=
                { tracked.cache.stats with
                  evictions := tracked.cache.stats.evictions + 1 } } := by
  rw [QueryCache.evict]
  by_cases isFull : tracked.cache.config.maxSize ≤ tracked.cache.len
  · have sameLength := length_accessOrder lists
    cases isOrder : tracked.cache.accessOrder with
    | nil =>
      rw [isOrder, List.length_nil] at sameLength
      omega
    | cons first rest =>
      refine .inr ⟨first, rest, rfl, ?_⟩
      rw [if_pos isFull]
  · exact .inl ⟨Nat.lt_of_not_le isFull, if_neg isFull⟩

/-- What eviction leaves: room, and all but the least recently used key. -/
structure Evicted (tracked : TrackedCache Key Value) : Prop where
  lists :
    ListsByUse tracked.cache.evict.accessOrder
      (· ∈ tracked.cache.evict.cache) tracked.lastUse
  hasRoom :
    tracked.cache.evict.accessOrder.length < tracked.cache.config.maxSize
  kept :
    ∀ key, ∀ entry ∈ tracked.cache.evict.cache.lookup key,
      entry ∈ tracked.cache.cache.lookup key
  leastRecent :
    ∀ dropped ∉ tracked.cache.evict.cache, dropped ∈ tracked.cache.cache →
      ∀ other ∈ tracked.cache.cache,
        tracked.lastUse dropped ≤ tracked.lastUse other
  counted :
    tracked.cache.evict.stats.evictions = tracked.cache.stats.evictions →
      tracked.cache.evict = tracked.cache

theorem Consistent.evicted
    (consistent : tracked.Consistent) (books : tracked.KeepsBooks) :
    tracked.Evicted := by
  have sameLength := length_accessOrder books.lists
  obtain ⟨room, same⟩ | ⟨first, rest, isOrder, isEvicted⟩ :=
    evict_cases consistent.hasRoom books.lists
  · rw [← sameLength] at room
    constructor
    · rw [same]
      exact books.lists
    · rw [same]
      exact room
    · rw [same]
      exact fun _ _ found => found
    · rw [same]
      exact fun _ absent present => absurd present absent
    · exact fun _ => same
  · have lists := books.lists
    have bounded := books.bounded
    rw [isOrder] at lists
    rw [← sameLength, isOrder, List.length_cons] at bounded
    constructor
    · rw [isEvicted]
      exact lists.tail.congr fun other => AList.mem_erase
    · rw [isEvicted]
      exact bounded
    · rw [isEvicted]
      exact fun _ _ found => lookup_of_lookup_erase found
    · rw [isEvicted]
      intro dropped absent present other isOther
      have isFirst : dropped = first := by
        by_contra differs
        exact absent (AList.mem_erase.mpr ⟨differs, present⟩)
      rw [isFirst]
      exact lists.le_of_cons isOther
    · rw [isEvicted]
      exact fun sameCount => absurd sameCount (Nat.succ_ne_self _)

theorem config_evict (cache : QueryCache Key Value) :
    cache.evict.config = cache.config := by
  rw [QueryCache.evict]
  split
  · split <;> rfl
  · rfl

variable {cache : QueryCache Key Value}

theorem set_of_enabled
    (isEnabled : cache.config.enabled = true) (now : ℕ) (key : Key)
    (value : Value) :
    (cache.set now key value).cache =
        cache.evict.cache.insert key
          (CacheEntry.new value cache.config.ttl now) ∧
      (cache.set now key value).accessOrder = cache.evict.accessOrder ++ [key] ∧
      (cache.set now key value).stats.evictions =
        cache.evict.stats.evictions := by
  rw [QueryCache.set, isEnabled]
  exact ⟨rfl, rfl, rfl⟩

theorem config_set
    (cache : QueryCache Key Value) (now : ℕ) (key : Key) (value : Value) :
    (cache.set now key value).config = cache.config := by
  rw [QueryCache.set]
  split
  · rfl
  · exact config_evict cache

theorem Consistent.set
    (consistent : tracked.Consistent) (books : tracked.KeepsBooks) (key : Key)
    (value : Value) :
    (tracked.call (.set key value)).Consistent := by
  have sameConfig := config_set tracked.cache tracked.now key value
  cases isEnabled : tracked.cache.config.enabled with
  | false =>
    have same : tracked.cache.set tracked.now key value = tracked.cache := by
      rw [QueryCache.set, isEnabled]
      rfl
    have nothing := consistent.unused isEnabled
    rw [call, same]
    refine ⟨consistent.hasRoom, counted_use consistent.counted key, ?_,
      consistent.unused⟩
    intro other entry found
    exact absurd (mem_of_lookup found) (nothing other)
  | true =>
    obtain ⟨isTable, _, _⟩ := set_of_enabled isEnabled tracked.now key value
    rw [call]
    refine ⟨?_, counted_use consistent.counted key, ?_, ?_⟩
    · rw [sameConfig]
      exact consistent.hasRoom
    · intro other entry found
      have present := mem_of_lookup found
      dsimp only at found present ⊢
      rw [isTable] at found
      rw [sameConfig]
      by_cases same : other = key
      · rw [same, Option.mem_def, AList.lookup_insert] at found
        cases found
        rw [if_pos same]
        exact ⟨rfl, rfl⟩
      · rw [Option.mem_def, AList.lookup_insert_ne same] at found
        rw [if_neg same, if_neg fun dropped => dropped.2 present]
        exact consistent.entries other entry
          ((consistent.evicted books).kept other entry found)
    · rw [sameConfig, isEnabled]
      exact nofun

/-- Setting a key keeps the books exactly when it is new, and not ignored. -/
theorem Consistent.keepsBooks_set_iff
    (consistent : tracked.Consistent) (books : tracked.KeepsBooks) (key : Key)
    (value : Value) :
    (tracked.call (.set key value)).KeepsBooks ↔
      tracked.Careful (.set key value) := by
  have consistentAfter := consistent.set books key value
  obtain ⟨_, _, keeps, evictedRightly⟩ := consistent.keepsBooks_iff.mp books
  have evicted := consistent.evicted books
  have sameConfig := config_set tracked.cache tracked.now key value
  constructor
  · intro booksAfter
    have isStored :
        (tracked.call (.set key value)).stored key =
          some (value, tracked.now) :=
      if_pos rfl
    have isCurrent :
        ¬(tracked.call (.set key value)).cache.config.ttl <
          tracked.now - tracked.now := by
      rw [Nat.sub_self]
      exact Nat.not_lt_zero _
    obtain ⟨isEnabled, _⟩ :=
      (consistentAfter.keepsBooks_iff.mp booksAfter).2.2.1 key value
        tracked.now isStored isCurrent
    have isEnabled : tracked.cache.config.enabled = true :=
      sameConfig ▸ isEnabled
    refine ⟨isEnabled, fun present => ?_⟩
    obtain ⟨_, isOrder, sameCount⟩ :=
      set_of_enabled isEnabled tracked.now key value
    have notCounted :
        (tracked.cache.set tracked.now key value).stats.evictions =
          tracked.cache.stats.evictions := by
      by_contra counts
      exact booksAfter.evictedRightly.2.absent counts present
    rw [sameCount] at notCounted
    have distinct := booksAfter.lists.distinct
    change (tracked.cache.set tracked.now key value).accessOrder.Nodup
      at distinct
    rw [isOrder, evicted.counted notCounted, List.nodup_append] at distinct
    exact distinct.2.2 key ((books.lists.mem_iff key).mpr present) key
      (List.mem_singleton_self key) rfl
  · rintro ⟨isEnabled, absent⟩
    obtain ⟨isTable, isOrder, _⟩ :=
      set_of_enabled isEnabled tracked.now key value
    have stillAbsent : key ∉ tracked.cache.evict.cache := by
      intro present
      obtain ⟨entry, found⟩ := exists_lookup present
      exact absent (mem_of_lookup (evicted.kept key entry found))
    have lists :
        ListsByUse (tracked.call (.set key value)).cache.accessOrder
          (· ∈ (tracked.call (.set key value)).cache.cache)
          (tracked.call (.set key value)).lastUse := by
      change
        ListsByUse (tracked.cache.set tracked.now key value).accessOrder
          (· ∈ (tracked.cache.set tracked.now key value).cache) _
      rw [isOrder]
      refine (evicted.lists.push stillAbsent consistent.counted).congr ?_
      intro other
      rw [isTable, AList.mem_insert]
    refine consistentAfter.keepsBooks_iff.mpr ⟨lists, ?_, ?_, ?_⟩
    · rw [← length_accessOrder lists]
      change (tracked.cache.set tracked.now key value).accessOrder.length ≤
        (tracked.cache.set tracked.now key value).config.maxSize
      rw [isOrder, sameConfig, List.length_append]
      exact evicted.hasRoom
    · intro other stored setAt isStored current
      change (tracked.cache.set tracked.now key value).config.enabled = true ∧
        other ∈ (tracked.cache.set tracked.now key value).cache
      rw [sameConfig]
      refine ⟨isEnabled, ?_⟩
      by_cases same : other = key
      · rw [isTable, same, AList.mem_insert]
        exact .inl rfl
      · by_contra gone
        have isStored :
            (if tracked.Dropped key value other then none
              else tracked.stored other) = some (stored, setAt) :=
          (if_neg same).symm.trans isStored
        obtain ⟨notDropped, wasStored⟩ :=
          Option.ite_none_left_eq_some.mp isStored
        have current : ¬tracked.cache.config.ttl < tracked.now - setAt :=
          sameConfig ▸ current
        exact notDropped ⟨(keeps other stored setAt wasStored current).2, gone⟩
    · refine ⟨evictedRightly, fun _ => absent, ?_⟩
      rintro dropped ⟨wasThere, gone⟩
      refine evicted.leastRecent dropped (fun stillThere => gone ?_) wasThere
      rw [isTable, AList.mem_insert]
      exact .inr stillThere

/-!
## Taking entries out
-/

theorem Consistent.of_fewer
    (consistent : tracked.Consistent) (books : tracked.KeepsBooks)
    {stored : Key → Option (Value × ℕ)}
    (sameConfig : cache.config = tracked.cache.config)
    (lists :
      ListsByUse cache.accessOrder (· ∈ cache.cache) tracked.lastUse)
    (bounded : cache.len ≤ tracked.cache.len)
    (fewer :
      ∀ key, ∀ entry ∈ cache.cache.lookup key,
        entry ∈ tracked.cache.cache.lookup key ∧
          stored key = tracked.stored key)
    (keeps :
      ∀ key value setAt, stored key = some (value, setAt) →
        tracked.stored key = some (value, setAt) ∧
          ∀ entry ∈ tracked.cache.cache.lookup key,
            ¬entry.isExpired tracked.now → key ∈ cache.cache) :
    Consistent { tracked with cache := cache, stored := stored } ∧
      KeepsBooks { tracked with cache := cache, stored := stored } := by
  obtain ⟨_, _, allKept, evictedRightly⟩ := consistent.keepsBooks_iff.mp books
  have consistentAfter :
      Consistent { tracked with cache := cache, stored := stored } := by
    refine ⟨?_, consistent.counted, ?_, ?_⟩
    · rw [sameConfig]
      exact consistent.hasRoom
    · intro key entry found
      obtain ⟨wasThere, sameStored⟩ := fewer key entry found
      obtain ⟨isTtl, isEntry⟩ := consistent.entries key entry wasThere
      rw [sameConfig]
      exact ⟨isTtl, sameStored.trans isEntry⟩
    · intro isDisabled key present
      rw [sameConfig] at isDisabled
      obtain ⟨entry, found⟩ := exists_lookup present
      exact consistent.unused isDisabled key
        (mem_of_lookup (fewer key entry found).1)
  refine ⟨consistentAfter, consistentAfter.keepsBooks_iff.mpr
    ⟨lists, ?_, ?_, evictedRightly⟩⟩
  · rw [sameConfig]
    exact bounded.trans books.bounded
  · intro key value setAt isStored current
    change cache.config.enabled = true ∧ key ∈ cache.cache
    have current : ¬tracked.cache.config.ttl < tracked.now - setAt :=
      sameConfig ▸ current
    obtain ⟨wasStored, stays⟩ := keeps key value setAt isStored
    obtain ⟨isEnabled, wasThere⟩ := allKept key value setAt wasStored current
    obtain ⟨entry, found⟩ := exists_lookup wasThere
    obtain ⟨isTtl, isEntry⟩ := consistent.entries key entry found
    rw [wasStored] at isEntry
    cases isEntry
    rw [sameConfig]
    refine ⟨isEnabled, stays entry found ?_⟩
    rw [CacheEntry.isExpired, isTtl, decide_eq_true_iff]
    exact current

theorem Consistent.remove
    (consistent : tracked.Consistent) (books : tracked.KeepsBooks) (key : Key) :
    (tracked.call (.remove key)).Consistent ∧
      (tracked.call (.remove key)).KeepsBooks := by
  have keepsOthers :
      ∀ other value setAt,
        Function.update tracked.stored key none other = some (value, setAt) →
          other ≠ key ∧ tracked.stored other = some (value, setAt) := by
    intro other value setAt isStored
    by_cases same : other = key
    · rw [same, Function.update_self] at isStored
      cases isStored
    · rw [Function.update_of_ne same] at isStored
      exact ⟨same, isStored⟩
  rw [call, QueryCache.remove]
  by_cases present : key ∈ tracked.cache.cache
  · rw [if_pos present]
    refine consistent.of_fewer books rfl
      ((books.lists.erase key).congr fun other => AList.mem_erase)
      (length_keys_erase_le _ key) ?_ ?_
    · intro other entry found
      have differs := (AList.mem_erase.mp (mem_of_lookup found)).1
      exact ⟨lookup_of_lookup_erase found, Function.update_of_ne differs _ _⟩
    · intro other value setAt isStored
      obtain ⟨differs, wasStored⟩ := keepsOthers other value setAt isStored
      refine ⟨wasStored, fun entry found _ => ?_⟩
      exact AList.mem_erase.mpr ⟨differs, mem_of_lookup found⟩
  · rw [if_neg present]
    refine consistent.of_fewer books rfl books.lists le_rfl ?_ ?_
    · intro other entry found
      refine ⟨found, Function.update_of_ne ?_ _ _⟩
      rintro rfl
      exact present (mem_of_lookup found)
    · intro other value setAt isStored
      exact ⟨(keepsOthers other value setAt isStored).2,
        fun entry found _ => mem_of_lookup found⟩

theorem Consistent.clear
    (consistent : tracked.Consistent) (books : tracked.KeepsBooks) :
    (tracked.call .clear).Consistent ∧ (tracked.call .clear).KeepsBooks := by
  refine consistent.of_fewer books rfl
    (.nil fun key => AList.notMem_empty key) (Nat.zero_le _) ?_ ?_
  · intro key entry found
    cases found
  · intro key value setAt isStored
    cases isStored

theorem foldl_dropExpired (expired : List Key) {lastUse : Key → ℕ}
    (lists : ListsByUse cache.accessOrder (· ∈ cache.cache) lastUse) :
    let after := expired.foldl QueryCache.dropExpired cache
    after.config = cache.config ∧
      ListsByUse after.accessOrder (· ∈ after.cache) lastUse ∧
      after.len ≤ cache.len ∧
      (∀ key, ∀ entry ∈ after.cache.lookup key,
        entry ∈ cache.cache.lookup key) ∧
      ∀ key ∈ cache.cache, key ∉ expired → key ∈ after.cache := by
  induction expired generalizing cache with
  | nil =>
    exact ⟨rfl, lists, le_rfl, fun _ _ found => found,
      fun _ present _ => present⟩
  | cons first rest inductionHypothesis =>
    have listsNext :
        ListsByUse (cache.dropExpired first).accessOrder
          (· ∈ (cache.dropExpired first).cache) lastUse :=
      (lists.erase first).congr fun other => AList.mem_erase
    obtain ⟨sameConfig, listsAfter, shorter, fewer, stays⟩ :=
      inductionHypothesis listsNext
    refine ⟨sameConfig, listsAfter,
      shorter.trans (length_keys_erase_le _ first), ?_, ?_⟩
    · intro key entry found
      exact lookup_of_lookup_erase (fewer key entry found)
    · intro key present notExpired
      obtain ⟨differs, notLater⟩ := not_or.mp (List.mem_cons.not.mp notExpired)
      exact stays key (AList.mem_erase.mpr ⟨differs, present⟩) notLater

theorem not_mem_expiredKeys {now : ℕ} {key : Key} {entry : CacheEntry Value}
    (found : entry ∈ cache.cache.lookup key) (current : ¬entry.isExpired now) :
    key ∉ cache.expiredKeys now := by
  intro isExpired
  obtain ⟨⟨other, otherEntry⟩, isEntry, rfl⟩ := List.mem_map.mp isExpired
  obtain ⟨inTable, expired⟩ := List.mem_filter.mp isEntry
  have alsoFound := AList.mem_lookup_iff.mpr inTable
  rw [Option.mem_def, found] at alsoFound
  cases alsoFound
  exact current expired

theorem Consistent.cleanupExpired
    (consistent : tracked.Consistent) (books : tracked.KeepsBooks) :
    (tracked.call .cleanupExpired).Consistent ∧
      (tracked.call .cleanupExpired).KeepsBooks := by
  obtain ⟨sameConfig, lists, shorter, fewer, stays⟩ :=
    foldl_dropExpired (tracked.cache.expiredKeys tracked.now) books.lists
  refine consistent.of_fewer books sameConfig lists shorter ?_ ?_
  · intro key entry found
    exact ⟨fewer key entry found, rfl⟩
  · intro key value setAt isStored
    refine ⟨isStored, fun entry found current => ?_⟩
    exact stays key (mem_of_lookup found)
      (not_mem_expiredKeys found current)

theorem Consistent.wait
    (consistent : tracked.Consistent) (books : tracked.KeepsBooks)
    (duration : ℕ) :
    (tracked.call (.wait duration)).Consistent ∧
      (tracked.call (.wait duration)).KeepsBooks := by
  obtain ⟨lists, bounded, keeps, evictedRightly⟩ :=
    consistent.keepsBooks_iff.mp books
  have consistentAfter : (tracked.call (.wait duration)).Consistent :=
    ⟨consistent.hasRoom, consistent.counted, consistent.entries,
      consistent.unused⟩
  refine ⟨consistentAfter, consistentAfter.keepsBooks_iff.mpr
    ⟨lists, bounded, ?_, evictedRightly⟩⟩
  intro key value setAt isStored current
  refine keeps key value setAt isStored fun expired => current ?_
  exact lt_of_lt_of_le expired (Nat.sub_le_sub_right (Nat.le_add_right _ _) _)

/-!
## Calls in any order
-/

theorem Consistent.call
    (consistent : tracked.Consistent) (books : tracked.KeepsBooks)
    (cacheCall : CacheCall Key Value) :
    (tracked.call cacheCall).Consistent ∧
      ((tracked.call cacheCall).KeepsBooks ↔ tracked.Careful cacheCall) := by
  cases cacheCall with
  | get key => exact consistent.get books key
  | set key value =>
    exact ⟨consistent.set books key value,
      consistent.keepsBooks_set_iff books key value⟩
  | remove key =>
    obtain ⟨consistentAfter, booksAfter⟩ := consistent.remove books key
    exact ⟨consistentAfter, iff_of_true booksAfter trivial⟩
  | clear =>
    obtain ⟨consistentAfter, booksAfter⟩ := consistent.clear books
    exact ⟨consistentAfter, iff_of_true booksAfter trivial⟩
  | cleanupExpired =>
    obtain ⟨consistentAfter, booksAfter⟩ := consistent.cleanupExpired books
    exact ⟨consistentAfter, iff_of_true booksAfter trivial⟩
  | wait duration =>
    obtain ⟨consistentAfter, booksAfter⟩ := consistent.wait books duration
    exact ⟨consistentAfter, iff_of_true booksAfter trivial⟩

/-- A call takes a cache and its history to what it makes of them. -/
def Step (before : TrackedCache Key Value) (cacheCall : CacheCall Key Value)
    (after : TrackedCache Key Value) :
    Prop :=
  after = before.call cacheCall

theorem new_keepsBooks
    {config : CacheConfig} (hasRoom : 0 < config.maxSize) (now : ℕ) :
    (new config now : TrackedCache Key Value).Consistent ∧
      (new config now : TrackedCache Key Value).KeepsBooks := by
  have consistent : (new config now : TrackedCache Key Value).Consistent :=
    ⟨hasRoom, fun _ => Nat.one_pos, fun _ _ found => (nomatch found),
      fun _ key => AList.notMem_empty key⟩
  refine ⟨consistent, consistent.keepsBooks_iff.mpr
    ⟨.nil fun key => AList.notMem_empty key, Nat.zero_le _, ?_, trivial⟩⟩
  intro key value setAt isStored
  cases isStored

/--
From a new cache with room, the books are kept in every state that a run passes
exactly when no key is set that is in the table, no expired entry is read, and
nothing is set in a cache that is not enabled.
-/
theorem keepsBooks_iff_of_run {config : CacheConfig}
    (hasRoom : 0 < config.maxSize) {now : ℕ}
    {calls : List (CacheCall Key Value)} {final : TrackedCache Key Value}
    (run : Run Step (new config now) calls final) :
    (∀ passed remaining middle,
        calls = passed ++ remaining →
          Run Step (new config now) passed middle → middle.KeepsBooks) ↔
      Run (Restrict Step Careful) (new config now) calls final := by
  obtain ⟨consistent, books⟩ := @new_keepsBooks Key Value _ config hasRoom now
  refine run.always_iff_restrict ?_ consistent books ?_
  · intro before cacheCall after other taken again
    exact taken.trans again.symm
  · rintro before cacheCall after consistentBefore booksBefore rfl
    exact consistentBefore.call booksBefore cacheCall

/-- Setting two keys in turn and reading the second one keeps the books. -/
theorem books_of_two_keys :
    ∃ final,
      Run Step (new ⟨1, 10, true⟩ 0 : TrackedCache ℕ ℕ)
          [.set 1 5, .wait 3, .set 2 6, .get 2] final ∧
        ∀ passed remaining middle,
          [.set 1 5, .wait 3, .set 2 6, .get 2] = passed ++ remaining →
            Run Step (new ⟨1, 10, true⟩ 0) passed middle →
              middle.KeepsBooks := by
  let first : TrackedCache ℕ ℕ := new ⟨1, 10, true⟩ 0
  let second := (first.call (.set 1 5)).call (.wait 3)
  have secondFound :
      (second.call (.set 2 6)).cache.cache.lookup 2 =
        some (CacheEntry.new 6 10 3) := by
    decide
  have found :
      ∀ entry ∈ (second.call (.set 2 6)).cache.cache.lookup 2,
        ¬entry.isExpired 3 := by
    rw [secondFound]
    rintro _ ⟨⟩
    decide
  refine ⟨_, .cons rfl (.cons rfl (.cons rfl (.single rfl))),
    (keepsBooks_iff_of_run (by decide)
      (.cons rfl (.cons rfl (.cons rfl (.single rfl))))).mpr ?_⟩
  exact .cons ⟨⟨rfl, by decide⟩, rfl⟩
    (.cons ⟨trivial, rfl⟩
      (.cons ⟨⟨rfl, by decide⟩, rfl⟩ (.single ⟨fun _ => found, rfl⟩)))

theorem key_is_listed_twice :
    ¬((new ⟨2, 10, true⟩ 0 : TrackedCache ℕ ℕ).call (.set 1 5)
        |>.call (.set 1 6)).KeepsBooks := by
  intro books
  exact absurd books.lists.distinct (by decide)

end TrackedCache

end ChronoDB.Query.Cache
