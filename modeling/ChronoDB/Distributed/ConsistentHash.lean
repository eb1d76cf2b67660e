import Mathlib.Data.List.Induction
import ChronoDB.Library.FiniteMap
import ChronoDB.Library.SipHash
import ChronoDB.Model.Types

namespace ChronoDB.Distributed

open Library List

/-!
# The ring of consistent hashing

A node owns ten points of the ring, and a key belongs to the owner of the first
point at or after its hash.  The points are kept in a map and in a sorted list,
and the list gets a point again when the map already has it.
-/

/--
A binary search of sorted hashes: any place of the hash, or else the place where
it would be inserted.
-/
structure BinarySearch where
  index : List UInt64 → UInt64 → ℕ
  found :
    ∀ {sorted hash},
      sorted.Pairwise (· ≤ ·) →
      hash ∈ sorted →
      sorted[index sorted hash]? = some hash
  absent :
    ∀ {sorted hash},
      sorted.Pairwise (· ≤ ·) →
      hash ∉ sorted →
      index sorted hash = sorted.countP (· < hash)

/-- The search that finds the first of several places. -/
def firstPlace : BinarySearch where
  index sorted hash :=
    if hash ∈ sorted then sorted.idxOf hash else sorted.countP (· < hash)
  found _ member := by
    rw [if_pos member]
    exact getElem?_idxOf member
  absent _ notMember := if_neg notMember

structure ConsistentHash where
  nodes : List String
  virtualNodes : FiniteMap UInt64 String
  sortedHashes : List UInt64

inductive RingCall where
  | addNode (nodeId : String)
  | removeNode (nodeId : String)
  deriving Repr, DecidableEq

namespace ConsistentHash

def new : ConsistentHash where
  nodes := []
  virtualNodes := ∅
  sortedHashes := []

variable (search : BinarySearch) (hash : String → UInt64)

def points (nodeId : String) : List UInt64 :=
  (range 10).map fun i => hash (nodeId ++ "-" ++ toString i)

def addNode (ring : ConsistentHash) (nodeId : String) : ConsistentHash where
  virtualNodes :=
    (points hash nodeId).foldl (fun owners point => owners.insert point nodeId)
      ring.virtualNodes
  sortedHashes :=
    sortByKey UInt64.toNat (ring.sortedHashes ++ points hash nodeId)
  nodes := if nodeId ∈ ring.nodes then ring.nodes else ring.nodes ++ [nodeId]

def removeHash (ring : ConsistentHash) (point : UInt64) : ConsistentHash :=
  {
    ring with
    virtualNodes := ring.virtualNodes.erase point
    sortedHashes := ring.sortedHashes.filter (· ≠ point)
  }

def removeNode (ring : ConsistentHash) (nodeId : String) : ConsistentHash :=
  let hashesToRemove :=
    (ring.virtualNodes.entries.filter (·.2 = nodeId)).map Sigma.fst
  let removed := hashesToRemove.foldl removeHash ring
  { removed with nodes := removed.nodes.filter (· ≠ nodeId) }

/-- `get_node`, which panics when it indexes beyond the sorted hashes. -/
def getNode (ring : ConsistentHash) (key : String) :
    Except Fault (Option String) :=
  if ring.virtualNodes.entries = [] then .ok none
  else
    let index := search.index ring.sortedHashes (hash key)
    let index := if ring.sortedHashes.length ≤ index then 0 else index
    match ring.sortedHashes[index]? with
    | none => .error .panic
    | some point => .ok (ring.virtualNodes.lookup point)

def apply (ring : ConsistentHash) : RingCall → ConsistentHash
  | .addNode nodeId => ring.addNode hash nodeId
  | .removeNode nodeId => ring.removeNode nodeId

def after (calls : List RingCall) : ConsistentHash :=
  calls.foldl (apply hash) new

/-!
## What is promised of a ring
-/

/-- The first of some points at or after a position, going round the ring. -/
def IsFirstAt (IsPoint : UInt64 → Prop) (position point : UInt64) : Prop :=
  IsPoint point ∧
    ((position ≤ point ∧
        ∀ other, IsPoint other → position ≤ other → point ≤ other) ∨
      ∀ other, IsPoint other → other < position ∧ point ≤ other)

structure Consistent (ring : ConsistentHash) : Prop where
  ascending : ring.sortedHashes.Pairwise (· < ·)
  keys : ∀ point, point ∈ ring.sortedHashes ↔ point ∈ ring.virtualNodes
  finds :
    ring.virtualNodes.entries ≠ [] →
    ∀ key, ∃ point, ∃ node ∈ ring.nodes,
      IsFirstAt (· ∈ ring.virtualNodes) (hash key) point ∧
      ring.virtualNodes.lookup point = some node ∧
      ring.getNode search hash key = .ok (some node)
  owns :
    ∀ node ∈ ring.nodes, ∃ point, ring.virtualNodes.lookup point = some node
  movesOwn :
    ∀ node key,
      (ring.removeNode node).getNode search hash key ≠
        ring.getNode search hash key →
      ring.getNode search hash key = .ok (some node)

/-- What holds of every ring, also after collisions. -/
structure Linked (ring : ConsistentHash) : Prop where
  ascending : ring.sortedHashes.Pairwise (· ≤ ·)
  keys : ∀ point, point ∈ ring.sortedHashes ↔ point ∈ ring.virtualNodes
  listed :
    ∀ point node, ring.virtualNodes.lookup point = some node → node ∈ ring.nodes

variable {search hash} {ring : ConsistentHash} {nodeId : String}

/-!
## The first point
-/

theorem IsFirstAt.unique
    {IsPoint : UInt64 → Prop} {position first second : UInt64}
    (isFirst : IsFirstAt IsPoint position first)
    (isSecond : IsFirstAt IsPoint position second) :
    first = second := by
  obtain ⟨firstPoint, ⟨notBefore, least⟩ | around⟩ := isFirst
  all_goals
    obtain ⟨secondPoint, ⟨notBeforeSecond, leastSecond⟩ | aroundSecond⟩ :=
      isSecond
  · exact UInt64.le_antisymm (least _ secondPoint notBeforeSecond)
      (leastSecond _ firstPoint notBefore)
  · exact absurd notBefore (UInt64.not_le.mpr (aroundSecond _ firstPoint).1)
  · exact absurd notBeforeSecond (UInt64.not_le.mpr (around _ secondPoint).1)
  · exact UInt64.le_antisymm (around _ secondPoint).2
      (aroundSecond _ firstPoint).2

/-- A first point that stays is the first of the points that stay. -/
theorem IsFirstAt.anti
    {IsPoint StaysPoint : UInt64 → Prop} {position point : UInt64}
    (isFirst : IsFirstAt IsPoint position point) (stays : StaysPoint point)
    (fewer : ∀ other, StaysPoint other → IsPoint other) :
    IsFirstAt StaysPoint position point :=
  ⟨stays,
    isFirst.2.imp
      (fun first => ⟨first.1, fun other isPoint =>
        first.2 other (fewer other isPoint)⟩)
      fun around other isPoint => around other (fewer other isPoint)⟩

theorem getElem?_countP {sorted : List UInt64} {position point : UInt64}
    (ascending : sorted.Pairwise (· ≤ ·))
    (isPoint : sorted[sorted.countP (· < position)]? = some point) :
    position ≤ point ∧ ∀ other ∈ sorted, position ≤ other → point ≤ other := by
  induction sorted with
  | nil => cases isPoint
  | cons first rest inductionHypothesis =>
    obtain ⟨least, restAscending⟩ := pairwise_cons.mp ascending
    by_cases before : first < position
    · have more := countP_cons_of_pos
        (p := (· < position)) (l := rest) (decide_eq_true before)
      rw [more, getElem?_cons_succ] at isPoint
      obtain ⟨notBefore, leastRest⟩ := inductionHypothesis restAscending isPoint
      refine ⟨notBefore, forall_mem_cons.mpr ⟨fun notBeforeFirst => ?_,
        leastRest⟩⟩
      exact absurd before (UInt64.not_lt.mpr notBeforeFirst)
    · have notBefore := UInt64.not_lt.mp before
      have none : (first :: rest).countP (· < position) = 0 := by
        refine countP_eq_zero.mpr fun other member => ?_
        rw [decide_eq_true_eq, UInt64.not_lt]
        rcases mem_cons.mp member with rfl | inRest
        · exact notBefore
        · exact UInt64.le_trans notBefore (least other inRest)
      rw [none, getElem?_cons_zero, Option.some.injEq] at isPoint
      subst isPoint
      exact ⟨notBefore, forall_mem_cons.mpr
        ⟨fun _ => UInt64.le_refl _, fun other inRest _ => least other inRest⟩⟩

/-- A key is looked up at the first point at or after its hash. -/
theorem Linked.getNode_eq
    (linked : ring.Linked) (nonempty : ring.virtualNodes.entries ≠ [])
    (key : String) :
    ∃ point, ∃ node ∈ ring.nodes,
      IsFirstAt (· ∈ ring.virtualNodes) (hash key) point ∧
      ring.virtualNodes.lookup point = some node ∧
      ring.getNode search hash key = .ok (some node) := by
  obtain ⟨entry, isEntry⟩ := exists_mem_of_ne_nil _ nonempty
  have inSorted : entry.1 ∈ ring.sortedHashes :=
    (linked.keys _).mpr (mem_keys_of_mem isEntry)
  have positive := length_pos_of_mem inSorted
  have finds (point : UInt64)
      (isPoint :
        ring.sortedHashes[
          if ring.sortedHashes.length ≤
              search.index ring.sortedHashes (hash key) then 0
          else search.index ring.sortedHashes (hash key)]? = some point)
      (isFirst : IsFirstAt (· ∈ ring.sortedHashes) (hash key) point) :
      ∃ point, ∃ node ∈ ring.nodes,
        IsFirstAt (· ∈ ring.virtualNodes) (hash key) point ∧
        ring.virtualNodes.lookup point = some node ∧
        ring.getNode search hash key = .ok (some node) := by
    obtain ⟨node, owner⟩ :=
      FiniteMap.exists_lookup ((linked.keys point).mp isFirst.1)
    refine ⟨point, node, linked.listed point node owner,
      isFirst.anti ((linked.keys point).mp isFirst.1)
        fun other => (linked.keys other).mpr, owner, ?_⟩
    rw [getNode, if_neg nonempty]
    simp only [isPoint, owner]
  by_cases member : hash key ∈ ring.sortedHashes
  · have isPoint := search.found linked.ascending member
    obtain ⟨short, _⟩ := List.getElem?_eq_some_iff.mp isPoint
    refine finds (hash key) ?_ ⟨member, .inl ⟨UInt64.le_refl _, fun _ _ => id⟩⟩
    rw [if_neg (not_le.mpr short)]
    exact isPoint
  · have isIndex := search.absent linked.ascending member
    by_cases short :
        search.index ring.sortedHashes (hash key) < ring.sortedHashes.length
    · obtain ⟨point, isPoint⟩ :
          ∃ point,
            ring.sortedHashes[search.index ring.sortedHashes (hash key)]? =
              some point :=
        ⟨_, List.getElem?_eq_getElem short⟩
      refine finds point ?_ ⟨mem_of_getElem? isPoint, .inl ?_⟩
      · rw [if_neg (not_le.mpr short)]
        exact isPoint
      · rw [isIndex] at isPoint
        exact getElem?_countP linked.ascending isPoint
    · -- every point is before the hash, so the search goes on at the first one
      have all : ring.sortedHashes.countP (· < hash key) =
          ring.sortedHashes.length :=
        le_antisymm countP_le_length (isIndex ▸ not_lt.mp short)
      have before := countP_eq_length.mp all
      obtain ⟨first, rest, isList⟩ := exists_cons_of_ne_nil
        (ne_nil_of_length_pos positive)
      refine finds first ?_ ⟨isList ▸ mem_cons_self, .inr fun other inList =>
        ⟨of_decide_eq_true (before other inList), ?_⟩⟩
      · rw [if_pos (not_lt.mp short), isList]
        rfl
      · have ascending := linked.ascending
        rw [isList] at inList ascending
        rcases mem_cons.mp inList with rfl | inRest
        · exact UInt64.le_refl _
        · exact rel_of_pairwise_cons ascending inRest

/-!
## What the calls do
-/

theorem lookup_addNode (point : UInt64) :
    (ring.addNode hash nodeId).virtualNodes.lookup point =
      if point ∈ points hash nodeId then some nodeId
      else ring.virtualNodes.lookup point :=
  FiniteMap.lookup_foldl_insert (fun _ => nodeId) ring.virtualNodes _ point

theorem Linked.addNode (linked : ring.Linked) (nodeId : String) :
    (ring.addNode hash nodeId).Linked where
  ascending :=
    (pairwise_sortByKey UInt64.toNat _).imp UInt64.le_iff_toNat_le.mpr
  keys point := by
    rw [ConsistentHash.addNode, mem_sortByKey, mem_append, linked.keys,
      ← AList.lookup_isSome, ← AList.lookup_isSome, ← ConsistentHash.addNode,
      lookup_addNode]
    split
    · rename_i own
      exact iff_of_true (.inr own) rfl
    · rename_i notOwn
      exact or_iff_left notOwn
  listed point node owner := by
    rw [lookup_addNode] at owner
    have inNodes :
        node = nodeId ∨ node ∈ ring.nodes →
          node ∈ (ring.addNode hash nodeId).nodes := by
      rw [ConsistentHash.addNode]
      split
      · rintro (rfl | member) <;> assumption
      · rw [mem_append, mem_singleton]
        exact Or.symm
    split at owner
    · cases owner
      exact inNodes (.inl rfl)
    · exact inNodes (.inr (linked.listed point node owner))

theorem foldl_removeHash (ring : ConsistentHash) (removed : List UInt64) :
    (removed.foldl removeHash ring).nodes = ring.nodes ∧
      (removed.foldl removeHash ring).sortedHashes =
        ring.sortedHashes.filter (· ∉ removed) ∧
      ∀ point,
        (removed.foldl removeHash ring).virtualNodes.lookup point =
          if point ∈ removed then none else ring.virtualNodes.lookup point := by
  induction removed generalizing ring with
  | nil => simp
  | cons first rest inductionHypothesis =>
    obtain ⟨nodes, sorted, lookups⟩ :=
      inductionHypothesis (ring.removeHash first)
    rw [foldl_cons]
    refine ⟨nodes, sorted.trans ?_, fun point => (lookups point).trans ?_⟩
    · rw [removeHash, filter_filter]
      refine filter_congr fun point _ => ?_
      rw [Bool.and_comm]
      simp
    · rw [removeHash]
      by_cases same : point = first
      · subst same
        rw [AList.lookup_erase, ite_self, if_pos mem_cons_self]
      · rw [AList.lookup_erase_ne same]
        simp [same]

theorem lookup_removeNode (ring : ConsistentHash) (nodeId : String)
    (point : UInt64) :
    (ring.removeNode nodeId).virtualNodes.lookup point =
        (ring.virtualNodes.lookup point).filter (· ≠ nodeId) ∧
      (point ∈ (ring.removeNode nodeId).sortedHashes ↔
        point ∈ ring.sortedHashes ∧
          ring.virtualNodes.lookup point ≠ some nodeId) := by
  have removes :
      point ∈ (ring.virtualNodes.entries.filter (·.2 = nodeId)).map Sigma.fst ↔
        ring.virtualNodes.lookup point = some nodeId := by
    rw [mem_map]
    constructor
    · rintro ⟨⟨_, node⟩, member, rfl⟩
      obtain ⟨isEntry, owned⟩ := mem_filter.mp member
      obtain rfl : node = nodeId := of_decide_eq_true owned
      exact AList.mem_lookup_iff.mpr isEntry
    · intro owner
      exact ⟨⟨point, nodeId⟩, mem_filter.mpr
        ⟨AList.mem_lookup_iff.mp owner, decide_eq_true rfl⟩, rfl⟩
  obtain ⟨_, sorted, lookups⟩ := foldl_removeHash ring
    ((ring.virtualNodes.entries.filter (·.2 = nodeId)).map Sigma.fst)
  constructor
  · refine (lookups point).trans ?_
    rw [if_congr removes rfl rfl]
    cases ring.virtualNodes.lookup point with
    | none => simp
    | some node =>
      by_cases same : node = nodeId
      · simp [Option.filter_some, same]
      · simp [Option.filter_some, same]
  · refine (iff_of_eq (congrArg (point ∈ ·) sorted)).trans ?_
    rw [mem_filter, decide_eq_true_eq, removes]

theorem Linked.removeNode (linked : ring.Linked) (nodeId : String) :
    (ring.removeNode nodeId).Linked := by
  obtain ⟨sameNodes, sorted, _⟩ := foldl_removeHash ring
    ((ring.virtualNodes.entries.filter (·.2 = nodeId)).map Sigma.fst)
  refine ⟨?_, fun point => ?_, fun point node owner => ?_⟩
  · exact sorted ▸ linked.ascending.filter _
  · obtain ⟨owner, inSorted⟩ := lookup_removeNode ring nodeId point
    rw [inSorted, linked.keys, ← AList.lookup_isSome, ← AList.lookup_isSome,
      owner]
    cases ring.virtualNodes.lookup point <;> simp
  · rw [(lookup_removeNode ring nodeId point).1,
      Option.filter_eq_some_iff] at owner
    refine mem_filter.mpr ⟨?_, owner.2⟩
    exact sameNodes.symm ▸ linked.listed point node owner.1

theorem after_append (earlier : List RingCall) (last : RingCall) :
    after hash (earlier ++ [last]) = apply hash (after hash earlier) last :=
  foldl_append

theorem linked_after (calls : List RingCall) : (after hash calls).Linked := by
  induction calls using List.reverseRecOn with
  | nil =>
    exact ⟨.nil, fun _ => by simp [after, new], fun _ _ owner => by cases owner⟩
  | append_singleton earlier last linked =>
    rw [after_append]
    cases last with
    | addNode nodeId => exact linked.addNode nodeId
    | removeNode nodeId => exact linked.removeNode nodeId

theorem Linked.getNode_removeNode (linked : ring.Linked) {key : String}
    (moves :
      (ring.removeNode nodeId).getNode search hash key ≠
        ring.getNode search hash key) :
    ring.getNode search hash key = .ok (some nodeId) := by
  by_cases isEmpty : ring.virtualNodes.entries = []
  · refine absurd ?_ moves
    have unchanged : (ring.removeNode nodeId).virtualNodes.entries = [] := by
      rw [ConsistentHash.removeNode, isEmpty]
      exact isEmpty
    rw [getNode, getNode, if_pos unchanged, if_pos isEmpty]
  · obtain ⟨point, node, _, isFirst, owner, isNode⟩ :=
      @getNode_eq search hash ring linked isEmpty key
    by_cases own : node = nodeId
    · rw [isNode, own]
    · refine absurd ?_ moves
      have stays :
          (ring.removeNode nodeId).virtualNodes.lookup point = some node := by
        rw [(lookup_removeNode ring nodeId point).1, owner]
        simp [own]
      have member := FiniteMap.mem_of_lookup stays
      have nonempty : (ring.removeNode nodeId).virtualNodes.entries ≠ [] := by
        intro nothing
        rw [AList.mem_keys, AList.keys, nothing] at member
        cases member
      obtain ⟨other, next, _, isFirstLeft, nextOwner, isNext⟩ :=
        @getNode_eq search hash _ (linked.removeNode nodeId) nonempty key
      have same := isFirstLeft.unique (isFirst.anti member fun kept isKept => by
        rw [← linked.keys]
        rw [← (linked.removeNode nodeId).keys] at isKept
        exact ((lookup_removeNode ring nodeId kept).2.mp isKept).1)
      subst same
      rw [isNext, isNode, ← nextOwner, stays]

/-- A node that is added takes keys over, and no other key moves. -/
theorem getNode_after_addNode (search : BinarySearch) (hash : String → UInt64)
    (calls : List RingCall) (nodeId key : String) :
    (after hash (calls ++ [.addNode nodeId])).getNode search hash key =
        (after hash calls).getNode search hash key ∨
      (after hash (calls ++ [.addNode nodeId])).getNode search hash key =
        .ok (some nodeId) := by
  have linked := @linked_after hash calls
  rw [after_append, apply]
  generalize after hash calls = ring at linked ⊢
  have lookups (point : UInt64) := @lookup_addNode hash ring nodeId point
  have grows (point : UInt64) (present : point ∈ ring.virtualNodes) :
      point ∈ (ring.addNode hash nodeId).virtualNodes := by
    rw [← AList.lookup_isSome] at present ⊢
    rw [lookups]
    split
    · rfl
    · exact present
  have nonempty {ring : ConsistentHash} {point : UInt64}
      (member : point ∈ ring.virtualNodes) :
      ring.virtualNodes.entries ≠ [] := by
    intro nothing
    rw [AList.mem_keys, AList.keys, nothing] at member
    cases member
  have own : hash (nodeId ++ "-" ++ toString 0) ∈ points hash nodeId :=
    mem_map_of_mem (mem_range.mpr (by decide))
  obtain ⟨point, node, _, isFirst, owner, isNode⟩ :=
    @Linked.getNode_eq search hash _ (linked.addNode nodeId)
      (nonempty (FiniteMap.mem_of_lookup ((lookups _).trans (if_pos own)))) key
  rw [isNode]
  rw [lookups] at owner
  split at owner
  · exact .inr (congrArg _ owner.symm)
  · have member := FiniteMap.mem_of_lookup owner
    obtain ⟨other, previous, _, isFirstBefore, ownerBefore, isPrevious⟩ :=
      @Linked.getNode_eq search hash ring linked (nonempty member) key
    obtain rfl := isFirstBefore.unique (isFirst.anti member grows)
    rw [isPrevious, ← owner, ownerBefore]
    exact .inl rfl

/-!
## When a ring is consistent
-/

theorem nodup_addNode_iff (linked : ring.Linked) :
    (ring.addNode hash nodeId).sortedHashes.Nodup ↔
      ring.sortedHashes.Nodup ∧ (points hash nodeId).Nodup ∧
        ∀ point ∈ points hash nodeId, point ∉ ring.virtualNodes := by
  refine (sortByKey_perm UInt64.toNat _).nodup_iff.trans ?_
  rw [nodup_append']
  refine and_congr_right fun _ => and_congr_right fun _ => ?_
  exact ⟨fun apart point own present =>
      apart ((linked.keys point).mpr present) own,
    fun apart point present own =>
      apart point own ((linked.keys point).mp present)⟩

def AddsNewPoints (hash : String → UInt64) (calls : List RingCall) : Prop :=
  ∀ made nodeId, made ++ [.addNode nodeId] <+: calls →
    (points hash nodeId).Nodup ∧
      ∀ point ∈ points hash nodeId, point ∉ (after hash made).virtualNodes

theorem distinct_after
    {calls : List RingCall} (addsNew : AddsNewPoints hash calls) :
    (after hash calls).sortedHashes.Nodup ∧
      ∀ node ∈ (after hash calls).nodes, ∃ point,
        (after hash calls).virtualNodes.lookup point = some node := by
  induction calls using List.reverseRecOn with
  | nil =>
    exact ⟨nodup_nil, fun _ member => by cases member⟩
  | append_singleton earlier last inductionHypothesis =>
    obtain ⟨distinct, owns⟩ := inductionHypothesis fun made nodeId isStart =>
      addsNew made nodeId (isStart.trans (prefix_append _ _))
    have linked := @linked_after hash earlier
    rw [after_append]
    cases last with
    | addNode nodeId =>
      obtain ⟨differ, new⟩ := addsNew earlier nodeId (prefix_refl _)
      refine ⟨(nodup_addNode_iff linked).mpr ⟨distinct, differ, new⟩,
        fun node member => ?_⟩
      change ∃ point,
        ((after hash earlier).addNode hash nodeId).virtualNodes.lookup
          point = some node
      have own : hash (nodeId ++ "-" ++ toString 0) ∈ points hash nodeId :=
        mem_map_of_mem (mem_range.mpr (by decide))
      by_cases isAdded : node = nodeId
      · exact ⟨_, by rw [lookup_addNode, if_pos own, isAdded]⟩
      · have before : node ∈ (after hash earlier).nodes := by
          change node ∈ ite _ _ _ at member
          split at member
          · exact member
          · exact (mem_append.mp member).resolve_right
              fun isLast => isAdded (mem_singleton.mp isLast)
        obtain ⟨point, owner⟩ := owns node before
        refine ⟨point, ?_⟩
        rw [lookup_addNode, if_neg fun inPoints =>
          new point inPoints (FiniteMap.mem_of_lookup owner)]
        exact owner
    | removeNode nodeId =>
      obtain ⟨sameNodes, sorted, _⟩ := foldl_removeHash (after hash earlier)
        (((after hash earlier).virtualNodes.entries.filter
          (·.2 = nodeId)).map Sigma.fst)
      refine ⟨sorted ▸ distinct.filter _, fun node member => ?_⟩
      obtain ⟨before, other⟩ := mem_filter.mp member
      obtain ⟨point, owner⟩ := owns node (sameNodes ▸ before)
      refine ⟨point, (lookup_removeNode _ nodeId point).1.trans ?_⟩
      rw [owner, Option.filter_some, if_pos other]

/--
The ring is consistent after every call exactly when each added node brings ten
different hashes of which none is on the ring.
-/
theorem consistent_always_iff
    (search : BinarySearch) (hash : String → UInt64) (calls : List RingCall) :
    (∀ made, made <+: calls → Consistent search hash (after hash made)) ↔
      AddsNewPoints hash calls := by
  constructor
  · intro consistent made nodeId isStart
    have ascending := (consistent _ isStart).ascending
    rw [after_append] at ascending
    exact ((nodup_addNode_iff (linked_after made)).mp
      (ascending.imp UInt64.ne_of_lt)).2
  · intro addsNew made isStart
    have linked := @linked_after hash made
    obtain ⟨distinct, owns⟩ := distinct_after fun earlier nodeId isEarlier =>
      addsNew earlier nodeId (isEarlier.trans isStart)
    exact {
      ascending := (linked.ascending.and distinct).imp fun ⟨below, differ⟩ =>
        UInt64.lt_of_le_of_ne below differ
      keys := linked.keys
      finds := linked.getNode_eq
      owns := owns
      movesOwn := fun _ _ => linked.getNode_removeNode
    }

/-- A node that is added twice has every point twice in the sorted list. -/
theorem added_twice_is_inconsistent :
    ¬ ∀ (search : BinarySearch) (hash : String → UInt64)
        (calls : List RingCall),
        Consistent search hash (after hash calls) := by
  intro consistent
  have ascending :=
    (consistent firstPlace (fun key => SipHash.hash (stringBytes key))
      [.addNode "a", .addNode "a"]).ascending
  have repeats :
      ¬ (after (fun key => SipHash.hash (stringBytes key))
        [.addNode "a", .addNode "a"]).sortedHashes.Nodup := by
    decide +kernel
  exact repeats (ascending.imp UInt64.ne_of_lt)

end ConsistentHash

end ChronoDB.Distributed
