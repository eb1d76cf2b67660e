import ChronoDB.Memstore.Reading

namespace ChronoDB.Memstore

open Library Columnstore List

/-!
# Answers that list series of a store

An answer lists the series with a property when its items show these series, each
once.  If the items show the labels, which name a series, then an answer lists no
other series.
-/

variable {Item : Type}

/--
If parts name what they show and nothing is shown twice, then every item has just
one part.
-/
theorem forall₂_flatMap
    {Id Part : Type} {Shows : Id → Item → Prop} {ShowsPart : Id → Part → Prop}
    {parts : Item → List Part} {ids others : List Id} {items : List Item}
    (shown : List.Forall₂ Shows ids items)
    (otherShown : List.Forall₂ ShowsPart others (items.flatMap parts))
    (distinct : others.Nodup)
    (hasPart : ∀ id ∈ ids, ∀ item, Shows id item → parts item ≠ [])
    (named :
      ∀ id ∈ ids, ∀ other ∈ others, ∀ item, ∀ part ∈ parts item,
        Shows id item → ShowsPart other part → id = other) :
    List.Forall₂
      (fun other item => ∃ part, parts item = [part] ∧ ShowsPart other part)
      others items := by
  induction shown generalizing others with
  | nil =>
    cases otherShown
    exact .nil
  | @cons id item ids items first rest inductionHypothesis =>
    rw [flatMap_cons] at otherShown
    cases isParts : parts item with
    | nil => exact absurd isParts (hasPart id mem_cons_self item first)
    | cons part more =>
      rw [isParts, cons_append] at otherShown
      cases otherShown with
      | @cons other _ others _ otherFirst otherRest =>
        have isOwner :=
          named id mem_cons_self other mem_cons_self item part
            (by rw [isParts]; exact mem_cons_self) first otherFirst
        cases more with
        | nil =>
          refine .cons ⟨part, isParts, otherFirst⟩ ?_
          refine inductionHypothesis otherRest
            (nodup_cons.mp distinct).2
            (fun id member =>
              hasPart id (mem_cons_of_mem _ member))
            fun id member other isOther =>
              named id (mem_cons_of_mem _ member) other
                (mem_cons_of_mem _ isOther)
        | cons second more =>
          -- the second part shows the same again
          rw [cons_append] at otherRest
          cases otherRest with
          | @cons again _ _ _ otherSecond _ =>
            have isAgain :=
              named id mem_cons_self again
                (mem_cons_of_mem _ mem_cons_self) item
                second (by rw [isParts]; simp) first otherSecond
            rw [← isOwner, ← isAgain] at distinct
            exact absurd mem_cons_self (nodup_cons.mp distinct).1

theorem forall₂_flatMap_of_single
    {Id Part : Type} {ShowsPart : Id → Part → Prop} {parts : Item → List Part}
    {ids : List Id} {items : List Item}
    (shown :
      List.Forall₂
        (fun id item => ∃ part, parts item = [part] ∧ ShowsPart id part)
        ids items) :
    List.Forall₂ ShowsPart ids (items.flatMap parts) := by
  induction shown with
  | nil => exact .nil
  | cons first rest inductionHypothesis =>
    obtain ⟨part, isParts, shows⟩ := first
    rw [flatMap_cons, isParts]
    exact .cons shows inductionHypothesis

/-- The items show the selected series of a store, each once, in some order. -/
def MemStore.Lists (store : MemStore) (Selects : TimeSeriesEntry → Prop)
    (Shows : TimeSeriesEntry → Item → Prop) (items : List Item) :
    Prop :=
  ∃ ids : List TimeSeriesId,
    ids.Nodup ∧
      (∀ seriesId,
        seriesId ∈ ids ↔
          ∃ entry,
            store.head.series.lookup seriesId = some entry ∧ Selects entry) ∧
      List.Forall₂
        (fun seriesId item =>
          ∃ entry,
            store.head.series.lookup seriesId = some entry ∧ Shows entry item)
        ids items

namespace MemStore.Lists

variable {store : MemStore}
variable {Selects OtherSelects : TimeSeriesEntry → Prop}
variable {Shows OtherShows : TimeSeriesEntry → Item → Prop}
variable {items : List Item}

theorem imp (lists : store.Lists Selects Shows items)
    (sameSeries :
      ∀ seriesId entry,
        store.head.series.lookup seriesId = some entry →
          (Selects entry ↔ OtherSelects entry))
    (shownSo :
      ∀ seriesId entry item,
        store.head.series.lookup seriesId = some entry →
          Selects entry → Shows entry item → OtherShows entry item) :
    store.Lists OtherSelects OtherShows items := by
  obtain ⟨ids, distinct, members, shown⟩ := lists
  refine ⟨ids, distinct, fun seriesId => ?_, ?_⟩
  · rw [members]
    exact exists_congr fun entry =>
      and_congr_right fun found => sameSeries seriesId entry found
  · have selected :
        ∀ seriesId ∈ ids,
          ∃ entry,
            store.head.series.lookup seriesId = some entry ∧ Selects entry :=
      fun seriesId => (members seriesId).mp
    clear members distinct
    induction shown with
    | nil => exact .nil
    | cons first rest inductionHypothesis =>
      obtain ⟨isSelected, others⟩ := forall_mem_cons.mp selected
      refine .cons ?_ (inductionHypothesis others)
      obtain ⟨entry, found, shows⟩ := first
      obtain ⟨same, otherFound, selects⟩ := isSelected
      rw [found] at otherFound
      cases otherFound
      exact ⟨entry, found, shownSo _ _ _ found selects shows⟩

theorem map {Image : Type} {translate : Item → Image}
    {ShowsImage : TimeSeriesEntry → Image → Prop}
    (lists : store.Lists Selects Shows items)
    (shownSo :
      ∀ entry item, Shows entry item → ShowsImage entry (translate item)) :
    store.Lists Selects ShowsImage (items.map translate) := by
  obtain ⟨ids, distinct, members, shown⟩ := lists
  refine ⟨ids, distinct, members, ?_⟩
  rw [List.forall₂_map_right_iff]
  refine shown.imp ?_
  rintro seriesId item ⟨entry, found, shows⟩
  exact ⟨entry, found, shownSo entry item shows⟩

theorem exists_item
    (lists : store.Lists Selects Shows items) {seriesId : TimeSeriesId}
    {entry : TimeSeriesEntry}
    (found : store.head.series.lookup seriesId = some entry)
    (selects : Selects entry) :
    ∃ item ∈ items, Shows entry item := by
  obtain ⟨ids, distinct, members, shown⟩ := lists
  have member := (members seriesId).mpr ⟨entry, found, selects⟩
  clear members distinct
  induction shown with
  | nil => cases member
  | cons first rest inductionHypothesis =>
    rcases mem_cons.mp member with rfl | later
    · obtain ⟨same, isEntry, shows⟩ := first
      rw [found] at isEntry
      cases isEntry
      exact ⟨_, mem_cons_self, shows⟩
    · obtain ⟨item, isItem, shows⟩ := inductionHypothesis later
      exact ⟨item, mem_cons_of_mem _ isItem, shows⟩

theorem perm {Image : Type} {translate : Item → Image} {others : List Item}
    (lists : store.Lists Selects Shows items)
    (otherLists : store.Lists Selects Shows others)
    (same :
      ∀ entry item other,
        Shows entry item → Shows entry other →
          translate item = translate other) :
    (items.map translate).Perm (others.map translate) := by
  obtain ⟨ids, distinct, members, shown⟩ := lists
  obtain ⟨otherIds, otherDistinct, otherMembers, otherShown⟩ := otherLists
  have sameIds : ids.Perm otherIds :=
    (perm_ext_iff_of_nodup distinct otherDistinct).mpr fun seriesId =>
      (members seriesId).trans (otherMembers seriesId).symm
  obtain ⟨reordered, alsoShown, isPerm⟩ := perm_comp_forall₂ sameIds otherShown
  have equal : items.map translate = reordered.map translate := by
    clear distinct members otherMembers sameIds isPerm otherShown
    induction shown generalizing reordered with
    | nil =>
      cases alsoShown
      rfl
    | cons first rest inductionHypothesis =>
      cases alsoShown with
      | cons otherFirst otherRest =>
        obtain ⟨entry, found, shows⟩ := first
        obtain ⟨other, isOther, otherShows⟩ := otherFirst
        rw [found] at isOther
        cases isOther
        rw [map_cons, map_cons, same _ _ _ shows otherShows,
          inductionHypothesis _ otherRest]
  rw [equal]
  exact isPerm.map translate

/--
The parts of the items show a selection exactly when every item has one part, and
these parts show it.
-/
theorem flatMap_iff {Part : Type} {ShowsPart : TimeSeriesEntry → Part → Prop}
    {parts : Item → List Part} (lists : store.Lists Selects Shows items)
    (hasPart :
      ∀ seriesId entry item,
        store.head.series.lookup seriesId = some entry →
          Selects entry → Shows entry item → parts item ≠ [])
    (named :
      store.Lists OtherSelects ShowsPart (items.flatMap parts) →
        ∀ seriesId otherId entry other item, ∀ part ∈ parts item,
          store.head.series.lookup seriesId = some entry →
            store.head.series.lookup otherId = some other →
              Selects entry → OtherSelects other →
                Shows entry item → ShowsPart other part → seriesId = otherId) :
    store.Lists OtherSelects ShowsPart (items.flatMap parts) ↔
      store.Lists OtherSelects
        (fun entry item =>
          ∃ part, parts item = [part] ∧ ShowsPart entry part)
        items := by
  constructor
  · intro partLists
    have isNamed := named partLists
    obtain ⟨ids, distinct, members, shown⟩ := lists
    obtain ⟨others, otherDistinct, otherMembers, otherShown⟩ := partLists
    refine ⟨others, otherDistinct, otherMembers, ?_⟩
    refine (forall₂_flatMap shown otherShown otherDistinct ?_ ?_).imp ?_
    · rintro seriesId member item ⟨entry, found, shows⟩
      obtain ⟨same, isEntry, selects⟩ := (members seriesId).mp member
      rw [found] at isEntry
      cases isEntry
      exact hasPart _ _ _ found selects shows
    · rintro seriesId member otherId isOther item part isPart
        ⟨entry, found, shows⟩ ⟨other, otherFound, otherShows⟩
      obtain ⟨same, isEntry, selects⟩ := (members seriesId).mp member
      rw [found] at isEntry
      cases isEntry
      obtain ⟨same, isEntry, otherSelects⟩ := (otherMembers otherId).mp isOther
      rw [otherFound] at isEntry
      cases isEntry
      exact isNamed _ _ _ _ _ _ isPart found otherFound selects otherSelects
        shows otherShows
    · rintro seriesId item ⟨part, isParts, entry, found, shows⟩
      exact ⟨entry, found, part, isParts, shows⟩
  · rintro ⟨others, otherDistinct, otherMembers, otherShown⟩
    refine ⟨others, otherDistinct, otherMembers,
      forall₂_flatMap_of_single (otherShown.imp ?_)⟩
    rintro seriesId item ⟨entry, found, part, isParts, shows⟩
    exact ⟨part, isParts, entry, found, shows⟩

/-- An answer whose items name their series lists one selection in one way. -/
theorem agree (lists : store.Lists Selects Shows items)
    (otherLists : store.Lists OtherSelects OtherShows items)
    (named :
      ∀ seriesId otherId entry other item,
        store.head.series.lookup seriesId = some entry →
          store.head.series.lookup otherId = some other →
            Selects entry → OtherSelects other →
              Shows entry item → OtherShows other item → seriesId = otherId)
    {seriesId : TimeSeriesId} {entry : TimeSeriesEntry}
    (found : store.head.series.lookup seriesId = some entry) :
    (Selects entry ↔ OtherSelects entry) ∧
      (Selects entry → ∃ item, Shows entry item ∧ OtherShows entry item) := by
  obtain ⟨ids, distinct, members, shown⟩ := lists
  obtain ⟨otherIds, otherDistinct, otherMembers, otherShown⟩ := otherLists
  have selected :
      ∀ id ∈ ids,
        ∃ entry, store.head.series.lookup id = some entry ∧ Selects entry :=
    fun id => (members id).mp
  have otherSelected :
      ∀ id ∈ otherIds,
        ∃ entry,
          store.head.series.lookup id = some entry ∧ OtherSelects entry :=
    fun id => (otherMembers id).mp
  have together :
      ids = otherIds ∧
        ∀ id ∈ ids,
          ∃ entry item,
            store.head.series.lookup id = some entry ∧
              Shows entry item ∧ OtherShows entry item := by
    clear members distinct otherMembers otherDistinct
    induction shown generalizing otherIds with
    | nil =>
      cases otherShown
      exact ⟨rfl, forall_mem_nil _⟩
    | cons first rest inductionHypothesis =>
      cases otherShown with
      | cons otherFirst otherRest =>
        obtain ⟨isSelected, restSelected⟩ := forall_mem_cons.mp selected
        obtain ⟨isOther, restOther⟩ := forall_mem_cons.mp otherSelected
        obtain ⟨one, isOne, oneShows⟩ := first
        obtain ⟨two, isTwo, twoShows⟩ := otherFirst
        obtain ⟨_, oneFound, selects⟩ := isSelected
        obtain ⟨_, twoFound, otherSelects⟩ := isOther
        rw [isOne] at oneFound
        cases oneFound
        rw [isTwo] at twoFound
        cases twoFound
        obtain rfl :=
          named _ _ _ _ _ isOne isTwo selects otherSelects oneShows twoShows
        rw [isOne] at isTwo
        cases isTwo
        obtain ⟨rfl, others⟩ :=
          inductionHypothesis _ otherRest restSelected restOther
        exact
          ⟨rfl, forall_mem_cons.mpr
            ⟨⟨one, _, isOne, oneShows, twoShows⟩, others⟩⟩
  obtain ⟨rfl, both⟩ := together
  have sameMembers := (members seriesId).symm.trans (otherMembers seriesId)
  rw [found] at sameMembers
  simp only [Option.some.injEq, exists_eq_left'] at sameMembers
  refine ⟨sameMembers, fun selects => ?_⟩
  obtain ⟨other, item, isOther, shows, otherShows⟩ :=
    both seriesId ((members seriesId).mpr ⟨entry, found, selects⟩)
  rw [found] at isOther
  cases isOther
  exact ⟨item, shows, otherShows⟩

/--
Items that name their series show another selection, in a way that only the series
decides, exactly when the selections agree and each series can be shown so.
-/
theorem iff_of_named {Has OtherHas Present CanShow : TimeSeriesEntry → Prop}
    (lists : store.Lists (fun entry => Has entry ∧ Present entry) Shows items)
    (shownIff :
      ∀ entry item, Shows entry item → (OtherShows entry item ↔ CanShow entry))
    (named :
      store.Lists (fun entry => OtherHas entry ∧ Present entry) OtherShows
          items →
        ∀ seriesId otherId entry other item,
          store.head.series.lookup seriesId = some entry →
            store.head.series.lookup otherId = some other →
              Has entry ∧ Present entry → OtherHas other ∧ Present other →
                Shows entry item → OtherShows other item → seriesId = otherId) :
    store.Lists (fun entry => OtherHas entry ∧ Present entry) OtherShows items ↔
      ∀ seriesId entry,
        store.head.series.lookup seriesId = some entry →
          Present entry →
            (Has entry ↔ OtherHas entry) ∧
              (OtherHas entry → CanShow entry) := by
  constructor
  · intro otherLists seriesId entry found present
    obtain ⟨same, both⟩ := lists.agree otherLists (named otherLists) found
    rw [and_congr_left_iff] at same
    refine ⟨same present, fun otherHas => ?_⟩
    obtain ⟨item, shows, otherShows⟩ :=
      both ⟨(same present).mpr otherHas, present⟩
    exact (shownIff entry item shows).mp otherShows
  · intro agrees
    refine lists.imp
      (fun seriesId entry found =>
        and_congr_left fun present => (agrees seriesId entry found present).1)
      fun seriesId entry item found selected shows => ?_
    obtain ⟨same, canShow⟩ := agrees seriesId entry found selected.2
    exact (shownIff entry item shows).mpr (canShow (same.mp selected.1))

end MemStore.Lists

theorem MemStore.lists_queryWithDownsample
    {config : HeadConfig} {store : MemStore} (agrees : store.head.Agrees config)
    (matchers : List (String × String)) (start stop : Timestamp)
    (level : DownsampleLevel) :
    store.Lists
      (fun entry =>
        (∀ matcher ∈ matchers, ⟨matcher.1, matcher.2⟩ ∈ entry.labels) ∧
          entry.samples.filter (Sample.inRange start stop) ≠ [])
      (fun entry ts =>
        ts.labels = entry.labels ∧
          ts.samples =
            applyDownsampling
              (entry.samples.filter (Sample.inRange start stop)) level)
      (store.queryWithDownsample matchers start stop level) := by
  obtain ⟨distinct, found⟩ := MemStore.findSeries_exact agrees matchers
  refine
    ⟨(store.findSeries matchers).filter fun seriesId =>
        (store.querySeries start stop level seriesId).isSome,
      distinct.filter _, fun seriesId => ?_, ?_⟩
  · rw [mem_filter, found]
    constructor
    · rintro ⟨⟨entry, isEntry, hasAll⟩, isShown⟩
      refine ⟨entry, isEntry, hasAll, fun nothing => ?_⟩
      rw [MemStore.querySeries_of_lookup isEntry, if_pos nothing] at isShown
      cases isShown
    · rintro ⟨entry, isEntry, hasAll, some⟩
      refine ⟨⟨entry, isEntry, hasAll⟩, ?_⟩
      rw [MemStore.querySeries_of_lookup isEntry, if_neg some]
      rfl
  · have known :
        ∀ seriesId ∈ store.findSeries matchers,
          ∃ entry, store.head.series.lookup seriesId = some entry := by
      intro seriesId member
      obtain ⟨entry, isEntry, _⟩ := (found seriesId).mp member
      exact ⟨entry, isEntry⟩
    rw [MemStore.queryWithDownsample]
    clear distinct found
    generalize store.findSeries matchers = ids at known ⊢
    induction ids with
    | nil => exact .nil
    | cons first rest inductionHypothesis =>
      obtain ⟨⟨entry, isEntry⟩, others⟩ := forall_mem_cons.mp known
      have later := inductionHypothesis others
      have isAnswer := MemStore.querySeries_of_lookup isEntry start stop level
      rw [filter_cons, filterMap_cons]
      split at isAnswer
      · rw [isAnswer]
        exact later
      · rw [isAnswer]
        exact .cons ⟨entry, isEntry, rfl, rfl⟩ later

end ChronoDB.Memstore
