import ChronoDB.Tiered.Manager

namespace ChronoDB.Tiered

open TieredStorageManager

open Library Columnstore Flush Compression List TierCollection

/-!
# What tiers return

A tier looks for its blocks under file names that no block writer makes, so no
query of an open manager returns a sample.  After the tiers are reopened their
tables may hold blocks, but as long as no sample was written no block has
values.  A run is faithful exactly when it stores no sample at all.
-/

/-!
## File names and directory names
-/

theorem blockFileName_ne_blockDirName (file dir : UInt64) :
    blockFileName file ≠ blockDirName dir := by
  intro same
  have sameStart := congrArg (fun name => name.toList.take 6) same
  simp [blockFileName, blockDirName] at sameStart

theorem blockFilePath_ne_blockDirPath
    (filesUnder dirsUnder : ComponentPath) (file dir : UInt64) :
    blockFilePath filesUnder file ≠ blockDirPath dirsUnder dir := by
  intro same
  have sameLast := congrArg List.getLast? same
  rw [blockFilePath, blockDirPath, getLast?_concat, getLast?_concat] at sameLast
  exact blockFileName_ne_blockDirName file dir (Option.some.inj sameLast)

def MadeByWriters (disk : Disk) : Prop :=
  ∀ path ∈ disk, ∃ parent blockId, path = blockDirPath parent blockId

/-- No block on a disk has values. -/
def NoValues (disk : Disk) : Prop :=
  ∀ path, (disk.filesOf path).valueColumn = none

variable {tiers : TierCollection} {tier : DataTier} {disk : Disk}

theorem filesOf_of_notMem {path : ComponentPath} (absent : path ∉ disk) :
    disk.filesOf path = BlockDir.empty := by
  rw [Disk.filesOf, AList.lookup_eq_none.mpr absent, Option.getD_none]

theorem filesOf_insert
    (disk : Disk) (path other : ComponentPath) (files : BlockDir) :
    Disk.filesOf (AList.insert path files disk) other =
      if other = path then files else disk.filesOf other := by
  rw [Disk.filesOf]
  split
  · rename_i same
    rw [same, AList.lookup_insert, Option.getD_some]
  · rename_i differs
    rw [AList.lookup_insert_ne differs, Disk.filesOf]

theorem MadeByWriters.insert
    (made : MadeByWriters disk) (parent : ComponentPath) (blockId : UInt64)
    (files : BlockDir) :
    MadeByWriters (AList.insert (blockDirPath parent blockId) files disk) := by
  intro path member
  rcases AList.mem_insert _ |>.mp member with isNew | isOld
  · exact ⟨parent, blockId, isNew⟩
  · exact made path isOld

theorem NoValues.insert
    (noValues : NoValues disk) (path : ComponentPath) {files : BlockDir}
    (without : files.valueColumn = none) :
    NoValues (AList.insert path files disk) := by
  intro other
  rw [filesOf_insert]
  split
  · exact without
  · exact noValues other

/-!
## Reading a block
-/

section Reading

variable (json : Codec Error Labels)

theorem readBlock_of_noValues {disk : Disk} {path : ComponentPath}
    (without : (disk.filesOf path).valueColumn = none) (seriesId : TimeSeriesId)
    (start stop : Timestamp) :
    DataTier.readBlock json disk seriesId start stop path = [] := by
  rw [DataTier.readBlock]
  cases opened : BlockReader.openDir (disk.filesOf path) with
  | error cause => rfl
  | ok reader =>
    have isDir : reader.dir = disk.filesOf path := by
      rw [BlockReader.openDir] at opened
      split at opened
      · cases opened
      · split at opened
        · cases opened
        · cases opened
          rfl
    have noColumn : reader.dir.valueColumn = none := by
      rw [isDir, without]
    cases answered : reader.query json seriesId start stop with
    | error fault => simp only [answered]
    | ok samples =>
      rw [BlockReader.query, noColumn] at answered
      split at answered
      · cases answered
      · split at answered
        · cases answered
        · split at answered
          · rename_i hasColumn
            cases hasColumn
          · cases answered

theorem readBlock_blockFilePath
    {disk : Disk} (made : MadeByWriters disk) (parent : ComponentPath)
    (blockId : UInt64) (seriesId : TimeSeriesId) (start stop : Timestamp) :
    DataTier.readBlock json disk seriesId start stop
      (blockFilePath parent blockId) = [] := by
  apply readBlock_of_noValues
  rw [filesOf_of_notMem]
  · rfl
  · intro member
    obtain ⟨dirParent, dir, isDir⟩ := made _ member
    exact blockFilePath_ne_blockDirPath parent dirParent blockId dir isDir

end Reading

/-!
## Tiers that were never read
-/

/-- The table of a tier has block files only, and no series was read from it. -/
structure DataTier.Unread (tier : DataTier) : Prop where
  files :
    ∀ blockId info,
      tier.blockManager.blocks.lookup blockId = some info →
        ∃ parent file, info.path = blockFilePath parent file
  noAccess : tier.accessPatterns = ∅

namespace DataTier

variable {json : Codec Error Labels} {disk : Disk} {tier : DataTier}

theorem query_of_readBlock {seriesId : TimeSeriesId} {start stop : Timestamp}
    (nothing :
      ∀ blockId info,
        tier.blockManager.blocks.lookup blockId = some info →
          readBlock json disk seriesId start stop info.path = [])
    (now : Timestamp) :
    tier.query json disk seriesId start stop now = ([], tier) := by
  have noSamples :
      ((tier.blockManager.getBlocksInTimeRange start stop).flatMap
          fun info =>
            readBlock json disk seriesId start stop info.path) = [] := by
    apply flatMap_eq_nil_iff.mpr
    intro info member
    obtain ⟨⟨blockId, _⟩, isEntry, rfl⟩ := mem_map.mp (mem_of_mem_filter member)
    exact nothing blockId _ (AList.mem_lookup_iff.mpr isEntry)
  rw [query, noSamples, if_pos rfl]

/-- A tier with block files in its table answers nothing. -/
theorem Unread.query
    (unread : tier.Unread) (made : MadeByWriters disk) (seriesId : TimeSeriesId)
    (start stop now : Timestamp) :
    tier.query json disk seriesId start stop now = ([], tier) := by
  refine query_of_readBlock (fun blockId info found => ?_) now
  obtain ⟨parent, file, isFile⟩ := unread.files blockId info found
  rw [isFile]
  exact readBlock_blockFilePath json made parent file seriesId start stop

theorem query_of_noValues
    (noValues : NoValues disk) (tier : DataTier) (seriesId : TimeSeriesId)
    (start stop now : Timestamp) :
    tier.query json disk seriesId start stop now = ([], tier) :=
  query_of_readBlock
    (fun _ info _ =>
      readBlock_of_noValues json (noValues info.path) seriesId start stop)
    now

theorem unread_new (config : TierConfig) : (DataTier.new config []).Unread where
  files := by
    intro blockId info found
    rw [DataTier.new, BlockManager.new, foldl_nil,
      BlockManager.empty, AList.lookup_empty] at found
    cases found
  noAccess := rfl

/-- A block is encoded when it holds few samples whose differences fit. -/
structure Encodable (samples : List Sample) : Prop where
  capacity : samples.length ≤ BlockWriter.maxVecLength
  differences : DifferencesFit 0 0 (samples.map Sample.timestamp)

theorem laidOut_seriesWriter (blockId : UInt64) (series : TimeSeries) :
    (seriesWriter blockId series).laidOut
        (seriesWriter blockId series).tableLayout =
      [(series.id, ⟨series.labels, series.samples⟩)] := by
  have isTable :
      (seriesWriter blockId series).seriesData =
        AList.insert series.id ⟨series.labels, series.samples⟩ ∅ := by
    simp [seriesWriter, BlockWriter.addSeries, BlockWriter.new]
  simp only [BlockWriter.laidOut, BlockWriter.tableLayout, isTable,
    AList.keys_insert]
  simp [-AList.insert_empty, AList.lookup_insert]

theorem exists_write_iff
    (blockId : UInt64) (series : TimeSeries) (existing : BlockDir) :
    (∃ files,
        (seriesWriter blockId series).write json
          (seriesWriter blockId series).tableLayout existing = .ok files) ↔
      series.samples = [] ∨ Encodable series.samples := by
  have isAll :
      BlockWriter.allSamples
          ((seriesWriter blockId series).laidOut
            (seriesWriter blockId series).tableLayout) = series.samples := by
    rw [laidOut_seriesWriter]
    simp [BlockWriter.allSamples]
  have encodes :=
    DeltaOfDeltaEncoder.exists_encodeBatch_iff .new
      (series.samples.map Sample.timestamp)
  rw [BlockWriter.write]
  dsimp only
  rw [isAll]
  by_cases large : BlockWriter.maxVecLength < series.samples.length
  · rw [if_pos large]
    apply iff_of_false
    · rintro ⟨_, written⟩
      cases written
    · rintro (empty | encodable)
      · rw [empty] at large
        exact absurd large (Nat.not_lt_zero _)
      · exact absurd encodable.capacity (not_le.mpr large)
  · rw [if_neg large]
    by_cases empty : series.samples = []
    · rw [if_pos empty]
      exact iff_of_true ⟨_, rfl⟩ (.inl empty)
    · rw [if_neg empty, or_iff_right empty]
      cases built :
          buildTimestampColumn (series.samples.map Sample.timestamp) with
      | error cause =>
        apply iff_of_false
        · rintro ⟨_, written⟩
          cases written
        · intro encodable
          obtain ⟨_, accepted⟩ := encodes.mpr encodable.differences
          rw [buildTimestampColumn, accepted] at built
          cases built
      | ok timeColumn =>
        exact iff_of_true ⟨_, rfl⟩
          ⟨not_lt.mp large, encodes.mp ⟨timeColumn, built⟩⟩

theorem Unread.addBlock (unread : tier.Unread) (blockMeta : BlockMeta)
    (seriesCount sampleCount : ℕ) :
    Unread {
      tier with
      blockManager := tier.blockManager.addBlock (tier.blockInfo blockMeta)
      seriesCount := seriesCount
      sampleCount := sampleCount
    } where
  files := by
    intro blockId info found
    rw [BlockManager.addBlock] at found
    by_cases same : blockId = (tier.blockInfo blockMeta).blockId
    · subst same
      rw [AList.lookup_insert] at found
      cases found
      exact ⟨tier.config.path, blockMeta.blockId, rfl⟩
    · rw [AList.lookup_insert_ne same] at found
      exact unread.files blockId info found
  noAccess := unread.noAccess

theorem write_cases (json : Codec Error Labels) (tier : DataTier) (disk : Disk)
    (series : TimeSeries) (now : Timestamp) :
    let path := blockDirPath tier.config.path now.toUInt64
    (∃ written files,
        tier.write json disk series now =
            (.ok now.toUInt64, written, AList.insert path files disk) ∧
          (tier.Unread → written.Unread) ∧
            (series.samples = [] ∨ Encodable series.samples) ∧
              (series.samples = [] →
                files.valueColumn = (disk.filesOf path).valueColumn)) ∨
      ∃ fault,
        tier.write json disk series now =
            (.error fault, tier, AList.insert path (disk.filesOf path) disk) ∧
          ¬ (series.samples = [] ∨ Encodable series.samples) := by
  intro path
  have succeeds :=
    @exists_write_iff json now.toUInt64 series (disk.filesOf path)
  rw [write]
  cases written :
      (seriesWriter now.toUInt64 series).write json
        (seriesWriter now.toUInt64 series).tableLayout
        (disk.filesOf path) with
  | error fault =>
    rw [written] at succeeds
    right
    refine ⟨fault, rfl, fun stores => ?_⟩
    obtain ⟨_, isOk⟩ := succeeds.mpr stores
    cases isOk
  | ok files =>
    left
    refine ⟨_, files, rfl, fun unread => unread.addBlock _ _ _,
      succeeds.mp ⟨files, written⟩, fun empty => ?_⟩
    have keeps := (BlockWriter.write_eq_ok written).2.2.2.1
    refine (keeps ?_).2
    rw [laidOut_seriesWriter, BlockWriter.allSamples]
    simpa using empty

end DataTier

/-!
## Runs of the manager
-/

def TierCollection.tierList (tiers : TierCollection) : List DataTier :=
  tiers.entries.map Sigma.snd

theorem TierCollection.forall_setTier {condition : DataTier → Prop}
    (holds : ∀ tier ∈ tiers.tierList, condition tier)
    (holdsNew : condition tier) :
    ∀ other ∈ (tiers.setTier tier).tierList, condition other := by
  intro other member
  rw [tierList, setTier, FiniteMap.mapKeyed, map_map] at member
  obtain ⟨⟨name, before⟩, isEntry, rfl⟩ := mem_map.mp member
  have holdsBefore := holds before (mem_map_of_mem isEntry)
  simp only [Function.comp_apply, Sigma.map]
  split
  · exact holdsNew
  · exact holdsBefore

theorem TierCollection.forall_addTier {condition : DataTier → Prop}
    (holds : ∀ tier ∈ tiers.tierList, condition tier)
    (holdsNew : condition tier) :
    ∀ other ∈ (tiers.addTier tier).tierList, condition other := by
  intro other member
  obtain ⟨⟨name, added⟩, isEntry, rfl⟩ := mem_map.mp member
  have found := AList.mem_lookup_iff.mpr isEntry
  rw [addTier] at found
  by_cases same : name = tier.config.name
  · subst same
    rw [AList.lookup_insert] at found
    cases found
    exact holdsNew
  · rw [AList.lookup_insert_ne same] at found
    exact holds _ (mem_map_of_mem (AList.mem_lookup_iff.mp found))

theorem TierCollection.mem_tierList_of_getTier
    {name : String} (found : tiers.getTier name = some tier) :
    tier ∈ tiers.tierList :=
  mem_map_of_mem (AList.mem_lookup_iff.mp found)

theorem TierCollection.mem_getAllTiers :
    tier ∈ tiers.getAllTiers ↔ tier ∈ tiers.tierList :=
  mem_sortByKey _

theorem TierCollection.mem_of_getTierForTimestamp {timestamp now : Timestamp}
    (found : tiers.getTierForTimestamp timestamp now = some tier) :
    tier ∈ tiers.tierList := by
  rw [getTierForTimestamp] at found
  split at found
  · rename_i isFound
    cases found
    exact mem_getAllTiers.mp (mem_of_find?_eq_some isFound)
  · exact mem_tierList_of_getTier found

theorem TieredStorageManager.mem_of_mem_queriedTiers
    {manager : TieredStorageManager} {options : TieredQueryOptions}
    (member : tier ∈ manager.queriedTiers options) :
    tier ∈ manager.tiers.tierList := by
  rw [queriedTiers] at member
  split at member
  · exact mem_getAllTiers.mp member
  · split at member
    · cases member
    · exact mem_tierList_of_getTier
        (Option.mem_toList.mp member)

theorem TieredStorageManager.query_eq_nil
    {json : Codec Error Labels} {manager : TieredStorageManager}
    {seriesId : TimeSeriesId} {start stop now : Timestamp}
    (nothing :
      ∀ tier ∈ manager.tiers.tierList,
        tier.query json disk seriesId start stop now = ([], tier))
    (options : TieredQueryOptions) :
    (manager.query json disk seriesId start stop options now).1 = [] := by
  rw [query]
  apply filterMap_eq_nil_iff.mpr
  intro answer member
  obtain ⟨tier, isQueried, rfl⟩ := mem_map.mp member
  rw [nothing tier (mem_of_mem_queriedTiers isQueried)]
  rfl

namespace TieredSystem

/--
Every tier is unread, all directories were made by block writers, and as long as
nothing was written no block has values.
-/
structure Sound (system : TieredSystem) : Prop where
  unread : ∀ tier ∈ system.manager.tiers.tierList, tier.Unread
  made : MadeByWriters system.disk
  noValues : (∀ seriesId, system.written seriesId = []) → NoValues system.disk

variable {json : Codec Error Labels} {system : TieredSystem}

/-- No query of an open manager answers anything. -/
theorem Sound.query
    (sound : system.Sound) (seriesId : TimeSeriesId) (start stop : Timestamp)
    (options : TieredQueryOptions) (now : Timestamp) :
    (system.manager.query json system.disk seriesId start stop options
      now).1 = [] :=
  query_eq_nil
    (fun tier member =>
      (sound.unread tier member).query sound.made seriesId start stop now)
    options

theorem Sound.faithful_iff (sound : system.Sound) :
    system.Faithful json ↔ ∀ seriesId, system.written seriesId = [] := by
  constructor
  · intro faithful seriesId
    have returned := faithful.live seriesId 0
    rw [sound.query, flatMap_nil] at returned
    exact returned.nil_eq.symm
  · intro nothingWritten
    have noValues := sound.noValues nothingWritten
    constructor
    · intro seriesId now
      rw [sound.query, nothingWritten, flatMap_nil]
    · intro manager _ seriesId now
      rw [query_eq_nil, nothingWritten, flatMap_nil]
      exact fun tier _ => DataTier.query_of_noValues noValues tier _ _ _ _

/--
A call stores no sample: it is no write, or a write of a series that is empty,
that has no tier to go to, or that cannot be encoded.
-/
def StoresNothing (system : TieredSystem) : TieredCall → Prop
  | .write series clocks =>
    series.samples = [] ∨
      system.manager.tiers.getTierForTimestamp clocks.now clocks.tierNow =
          none ∨
        ¬ DataTier.Encodable series.samples
  | .query .. => True
  | .autoMigrate _ => True

theorem Sound.autoMigrate (sound : system.Sound)
    (clocks :
      TieredStorageManager.MigrationTask → TieredStorageManager.TaskClocks) :
    system.manager.autoMigrate json system.disk clocks =
      { manager := system.manager, disk := system.disk, count := 0 } := by
  have noTasks : system.manager.migrationTasks = [] := by
    apply flatMap_eq_nil_iff.mpr
    intro tier member
    have isTier := mem_getAllTiers.mp member
    rw [(sound.unread tier isTier).noAccess]
    rfl
  rw [TieredStorageManager.autoMigrate, noTasks, foldl_nil]

theorem Sound.afterQuery
    (sound : system.Sound) (seriesId : TimeSeriesId) (start stop : Timestamp)
    (options : TieredQueryOptions) (now : Timestamp) :
    (system.perform json (.query seriesId start stop options now)).Sound := by
  refine ⟨?_, sound.made, sound.noValues⟩
  have unreadAnswers :
      ∀ answer ∈ (system.manager.queriedTiers options).map fun tier =>
          tier.query json system.disk seriesId start stop now,
        answer.2.Unread := by
    intro answer member
    obtain ⟨tier, isQueried, rfl⟩ := mem_map.mp member
    have unread :=
      sound.unread tier (mem_of_mem_queriedTiers isQueried)
    rw [unread.query sound.made]
    exact unread
  have kept :
      ∀ (answers : List (List Sample × DataTier)) (tiers : TierCollection),
        (∀ answer ∈ answers, answer.2.Unread) →
          (∀ tier ∈ tiers.tierList, tier.Unread) →
            ∀ tier ∈
                (answers.foldl (fun tiers answer => tiers.setTier answer.2)
                  tiers).tierList,
              tier.Unread := by
    intro answers
    induction answers with
    | nil =>
      intro tiers _ unread
      exact unread
    | cons answer rest inductionHypothesis =>
      intro tiers answersUnread unread
      obtain ⟨first, others⟩ := forall_mem_cons.mp answersUnread
      exact inductionHypothesis _ others
        (forall_setTier unread first)
  exact kept _ _ unreadAnswers sound.unread

theorem eq_nil_of_record
    {written : TimeSeriesId → List Sample} {series : TimeSeries}
    {outcome : Except TieredFault DataLocation}
    (recorded : ∀ seriesId, record written series outcome seriesId = [])
    (seriesId : TimeSeriesId) :
    written seriesId = [] := by
  have after := recorded seriesId
  cases outcome with
  | error fault => exact after
  | ok location =>
    simp only [record] at after
    split at after
    · exact (append_eq_nil_iff.mp after).1
    · exact after

theorem record_eq_nil_iff {written : TimeSeriesId → List Sample}
    (nothing : ∀ seriesId, written seriesId = []) (series : TimeSeries)
    (location : DataLocation) :
    (∀ seriesId, record written series (.ok location) seriesId = []) ↔
      series.samples = [] := by
  simp only [record, nothing, nil_append]
  constructor
  · intro recorded
    have own := recorded series.id
    rwa [if_pos rfl] at own
  · intro empty seriesId
    split
    · exact empty
    · rfl

/--
A write leaves a system sound, and keeps it without anything written exactly
when it stores nothing.
-/
theorem Sound.afterWrite (sound : system.Sound) (series : TimeSeries)
    (clocks : TieredStorageManager.WriteClocks) :
    (system.perform json (.write series clocks)).Sound ∧
      ((∀ seriesId, system.written seriesId = []) →
        ((∀ seriesId,
            (system.perform json (.write series clocks)).written seriesId =
              []) ↔
          system.StoresNothing (.write series clocks))) := by
  rw [perform, TieredStorageManager.write, StoresNothing]
  cases found :
      system.manager.tiers.getTierForTimestamp clocks.now clocks.tierNow with
  | none =>
    refine ⟨sound, fun nothing => iff_of_true nothing (.inr (.inl rfl))⟩
  | some tier =>
    have isTier := mem_of_getTierForTimestamp found
    let path := blockDirPath tier.config.path clocks.blockNow.toUInt64
    rcases DataTier.write_cases json tier system.disk series
        clocks.blockNow with
      ⟨written, files, isWrite, keepsUnread, stores, keepsValues⟩ |
        ⟨fault, isWrite, fails⟩
    · simp only [isWrite]
      refine ⟨⟨?_, sound.made.insert _ _ _, fun nothingAfter => ?_⟩,
        fun nothing => ?_⟩
      · exact forall_setTier sound.unread
          (keepsUnread (sound.unread tier isTier))
      · dsimp only at nothingAfter
        have nothingBefore := eq_nil_of_record nothingAfter
        have empty := (record_eq_nil_iff nothingBefore _ _).mp nothingAfter
        have noValues := sound.noValues nothingBefore
        apply noValues.insert
        rw [keepsValues empty]
        exact noValues path
      · rw [record_eq_nil_iff nothing]
        simp only [reduceCtorEq, false_or]
        constructor
        · exact Or.inl
        · rintro (empty | unencodable)
          · exact empty
          · exact stores.resolve_right unencodable
    · simp only [isWrite]
      refine ⟨⟨sound.unread, sound.made.insert _ _ _, fun nothing => ?_⟩,
        fun nothing => ?_⟩
      · have noValues := sound.noValues nothing
        exact noValues.insert path (noValues path)
      · refine iff_of_true nothing (.inr (.inr fun encodable => ?_))
        exact fails (.inr encodable)

theorem faithful_step_iff
    {after : TieredSystem} {call : TieredCall} (sound : system.Sound)
    (faithful : system.Faithful json)
    (step : TieredStep json system call after) :
    after.Sound ∧ (after.Faithful json ↔ system.StoresNothing call) := by
  obtain rfl : after = system.perform json call := step
  have nothing := sound.faithful_iff.mp faithful
  cases call with
  | write series clocks =>
    obtain ⟨soundAfter, nothingIff⟩ :=
      @Sound.afterWrite json system sound series clocks
    exact ⟨soundAfter, soundAfter.faithful_iff.trans (nothingIff nothing)⟩
  | query seriesId start stop options now =>
    have soundAfter :=
      @Sound.afterQuery json system sound seriesId start stop options now
    exact ⟨soundAfter,
      iff_of_true (soundAfter.faithful_iff.mpr nothing) trivial⟩
  | autoMigrate clocks =>
    have unchanged : system.perform json (.autoMigrate clocks) = system := by
      rw [perform, sound.autoMigrate]
    rw [unchanged]
    exact ⟨sound, iff_of_true faithful trivial⟩

theorem unread_of_openedOn
    {config : TieredStorageConfig} {manager : TieredStorageManager}
    (opened : OpenedOn config ∅ manager) :
    ∀ tier ∈ manager.tiers.tierList, tier.Unread := by
  obtain ⟨listing, isListing, permuted⟩ := opened.opened
  have noListing : ∀ tier, listing tier = [] := by
    intro tier
    exact (isListing tier).eq_nil
  have unreadAll :
      ∀ (configs : List TierConfig) (tiers : TierCollection),
        (∀ tier ∈ tiers.tierList, tier.Unread) →
          ∀ tier ∈
              (configs.foldl
                (fun tiers tier =>
                  tiers.addTier (DataTier.new tier (listing tier)))
                tiers).tierList,
            tier.Unread := by
    intro configs
    induction configs with
    | nil =>
      intro tiers unread
      exact unread
    | cons first rest inductionHypothesis =>
      intro tiers unread
      apply inductionHypothesis
      apply forall_addTier unread
      rw [noListing]
      exact DataTier.unread_new first
  intro tier member
  have memberNew := (permuted.map Sigma.snd).mem_iff.mp member
  rw [new] at memberNew
  dsimp only at memberNew
  split at memberNew
  · refine unreadAll _ ∅ ?_ tier memberNew
    intro other isOther
    cases isOther
  · cases memberNew

theorem Fresh.sound
    {config : TieredStorageConfig} (fresh : system.Fresh config) :
    system.Sound where
  unread := unread_of_openedOn fresh.opened
  made := by
    rw [fresh.emptyDisk]
    intro path member
    exact absurd member (AList.notMem_empty path)
  noValues := by
    intro _ path
    rw [fresh.emptyDisk, filesOf_of_notMem (AList.notMem_empty path)]
    rfl

/--
In a run of writes, queries and migrations from tiers opened on an empty disk,
every state is faithful exactly when no write stores a sample.
-/
theorem faithful_in_run_iff {config : TieredStorageConfig}
    {calls : List TieredCall} {final : TieredSystem}
    (fresh : system.Fresh config)
    (run : Run (TieredStep json) system calls final) :
    (∀ passed remaining middle,
        calls = passed ++ remaining →
          Run (TieredStep json) system passed middle → middle.Faithful json) ↔
      Run (Restrict (TieredStep json) StoresNothing) system calls final := by
  have sound := fresh.sound
  refine
    run.always_iff_restrict ?_ sound
      (sound.faithful_iff.mpr fresh.nothingWritten) ?_
  · intro before call after other taken again
    exact taken.trans again.symm
  · intro before call after soundBefore faithful step
    exact faithful_step_iff soundBefore faithful step

def justOpened : TieredSystem where
  manager := new .default fun _ => []
  disk := ∅
  written := fun _ => []

theorem fresh_justOpened : justOpened.Fresh .default where
  opened := {
    sameConfig := rfl
    opened := ⟨fun _ => [], fun _ => .refl _, .refl _⟩
  }
  emptyDisk := rfl
  nothingWritten := fun _ => rfl

/-- A series without labels, with samples of choice. -/
def unlabelled (samples : List Sample) : TimeSeries where
  id := 1
  labels := []
  samples := samples

/-- A write at one millisecond. -/
def writeAt (now : Timestamp) (samples : List Sample) : TieredCall :=
  .write (unlabelled samples) { now := now, tierNow := now, blockNow := now }

/-- An empty series and one that spans all times are written and read. -/
def storingNothing : List TieredCall :=
  [writeAt 5 [], writeAt 5 [⟨Int64.minValue, 1⟩, ⟨Int64.maxValue, 1⟩],
    .query 1 0 9 allTiers 6, .autoMigrate fun _ => ⟨7, 7, 7⟩]

/-- Writes that store nothing leave every state faithful. -/
theorem storingNothing_is_faithful :
    ∃ final,
      Run (TieredStep labelsCodec) justOpened storingNothing final ∧
        ∀ passed remaining middle,
          storingNothing = passed ++ remaining →
            Run (TieredStep labelsCodec) justOpened passed middle →
              middle.Faithful labelsCodec := by
  have tooFar :
      ¬ DataTier.Encodable [⟨Int64.minValue, 1⟩, ⟨Int64.maxValue, 1⟩] := by
    intro encodable
    have fits := encodable.differences.2.2.1.2
    exact absurd fits (by decide)
  have along :
      Along (perform labelsCodec) StoresNothing justOpened storingNothing :=
    ⟨.inl rfl, .inr (.inr tooFar), trivial, trivial, trivial⟩
  have restricted :
      Run (Restrict (TieredStep labelsCodec) StoresNothing) justOpened
        storingNothing
        (storingNothing.foldl (perform labelsCodec) justOpened) :=
    Run.ofAlong (fun allowed => ⟨allowed, rfl⟩) along
  exact ⟨_, restricted.ofRestrict,
    (faithful_in_run_iff fresh_justOpened restricted.ofRestrict).mpr restricted⟩

/--
One sample is written, and a query over all tiers and all times returns no
series.
-/
theorem one_sample_is_not_returned :
    ∃ final,
      Run (TieredStep labelsCodec) justOpened [writeAt 1000 [⟨1000, 1⟩]] final ∧
        final.written 1 = [⟨1000, 1⟩] ∧
          (final.manager.query labelsCodec final.disk 1 Int64.minValue
            Int64.maxValue allTiers 2000).1 = [] ∧
            ¬ final.Faithful labelsCodec := by
  let final := justOpened.perform labelsCodec (writeAt 1000 [⟨1000, 1⟩])
  have sound : final.Sound := (fresh_justOpened.sound.afterWrite _ _).1
  have written : final.written 1 = [⟨1000, 1⟩] := by
    decide +kernel
  refine ⟨final, .single rfl, written, sound.query _ _ _ _ _, ?_⟩
  intro faithful
  rw [sound.faithful_iff.mp faithful] at written
  cases written

end TieredSystem

end ChronoDB.Tiered
