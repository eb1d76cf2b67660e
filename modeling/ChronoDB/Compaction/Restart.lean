import ChronoDB.Compaction.Loss

namespace ChronoDB.Compaction

open Library Wal Columnstore Flush List BlockManager

/-!
# Restart after compactions

A restart reads the block map back from the metadata files.  The writer always
stamps level zero there, while compaction raises the level in the map.  The two
agree in all states of a run exactly when no compaction of the run writes a
block; until then no level exceeds the maximum either.
-/

/-- A number in decimal digits with leading zeros. -/
def paddedDigits (width number : ℕ) : List Char :=
  List.leftpad width '0' (toString number).toList

theorem ofDigitChars_paddedDigits (width number : ℕ) :
    Nat.ofDigitChars 10 (paddedDigits width number) 0 = number := by
  rw [paddedDigits, List.leftpad, Nat.ofDigitChars_append,
    Nat.ofDigitChars_replicate_zero, Nat.mul_zero,
    Nat.toString_eq_ofList_toDigits, String.toList_ofList,
    Nat.ofDigitChars_ten_toDigits]

theorem paddedDigits_injective (width : ℕ) :
    Function.Injective (paddedDigits width) := by
  intro first second same
  rw [← ofDigitChars_paddedDigits width first, same, ofDigitChars_paddedDigits]

theorem blockDirName_eq (blockId : UInt64) :
    blockDirName blockId =
      "block-" ++ String.ofList (paddedDigits 20 blockId.toNat) :=
  rfl

theorem blockDirName_injective : Function.Injective blockDirName := by
  intro first second same
  rw [blockDirName_eq, blockDirName_eq] at same
  generalize "block-" = fixed at same
  have sameText := congrArg String.toList same
  rw [String.toList_append, String.toList_append, String.toList_ofList,
    String.toList_ofList] at sameText
  have sameDigits := append_cancel_left sameText
  exact UInt64.toNat_inj.mp (paddedDigits_injective 20 sameDigits)

variable {json : Codec Error Labels}

theorem metadata_files (block : StoredBlock json) :
    block.files.metadata =
      some (block.writer.blockMeta (block.writer.laidOut block.layout)) := by
  have written := block.written
  rw [BlockWriter.write] at written
  dsimp only at written
  split at written
  · cases written
  · split at written
    · rw [← Except.ok.inj written]
    · split at written
      · cases written
      · rw [← Except.ok.inj written]

/-- `load_block_info`, for a directory with a metadata file. -/
def loadBlockInfo (name : String) (block : StoredBlock json) :
    Option BlockInfo :=
  block.files.metadata.map fun blockMeta =>
    {
      blockId := blockMeta.blockId
      minTimestamp := blockMeta.minTimestamp
      maxTimestamp := blockMeta.maxTimestamp
      seriesCount := blockMeta.totalSeries
      sampleCount := blockMeta.totalSamples
      compactionLevel := blockMeta.compactionLevel
      path := name
    }

namespace BlockManager

/-- The loop body of `load_existing_blocks`. -/
def loadEntry (manager : BlockManager)
    (entry : (_ : String) × Option (StoredBlock json)) :
    BlockManager :=
  match entry.2.bind (loadBlockInfo entry.1) with
  | none => manager
  | some info => manager.addBlock info

/-- `BlockManager::new` on directories that are listed in some order. -/
def load (entries : List ((_ : String) × Option (StoredBlock json))) :
    BlockManager :=
  entries.foldl loadEntry ⟨∅⟩

end BlockManager

def Placed (dirs : BlocksDir json) : Prop :=
  ∀ name block, dirs.lookup name = some (some block) →
    name = blockDirName block.writer.blockId

/-- What the directory of a block id says about the block. -/
def infoOnDisk (dirs : BlocksDir json) (blockId : UInt64) : Option BlockInfo :=
  (dirs.lookup (blockDirName blockId)).join.bind
    (loadBlockInfo (blockDirName blockId))

theorem loadBlockInfo_eq_some
    {name : String} {block : StoredBlock json} {info : BlockInfo}
    (loaded : loadBlockInfo name block = some info) :
    info.blockId = block.writer.blockId ∧ info.compactionLevel = 0 ∧
      info.path = name := by
  rw [loadBlockInfo, metadata_files, Option.map_some] at loaded
  cases loaded
  exact ⟨rfl, rfl, rfl⟩

theorem getBlock_addBlock
    (manager : BlockManager) (info : BlockInfo) (blockId : UInt64) :
    (manager.addBlock info).getBlock blockId =
      if blockId = info.blockId then some info
      else manager.getBlock blockId := by
  split
  · rename_i same
    subst same
    exact AList.lookup_insert _
  · rename_i differs
    exact AList.lookup_insert_ne differs

theorem getBlock_loadEntry
    {manager : BlockManager} {name : String} {entry : Option (StoredBlock json)}
    (placed : ∀ block, entry = some block →
      name = blockDirName block.writer.blockId)
    (blockId : UInt64) :
    (manager.loadEntry ⟨name, entry⟩).getBlock blockId =
      if name = blockDirName blockId then
        (entry.bind (loadBlockInfo name)).or (manager.getBlock blockId)
      else
        manager.getBlock blockId := by
  rw [loadEntry]
  dsimp only
  cases loaded : entry.bind (loadBlockInfo name) with
  | none => rw [Option.none_or, ite_self]
  | some info =>
    obtain ⟨block, rfl, isInfo⟩ := Option.bind_eq_some_iff.mp loaded
    obtain ⟨isId, _, _⟩ := loadBlockInfo_eq_some isInfo
    rw [Option.some_or, placed block rfl, getBlock_addBlock, isId]
    apply if_congr _ rfl rfl
    rw [blockDirName_injective.eq_iff, eq_comm]

theorem getBlock_foldl_loadEntry
    {entries : List ((_ : String) × Option (StoredBlock json))}
    (distinct : entries.NodupKeys)
    (placed : ∀ name block, ⟨name, some block⟩ ∈ entries →
      name = blockDirName block.writer.blockId)
    (manager : BlockManager) (blockId : UInt64) :
    (entries.foldl loadEntry manager).getBlock blockId =
      ((entries.dlookup (blockDirName blockId)).join.bind
        (loadBlockInfo (blockDirName blockId))).or
          (manager.getBlock blockId) := by
  induction entries generalizing manager with
  | nil => rfl
  | cons entry rest inductionHypothesis =>
    rcases entry with ⟨name, entry⟩
    obtain ⟨notInRest, restDistinct⟩ := nodupKeys_cons.mp distinct
    have restPlaced : ∀ name block, ⟨name, some block⟩ ∈ rest →
        name = blockDirName block.writer.blockId :=
      fun name block member => placed name block (mem_cons_of_mem _ member)
    have entryPlaced : ∀ block, entry = some block →
        name = blockDirName block.writer.blockId := by
      rintro block rfl
      exact placed name block mem_cons_self
    rw [foldl_cons, inductionHypothesis restDistinct restPlaced,
      getBlock_loadEntry entryPlaced]
    split
    · rename_i same
      subst same
      rw [dlookup_eq_none.mpr notInRest, dlookup_cons_eq]
      rfl
    · rename_i differs
      rw [dlookup_cons_ne _ _ (Ne.symm differs)]

theorem getBlock_load {dirs : BlocksDir json} (placed : Placed dirs)
    {entries : List ((_ : String) × Option (StoredBlock json))}
    (isOrder : entries.Perm dirs.entries) (blockId : UInt64) :
    (load entries).getBlock blockId = infoOnDisk dirs blockId := by
  have distinct : entries.NodupKeys :=
    (perm_nodupKeys isOrder).mpr dirs.nodupKeys
  have entriesPlaced : ∀ name block, ⟨name, some block⟩ ∈ entries →
      name = blockDirName block.writer.blockId := by
    intro name block member
    apply placed
    exact mem_dlookup dirs.nodupKeys (isOrder.mem_iff.mp member)
  have sameLookup :
      entries.dlookup (blockDirName blockId) =
        dirs.lookup (blockDirName blockId) :=
    perm_dlookup _ distinct isOrder
  rw [load,
    getBlock_foldl_loadEntry distinct entriesPlaced, sameLookup, infoOnDisk]
  exact Option.or_none

/-!
## Runs
-/

/-- What can happen to the blocks. -/
inductive BlockAction where
  | add (writer : BlockWriter) (layout : writer.Layout)
  | remove (blockId : UInt64)
  | compact (level : UInt8) (blockIds : List UInt64) (choice : CompactionChoice)

namespace BlockStore

/-- `BlockManager::new` on directories, in the order of their table. -/
def openDirs (dirs : BlocksDir json) : BlockStore json where
  manager := load dirs.entries
  dirs := dirs

/-- Write a block and add what its writer returned to the map. -/
def addWritten
    (store : BlockStore json) (writer : BlockWriter) (layout : writer.Layout) :
    BlockStore json :=
  match store.dirs.writeBlock writer layout with
  | (.ok blockMeta, written) =>
    {
      manager := store.manager.addBlock {
        blockId := blockMeta.blockId
        minTimestamp := blockMeta.minTimestamp
        maxTimestamp := blockMeta.maxTimestamp
        seriesCount := blockMeta.totalSeries
        sampleCount := blockMeta.totalSamples
        compactionLevel := blockMeta.compactionLevel
        path := blockDirName writer.blockId
      }
      dirs := written
    }
  | (.error _, left) => { store with dirs := left }

def perform (store : BlockStore json) : BlockAction → BlockStore json
  | .add writer layout => store.addWritten writer layout
  | .remove blockId => store.removeBlock blockId
  | .compact level blockIds choice =>
    (store.compactBlocks level blockIds choice).2

/-- Compaction is called for known blocks of its level. -/
def Possible (store : BlockStore json) : BlockAction → Prop
  | .compact level blockIds _ =>
    ∀ blockId ∈ blockIds, ∃ info,
      store.manager.getBlock blockId = some info ∧ info.compactionLevel = level
  | _ => True

def BlockStep
    (store : BlockStore json) (action : BlockAction) (after : BlockStore json) :
    Prop :=
  store.Possible action ∧ store.perform action = after

/-- A compaction loads a series from its inputs and writes the new block. -/
def CompactionWrites (store : BlockStore json) (blockIds : List UInt64)
    (choice : CompactionChoice) :
    Prop :=
  ∃ allSeries, store.loadBlocks choice blockIds = .ok allSeries ∧
    allSeries.keys ≠ [] ∧
      ∃ blockMeta,
        (store.dirs.writeBlock (compactedWriter choice.blockId allSeries)
          (choice.layout (compactedWriter choice.blockId allSeries))).1 =
            .ok blockMeta

/-- Steps other than compactions that write a block. -/
def WritesNoCompaction (store : BlockStore json) : BlockAction → Prop
  | .compact _ blockIds choice => ¬store.CompactionWrites blockIds choice
  | _ => True

/-- A restart finds the blocks of the map, whatever order it lists them in. -/
def RestartFaithful (store : BlockStore json) : Prop :=
  ∀ entries, entries.Perm store.dirs.entries →
    ∀ blockId,
      (load entries).getBlock blockId =
        store.manager.getBlock blockId

/-- No block of the map has a level above the maximum. -/
def LevelsWithin (store : BlockStore json) (maxLevel : UInt8) : Prop :=
  ∀ blockId info, store.manager.getBlock blockId = some info →
    info.compactionLevel ≤ maxLevel

/-- The map is what a restart finds, and its levels are within the maximum. -/
structure MapSound (maxLevel : UInt8) (store : BlockStore json) : Prop where
  faithful : store.RestartFaithful
  levels : store.LevelsWithin maxLevel

end BlockStore

/-!
## What the steps do to the directories and the map
-/

theorem writeBlock_metadata_cases
    (dirs : BlocksDir json) (writer : BlockWriter) (layout : writer.Layout) :
    (∃ blockMeta block,
        dirs.writeBlock writer layout =
            (.ok blockMeta,
              dirs.insert (blockDirName writer.blockId) (some block)) ∧
          block.writer = writer ∧ block.files.metadata = some blockMeta) ∨
      ∃ fault left,
        dirs.writeBlock writer layout = (.error fault, left) ∧
          ∀ name block,
            left.lookup name = some (some block) ↔
              dirs.lookup name = some (some block) := by
  rcases dirs.writeBlock_cases writer layout with
    ⟨blockMeta, block, wrote, isWriter⟩ | failed
  · left
    rw [BlocksDir.writeBlock] at wrote ⊢
    split at wrote
    · exact ⟨_, _, rfl, rfl, metadata_files _⟩
    · cases wrote
  · exact .inr failed

theorem infoOnDisk_congr {before after : BlocksDir json}
    (same : ∀ name block,
      after.lookup name = some (some block) ↔
        before.lookup name = some (some block))
    (blockId : UInt64) :
    infoOnDisk after blockId = infoOnDisk before blockId := by
  have sameJoin :
      (after.lookup (blockDirName blockId)).join =
        (before.lookup (blockDirName blockId)).join := by
    refine Option.ext fun block => ?_
    rw [Option.join_eq_some_iff, Option.join_eq_some_iff]
    exact same _ block
  rw [infoOnDisk, infoOnDisk, sameJoin]

theorem Placed.congr {before after : BlocksDir json} (placed : Placed before)
    (same : ∀ name block,
      after.lookup name = some (some block) ↔
        before.lookup name = some (some block)) :
    Placed after :=
  fun name block found => placed name block ((same name block).mp found)

theorem Placed.insert
    {dirs : BlocksDir json} (placed : Placed dirs) (block : StoredBlock json) :
    Placed (dirs.insert (blockDirName block.writer.blockId) (some block)) := by
  intro name other found
  by_cases same : name = blockDirName block.writer.blockId
  · rw [same, AList.lookup_insert] at found
    rw [same, Option.some.inj (Option.some.inj found)]
  · rw [AList.lookup_insert_ne same] at found
    exact placed name other found

theorem infoOnDisk_eq_some
    {dirs : BlocksDir json} {blockId : UInt64} {info : BlockInfo}
    (found : infoOnDisk dirs blockId = some info) :
    info.compactionLevel = 0 ∧ info.path = blockDirName blockId := by
  obtain ⟨block, _, loaded⟩ := Option.bind_eq_some_iff.mp found
  exact (loadBlockInfo_eq_some loaded).2

theorem infoOnDisk_insert
    (dirs : BlocksDir json) (block : StoredBlock json) (blockId : UInt64) :
    infoOnDisk (dirs.insert (blockDirName block.writer.blockId) (some block))
        blockId =
      if blockId = block.writer.blockId then
        loadBlockInfo (blockDirName blockId) block
      else
        infoOnDisk dirs blockId := by
  rw [infoOnDisk]
  split
  · rename_i same
    rw [same, AList.lookup_insert]
    rfl
  · rename_i differs
    have otherName : blockDirName blockId ≠ blockDirName block.writer.blockId :=
      fun same => differs (blockDirName_injective same)
    rw [AList.lookup_insert_ne otherName, infoOnDisk]

namespace BlockStore

variable {store after : BlockStore json} {maxLevel : UInt8}

theorem restartFaithful_iff (placed : Placed store.dirs) :
    store.RestartFaithful ↔
      ∀ blockId,
        infoOnDisk store.dirs blockId = store.manager.getBlock blockId := by
  constructor
  · intro faithful blockId
    rw [← faithful _ (List.Perm.refl _), getBlock_load placed (List.Perm.refl _)]
  · intro same entries isOrder blockId
    rw [getBlock_load placed isOrder, same]

theorem mapSound_iff (placed : Placed store.dirs) :
    store.MapSound maxLevel ↔
      ∀ blockId,
        infoOnDisk store.dirs blockId = store.manager.getBlock blockId := by
  rw [← restartFaithful_iff placed]
  constructor
  · exact MapSound.faithful
  · intro faithful
    refine ⟨faithful, fun blockId info known => ?_⟩
    rw [← (restartFaithful_iff placed).mp faithful] at known
    rw [(infoOnDisk_eq_some known).1]
    exact UInt8.zero_le

theorem placed_removeBlock (placed : Placed store.dirs) (blockId : UInt64) :
    Placed (store.removeBlock blockId).dirs := by
  intro name block found
  rw [lookup_dirs_removeBlock] at found
  split at found
  · cases found
  · exact placed name block found

theorem placed_removeBlocks
    (placed : Placed store.dirs) (blockIds : List UInt64) :
    Placed (blockIds.foldl removeBlock store).dirs := by
  induction blockIds generalizing store with
  | nil => exact placed
  | cons blockId rest inductionHypothesis =>
    exact inductionHypothesis (placed_removeBlock placed blockId)

theorem mapSound_removeBlock
    (placed : Placed store.dirs) (sound : store.MapSound maxLevel)
    (blockId : UInt64) :
    (store.removeBlock blockId).MapSound maxLevel := by
  have onDisk := (mapSound_iff placed).mp sound
  apply (mapSound_iff (placed_removeBlock placed blockId)).mpr
  intro other
  have removed := lookup_dirs_removeBlock store blockId (blockDirName other)
  rw [getBlock_removeBlock]
  cases known : store.manager.getBlock blockId with
  | none =>
    rw [known] at removed
    rw [infoOnDisk, removed]
    change infoOnDisk store.dirs other = _
    split
    · rename_i same
      rw [onDisk, same, known]
    · exact onDisk other
  | some info =>
    have isPath : info.path = blockDirName blockId :=
      (infoOnDisk_eq_some ((onDisk blockId).trans known)).2
    rw [known, Option.map_some, isPath] at removed
    rw [infoOnDisk, removed]
    by_cases same : other = blockId
    · subst same
      rw [if_pos rfl, if_pos rfl]
      rfl
    · have differs :
          ¬some (blockDirName blockId) = some (blockDirName other) :=
        fun sameName =>
          same (blockDirName_injective (Option.some.inj sameName)).symm
      rw [if_neg differs, if_neg same]
      exact onDisk other

theorem mapSound_addWritten
    (placed : Placed store.dirs) (sound : store.MapSound maxLevel)
    (writer : BlockWriter) (layout : writer.Layout) :
    Placed (store.addWritten writer layout).dirs ∧
      (store.addWritten writer layout).MapSound maxLevel := by
  have onDisk := (mapSound_iff placed).mp sound
  rw [addWritten]
  rcases writeBlock_metadata_cases store.dirs writer layout with
    ⟨blockMeta, block, wrote, isWriter, isMeta⟩ | ⟨fault, left, failed, same⟩
  · rw [wrote]
    subst isWriter
    have placedAfter := placed.insert block
    refine ⟨placedAfter, (mapSound_iff placedAfter).mpr fun blockId => ?_⟩
    rw [infoOnDisk_insert, getBlock_addBlock]
    have sameId : blockMeta.blockId = block.writer.blockId := by
      rw [metadata_files] at isMeta
      rw [← Option.some.inj isMeta]
      rfl
    dsimp only
    rw [sameId]
    split
    · rename_i isNew
      rw [loadBlockInfo, isMeta, isNew, Option.map_some, sameId]
    · exact onDisk blockId
  · rw [failed]
    have placedAfter := placed.congr same
    refine ⟨placedAfter, (mapSound_iff placedAfter).mpr fun blockId => ?_⟩
    rw [infoOnDisk_congr same]
    exact onDisk blockId

/-- What a compaction does to the directories and the map. -/
theorem compactBlocks_map_cases
    (store : BlockStore json) (level : UInt8) (blockIds : List UInt64)
    (choice : CompactionChoice) :
    (¬store.CompactionWrites blockIds choice ∧
        (store.compactBlocks level blockIds choice).2.manager = store.manager ∧
        ∀ name block,
          (store.compactBlocks level blockIds choice).2.dirs.lookup name =
              some (some block) ↔
            store.dirs.lookup name = some (some block)) ∨
      store.CompactionWrites blockIds choice ∧ blockIds ≠ [] ∧
        ∃ block info,
          block.writer.blockId = choice.blockId ∧
            info.blockId = choice.blockId ∧
              info.compactionLevel = level + 1 ∧
                (store.compactBlocks level blockIds choice).2 =
                  let removed :=
                    blockIds.foldl removeBlock
                      { store with
                        dirs :=
                          store.dirs.insert
                            (blockDirName block.writer.blockId)
                            (some block) }
                  { removed with
                    manager := removed.manager.addBlock info } := by
  rw [compactBlocks]
  cases loaded : store.loadBlocks choice blockIds with
  | error fault =>
    left
    refine ⟨?_, rfl, fun _ _ => Iff.rfl⟩
    rintro ⟨allSeries, loadedToo, _⟩
    rw [loaded] at loadedToo
    cases loadedToo
  | ok allSeries =>
    dsimp only
    split
    · rename_i empty
      left
      refine ⟨?_, rfl, fun _ _ => Iff.rfl⟩
      rintro ⟨others, loadedToo, nonempty, _⟩
      rw [loaded] at loadedToo
      cases loadedToo
      exact nonempty empty
    · rename_i nonempty
      let writer := compactedWriter choice.blockId allSeries
      rcases writeBlock_metadata_cases store.dirs writer
          (choice.layout writer) with
        ⟨blockMeta, block, wrote, isWriter, isMeta⟩ |
          ⟨fault, left, failed, same⟩
      · right
        have isId : block.writer.blockId = choice.blockId := by
          rw [isWriter]
          exact blockId_compactedWriter _ _
        let info : BlockInfo := {
          blockId := choice.blockId
          minTimestamp := blockMeta.minTimestamp
          maxTimestamp := blockMeta.maxTimestamp
          seriesCount := blockMeta.totalSeries
          sampleCount := blockMeta.totalSamples
          compactionLevel := level + 1
          path := blockDirName choice.blockId
        }
        refine ⟨⟨allSeries, loaded, nonempty, blockMeta, ?_⟩, ?_, block,
          info, isId, rfl, rfl, ?_⟩
        · exact congrArg Prod.fst wrote
        · rintro rfl
          cases loaded
          exact nonempty rfl
        · simp only [writer] at wrote
          simp only [wrote, isId, blockId_compactedWriter]
          rfl
      · left
        simp only [writer] at failed
        refine ⟨?_, by simp only [failed], by simpa only [failed] using same⟩
        rintro ⟨others, loadedToo, _, blockMeta, wrote⟩
        rw [loaded] at loadedToo
        cases loadedToo
        rw [failed] at wrote
        cases wrote

theorem mapSound_step_iff {action : BlockAction} (placed : Placed store.dirs)
    (sound : store.MapSound maxLevel) (step : BlockStep store action after) :
    Placed after.dirs ∧
      (after.MapSound maxLevel ↔ store.WritesNoCompaction action) := by
  obtain ⟨possible, rfl⟩ := step
  cases action with
  | add writer layout =>
    obtain ⟨placedAfter, soundAfter⟩ :=
      mapSound_addWritten placed sound writer layout
    exact ⟨placedAfter, iff_of_true soundAfter trivial⟩
  | remove blockId =>
    have soundAfter := mapSound_removeBlock placed sound blockId
    exact ⟨placed_removeBlock placed blockId, iff_of_true soundAfter trivial⟩
  | compact level blockIds choice =>
    have onDisk := (mapSound_iff placed).mp sound
    rcases compactBlocks_map_cases store level blockIds choice with
      ⟨noWrite, sameMap, same⟩ |
        ⟨writes, nonempty, block, info, isId, infoId, isLevel, isAfter⟩
    · have placedAfter := placed.congr same
      refine ⟨placedAfter, iff_of_true ?_ noWrite⟩
      apply (mapSound_iff placedAfter).mpr
      intro blockId
      have sameDisk := infoOnDisk_congr same blockId
      change
        infoOnDisk (store.compactBlocks level blockIds choice).2.dirs blockId =
          (store.compactBlocks level blockIds choice).2.manager.getBlock blockId
      rw [sameDisk, sameMap]
      exact onDisk blockId
    · have placedAfter :
          Placed (store.compactBlocks level blockIds choice).2.dirs := by
        rw [isAfter]
        exact placed_removeBlocks (placed.insert block) blockIds
      refine ⟨placedAfter, iff_of_false (fun soundAfter => ?_) fun noWrite =>
        noWrite writes⟩
      -- the inputs are at level zero, so the new block is at level one
      obtain ⟨first, isFirst⟩ := exists_mem_of_ne_nil _ nonempty
      obtain ⟨firstInfo, known, firstLevel⟩ := possible first isFirst
      have levelZero := (infoOnDisk_eq_some ((onDisk first).trans known)).1
      have knownNew :
          (store.compactBlocks level blockIds choice).2.manager.getBlock
              info.blockId =
            some info := by
        rw [isAfter]
        dsimp only
        rw [getBlock_addBlock, if_pos rfl]
      have onDiskAfter := (mapSound_iff placedAfter).mp soundAfter
      have newLevelZero :=
        (infoOnDisk_eq_some ((onDiskAfter info.blockId).trans knownNew)).1
      rw [isLevel, ← firstLevel, levelZero] at newLevelZero
      exact absurd newLevelZero (by decide)

theorem mapSound_openDirs
    {dirs : BlocksDir json} (placed : Placed dirs) (maxLevel : UInt8) :
    (openDirs dirs).MapSound maxLevel := by
  apply (mapSound_iff placed).mpr
  intro blockId
  exact (getBlock_load placed (List.Perm.refl _) blockId).symm

/-- Two blocks of one sample each are written and added. -/
def exampleAdditions : List BlockAction :=
  [.add (oneSampleWriter 1 ⟨1000, 1⟩) (BlockWriter.tableLayout _),
    .add (oneSampleWriter 2 ⟨2000, 2⟩) (BlockWriter.tableLayout _)]

/-- The store after some actions in a directory without blocks. -/
def exampleStore (actions : List BlockAction) : BlockStore labelsCodec :=
  actions.foldl perform (openDirs ∅)

theorem placed_empty : Placed (∅ : BlocksDir json) := by
  intro name block found
  rw [AList.lookup_empty] at found
  cases found

theorem run_exampleStore {actions : List BlockAction}
    (possible :
      Along perform Possible (openDirs (∅ : BlocksDir labelsCodec)) actions) :
    Run BlockStep (openDirs ∅) actions (exampleStore actions) :=
  Run.ofAlong (fun isPossible => ⟨isPossible, rfl⟩) possible

theorem possible_compact
    {store : BlockStore json} {level : UInt8} {blockIds : List UInt64}
    (known :
      (blockIds.all fun blockId =>
        (store.manager.getBlock blockId).map BlockInfo.compactionLevel ==
          some level) = true)
    (choice : CompactionChoice) :
    store.Possible (.compact level blockIds choice) := by
  intro blockId member
  have isLevel := all_eq_true.mp known blockId member
  exact Option.map_eq_some_iff.mp (beq_iff_eq.mp isLevel)

/-- A compaction that reads one sample from every input. -/
def compactTo (level : UInt8) (blockIds : List UInt64) (blockId : UInt64) :
    BlockAction :=
  .compact level blockIds
    { exampleCompaction readApartBlocks with blockId := blockId }

/-- Two blocks are compacted, and the result again at every level up to four. -/
def exampleCompactions : List BlockAction :=
  [compactTo 0 [1, 2] 9, compactTo 1 [9] 10, compactTo 2 [10] 11,
    compactTo 3 [11] 12, compactTo 4 [12] 13]

end BlockStore

end ChronoDB.Compaction
