import ChronoDB.Tiered.Tier

namespace ChronoDB.Tiered

open Library Columnstore Flush

/-!
# The tiered storage manager

A write goes to the tier for data of the present.  A migration reads every
series that was read before and writes it to the tier for its frequency.  What
was successfully written is recorded beside the state.
-/

structure TieredStorageConfig where
  enabled : Bool
  hotTier : TierConfig
  warmTier : TierConfig
  coldTier : TierConfig
  archiveTier : TierConfig
  deriving Repr, DecidableEq

/-- A tier whose directory under `data` has its name. -/
def defaultTier (name : String) (retentionHours : UInt64) : TierConfig where
  name := name
  retentionHours := retentionHours
  path := ["data", name]

def TieredStorageConfig.default : TieredStorageConfig where
  enabled := true
  hotTier := defaultTier "hot" 24
  warmTier := defaultTier "warm" (24 * 7)
  coldTier := defaultTier "cold" (24 * 30)
  archiveTier := defaultTier "archive" (24 * 365)

structure DataLocation where
  tier : String
  filePath : Option ComponentPath
  offset : ℕ
  size : ℕ
  deriving Repr, DecidableEq

structure TieredQueryOptions where
  queryAllTiers : Bool
  preferredTier : Option String
  deriving Repr, DecidableEq

/-- How a write can fail. -/
inductive TieredFault where
  | internal (message : String)
  | block (fault : Fault)
  deriving Repr, DecidableEq

structure TieredStorageManager where
  config : TieredStorageConfig
  tiers : TierCollection

/-- The order in which the directories of a tier are listed when it is opened. -/
abbrev TierListing := TierConfig → List ((_ : ComponentPath) × BlockDir)

namespace TieredStorageManager

def new (config : TieredStorageConfig) (listing : TierListing) :
    TieredStorageManager where
  config := config
  tiers :=
    if config.enabled then
      [config.hotTier, config.warmTier, config.coldTier,
        config.archiveTier].foldl
          (fun tiers tier =>
            tiers.addTier (DataTier.new tier (listing tier))) ∅
    else
      ∅

/-!
## Writing
-/

/-- The clock readings of a write, in the order in which they are taken. -/
structure WriteClocks where
  now : Timestamp
  tierNow : Timestamp
  blockNow : Timestamp
  deriving Repr, DecidableEq

def write
    (json : Codec Error Labels) (manager : TieredStorageManager) (disk : Disk)
    (series : TimeSeries) (clocks : WriteClocks) :
    Except TieredFault DataLocation × TieredStorageManager × Disk :=
  match manager.tiers.getTierForTimestamp clocks.now clocks.tierNow with
  | none => (.error (.internal "No tier available"), manager, disk)
  | some tier =>
    match tier.write json disk series clocks.blockNow with
    | (.error fault, _, left) => (.error (.block fault), manager, left)
    | (.ok blockId, written, after) =>
      (.ok {
          tier := tier.config.name
          filePath := some (blockFilePath tier.config.path blockId)
          offset := 0
          size := 0
        },
        { manager with tiers := manager.tiers.setTier written }, after)

/-!
## Reading
-/

def tierAnswer (seriesId : TimeSeriesId) : List Sample → Option TimeSeries
  | [] => none
  | first :: rest =>
    some { id := seriesId, labels := [], samples := first :: rest }

def queriedTiers
    (manager : TieredStorageManager) (options : TieredQueryOptions) :
    List DataTier :=
  if options.queryAllTiers then
    manager.tiers.getAllTiers
  else
    match options.preferredTier with
    | none => []
    | some name => (manager.tiers.getTier name).toList

def query
    (json : Codec Error Labels) (manager : TieredStorageManager) (disk : Disk)
    (seriesId : TimeSeriesId) (start stop : Timestamp)
    (options : TieredQueryOptions) (now : Timestamp) :
    List TimeSeries × TieredStorageManager :=
  let answers := (manager.queriedTiers options).map fun tier =>
    tier.query json disk seriesId start stop now
  (answers.filterMap fun answer => tierAnswer seriesId answer.1,
    { manager with
      tiers := answers.foldl
        (fun tiers answer => tiers.setTier answer.2) manager.tiers })

/-!
## Migration
-/

/-- The tier for the frequency with which a series is read. -/
def determineTargetTier
    (manager : TieredStorageManager) (pattern : AccessPattern) :
    Option DataTier :=
  if 10 < pattern.accessFrequency then
    manager.tiers.getTier "hot"
  else if 1 < pattern.accessFrequency then
    manager.tiers.getTier "warm"
  else if 1 / 10 < pattern.accessFrequency then
    manager.tiers.getTier "cold"
  else
    manager.tiers.getTier "archive"

/-- One task of a migration, with the names of its tiers. -/
structure MigrationTask where
  seriesId : TimeSeriesId
  source : String
  target : String
  deriving Repr, DecidableEq

def taskFor (manager : TieredStorageManager) (source : DataTier)
    (entry : (_ : TimeSeriesId) × AccessPattern) :
    Option MigrationTask :=
  match manager.determineTargetTier entry.2 with
  | none => none
  | some target =>
    if target.config.name = source.config.name then
      none
    else
      some {
        seriesId := entry.1
        source := source.config.name
        target := target.config.name
      }

def migrationTasks (manager : TieredStorageManager) : List MigrationTask :=
  manager.tiers.getAllTiers.flatMap fun source =>
    source.accessPatterns.entries.filterMap (manager.taskFor source)

/-- The clock readings of one migration task. -/
structure TaskClocks where
  stop : Timestamp
  accessNow : Timestamp
  blockNow : Timestamp
  deriving Repr, DecidableEq

/-- The tiers, the disk and the tasks that succeeded so far. -/
structure Migrated where
  manager : TieredStorageManager
  disk : Disk
  count : ℕ

/--
`migrate_series_async`: samples from zero to the present are written to the
target, and the source is told to delete the series.
-/
def migrateSeries
    (json : Codec Error Labels) (clocks : MigrationTask → TaskClocks)
    (state : Migrated) (task : MigrationTask) :
    Migrated :=
  match state.manager.tiers.getTier task.source,
      state.manager.tiers.getTier task.target with
  | some source, some target =>
    let times := clocks task
    let (samples, source) :=
      source.query json state.disk task.seriesId 0 times.stop times.accessNow
    let tiers := state.manager.tiers.setTier source
    let series : TimeSeries :=
      { id := task.seriesId, labels := [], samples := samples }
    if samples = [] then
      {
        state with
        manager := { state.manager with tiers := tiers }
        count := state.count + 1
      }
    else
      match target.write json state.disk series times.blockNow with
      | (.error _, _, left) =>
        {
          state with
          manager := { state.manager with tiers := tiers }
          disk := left
        }
      | (.ok _, target, after) =>
        let tiers := (tiers.setTier target).setTier source.delete
        {
          manager := { state.manager with tiers := tiers }
          disk := after
          count := state.count + 1
        }
  | _, _ => state

/-- The tasks of a migration, one after the other. -/
def autoMigrate
    (json : Codec Error Labels) (manager : TieredStorageManager) (disk : Disk)
    (clocks : MigrationTask → TaskClocks) :
    Migrated :=
  manager.migrationTasks.foldl (migrateSeries json clocks)
    { manager := manager, disk := disk, count := 0 }

end TieredStorageManager

/-!
## Runs
-/

/-- A manager with its disk, and what was successfully written. -/
structure TieredSystem where
  manager : TieredStorageManager
  disk : Disk
  written : TimeSeriesId → List Sample

inductive TieredCall where
  | write
      (series : TimeSeries)
      (clocks : TieredStorageManager.WriteClocks)
  | query
      (seriesId : TimeSeriesId)
      (start stop : Timestamp)
      (options : TieredQueryOptions)
      (now : Timestamp)
  | autoMigrate
      (clocks :
        TieredStorageManager.MigrationTask → TieredStorageManager.TaskClocks)

namespace TieredSystem

/-- The record of what was written, after the outcome of a write. -/
def record (written : TimeSeriesId → List Sample) (series : TimeSeries) :
    Except TieredFault DataLocation → TimeSeriesId → List Sample
  | .error _ => written
  | .ok _ => fun seriesId =>
    if seriesId = series.id then
      written seriesId ++ series.samples
    else
      written seriesId

def perform (json : Codec Error Labels) (system : TieredSystem) :
    TieredCall → TieredSystem
  | .write series clocks =>
    let (outcome, manager, disk) :=
      system.manager.write json system.disk series clocks
    {
      manager := manager
      disk := disk
      written := record system.written series outcome
    }
  | .query seriesId start stop options now =>
    let (_, manager) :=
      system.manager.query json system.disk seriesId start stop options now
    { system with manager := manager }
  | .autoMigrate clocks =>
    let migrated := system.manager.autoMigrate json system.disk clocks
    { system with manager := migrated.manager, disk := migrated.disk }

/-- One call of a run. -/
def TieredStep (json : Codec Error Labels) :
    TieredSystem → TieredCall → TieredSystem → Prop :=
  fun before call after => after = before.perform json call

end TieredSystem

/-- A manager whose tiers were just opened on a disk, in any order. -/
structure OpenedOn (config : TieredStorageConfig) (disk : Disk)
    (manager : TieredStorageManager) : Prop where
  sameConfig : manager.config = config
  opened :
    ∃ listing : TierListing,
      (∀ tier, (listing tier).Perm disk.entries) ∧
        manager.tiers.entries.Perm
          (TieredStorageManager.new config listing).tiers.entries

def allTiers : TieredQueryOptions where
  queryAllTiers := true
  preferredTier := none

/-- A query over all tiers and all times returns what was written, once each. -/
def ReturnsWritten
    (json : Codec Error Labels) (manager : TieredStorageManager) (disk : Disk)
    (written : TimeSeriesId → List Sample) :
    Prop :=
  ∀ seriesId now,
    ((manager.query json disk seriesId Int64.minValue Int64.maxValue allTiers
      now).1.flatMap TimeSeries.samples).Perm (written seriesId)

structure TieredSystem.Faithful (json : Codec Error Labels)
    (system : TieredSystem) : Prop where
  live : ReturnsWritten json system.manager system.disk system.written
  reopened :
    ∀ manager,
      OpenedOn system.manager.config system.disk manager →
        ReturnsWritten json manager system.disk system.written

structure TieredSystem.Fresh (config : TieredStorageConfig)
    (system : TieredSystem) : Prop where
  opened : OpenedOn config ∅ system.manager
  emptyDisk : system.disk = ∅
  nothingWritten : ∀ seriesId, system.written seriesId = []

end ChronoDB.Tiered
