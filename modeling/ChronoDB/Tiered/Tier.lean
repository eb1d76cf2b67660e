import ChronoDB.Flush.Manager

namespace ChronoDB.Tiered

open Library Columnstore Flush

/-!
# Data tiers

A tier has a directory, a table of its blocks and the access pattern of every
series that was read from it.  A path is the list of its components.  The
directory that a block is written to and the path under which the tier keeps it
in its table are formed apart from each other.
-/

abbrev ComponentPath := List String

/-- The block directories of a disk, with the files in each. -/
abbrev Disk := FiniteMap ComponentPath BlockDir

/-- The files of a directory; one that does not exist has none. -/
def Disk.filesOf (disk : Disk) (path : ComponentPath) : BlockDir :=
  (AList.lookup path disk).getD BlockDir.empty

structure BlockInfo where
  blockId : UInt64
  minTimestamp : Timestamp
  maxTimestamp : Timestamp
  seriesCount : ℕ
  sampleCount : ℕ
  compactionLevel : UInt8
  path : ComponentPath
  deriving Repr, DecidableEq

/-!
## The block manager of a tier
-/

structure BlockManager where
  blocks : FiniteMap UInt64 BlockInfo

namespace BlockManager

def empty : BlockManager where
  blocks := ∅

def addBlock (manager : BlockManager) (info : BlockInfo) : BlockManager where
  blocks := manager.blocks.insert info.blockId info

/-- The blocks of a range, in one iteration order of the table. -/
def getBlocksInTimeRange (manager : BlockManager) (start stop : Timestamp) :
    List BlockInfo :=
  (manager.blocks.entries.map Sigma.snd).filter fun info =>
    start ≤ info.maxTimestamp && info.minTimestamp ≤ stop

def loadBlockInfo (path : ComponentPath) (blockMeta : BlockMeta) :
    BlockInfo where
  blockId := blockMeta.blockId
  minTimestamp := blockMeta.minTimestamp
  maxTimestamp := blockMeta.maxTimestamp
  seriesCount := blockMeta.totalSeries
  sampleCount := blockMeta.totalSamples
  compactionLevel := blockMeta.compactionLevel
  path := path

/--
The body of the loop of `load_existing_blocks`.  Only a directory right under
`blocks` that has metadata is taken into the table.
-/
def loadEntry (dataDir : ComponentPath) (manager : BlockManager)
    (entry : (_ : ComponentPath) × BlockDir) :
    BlockManager :=
  if entry.1.dropLast = dataDir ++ ["blocks"] then
    match entry.2.metadata with
    | none => manager
    | some blockMeta => manager.addBlock (loadBlockInfo entry.1 blockMeta)
  else
    manager

/-- `BlockManager::new` over the directories in the order they are listed. -/
def new (dataDir : ComponentPath)
    (listing : List ((_ : ComponentPath) × BlockDir)) :
    BlockManager :=
  listing.foldl (loadEntry dataDir) empty

end BlockManager

/-!
## One tier
-/

structure TierConfig where
  name : String
  retentionHours : UInt64
  path : ComponentPath
  deriving Repr, DecidableEq

structure AccessPattern where
  lastAccessTime : Timestamp
  accessCount : ℕ
  /-- Accesses in an hour. -/
  accessFrequency : ℚ
  deriving Repr, DecidableEq

/-- The default pattern, with which an entry of the table starts. -/
def AccessPattern.unread : AccessPattern where
  lastAccessTime := 0
  accessCount := 0
  accessFrequency := 0

/-- The body of `update_access_pattern` for the entry of one series. -/
def AccessPattern.read (pattern : AccessPattern) (now : Timestamp) :
    AccessPattern :=
  let accessCount := pattern.accessCount + 1
  let timeDiffHours : ℚ :=
    ((now - pattern.lastAccessTime).toInt : ℚ) / (3600 * 1000)
  {
    lastAccessTime := now
    accessCount := accessCount
    accessFrequency :=
      if 0 < pattern.lastAccessTime ∧ 0 < timeDiffHours then
        accessCount / timeDiffHours
      else
        pattern.accessFrequency
  }

structure DataTier where
  config : TierConfig
  blockManager : BlockManager
  seriesCount : ℕ
  sampleCount : ℕ
  accessPatterns : FiniteMap TimeSeriesId AccessPattern

/-- The directory that a block writer makes for a block. -/
def blockDirPath (path : ComponentPath) (blockId : UInt64) : ComponentPath :=
  path ++ [blockDirName blockId]

/-- The file name that a tier takes for a block. -/
def blockFileName (blockId : UInt64) : String :=
  "block_" ++ toString blockId.toNat ++ ".bin"

def blockFilePath (path : ComponentPath) (blockId : UInt64) : ComponentPath :=
  path ++ [blockFileName blockId]

namespace DataTier

def new
    (config : TierConfig) (listing : List ((_ : ComponentPath) × BlockDir)) :
    DataTier where
  config := config
  blockManager := BlockManager.new config.path listing
  seriesCount := 0
  sampleCount := 0
  accessPatterns := ∅

def seriesWriter (blockId : UInt64) (series : TimeSeries) : BlockWriter :=
  (BlockWriter.new blockId).addSeries series.id series.labels series.samples

/-- What the table of a tier keeps of a block that was written. -/
def blockInfo (tier : DataTier) (blockMeta : BlockMeta) : BlockInfo :=
  BlockManager.loadBlockInfo
    (blockFilePath tier.config.path blockMeta.blockId) blockMeta

/--
Write a series as a block whose id is the clock reading.  A write that fails has
made the directory of the block.
-/
def write (json : Codec Error Labels) (tier : DataTier) (disk : Disk)
    (series : TimeSeries) (now : Timestamp) :
    Except Fault UInt64 × DataTier × Disk :=
  let blockId := now.toUInt64
  let writer := seriesWriter blockId series
  let layout := writer.tableLayout
  let path := blockDirPath tier.config.path blockId
  match writer.write json layout (disk.filesOf path) with
  | .error fault => (.error fault, tier, disk.insert path (disk.filesOf path))
  | .ok files =>
    let info := tier.blockInfo (writer.blockMeta (writer.laidOut layout))
    (.ok blockId,
      { tier with
        blockManager := tier.blockManager.addBlock info
        seriesCount := tier.seriesCount + 1
        sampleCount := tier.sampleCount + series.samples.length },
      disk.insert path files)

/-- What a task reads of one block; a failure or a panic is passed over. -/
def readBlock
    (json : Codec Error Labels) (disk : Disk) (seriesId : TimeSeriesId)
    (start stop : Timestamp) (path : ComponentPath) :
    List Sample :=
  match BlockReader.openDir (disk.filesOf path) with
  | .error _ => []
  | .ok reader =>
    match reader.query json seriesId start stop with
    | .error _ => []
    | .ok samples => samples

def updateAccessPattern
    (tier : DataTier) (seriesId : TimeSeriesId) (now : Timestamp) :
    DataTier :=
  let pattern := (tier.accessPatterns.lookup seriesId).getD AccessPattern.unread
  {
    tier with
    accessPatterns := tier.accessPatterns.insert seriesId (pattern.read now)
  }

/-- Read a series; a read that found samples counts as an access. -/
def query (json : Codec Error Labels) (tier : DataTier) (disk : Disk)
    (seriesId : TimeSeriesId) (start stop now : Timestamp) :
    List Sample × DataTier :=
  let blocks := tier.blockManager.getBlocksInTimeRange start stop
  let samples := blocks.flatMap fun info =>
    readBlock json disk seriesId start stop info.path
  if samples = [] then
    (samples, tier)
  else
    (samples, tier.updateAccessPattern seriesId now)

/-- Deleting a series only changes the count of series. -/
def delete (tier : DataTier) : DataTier :=
  { tier with seriesCount := tier.seriesCount - 1 }

/-- The priority of a tier; a lower number comes first. -/
def priority (tier : DataTier) : ℕ :=
  if tier.config.name = "hot" then 0
  else if tier.config.name = "warm" then 1
  else if tier.config.name = "cold" then 2
  else if tier.config.name = "archive" then 3
  else 4

end DataTier

/-!
## The tiers of a manager
-/

/-- The tiers by name, in one iteration order of their table. -/
abbrev TierCollection := FiniteMap String DataTier

namespace TierCollection

def addTier (tiers : TierCollection) (tier : DataTier) : TierCollection :=
  AList.insert tier.config.name tier tiers

def getTier (tiers : TierCollection) (name : String) : Option DataTier :=
  AList.lookup name tiers

def getAllTiers (tiers : TierCollection) : List DataTier :=
  sortByKey DataTier.priority (tiers.entries.map Sigma.snd)

/-- The first tier that keeps data of an age, and else the archive. -/
def getTierForTimestamp (tiers : TierCollection) (timestamp now : Timestamp) :
    Option DataTier :=
  let ageHours := (now - timestamp) / (3600 * 1000)
  match
    tiers.getAllTiers.find? fun tier =>
      ageHours ≤ tier.config.retentionHours.toInt64 with
  | some tier => some tier
  | none => tiers.getTier "archive"

/-- A tier that is shared is changed in place. -/
def setTier (tiers : TierCollection) (tier : DataTier) : TierCollection :=
  FiniteMap.mapKeyed
    (fun name other => if name = tier.config.name then tier else other) tiers

end TierCollection

end ChronoDB.Tiered
