import ChronoDB.Backup.Archive
import ChronoDB.Library.Transition

namespace ChronoDB.Backup

open Library

/-!
# The backup manager

A backup copies files into a new directory, saves its metadata and removes the
backups that are older than the retention.  Only a backup that came to its end
is the last backup, after whose moment an incremental backup takes files.
-/

structure BackupManager where
  config : BackupConfig
  lastBackupId : Option String

/--
What a backup takes from its environment: clock readings, a random number and
the order in which the backup directory is listed.
-/
structure BackupChoice where
  nowMillis : ℤ
  randomSuffix : UInt32
  timestamp : Moment
  verifiedAt : Moment
  cleanupNow : Moment
  listing : List String
  deriving Repr, DecidableEq

def BackupChoice.backupId (choice : BackupChoice) : String :=
  "backup_" ++ toString choice.nowMillis ++ "_" ++
    toString choice.randomSuffix.toNat

/-- A moment some days before another; `none` is a panic of the calendar. -/
abbrev MinusDays := Moment → Int64 → Option Moment

namespace BackupManager

def lastBackupTime
    (json : Codec BackupError BackupMetadata) (manager : BackupManager)
    (repository : Repository) :
    Except BackupError (Option Moment) :=
  match manager.lastBackupId with
  | none => .ok none
  | some last =>
    match (repository.lookup last).bind (BackupTree.readMetadata json) with
    | none => .ok none
    | some (.error cause) => .error cause
    | some (.ok metadata) => .ok (some metadata.timestamp)

/-- Copy files into a new directory, as the type of backup asks for. -/
def copyBackup
    (json : Codec BackupError BackupMetadata) (manager : BackupManager)
    (repository : Repository) (data : DataDir) :
    Except BackupFault Unit × Copied :=
  if manager.config.backupType = "full" then
    performFullBackup manager.config data
  else if manager.config.backupType = "incremental" then
    match manager.lastBackupTime json repository with
    | .error cause => (.error (.error cause), .start)
    | .ok last => performIncrementalBackup last data
  else
    (.error (.error (.internal
      ("Unsupported backup type: " ++ manager.config.backupType))), .start)

/-- The metadata of a backup before it is verified. -/
def metadataOf
    (manager : BackupManager) (data : DataDir) (choice : BackupChoice)
    (copied : Copied) :
    BackupMetadata where
  backupId := choice.backupId
  backupType := manager.config.backupType
  timestamp := choice.timestamp
  sourceDir := data.path
  storageBackend := manager.config.storageBackend
  filesCount := copied.filesCount
  totalSize := copied.totalSize
  previousBackupId := manager.lastBackupId
  verificationStatus := none

/-- Save the metadata, verify the backup and save the metadata again. -/
def finishBackup
    (json : Codec BackupError BackupMetadata) (manager : BackupManager)
    (data : DataDir) (choice : BackupChoice) (copied : Copied) :
    Except BackupError BackupTree :=
  let metadata := manager.metadataOf data choice copied
  match copied.tree.saveMetadata json metadata with
  | .error cause => .error cause
  | .ok saved =>
    if manager.config.enableVerification then
      saved.saveMetadata json
        { metadata with
          verificationStatus :=
            some (saved.verifyBackup json choice.verifiedAt) }
    else
      .ok saved

/--
Perform a backup into a new directory.  A failure leaves the directory with what
was written so far.
-/
def performBackup
    (json : Codec BackupError BackupMetadata) (minusDays : MinusDays)
    (manager : BackupManager) (repository : Repository) (data : DataDir)
    (choice : BackupChoice) :
    Except BackupFault String × BackupManager × Repository :=
  let backupId := choice.backupId
  match manager.copyBackup json repository data with
  | (.error fault, copied) =>
    (.error fault, manager, repository.insert backupId copied.tree)
  | (.ok (), copied) =>
    match manager.finishBackup json data choice copied with
    | .error cause =>
      (.error (.error cause), manager, repository.insert backupId copied.tree)
    | .ok tree =>
      let stored := repository.insert backupId tree
      match
        minusDays choice.cleanupNow manager.config.retentionDays.toInt64 with
      | none => (.error .panic, manager, stored)
      | some cutoff =>
        match cleanupOldBackups json cutoff choice.listing stored with
        | (.error cause, left) => (.error (.error cause), manager, left)
        | (.ok (), left) =>
          (.ok backupId, { manager with lastBackupId := some backupId }, left)

end BackupManager

/-!
## Runs
-/

/--
A manager, its backup directory and the data directory.  Beside them it is
recorded what the data directory held when a backup was taken, and whether a
call panicked.
-/
structure BackupSystem where
  manager : BackupManager
  repository : Repository
  data : DataDir
  taken : String → RelativePath → Option Bytes
  panicked : Bool

/-- The data directory changes, a backup is taken, or the manager is reopened. -/
inductive BackupAction where
  | change (data : DataDir)
  | backup (choice : BackupChoice)
  | reopen

namespace BackupSystem

def perform (json : Codec BackupError BackupMetadata) (minusDays : MinusDays)
    (system : BackupSystem) :
    BackupAction → BackupSystem
  | .change data => { system with data := data }
  | .backup choice =>
    let (outcome, manager, repository) :=
      system.manager.performBackup json minusDays system.repository
        system.data choice
    {
      manager := manager
      repository := repository
      data := system.data
      taken := fun backupId =>
        if backupId = choice.backupId then
          system.data.contents
        else
          system.taken backupId
      panicked := system.panicked || decide (outcome = .error BackupFault.panic)
    }
  | .reopen =>
    { system with manager := { system.manager with lastBackupId := none } }

/--
The clock and the random number make the id of a backup new, and a listing of
the backup directory names all backups once.
-/
def Possible (system : BackupSystem) : BackupAction → Prop
  | .change _ => True
  | .backup choice =>
    choice.backupId ∉ system.repository ∧
      system.manager.lastBackupId ≠ some choice.backupId ∧
        choice.listing.Perm (choice.backupId :: system.repository.keys)
  | .reopen => True

def BackupStep
    (json : Codec BackupError BackupMetadata) (minusDays : MinusDays) :
    BackupSystem → BackupAction → BackupSystem → Prop :=
  fun before action after =>
    before.Possible action ∧ after = before.perform json minusDays action

def Listed (json : Codec BackupError BackupMetadata) (system : BackupSystem)
    (metadata : BackupMetadata) :
    Prop :=
  ∃ name tree,
    system.repository.lookup name = some tree ∧
      tree.readMetadata json = some (.ok metadata)

/--
A restore of a backup fails and leaves the target as it was, or gives the target
the files that the data directory had.
-/
def Restores (json : Codec BackupError BackupMetadata) (system : BackupSystem)
    (backupId : String) :
    Prop :=
  ∀ target renames,
    (∃ cause,
        restoreBackup json system.manager.config system.repository backupId
            target renames =
          (.error (.error cause), target)) ∨
      ∃ files,
        restoreBackup json system.manager.config system.repository backupId
            target renames =
          (.ok (), some files) ∧
        ∀ path, files.lookup path = system.taken backupId path

structure Restorable (json : Codec BackupError BackupMetadata)
    (system : BackupSystem) : Prop where
  noPanic : system.panicked = false
  restores :
    ∀ metadata,
      system.Listed json metadata → system.Restores json metadata.backupId

/-- A manager was just opened on an empty backup directory. -/
structure Fresh (system : BackupSystem) : Prop where
  noBackup : system.repository = ∅
  noLast : system.manager.lastBackupId = none
  noPanic : system.panicked = false

end BackupSystem

end ChronoDB.Backup
