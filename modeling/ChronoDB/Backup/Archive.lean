import ChronoDB.Library.Codec
import ChronoDB.Library.FiniteMap
import ChronoDB.Library.RepeatedXor
import ChronoDB.Model.Types

namespace ChronoDB.Backup

open Library

/-!
# Backups and their directories

A backup is a directory with copies of files and a metadata file.  Encrypted
copies start with a version mark.  A copy without the mark is taken for one that
was not encrypted when it is read.  Moments are nanoseconds since the epoch.
-/

/-- Nanoseconds since the epoch. -/
abbrev Moment := ℤ

/-- The components of a path below a directory. -/
abbrev RelativePath := List String

structure BackupConfig where
  backupType : String
  retentionDays : UInt64
  storageBackend : String
  enableVerification : Bool
  enableEncryption : Bool
  encryptionKey : Option String
  deriving Repr, DecidableEq

structure VerificationStatus where
  verifiedAt : Moment
  success : Bool
  errors : List String
  deriving Repr, DecidableEq

structure BackupMetadata where
  backupId : String
  backupType : String
  timestamp : Moment
  sourceDir : String
  storageBackend : String
  filesCount : ℕ
  totalSize : ℕ
  previousBackupId : Option String
  verificationStatus : Option VerificationStatus
  deriving Repr, DecidableEq

inductive BackupError where
  | internal (message : String)
  | isADirectory
  | notText
  | serialization
  | renameRefused
  deriving Repr, DecidableEq

/-- How a call can end without a result. -/
inductive BackupFault where
  | error (cause : BackupError)
  | panic
  deriving Repr, DecidableEq

/-!
## Encryption
-/

namespace BackupConfig

/-- The mark in front of encrypted data. -/
def versionMark : UInt8 := 0x01

/-- The bytes of the key, without which nothing is encrypted or decrypted. -/
def requiredKey (config : BackupConfig) : Except BackupFault Bytes :=
  match config.encryptionKey with
  | none => .error (.error (.internal "Encryption key is required"))
  | some key => .ok (stringBytes key)

/-- The loop over the bytes; the remainder by an empty key panics. -/
def combine (key text : Bytes) : Except BackupFault Bytes :=
  match repeatedXor key text with
  | none => .error .panic
  | some combined => .ok combined

def encryptData (config : BackupConfig) (data : Bytes) :
    Except BackupFault Bytes :=
  if config.enableEncryption then
    match config.requiredKey with
    | .error fault => .error fault
    | .ok key =>
      match combine key data with
      | .error fault => .error fault
      | .ok combined => .ok (versionMark :: combined)
  else
    .ok data

def decryptData (config : BackupConfig) (data : Bytes) :
    Except BackupFault Bytes :=
  if config.enableEncryption then
    match config.requiredKey with
    | .error fault => .error fault
    | .ok key =>
      match data with
      | [] => .ok []
      | first :: rest =>
        if first = versionMark then
          combine key rest
        else
          .ok (first :: rest)
  else
    .ok data

end BackupConfig

/-!
## The data directory
-/

structure DataFile where
  content : Bytes
  modified : Moment
  deriving Repr, DecidableEq

/--
The files of a data directory in the order in which they are walked.  No file is
below another one.
-/
structure DataDir where
  path : String
  files : FiniteMap RelativePath DataFile
  separate :
    ∀ first ∈ files, ∀ second ∈ files, first <+: second → first = second

def DataDir.contents (data : DataDir) (path : RelativePath) : Option Bytes :=
  (data.files.lookup path).map DataFile.content

/-!
## The directory of a backup
-/

/-- The files of a backup, and the directories that were created below it. -/
structure BackupTree where
  files : FiniteMap RelativePath Bytes
  dirs : List RelativePath

def metadataPath : RelativePath := ["backup.metadata"]

namespace BackupTree

def empty : BackupTree where
  files := ∅
  dirs := []

/-- A created directory has all of its parents. -/
def isDir (tree : BackupTree) (path : RelativePath) : Bool :=
  tree.dirs.any fun dir => path.isPrefixOf dir

def createDirAll (tree : BackupTree) (dir : RelativePath) : BackupTree :=
  { tree with dirs := dir :: tree.dirs }

def writeFile (tree : BackupTree) (path : RelativePath) (content : Bytes) :
    BackupTree :=
  { tree with files := tree.files.insert path content }

def readMetadata (json : Codec BackupError BackupMetadata) (tree : BackupTree) :
    Option (Except BackupError BackupMetadata) :=
  if tree.isDir metadataPath then
    some (.error .isADirectory)
  else
    (tree.files.lookup metadataPath).map json.decode

def saveMetadata (json : Codec BackupError BackupMetadata) (tree : BackupTree)
    (metadata : BackupMetadata) :
    Except BackupError BackupTree :=
  if tree.isDir metadataPath then
    .error .isADirectory
  else
    .ok (tree.writeFile metadataPath (json.encode metadata))

/-- All files can be opened, so only missing metadata is an error. -/
def verifyBackup (json : Codec BackupError BackupMetadata) (tree : BackupTree)
    (verifiedAt : Moment) :
    VerificationStatus :=
  let errors :=
    match tree.readMetadata json with
    | none => ["Backup metadata file not found"]
    | some _ => []
  {
    verifiedAt := verifiedAt
    success := errors.isEmpty
    errors := errors
  }

end BackupTree

/-!
## Copying
-/

/-- A backup in the making, with the files and bytes that were copied. -/
structure Copied where
  tree : BackupTree
  filesCount : ℕ
  totalSize : ℕ

def Copied.start : Copied where
  tree := .empty
  filesCount := 0
  totalSize := 0

/--
The loop over the files of the data directory.  The directory of a copy is
created before the file is read.
-/
def copyFiles
    (select : DataFile → Bool) (encode : Bytes → Except BackupFault Bytes) :
    List ((_ : RelativePath) × DataFile) → Copied →
      Except BackupFault Unit × Copied
  | [], copied => (.ok (), copied)
  | entry :: rest, copied =>
    if select entry.2 then
      let made := copied.tree.createDirAll entry.1.dropLast
      match encode entry.2.content with
      | .error fault => (.error fault, { copied with tree := made })
      | .ok stored =>
        copyFiles select encode rest {
          tree := made.writeFile entry.1 stored
          filesCount := copied.filesCount + 1
          totalSize := copied.totalSize + entry.2.content.length
        }
    else
      copyFiles select encode rest copied

def performFullBackup (config : BackupConfig) (data : DataDir) :
    Except BackupFault Unit × Copied :=
  copyFiles (fun _ => true)
    (if config.enableEncryption then config.encryptData else .ok)
    data.files.entries .start

/-- A file is copied when it was modified after the last backup. -/
def modifiedAfter (last : Option Moment) (file : DataFile) : Bool :=
  match last with
  | none => true
  | some last => last < file.modified

def performIncrementalBackup (last : Option Moment) (data : DataDir) :
    Except BackupFault Unit × Copied :=
  copyFiles (modifiedAfter last) .ok data.files.entries .start

/-!
## Restoring
-/

/-- The loop of a restore over the files of a backup. -/
def restoreFiles (config : BackupConfig) :
    List ((_ : RelativePath) × Bytes) → FiniteMap RelativePath Bytes →
      Except BackupFault Unit × FiniteMap RelativePath Bytes
  | [], restored => (.ok (), restored)
  | entry :: rest, restored =>
    if entry.1 = metadataPath then
      restoreFiles config rest restored
    else
      match
        if config.enableEncryption then config.decryptData entry.2
        else .ok entry.2 with
      | .error fault => (.error fault, restored)
      | .ok content =>
        restoreFiles config rest (restored.insert entry.1 content)

/-- The backups of a backup directory by name. -/
abbrev Repository := FiniteMap String BackupTree

/-- What is at the path of a target: nothing, or a directory with files. -/
abbrev Target := Option (FiniteMap RelativePath Bytes)

/--
Restore a backup.  A target that exists is renamed first, which the file system
may refuse, for instance when there is a directory of the new name.
-/
def restoreBackup
    (json : Codec BackupError BackupMetadata) (config : BackupConfig)
    (repository : Repository) (backupId : String) (target : Target)
    (renames : Bool) :
    Except BackupFault Unit × Target :=
  match repository.lookup backupId with
  | none =>
    (.error (.error (.internal ("Backup not found: " ++ backupId))), target)
  | some tree =>
    match tree.readMetadata json with
    | none =>
      (.error (.error (.internal
        ("Backup metadata not found for: " ++ backupId))), target)
    | some (.error cause) => (.error (.error cause), target)
    | some (.ok _) =>
      if target.isSome && !renames then
        (.error (.error .renameRefused), target)
      else
        let (outcome, restored) := restoreFiles config tree.files.entries ∅
        (outcome, some restored)

/-!
## Listing and cleaning up
-/

/-- The loop of `cleanup_old_backups` over the names of the directory. -/
def cleanupOldBackups
    (json : Codec BackupError BackupMetadata) (cutoff : Moment) :
    List String → Repository → Except BackupError Unit × Repository
  | [], repository => (.ok (), repository)
  | name :: rest, repository =>
    match (repository.lookup name).bind (BackupTree.readMetadata json) with
    | none => cleanupOldBackups json cutoff rest repository
    | some (.error cause) => (.error cause, repository)
    | some (.ok metadata) =>
      if metadata.timestamp < cutoff then
        cleanupOldBackups json cutoff rest (repository.erase name)
      else
        cleanupOldBackups json cutoff rest repository

end ChronoDB.Backup
