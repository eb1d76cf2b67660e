import ChronoDB.Backup.Runs
import ChronoDB.Model.Enumerable

namespace ChronoDB.Backup

open Library BackupManager

/-!
# Runs that keep all backups restorable

One lemma says all that a backup can do.  The last backup of a manager has its
metadata, and metadata has the id of its directory as long as no backup
panicked.  Under this invariant a step keeps all backups restorable exactly when
it meets its condition.
-/

variable {json : Codec BackupError BackupMetadata} {minusDays : MinusDays}

theorem readMetadata_of_noFiles
    {tree : BackupTree} (noFiles : tree.files = ∅) (metadata : BackupMetadata) :
    tree.readMetadata json ≠ some (.ok metadata) := by
  rw [BackupTree.readMetadata, noFiles, AList.lookup_empty]
  split
  · intro isError
    cases isError
  · intro isNone
    cases isNone

namespace BackupSystem

variable {system : BackupSystem} {choice : BackupChoice}

structure FinishedAs
    (json : Codec BackupError BackupMetadata) (system : BackupSystem)
    (choice : BackupChoice) (tree : BackupTree)
    (metadata : BackupMetadata) : Prop where
  hasMetadata : tree.readMetadata json = some (.ok metadata)
  sameId : metadata.backupId = choice.backupId
  sameTime : metadata.timestamp = choice.timestamp
  givesBack :
    GivesBack system.manager.config tree system.data.contents ↔
      ∀ path file,
        system.data.files.lookup path = some file →
          system.ComesBack json path file

theorem performBackup_of_covered {copied : Copied}
    (isCopied :
      system.manager.copyBackup json system.repository system.data =
        (.ok (), copied))
    (isDir : copied.tree.isDir metadataPath = true) (minusDays : MinusDays) :
    system.manager.performBackup json minusDays system.repository system.data
          choice =
        (.error (.error .isADirectory), system.manager,
          system.repository.insert choice.backupId copied.tree) ∧
      ∀ metadata, copied.tree.readMetadata json ≠ some (.ok metadata) := by
  constructor
  · rw [performBackup, isCopied]
    dsimp only
    rw [finishBackup_of_isDir isDir]
  · intro metadata
    rw [BackupTree.readMetadata, if_pos isDir]
    intro isError
    cases isError

variable {tree : BackupTree} {metadata : BackupMetadata}

theorem performBackup_of_finished {copied : Copied}
    (isCopied :
      system.manager.copyBackup json system.repository system.data =
        (.ok (), copied))
    (finished :
      system.manager.finishBackup json system.data choice copied = .ok tree)
    {cutoff : Moment}
    (isCutoff :
      minusDays choice.cleanupNow system.manager.config.retentionDays.toInt64 =
        some cutoff) :
    ∃ outcome last,
      system.manager.performBackup json minusDays system.repository
          system.data choice =
        (outcome, { system.manager with lastBackupId := last },
          (cleanupOldBackups json cutoff choice.listing
            (system.repository.insert choice.backupId tree)).2) ∧
        outcome ≠ .error .panic ∧
          (last = system.manager.lastBackupId ∨
            last = some choice.backupId) := by
  rw [performBackup, isCopied]
  dsimp only
  rw [finished]
  dsimp only
  rw [isCutoff]
  dsimp only
  rcases cleanup :
      cleanupOldBackups json cutoff choice.listing
        (system.repository.insert choice.backupId tree) with
    ⟨outcome, left⟩
  cases outcome with
  | error cause =>
    refine ⟨_, system.manager.lastBackupId, rfl, ?_, .inl rfl⟩
    intro isPanic
    cases isPanic
  | ok done =>
    refine ⟨_, some choice.backupId, rfl, ?_, .inr rfl⟩
    intro isPanic
    cases isPanic

/-- What a backup can do. -/
theorem performBackup_cases
    (readsLast :
      ∃ last, system.manager.lastBackupTime json system.repository = .ok last)
    (minusDays : MinusDays) (choice : BackupChoice) :
    (system.EmptyKey ∧
        ∃ tree,
          system.manager.performBackup json minusDays system.repository
              system.data choice =
            (.error .panic, system.manager,
              system.repository.insert choice.backupId tree)) ∨
      (¬ system.EmptyKey ∧ system.Unfinished json ∧
        ∃ cause tree,
          system.manager.performBackup json minusDays system.repository
              system.data choice =
            (.error (.error cause), system.manager,
              system.repository.insert choice.backupId tree) ∧
          ∀ metadata, tree.readMetadata json ≠ some (.ok metadata)) ∨
      ¬ system.EmptyKey ∧ ¬ system.Unfinished json ∧
        ∃ tree metadata,
          system.FinishedAs json choice tree metadata ∧
            (minusDays choice.cleanupNow
                  system.manager.config.retentionDays.toInt64 =
                none →
              system.manager.performBackup json minusDays system.repository
                  system.data choice =
                (.error .panic, system.manager,
                  system.repository.insert choice.backupId tree)) ∧
              ∀ cutoff,
                minusDays choice.cleanupNow
                    system.manager.config.retentionDays.toInt64 =
                  some cutoff →
                ∃ outcome last,
                  system.manager.performBackup json minusDays
                      system.repository system.data choice =
                    (outcome, { system.manager with lastBackupId := last },
                      (cleanupOldBackups json cutoff choice.listing
                        (system.repository.insert choice.backupId tree)).2) ∧
                    outcome ≠ .error .panic ∧
                      (last = system.manager.lastBackupId ∨
                        last = some choice.backupId) := by
  by_cases emptyKey : system.EmptyKey
  · obtain ⟨copied, isCopied⟩ := copyBackup_of_emptyKey readsLast emptyKey
    refine .inl ⟨emptyKey, copied.tree, ?_⟩
    rw [performBackup, isCopied]
  · right
    by_cases lacks : system.Unsupported ∨ system.LacksKey
    · obtain ⟨cause, copied, isCopied, noFiles⟩ :=
        copyBackup_of_lacks readsLast lacks
      refine .inl ⟨emptyKey, ?_, cause, copied.tree, ?_,
        readMetadata_of_noFiles noFiles⟩
      · exact lacks.imp id .inl
      · rw [performBackup, isCopied]
    · obtain ⟨supported, hasKey⟩ := not_or.mp lacks
      obtain ⟨copied, isCopied, from_⟩ :=
        copyBackup_ok readsLast emptyKey supported hasKey
      by_cases covers : system.CoversMetadata json
      · have isDir := from_.covered.mpr covers
        exact .inl ⟨emptyKey, .inr (.inr covers), .isADirectory, copied.tree,
          performBackup_of_covered isCopied isDir minusDays⟩
      · have free : copied.tree.isDir metadataPath = false :=
          Bool.eq_false_iff.mpr fun isDir => covers (from_.covered.mp isDir)
        obtain ⟨tree, metadata, finished, hasMetadata, isId, isTime, beside⟩ :=
          @BackupManager.finishBackup_ok json system.manager system.data
            choice copied free
        have complete : ¬ system.Unfinished json := by
          rintro (unsupported | lacksKey | covered)
          · exact supported unsupported
          · exact hasKey lacksKey
          · exact covers covered
        refine .inr ⟨emptyKey, complete, tree, metadata,
          ⟨hasMetadata, isId, isTime, givesBack_iff_comesBack from_ beside⟩,
          ?_, ?_⟩
        · intro noCutoff
          rw [performBackup, isCopied]
          dsimp only
          rw [finished]
          dsimp only
          rw [noCutoff]
        · intro cutoff isCutoff
          exact performBackup_of_finished isCopied finished isCutoff

/-!
## The invariant
-/

/--
Metadata has the id of its directory, unless a backup panicked, and the last
backup has metadata as long as its directory is there.
-/
structure Consistent (json : Codec BackupError BackupMetadata)
    (system : BackupSystem) : Prop where
  names :
    system.panicked = false →
      ∀ name tree metadata,
        system.repository.lookup name = some tree →
          tree.readMetadata json = some (.ok metadata) →
            metadata.backupId = name
  last :
    ∀ backupId tree,
      system.manager.lastBackupId = some backupId →
        system.repository.lookup backupId = some tree →
          ∃ metadata, tree.readMetadata json = some (.ok metadata)

theorem Consistent.readsLast (consistent : system.Consistent json) :
    ∃ last,
      system.manager.lastBackupTime json system.repository = .ok last := by
  rw [lastBackupTime]
  cases isLast : system.manager.lastBackupId with
  | none => exact ⟨none, rfl⟩
  | some backupId =>
    dsimp only
    cases found : system.repository.lookup backupId with
    | none => exact ⟨none, rfl⟩
    | some tree =>
      obtain ⟨metadata, hasMetadata⟩ :=
        consistent.last backupId tree isLast found
      rw [Option.bind_some, hasMetadata]
      exact ⟨some metadata.timestamp, rfl⟩

/-- Every directory with metadata gives back what was taken under its name. -/
def AllGiveBack
    (json : Codec BackupError BackupMetadata) (system : BackupSystem) :
    Prop :=
  ∀ name tree metadata,
    system.repository.lookup name = some tree →
      tree.readMetadata json = some (.ok metadata) →
        GivesBack system.manager.config tree (system.taken name)

theorem Consistent.restorable_iff (consistent : system.Consistent json) :
    system.Restorable json ↔
      system.panicked = false ∧ system.AllGiveBack json := by
  constructor
  · rintro ⟨noPanic, restores⟩
    refine ⟨noPanic, fun name tree metadata found hasMetadata => ?_⟩
    have isName := consistent.names noPanic name tree metadata found hasMetadata
    have restored := restores metadata ⟨name, tree, found, hasMetadata⟩
    rw [isName] at restored
    exact (restores_iff found hasMetadata).mp restored
  · rintro ⟨noPanic, givesBack⟩
    refine ⟨noPanic, ?_⟩
    rintro metadata ⟨name, tree, found, hasMetadata⟩
    rw [consistent.names noPanic name tree metadata found hasMetadata]
    exact (restores_iff found hasMetadata).mpr
      (givesBack name tree metadata found hasMetadata)

theorem lookup_insert_cases
    {repository : Repository} {backupId name : String} {tree other : BackupTree}
    (found : (repository.insert backupId tree).lookup name = some other) :
    (name = backupId ∧ other = tree) ∨
      name ≠ backupId ∧ repository.lookup name = some other := by
  by_cases same : name = backupId
  · rw [same, AList.lookup_insert] at found
    exact .inl ⟨same, (Option.some.inj found).symm⟩
  · rw [AList.lookup_insert_ne same] at found
    exact .inr ⟨same, found⟩

theorem lookup_cleanup_new
    (finished : system.FinishedAs json choice tree metadata)
    (listing :
      choice.listing.Perm (choice.backupId :: system.repository.keys))
    (isNew : choice.backupId ∉ system.repository) (cutoff : Moment) :
    (cleanupOldBackups json cutoff choice.listing
        (system.repository.insert choice.backupId tree)).2.lookup
        choice.backupId =
      none ↔ system.ExpiresAtOnce json choice cutoff := by
  have distinct : choice.listing.Nodup := by
    rw [listing.nodup_iff, List.nodup_cons]
    exact ⟨isNew, system.repository.keys_nodup⟩
  have listed : choice.backupId ∈ choice.listing :=
    listing.mem_iff.mpr List.mem_cons_self
  rw [lookup_cleanup_eq_none_iff distinct listed (AList.lookup_insert _)
    finished.hasMetadata, finished.sameTime, ExpiresAtOnce]
  refine and_congr_right fun _ => ?_
  refine forall₂_congr fun name member => ?_
  have differs : name ≠ choice.backupId := by
    simpa using List.all_eq_true.mp List.all_takeWhile name member
  rw [Readable, Readable, AList.lookup_insert_ne differs]

def afterBackup (system : BackupSystem) (choice : BackupChoice)
    (lastBackupId : Option String) (repository : Repository) (panicked : Bool) :
    BackupSystem where
  manager := { system.manager with lastBackupId := lastBackupId }
  repository := repository
  data := system.data
  taken := fun backupId =>
    if backupId = choice.backupId then system.data.contents
    else system.taken backupId
  panicked := panicked

@[simp] theorem taken_afterBackup
    (lastBackupId : Option String) (repository : Repository) (panicked : Bool)
    (name : String) :
    (system.afterBackup choice lastBackupId repository panicked).taken name =
      if name = choice.backupId then system.data.contents
      else system.taken name :=
  rfl

theorem Consistent.last_insert (consistent : system.Consistent json)
    (notLast : system.manager.lastBackupId ≠ some choice.backupId)
    {tree other : BackupTree} {backupId : String}
    (isLast : system.manager.lastBackupId = some backupId)
    (found :
      (system.repository.insert choice.backupId tree).lookup backupId =
        some other) :
    ∃ metadata, other.readMetadata json = some (.ok metadata) := by
  rcases lookup_insert_cases found with ⟨rfl, _⟩ | ⟨_, foundBefore⟩
  · exact absurd isLast notLast
  · exact consistent.last backupId other isLast foundBefore

theorem backup_panics (consistent : system.Consistent json)
    (notLast : system.manager.lastBackupId ≠ some choice.backupId)
    (tree : BackupTree) :
    (system.afterBackup choice system.manager.lastBackupId
        (system.repository.insert choice.backupId tree) true).Consistent
        json ∧
      ¬ (system.afterBackup choice system.manager.lastBackupId
        (system.repository.insert choice.backupId tree) true).Restorable
        json := by
  constructor
  · refine ⟨fun noPanic => ?_, fun backupId other => ?_⟩
    · cases noPanic
    · exact consistent.last_insert notLast
  · intro restorable
    cases restorable.noPanic

theorem backup_unfinished
    (consistent : system.Consistent json) (restorable : system.Restorable json)
    (notLast : system.manager.lastBackupId ≠ some choice.backupId)
    (noMetadata :
      ∀ metadata, tree.readMetadata json ≠ some (.ok metadata)) :
    (system.afterBackup choice system.manager.lastBackupId
        (system.repository.insert choice.backupId tree) false).Consistent
        json ∧
      (system.afterBackup choice system.manager.lastBackupId
        (system.repository.insert choice.backupId tree) false).Restorable
        json := by
  obtain ⟨noPanic, givesBack⟩ := consistent.restorable_iff.mp restorable
  have consistentAfter :
      (system.afterBackup choice system.manager.lastBackupId
        (system.repository.insert choice.backupId tree) false).Consistent
        json := by
    refine ⟨fun _ name other otherMetadata found hasMetadata => ?_,
      fun backupId other => consistent.last_insert notLast⟩
    rcases lookup_insert_cases found with ⟨_, rfl⟩ | ⟨_, foundBefore⟩
    · exact absurd hasMetadata (noMetadata otherMetadata)
    · exact consistent.names noPanic name other otherMetadata foundBefore
        hasMetadata
  refine ⟨consistentAfter, consistentAfter.restorable_iff.mpr ⟨rfl, ?_⟩⟩
  intro name other otherMetadata found hasMetadata
  rcases lookup_insert_cases found with ⟨_, rfl⟩ | ⟨differs, foundBefore⟩
  · exact absurd hasMetadata (noMetadata otherMetadata)
  · rw [taken_afterBackup, if_neg differs]
    exact givesBack name other otherMetadata foundBefore hasMetadata

theorem Consistent.backup_finished
    (consistent : system.Consistent json) (noPanic : system.panicked = false)
    (notLast : system.manager.lastBackupId ≠ some choice.backupId)
    (finished : system.FinishedAs json choice tree metadata)
    {last : Option String}
    (isLast :
      last = system.manager.lastBackupId ∨ last = some choice.backupId)
    (cutoff : Moment) :
    (system.afterBackup choice last
      (cleanupOldBackups json cutoff choice.listing
        (system.repository.insert choice.backupId tree)).2
      false).Consistent json := by
  constructor
  · intro _ name other otherMetadata found hasMetadata
    rcases lookup_insert_cases (lookup_of_cleanup found) with
      ⟨rfl, rfl⟩ | ⟨_, foundBefore⟩
    · rw [finished.hasMetadata] at hasMetadata
      cases hasMetadata
      exact finished.sameId
    · exact consistent.names noPanic name other otherMetadata foundBefore
        hasMetadata
  · intro backupId other isLastAfter found
    rcases isLast with rfl | rfl
    · exact consistent.last_insert notLast isLastAfter
        (lookup_of_cleanup found)
    · cases isLastAfter
      rcases lookup_insert_cases (lookup_of_cleanup found) with
        ⟨_, rfl⟩ | ⟨differs, _⟩
      · exact ⟨metadata, finished.hasMetadata⟩
      · exact absurd rfl differs

/--
A finished backup leaves all backups restorable exactly when it expires at once
or gives back every file.
-/
theorem backup_finished_iff
    (consistent : system.Consistent json) (restorable : system.Restorable json)
    (possible : system.Possible (.backup choice))
    (finished : system.FinishedAs json choice tree metadata)
    {last : Option String}
    (isLast :
      last = system.manager.lastBackupId ∨ last = some choice.backupId)
    (cutoff : Moment) :
    (system.afterBackup choice last
        (cleanupOldBackups json cutoff choice.listing
          (system.repository.insert choice.backupId tree)).2
        false).Restorable json ↔
      system.ExpiresAtOnce json choice cutoff ∨
        ∀ path file,
          system.data.files.lookup path = some file →
            system.ComesBack json path file := by
  obtain ⟨isNew, notLast, listing⟩ := possible
  obtain ⟨noPanic, givesBack⟩ := consistent.restorable_iff.mp restorable
  have expires := lookup_cleanup_new finished listing isNew cutoff
  rw [(consistent.backup_finished noPanic notLast finished isLast
    cutoff).restorable_iff]
  constructor
  · rintro ⟨_, allGiveBack⟩
    cases survives :
        (cleanupOldBackups json cutoff choice.listing
          (system.repository.insert choice.backupId tree)).2.lookup
          choice.backupId with
    | none => exact .inl (expires.mp survives)
    | some other =>
      right
      rcases lookup_insert_cases (lookup_of_cleanup survives) with
        ⟨_, rfl⟩ | ⟨differs, _⟩
      · have newGivesBack :=
          allGiveBack _ other metadata survives finished.hasMetadata
        rw [taken_afterBackup, if_pos rfl] at newGivesBack
        exact finished.givesBack.mp newGivesBack
      · exact absurd rfl differs
  · intro keeps
    refine ⟨rfl, ?_⟩
    intro name stored otherMetadata found hasMetadata
    rw [taken_afterBackup]
    rcases lookup_insert_cases (lookup_of_cleanup found) with
      ⟨rfl, rfl⟩ | ⟨differs, foundBefore⟩
    · rw [if_pos rfl]
      rcases keeps with atOnce | comesBack
      · exact absurd found (by rw [afterBackup, expires.mpr atOnce]; simp)
      · exact finished.givesBack.mpr comesBack
    · rw [if_neg differs]
      exact givesBack name stored otherMetadata foundBefore hasMetadata

theorem backup_step_iff
    (consistent : system.Consistent json) (restorable : system.Restorable json)
    (possible : system.Possible (.backup choice)) :
    (system.perform json minusDays (.backup choice)).Consistent json ∧
      ((system.perform json minusDays (.backup choice)).Restorable json ↔
        system.KeepsRestorable json minusDays (.backup choice)) := by
  have notLast := possible.2.1
  have noPanic := restorable.noPanic
  rw [perform, KeepsRestorable, noPanic]
  rcases performBackup_cases consistent.readsLast minusDays choice with
    ⟨emptyKey, tree, performed⟩ |
      ⟨noEmptyKey, unfinished, cause, tree, performed, noMetadata⟩ |
        ⟨noEmptyKey, finishes, tree, metadata, finished, withoutCutoff,
          withCutoff⟩
  · rw [performed]
    obtain ⟨consistentAfter, notRestorable⟩ :=
      backup_panics consistent notLast tree
    exact ⟨consistentAfter,
      iff_of_false notRestorable fun keeps => keeps.1 emptyKey⟩
  · rw [performed]
    obtain ⟨consistentAfter, restorableAfter⟩ :=
      backup_unfinished consistent restorable notLast noMetadata
    exact ⟨consistentAfter,
      iff_of_true restorableAfter ⟨noEmptyKey, .inl unfinished⟩⟩
  · cases isCutoff :
        minusDays choice.cleanupNow
          system.manager.config.retentionDays.toInt64 with
    | none =>
      rw [withoutCutoff isCutoff]
      obtain ⟨consistentAfter, notRestorable⟩ :=
        backup_panics consistent notLast tree
      refine ⟨consistentAfter, iff_of_false notRestorable fun keeps => ?_⟩
      rcases keeps.2 with unfinished | ⟨cutoff, isSome, _⟩
      · exact finishes unfinished
      · cases isSome
    | some cutoff =>
      obtain ⟨outcome, last, performed, notPanic, isLast⟩ :=
        withCutoff cutoff isCutoff
      rw [performed]
      simp only [notPanic, decide_false, Bool.or_false]
      refine ⟨consistent.backup_finished noPanic notLast finished isLast
        cutoff, ?_⟩
      refine (backup_finished_iff consistent restorable possible finished
        isLast cutoff).trans ?_
      constructor
      · intro keeps
        exact ⟨noEmptyKey, .inr ⟨cutoff, rfl, keeps⟩⟩
      · rintro ⟨_, unfinished | ⟨other, isOther, keeps⟩⟩
        · exact absurd unfinished finishes
        · cases isOther
          exact keeps

theorem restorable_step_iff {action : BackupAction} {after : BackupSystem}
    (consistent : system.Consistent json) (restorable : system.Restorable json)
    (step : BackupStep json minusDays system action after) :
    after.Consistent json ∧
      (after.Restorable json ↔
        system.KeepsRestorable json minusDays action) := by
  obtain ⟨possible, rfl⟩ := step
  cases action with
  | change data =>
    exact ⟨⟨consistent.names, consistent.last⟩,
      iff_of_true ⟨restorable.noPanic, restorable.restores⟩ trivial⟩
  | backup choice => exact backup_step_iff consistent restorable possible
  | reopen =>
    refine ⟨⟨consistent.names, ?_⟩,
      iff_of_true ⟨restorable.noPanic, restorable.restores⟩ trivial⟩
    intro backupId tree isLast
    cases isLast

theorem Fresh.consistent (fresh : system.Fresh) : system.Consistent json where
  names := by
    intro _ name tree metadata found
    rw [fresh.noBackup, AList.lookup_empty] at found
    cases found
  last := by
    intro backupId tree isLast
    rw [fresh.noLast] at isLast
    cases isLast

theorem Fresh.restorable (fresh : system.Fresh) : system.Restorable json where
  noPanic := fresh.noPanic
  restores := by
    rintro metadata ⟨name, tree, found, _⟩
    rw [fresh.noBackup, AList.lookup_empty] at found
    cases found

/--
In a run from an empty backup directory no call panics and every listed backup
can be restored, in all states, exactly when every backup meets its condition.
-/
theorem restorable_in_run_iff {actions : List BackupAction}
    {final : BackupSystem} (fresh : system.Fresh)
    (run : Run (BackupStep json minusDays) system actions final) :
    (∀ passed remaining middle,
        actions = passed ++ remaining →
          Run (BackupStep json minusDays) system passed middle →
            middle.Restorable json) ↔
      Run
        (Restrict (BackupStep json minusDays) fun before action =>
          before.KeepsRestorable json minusDays action)
        system actions final := by
  refine
    @Run.always_iff_restrict _ _ (BackupStep json minusDays)
      (fun before action => before.KeepsRestorable json minusDays action)
      (Consistent json) (Restorable json) _ _ _ run ?_ fresh.consistent
      fresh.restorable ?_
  · intro before action after other taken again
    exact taken.2.trans again.2.symm
  · intro before action after consistentBefore restorableBefore step
    exact restorable_step_iff consistentBefore restorableBefore step

/-!
## Two incremental backups
-/

/-- The calendar on moments within its bounds. -/
def calendar : MinusDays :=
  fun now days => some (now - days.toInt * 86400000000000)

/-- The configuration of an incremental backup without encryption. -/
def incremental : BackupConfig where
  backupType := "incremental"
  retentionDays := 7
  storageBackend := "local"
  enableVerification := false
  enableEncryption := false
  encryptionKey := none

def atSecond (seconds : ℤ) : Moment := seconds * 1000000000

/-- A data directory of two files at its top, or of the first of them. -/
def topFiles
    (files : List ((_ : RelativePath) × DataFile)) (distinct : files.keys.Nodup)
    (atTop : ∀ path ∈ files.keys, path.length = 1) :
    DataDir where
  path := "data"
  files := ⟨files, distinct⟩
  separate first inFirst second inSecond below :=
    below.eq_of_length
      ((atTop first inFirst).trans (atTop second inSecond).symm)

def oneFile : DataDir :=
  topFiles [⟨["a"], [7], atSecond 10⟩] (by decide) (by decide)

def twoFiles : DataDir :=
  topFiles [⟨["a"], [7], atSecond 10⟩, ⟨["b"], [8], atSecond 30⟩]
    (by decide) (by decide)

def firstChoice : BackupChoice where
  nowMillis := 19000
  randomSuffix := 7
  timestamp := atSecond 20
  verifiedAt := atSecond 20
  cleanupNow := atSecond 20
  listing := ["backup_19000_7"]

def secondChoice : BackupChoice where
  nowMillis := 39000
  randomSuffix := 5
  timestamp := atSecond 40
  verifiedAt := atSecond 40
  cleanupNow := atSecond 40
  listing := ["backup_19000_7", "backup_39000_5"]

def firstMetadata : BackupMetadata where
  backupId := "backup_19000_7"
  backupType := "incremental"
  timestamp := atSecond 20
  sourceDir := "data"
  storageBackend := "local"
  filesCount := 1
  totalSize := 1
  previousBackupId := none
  verificationStatus := none

def secondMetadata : BackupMetadata where
  backupId := "backup_39000_5"
  backupType := "incremental"
  timestamp := atSecond 40
  sourceDir := "data"
  storageBackend := "local"
  filesCount := 1
  totalSize := 1
  previousBackupId := some "backup_19000_7"
  verificationStatus := none

def firstText : String :=
  "\x7b\n  \"backup_id\": \"backup_19000_7\",\n" ++
    "  \"backup_type\": \"incremental\",\n" ++
    "  \"timestamp\": \"1970-01-01T00:00:20Z\",\n" ++
    "  \"source_dir\": \"data\",\n  \"storage_backend\": \"local\",\n" ++
    "  \"files_count\": 1,\n  \"total_size\": 1,\n" ++
    "  \"previous_backup_id\": null,\n" ++
    "  \"verification_status\": null\n\x7d"

def secondText : String :=
  "\x7b\n  \"backup_id\": \"backup_39000_5\",\n" ++
    "  \"backup_type\": \"incremental\",\n" ++
    "  \"timestamp\": \"1970-01-01T00:00:40Z\",\n" ++
    "  \"source_dir\": \"data\",\n  \"storage_backend\": \"local\",\n" ++
    "  \"files_count\": 1,\n  \"total_size\": 1,\n" ++
    "  \"previous_backup_id\": \"backup_19000_7\",\n" ++
    "  \"verification_status\": null\n\x7d"

deriving instance Encodable for VerificationStatus

deriving instance Encodable for BackupMetadata

def metadataTexts : List (BackupMetadata × Bytes) := [
  (firstMetadata, stringBytes firstText),
  (secondMetadata, stringBytes secondText)
]

theorem escapeFree_metadataTexts :
    ∀ entry ∈ metadataTexts, ∃ first rest,
      entry.2 = first :: rest ∧ first ≠ 0 := by
  simp only [metadataTexts, List.forall_mem_cons, List.not_mem_nil,
    false_imp_iff, implies_true, and_true]
  exact ⟨⟨_, _, rfl, by decide⟩, ⟨_, _, rfl, by decide⟩⟩

theorem prefixFree_metadataTexts :
    ∀ first ∈ metadataTexts, ∀ second ∈ metadataTexts,
      first.2 <+: second.2 → first = second := by
  have firstNotSecond : ¬ stringBytes firstText <+: stringBytes secondText := by
    decide +kernel
  have secondNotFirst : ¬ stringBytes secondText <+: stringBytes firstText := by
    decide +kernel
  simp [metadataTexts, firstNotSecond, secondNotFirst]

/-- A codec that writes the metadata of two backups as the serializer does. -/
def metadataCodec : Codec BackupError BackupMetadata :=
  (Codec.ofEncodable .serialization).tabulate {
    escape := 0
    entries := metadataTexts
    escapeFree := escapeFree_metadataTexts
    prefixFree := prefixFree_metadataTexts
  } .serialization

/-- A manager that was just opened on an empty backup directory. -/
def openedWith (config : BackupConfig) (data : DataDir) : BackupSystem where
  manager := { config := config, lastBackupId := none }
  repository := ∅
  data := data
  taken := fun _ _ => none
  panicked := false

theorem fresh_openedWith (config : BackupConfig) (data : DataDir) :
    (openedWith config data).Fresh :=
  ⟨rfl, rfl, rfl⟩

/-- A first backup of one file, after which the directory gets another one. -/
def firstBackup : List BackupAction :=
  [.backup firstChoice, .change twoFiles]

/-- The first incremental backup holds every file. -/
theorem firstBackup_is_restorable :
    ∃ final,
      Run (BackupStep metadataCodec calendar) (openedWith incremental oneFile)
          firstBackup final ∧
        ∀ passed remaining middle,
          firstBackup = passed ++ remaining →
            Run (BackupStep metadataCodec calendar)
                (openedWith incremental oneFile) passed middle →
              middle.Restorable metadataCodec := by
  have comesBack :
      ∀ path file,
        oneFile.files.lookup path = some file →
          (openedWith incremental oneFile).ComesBack metadataCodec path
            file := by
    intro path file found
    have isOnly := AList.mem_lookup_iff.mp found
    obtain ⟨rfl, same⟩ := Sigma.mk.inj (List.mem_singleton.mp isOnly)
    cases same
    exact ⟨by decide, rfl, fun _ enabled => by cases enabled⟩
  have possible :
      (openedWith incremental oneFile).Possible (.backup firstChoice) :=
    ⟨AList.notMem_empty _, (Option.some_ne_none _).symm, by decide +kernel⟩
  have keeps :
      (openedWith incremental oneFile).KeepsRestorable metadataCodec calendar
        (.backup firstChoice) :=
    ⟨fun emptyKey => absurd emptyKey.1 (by decide),
      .inr ⟨_, rfl, .inr comesBack⟩⟩
  have restricted :
      Run
        (Restrict (BackupStep metadataCodec calendar) fun before action =>
          before.KeepsRestorable metadataCodec calendar action)
        (openedWith incremental oneFile) firstBackup
        (firstBackup.foldl (perform metadataCodec calendar)
          (openedWith incremental oneFile)) :=
    .cons ⟨keeps, possible, rfl⟩ (.cons ⟨trivial, trivial, rfl⟩ (.nil _))
  exact ⟨_, restricted.ofRestrict,
    (restorable_in_run_iff (fresh_openedWith _ _) restricted.ofRestrict).mpr
      restricted⟩

/-- A second backup is taken after the directory got another file. -/
def bothBackups : List BackupAction :=
  firstBackup ++ [.backup secondChoice]

theorem second_backup_lacks_unchanged_file :
    ∃ final,
      Run (BackupStep metadataCodec calendar) (openedWith incremental oneFile)
          bothBackups final ∧
        final.Listed metadataCodec secondMetadata ∧
          (restoreBackup metadataCodec incremental final.repository
              "backup_39000_5" none true).2.map AList.entries =
            some [⟨["b"], [8]⟩] ∧
            final.taken "backup_39000_5" ["a"] = some [7] ∧
              ¬ final.Restorable metadataCodec := by
  let final :=
    bothBackups.foldl (perform metadataCodec calendar)
      (openedWith incremental oneFile)
  have along :
      Along (perform metadataCodec calendar) Possible
        (openedWith incremental oneFile) bothBackups :=
    ⟨⟨by decide +kernel, by decide +kernel, by decide +kernel⟩, trivial,
      ⟨by decide +kernel, by decide +kernel, by decide +kernel⟩, trivial⟩
  have stored :
      ((final.repository.lookup "backup_39000_5").bind
          (BackupTree.readMetadata metadataCodec)).map Except.toOption =
        some (some secondMetadata) := by
    decide +kernel
  have restored :
      (restoreBackup metadataCodec incremental final.repository
          "backup_39000_5" none true).2.map AList.entries =
        some [⟨["b"], [8]⟩] := by
    decide +kernel
  have taken : final.taken "backup_39000_5" ["a"] = some [7] := by
    decide +kernel
  have sameConfig : final.manager.config = incremental := by
    decide +kernel
  have run :
      Run (BackupStep metadataCodec calendar) (openedWith incremental oneFile)
        bothBackups final :=
    Run.ofAlong (fun possible => ⟨possible, rfl⟩) along
  clear_value final
  have listed : final.Listed metadataCodec secondMetadata := by
    obtain ⟨outcome, isOutcome, isSecond⟩ := Option.map_eq_some_iff.mp stored
    obtain ⟨tree, found, hasMetadata⟩ := Option.bind_eq_some_iff.mp isOutcome
    cases outcome with
    | error cause => cases isSecond
    | ok metadata =>
      cases isSecond
      exact ⟨"backup_39000_5", tree, found, hasMetadata⟩
  refine ⟨final, run, listed, restored, taken, fun restorable => ?_⟩
  have restores := restorable.restores secondMetadata listed none true
  rw [sameConfig, show secondMetadata.backupId = "backup_39000_5" from rfl]
    at restores
  rcases restores with ⟨cause, fails⟩ | ⟨files, succeeds, same⟩
  · rw [fails] at restored
    cases restored
  · rw [succeeds] at restored
    have isEntries : files.entries = [⟨["b"], [8]⟩] := Option.some.inj restored
    have kept := same ["a"]
    rw [taken] at kept
    have inEntries := AList.mem_lookup_iff.mp kept
    rw [isEntries] at inEntries
    exact absurd inEntries (by decide)

end BackupSystem

end ChronoDB.Backup
