import ChronoDB.Backup.Copying

namespace ChronoDB.Backup

open Library BackupConfig

/-!
# Which runs keep all backups restorable

A backup step is judged by the state before it: whether the backup panics, comes
to its end, outlives its own clean-up, and takes every file in a form that comes
back.  A run keeps all backups restorable exactly when all of its steps do.
-/

variable {json : Codec BackupError BackupMetadata}

/-!
## Cleaning up
-/

/-- Reading the metadata of a name does not end a clean-up. -/
def Readable (json : Codec BackupError BackupMetadata) (repository : Repository)
    (name : String) :
    Prop :=
  ∀ tree cause,
    repository.lookup name = some tree →
      tree.readMetadata json ≠ some (.error cause)

variable {cutoff : Moment} {listing : List String} {name : String}

theorem lookup_of_cleanup {repository : Repository} {tree : BackupTree}
    (left :
      (cleanupOldBackups json cutoff listing repository).2.lookup name =
        some tree) :
    repository.lookup name = some tree := by
  induction listing generalizing repository with
  | nil => exact left
  | cons first rest inductionHypothesis =>
    rw [cleanupOldBackups] at left
    split at left
    · exact inductionHypothesis left
    · exact left
    · split at left
      · have erased := inductionHypothesis left
        by_cases same : name = first
        · rw [same, AList.lookup_erase] at erased
          cases erased
        · rwa [AList.lookup_erase_ne same] at erased
      · exact inductionHypothesis left

theorem lookup_cleanup_of_notMem
    (unlisted : name ∉ listing) (repository : Repository) :
    (cleanupOldBackups json cutoff listing repository).2.lookup name =
      repository.lookup name := by
  induction listing generalizing repository with
  | nil => rfl
  | cons first rest inductionHypothesis =>
    rw [List.mem_cons, not_or] at unlisted
    rw [cleanupOldBackups]
    split
    · exact inductionHypothesis unlisted.2 repository
    · rfl
    · split
      · rw [inductionHypothesis unlisted.2, AList.lookup_erase_ne unlisted.1]
      · exact inductionHypothesis unlisted.2 repository

/--
A clean-up removes a listed backup exactly when the backup is old enough and the
clean-up gets as far.
-/
theorem lookup_cleanup_eq_none_iff
    {repository : Repository} {tree : BackupTree} {metadata : BackupMetadata}
    (distinct : listing.Nodup) (listed : name ∈ listing)
    (known : repository.lookup name = some tree)
    (hasMetadata : tree.readMetadata json = some (.ok metadata)) :
    (cleanupOldBackups json cutoff listing repository).2.lookup name = none ↔
      metadata.timestamp < cutoff ∧
        ∀ other ∈ listing.takeWhile (· ≠ name),
          Readable json repository other := by
  induction listing generalizing repository with
  | nil => cases listed
  | cons first rest inductionHypothesis =>
    obtain ⟨isNew, restDistinct⟩ := List.nodup_cons.mp distinct
    by_cases same : first = name
    · subst same
      rw [cleanupOldBackups, known, Option.bind_some, hasMetadata,
        List.takeWhile_cons_of_neg (by simp)]
      dsimp only
      by_cases expired : metadata.timestamp < cutoff
      · rw [if_pos expired, lookup_cleanup_of_notMem isNew, AList.lookup_erase]
        simp [expired]
      · rw [if_neg expired, lookup_cleanup_of_notMem isNew, known]
        simp [expired]
    · have inRest : name ∈ rest :=
        (List.mem_cons.mp listed).resolve_left fun isFirst =>
          same isFirst.symm
      rw [cleanupOldBackups, List.takeWhile_cons_of_pos (by simpa using same),
        List.forall_mem_cons]
      cases read :
          (repository.lookup first).bind (BackupTree.readMetadata json) with
      | none =>
        have readable : Readable json repository first := by
          intro other cause found isError
          rw [found, Option.bind_some, isError] at read
          cases read
        rw [and_iff_right readable]
        exact inductionHypothesis restDistinct inRest known
      | some outcome =>
        obtain ⟨firstTree, foundFirst, firstRead⟩ :=
          Option.bind_eq_some_iff.mp read
        cases outcome with
        | error cause =>
          refine iff_of_false (fun removed => ?_) ?_
          · rw [known] at removed
            cases removed
          · rintro ⟨_, readable, _⟩
            exact readable firstTree cause foundFirst firstRead
        | ok firstMetadata =>
          have readable : Readable json repository first := by
            intro other cause found isError
            rw [foundFirst] at found
            cases found
            rw [firstRead] at isError
            cases isError
          rw [and_iff_right readable]
          dsimp only
          split
          · have kept :
                (repository.erase first).lookup name = some tree := by
              rwa [AList.lookup_erase_ne fun isFirst =>
                same isFirst.symm]
            rw [inductionHypothesis restDistinct inRest kept]
            refine and_congr_right fun _ => ?_
            refine forall₂_congr fun other member => ?_
            have differs : other ≠ first := by
              rintro rfl
              exact isNew ((List.takeWhile_prefix _).subset member)
            rw [Readable, Readable, AList.lookup_erase_ne differs]
          · exact inductionHypothesis restDistinct inRest known

/-!
## The conditions of a backup
-/

namespace BackupSystem

variable (json) (system : BackupSystem)

def copies (file : DataFile) : Bool :=
  if system.manager.config.backupType = "full" then
    true
  else
    match system.manager.lastBackupTime json system.repository with
    | .error _ => false
    | .ok last => modifiedAfter last file

/-- The form in which a file is copied. -/
def encoding : Bytes → Except BackupFault Bytes :=
  if system.manager.config.backupType = "full" then
    system.manager.config.encryptData
  else
    .ok

def Unsupported : Prop :=
  system.manager.config.backupType ≠ "full" ∧
    system.manager.config.backupType ≠ "incremental"

/-- There are files to encrypt, and no key. -/
def LacksKey : Prop :=
  system.manager.config.backupType = "full" ∧
    system.manager.config.enableEncryption = true ∧
      system.manager.config.encryptionKey = none ∧
        ∃ path file, system.data.files.lookup path = some file

/-- There are bytes to encrypt, and the key is empty. -/
def EmptyKey : Prop :=
  system.manager.config.backupType = "full" ∧
    system.manager.config.enableEncryption = true ∧
      system.manager.config.encryptionKey = some "" ∧
        ∃ path file,
          system.data.files.lookup path = some file ∧ file.content ≠ []

/-- A file that is copied lies below the path of the metadata. -/
def CoversMetadata : Prop :=
  ∃ path file,
    system.data.files.lookup path = some file ∧
      system.copies json file = true ∧ BelowMetadata path

/-- A backup fails before its metadata is saved. -/
def Unfinished : Prop :=
  system.Unsupported ∨ system.LacksKey ∨ system.CoversMetadata json

/-- A backup is removed by its own clean-up. -/
def ExpiresAtOnce (choice : BackupChoice) (cutoff : Moment) : Prop :=
  choice.timestamp < cutoff ∧
    ∀ name ∈ choice.listing.takeWhile (· ≠ choice.backupId),
      Readable json system.repository name

/-- A file is copied in a form that comes back. -/
structure ComesBack (path : RelativePath) (file : DataFile) : Prop where
  notMetadata : path ≠ metadataPath
  copied : system.copies json file = true
  survives :
    system.manager.config.backupType ≠ "full" →
      system.manager.config.SurvivesDecryption file.content

/--
A backup does not panic, and if it is finished and outlives its own clean-up
every file of the data directory comes back.
-/
def KeepsRestorable (minusDays : MinusDays) : BackupAction → Prop
  | .change _ => True
  | .backup choice =>
    ¬ system.EmptyKey ∧
      (system.Unfinished json ∨
        ∃ cutoff,
          minusDays choice.cleanupNow
              system.manager.config.retentionDays.toInt64 =
            some cutoff ∧
          (system.ExpiresAtOnce json choice cutoff ∨
            ∀ path file,
              system.data.files.lookup path = some file →
                system.ComesBack json path file))
  | .reopen => True

end BackupSystem

/-!
## Copying the files of a system
-/

namespace BackupSystem

variable {system : BackupSystem}

theorem copyBackup_eq
    (readsLast :
      ∃ last, system.manager.lastBackupTime json system.repository = .ok last)
    (supported : ¬ system.Unsupported) :
    system.manager.copyBackup json system.repository system.data =
      copyFiles (system.copies json) system.encoding
        system.data.files.entries .start := by
  obtain ⟨last, isLast⟩ := readsLast
  rw [BackupManager.copyBackup]
  by_cases full : system.manager.config.backupType = "full"
  · have copiesAll : system.copies json = fun _ => true := by
      funext file
      rw [copies, if_pos full]
    rw [if_pos full, performFullBackup_eq, copiesAll, encoding, if_pos full]
  · have incremental :
        system.manager.config.backupType = "incremental" := by
      by_contra differs
      exact supported ⟨full, differs⟩
    have copiesLater : system.copies json = modifiedAfter last := by
      funext file
      rw [copies, if_neg full, isLast]
    rw [if_neg full, if_pos incremental, isLast, copiesLater, encoding,
      if_neg full]
    rfl

theorem fault_of_encryptData
    {config : BackupConfig} {content : Bytes} {fault : BackupFault}
    (failed : config.encryptData content = .error fault) :
    (config.encryptionKey = none ∧ ∃ cause, fault = .error cause) ∨
      config.encryptionKey ≠ none ∧ fault = .panic := by
  by_cases enabled : config.enableEncryption = true
  · cases hasKey : config.encryptionKey with
    | none =>
      rw [encryptData, if_pos enabled,
        requiredKey, hasKey] at failed
      cases failed
      exact .inl ⟨rfl, _, rfl⟩
    | some key =>
      rw [encryptData_of_key enabled hasKey,
        combine] at failed
      cases combined : repeatedXor (stringBytes key) content with
      | none =>
        rw [combined] at failed
        cases failed
        exact .inr ⟨Option.some_ne_none key, rfl⟩
      | some text =>
        rw [combined] at failed
        cases failed
  · rw [encryptData, if_neg enabled] at failed
    cases failed

theorem copyBackup_of_emptyKey
    (readsLast :
      ∃ last, system.manager.lastBackupTime json system.repository = .ok last)
    (emptyKey : system.EmptyKey) :
    ∃ copied,
      system.manager.copyBackup json system.repository system.data =
        (.error .panic, copied) := by
  obtain ⟨full, enabled, hasKey, path, file, found, nonempty⟩ := emptyKey
  have isEncoding : system.encoding = system.manager.config.encryptData := by
    rw [encoding, if_pos full]
  have panics : system.encoding file.content = .error .panic := by
    rw [isEncoding]
    exact encryptData_eq_panic_iff.mpr ⟨enabled, hasKey, nonempty⟩
  have selected : system.copies json file = true := by
    rw [copies, if_pos full]
  obtain ⟨first, copied, isCopied, other, _, failed⟩ :=
    @copyFiles_error (system.copies json) system.encoding _ _
      (AList.mem_lookup_iff.mp found) selected _ panics .start
  rw [isEncoding] at failed
  rcases fault_of_encryptData failed with ⟨noKey, _⟩ | ⟨_, rfl⟩
  · rw [noKey] at hasKey
    cases hasKey
  · rw [copyBackup_eq readsLast fun unsupported => unsupported.1 full]
    exact ⟨copied, isCopied⟩

theorem copyBackup_of_lacks
    (readsLast :
      ∃ last, system.manager.lastBackupTime json system.repository = .ok last)
    (lacks : system.Unsupported ∨ system.LacksKey) :
    ∃ cause copied,
      system.manager.copyBackup json system.repository system.data =
          (.error (.error cause), copied) ∧
        copied.tree.files = ∅ := by
  rcases lacks with ⟨notFull, notIncremental⟩ |
    ⟨full, enabled, noKey, path, file, found⟩
  · rw [BackupManager.copyBackup, if_neg notFull, if_neg notIncremental]
    exact ⟨_, _, rfl, rfl⟩
  · have isEncoding :
        system.encoding = system.manager.config.encryptData := by
      rw [encoding, if_pos full]
    have fails :
        ∀ content,
          system.encoding content =
            .error (.error (.internal "Encryption key is required")) := by
      intro content
      rw [isEncoding, encryptData, if_pos enabled,
        requiredKey, noKey]
    have selected : system.copies json file = true := by
      rw [copies, if_pos full]
    obtain ⟨first, copied, isCopied, other, _, failed⟩ :=
      @copyFiles_error (system.copies json) system.encoding _ _
        (AList.mem_lookup_iff.mp found) selected _ (fails file.content) .start
    have noFile :=
      @files_copyFiles_of_error (system.copies json) system.encoding
        system.data.files.entries (fun content => ⟨_, fails content⟩) .start
    rw [fails] at failed
    cases failed
    rw [isCopied] at noFile
    rw [copyBackup_eq readsLast fun unsupported => unsupported.1 full]
    exact ⟨_, copied, isCopied, noFile⟩

theorem copyBackup_ok
    (readsLast :
      ∃ last, system.manager.lastBackupTime json system.repository = .ok last)
    (noEmptyKey : ¬ system.EmptyKey) (supported : ¬ system.Unsupported)
    (hasKey : ¬ system.LacksKey) :
    ∃ copied,
      system.manager.copyBackup json system.repository system.data =
          (.ok (), copied) ∧
        CopiedFrom system.data (system.copies json) system.encoding copied := by
  rw [copyBackup_eq readsLast supported]
  apply exists_copiedFrom
  intro path file found _
  rw [encoding]
  split
  · rename_i full
    apply exists_encryptData_iff.mpr
    intro enabled
    cases isKey : system.manager.config.encryptionKey with
    | none => exact absurd ⟨full, enabled, isKey, path, file, found⟩ hasKey
    | some key =>
      refine ⟨key, rfl, ?_⟩
      by_contra fails
      rw [not_or, not_not] at fails
      obtain ⟨nonempty, rfl⟩ := fails
      exact noEmptyKey ⟨full, enabled, isKey, path, file, found, nonempty⟩
  · exact ⟨file.content, rfl⟩

theorem givesBack_iff_comesBack {copied : Copied} {tree : BackupTree}
    (from_ :
      CopiedFrom system.data (system.copies json) system.encoding copied)
    (beside :
      ∀ path,
        path ≠ metadataPath →
          tree.files.lookup path = copied.tree.files.lookup path) :
    GivesBack system.manager.config tree system.data.contents ↔
      ∀ path file,
        system.data.files.lookup path = some file →
          system.ComesBack json path file := by
  rw [givesBack_iff from_ beside]
  refine forall₃_congr fun path file _ => ?_
  by_cases full : system.manager.config.backupType = "full"
  · rw [encoding, if_pos full]
    constructor
    · rintro ⟨notMetadata, copied, _⟩
      exact ⟨notMetadata, copied, fun notFull => absurd full notFull⟩
    · intro comesBack
      exact ⟨comesBack.notMetadata, comesBack.copied, fun _ =>
        decryptData_of_encryptData⟩
  · rw [encoding, if_neg full]
    simp only [Except.ok.injEq, forall_eq']
    rw [decryptData_eq_self_iff]
    constructor
    · rintro ⟨notMetadata, copied, survives⟩
      exact ⟨notMetadata, copied, fun _ => survives⟩
    · intro comesBack
      exact ⟨comesBack.notMetadata, comesBack.copied, comesBack.survives full⟩

end BackupSystem

end ChronoDB.Backup
