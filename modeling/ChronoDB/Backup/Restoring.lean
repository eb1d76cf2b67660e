import ChronoDB.Backup.Manager

namespace ChronoDB.Backup

open Library List

/-!
# What one backup gives back

A restore decrypts every copy of a backup but the metadata, whether or not the
copy was encrypted.  So it depends on the content of a file and on the kind of
backup whether the file comes back.
-/

/-!
## Encryption and decryption
-/

theorem stringBytes_eq_nil_iff (text : String) :
    stringBytes text = [] ↔ text = "" := by
  constructor
  · intro noBytes
    apply String.toByteArray_inj.mp
    apply ByteArray.ext
    exact Array.toList_inj.mp noBytes
  · rintro rfl
    rfl

namespace BackupConfig

variable {config : BackupConfig} {content stored : Bytes}

theorem encryptData_of_key
    (enabled : config.enableEncryption = true) {key : String}
    (hasKey : config.encryptionKey = some key) :
    config.encryptData content =
      (combine (stringBytes key) content).map (versionMark :: ·) := by
  rw [encryptData, if_pos enabled, requiredKey, hasKey]
  dsimp only
  cases combine (stringBytes key) content <;> rfl

theorem exists_combine_iff (key : String) (text : Bytes) :
    (∃ combined, combine (stringBytes key) text = .ok combined) ↔
      text = [] ∨ key ≠ "" := by
  have allows := exists_repeatedXor_iff (stringBytes key) text
  rw [Ne, stringBytes_eq_nil_iff] at allows
  rw [← allows, combine]
  cases repeatedXor (stringBytes key) text with
  | none => simp
  | some combined => simp

theorem decryptData_of_encryptData
    (encrypted : config.encryptData content = .ok stored) :
    config.decryptData stored = .ok content := by
  by_cases enabled : config.enableEncryption = true
  · cases hasKey : config.encryptionKey with
    | none =>
      rw [encryptData, if_pos enabled, requiredKey, hasKey] at encrypted
      cases encrypted
    | some key =>
      rw [encryptData_of_key enabled hasKey, combine] at encrypted
      cases isCombined : repeatedXor (stringBytes key) content with
      | none =>
        rw [isCombined] at encrypted
        cases encrypted
      | some combined =>
        rw [isCombined] at encrypted
        cases encrypted
        rw [decryptData, if_pos enabled, requiredKey, hasKey]
        dsimp only
        rw [if_pos rfl, combine, repeatedXor, xorFrom_xorFrom isCombined]
  · rw [encryptData, if_neg enabled] at encrypted
    cases encrypted
    rw [decryptData, if_neg enabled]

/-- Data that was not encrypted survives decryption under this condition. -/
def SurvivesDecryption (config : BackupConfig) (content : Bytes) : Prop :=
  config.enableEncryption = true →
    config.encryptionKey ≠ none ∧ content.head? ≠ some versionMark

theorem decryptData_eq_self_iff :
    config.decryptData content = .ok content ↔
      config.SurvivesDecryption content := by
  rw [SurvivesDecryption]
  by_cases enabled : config.enableEncryption = true
  · rw [decryptData, if_pos enabled, requiredKey]
    cases hasKey : config.encryptionKey with
    | none => simp [enabled]
    | some key =>
      cases content with
      | nil => simp
      | cons first rest =>
        by_cases marked : first = versionMark
        · simp only [marked, if_true, head?_cons, ne_eq,
            not_true_eq_false, and_false, imp_false, enabled, iff_false]
          -- what is decrypted has lost its mark
          intro decrypted
          rw [combine] at decrypted
          cases isCombined : repeatedXor (stringBytes key) rest with
          | none =>
            rw [isCombined] at decrypted
            cases decrypted
          | some combined =>
            rw [isCombined] at decrypted
            cases decrypted
            have sameLength := length_xorFrom isCombined
            rw [length_cons] at sameLength
            omega
        · simp [marked]
  · rw [decryptData, if_neg enabled]
    simp [enabled]

theorem exists_encryptData_iff :
    (∃ stored, config.encryptData content = .ok stored) ↔
      (config.enableEncryption = true →
        ∃ key,
          config.encryptionKey = some key ∧ (content = [] ∨ key ≠ "")) := by
  by_cases enabled : config.enableEncryption = true
  · cases hasKey : config.encryptionKey with
    | none =>
      rw [encryptData, if_pos enabled, requiredKey, hasKey]
      simp [enabled]
    | some key =>
      have allows := exists_combine_iff key content
      rw [encryptData_of_key enabled hasKey]
      simp only [enabled, forall_true_left, Option.some.injEq, exists_eq_left']
      rw [← allows]
      cases combine (stringBytes key) content <;> simp [Except.map]
  · rw [encryptData, if_neg enabled]
    simp [enabled]

theorem encryptData_eq_panic_iff :
    config.encryptData content = .error .panic ↔
      config.enableEncryption = true ∧ config.encryptionKey = some "" ∧
        content ≠ [] := by
  by_cases enabled : config.enableEncryption = true
  · cases hasKey : config.encryptionKey with
    | none =>
      rw [encryptData, if_pos enabled, requiredKey, hasKey]
      simp
    | some key =>
      have allows := exists_combine_iff key content
      rw [encryptData_of_key enabled hasKey]
      simp only [enabled, true_and, Option.some.injEq]
      rw [combine] at allows ⊢
      cases isCombined : repeatedXor (stringBytes key) content with
      | none =>
        rw [isCombined] at allows
        have fails : ¬(content = [] ∨ key ≠ "") := by
          intro succeeds
          obtain ⟨_, isOk⟩ := allows.mpr succeeds
          cases isOk
        rw [not_or, not_not] at fails
        exact iff_of_true rfl ⟨fails.2, fails.1⟩
      | some combined =>
        rw [isCombined] at allows
        have succeeds := allows.mp ⟨combined, rfl⟩
        refine iff_of_false (fun panics => by cases panics) ?_
        rintro ⟨isEmpty, nonempty⟩
        exact succeeds.elim nonempty fun differs => differs isEmpty
  · rw [encryptData, if_neg enabled]
    simp [enabled]

end BackupConfig

/-!
## Restoring the files of a backup
-/

theorem restored_eq_decryptData (config : BackupConfig) (stored : Bytes) :
    (if config.enableEncryption then config.decryptData stored
      else .ok stored) =
      config.decryptData stored := by
  split
  · rfl
  · rename_i disabled
    rw [BackupConfig.decryptData, if_neg disabled]

/-- A restore that can decrypt all copies gives the decrypted ones. -/
theorem restoreFiles_ok
    {config : BackupConfig} {entries : List ((_ : RelativePath) × Bytes)}
    (distinct : entries.NodupKeys)
    (decrypts :
      ∀ entry ∈ entries,
        entry.1 ≠ metadataPath →
          ∃ content, config.decryptData entry.2 = .ok content)
    (start : FiniteMap RelativePath Bytes) :
    ∃ files,
      restoreFiles config entries start = (.ok (), files) ∧
        (∀ path stored,
          path ≠ metadataPath →
            entries.dlookup path = some stored →
              ∃ content,
                config.decryptData stored = .ok content ∧
                  files.lookup path = some content) ∧
          ∀ path,
            path = metadataPath ∨ entries.dlookup path = none →
              files.lookup path = start.lookup path := by
  induction entries generalizing start with
  | nil =>
    refine ⟨start, rfl, ?_, fun _ _ => rfl⟩
    intro path stored _ found
    cases found
  | cons entry rest inductionHypothesis =>
    obtain ⟨firstDecrypts, restDecrypts⟩ := forall_mem_cons.mp decrypts
    obtain ⟨isNew, restDistinct⟩ := nodupKeys_cons.mp distinct
    have absent : rest.dlookup entry.1 = none := dlookup_eq_none.mpr isNew
    rw [restoreFiles]
    by_cases isMetadata : entry.1 = metadataPath
    · rw [if_pos isMetadata]
      obtain ⟨files, restored, copies, others⟩ :=
        inductionHypothesis restDistinct restDecrypts start
      refine ⟨files, restored, ?_, ?_⟩
      · intro path stored notMetadata found
        have differs : path ≠ entry.1 := fun same =>
          notMetadata (same.trans isMetadata)
        rw [dlookup_cons_ne _ _ differs] at found
        exact copies path stored notMetadata found
      · rintro path (same | missing)
        · exact others path (.inl same)
        · by_cases same : path = entry.1
          · exact others path (.inl (same.trans isMetadata))
          · rw [dlookup_cons_ne _ _ same] at missing
            exact others path (.inr missing)
    · obtain ⟨content, decrypted⟩ := firstDecrypts isMetadata
      rw [if_neg isMetadata, restored_eq_decryptData, decrypted]
      obtain ⟨files, restored, copies, others⟩ :=
        inductionHypothesis restDistinct restDecrypts
          (start.insert entry.1 content)
      refine ⟨files, restored, ?_, ?_⟩
      · intro path stored notMetadata found
        by_cases same : path = entry.1
        · subst same
          rw [dlookup_cons_eq] at found
          cases found
          refine ⟨content, decrypted, ?_⟩
          rw [others _ (.inr absent), AList.lookup_insert]
        · rw [dlookup_cons_ne _ _ same] at found
          exact copies path stored notMetadata found
      · intro path missing
        have differs : path ≠ entry.1 := by
          rintro rfl
          rcases missing with same | missing
          · exact isMetadata same
          · rw [dlookup_cons_eq] at missing
            cases missing
        rw [dlookup_cons_ne _ _ differs] at missing
        rw [others path missing, AList.lookup_insert_ne differs]

theorem decrypts_of_restoreFiles
    {config : BackupConfig} {entries : List ((_ : RelativePath) × Bytes)}
    {start files : FiniteMap RelativePath Bytes}
    (restored : restoreFiles config entries start = (.ok (), files)) :
    ∀ entry ∈ entries,
      entry.1 ≠ metadataPath →
        ∃ content, config.decryptData entry.2 = .ok content := by
  induction entries generalizing start with
  | nil =>
    intro entry member
    cases member
  | cons first rest inductionHypothesis =>
    rw [restoreFiles, restored_eq_decryptData] at restored
    rw [forall_mem_cons]
    split at restored
    · rename_i isMetadata
      exact ⟨fun notMetadata => absurd isMetadata notMetadata,
        inductionHypothesis restored⟩
    · split at restored
      · cases restored
      · rename_i content decrypted
        exact ⟨fun _ => ⟨content, decrypted⟩, inductionHypothesis restored⟩

/-- The copies of a backup are decrypted to the files of a data directory. -/
structure GivesBack (config : BackupConfig) (tree : BackupTree)
    (contents : RelativePath → Option Bytes) : Prop where
  copies :
    ∀ path stored,
      path ≠ metadataPath →
        tree.files.lookup path = some stored →
          ∃ content,
            config.decryptData stored = .ok content ∧
              contents path = some content
  complete :
    ∀ path,
      path = metadataPath ∨ tree.files.lookup path = none → contents path = none

/-- A listed backup is restored exactly when its copies give the files back. -/
theorem restores_iff
    {json : Codec BackupError BackupMetadata} {system : BackupSystem}
    {backupId : String} {tree : BackupTree} {metadata : BackupMetadata}
    (known : system.repository.lookup backupId = some tree)
    (hasMetadata : tree.readMetadata json = some (.ok metadata)) :
    system.Restores json backupId ↔
      GivesBack system.manager.config tree (system.taken backupId) := by
  constructor
  · intro restores
    rcases restores none true with ⟨cause, fails⟩ | ⟨files, succeeds, same⟩
    · rw [restoreBackup, known] at fails
      simp only [hasMetadata] at fails
      cases congrArg Prod.snd fails
    · rw [restoreBackup, known] at succeeds
      simp only [hasMetadata] at succeeds
      have restored :
          restoreFiles system.manager.config tree.files.entries ∅ =
            (.ok (), files) := by
        rcases outcome :
            restoreFiles system.manager.config tree.files.entries ∅ with
          ⟨result, left⟩
        rw [outcome] at succeeds
        cases succeeds
        rfl
      obtain ⟨others, again, copies, missing⟩ :=
        restoreFiles_ok tree.files.nodupKeys
          (decrypts_of_restoreFiles restored) ∅
      rw [restored] at again
      cases again
      constructor
      · intro path stored notMetadata found
        obtain ⟨content, decrypted, isContent⟩ :=
          copies path stored notMetadata found
        exact ⟨content, decrypted, by rw [← same, isContent]⟩
      · intro path isMissing
        rw [← same, missing path isMissing, AList.lookup_empty]
  · intro givesBack target renames
    obtain ⟨files, restored, copies, missing⟩ :=
      restoreFiles_ok tree.files.nodupKeys
        (fun entry member notMetadata => by
          obtain ⟨content, decrypted, _⟩ :=
            givesBack.copies entry.1 entry.2 notMetadata
              (AList.mem_lookup_iff.mpr member)
          exact ⟨content, decrypted⟩) ∅
    rw [restoreBackup, known]
    simp only [hasMetadata, restored]
    by_cases refused : (target.isSome && !renames) = true
    · exact .inl ⟨.renameRefused, if_pos refused⟩
    · refine .inr ⟨files, if_neg refused, fun path => ?_⟩
      by_cases isMetadata : path = metadataPath
      · rw [missing path (.inl isMetadata),
          givesBack.complete path (.inl isMetadata), AList.lookup_empty]
      · cases found : tree.files.lookup path with
        | none =>
          rw [missing path (.inr found),
            givesBack.complete path (.inr found), AList.lookup_empty]
        | some stored =>
          obtain ⟨content, decrypted, isContent⟩ :=
            copies path stored isMetadata found
          obtain ⟨same, again, isTaken⟩ :=
            givesBack.copies path stored isMetadata found
          rw [decrypted] at again
          cases again
          rw [isContent, isTaken]

end ChronoDB.Backup
