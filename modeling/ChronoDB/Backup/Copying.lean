import ChronoDB.Backup.Restoring

namespace ChronoDB.Backup

open Library List BackupTree

/-!
# What one backup takes

A backup that comes to its end holds a copy of every selected file, under the
path of the file.  The metadata is written over a copy at its own path, and
cannot be written when a copy lies below that path.
-/

section Copying

variable {select : DataFile → Bool}
variable {encode : Bytes → Except BackupFault Bytes}
variable {entries : List ((_ : RelativePath) × DataFile)}

/-- The copies of some files are in a tree, beside what it held before. -/
structure AddsCopies
    (select : DataFile → Bool) (encode : Bytes → Except BackupFault Bytes)
    (entries : List ((_ : RelativePath) × DataFile))
    (before after : BackupTree) :
    Prop where
  copies :
    ∀ path file,
      entries.dlookup path = some file →
        select file = true →
          ∃ stored,
            encode file.content = .ok stored ∧
              after.files.lookup path = some stored
  others :
    ∀ path,
      (∀ file, entries.dlookup path = some file → select file = false) →
        after.files.lookup path = before.files.lookup path
  dirs :
    ∀ dir,
      dir ∈ after.dirs ↔
        dir ∈ before.dirs ∨
          ∃ entry ∈ entries, select entry.2 = true ∧ dir = entry.1.dropLast

section Steps

variable {entry : (_ : RelativePath) × DataFile}
variable {rest : List ((_ : RelativePath) × DataFile)}
variable {before after : BackupTree}

theorem addsCopies_nil : AddsCopies select encode [] before before where
  copies := by
    intro path file found
    cases found
  others _ _ := rfl
  dirs _ := by simp

theorem AddsCopies.cons_selected
    (isNew : rest.dlookup entry.1 = none) (selected : select entry.2 = true)
    {stored : Bytes} (encoded : encode entry.2.content = .ok stored)
    (adds :
      AddsCopies select encode rest
        ((before.createDirAll entry.1.dropLast).writeFile entry.1 stored)
        after) :
    AddsCopies select encode (entry :: rest) before after where
  copies := by
    intro path file found isSelected
    by_cases same : path = entry.1
    · subst same
      rw [dlookup_cons_eq] at found
      cases found
      have unchanged := adds.others entry.1 fun file again => by
        rw [isNew] at again
        cases again
      refine ⟨stored, encoded, ?_⟩
      rw [unchanged, writeFile, AList.lookup_insert]
    · rw [dlookup_cons_ne _ _ same] at found
      exact adds.copies path file found isSelected
  others := by
    intro path unselected
    have differs : path ≠ entry.1 := by
      rintro rfl
      have isFalse := unselected entry.2 (dlookup_cons_eq ..)
      rw [selected] at isFalse
      cases isFalse
    have unchanged := adds.others path fun file found =>
      unselected file (by rwa [dlookup_cons_ne _ _ differs])
    rw [unchanged, writeFile, AList.lookup_insert_ne differs]
    rfl
  dirs := by
    intro dir
    rw [adds.dirs]
    simp only [writeFile, createDirAll, mem_cons,
      exists_eq_or_imp, selected, true_and]
    rw [or_comm (a := dir = _), or_assoc]

theorem AddsCopies.cons_skipped
    (isNew : rest.dlookup entry.1 = none) (skipped : select entry.2 = false)
    (adds : AddsCopies select encode rest before after) :
    AddsCopies select encode (entry :: rest) before after where
  copies := by
    intro path file found isSelected
    by_cases same : path = entry.1
    · subst same
      rw [dlookup_cons_eq] at found
      cases found
      rw [skipped] at isSelected
      cases isSelected
    · rw [dlookup_cons_ne _ _ same] at found
      exact adds.copies path file found isSelected
  others := by
    intro path unselected
    apply adds.others path
    intro file found
    by_cases same : path = entry.1
    · rw [same, isNew] at found
      cases found
    · apply unselected file
      rwa [dlookup_cons_ne _ _ same]
  dirs := by
    intro dir
    rw [adds.dirs]
    simp [skipped]

end Steps

theorem copyFiles_ok (distinct : entries.NodupKeys)
    (encodes :
      ∀ entry ∈ entries,
        select entry.2 = true → ∃ stored, encode entry.2.content = .ok stored)
    (start : Copied) :
    ∃ copied,
      copyFiles select encode entries start = (.ok (), copied) ∧
        AddsCopies select encode entries start.tree copied.tree := by
  induction entries generalizing start with
  | nil => exact ⟨start, rfl, addsCopies_nil⟩
  | cons entry rest inductionHypothesis =>
    obtain ⟨firstEncodes, restEncodes⟩ := forall_mem_cons.mp encodes
    obtain ⟨isNew, restDistinct⟩ := nodupKeys_cons.mp distinct
    have absent : rest.dlookup entry.1 = none := dlookup_eq_none.mpr isNew
    rw [copyFiles]
    cases selected : select entry.2 with
    | true =>
      obtain ⟨stored, encoded⟩ := firstEncodes selected
      rw [if_pos rfl, encoded]
      obtain ⟨copied, isCopied, adds⟩ :=
        inductionHypothesis restDistinct restEncodes {
          tree :=
            (start.tree.createDirAll entry.1.dropLast).writeFile entry.1 stored
          filesCount := start.filesCount + 1
          totalSize := start.totalSize + entry.2.content.length
        }
      exact ⟨copied, isCopied, adds.cons_selected absent selected encoded⟩
    | false =>
      rw [if_neg Bool.false_ne_true]
      obtain ⟨copied, isCopied, adds⟩ :=
        inductionHypothesis restDistinct restEncodes start
      exact ⟨copied, isCopied, adds.cons_skipped absent selected⟩

theorem copyFiles_error
    {entry : (_ : RelativePath) × DataFile} (member : entry ∈ entries)
    (selected : select entry.2 = true) {fault : BackupFault}
    (failed : encode entry.2.content = .error fault) (start : Copied) :
    ∃ first copied,
      copyFiles select encode entries start = (.error first, copied) ∧
        ∃ other ∈ entries, encode other.2.content = .error first := by
  induction entries generalizing start with
  | nil => cases member
  | cons head rest inductionHypothesis =>
    rw [copyFiles]
    by_cases headSelected : select head.2 = true
    · rw [if_pos headSelected]
      cases encoded : encode head.2.content with
      | error first => exact ⟨first, _, rfl, head, mem_cons_self, encoded⟩
      | ok stored =>
        rcases mem_cons.mp member with rfl | inRest
        · rw [encoded] at failed
          cases failed
        · obtain ⟨first, copied, isCopied, other, isOther, otherFails⟩ :=
            inductionHypothesis inRest _
          exact ⟨first, copied, isCopied, other,
            mem_cons_of_mem _ isOther, otherFails⟩
    · rw [if_neg headSelected]
      rcases mem_cons.mp member with rfl | inRest
      · exact absurd selected headSelected
      · obtain ⟨first, copied, isCopied, other, isOther, otherFails⟩ :=
          inductionHypothesis inRest start
        exact ⟨first, copied, isCopied, other,
          mem_cons_of_mem _ isOther, otherFails⟩

theorem files_copyFiles_of_error
    (fails : ∀ content, ∃ fault, encode content = .error fault)
    (start : Copied) :
    (copyFiles select encode entries start).2.tree.files =
      start.tree.files := by
  induction entries generalizing start with
  | nil => rfl
  | cons head rest inductionHypothesis =>
    rw [copyFiles]
    split
    · obtain ⟨fault, failed⟩ := fails head.2.content
      rw [failed]
      rfl
    · exact inductionHypothesis start

end Copying

theorem performFullBackup_eq (config : BackupConfig) (data : DataDir) :
    performFullBackup config data =
      copyFiles (fun _ => true) config.encryptData data.files.entries
        .start := by
  rw [performFullBackup]
  split
  · rfl
  · rename_i disabled
    have same : config.encryptData = .ok := by
      funext content
      rw [BackupConfig.encryptData, if_neg disabled]
    rw [same]

/-!
## Finishing a backup
-/

/-- A file lies below the path of the metadata. -/
def BelowMetadata (path : RelativePath) : Prop :=
  metadataPath <+: path.dropLast

/-- What was copied is described by the selection and the encoding. -/
structure CopiedFrom (data : DataDir) (select : DataFile → Bool)
    (encode : Bytes → Except BackupFault Bytes)
    (copied : Copied) : Prop where
  copies :
    ∀ path file,
      data.files.lookup path = some file →
        select file = true →
          ∃ stored,
            encode file.content = .ok stored ∧
              copied.tree.files.lookup path = some stored
  others :
    ∀ path,
      (∀ file, data.files.lookup path = some file → select file = false) →
        copied.tree.files.lookup path = none
  covered :
    copied.tree.isDir metadataPath = true ↔
      ∃ path file,
        data.files.lookup path = some file ∧ select file = true ∧
          BelowMetadata path

theorem exists_copiedFrom {data : DataDir} {select : DataFile → Bool}
    {encode : Bytes → Except BackupFault Bytes}
    (encodes :
      ∀ path file,
        data.files.lookup path = some file →
          select file = true → ∃ stored, encode file.content = .ok stored) :
    ∃ copied,
      copyFiles select encode data.files.entries .start = (.ok (), copied) ∧
        CopiedFrom data select encode copied := by
  obtain ⟨copied, isCopied, adds⟩ :=
    copyFiles_ok data.files.nodupKeys
      (fun entry member selected =>
        encodes entry.1 entry.2 (AList.mem_lookup_iff.mpr member) selected)
      .start
  refine ⟨copied, isCopied, adds.copies, adds.others, ?_⟩
  rw [isDir, any_eq_true]
  constructor
  · rintro ⟨dir, isDir, below⟩
    rcases (adds.dirs dir).mp isDir with atStart | ⟨entry, member, selected, rfl⟩
    · cases atStart
    · exact ⟨entry.1, entry.2, AList.mem_lookup_iff.mpr member, selected,
        isPrefixOf_iff_prefix.mp below⟩
  · rintro ⟨path, file, found, selected, below⟩
    refine ⟨path.dropLast, (adds.dirs _).mpr (.inr ?_),
      isPrefixOf_iff_prefix.mpr below⟩
    exact ⟨⟨path, file⟩, AList.mem_lookup_iff.mp found, selected, rfl⟩

namespace BackupManager

variable {json : Codec BackupError BackupMetadata}
variable {manager : BackupManager} {data : DataDir}
variable {choice : BackupChoice} {copied : Copied}

theorem finishBackup_of_isDir
    (covered : copied.tree.isDir metadataPath = true) :
    manager.finishBackup json data choice copied = .error .isADirectory := by
  rw [finishBackup, saveMetadata, if_pos covered]

theorem finishBackup_ok (free : copied.tree.isDir metadataPath = false) :
    ∃ tree metadata,
      manager.finishBackup json data choice copied = .ok tree ∧
        tree.readMetadata json = some (.ok metadata) ∧
          metadata.backupId = choice.backupId ∧
            metadata.timestamp = choice.timestamp ∧
              ∀ path,
                path ≠ metadataPath →
                  tree.files.lookup path = copied.tree.files.lookup path := by
  have notCovered : ¬ copied.tree.isDir metadataPath = true := by
    rw [free]
    exact Bool.false_ne_true
  have saves :
      ∀ (tree : BackupTree) (metadata : BackupMetadata),
        tree.isDir metadataPath = false →
          tree.saveMetadata json metadata =
            .ok (tree.writeFile metadataPath (json.encode metadata)) := by
    intro tree metadata isFree
    rw [saveMetadata, isFree, if_neg Bool.false_ne_true]
  have reads :
      ∀ (tree : BackupTree) (metadata : BackupMetadata),
        tree.isDir metadataPath = false →
          (tree.writeFile metadataPath
              (json.encode metadata)).readMetadata json =
            some (.ok metadata) := by
    intro tree metadata isFree
    rw [readMetadata,
      show (tree.writeFile metadataPath
          (json.encode metadata)).isDir metadataPath = false from isFree,
      if_neg Bool.false_ne_true, writeFile, AList.lookup_insert,
      Option.map_some, json.decode_encode]
  rw [finishBackup, saves _ _ free]
  dsimp only
  split
  · refine ⟨_, _, saves _ _ free, reads _ _ free, rfl, rfl,
      fun path differs => ?_⟩
    rw [writeFile, AList.lookup_insert_ne differs,
      writeFile, AList.lookup_insert_ne differs]
  · refine ⟨_, _, rfl, reads _ _ free, rfl, rfl, fun path differs => ?_⟩
    rw [writeFile, AList.lookup_insert_ne differs]

end BackupManager

/--
A finished backup gives the data directory back exactly when every file of it
has another path than the metadata, was selected and survives its encoding.
-/
theorem givesBack_iff
    {config : BackupConfig} {data : DataDir} {select : DataFile → Bool}
    {encode : Bytes → Except BackupFault Bytes} {copied : Copied}
    {tree : BackupTree} (from_ : CopiedFrom data select encode copied)
    (beside :
      ∀ path,
        path ≠ metadataPath →
          tree.files.lookup path = copied.tree.files.lookup path) :
    GivesBack config tree data.contents ↔
      ∀ path file,
        data.files.lookup path = some file →
          path ≠ metadataPath ∧ select file = true ∧
            ∀ stored,
              encode file.content = .ok stored →
                config.decryptData stored = .ok file.content := by
  constructor
  · intro givesBack path file found
    have isContent : data.contents path = some file.content := by
      rw [DataDir.contents, found, Option.map_some]
    have notMetadata : path ≠ metadataPath := by
      intro same
      rw [givesBack.complete path (.inl same)] at isContent
      cases isContent
    have selected : select file = true := by
      cases isSelected : select file with
      | true => rfl
      | false =>
        have absent :=
          from_.others path fun other foundOther => by
            rw [found] at foundOther
            cases foundOther
            exact isSelected
        rw [← beside path notMetadata] at absent
        rw [givesBack.complete path (.inr absent)] at isContent
        cases isContent
    refine ⟨notMetadata, selected, fun stored encoded => ?_⟩
    obtain ⟨other, encodedOther, isStored⟩ :=
      from_.copies path file found selected
    rw [encoded] at encodedOther
    cases encodedOther
    rw [← beside path notMetadata] at isStored
    obtain ⟨content, decrypted, isTaken⟩ :=
      givesBack.copies path stored notMetadata isStored
    rw [isContent] at isTaken
    cases isTaken
    exact decrypted
  · intro comesBack
    constructor
    · intro path stored notMetadata isStored
      rw [beside path notMetadata] at isStored
      cases found : data.files.lookup path with
      | none =>
        rw [from_.others path fun file foundFile =>
          nomatch found.symm.trans foundFile] at isStored
        cases isStored
      | some file =>
        obtain ⟨_, selected, decrypts⟩ := comesBack path file found
        obtain ⟨other, encoded, isOther⟩ :=
          from_.copies path file found selected
        rw [isStored] at isOther
        cases isOther
        refine ⟨file.content, decrypts stored encoded, ?_⟩
        rw [DataDir.contents, found, Option.map_some]
    · intro path missing
      cases found : data.files.lookup path with
      | none => rw [DataDir.contents, found, Option.map_none]
      | some file =>
        obtain ⟨notMetadata, selected, _⟩ := comesBack path file found
        obtain ⟨stored, _, isStored⟩ := from_.copies path file found selected
        rw [← beside path notMetadata] at isStored
        rcases missing with same | absent
        · exact absurd same notMetadata
        · rw [isStored] at absent
          cases absent

end ChronoDB.Backup
