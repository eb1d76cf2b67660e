import ChronoDB.Migration.Csv
import ChronoDB.Migration.Migrator

namespace ChronoDB.Migration

open Library Memstore Wal Columnstore List HeadBlock ExportTimeSeries

/-!
# Which exports can be imported without loss

An import yields what was exported when the range asks for no averaging of the
samples, or averages and moves none of them, when the new store has room for all
series, and, for a file of lines, when the only series has the name of the metric
as its only label and no separator is in it.
-/

/-- What an export is asked for. -/
structure Request where
  metric : String
  start : Timestamp
  stop : Timestamp
  deriving Repr, DecidableEq

namespace Request

/-- The level of the query that an export makes. -/
def level (request : Request) : DownsampleLevel :=
  MemStore.autoSelectDownsampleLevel request.start request.stop

/-- The series that an export gets from the store. -/
def read (request : Request) (store : MemStore) : List TimeSeries :=
  store.query [("__name__", request.metric)] request.start request.stop

/--
The part of a series that the request is about: its samples in the range, if it
has the name of the metric and there are such samples.
-/
def selected (request : Request) (store : MemStore) (seriesId : TimeSeriesId) :
    Option TimeSeries :=
  match store.getSeries seriesId with
  | none => none
  | some ts =>
    let samples := ts.samples.filter (Sample.inRange request.start request.stop)
    if ⟨"__name__", request.metric⟩ ∈ ts.labels ∧ samples ≠ [] then
      some { ts with samples := samples }
    else
      none

def selectedIds (request : Request) (store : MemStore) : List TimeSeriesId :=
  store.head.series.keys.filter fun seriesId =>
    (request.selected store seriesId).isSome

/-- Every selected series has the name as its only label, in plain text. -/
def NameOnly (request : Request) (store : MemStore) : Prop :=
  ∀ seriesId ts,
    request.selected store seriesId = some ts →
      ts.labels = [⟨"__name__", request.metric⟩] ∧ Plain request.metric.toList

/-- The data that an export writes. -/
def data (request : Request) (store : MemStore) : ExportData :=
  exportData request.metric request.start request.stop (request.read store)

end Request

/-- Two series with the same label set and the same samples. -/
def SameSeries (first second : TimeSeries) : Prop :=
  first.labels.Perm second.labels ∧ first.samples.Perm second.samples

/-- An import returns `Ok` and yields exactly what the request is about. -/
def Lossless (request : Request) (source : MemStore)
    (imported : Except MigrationError MigrationStats × MemStore) :
    Prop :=
  (∃ stats, imported.1 = .ok stats) ∧
    ∀ seriesId,
      Option.Rel SameSeries (imported.2.getSeries seriesId)
        (request.selected source seriesId)

/-- What an export without loss needs. -/
structure Faithful
    (request : Request) (source : MemStore) (format : ExportFormat)
    (maxSeries : ℕ) :
    Prop where
  room : (request.selectedIds source).length ≤ maxSeries
  kept :
    ∀ seriesId ts,
      request.selected source seriesId = some ts →
        KeptBy request.level ts.samples
  nameOnly : format = .csv → request.NameOnly source

/-!
## What is exported
-/

@[simp] theorem importedLabels_convert (ts : TimeSeries) :
    (convertToExportFormat ts).importedLabels = ts.labels := by
  simp [convertToExportFormat, importedLabels,
    Function.comp_def]

@[simp] theorem importedSamples_convert (ts : TimeSeries) :
    (convertToExportFormat ts).importedSamples = ts.samples := by
  simp [convertToExportFormat, importedSamples,
    Function.comp_def]

@[simp] theorem timeSeries_exportData
    (query : String) (start stop : Timestamp) (seriesList : List TimeSeries) :
    (exportData query start stop seriesList).timeSeries =
      seriesList.map convertToExportFormat := by
  have added :
      ∀ data : ExportData,
        (seriesList.foldl
          (fun data ts => data.addTimeSeries (convertToExportFormat ts))
          data).timeSeries =
          data.timeSeries ++ seriesList.map convertToExportFormat := by
    induction seriesList with
    | nil => simp
    | cons first rest inductionHypothesis =>
      intro data
      rw [foldl_cons, inductionHypothesis]
      simp [ExportData.addTimeSeries]
  exact added _

section Selected

variable {request : Request} {store : MemStore}

theorem selected_eq (seriesId : TimeSeriesId) :
    request.selected store seriesId =
      (store.head.series.lookup seriesId).bind fun entry =>
        if ⟨"__name__", request.metric⟩ ∈ entry.labels ∧
            entry.samples.filter
                (Sample.inRange request.start request.stop) ≠ [] then
          some {
            id := seriesId
            labels := entry.labels
            samples :=
              entry.samples.filter (Sample.inRange request.start request.stop)
          }
        else
          none := by
  rw [Request.selected, MemStore.getSeries, getSeriesLabels,
    query]
  cases store.head.series.lookup seriesId with
  | none => rfl
  | some entry =>
    simp only [Option.map_some, entry.samplesInRange_full, Option.bind_some]

theorem id_of_selected {seriesId : TimeSeriesId} {ts : TimeSeries}
    (isSelected : request.selected store seriesId = some ts) :
    ts.id = seriesId := by
  rw [selected_eq, Option.bind_eq_some_iff] at isSelected
  obtain ⟨entry, _, isSeries⟩ := isSelected
  split at isSeries
  · cases isSeries
    rfl
  · cases isSeries

theorem mem_read_iff {config : HeadConfig} (agrees : store.head.Agrees config)
    {ts : TimeSeries} :
    ts ∈ request.read store ↔
      ∃ whole,
        request.selected store ts.id = some whole ∧
          ts = {
            whole with
            samples := applyDownsampling whole.samples request.level
          } := by
  have found := MemStore.findSeries_exact agrees [("__name__", request.metric)]
  rw [Request.read, MemStore.query, MemStore.queryWithDownsample, mem_filterMap]
  constructor
  · rintro ⟨seriesId, known, isQueried⟩
    obtain rfl := MemStore.id_of_querySeries isQueried
    obtain ⟨entry, isEntry, hasName⟩ := (found.2 _).mp known
    rw [MemStore.querySeries_of_lookup isEntry] at isQueried
    split at isQueried
    · cases isQueried
    · rename_i shown
      have isSeries := Option.some.inj isQueried
      refine ⟨⟨ts.id, entry.labels, _⟩, ?_, isSeries.symm⟩
      rw [selected_eq, isEntry, Option.bind_some, if_pos]
      exact ⟨hasName _ mem_cons_self, shown⟩
  · rintro ⟨whole, isSelected, isSeries⟩
    rw [selected_eq, Option.bind_eq_some_iff] at isSelected
    obtain ⟨entry, isEntry, isWhole⟩ := isSelected
    split at isWhole
    · rename_i selects
      refine ⟨ts.id, (found.2 _).mpr
        ⟨entry, isEntry, forall_mem_singleton.mpr selects.1⟩, ?_⟩
      rw [MemStore.querySeries_of_lookup isEntry, if_neg selects.2]
      rw [← Option.some.inj isWhole] at isSeries
      exact congrArg some isSeries.symm
    · cases isWhole

theorem averaged_mem_read
    {config : HeadConfig} (agrees : store.head.Agrees config)
    {seriesId : TimeSeriesId} {whole : TimeSeries}
    (isSelected : request.selected store seriesId = some whole) :
    {
      whole with
      samples := applyDownsampling whole.samples request.level
    } ∈ request.read store := by
  have isId := id_of_selected isSelected
  rw [← isId] at isSelected
  exact (mem_read_iff agrees).mpr ⟨whole, isSelected, rfl⟩

theorem ids_read {config : HeadConfig} (agrees : store.head.Agrees config) :
    ((request.read store).map TimeSeries.id).Nodup ∧
      (request.read store).length = (request.selectedIds store).length := by
  have found := MemStore.findSeries_exact agrees [("__name__", request.metric)]
  have isFilter :
      (request.read store).map TimeSeries.id =
        (store.findSeries [("__name__", request.metric)]).filter
          fun seriesId =>
            (store.querySeries request.start request.stop request.level
              seriesId).isSome := by
    rw [Request.read, MemStore.query, MemStore.queryWithDownsample]
    generalize store.findSeries [("__name__", request.metric)] = ids
    induction ids with
    | nil => rfl
    | cons first rest inductionHypothesis =>
      rw [filterMap_cons, filter_cons]
      cases isQueried :
          store.querySeries request.start request.stop request.level first with
      | none =>
        rw [Request.level] at isQueried
        simp only [isQueried]
        exact inductionHypothesis
      | some ts =>
        rw [Request.level] at isQueried
        simp only [isQueried, map_cons, MemStore.id_of_querySeries isQueried]
        exact congrArg _ inductionHypothesis
  have distinct : ((request.read store).map TimeSeries.id).Nodup := by
    rw [isFilter]
    exact found.1.filter _
  refine ⟨distinct, ?_⟩
  have sameIds :
      ((request.read store).map TimeSeries.id).Perm
        (request.selectedIds store) := by
    refine (perm_ext_iff_of_nodup distinct
      (store.head.series.keys_nodup.filter _)).mpr fun seriesId => ?_
    rw [mem_map, mem_filter, Option.isSome_iff_exists,
      ← AList.mem_keys, ← AList.lookup_isSome]
    constructor
    · rintro ⟨ts, isRead, rfl⟩
      obtain ⟨whole, isSelected, _⟩ := (mem_read_iff agrees).mp isRead
      refine ⟨?_, whole, isSelected⟩
      rw [selected_eq, Option.bind_eq_some_iff] at isSelected
      obtain ⟨entry, isEntry, _⟩ := isSelected
      rw [isEntry]
      rfl
    · rintro ⟨_, whole, isSelected⟩
      have isId : whole.id = seriesId := id_of_selected isSelected
      exact ⟨_, averaged_mem_read agrees isSelected, isId⟩
  rw [← sameIds.length_eq, length_map]

end Selected

/-!
## What is imported
-/

theorem flatMap_of_nodup_keys
    {Item Key Part : Type} [DecidableEq Key] {key : Item → Key}
    {items : List Item} (distinct : (items.map key).Nodup)
    (parts : Item → List Part) {item : Item} (member : item ∈ items) :
    (items.flatMap fun other =>
      if key other = key item then parts other else []) = parts item := by
  induction items with
  | nil => cases member
  | cons first rest inductionHypothesis =>
    rw [map_cons, nodup_cons] at distinct
    rw [flatMap_cons]
    rcases mem_cons.mp member with rfl | inRest
    · have others :
          (rest.flatMap fun other =>
            if key other = key item then parts other else []) = [] := by
        rw [flatMap_eq_nil_iff]
        intro other isOther
        refine if_neg fun same => distinct.1 ?_
        rw [← same]
        exact mem_map_of_mem isOther
      rw [if_pos rfl, others, append_nil]
    · have different : key first ≠ key item := by
        intro same
        refine distinct.1 ?_
        rw [same]
        exact mem_map_of_mem inRest
      rw [if_neg different, nil_append, inductionHypothesis distinct.2 inRest]

section Imported

variable {codec : WalCodec} {hasher : Bytes → TimeSeriesId}
variable {request : Request} {source target : MemStore}
variable {sourceConfig targetConfig : HeadConfig}

theorem importedId_of_mem_read
    (sound : source.head.Sound hasher sourceConfig) {ts : TimeSeries}
    (isRead : ts ∈ request.read source) :
    calculateSeriesId hasher ts.labels = ts.id := by
  obtain ⟨whole, isSelected, isSeries⟩ := (mem_read_iff sound.agrees).mp isRead
  rw [selected_eq, Option.bind_eq_some_iff] at isSelected
  obtain ⟨entry, isEntry, isWhole⟩ := isSelected
  split at isWhole
  · have isId := (sound.entries _ _ isEntry).isId
    rw [isSeries, ← Option.some.inj isWhole]
    exact isId
  · cases isWhole

variable {imported : List ExportTimeSeries}

theorem exists_importedId_iff (sound : source.head.Sound hasher sourceConfig)
    (isPerm :
      imported.Perm ((request.read source).map convertToExportFormat))
    (seriesId : TimeSeriesId) :
    (∃ series ∈ imported, series.importedId hasher = seriesId) ↔
      (request.selected source seriesId).isSome := by
  constructor
  · rintro ⟨series, member, rfl⟩
    obtain ⟨ts, isRead, rfl⟩ := mem_map.mp (isPerm.mem_iff.mp member)
    obtain ⟨whole, isSelected, _⟩ := (mem_read_iff sound.agrees).mp isRead
    rw [importedId, importedLabels_convert,
      importedId_of_mem_read sound isRead, isSelected]
    rfl
  · intro isSome
    obtain ⟨whole, isSelected⟩ := Option.isSome_iff_exists.mp isSome
    have isRead := averaged_mem_read sound.agrees isSelected
    refine ⟨_, isPerm.mem_iff.mpr (mem_map_of_mem isRead), ?_⟩
    have isId : whole.id = seriesId := id_of_selected isSelected
    rw [importedId, importedLabels_convert,
      importedId_of_mem_read sound isRead]
    exact isId

theorem labels_of_importedId (sound : source.head.Sound hasher sourceConfig)
    (isPerm :
      imported.Perm ((request.read source).map convertToExportFormat))
    {seriesId : TimeSeriesId} {whole : TimeSeries}
    (isSelected : request.selected source seriesId = some whole)
    {series : ExportTimeSeries} (isImported : series ∈ imported)
    (isId : series.importedId hasher = seriesId) :
    series.importedLabels = whole.labels := by
  obtain ⟨ts, isRead, rfl⟩ := mem_map.mp (isPerm.mem_iff.mp isImported)
  rw [importedId, importedLabels_convert,
    importedId_of_mem_read sound isRead] at isId
  obtain ⟨other, otherSelected, isOther⟩ :=
    (mem_read_iff sound.agrees).mp isRead
  rw [isId, isSelected, Option.some.injEq] at otherSelected
  rw [importedLabels_convert, isOther, otherSelected]

theorem importedSamples_perm (sound : source.head.Sound hasher sourceConfig)
    (isPerm :
      imported.Perm ((request.read source).map convertToExportFormat))
    {seriesId : TimeSeriesId} {whole : TimeSeries}
    (isSelected : request.selected source seriesId = some whole) :
    (imported.flatMap fun series =>
        if series.importedId hasher = seriesId then series.importedSamples
        else []).Perm
      (applyDownsampling whole.samples request.level) := by
  have isRead := averaged_mem_read sound.agrees isSelected
  have isId : whole.id = seriesId := id_of_selected isSelected
  have own :
      ((request.read source).flatMap fun ts =>
        if ts.id = seriesId then ts.samples else []) =
        applyDownsampling whole.samples request.level := by
    rw [← isId]
    exact flatMap_of_nodup_keys (@ids_read request source _ sound.agrees).1
      TimeSeries.samples isRead
  refine (isPerm.flatMap_right _).trans (.of_eq ?_)
  rw [flatMap_map, ← own]
  refine flatMap_congr fun ts tsRead => ?_
  rw [importedId, importedLabels_convert,
    importedId_of_mem_read sound tsRead, importedSamples_convert]

def SameAverages (level : DownsampleLevel) (first second : TimeSeries) : Prop :=
  first.labels = second.labels ∧
    first.samples.Perm (applyDownsampling second.samples level)

/-- With room for all series an import yields the averages. -/
theorem exists_averages (sound : source.head.Sound hasher sourceConfig)
    (isEmpty : target.head = new targetConfig)
    (logReady : target.LogReady)
    (isPerm :
      imported.Perm ((request.read source).map convertToExportFormat))
    (room : (request.selectedIds source).length ≤ targetConfig.maxSeries)
    (config : MigrationConfig) (clock : ℕ → WriteClock)
    (stats : MigrationStats) :
    ∃ result after,
      importAll codec hasher config clock target stats imported =
          (.ok result, after) ∧
        ∀ seriesId,
          Option.Rel (SameAverages request.level) (after.getSeries seriesId)
            (request.selected source seriesId) := by
  obtain ⟨_, sameLength⟩ := @ids_read request source _ sound.agrees
  have noIds : target.admission.ids = ∅ := by
    rw [MemStore.admission, isEmpty]
    rfl
  have limit : target.admission.maxSeries = targetConfig.maxSeries := by
    rw [MemStore.admission, isEmpty]
    rfl
  obtain ⟨result, after, succeeds, imports⟩ :=
    @exists_importAll codec hasher config clock target logReady imported
      (by
        rw [noIds, limit, Finset.card_empty, Nat.zero_add,
          isPerm.length_eq, length_map, sameLength]
        exact room)
      stats
  refine ⟨result, after, succeeds, fun seriesId => ?_⟩
  -- the ids in memory are the selected ones
  have present :
      (after.head.series.lookup seriesId).isSome ↔
        (request.selected source seriesId).isSome := by
    rw [← MemStore.mem_ids_iff, imports.ids, noIds, Finset.empty_union,
      mem_toFinset, mem_map, exists_importedId_iff sound isPerm]
  obtain ⟨operations, run, creates⟩ :=
    @exists_run_importAll codec hasher config clock target stats imported
  rw [succeeds, isEmpty] at run
  rw [MemStore.getSeries, getSeriesLabels, query]
  cases isSelected : request.selected source seriesId with
  | none =>
    rw [isSelected, Option.isSome_none, Bool.false_eq_true, iff_false,
      Option.not_isSome_iff_eq_none] at present
    rw [present]
    exact .none
  | some whole =>
    rw [isSelected, Option.isSome_some] at present
    obtain ⟨entry, isEntry⟩ := Option.isSome_iff_exists.mp (present.mpr rfl)
    have sameLabels : entry.labels = whole.labels := by
      have isLabels :
          after.head.getSeriesLabels seriesId = some entry.labels := by
        rw [getSeriesLabels, isEntry]
        rfl
      rcases labels_of_run run isLabels with before | created
      · cases before
      · obtain ⟨series, member, isSeries⟩ := creates _ created
        have soundAfter := (@HeadBlock.Sound.new hasher targetConfig).ofRun run
        have ownId := (soundAfter.entries _ _ isEntry).isId
        rw [isSeries] at ownId ⊢
        exact labels_of_importedId sound isPerm isSelected member ownId
    have sameSamples :
        entry.samples.Perm (applyDownsampling whole.samples request.level) := by
      have arrived := imports.samplesOf seriesId
      have holds : after.samplesOf seriesId = entry.samples := by
        rw [MemStore.samplesOf, samplesOf, isEntry]
        rfl
      have heldNothing : target.samplesOf seriesId = [] := by
        rw [MemStore.samplesOf, isEmpty]
        rfl
      rw [holds, heldNothing, nil_append] at arrived
      exact arrived.trans (importedSamples_perm sound isPerm isSelected)
    rw [isEntry]
    simp only [Option.map_some, entry.samplesInRange_full]
    exact .some ⟨sameLabels, sameSamples⟩

/-!
## What a lossless import shows
-/

section Shown

variable {text : ExportText}
variable {order : List ExportTimeSeries → List ExportTimeSeries}
variable {config : MigrationConfig} {clock : ℕ → WriteClock}
variable {format : ExportFormat} {content : Text}

theorem exists_run_importFromFile (store : MemStore) :
    ∃ operations,
      Run (HeadStep hasher) store.head operations
          (importFromFile codec hasher text order config clock store format
            content).2.head ∧
        ∀ labels,
          .getOrCreateSeries labels ∈ operations →
            ∃ data,
              readContent text order format content = .ok data ∧
                ∃ series ∈ data.timeSeries, labels = series.importedLabels := by
  rw [importFromFile]
  split
  · exact ⟨[], .nil _, nofun⟩
  · rename_i data isData
    obtain ⟨operations, run, creates⟩ :=
      @exists_run_importAll codec hasher config clock store
        {
          MigrationStats.new with
          totalSeries := data.timeSeries.length
          totalSamples :=
            (data.timeSeries.map fun series => series.samples.length).sum
        }
        data.timeSeries
    exact ⟨operations, run,
      fun labels member => ⟨data, isData, creates labels member⟩⟩

theorem exists_labels_of_rel
    {store : MemStore} {seriesId : TimeSeriesId} {whole : TimeSeries}
    (related : Option.Rel SameSeries (store.getSeries seriesId) (some whole)) :
    ∃ labels,
      store.head.getSeriesLabels seriesId = some labels ∧
        labels.Perm whole.labels := by
  generalize isArrived : store.getSeries seriesId = arrived at related
  cases related with
  | some same =>
    rw [MemStore.getSeries] at isArrived
    split at isArrived
    · cases isArrived
    · rename_i labels isLabels
      obtain ⟨_, _, rfl⟩ := Option.map_eq_some_iff.mp isArrived
      exact ⟨labels, isLabels, same.1⟩

theorem room_of_lossless (isEmpty : target.head = new targetConfig)
    (lossless :
      Lossless request source
        (importFromFile codec hasher text order config clock target format
          content)) :
    (request.selectedIds source).length ≤ targetConfig.maxSeries := by
  obtain ⟨operations, run, _⟩ :=
    @exists_run_importFromFile codec hasher text order config clock format
      content target
  rw [isEmpty] at run
  have agrees := HeadBlock.Agrees.ofRun run
  refine le_trans ?_ agrees.bounded
  refine (List.Nodup.subperm (source.head.series.keys_nodup.filter _)
    fun seriesId member => ?_).length_le
  obtain ⟨whole, isSelected⟩ :=
    Option.isSome_iff_exists.mp (mem_filter.mp member).2
  have related := lossless.2 seriesId
  rw [isSelected] at related
  obtain ⟨labels, isLabels, _⟩ := exists_labels_of_rel related
  rw [getSeriesLabels, Option.map_eq_some_iff] at isLabels
  obtain ⟨entry, isEntry, _⟩ := isLabels
  rw [← AList.mem_keys, ← AList.lookup_isSome, isEntry]
  rfl

theorem plain_of_lossless (reorders : ∀ series, (order series).Perm series)
    (isEmpty : target.head = new targetConfig)
    (lossless :
      Lossless request source
        (importFromFile codec hasher text order config clock target .csv
          content))
    {seriesId : TimeSeriesId} {whole : TimeSeries}
    (isSelected : request.selected source seriesId = some whole) :
    ∀ label ∈ whole.labels,
      Plain label.name.toList ∧ Plain label.value.toList := by
  obtain ⟨operations, run, creates⟩ :=
    @exists_run_importFromFile codec hasher text order config clock .csv
      content target
  rw [isEmpty] at run
  have related := lossless.2 seriesId
  rw [isSelected] at related
  obtain ⟨labels, isLabels, samePerm⟩ := exists_labels_of_rel related
  intro label member
  rcases labels_of_run run isLabels with before | created
  · cases before
  · obtain ⟨data, isRead, series, isSeries, rfl⟩ := creates _ created
    have plain := plainLabels_of_parseCsv reorders isRead series isSeries
    obtain ⟨pair, isPair, rfl⟩ := mem_map.mp (samePerm.mem_iff.mpr member)
    exact plain pair isPair

end Shown

/-!
## Lines of one label
-/

section Lines

variable {text : ExportText}
variable {order : List ExportTimeSeries → List ExportTimeSeries}

theorem named_of_selected {seriesId : TimeSeriesId} {whole : TimeSeries}
    (isSelected : request.selected source seriesId = some whole) :
    ⟨"__name__", request.metric⟩ ∈ whole.labels ∧ whole.samples ≠ [] := by
  rw [selected_eq, Option.bind_eq_some_iff] at isSelected
  obtain ⟨entry, _, isWhole⟩ := isSelected
  split at isWhole
  · rename_i selects
    cases isWhole
    exact selects
  · cases isWhole

theorem plainSeries_convert {ts : TimeSeries} {metric : String}
    (named : ⟨"__name__", metric⟩ ∈ ts.labels)
    (plain :
      ∀ label ∈ ts.labels, Plain label.name.toList ∧ Plain label.value.toList) :
    PlainSeries (convertToExportFormat ts) where
  name := by
    rw [convertToExportFormat]
    cases found : ts.labels.find? fun label => label.name = "__name__" with
    | none =>
      have missed := find?_eq_none.mp found _ named
      simp at missed
    | some label => exact (plain label (mem_of_find?_eq_some found)).2
  labels := by
    intro pair member
    obtain ⟨label, isLabel, rfl⟩ := mem_map.mp member
    exact plain label isLabel
  labelled := by
    intro nothing
    rw [map_eq_nil_iff.mp nothing] at named
    cases named

theorem nameOnly_of_lossless (sound : source.head.Sound hasher sourceConfig)
    (reorders : ∀ series, (order series).Perm series)
    (isEmpty : target.head = new targetConfig)
    {config : MigrationConfig} {clock : ℕ → WriteClock}
    (lossless :
      Lossless request source
        (importFromFile codec hasher text order config clock target .csv
          (toCsv text (request.data source)))) :
    request.NameOnly source := by
  intro seriesId whole isSelected
  have isData :
      (request.data source).timeSeries =
        (request.read source).map convertToExportFormat :=
    timeSeries_exportData _ _ _ _
  have plainSeries :
      ∀ series ∈ (request.data source).timeSeries, PlainSeries series := by
    rw [isData]
    intro series member
    obtain ⟨ts, isRead, rfl⟩ := mem_map.mp member
    obtain ⟨other, otherSelected, isSeries⟩ :=
      (mem_read_iff sound.agrees).mp isRead
    have plain := plain_of_lossless reorders isEmpty lossless otherSelected
    rw [isSeries]
    exact plainSeries_convert (named_of_selected otherSelected).1 plain
  have plain := plain_of_lossless reorders isEmpty lossless isSelected
  obtain ⟨⟨stats, isOk⟩, _⟩ := lossless
  obtain ⟨read, isParsed⟩ :
      ∃ read,
        parseCsv text order (toCsv text (request.data source)) = .ok read := by
    rw [importFromFile, readContent] at isOk
    split at isOk
    · cases isOk
    · rename_i read isRead
      exact ⟨read, isRead⟩
  obtain ⟨named, hasSamples⟩ := named_of_selected isSelected
  have isRead := averaged_mem_read sound.agrees isSelected
  obtain ⟨label, isLabel⟩ :=
    one_label_of_parseCsv plainSeries isParsed _
      (isData ▸ mem_map_of_mem isRead) (by
        intro nothing
        have nothing :=
          applyDownsampling_eq_nil_iff.mp (map_eq_nil_iff.mp nothing)
        exact hasSamples nothing)
  obtain ⟨first, isFirst⟩ : ∃ first, whole.labels = [first] := by
    obtain ⟨first, isLabels, _⟩ := map_eq_singleton_iff.mp isLabel
    exact ⟨first, isLabels⟩
  rw [isFirst, mem_singleton] at named
  rw [isFirst, ← named]
  rw [isFirst, ← named] at plain
  exact ⟨rfl, (plain _ (mem_singleton_self _)).2⟩

theorem exists_parseCsv (sound : source.head.Sound hasher sourceConfig)
    (reorders : ∀ series, (order series).Perm series)
    (nameOnly : request.NameOnly source) :
    ∃ read,
      parseCsv text order (toCsv text (request.data source)) = .ok read ∧
        read.timeSeries.Perm
          ((request.read source).map convertToExportFormat) := by
  have isData :
      (request.data source).timeSeries =
        (request.read source).map convertToExportFormat :=
    timeSeries_exportData _ _ _ _
  obtain ⟨distinct, _⟩ := @ids_read request source _ sound.agrees
  have labelled :
      ∀ ts ∈ request.read source,
        ts.labels = [⟨"__name__", request.metric⟩] ∧
          Plain request.metric.toList ∧ ts.samples ≠ [] := by
    intro ts isRead
    obtain ⟨whole, isSelected, isSeries⟩ :=
      (mem_read_iff sound.agrees).mp isRead
    obtain ⟨isLabels, plain⟩ := nameOnly _ whole isSelected
    rw [isSeries]
    refine ⟨isLabels, plain, fun nothing => ?_⟩
    exact (named_of_selected isSelected).2
      (applyDownsampling_eq_nil_iff.mp nothing)
  cases isRead : request.read source with
  | nil =>
    rw [isRead] at isData
    exact ⟨_, parseCsv_toCsv_of_nothing order isData, reorders _⟩
  | cons ts rest =>
    rw [isRead] at labelled
    obtain ⟨isLabels, plain, hasSamples⟩ := labelled ts mem_cons_self
    cases rest with
    | nil =>
      have isPlainName : Plain "__name__".toList := by decide
      have one :
          OneLabel (convertToExportFormat ts) ("__name__", request.metric) := by
        refine ⟨?_, ?_, ⟨isPlainName, plain⟩, rfl, rfl⟩
        · simp [convertToExportFormat, isLabels]
        · simpa [convertToExportFormat, isLabels] using plain
      rw [isRead] at isData
      refine ⟨_, one.parseCsv_toCsv ?_ order isData, reorders _⟩
      exact fun nothing => hasSamples (map_eq_nil_iff.mp nothing)
    | cons second others =>
      -- two series with the same labels have the same id
      have isSecond : second ∈ request.read source := by
        rw [isRead]
        exact mem_cons_of_mem _ mem_cons_self
      have isFirst : ts ∈ request.read source := by
        rw [isRead]
        exact mem_cons_self
      have sameId : ts.id = second.id := by
        rw [← importedId_of_mem_read sound isFirst,
          ← importedId_of_mem_read sound isSecond, isLabels,
          (labelled second (mem_cons_of_mem _ mem_cons_self)).1]
      rw [isRead, map_cons, map_cons, sameId, nodup_cons] at distinct
      exact absurd mem_cons_self distinct.1

end Lines

/-!
## The whole way
-/

theorem exists_readContent
    (sound : source.head.Sound hasher sourceConfig) {text : ExportText}
    {order : List ExportTimeSeries → List ExportTimeSeries}
    (reorders : ∀ series, (order series).Perm series) {format : ExportFormat}
    {stats : MigrationStats} {content : Text}
    (exported :
      exportToFile text source format request.metric request.start
        request.stop = .ok (stats, content))
    (nameOnly : format = .csv → request.NameOnly source) :
    ∃ data,
      readContent text order format content = .ok data ∧
        data.timeSeries.Perm
          ((request.read source).map convertToExportFormat) := by
  cases format with
  | json =>
    cases exported
    refine ⟨request.data source, ?_, .of_eq (timeSeries_exportData _ _ _ _)⟩
    rw [readContent]
    simp only [text.fromJson_toJson]
    rfl
  | csv =>
    cases exported
    rw [readContent]
    exact exists_parseCsv sound reorders (nameOnly rfl)
  | parquet => cases exported
  | orc => cases exported
  | avro => cases exported

/--
The import of an exported file into an empty store is lossless exactly when
averaging keeps the samples of every exported series, the new store has room for
all of them, and a file of lines is about a single label without separators.
-/
theorem import_lossless_iff {operations : List HeadOperation}
    (run :
      Run (HeadStep hasher) (new sourceConfig) operations source.head)
    (text : ExportText)
    {format : ExportFormat}
    {stats : MigrationStats}
    {content : Text}
    (exported :
      exportToFile text source format request.metric request.start
        request.stop = .ok (stats, content))
    (isEmpty : target.head = new targetConfig)
    (logReady : target.LogReady)
    {order : List ExportTimeSeries → List ExportTimeSeries}
    (reorders : ∀ series, (order series).Perm series)
    (config : MigrationConfig)
    (clock : ℕ → WriteClock) :
    Lossless request source
        (importFromFile codec hasher text order config clock target format
          content) ↔
      Faithful request source format targetConfig.maxSeries := by
  have sound : source.head.Sound hasher sourceConfig :=
    (HeadBlock.Sound.new sourceConfig).ofRun run
  -- what an import yields if the file is read back and there is room
  have averages :
      (request.selectedIds source).length ≤ targetConfig.maxSeries →
        (format = .csv → request.NameOnly source) →
          ∃ result after,
            importFromFile codec hasher text order config clock target format
                content = (.ok result, after) ∧
              ∀ seriesId,
                Option.Rel (SameAverages request.level)
                  (after.getSeries seriesId)
                  (request.selected source seriesId) := by
    intro room nameOnly
    obtain ⟨data, isRead, isPerm⟩ :=
      exists_readContent sound reorders exported nameOnly
    obtain ⟨result, after, succeeds, related⟩ :=
      exists_averages sound isEmpty logReady isPerm room config clock _
    refine ⟨result, after, ?_, related⟩
    rw [importFromFile, isRead]
    exact succeeds
  constructor
  · intro lossless
    have room := room_of_lossless isEmpty lossless
    have nameOnly : format = .csv → request.NameOnly source := by
      rintro rfl
      cases exported
      exact nameOnly_of_lossless sound reorders isEmpty lossless
    refine ⟨room, fun seriesId ts isSelected => ?_, nameOnly⟩
    obtain ⟨result, after, succeeds, related⟩ := averages room nameOnly
    have arrived := lossless.2 seriesId
    rw [succeeds, isSelected] at arrived
    have averaged := related seriesId
    rw [isSelected] at averaged
    cases isArrived : after.getSeries seriesId with
    | none =>
      rw [isArrived] at averaged
      cases averaged
    | some series =>
      rw [isArrived] at averaged arrived
      rw [← applyDownsampling_perm_iff]
      cases averaged with
      | some isAveraged =>
        cases arrived with
        | some same => exact isAveraged.2.symm.trans same.2
  · rintro ⟨room, kept, nameOnly⟩
    obtain ⟨result, after, succeeds, related⟩ := averages room nameOnly
    rw [succeeds]
    refine ⟨⟨result, rfl⟩, fun seriesId => ?_⟩
    have averaged := related seriesId
    cases isSelected : request.selected source seriesId with
    | none =>
      rw [isSelected] at averaged
      generalize after.getSeries seriesId = series at averaged
      cases averaged
      exact .none
    | some whole =>
      rw [isSelected] at averaged
      generalize after.getSeries seriesId = series at averaged
      cases averaged with
      | some same =>
        have isKept :=
          applyDownsampling_perm_iff.mpr (kept seriesId whole isSelected)
        exact .some ⟨.of_eq same.1, same.2.trans isKept⟩

end Imported

def storeOf (labels : Labels) : MemStore where
  head :=
    ([.getOrCreateSeries labels,
      .addSample (calculateSeriesId SipHash.hash labels) ⟨1000, 1⟩]
        : List HeadOperation).foldl
      (fun head operation => (operation.run SipHash.hash head).2)
      (new ⟨1024⟩)
  wal := none
  stats := ⟨1, 1, 1⟩

/-- A new store without a log. -/
def emptyStore : MemStore where
  head := new ⟨1024⟩
  wal := none
  stats := ⟨0, 0, 0⟩

theorem logReady_emptyStore : emptyStore.LogReady := by
  intro wal opened
  cases opened

/-- The clock readings of every import below. -/
def importClock : ℕ → WriteClock :=
  fun _ => ⟨0, 0, ⟨0, 0⟩⟩

def importLines (content : Text) :
    Except MigrationError MigrationStats × MemStore :=
  importFromFile jsonCodec SipHash.hash .basic id ⟨false⟩ importClock
    emptyStore .csv content

theorem run_storeOf (labels : Labels) :
    Run (HeadStep SipHash.hash) (new ⟨1024⟩)
      [.getOrCreateSeries labels,
        .addSample (calculateSeriesId SipHash.hash labels) ⟨1000, 1⟩]
      (storeOf labels).head :=
  .cons rfl (.single rfl)

/-- The request for the metric `up` and its first two seconds. -/
def upRequest : Request :=
  ⟨"up", 0, 2000⟩

def upContent : Text :=
  "metric_name,labels,timestamp,value\nup,__name__=up,1000,1\n".toList

/-- A series without labels other than its name is exported and imported. -/
theorem name_only_is_lossless :
    ∃ operations stats,
      Run (HeadStep SipHash.hash) (new ⟨1024⟩) operations
          (storeOf [⟨"__name__", "up"⟩]).head ∧
        exportToFile .basic (storeOf [⟨"__name__", "up"⟩]) .csv "up" 0 2000 =
          .ok (stats, upContent) ∧
        Lossless upRequest (storeOf [⟨"__name__", "up"⟩])
          (importLines upContent) := by
  have exported :
      exportToFile .basic (storeOf [⟨"__name__", "up"⟩]) .csv "up" 0 2000 =
        .ok (⟨1, 1, 1, 1, 0⟩, upContent) := by
    decide +kernel
  have run := run_storeOf [⟨"__name__", "up"⟩]
  have nameOnly : upRequest.NameOnly (storeOf [⟨"__name__", "up"⟩]) := by
    intro seriesId ts isSelected
    rw [selected_eq, Option.bind_eq_some_iff] at isSelected
    obtain ⟨entry, isEntry, isSeries⟩ := isSelected
    have isLabels :
        (storeOf [⟨"__name__", "up"⟩]).head.getSeriesLabels seriesId =
          some entry.labels := by
      rw [getSeriesLabels, isEntry]
      rfl
    have created := (labels_of_run run isLabels).resolve_left
      (Option.some_ne_none entry.labels).symm
    have sameLabels : entry.labels = [⟨"__name__", "up"⟩] := by
      simpa using created
    split at isSeries
    · cases isSeries
      exact ⟨sameLabels, by decide⟩
    · cases isSeries
  exact ⟨_, _, run, exported,
    (@import_lossless_iff jsonCodec SipHash.hash upRequest
      (storeOf [⟨"__name__", "up"⟩]) emptyStore ⟨1024⟩ ⟨1024⟩ _ run .basic
      .csv _ _ exported rfl logReady_emptyStore id (fun _ => .refl _) ⟨false⟩
      importClock).mpr
      ⟨by decide +kernel, fun _ _ _ => .inl (by decide), fun _ => nameOnly⟩⟩

def upJobContent : Text :=
  "metric_name,labels,timestamp,value\nup,__name__=up,job=a,1000,1\n".toList

/-- A second label makes the import fail. -/
theorem two_labels_are_refused :
    ∃ operations stats,
      Run (HeadStep SipHash.hash) (new ⟨1024⟩) operations
          (storeOf [⟨"__name__", "up"⟩, ⟨"job", "a"⟩]).head ∧
        exportToFile .basic (storeOf [⟨"__name__", "up"⟩, ⟨"job", "a"⟩]) .csv
          "up" 0 2000 = .ok (stats, upJobContent) ∧
        ¬ Lossless upRequest (storeOf [⟨"__name__", "up"⟩, ⟨"job", "a"⟩])
          (importLines upJobContent) := by
  refine ⟨_, ⟨1, 1, 1, 1, 0⟩, run_storeOf _, by decide +kernel, ?_⟩
  rintro ⟨⟨stats, isOk⟩, _⟩
  have fails :
      (importLines upJobContent).1 =
        .error (.internal "Invalid timestamp") := by
    decide +kernel
  rw [fails] at isOk
  cases isOk

end ChronoDB.Migration
