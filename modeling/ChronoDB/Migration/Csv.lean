import ChronoDB.Migration.Export

namespace ChronoDB.Migration

open Library Text List

/-!
# What the reader makes of written lines

No label that is read has a separator in it.  A line of plain labels is read
back if it has one label; with a second label the field of the timestamp holds
that label, and the whole file is refused.
-/

/-- The characters that end a line, a field, a label or its name. -/
def separators : List Char :=
  ['\n', ',', ';', '=']

/-- A text without separators. -/
def Plain (text : Text) : Prop :=
  ∀ char ∈ text, char ∉ separators

instance decidablePlain (text : Text) : Decidable (Plain text) :=
  inferInstanceAs (Decidable (∀ char ∈ text, char ∉ separators))

/-- Labels without separators. -/
def PlainLabels (labels : List (String × String)) : Prop :=
  ∀ label ∈ labels, Plain label.1.toList ∧ Plain label.2.toList

theorem Plain.not_mem {text : Text} (plain : Plain text) {separator : Char}
    (isSeparator : separator ∈ separators) :
    separator ∉ text :=
  fun member => plain separator member isSeparator

variable {text : ExportText}

/-!
## Whatever was read is plain
-/

theorem plainLabels_of_parseRow
    {line : Text} {row : CsvRow} (oneLine : '\n' ∉ line)
    (isRow : parseRow text line = .ok (some row)) :
    PlainLabels row.labels := by
  rw [parseRow] at isRow
  split at isRow
  · rename_i metricName labelsStr timestamp value _ fields
    have isField : labelsStr ∈ line.splitOn ',' := by
      rw [fields]
      exact mem_cons_of_mem _ mem_cons_self
    have isLabels : row.labelsStr = labelsStr := by
      split at isRow
      · cases isRow
      · split at isRow
        · cases isRow
        · cases isRow
          rfl
    rw [← isLabels] at isField
    intro label member
    obtain ⟨part, isPart, isLabel⟩ := mem_filterMap.mp member
    rw [parseCsvLabel] at isLabel
    split at isLabel
    · rename_i name value pair
      obtain ⟨isWhole, notInName, notInValue⟩ := splitOn_eq_pair pair
      have inLine : ∀ char ∈ part, char ≠ '\n' ∧ char ≠ ',' ∧ char ≠ ';' := by
        intro char inPart
        obtain ⟨inLabels, notSemicolon⟩ := mem_of_mem_splitOn isPart inPart
        obtain ⟨inLine, notComma⟩ := mem_of_mem_splitOn isField inLabels
        exact ⟨fun isFeed => oneLine (isFeed ▸ inLine), notComma, notSemicolon⟩
      have plainPiece :
          ∀ piece : Text,
            (∀ char ∈ piece, char ∈ part) → '=' ∉ piece → Plain piece := by
        intro piece inside notEqual char inPiece isSeparator
        obtain ⟨notFeed, notComma, notSemicolon⟩ :=
          inLine char (inside char inPiece)
        simp only [separators, mem_cons, not_mem_nil, or_false] at isSeparator
        rcases isSeparator with isFeed | isComma | isSemicolon | rfl
        · exact notFeed isFeed
        · exact notComma isComma
        · exact notSemicolon isSemicolon
        · exact notEqual inPiece
      cases isLabel
      rw [String.toList_ofList, String.toList_ofList]
      refine ⟨plainPiece name ?_ notInName, plainPiece value ?_ notInValue⟩
      · intro char inName
        rw [isWhole]
        exact mem_append_left _ inName
      · intro char inValue
        rw [isWhole]
        exact mem_append_right _ (mem_cons_of_mem _ inValue)
    · cases isLabel
  · cases isRow

theorem lookup_recordRow (series : CurrentSeries) (row : CsvRow) (key : Text) :
    (recordRow series row).lookup key =
      if key = row.seriesKey then
        some {
          (series.lookup key).getD row.newSeries with
          samples :=
            ((series.lookup key).getD row.newSeries).samples ++ [row.sample]
        }
      else
        series.lookup key := by
  rw [recordRow]
  split
  · rename_i same
    rw [same, AList.lookup_insert]
  · rename_i different
    exact AList.lookup_insert_ne different

variable {metadata : ExportMetadata} {label : String × String}
  {data : ExportData}

theorem plainLabels_of_parseCsv
    {order : List ExportTimeSeries → List ExportTimeSeries}
    (reorders : ∀ series, (order series).Perm series) {content : Text}
    (isRead : parseCsv text order content = .ok data) :
    ∀ series ∈ data.timeSeries, PlainLabels series.metadata.labels := by
  rw [parseCsv] at isRead
  split at isRead
  · cases isRead
  · rename_i current folded
    cases isRead
    have plain :
        ∀ key series,
          current.lookup key = some series →
            PlainLabels series.metadata.labels := by
      refine @foldlM_preserves _ _ _ _
        (fun current : CurrentSeries =>
          ∀ key series,
            current.lookup key = some series →
              PlainLabels series.metadata.labels)
        _ ?_ ∅ current nofun folded
      intro before line isLine after plainBefore isAfter key series found
      rw [parseLine] at isAfter
      split at isAfter
      · cases isAfter
      · cases isAfter
        exact plainBefore key series found
      · rename_i row isRow
        cases isAfter
        have plainRow : PlainLabels row.labels :=
          plainLabels_of_parseRow
            (fun isFeed =>
              (Lines.mem_of_mem_lines (mem_of_mem_drop isLine) isFeed).2 rfl)
            isRow
        rw [lookup_recordRow] at found
        split at found
        · cases found
          cases known : before.lookup key with
          | none => exact plainRow
          | some old => exact plainBefore key old known
        · exact plainBefore key series found
    intro series member
    have held := (reorders _).mem_iff.mp member
    obtain ⟨⟨key, found⟩, isEntry, rfl⟩ := mem_map.mp held
    exact plain key found (AList.mem_lookup_iff.mpr isEntry)

/-!
## Lines that were written
-/

theorem not_isDigit_of_separator :
    ∀ char ∈ separators, char.isDigit = false := by
  decide

theorem plain_display (number : ℤ) : Plain (Decimal.display number) := by
  intro char member isSeparator
  have notDigit := not_isDigit_of_separator char isSeparator
  rcases Decimal.mem_display member with isDigit | rfl
  · rw [notDigit] at isDigit
    cases isDigit
  · revert isSeparator
    decide

theorem plain_displayValue (value : Value) :
    Plain (text.displayValue value) := by
  intro char member isSeparator
  have notDigit := not_isDigit_of_separator char isSeparator
  rcases text.mem_display value char member with isDigit | rfl | rfl
  · rw [notDigit] at isDigit
    cases isDigit
  · revert isSeparator
    decide
  · revert isSeparator
    decide

theorem not_mem_labelText
    (plain : Plain label.1.toList ∧ Plain label.2.toList) {separator : Char}
    (isSeparator : separator ∈ separators) (notEqual : separator ≠ '=') :
    separator ∉ labelText label := by
  intro member
  rw [labelText, mem_append, mem_cons] at member
  rcases member with inName | isEqual | inValue
  · exact plain.1.not_mem isSeparator inName
  · exact notEqual isEqual
  · exact plain.2.not_mem isSeparator inValue

theorem splitOn_csvLine (plainName : Plain metadata.metricName.toList)
    (plainLabels : PlainLabels metadata.labels)
    (hasLabels : metadata.labels ≠ []) (sample : ExportSample) :
    (csvLine text metadata sample).splitOn ',' =
      metadata.metricName.toList :: (metadata.labels.map labelText ++
        [Decimal.display sample.timestamp.toInt,
          text.displayValue sample.value]) := by
  have isSeparator : ',' ∈ separators := by decide
  have splitsLabels :
      (labelsText metadata.labels).splitOn ',' =
        metadata.labels.map labelText := by
    refine splitOn_intercalate _ ?_ ?_
    · intro field isField inField
      obtain ⟨label, member, rfl⟩ := mem_map.mp isField
      exact not_mem_labelText (plainLabels label member) isSeparator
        (by decide) inField
    · exact fun nothing => hasLabels (map_eq_nil_iff.mp nothing)
  rw [csvLine, splitOn_append_cons_self, splitOn_append_cons_self,
    splitOn_append_cons_self, splitsLabels,
    splitOn_eq_singleton (plainName.not_mem isSeparator),
    splitOn_eq_singleton ((plain_display _).not_mem isSeparator),
    splitOn_eq_singleton ((plain_displayValue _).not_mem isSeparator)]
  rfl

theorem isLine_csvLine (plainName : Plain metadata.metricName.toList)
    (plainLabels : PlainLabels metadata.labels)
    (hasLabels : metadata.labels ≠ []) (sample : ExportSample) :
    '\n' ∉ csvLine text metadata sample ∧
      Lines.stripReturn (csvLine text metadata sample) =
        csvLine text metadata sample := by
  constructor
  · -- a line feed would be in a field, since it is no comma
    have isSeparator : '\n' ∈ separators := by decide
    have joined :
        [','].intercalate ((csvLine text metadata sample).splitOn ',') =
          csvLine text metadata sample :=
      intercalate_splitOn _
    intro member
    rw [← joined, splitOn_csvLine plainName plainLabels hasLabels] at member
    rcases mem_of_mem_intercalate member with
      isComma | ⟨field, isField, inField⟩
    · revert isComma
      decide
    · simp only [mem_cons, mem_append, mem_map,
        not_mem_nil, or_false] at isField
      rcases isField with rfl | ⟨label, isLabel, rfl⟩ | rfl | rfl
      · exact plainName.not_mem isSeparator inField
      · exact not_mem_labelText (plainLabels label isLabel) isSeparator
          (by decide) inField
      · exact (plain_display _).not_mem isSeparator inField
      · exact (plain_displayValue _).not_mem isSeparator inField
  · refine if_neg fun endsInReturn => ?_
    have lastField : '\r' ∈ ',' :: text.displayValue sample.value := by
      simp only [csvLine, getLast?_append, getLast?_cons,
        Option.some_or, Option.some.injEq, Option.getD_some] at endsInReturn
      rw [← endsInReturn]
      cases last : (text.displayValue sample.value).getLast? with
      | none => exact mem_cons_self
      | some char => exact mem_cons_of_mem _ (mem_of_getLast? last)
    rcases mem_cons.mp lastField with isComma | inValue
    · revert isComma
      decide
    · have shape := text.mem_display _ _ inValue
      revert shape
      decide

theorem parseCsvLabel_labelText
    (plain : Plain label.1.toList ∧ Plain label.2.toList) :
    parseCsvLabel (labelText label) = some label := by
  have isSeparator : '=' ∈ separators := by decide
  rw [parseCsvLabel, labelText, splitOn_append_cons_self,
    splitOn_eq_singleton (plain.1.not_mem isSeparator),
    splitOn_eq_singleton (plain.2.not_mem isSeparator)]
  simp

theorem parseRow_of_one_label (plainName : Plain metadata.metricName.toList)
    (isLabel : metadata.labels = [label])
    (plain : Plain label.1.toList ∧ Plain label.2.toList)
    (sample : ExportSample) :
    parseRow text (csvLine text metadata sample) =
      .ok (some ⟨metadata.metricName.toList, labelText label, sample⟩) := by
  have fields :=
    @splitOn_csvLine text metadata plainName
      (by simpa [isLabel, PlainLabels] using plain) (by simp [isLabel]) sample
  rw [isLabel] at fields
  have isTimestamp :
      parseI64 (Decimal.display sample.timestamp.toInt) =
        some sample.timestamp := by
    rw [parseI64, Decimal.parse_display
      ⟨sample.timestamp.minValue_le_toInt, sample.timestamp.toInt_le⟩]
    simp
  rw [parseRow, fields]
  simp only [map_cons, map_nil, singleton_append, isTimestamp,
    text.parse_display]

theorem parseRow_of_two_labels
    {first second : String × String} {others : List (String × String)}
    (plainName : Plain metadata.metricName.toList)
    (plainLabels : PlainLabels metadata.labels)
    (isLabels : metadata.labels = first :: second :: others)
    (sample : ExportSample) :
    parseRow text (csvLine text metadata sample) =
      .error (.internal "Invalid timestamp") := by
  have fields :=
    @splitOn_csvLine text metadata plainName plainLabels
      (by simp [isLabels]) sample
  rw [isLabels] at fields
  have noTimestamp : parseI64 (labelText second) = none := by
    have member : '=' ∈ labelText second := mem_append_right _ mem_cons_self
    rw [parseI64, Decimal.parse_eq_none member (by decide) (by decide)]
    rfl
  obtain ⟨fourth, rest, isRest⟩ :
      ∃ fourth rest,
        others.map labelText ++
            [Decimal.display sample.timestamp.toInt,
              text.displayValue sample.value] =
          fourth :: rest := by
    cases others with
    | nil => exact ⟨_, _, rfl⟩
    | cons third rest => exact ⟨_, _, rfl⟩
  rw [parseRow, fields, map_cons, map_cons, cons_append, cons_append, isRest]
  simp only [noTimestamp]

/-!
## Files that were written
-/

/-- A series whose name and labels are plain, and that has labels. -/
structure PlainSeries (series : ExportTimeSeries) : Prop where
  name : Plain series.metadata.metricName.toList
  labels : PlainLabels series.metadata.labels
  labelled : series.metadata.labels ≠ []

theorem lines_toCsv (plain : ∀ series ∈ data.timeSeries, PlainSeries series) :
    (Lines.lines (toCsv text data)).drop 1 = csvLines text data := by
  have written :
      toCsv text data =
        (csvHeader :: csvLines text data).flatMap fun line =>
          line ++ ['\n'] := by
    rw [toCsv, flatMap_cons, append_assoc, singleton_append]
  rw [written, Lines.lines_flatMap, drop_one, tail_cons]
  refine forall_mem_cons.mpr ⟨by decide, fun line member => ?_⟩
  obtain ⟨series, isSeries, isLine⟩ := mem_flatMap.mp member
  obtain ⟨sample, _, rfl⟩ := mem_map.mp isLine
  obtain ⟨plainName, plainLabels, hasLabels⟩ := plain series isSeries
  exact isLine_csvLine plainName plainLabels hasLabels sample

theorem one_label_of_parseCsv
    {order : List ExportTimeSeries → List ExportTimeSeries}
    {data read : ExportData}
    (plain : ∀ series ∈ data.timeSeries, PlainSeries series)
    (isRead : parseCsv text order (toCsv text data) = .ok read) :
    ∀ series ∈ data.timeSeries,
      series.samples ≠ [] → ∃ label, series.metadata.labels = [label] := by
  intro series member hasSamples
  obtain ⟨plainName, plainLabels, hasLabels⟩ := plain series member
  obtain ⟨sample, isSample⟩ := exists_mem_of_ne_nil _ hasSamples
  rw [parseCsv, lines_toCsv plain] at isRead
  split at isRead
  · cases isRead
  · rename_i current folded
    -- reading a line does not depend on what was read before
    have stepFine :
        ∀ (before : CurrentSeries) (line : Text),
          (∃ after, parseLine text before line = .ok after) ↔
            ∃ row, parseRow text line = .ok row := by
      intro before line
      rw [parseLine]
      cases parseRow text line with
      | error cause => simp
      | ok row => cases row <;> simp
    have allRead :=
      (exists_foldlM_iff stepFine ∅ (csvLines text data)).mp ⟨current, folded⟩
    obtain ⟨row, isRow⟩ :=
      allRead (csvLine text series.metadata sample)
        (mem_flatMap.mpr ⟨series, member, mem_map_of_mem isSample⟩)
    cases isLabels : series.metadata.labels with
    | nil => exact absurd isLabels hasLabels
    | cons first rest =>
      cases rest with
      | nil => exact ⟨first, rfl⟩
      | cons second others =>
        rw [parseRow_of_two_labels plainName plainLabels isLabels] at isRow
        cases isRow

def rowOf (series : ExportTimeSeries) (label : String × String)
    (sample : ExportSample) :
    CsvRow :=
  ⟨series.metadata.metricName.toList, labelText label, sample⟩

/-- A series with one plain label, as the reader would build it. -/
structure OneLabel (series : ExportTimeSeries) (label : String × String) :
    Prop where
  labels : series.metadata.labels = [label]
  plainName : Plain series.metadata.metricName.toList
  plainLabel : Plain label.1.toList ∧ Plain label.2.toList
  noUnit : series.metadata.unit = none
  noDescription : series.metadata.description = none

namespace OneLabel

variable {series : ExportTimeSeries} {label : String × String}

/-- Such a series is plain. -/
theorem plain (one : OneLabel series label) : PlainSeries series where
  name := one.plainName
  labels := by simpa [one.labels, PlainLabels] using one.plainLabel
  labelled := by simp [one.labels]

theorem newSeries_rowOf (one : OneLabel series label) (sample : ExportSample) :
    (rowOf series label sample).newSeries = { series with samples := [] } := by
  have isSeparator : ';' ∈ separators := by decide
  have oneField : (labelText label).splitOn ';' = [labelText label] :=
    splitOn_eq_singleton
      (not_mem_labelText one.plainLabel isSeparator (by decide))
  obtain ⟨⟨metricName, labels, unit, description⟩, samples⟩ := series
  obtain ⟨rfl, _, plainLabel, rfl, rfl⟩ := one
  simp [CsvRow.newSeries, CsvRow.labels, rowOf, oneField,
    parseCsvLabel_labelText plainLabel]

theorem foldlM_lines
    (one : OneLabel series label) (samples read : List ExportSample) :
    (samples.map (csvLine text series.metadata)).foldlM (parseLine text)
        ((∅ : CurrentSeries).insert
          (series.metadata.metricName.toList ++ ':' :: labelText label)
          { series with samples := read }) =
      .ok ((∅ : CurrentSeries).insert
        (series.metadata.metricName.toList ++ ':' :: labelText label)
        { series with samples := read ++ samples }) := by
  induction samples generalizing read with
  | nil => simp [pure, Except.pure]
  | cons sample rest inductionHypothesis =>
    have added :
        parseLine text
            ((∅ : CurrentSeries).insert
              (series.metadata.metricName.toList ++ ':' :: labelText label)
              { series with samples := read })
            (csvLine text series.metadata sample) =
          .ok ((∅ : CurrentSeries).insert
            (series.metadata.metricName.toList ++ ':' :: labelText label)
            { series with samples := read ++ [sample] }) := by
      rw [parseLine, parseRow_of_one_label one.plainName one.labels
        one.plainLabel]
      simp only [recordRow, CsvRow.seriesKey, AList.lookup_insert,
        Option.getD_some, AList.insert_insert]
    rw [map_cons, foldlM_cons, added]
    have later := inductionHypothesis (read ++ [sample])
    rw [append_assoc, singleton_append] at later
    exact later

theorem parseCsv_toCsv
    (one : OneLabel series label) (hasSamples : series.samples ≠ [])
    (order : List ExportTimeSeries → List ExportTimeSeries) {data : ExportData}
    (isData : data.timeSeries = [series]) :
    parseCsv text order (toCsv text data) =
      .ok { ExportData.new with timeSeries := order [series] } := by
  have plain : ∀ other ∈ data.timeSeries, PlainSeries other := by
    rw [isData]
    exact forall_mem_singleton.mpr one.plain
  obtain ⟨first, rest, isSamples⟩ := exists_cons_of_ne_nil hasSamples
  have started :
      parseLine text ∅ (csvLine text series.metadata first) =
        .ok ((∅ : CurrentSeries).insert
          (series.metadata.metricName.toList ++ ':' :: labelText label)
          { series with samples := [first] }) := by
    have isNew := one.newSeries_rowOf first
    rw [rowOf] at isNew
    rw [parseLine, parseRow_of_one_label one.plainName one.labels
      one.plainLabel]
    simp only [recordRow, CsvRow.seriesKey, AList.lookup_empty,
      Option.getD_none, isNew, nil_append]
  have folded := @foldlM_lines text series label one rest [first]
  rw [singleton_append, ← isSamples] at folded
  have wholeFile :
      (csvLines text data).foldlM (parseLine text) ∅ =
        .ok ((∅ : CurrentSeries).insert
          (series.metadata.metricName.toList ++ ':' :: labelText label)
          series) := by
    rw [csvLines, isData, flatMap_singleton, isSamples, map_cons,
      foldlM_cons, started]
    exact folded
  rw [parseCsv, lines_toCsv plain, wholeFile]
  rfl

end OneLabel

theorem parseCsv_toCsv_of_nothing
    (order : List ExportTimeSeries → List ExportTimeSeries)
    (nothing : data.timeSeries = []) :
    parseCsv text order (toCsv text data) =
      .ok { ExportData.new with timeSeries := order [] } := by
  rw [parseCsv, lines_toCsv (by simp [nothing]), csvLines, nothing]
  rfl

end ChronoDB.Migration
