import ChronoDB.Rules.LabelMatchers
import ChronoDB.Server.RemoteText

namespace ChronoDB.Server

open Library Text Rules List

/-!
# Exposition lines

Remote writes and the scraper each have a parser for lines that name a metric
with labels, a value and a timestamp.  Both cut before they look at quotes, so a
separator in a label value is taken for a separator of the line.  The slices of
the first parser are modelled apart; where one is out of range or inside a
character there is no result.
-/

/-!
## The slices of the remote write parser
-/

def splitMetricSliced (line : Text) : Option (Option (Text × Text)) :=
  match rfind (· == '}') line with
  | some braceEnd => do
    let remainder ← sliceFrom line (braceEnd + 1)
    match find isWhitespace remainder with
    | some spacePos => do
      let metric ← sliceTo line (braceEnd + 1)
      let rest ← sliceFrom line (braceEnd + 1 + spacePos)
      return some (metric, trim rest)
    | none => return none
  | none =>
    match find isWhitespace line with
    | some spacePos => do
      let metric ← sliceTo line spacePos
      let rest ← sliceFrom line spacePos
      return some (metric, trim rest)
    | none => return none

def splitTimestampSliced (rest : Text) : Option (Text × Text) :=
  match find isWhitespace rest with
  | some spacePos => do
    let cut ← splitAtByte spacePos rest
    return (trim cut.1, trim cut.2)
  | none => return (rest, [])

def parseTextLabelSliced (label : Text) : Option (Option (Text × Text)) :=
  match find (· == '=') label with
  | none => return none
  | some equalPos => do
    let labelName ← sliceTo label equalPos
    let name := trim labelName
    if name = [] then return none
    let labelValue ← sliceFrom label (equalPos + 1)
    let rawValue := trim labelValue
    if byteLength rawValue < 2 then return none
    let firstChar ← rawValue.head?
    let lastChar ← rawValue.getLast?
    if firstChar = '"' ∧ lastChar = '"' then
      let value ← slice rawValue 1 (byteLength rawValue - 1)
      return some (name, value)
    else if firstChar = '\'' ∧ lastChar = '\'' then
      let value ← slice rawValue 1 (byteLength rawValue - 1)
      return some (name, value)
    else return none

def parseTextLabelsSliced :
    List Text → Option (Option (List (Text × Text)))
  | [] => some (some [])
  | part :: rest =>
    if trim part = [] then parseTextLabelsSliced rest
    else do
      match ← parseTextLabelSliced (trim part) with
      | none => return none
      | some label =>
        let labels ← parseTextLabelsSliced rest
        return labels.map (label :: ·)

def parseMetricSliced (metric : Text) : Option (Option (List (Text × Text))) :=
  match find (· == '{') metric with
  | none => return some [("__name__".toList, metric)]
  | some bracePos => do
    let name ← sliceTo metric bracePos
    if trim name = [] then return none
    match find (· == '}') metric with
    | none => return none
    | some closeBracePos =>
      if closeBracePos ≤ bracePos then return none
      let labelsStr ← slice metric (bracePos + 1) closeBracePos
      let labels ← parseTextLabelsSliced (labelsStr.splitOn ',')
      return labels.map (("__name__".toList, trim name) :: ·)

/-- What is left to do when the line is cut; it slices nothing. -/
def finishTextLine (parseValue : Text → Option Value) (now : Timestamp)
    (labelPairs : List (Text × Text)) (valuePart timestampPart : Text) :
    Option (Labels × List Sample) :=
  match parseValue valuePart with
  | none => none
  | some value =>
    match
      if timestampPart = [] then some now
      else Migration.parseI64 timestampPart
    with
    | none => none
    | some timestamp =>
      let labels :=
        labelPairs.map fun pair =>
          (⟨String.ofList pair.1, String.ofList pair.2⟩ : Label)
      some (sortByKey Label.name labels,
        [{ timestamp := timestamp, value := value }])

def parseTextLineSliced (parseValue : Text → Option Value) (now : Timestamp)
    (rawLine : Text) :
    Option (Option (Labels × List Sample)) :=
  let line := trim rawLine
  if line = [] then return none
  else do
    match ← splitMetricSliced line with
    | none => return none
    | some (metricPart, rest) =>
      if rest = [] then return none
      let (valuePart, timestampPart) ← splitTimestampSliced rest
      match ← parseMetricSliced metricPart with
      | none => return none
      | some labelPairs =>
        return finishTextLine parseValue now labelPairs valuePart timestampPart

section Slices

theorem cutAt_append_cons {property : Char → Bool} {before after : Text}
    {char : Char} (noneBefore : ∀ other ∈ before, property other = false)
    (holds : property char = true) :
    cutAt property (before ++ char :: after) =
      some (before, char :: after) := by
  have passed : ∀ other ∈ before, (!property other) = true :=
    fun other member => by rw [noneBefore other member]; rfl
  rw [cutAt, if_pos (any_eq_true.mpr ⟨char, by simp, holds⟩),
    takeWhile_append_of_pos passed, dropWhile_append_of_pos passed,
    takeWhile_cons_of_neg (by simp [holds]), append_nil,
    dropWhile_cons_of_neg (by simp [holds])]

theorem cutAt_mark {before after : Text} {mark : Char} (notIn : mark ∉ before) :
    cutAt (· == mark) (before ++ mark :: after) =
      some (before, mark :: after) :=
  cutAt_append_cons
    (fun other member => beq_eq_false_iff_ne.mpr fun same => by
      cases same
      exact notIn member)
    (beq_self_eq_true mark)

theorem cutAt_cases (property : Char → Bool) (text : Text) :
    (find property text = none ∧ cutAt property text = none) ∨
      ∃ before char after,
        text = before ++ char :: after ∧ property char = true ∧
          (∀ other ∈ before, property other = false) ∧
            find property text = some (byteLength before) ∧
              cutAt property text = some (before, char :: after) := by
  cases found : find property text with
  | none =>
    refine .inl ⟨rfl, if_neg fun some => ?_⟩
    obtain ⟨char, member, holds⟩ := any_eq_true.mp some
    have fails := find_eq_none_iff.mp found char member
    exact Bool.false_ne_true (fails.symm.trans holds)
  | some offset =>
    obtain ⟨before, char, after, rfl, holds, none, rfl⟩ :=
      find_eq_some_iff.mp found
    exact .inr ⟨before, char, after, rfl, holds, none, rfl,
      cutAt_append_cons none holds⟩

theorem rfind_eq_none {text : Text} {last : Char} (notIn : last ∉ text) :
    rfind (· == last) text = none := by
  induction text with
  | nil => rfl
  | cons first rest inductionHypothesis =>
    obtain ⟨notFirst, notRest⟩ := not_or.mp (mem_cons.not.mp notIn)
    rw [rfind, inductionHypothesis notRest]
    simp [Ne.symm notFirst]

theorem rfind_append_cons {before after : Text} {last : Char}
    (notAfter : last ∉ after) :
    rfind (· == last) (before ++ last :: after) = some (byteLength before) := by
  induction before with
  | nil =>
    rw [nil_append, rfind, rfind_eq_none notAfter]
    simp
  | cons first rest inductionHypothesis =>
    rw [cons_append, rfind, inductionHypothesis, byteLength_cons]

theorem cutAfterLast_append_cons {before after : Text} {last : Char}
    (notAfter : last ∉ after) :
    cutAfterLast last (before ++ last :: after) =
      some (before ++ [last], after) := by
  have allAfter : ∀ char ∈ after.reverse, (char != last) = true :=
    fun char member => bne_iff_ne.mpr fun same =>
      notAfter (same ▸ mem_reverse.mp member)
  rw [cutAfterLast, if_pos (by simp), rdropWhile, rtakeWhile, reverse_append,
    reverse_cons, append_assoc, dropWhile_append_of_pos allAfter,
    takeWhile_append_of_pos allAfter]
  simp

theorem splitMetricSliced_eq (line : Text) :
    splitMetricSliced line = some (splitMetric line) := by
  rw [splitMetricSliced, splitMetric]
  by_cases braced : '}' ∈ line
  · obtain ⟨before, after, isLine, notAfter⟩ :
        ∃ before after, line = before ++ '}' :: after ∧ '}' ∉ after := by
      obtain ⟨after, before, isReverse, notAfter⟩ :=
        eq_append_cons_of_mem (mem_reverse.mpr braced)
      refine ⟨before.reverse, after.reverse, ?_, by simpa using notAfter⟩
      rw [← reverse_reverse line, isReverse]
      simp
    subst isLine
    have sliced (more : Text) :
        byteLength before + 1 + byteLength more =
          byteLength (before ++ '}' :: more) := by
      rw [byteLength_append, byteLength_cons]
      exact Nat.add_assoc _ _ _
    have remainder :
        sliceFrom (before ++ '}' :: after) (byteLength before + 1) =
          some after :=
      sliceFrom_eq_some_iff.mpr ⟨before ++ ['}'], by simp, (sliced []).symm⟩
    have metric :
        sliceTo (before ++ '}' :: after) (byteLength before + 1) =
          some (before ++ ['}']) :=
      sliceTo_eq_some_iff.mpr ⟨after, by simp, (sliced []).symm⟩
    rw [rfind_append_cons notAfter, cutAfterLast_append_cons notAfter]
    simp only [remainder, metric, Option.bind_eq_bind, Option.bind_some]
    rcases cutAt_cases isWhitespace after with
      ⟨notFound, isNone⟩ | ⟨first, char, rest, rfl, _, _, found, isCut⟩
    · rw [notFound, isNone]
      rfl
    · have later :
          sliceFrom (before ++ '}' :: (first ++ char :: rest))
              (byteLength before + 1 + byteLength first) =
            some (char :: rest) :=
        sliceFrom_eq_some_iff.mpr
          ⟨before ++ '}' :: first, by simp, (sliced first).symm⟩
      rw [found, isCut]
      simp [later]
  · rw [rfind_eq_none braced, cutAfterLast, if_neg braced]
    rcases cutAt_cases isWhitespace line with
      ⟨notFound, isNone⟩ | ⟨before, char, after, rfl, _, _, found, isCut⟩
    · rw [notFound, isNone]
      rfl
    · rw [found, isCut]
      simp

theorem splitTimestampSliced_eq (rest : Text) :
    splitTimestampSliced rest = some (splitTimestamp rest) := by
  rw [splitTimestampSliced, splitTimestamp]
  rcases cutAt_cases isWhitespace rest with
    ⟨notFound, isNone⟩ | ⟨before, char, after, rfl, _, _, found, isCut⟩
  · rw [notFound, isNone]
    rfl
  · rw [found, isCut]
    simp

theorem betweenQuotes_eq {quote : Char} (narrow : quote.utf8Size = 1)
    {rawValue : Text} (enough : 2 ≤ byteLength rawValue)
    (first : rawValue.head? = some quote)
    (last : rawValue.getLast? = some quote) :
    slice rawValue 1 (byteLength rawValue - 1) = some rawValue.tail.dropLast ∧
      betweenQuotes quote rawValue = some rawValue.tail.dropLast := by
  refine ⟨?_, if_pos ⟨first, last⟩⟩
  obtain ⟨rest, rfl⟩ := head?_eq_some_iff.mp first
  cases rest using List.reverseRecOn with
  | nil =>
    rw [byteLength_cons, narrow] at enough
    exact absurd enough (by decide)
  | append_singleton inner closing =>
    have isQuote : closing = quote := by
      rw [← cons_append, getLast?_concat] at last
      exact Option.some.inj last
    subst isQuote
    rw [tail_cons, dropLast_concat]
    refine slice_eq_some_iff.mpr ⟨[closing], [closing], by simp, ?_, ?_⟩
    · simp [narrow]
    · simp [narrow]
      omega

theorem parseTextLabelSliced_eq (label : Text) :
    parseTextLabelSliced label = some (parseTextLabel label) := by
  rw [parseTextLabelSliced, parseTextLabel]
  rcases cutAt_cases (· == '=') label with
    ⟨notFound, isNone⟩ | ⟨before, char, after, rfl, isEqual, _, found, isCut⟩
  · rw [notFound, isNone]
    rfl
  · obtain rfl : char = '=' := beq_iff_eq.mp isEqual
    have value :
        sliceFrom (before ++ '=' :: after) (byteLength before + 1) =
          some after :=
      sliceFrom_eq_some_iff.mpr ⟨before ++ ['='], by simp, by simp; rfl⟩
    rw [found, isCut]
    simp only [sliceTo_append, value, Option.bind_eq_bind, Option.bind_some,
      drop_one, tail_cons]
    split
    · rfl
    split
    · rfl
    rename_i enough
    rw [Nat.not_lt] at enough
    cases isFirst : (trim after).head? with
    | none =>
      rw [head?_eq_none_iff.mp isFirst] at enough
      exact absurd enough (by decide)
    | some firstChar =>
      cases isLast : (trim after).getLast? with
      | none =>
        rw [getLast?_eq_none_iff.mp isLast] at enough
        exact absurd enough (by decide)
      | some lastChar =>
        have unquoted {quote : Char}
            (notQuoted : ¬(firstChar = quote ∧ lastChar = quote)) :
            betweenQuotes quote (trim after) = none :=
          if_neg fun ⟨opens, closes⟩ => notQuoted
            ⟨Option.some.inj (isFirst.symm.trans opens),
              Option.some.inj (isLast.symm.trans closes)⟩
        simp only [Option.bind_some]
        split
        · rename_i quoted
          obtain ⟨rfl, rfl⟩ := quoted
          obtain ⟨sliced, between⟩ := betweenQuotes_eq rfl enough isFirst isLast
          rw [sliced, between]
          rfl
        · rename_i notDouble
          rw [unquoted notDouble, Option.none_or]
          split
          · rename_i quoted
            obtain ⟨rfl, rfl⟩ := quoted
            obtain ⟨sliced, between⟩ :=
              betweenQuotes_eq rfl enough isFirst isLast
            rw [sliced, between]
            rfl
          · rename_i notSingle
            rw [unquoted notSingle]
            rfl

theorem parseTextLabelsSliced_eq (parts : List Text) :
    parseTextLabelsSliced parts = some (parseTextLabels parts) := by
  induction parts with
  | nil => rfl
  | cons part rest inductionHypothesis =>
    rw [parseTextLabelsSliced, parseTextLabels, parseTextLabelSliced_eq,
      inductionHypothesis]
    split
    · rfl
    · cases parseTextLabel (trim part) with
      | none => rfl
      | some label => rfl

theorem parseMetricSliced_eq (metric : Text) :
    parseMetricSliced metric = some (parseMetric metric) := by
  rw [parseMetricSliced, parseMetric]
  rcases cutAt_cases (· == '{') metric with
    ⟨notFound, isNone⟩ | ⟨name, char, inside, isMetric, isOpen, _, found, isCut⟩
  · rw [notFound, isNone]
    rfl
  · obtain rfl : char = '{' := beq_iff_eq.mp isOpen
    rw [found, isCut]
    simp only [isMetric, sliceTo_append, Option.bind_eq_bind, Option.bind_some]
    split
    · rfl
    rcases cutAt_cases (· == '}') (name ++ '{' :: inside) with
      ⟨notClosed, isNone⟩ |
        ⟨before, last, after, isText, isClose, _, closed, isCut⟩
    · rw [notClosed, isNone]
      rfl
    · obtain rfl : last = '}' := beq_iff_eq.mp isClose
      rw [closed, isCut]
      simp only
      rcases append_eq_append_iff.mp isText with
        ⟨middle, rfl, isInside⟩ | ⟨middle, rfl, _⟩
      · cases middle with
        | nil => cases isInside
        | cons first labels =>
          rw [cons_append] at isInside
          obtain ⟨rfl, rfl⟩ := List.cons.inj isInside
          have wide := Char.utf8Size_pos '{'
          have sliced :
              slice (name ++ '{' :: (labels ++ '}' :: after))
                  (byteLength name + 1) (byteLength (name ++ '{' :: labels)) =
                some labels :=
            slice_eq_some_iff.mpr ⟨name ++ ['{'], '}' :: after, by simp,
              by simp; rfl, by simp; omega⟩
          have longer :
              byteLength name < byteLength (name ++ '{' :: labels) := by
            rw [byteLength_append, byteLength_cons]
            omega
          have dropped :
              (name ++ '{' :: labels).drop (name.length + 1) = labels := by
            rw [drop_append, drop_of_length_le (Nat.le_succ _)]
            simp
          rw [if_neg (Nat.not_le.mpr longer), if_neg (by simp), sliced, dropped]
          simp only [parseTextLabelsSliced_eq, Option.bind_some]
          rfl
      · have shorter := Nat.le_add_right (byteLength before) (byteLength middle)
        rw [← byteLength_append] at shorter
        rw [if_pos shorter, if_pos (by simp)]
        rfl

theorem parseTextLineSliced_eq (parseValue : Text → Option Value)
    (now : Timestamp) (rawLine : Text) :
    parseTextLineSliced parseValue now rawLine =
      some (parseTextLine parseValue now rawLine) := by
  rw [parseTextLineSliced, parseTextLine, splitMetricSliced_eq]
  split
  · rfl
  · simp only [Option.bind_eq_bind, Option.bind_some]
    cases splitMetric (trim rawLine) with
    | none => rfl
    | some parts =>
      simp only [splitTimestampSliced_eq, parseMetricSliced_eq,
        Option.bind_some]
      split
      · rfl
      cases parseMetric parts.1 with
      | none => rfl
      | some labelPairs => rfl

end Slices

/-!
## The scraper
-/

structure ParsedMetric where
  name : Text
  labels : FiniteMap Text Text
  value : Value
  timestamp : Option Timestamp

def splitWhitespace (text : Text) : List Text :=
  (text.splitOnP isWhitespace).filter (· ≠ [])

def parsePair (pair : Text) : Except String (Text × Text) :=
  match cutAt (· == '=') pair with
  | none => .error "Missing label value"
  | some (key, fromEqual) =>
    .ok (trim key, trimMatches '"' (trim (fromEqual.drop 1)))

def insertPair (labels : FiniteMap Text Text) (part : Text) :
    Except String (FiniteMap Text Text) :=
  if trim part = [] then .ok labels
  else
    (parsePair (trim part)).map fun label => labels.insert label.1 label.2

/-- All brackets are cut off, opening ones at the start, others at the end. -/
def parseLabels (labelsStr : Text) : Except String (FiniteMap Text Text) :=
  let content := (labelsStr.dropWhile (· == '{')).rdropWhile (· == '}')
  (content.splitOn ',').foldlM insertPair ∅

/-- A timestamp that is no number is passed over. -/
def parseMetricLine (parseValue : Text → Option Value) (line : Text) :
    Option (Except String ParsedMetric) :=
  match splitWhitespace line with
  | [] => some (.error "Missing metric name")
  | [_] => some (.error "Missing metric value")
  | nameAndLabels :: valueStr :: rest => do
    let timestamp := rest.head?.bind Migration.parseI64
    let parts : Except String (Text × FiniteMap Text Text) ←
      match find (· == '{') nameAndLabels with
      | none => some (.ok (nameAndLabels, ∅))
      | some bracketPos => do
        let name ← sliceTo nameAndLabels bracketPos
        let labelsStr ← sliceFrom nameAndLabels bracketPos
        some ((parseLabels labelsStr).map (name, ·))
    match parts, parseValue valueStr with
    | .error cause, _ => some (.error cause)
    | .ok _, none => some (.error "Invalid value: invalid float literal")
    | .ok (name, labels), some value =>
      some (.ok ⟨name, labels, value, timestamp⟩)

theorem parseMetricLine_isSome (parseValue : Text → Option Value)
    (line : Text) :
    (parseMetricLine parseValue line).isSome = true := by
  rw [parseMetricLine]
  split
  · rfl
  · rfl
  · rename_i nameAndLabels valueStr rest _
    rcases cutAt_cases (· == '{') nameAndLabels with
      ⟨notFound, _⟩ | ⟨name, char, labels, rfl, _, _, found, _⟩
    · rw [notFound]
      cases parseValue valueStr <;> rfl
    · rw [found]
      simp only [sliceTo_append, sliceFrom_append, Option.bind_eq_bind,
        Option.bind_some]
      cases parseLabels (char :: labels) with
      | error cause => rfl
      | ok parsed => cases parseValue valueStr <;> rfl

/-!
## Lines that are written
-/

def labelText (label : Text × Text) : Text :=
  label.1 ++ '=' :: '"' :: (label.2 ++ ['"'])

def labelsText (labels : List (Text × Text)) : Text :=
  [','].intercalate (labels.map labelText)

def expositionLine (text : Migration.ExportText) (name : Text)
    (labels : List (Text × Text)) (value : Value) (timestamp : Timestamp) :
    Text :=
  name ++ '{' :: (labelsText labels ++ '}' :: ' ' ::
    (text.displayValue value ++ ' ' :: Decimal.display timestamp.toInt))

def PlainName (name : Text) : Prop :=
  ∀ char ∈ name, isWhitespace char = false ∧ char ≠ '{' ∧ char ≠ '}'

/-- The domain of the lines. -/
structure IsSeries (name : Text) (labels : List (Text × Text)) : Prop where
  plainName : PlainName name
  distinct : (labels.map Prod.fst).Nodup
  plainValues :
    ∀ label ∈ labels, ∀ char ∈ label.2,
      char ≠ '"' ∧ char ≠ '\\' ∧ char ≠ '\n' ∧ char ≠ '\r'

def lineLabels (name : Text) (labels : List (Text × Text)) : Labels :=
  sortByKey Label.name
    ((("__name__".toList, name) :: labels).map fun label =>
      ⟨String.ofList label.1, String.ofList label.2⟩)

/-- Both parsers return what the line was written from. -/
structure ParsesBack (text : Migration.ExportText) (now : Timestamp)
    (name : Text) (labels : List (Text × Text)) (value : Value)
    (timestamp : Timestamp) :
    Prop where
  remoteWrite :
    parseTextLineSliced text.parseValue now
        (expositionLine text name labels value timestamp) =
      some (some (lineLabels name labels, [⟨timestamp, value⟩]))
  scraper :
    ∃ parsed,
      parseMetricLine text.parseValue
          (expositionLine text name labels value timestamp) =
        some (.ok parsed) ∧
      parsed.name = name ∧ parsed.value = value ∧
        parsed.timestamp = some timestamp ∧
          ∀ key content,
            parsed.labels.lookup key = some content ↔ (key, content) ∈ labels

/--
The metric and every label have a name, the names and values of the labels have
no separator that one of the parsers cuts at, and the labels do not start with a
bracket.
-/
structure IsPlain (name : Text) (labels : List (Text × Text)) : Prop where
  named : name ≠ []
  labelNamed : ∀ label ∈ labels, label.1 ≠ []
  plainNames :
    ∀ label ∈ labels, ∀ char ∈ label.1,
      isWhitespace char = false ∧ char ≠ ',' ∧ char ≠ '}' ∧ char ≠ '='
  plainValues :
    ∀ label ∈ labels, ∀ char ∈ label.2,
      isWhitespace char = false ∧ char ≠ ',' ∧ char ≠ '}'
  starts : ∀ label ∈ labels.head?, label.1.head? ≠ some '{'

/-- No parser cuts inside the label, but for what is around its name. -/
structure PlainLabel (label : Text × Text) : Prop where
  noEqual : '=' ∉ label.1
  plain :
    ∀ char, char ∈ label.1 ∨ char ∈ label.2 →
      isWhitespace char = false ∧ char ≠ ',' ∧ char ≠ '}'

theorem PlainLabel.visible_name {label : Text × Text}
    (plain : PlainLabel label) : ∀ char ∈ label.1, isWhitespace char = false :=
  fun char member => (plain.plain char (.inl member)).1

theorem PlainLabel.visible_value {label : Text × Text}
    (plain : PlainLabel label) : ∀ char ∈ label.2, isWhitespace char = false :=
  fun char member => (plain.plain char (.inr member)).1

section Written

variable {text : Migration.ExportText} {now : Timestamp} {name : Text}
variable {labels : List (Text × Text)} {value : Value} {timestamp : Timestamp}

theorem visible_of_number {char : Char}
    (isNumber : char.isDigit = true ∨ char = '-' ∨ char = '.') :
    isWhitespace char = false ∧ char ≠ '}' := by
  rcases isNumber with isDigit | rfl | rfl
  · have bounds : 48 ≤ char.toNat ∧ char.toNat ≤ 57 := by
      simpa [Char.isDigit, UInt32.le_iff_toNat_le] using isDigit
    refine ⟨?_, ?_⟩
    · simp only [isWhitespace, Bool.or_eq_false_iff, Bool.and_eq_false_iff,
        beq_eq_false_iff_ne, ne_eq, ← UInt32.toNat_inj, decide_eq_false_iff_not,
        UInt32.le_iff_toNat_le]
      simp
      omega
    · rintro rfl
      revert bounds
      decide
  · decide
  · decide

theorem visible_displayValue :
    ∀ char ∈ text.displayValue value, isWhitespace char = false ∧ char ≠ '}' :=
  fun char member => visible_of_number (text.mem_display value char member)

theorem visible_timestamp :
    ∀ char ∈ Decimal.display timestamp.toInt,
      isWhitespace char = false ∧ char ≠ '}' :=
  fun _ member =>
    visible_of_number ((Decimal.mem_display member).imp_right .inl)

theorem trim_eq_self {word : Text}
    (visible : ∀ char ∈ word, isWhitespace char = false) :
    trim word = word := by
  have surrounded :=
    @trim_surrounded [] word [] (fun _ => nofun) visible fun _ => nofun
  rwa [nil_append, append_nil] at surrounded

theorem trim_cons_blank (rest : Text) : trim (' ' :: rest) = trim rest :=
  rfl

theorem display_ne_nil (number : ℤ) : Decimal.display number ≠ [] := by
  rw [Decimal.display]
  split
  · exact cons_ne_nil _ _
  · exact Nat.toDigits_ne_nil

theorem parseI64_display :
    Migration.parseI64 (Decimal.display timestamp.toInt) = some timestamp := by
  rw [Migration.parseI64, Decimal.parse_display
    ⟨timestamp.minValue_le_toInt, timestamp.toInt_le⟩]
  simp

/-- What stands after the labels. -/
def written (text : Migration.ExportText) (value : Value)
    (timestamp : Timestamp) : Text :=
  text.displayValue value ++ ' ' :: Decimal.display timestamp.toInt

theorem written_visible (printed : text.displayValue value ≠ []) :
    HasVisibleEnds (written text value timestamp) where
  first char isFirst := by
    rw [written, head?_append_of_ne_nil _ printed] at isFirst
    exact (visible_displayValue char (mem_of_head? isFirst)).1
  last char isLast := by
    rw [written, ← singleton_append, ← append_assoc,
      getLast?_append_of_ne_nil _ (display_ne_nil _)] at isLast
    exact (visible_timestamp char (mem_of_getLast? isLast)).1

theorem splitMetric_line (printed : text.displayValue value ≠ [])
    (plainName : PlainName name) :
    trim (expositionLine text name labels value timestamp) =
        expositionLine text name labels value timestamp ∧
      splitMetric (expositionLine text name labels value timestamp) =
        some (name ++ '{' :: (labelsText labels ++ ['}']),
          written text value timestamp) := by
  have isLine :
      expositionLine text name labels value timestamp =
        (name ++ '{' :: labelsText labels) ++ '}' :: ' ' ::
          written text value timestamp := by
    simp [expositionLine, written]
  have ends := @written_visible _ _ timestamp printed
  constructor
  · rw [isLine]
    refine HasVisibleEnds.trim_eq
      ⟨fun char isFirst => ?_, fun char isLast => ?_⟩
    · cases name with
      | nil =>
        cases isFirst
        rfl
      | cons first rest =>
        cases isFirst
        exact (plainName _ mem_cons_self).1
    · refine ends.last char ?_
      have notNil : written text value timestamp ≠ [] := by simp [written]
      rwa [getLast?_append_of_ne_nil _ (cons_ne_nil _ _), getLast?_cons_cons,
        ← singleton_append, getLast?_append_of_ne_nil _ notNil] at isLast
  · have notAfter : '}' ∉ ' ' :: written text value timestamp := by
      intro member
      rw [written, mem_cons, mem_append, mem_cons] at member
      rcases member with isBlank | inValue | isBlank | inTimestamp
      · exact absurd isBlank (by decide)
      · exact (visible_displayValue _ inValue).2 rfl
      · exact absurd isBlank (by decide)
      · exact (visible_timestamp _ inTimestamp).2 rfl
    rw [isLine, splitMetric, cutAfterLast_append_cons notAfter]
    have cut :=
      @cutAt_append_cons isWhitespace [] (written text value timestamp) ' '
        nofun rfl
    rw [nil_append] at cut
    simp only [cut, Option.map_some, trim_cons_blank, ends.trim_eq]
    simp

theorem splitTimestamp_written :
    splitTimestamp (written text value timestamp) =
      (text.displayValue value, Decimal.display timestamp.toInt) := by
  rw [splitTimestamp, written, cutAt_append_cons
    (fun char member => (visible_displayValue char member).1) rfl]
  simp only
  rw [trim_eq_self fun char member => (visible_displayValue char member).1,
    trim_cons_blank, trim_eq_self fun char member =>
      (visible_timestamp char member).1]

theorem parseMetric_line
    (plainName : PlainName name) :
    parseMetric (name ++ '{' :: (labelsText labels ++ ['}'])) =
      if name = [] then none
      else
        (parseTextLabels
          (((labelsText labels).takeWhile (· != '}')).splitOn ',')).map
          (("__name__".toList, name) :: ·) := by
  have opens :
      cutAt (· == '{') (name ++ '{' :: (labelsText labels ++ ['}'])) =
        some (name, '{' :: (labelsText labels ++ ['}'])) :=
    cutAt_mark fun member => (plainName _ member).2.1 rfl
  obtain ⟨after, closes⟩ :
      ∃ after,
        cutAt (· == '}') (name ++ '{' :: (labelsText labels ++ ['}'])) =
          some (name ++ '{' :: (labelsText labels).takeWhile (· != '}'),
            '}' :: after) := by
    obtain ⟨after, isAfter⟩ :
        ∃ after, (labelsText labels).dropWhile (· != '}') ++ ['}'] =
          '}' :: after := by
      have stops := head?_dropWhile_not (· != '}') (labelsText labels)
      cases dropped : (labelsText labels).dropWhile (· != '}') with
      | nil => exact ⟨[], rfl⟩
      | cons first rest =>
        rw [dropped] at stops
        exact ⟨rest ++ ['}'], by simpa using stops⟩
    refine ⟨after, ?_⟩
    have isText :
        name ++ '{' :: (labelsText labels ++ ['}']) =
          (name ++ '{' :: (labelsText labels).takeWhile (· != '}')) ++
            '}' :: after := by
      rw [← isAfter, append_assoc, cons_append, ← append_assoc (takeWhile _ _),
        takeWhile_append_dropWhile]
    rw [isText]
    refine cutAt_append_cons (fun char member => ?_) rfl
    rcases mem_append.mp member with inName | inLabels
    · simpa using (plainName char inName).2.2
    · rcases mem_cons.mp inLabels with rfl | inLabels
      · rfl
      · simpa using mem_takeWhile_imp inLabels
  rw [parseMetric, opens]
  simp only [closes, trim_eq_self fun char member => (plainName char member).1]
  split
  · rfl
  · rw [if_neg (by simp), drop_append, drop_of_length_le (Nat.le_succ _)]
    simp

theorem parseTextLine_line (printed : text.displayValue value ≠ [])
    (plainName : PlainName name) :
    parseTextLineSliced text.parseValue now
        (expositionLine text name labels value timestamp) =
      some (if name = [] then none
        else
          (parseTextLabels
            (((labelsText labels).takeWhile (· != '}')).splitOn ',')).map
            fun pairs => (lineLabels name pairs, [⟨timestamp, value⟩])) := by
  obtain ⟨trimmed, isSplit⟩ :=
    @splitMetric_line _ _ labels _ timestamp printed plainName
  rw [parseTextLineSliced_eq, parseTextLine]
  simp only [trimmed, isSplit, splitTimestamp_written, text.parse_display,
    parseMetric_line plainName, if_neg (display_ne_nil _), parseI64_display]
  rw [if_neg (by simp [expositionLine]), if_neg (by simp [written])]
  by_cases named : name = []
  · rw [if_pos named, if_pos named]
  · rw [if_neg named, if_neg named]
    cases parseTextLabels
      (((labelsText labels).takeWhile (· != '}')).splitOn ',') with
    | none => rfl
    | some pairs => rfl

theorem parseTextLabel_range {part : Text} {pair : Text × Text}
    (parsed : parseTextLabel part = some pair) :
    pair.1 ≠ [] ∧ '=' ∉ pair.1 ∧
      ∀ char, char ∈ pair.1 ∨ char ∈ pair.2 → char ∈ part := by
  rw [parseTextLabel] at parsed
  rcases cutAt_cases (· == '=') part with
    ⟨_, isNone⟩ | ⟨before, char, after, rfl, _, notBefore, _, isCut⟩
  · rw [isNone] at parsed
    cases parsed
  · rw [isCut] at parsed
    simp only at parsed
    split at parsed
    · cases parsed
    rename_i named
    split at parsed
    · cases parsed
    obtain ⟨content, quoted, rfl⟩ := Option.map_eq_some_iff.mp parsed
    have inBefore {char : Char} (member : char ∈ trim before) :
        char ∈ before := (isInfix_trim before).mem member
    refine ⟨named, fun isEqual => absurd (notBefore _ (inBefore isEqual))
      (by simp), fun char member => ?_⟩
    rcases member with inName | inContent
    · exact mem_append_left _ (inBefore inName)
    · refine mem_append_right _ (mem_cons_of_mem _ ?_)
      refine (isInfix_trim after).mem ?_
      have between {quote : Char}
          (isContent : betweenQuotes quote (trim after) = some content) :
          char ∈ trim after := by
        rw [betweenQuotes] at isContent
        split at isContent
        · cases isContent
          exact mem_of_mem_tail (mem_of_mem_dropLast inContent)
        · cases isContent
      exact (Option.or_eq_some_iff.mp quoted).elim between fun ⟨_, isSingle⟩ =>
        between isSingle

theorem mem_parseTextLabels {parts : List Text} {pairs : List (Text × Text)}
    (parsed : parseTextLabels parts = some pairs) {pair : Text × Text}
    (member : pair ∈ pairs) :
    ∃ part ∈ parts, parseTextLabel (trim part) = some pair := by
  induction parts generalizing pairs with
  | nil =>
    cases parsed
    cases member
  | cons first rest inductionHypothesis =>
    rw [parseTextLabels] at parsed
    have inRest {others : List (Text × Text)}
        (isRest : parseTextLabels rest = some others)
        (isOther : pair ∈ others) :
        ∃ part ∈ first :: rest, parseTextLabel (trim part) = some pair := by
      obtain ⟨part, isPart, isPair⟩ := inductionHypothesis isRest isOther
      exact ⟨part, mem_cons_of_mem _ isPart, isPair⟩
    split at parsed
    · exact inRest parsed member
    · cases isFirst : parseTextLabel (trim first) with
      | none =>
        rw [isFirst] at parsed
        cases parsed
      | some label =>
        rw [isFirst] at parsed
        obtain ⟨others, isRest, rfl⟩ := Option.map_eq_some_iff.mp parsed
        rcases mem_cons.mp member with rfl | isOther
        · exact ⟨first, mem_cons_self, isFirst⟩
        · exact inRest isRest isOther

theorem plain_of_remoteWrite (printed : text.displayValue value ≠ [])
    (isSeries : IsSeries name labels)
    (parsed :
      parseTextLineSliced text.parseValue now
          (expositionLine text name labels value timestamp) =
        some (some (lineLabels name labels, [⟨timestamp, value⟩]))) :
    name ≠ [] ∧
      ∀ label ∈ labels,
        label.1 ≠ [] ∧ '=' ∉ label.1 ∧
          ∀ char, char ∈ label.1 ∨ char ∈ label.2 →
            char ≠ ',' ∧ char ≠ '}' := by
  rw [parseTextLine_line printed isSeries.plainName] at parsed
  split at parsed
  · cases parsed
  rename_i named
  obtain ⟨pairs, isPairs, same⟩ :=
    Option.map_eq_some_iff.mp (Option.some.inj parsed)
  have sameLabels := (Prod.mk.inj same).1
  have reordered : pairs.Perm labels := by
    have sorted :=
      (sortByKey_perm Label.name _).symm.trans
        ((Perm.of_eq sameLabels).trans (sortByKey_perm Label.name _))
    refine ((map_perm_map_iff fun first second same => ?_).mp sorted).cons_inv
    simp only [Label.mk.injEq, String.ofList_inj] at same
    exact Prod.ext same.1 same.2
  refine ⟨named, fun label isLabel => ?_⟩
  obtain ⟨part, isPart, isPair⟩ :=
    mem_parseTextLabels isPairs (reordered.mem_iff.mpr isLabel)
  obtain ⟨labelNamed, noEqual, inPart⟩ := parseTextLabel_range isPair
  refine ⟨labelNamed, noEqual, fun char member => ?_⟩
  obtain ⟨inInside, notComma⟩ := mem_of_mem_splitOn isPart
    ((isInfix_trim part).mem (inPart char member))
  exact ⟨notComma, by simpa using mem_takeWhile_imp inInside⟩

theorem trim_quoted {content : Text}
    (visible : ∀ char ∈ content, isWhitespace char = false) :
    trim ('"' :: (content ++ ['"'])) = '"' :: (content ++ ['"']) := by
  refine trim_eq_self fun char member => ?_
  simp only [mem_cons, mem_append, not_mem_nil, or_false] at member
  rcases member with rfl | inContent | rfl
  · rfl
  · exact visible char inContent
  · rfl

theorem PlainLabel.parseTextLabel_eq {label : Text × Text}
    (plain : PlainLabel label) (named : label.1 ≠ []) :
    parseTextLabel (labelText label) = some label := by
  rw [parseTextLabel, labelText, cutAt_mark plain.noEqual]
  simp only [drop_one, tail_cons, trim_quoted plain.visible_value,
    trim_eq_self plain.visible_name, if_neg named]
  have enough : ¬byteLength ('"' :: (label.2 ++ ['"'])) < 2 := by
    have wide := Char.utf8Size_pos '"'
    simp only [byteLength_cons, byteLength_append, byteLength_nil]
    omega
  have closes : ('"' :: (label.2 ++ ['"'])).getLast? = some '"' := by
    rw [← cons_append, getLast?_concat]
  rw [if_neg enough, betweenQuotes, if_pos ⟨rfl, closes⟩]
  simp

theorem PlainLabel.mem_labelText {label : Text × Text}
    (plain : PlainLabel label) :
    ∀ char ∈ labelText label,
      isWhitespace char = false ∧ char ≠ ',' ∧ char ≠ '}' := by
  intro char member
  simp only [labelText, mem_cons, mem_append, not_mem_nil, or_false] at member
  rcases member with inName | rfl | rfl | inContent | rfl
  · exact plain.plain char (.inl inName)
  · decide
  · decide
  · exact plain.plain char (.inr inContent)
  · decide

theorem PlainLabel.trim_labelText {label : Text × Text}
    (plain : PlainLabel label) : trim (labelText label) = labelText label :=
  trim_eq_self fun char member => (plain.mem_labelText char member).1

theorem mem_labelsText (plain : ∀ label ∈ labels, PlainLabel label) :
    ∀ char ∈ labelsText labels,
      isWhitespace char = false ∧ (char != '}') = true := by
  intro char member
  rcases mem_of_mem_intercalate member with rfl | ⟨part, isPart, inPart⟩
  · decide
  · obtain ⟨label, isLabel, rfl⟩ := mem_map.mp isPart
    obtain ⟨visible, _, notBrace⟩ :=
      (plain label isLabel).mem_labelText char inPart
    exact ⟨visible, bne_iff_ne.mpr notBrace⟩

theorem splitOn_labelsText (nonempty : labels ≠ [])
    (plain : ∀ label ∈ labels, PlainLabel label) :
    (labelsText labels).splitOn ',' = labels.map labelText := by
  refine splitOn_intercalate ',' (fun part isPart member => ?_)
    (by simpa using nonempty)
  obtain ⟨label, isLabel, rfl⟩ := mem_map.mp isPart
  exact ((plain label isLabel).mem_labelText _ member).2.1 rfl

theorem parseTextLabels_labelsText
    (plain : ∀ label ∈ labels, PlainLabel label)
    (named : ∀ label ∈ labels, label.1 ≠ []) :
    parseTextLabels ((labelsText labels).splitOn ',') = some labels := by
  have read :
      ∀ rest : List (Text × Text), (∀ label ∈ rest, label ∈ labels) →
        parseTextLabels (rest.map labelText) = some rest := by
    intro rest
    induction rest with
    | nil => exact fun _ => rfl
    | cons first rest inductionHypothesis =>
      intro among
      obtain ⟨isFirst, amongRest⟩ := forall_mem_cons.mp among
      rw [map_cons, parseTextLabels, (plain first isFirst).trim_labelText,
        if_neg (by simp [labelText]),
        (plain first isFirst).parseTextLabel_eq (named first isFirst),
        inductionHypothesis amongRest]
      rfl
  by_cases isNil : labels = []
  · subst isNil
    rfl
  · rw [splitOn_labelsText isNil plain]
    exact read labels fun _ isLabel => isLabel

/-!
## The scraper on a line
-/

theorem splitWhitespace_append_cons {word rest : Text} {blank : Char}
    (visible : ∀ char ∈ word, isWhitespace char = false) (nonempty : word ≠ [])
    (isBlank : isWhitespace blank = true) :
    splitWhitespace (word ++ blank :: rest) = word :: splitWhitespace rest := by
  rw [splitWhitespace, splitOnP_append_cons_of_forall_mem visible _ isBlank,
    filter_cons, if_pos (decide_eq_true nonempty), splitWhitespace]

theorem splitWhitespace_word {word : Text}
    (visible : ∀ char ∈ word, isWhitespace char = false)
    (nonempty : word ≠ []) :
    splitWhitespace word = [word] := by
  rw [splitWhitespace, splitOnP_eq_singleton visible,
    filter_cons, if_pos (decide_eq_true nonempty), filter_nil]

theorem parseMetricLine_word
    {parseValue : Text → Option Value} {inner valueStr rest : Text}
    {others : List Text} {blank : Char}
    (plainName : PlainName name)
    (visible : ∀ char ∈ inner, isWhitespace char = false)
    (isBlank : isWhitespace blank = true)
    (words : splitWhitespace rest = valueStr :: others) :
    parseMetricLine parseValue (name ++ '{' :: inner ++ blank :: rest) =
      some ((parseLabels ('{' :: inner)).bind fun labels =>
        match parseValue valueStr with
        | none => .error "Invalid value: invalid float literal"
        | some value =>
          .ok ⟨name, labels, value, others.head?.bind Migration.parseI64⟩) := by
  have isWord : ∀ char ∈ name ++ '{' :: inner, isWhitespace char = false := by
    refine forall_mem_append.mpr ⟨fun char member => (plainName char member).1,
      forall_mem_cons.mpr ⟨rfl, visible⟩⟩
  have found :
      find (· == '{') (name ++ '{' :: inner) = some (byteLength name) :=
    find_eq_some_iff.mpr ⟨name, '{', inner, rfl, rfl, fun char member => by
      simpa using (plainName char member).2.1, rfl⟩
  rw [parseMetricLine, splitWhitespace_append_cons isWord (by simp) isBlank,
    words]
  simp only [found, sliceTo_append, sliceFrom_append, Option.bind_eq_bind,
    Option.bind_some]
  cases parseLabels ('{' :: inner) with
  | error cause => rfl
  | ok labels => cases parseValue valueStr <;> rfl

theorem mem_trimMatches {char quote : Char} {content : Text}
    (member : char ∈ trimMatches quote content) : char ∈ content :=
  (dropWhile_suffix _).mem (( rdropWhile_prefix _ _).mem member)

theorem mem_of_parsePair {part : Text} {pair : Text × Text}
    (parsed : parsePair part = .ok pair) {char : Char}
    (member : char ∈ pair.1 ∨ char ∈ pair.2) :
    char ∈ part := by
  rw [parsePair] at parsed
  rcases cutAt_cases (· == '=') part with
    ⟨_, isNone⟩ | ⟨before, mark, after, rfl, _, _, _, isCut⟩
  · rw [isNone] at parsed
    cases parsed
  · rw [isCut] at parsed
    cases parsed
    rcases member with inKey | inContent
    · exact mem_append_left _ ((isInfix_trim before).mem inKey)
    · exact mem_append_right _ (mem_cons_of_mem _
        ((isInfix_trim after).mem (mem_trimMatches inContent)))

theorem mem_of_parseLabels {labelsStr : Text} {parsed : FiniteMap Text Text}
    (isParsed : parseLabels labelsStr = .ok parsed) :
    ∀ key content, parsed.lookup key = some content →
      ∀ char, char ∈ key ∨ char ∈ content → char ∈ labelsStr := by
  refine @foldlM_preserves _ _ _ insertPair (fun items =>
    ∀ key content, items.lookup key = some content →
      ∀ char, char ∈ key ∨ char ∈ content → char ∈ labelsStr) _ ?_ _ _
    (fun _ _ found => by cases found) isParsed
  intro before part isPart after good inserted key content found char member
  rw [insertPair] at inserted
  split at inserted
  · cases inserted
    exact good key content found char member
  · cases isPair : parsePair (trim part) with
    | error cause =>
      rw [isPair] at inserted
      cases inserted
    | ok pair =>
      rw [isPair] at inserted
      cases inserted
      by_cases same : key = pair.1
      · subst same
        rw [AList.lookup_insert] at found
        cases found
        have inPart := (isInfix_trim part).mem (mem_of_parsePair isPair member)
        exact (dropWhile_suffix _).mem (( rdropWhile_prefix _ _).mem
          (mem_of_mem_splitOn isPart inPart).1)
      · rw [AList.lookup_insert_ne same] at found
        exact good key content found char member

theorem labelsText_cons (content : Text) (rest : List (Text × Text)) :
    ∃ more, ∀ key,
      labelsText ((key, content) :: rest) = key ++ '=' :: (more ++ ['"']) := by
  induction rest generalizing content with
  | nil =>
    exact ⟨'"' :: content, fun key => by simp [labelsText, labelText]⟩
  | cons next others inductionHypothesis =>
    obtain ⟨more, isRest⟩ := inductionHypothesis next.2
    refine ⟨'"' :: (content ++ '"' :: ',' :: (next.1 ++ '=' :: more)),
      fun key => ?_⟩
    have sameRest := isRest next.1
    rw [labelsText] at sameRest ⊢
    rw [map_cons, intercalate_cons_of_ne_nil (by simp), sameRest]
    simp [labelText]

def insertLabels (labels : List (Text × Text)) : FiniteMap Text Text :=
  labels.foldl (fun items label => items.insert label.1 label.2) ∅

theorem foldlM_labelText {items : FiniteMap Text Text}
    (plain : ∀ label ∈ labels, PlainLabel label)
    (noQuote : ∀ label ∈ labels, '"' ∉ label.2) :
    (labels.map labelText).foldlM insertPair items =
      .ok (labels.foldl (fun items label => items.insert label.1 label.2)
        items) := by
  induction labels generalizing items with
  | nil => rfl
  | cons first rest inductionHypothesis =>
    obtain ⟨plainFirst, plainRest⟩ := forall_mem_cons.mp plain
    obtain ⟨notInFirst, notInRest⟩ := forall_mem_cons.mp noQuote
    have unquoted : trimMatches '"' ('"' :: (first.2 ++ ['"'])) = first.2 := by
      have stops : ∀ char ∈ first.2, ¬(char == '"') = true :=
        fun char member same => notInFirst (beq_iff_eq.mp same ▸ member)
      rw [trimMatches, dropWhile_cons_of_pos rfl]
      cases isContent : first.2 with
      | nil => rfl
      | cons char others =>
        rw [isContent] at stops
        rw [cons_append, dropWhile_cons, if_neg (stops char mem_cons_self),
          ← cons_append, rdropWhile_concat_pos _ _ _ rfl,
          rdropWhile_eq_self_iff.mpr fun nonempty =>
            stops _ (getLast_mem nonempty)]
    have isPair : parsePair (labelText first) = .ok first := by
      rw [parsePair, labelText, cutAt_mark plainFirst.noEqual]
      simp only [drop_one, tail_cons, unquoted,
        trim_quoted plainFirst.visible_value,
        trim_eq_self plainFirst.visible_name]
    have inserted :
        insertPair items (labelText first) =
          .ok (items.insert first.1 first.2) := by
      rw [insertPair, plainFirst.trim_labelText, if_neg (by simp [labelText]),
        isPair]
      rfl
    rw [map_cons, foldlM_cons, inserted]
    exact inductionHypothesis plainRest notInRest

theorem parseLabels_labelsText {key content : Text}
    {rest : List (Text × Text)}
    (plain :
      ∀ label ∈ (key.dropWhile (· == '{'), content) :: rest,
        PlainLabel label)
    (noQuote :
      ∀ label ∈ (key.dropWhile (· == '{'), content) :: rest, '"' ∉ label.2) :
    parseLabels ('{' :: (labelsText ((key, content) :: rest) ++ ['}'])) =
      .ok (insertLabels ((key.dropWhile (· == '{'), content) :: rest)) := by
  obtain ⟨more, isText⟩ := labelsText_cons content rest
  have dropped (before after : Text) :
      (before ++ '=' :: after).dropWhile (· == '{') =
        before.dropWhile (· == '{') ++ '=' :: after := by
    rw [dropWhile_append]
    split
    · rename_i isNil
      rw [isEmpty_iff.mp isNil]
      rfl
    · rfl
  have kept :
      (key.dropWhile (· == '{') ++ '=' :: (more ++ ['"'])).rdropWhile
          (· == '}') =
        key.dropWhile (· == '{') ++ '=' :: (more ++ ['"']) := by
    rw [← cons_append, ← append_assoc, rdropWhile_concat_neg _ _ _ (by simp)]
  rw [parseLabels, isText, dropWhile_cons_of_pos rfl, append_assoc, cons_append,
    dropped, ← cons_append, ← append_assoc, rdropWhile_concat_pos _ _ _ rfl,
    kept, ← isText, splitOn_labelsText (cons_ne_nil _ _) plain,
    foldlM_labelText plain noQuote]
  rfl

theorem mem_of_lookup_insertLabels {key content : Text}
    (found : (insertLabels labels).lookup key = some content) :
    (key, content) ∈ labels := by
  induction labels using List.reverseRecOn with
  | nil => cases found
  | append_singleton earlier last inductionHypothesis =>
    rw [insertLabels, foldl_concat] at found
    by_cases same : key = last.1
    · subst same
      rw [AList.lookup_insert] at found
      cases found
      exact mem_append_right _ mem_cons_self
    · rw [AList.lookup_insert_ne same] at found
      exact mem_append_left _ (inductionHypothesis found)

theorem lookup_insertLabels (distinct : (labels.map Prod.fst).Nodup)
    {key content : Text} (member : (key, content) ∈ labels) :
    (insertLabels labels).lookup key = some content := by
  induction labels using List.reverseRecOn with
  | nil => cases member
  | append_singleton earlier last inductionHypothesis =>
    rw [insertLabels, foldl_concat]
    rw [map_append, nodup_append] at distinct
    rcases mem_append.mp member with inEarlier | isLast
    · have differs : key ≠ last.1 :=
        distinct.2.2 key (mem_map_of_mem inEarlier) last.1 mem_cons_self
      rw [AList.lookup_insert_ne differs]
      exact inductionHypothesis distinct.1 inEarlier
    · cases mem_singleton.mp isLast
      exact AList.lookup_insert _

theorem parseMetricLine_line (printed : text.displayValue value ≠ [])
    (plainName : PlainName name)
    (plain : ∀ label ∈ labels, PlainLabel label) :
    parseMetricLine text.parseValue
        (expositionLine text name labels value timestamp) =
      some ((parseLabels ('{' :: (labelsText labels ++ ['}']))).map
        fun items => ⟨name, items, value, some timestamp⟩) := by
  have isLine :
      expositionLine text name labels value timestamp =
        name ++ '{' :: (labelsText labels ++ ['}']) ++ ' ' ::
          written text value timestamp := by
    simp [expositionLine, written]
  have words :
      splitWhitespace (written text value timestamp) =
        [text.displayValue value, Decimal.display timestamp.toInt] := by
    rw [written, splitWhitespace_append_cons
      (fun char member => (visible_displayValue char member).1) printed rfl,
      splitWhitespace_word
        (fun char member => (visible_timestamp char member).1)
        (display_ne_nil _)]
  rw [isLine, parseMetricLine_word plainName (forall_mem_append.mpr
    ⟨fun char member => (mem_labelsText plain char member).1,
      by simp [isWhitespace]⟩) rfl words]
  simp only [text.parse_display, head?_cons, Option.bind_some, parseI64_display]
  cases parseLabels ('{' :: (labelsText labels ++ ['}'])) <;> rfl

theorem visible_of_scraper
    (plainName : PlainName name)
    {parsed : ParsedMetric}
    (isParsed :
      parseMetricLine text.parseValue
          (expositionLine text name labels value timestamp) =
        some (.ok parsed))
    {key content : Text} (found : parsed.labels.lookup key = some content)
    {char : Char} (member : char ∈ key ∨ char ∈ content) :
    isWhitespace char = false := by
  obtain ⟨inner, blank, rest, isRest, isBlank, visible⟩ :
      ∃ inner blank rest,
        labelsText labels ++ '}' :: ' ' :: written text value timestamp =
          inner ++ blank :: rest ∧
        isWhitespace blank = true ∧
          ∀ other ∈ inner, isWhitespace other = false := by
    rcases cutAt_cases isWhitespace
        (labelsText labels ++ '}' :: ' ' :: written text value timestamp) with
      ⟨notFound, _⟩ | ⟨inner, blank, rest, isRest, isBlank, visible, _⟩
    · exact absurd (find_eq_none_iff.mp notFound ' ' (by simp)) (by decide)
    · exact ⟨inner, blank, rest, isRest, isBlank, visible⟩
  have isLine :
      expositionLine text name labels value timestamp =
        name ++ '{' :: inner ++ blank :: rest := by
    rw [expositionLine, append_assoc, cons_append, ← isRest, written]
  rw [isLine] at isParsed
  have isWord : ∀ char ∈ name ++ '{' :: inner, isWhitespace char = false :=
    forall_mem_append.mpr ⟨fun char member => (plainName char member).1,
      forall_mem_cons.mpr ⟨rfl, visible⟩⟩
  cases words : splitWhitespace rest with
  | nil =>
    rw [parseMetricLine, splitWhitespace_append_cons isWord (by simp) isBlank,
      words] at isParsed
    cases isParsed
  | cons valueStr others =>
    rw [parseMetricLine_word plainName visible isBlank words] at isParsed
    cases isLabels : parseLabels ('{' :: inner) with
    | error cause =>
      rw [isLabels] at isParsed
      cases isParsed
    | ok items =>
      rw [isLabels] at isParsed
      have sameLabels : parsed.labels = items := by
        simp only [Except.bind] at isParsed
        cases isValue : text.parseValue valueStr with
        | none =>
          rw [isValue] at isParsed
          cases isParsed
        | some value =>
          rw [isValue] at isParsed
          cases isParsed
          rfl
      rw [sameLabels] at found
      rcases mem_cons.mp
          (mem_of_parseLabels isLabels key content found char member) with
        rfl | inInner
      · rfl
      · exact visible char inInner

/-- The first name is scraped without the brackets at its start. -/
theorem scraped_cons (printed : text.displayValue value ≠ [])
    (isSeries : IsSeries name labels) {key content : Text}
    {rest : List (Text × Text)} (isLabels : labels = (key, content) :: rest)
    (plain : ∀ label ∈ labels, PlainLabel label) :
    parseMetricLine text.parseValue
        (expositionLine text name labels value timestamp) =
      some (.ok ⟨name,
        insertLabels ((key.dropWhile (· == '{'), content) :: rest), value,
        some timestamp⟩) := by
  rw [parseMetricLine_line printed isSeries.plainName plain, isLabels]
  rw [isLabels] at plain
  have noQuote : ∀ label ∈ (key, content) :: rest, '"' ∉ label.2 := by
    rw [← isLabels]
    exact fun label isLabel member =>
      (isSeries.plainValues label isLabel _ member).1 rfl
  obtain ⟨⟨noEqual, plainFirst⟩, plainRest⟩ := forall_mem_cons.mp plain
  obtain ⟨notInFirst, notInRest⟩ := forall_mem_cons.mp noQuote
  have inKey {char : Char} (member : char ∈ key.dropWhile (· == '{')) :
      char ∈ key := (dropWhile_suffix _).mem member
  rw [parseLabels_labelsText
    (forall_mem_cons.mpr ⟨⟨noEqual ∘ inKey, fun char member =>
      plainFirst char (member.imp_left inKey)⟩, plainRest⟩)
    (forall_mem_cons.mpr ⟨notInFirst, notInRest⟩)]
  rfl

theorem IsPlain.plainLabel (plain : IsPlain name labels) :
    ∀ label ∈ labels, PlainLabel label := by
  intro label isLabel
  refine ⟨fun member => (plain.plainNames label isLabel _ member).2.2.2 rfl,
    fun char member => ?_⟩
  rcases member with inName | inValue
  · obtain ⟨visible, notComma, notBrace, _⟩ :=
      plain.plainNames label isLabel char inName
    exact ⟨visible, notComma, notBrace⟩
  · exact plain.plainValues label isLabel char inValue

theorem IsPlain.parsesBack (plain : IsPlain name labels)
    (printed : text.displayValue value ≠ [])
    (isSeries : IsSeries name labels) :
    ParsesBack text now name labels value timestamp := by
  constructor
  · rw [parseTextLine_line printed isSeries.plainName, if_neg plain.named,
      takeWhile_eq_self_iff.mpr fun char member =>
        (mem_labelsText plain.plainLabel char member).2,
      parseTextLabels_labelsText plain.plainLabel plain.labelNamed]
    rfl
  · cases isLabels : labels with
    | nil =>
      refine ⟨_, parseMetricLine_line printed isSeries.plainName nofun, rfl,
        rfl, rfl, fun key content => ?_⟩
      exact iff_of_false nofun nofun
    | cons first rest =>
      rw [← isLabels]
      have starts : first.1.dropWhile (· == '{') = first.1 := by
        have isFirst := plain.starts first (by simp [isLabels])
        cases isKey : first.1 with
        | nil => rfl
        | cons char key =>
          rw [isKey] at isFirst
          exact dropWhile_cons_of_neg (by simpa using isFirst)
      refine ⟨_, scraped_cons printed isSeries isLabels plain.plainLabel, rfl,
        rfl, rfl, fun key content => ?_⟩
      rw [starts, ← isLabels]
      exact ⟨mem_of_lookup_insertLabels, lookup_insertLabels isSeries.distinct⟩

theorem parsesBack_iff (printed : text.displayValue value ≠ [])
    (isSeries : IsSeries name labels) :
    ParsesBack text now name labels value timestamp ↔ IsPlain name labels := by
  refine ⟨fun parses => ?_, fun plain => plain.parsesBack printed isSeries⟩
  obtain ⟨named, read⟩ :=
    plain_of_remoteWrite printed isSeries parses.remoteWrite
  obtain ⟨parsed, isParsed, _, _, _, sameLabels⟩ := parses.scraper
  have plain : ∀ label ∈ labels, PlainLabel label := fun label isLabel =>
    ⟨(read label isLabel).2.1, fun char member =>
      ⟨visible_of_scraper isSeries.plainName isParsed
        ((sameLabels _ _).mpr isLabel) member,
        (read label isLabel).2.2 char member⟩⟩
  refine ⟨named, fun label isLabel => (read label isLabel).1,
    fun label isLabel char member => ?_, fun label isLabel char member =>
      (plain label isLabel).plain char (.inr member), ?_⟩
  · obtain ⟨visible, notComma, notBrace⟩ :=
      (plain label isLabel).plain char (.inl member)
    exact ⟨visible, notComma, notBrace,
      fun isEqual => (plain label isLabel).noEqual (isEqual ▸ member)⟩
  -- A first name that starts with a bracket is not among the scraped ones.
  · intro first isFirst opens
    obtain ⟨rest, isLabels⟩ := head?_eq_some_iff.mp isFirst
    rw [scraped_cons printed isSeries isLabels plain] at isParsed
    cases isParsed
    have isLabel : first ∈ labels := isLabels ▸ mem_cons_self
    rcases mem_cons.mp (mem_of_lookup_insertLabels
        ((sameLabels first.1 first.2).mpr isLabel)) with isStripped | inRest
    · have sameKey : first.1 = first.1.dropWhile (· == '{') :=
        congrArg Prod.fst isStripped
      have stops := head?_dropWhile_not (· == '{') first.1
      rw [← sameKey, opens] at stops
      simp at stops
    · have distinct := isSeries.distinct
      rw [isLabels, map_cons, nodup_cons] at distinct
      exact distinct.1 (mem_map_of_mem inRest)

/--
No line makes a parser panic, and both return what a line was written from
exactly when no label has white space or one of their separators in it.
-/
theorem exposition_lines_iff (printed : text.displayValue value ≠ [])
    (isSeries : IsSeries name labels) :
    (∀ line,
        (parseTextLineSliced text.parseValue now line).isSome = true ∧
          (parseMetricLine text.parseValue line).isSome = true) ∧
      (ParsesBack text now name labels value timestamp ↔
        IsPlain name labels) := by
  refine ⟨fun line => ⟨?_, parseMetricLine_isSome _ line⟩,
    parsesBack_iff printed isSeries⟩
  rw [parseTextLineSliced_eq]
  rfl

end Written

theorem printed_one : Migration.ExportText.basic.displayValue 1 ≠ [] :=
  display_ne_nil 1

/-- A label with an equals sign in its value. -/
theorem equals_sign_parses_back :
    ParsesBack .basic 0 "up".toList [("job".toList, "a=b".toList)] 1 5 :=
  (exposition_lines_iff printed_one
    ⟨by rw [PlainName]; decide, by decide, by decide⟩).2.mpr
    ⟨by decide, by decide, by decide, by decide, by decide⟩

/-- A label with a comma in its value. -/
theorem comma_is_cut :
    ¬ ∀ name labels value timestamp, IsSeries name labels →
        ParsesBack .basic 0 name labels value timestamp := by
  intro parses
  have isSeries : IsSeries "up".toList [("job".toList, "a,b".toList)] :=
    ⟨by rw [PlainName]; decide, by decide, by decide⟩
  have plain :=
    (parsesBack_iff printed_one isSeries).mp (parses _ _ 1 5 isSeries)
  exact (plain.plainValues _ mem_cons_self ',' (by decide)).2.1 rfl

/-!
## Bodies that are scraped
-/

/-- The metrics of one line, which are none if it cannot be parsed. -/
def metricsOfLine (parseValue : Text → Option Value) (rawLine : Text) :
    Option (List ParsedMetric) :=
  let line := trim rawLine
  if line = [] ∨ line.head? = some '#' then some []
  else (parseMetricLine parseValue line).map (·.toOption.toList)

def parseMetrics (parseValue : Text → Option Value) (content : Text) :
    Option (List ParsedMetric) :=
  ((Lines.lines content).mapM (metricsOfLine parseValue)).map flatten

structure Exposed where
  name : Text
  labels : List (Text × Text)
  value : Value
  timestamp : Timestamp

def Exposed.line (text : Migration.ExportText) (sample : Exposed) : Text :=
  expositionLine text sample.name sample.labels sample.value sample.timestamp

structure Exposed.IsRead (sample : Exposed) (parsed : ParsedMetric) :
    Prop where
  name : parsed.name = sample.name
  value : parsed.value = sample.value
  timestamp : parsed.timestamp = some sample.timestamp
  labels : ∀ key content,
    parsed.labels.lookup key = some content ↔ (key, content) ∈ sample.labels

/-- Samples on lines of their own, among comments and lines without a value. -/
inductive IsBody (text : Migration.ExportText) : Text → List Exposed → Prop
  | empty : IsBody text [] []
  | passOver {line rest : Text} {samples : List Exposed}
      (oneLine : '\n' ∉ line)
      (noSample :
        (trim (Lines.stripReturn line)).head? = some '#' ∨
          (splitWhitespace (trim (Lines.stripReturn line))).length < 2)
      (isBody : IsBody text rest samples) :
      IsBody text (line ++ '\n' :: rest) samples
  | expose {sample : Exposed} {rest : Text} {samples : List Exposed}
      (isSeries : IsSeries sample.name sample.labels)
      (plain : IsPlain sample.name sample.labels)
      (noComment : sample.name.head? ≠ some '#')
      (printed : text.displayValue sample.value ≠ [])
      (isBody : IsBody text rest samples) :
      IsBody text (sample.line text ++ '\n' :: rest) (sample :: samples)

theorem parseMetrics_append_cons {parseValue : Text → Option Value}
    {line : Text} (oneLine : '\n' ∉ line) {metrics : List ParsedMetric}
    (isLine :
      metricsOfLine parseValue (Lines.stripReturn line) = some metrics)
    (rest : Text) :
    parseMetrics parseValue (line ++ '\n' :: rest) =
      (parseMetrics parseValue rest).map (metrics ++ ·) := by
  rw [parseMetrics, Lines.lines_append_cons oneLine, mapM_cons, isLine,
    parseMetrics]
  cases (Lines.lines rest).mapM (metricsOfLine parseValue) <;> rfl

theorem metricsOfLine_eq_nil (parseValue : Text → Option Value) {line : Text}
    (noSample :
      (trim line).head? = some '#' ∨
        (splitWhitespace (trim line)).length < 2) :
    metricsOfLine parseValue line = some [] := by
  rw [metricsOfLine]
  rcases noSample with isComment | short
  · exact if_pos (.inr isComment)
  · split
    · rfl
    rw [parseMetricLine]
    match splitWhitespace (trim line), short with
    | [], _ => rfl
    | [_], _ => rfl

theorem Exposed.newline_notMem_line {text : Migration.ExportText}
    {sample : Exposed} (isSeries : IsSeries sample.name sample.labels)
    (plain : IsPlain sample.name sample.labels) :
    '\n' ∉ sample.line text := by
  intro member
  simp only [line, expositionLine, mem_append, mem_cons] at member
  rcases member with inName | same | inLabels | same | same | inValue | same |
    inTimestamp
  · exact absurd (isSeries.plainName _ inName).1 (by decide)
  · cases same
  · exact absurd (mem_labelsText plain.plainLabel _ inLabels).1 (by decide)
  · cases same
  · cases same
  · exact absurd (visible_displayValue _ inValue).1 (by decide)
  · cases same
  · exact absurd (visible_timestamp _ inTimestamp).1 (by decide)

/-- The samples of a body are scraped in their order, and nothing else is. -/
theorem parseMetrics_body {text : Migration.ExportText} {content : Text}
    {samples : List Exposed} (isBody : IsBody text content samples) :
    ∃ metrics, parseMetrics text.parseValue content = some metrics ∧
      Forall₂ Exposed.IsRead samples metrics := by
  induction isBody with
  | empty => exact ⟨[], rfl, .nil⟩
  | passOver oneLine noSample _ inductionHypothesis =>
    obtain ⟨metrics, isParsed, read⟩ := inductionHypothesis
    rw [parseMetrics_append_cons oneLine (metricsOfLine_eq_nil _ noSample),
      isParsed]
    exact ⟨metrics, rfl, read⟩
  | @expose sample rest samples isSeries plain noComment printed _
      inductionHypothesis =>
    obtain ⟨metrics, isParsed, read⟩ := inductionHypothesis
    obtain ⟨parsed, isMetric, name, value, timestamp, labels⟩ :=
      (@IsPlain.parsesBack _ 0 _ _ _ sample.timestamp
        plain printed isSeries).scraper
    have trimmed : trim (sample.line text) = sample.line text :=
      (splitMetric_line printed isSeries.plainName).1
    have ends := hasVisibleEnds_trim (sample.line text)
    rw [trimmed] at ends
    have noReturn : Lines.stripReturn (sample.line text) = sample.line text :=
      if_neg fun isReturn => absurd (ends.last _ isReturn) (by decide)
    have starts : (sample.line text).head? = sample.name.head? :=
      head?_append_of_ne_nil _ plain.named
    have isLine :
        metricsOfLine text.parseValue (Lines.stripReturn (sample.line text)) =
          some [parsed] := by
      rw [noReturn, metricsOfLine, trimmed, starts,
        if_neg (by simp [Exposed.line, expositionLine, noComment]),
        Exposed.line, isMetric]
      rfl
    rw [parseMetrics_append_cons
      (Exposed.newline_notMem_line isSeries plain) isLine, isParsed]
    exact ⟨_, rfl, .cons ⟨name, value, timestamp, labels⟩ read⟩

theorem comment_and_sample_are_scraped :
    ∃ metrics,
      parseMetrics Migration.ExportText.basic.parseValue
          "# up\nup\x7bjob=\"a\"\x7d 1 5\n".toList =
        some metrics ∧
      Forall₂ Exposed.IsRead
        [⟨"up".toList, [("job".toList, "a".toList)], 1, 5⟩] metrics :=
  parseMetrics_body <|
    @IsBody.passOver _ "# up".toList _ _ (by decide) (by decide) <|
      @IsBody.expose _ ⟨"up".toList, [("job".toList, "a".toList)], 1, 5⟩ [] []
        ⟨by rw [PlainName]; decide, by decide, by decide⟩
        ⟨by decide, by decide, by decide, by decide, by decide⟩ (by decide)
        printed_one .empty

end ChronoDB.Server
