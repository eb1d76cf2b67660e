import ChronoDB.Migration.Export

namespace ChronoDB.Server

open Library Text

/-!
# Text lines of remote writes

A line names a metric with labels in curly brackets, a value and an optional
timestamp.  A line that does not is passed over with a debug message.
-/

/-- The text before the first character with a property, and the text from it. -/
def cutAt (property : Char → Bool) (text : Text) : Option (Text × Text) :=
  if text.any property then
    some (text.takeWhile fun char => !property char,
      text.dropWhile fun char => !property char)
  else
    none

/-- The text up to the last character of a kind, and the text after it. -/
def cutAfterLast (last : Char) (text : Text) : Option (Text × Text) :=
  if last ∈ text then
    some (text.rdropWhile (· != last), text.rtakeWhile (· != last))
  else
    none

/-- The metric part of a line, and the trimmed text after the first space. -/
def splitMetric (line : Text) : Option (Text × Text) :=
  match cutAfterLast '}' line with
  | some (metric, remainder) =>
    (cutAt isWhitespace remainder).map fun cut => (metric, trim cut.2)
  | none =>
    (cutAt isWhitespace line).map fun cut => (cut.1, trim cut.2)

/-- The value part, and the timestamp part or nothing. -/
def splitTimestamp (rest : Text) : Text × Text :=
  match cutAt isWhitespace rest with
  | some (value, timestamp) => (trim value, trim timestamp)
  | none => (rest, [])

/-- The text between two quotes of a kind, if the text has both. -/
def betweenQuotes (quote : Char) (text : Text) : Option Text :=
  if text.head? = some quote ∧ text.getLast? = some quote then
    some text.tail.dropLast
  else
    none

/-- One label of a line, with its value in double or single quotes. -/
def parseTextLabel (label : Text) : Option (Text × Text) :=
  match cutAt (· == '=') label with
  | none => none
  | some (before, fromEqual) =>
    let name := trim before
    let rawValue := trim (fromEqual.drop 1)
    if name = [] then none
    else if byteLength rawValue < 2 then none
    else
      ((betweenQuotes '"' rawValue).or
        (betweenQuotes '\'' rawValue)).map fun value => (name, value)

/-- The loop over the parts between the commas. -/
def parseTextLabels : List Text → Option (List (Text × Text))
  | [] => some []
  | part :: rest =>
    if trim part = [] then parseTextLabels rest
    else
      match parseTextLabel (trim part) with
      | none => none
      | some label => (parseTextLabels rest).map (label :: ·)

/-- The labels of a metric part, the name first. -/
def parseMetric (metric : Text) : Option (List (Text × Text)) :=
  match cutAt (· == '{') metric with
  | none => some [("__name__".toList, metric)]
  | some (name, _) =>
    if trim name = [] then none
    else
      match cutAt (· == '}') metric with
      | none => none
      | some (beforeClose, _) =>
        if beforeClose.length ≤ name.length then none
        else
          (parseTextLabels
            ((beforeClose.drop (name.length + 1)).splitOn ',')).map
            (("__name__".toList, trim name) :: ·)

/--
A line at a time, with `f64::from_str` as a parameter.  There is at most one
sample in a line.
-/
def parseTextLine
    (parseValue : Text → Option Value) (now : Timestamp) (rawLine : Text) :
    Option (Labels × List Sample) :=
  let line := trim rawLine
  if line = [] then none
  else
    match splitMetric line with
    | none => none
    | some (metricPart, rest) =>
      if rest = [] then none
      else
        let (valuePart, timestampPart) := splitTimestamp rest
        match parseMetric metricPart with
        | none => none
        | some labelPairs =>
          match parseValue valuePart with
          | none => none
          | some value =>
            match
              if timestampPart = [] then some now
              else Migration.parseI64 timestampPart
            with
            | none => none
            | some timestamp =>
              let labels :=
                labelPairs.map fun pair =>
                  (⟨String.ofList pair.1, String.ofList pair.2⟩ : Label)
              some (sortByKey Label.name labels,
                [{ timestamp := timestamp, value := value }])

/-- The lines of a body that are neither blank nor comments. -/
def textLines (text : Text) : List Text :=
  (Lines.lines text).filter fun line =>
    trim line ≠ [] && line.head? ≠ some '#'

/-- A line of the source's tests, and one with a comma in a label value. -/
example :
    parseTextLine Migration.ExportText.basic.parseValue 0
        "cpu\x7bjob=\"a\",host='b'\x7d 75 17".toList =
        some ([⟨"__name__", "cpu"⟩, ⟨"host", "b"⟩, ⟨"job", "a"⟩], [⟨17, 75⟩]) ∧
      parseTextLine Migration.ExportText.basic.parseValue 0
          "cpu\x7bjob=\"a,b\"\x7d 75 17".toList =
        none := by
  decide +kernel

end ChronoDB.Server
