import Mathlib.Logic.Encodable.Basic
import ChronoDB.Library.LittleEndian

namespace ChronoDB.Library

/-!
# Lossless, self-closing codecs

A codec turns values into byte strings and back.  It is lossless, and it is
self-closing: a text that was cut short is never accepted.  Bracketed text
formats have both properties, which are fields here so that every codec carries
them.
-/

/-- A codec for `Value` whose decoder fails with errors of type `Failure`. -/
structure Codec (Failure Value : Type) where
  encode : Value → Bytes
  decode : Bytes → Except Failure Value
  decode_encode : ∀ value, decode (encode value) = .ok value
  decode_truncated :
    ∀ value length,
      length < (encode value).length →
      ∃ failure, decode ((encode value).take length) = .error failure

namespace Codec

attribute [simp] Codec.decode_encode

variable {Failure Value : Type}

end Codec

/-!
## A codec from an enumeration

Every encodable type has such a codec: a value is written as a run of marks
closed by a terminator.
-/

namespace Tally

/-- The mark and the terminator of the tally notation. -/
def mark : UInt8 := 1
def terminator : UInt8 := 2

/-- A number as a closed run of marks. -/
def text (count : ℕ) : Bytes :=
  List.replicate count mark ++ [terminator]

/-- The number a closed run of marks stands for. -/
def count (bytes : Bytes) : Option ℕ :=
  if bytes = text (bytes.length - 1) then
    some (bytes.length - 1)
  else
    none

@[simp] theorem count_text (number : ℕ) :
    count (text number) = some number := by
  simp [count, text]

theorem count_take {number length : ℕ} (short : length < (text number).length) :
    count ((text number).take length) = none := by
  have fits : length ≤ number := by
    simp [text] at short
    omega
  have marksOnly : (text number).take length = List.replicate length mark := by
    rw [text, List.take_append_of_le_length (by simpa using fits),
      List.take_replicate, Nat.min_eq_left fits]
  rw [marksOnly, count, if_neg]
  intro closed
  have terminated : terminator ∈ List.replicate length mark := by
    rw [closed]
    simp [text]
  have := List.eq_of_mem_replicate terminated
  exact absurd this (by decide)

end Tally

namespace Codec

variable {Failure Value : Type}

/-- The tally codec of an encodable type. -/
def ofEncodable [Encodable Value] (rejected : Failure) :
    Codec Failure Value where
  encode value := Tally.text (Encodable.encode value)
  decode bytes :=
    match (Tally.count bytes).bind Encodable.decode with
    | some value => .ok value
    | none => .error rejected
  decode_encode value := by
    simp
  decode_truncated value length short := by
    simp [Tally.count_take short]

/--
A finite table of texts for chosen values.  No text is empty or starts with the
escape byte, and no text of one value is a prefix of the text of another.
-/
structure TextTable (Value : Type) where
  escape : UInt8
  entries : List (Value × Bytes)
  escapeFree :
    ∀ entry ∈ entries, ∃ first rest, entry.2 = first :: rest ∧ first ≠ escape
  prefixFree :
    ∀ first ∈ entries, ∀ second ∈ entries, first.2 <+: second.2 → first = second

namespace TextTable

def text? [DecidableEq Value] (table : TextTable Value) (value : Value) :
    Option Bytes :=
  (table.entries.find? fun entry => entry.1 = value).map Prod.snd

def value? (table : TextTable Value) (text : Bytes) : Option Value :=
  (table.entries.find? fun entry => entry.2 = text).map Prod.fst

variable {table : TextTable Value} {value : Value} {text : Bytes}

theorem mem_of_text?
    [DecidableEq Value] (found : table.text? value = some text) :
    (value, text) ∈ table.entries := by
  obtain ⟨entry, foundEntry, rfl⟩ := Option.map_eq_some_iff.mp found
  have sameValue : entry.1 = value := by
    simpa using List.find?_some foundEntry
  have member := List.mem_of_find?_eq_some foundEntry
  rwa [← sameValue]

theorem mem_of_value? (found : table.value? text = some value) :
    (value, text) ∈ table.entries := by
  obtain ⟨entry, foundEntry, rfl⟩ := Option.map_eq_some_iff.mp found
  have sameText : entry.2 = text := by
    simpa using List.find?_some foundEntry
  have member := List.mem_of_find?_eq_some foundEntry
  rwa [← sameText]

theorem value?_of_text?
    [DecidableEq Value] (found : table.text? value = some text) :
    table.value? text = some value := by
  have member := mem_of_text? found
  cases prescribed : table.value? text with
  | none =>
    have absent : table.entries.find? (fun entry => entry.2 = text) = none := by
      simpa [value?] using prescribed
    simpa using List.find?_eq_none.mp absent _ member
  | some other =>
    have sameEntry :=
      table.prefixFree _ (mem_of_value? prescribed) _ member
        (List.prefix_refl text)
    rw [(Prod.mk.inj sameEntry).1]

theorem value?_escape (table : TextTable Value) (rest : Bytes) :
    table.value? (table.escape :: rest) = none := by
  cases prescribed : table.value? (table.escape :: rest) with
  | none => rfl
  | some value =>
    obtain ⟨first, tail, shape, notEscape⟩ :=
      table.escapeFree _ (mem_of_value? prescribed)
    injection shape with sameFirst
    exact absurd sameFirst.symm notEscape

theorem value?_nil (table : TextTable Value) :
    table.value? [] = none := by
  cases prescribed : table.value? [] with
  | none => rfl
  | some value =>
    obtain ⟨first, tail, shape, _⟩ :=
      table.escapeFree _ (mem_of_value? prescribed)
    cases shape

theorem value?_take
    [DecidableEq Value] (found : table.text? value = some text) {length : ℕ}
    (short : length < text.length) :
    table.value? (text.take length) = none := by
  cases prescribed : table.value? (text.take length) with
  | none => rfl
  | some other =>
    have sameEntry :=
      table.prefixFree _ (mem_of_value? prescribed)
        _ (mem_of_text? found) (List.take_prefix length text)
    have sameLength := congrArg List.length (Prod.mk.inj sameEntry).2
    rw [List.length_take] at sameLength
    omega

end TextTable

/--
The codec that writes the values of a table as the table says, and every other
value as `codec` does, behind the escape byte.
-/
def tabulate
    [DecidableEq Value] (codec : Codec Failure Value) (table : TextTable Value)
    (rejected : Failure) :
    Codec Failure Value where
  encode value :=
    match table.text? value with
    | some text => text
    | none => table.escape :: codec.encode value
  decode bytes :=
    match table.value? bytes with
    | some value => .ok value
    | none =>
      match bytes with
      | [] => .error rejected
      | byte :: tail =>
        if byte = table.escape then codec.decode tail
        else .error rejected
  decode_encode value := by
    cases prescribed : table.text? value with
    | some text => simp [TextTable.value?_of_text? prescribed]
    | none => simp [TextTable.value?_escape]
  decode_truncated value length short := by
    cases prescribed : table.text? value with
    | some text =>
      simp only [prescribed] at short ⊢
      obtain ⟨first, rest, shape, notEscape⟩ :=
        table.escapeFree _ (TextTable.mem_of_text? prescribed)
      have shape : text = first :: rest := shape
      rw [TextTable.value?_take prescribed short]
      cases length with
      | zero => exact ⟨rejected, rfl⟩
      | succ length => exact ⟨rejected, by simp [shape, notEscape]⟩
    | none =>
      simp only [prescribed] at short ⊢
      cases length with
      | zero => exact ⟨rejected, by simp [TextTable.value?_nil]⟩
      | succ length =>
        have tailShort : length < (codec.encode value).length := by
          simpa using short
        obtain ⟨failure, fails⟩ := codec.decode_truncated value length tailShort
        exact ⟨failure, by
          simp [TextTable.value?_escape, fails]⟩

end Codec

end ChronoDB.Library
