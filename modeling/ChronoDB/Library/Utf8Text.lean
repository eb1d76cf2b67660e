import Mathlib.Algebra.GroupWithZero.Nat
import Mathlib.Data.List.DropRight

namespace ChronoDB.Library

open List

/-!
# Texts addressed by bytes

A text is a list of characters.  Searches return byte offsets, and slices take
byte offsets; a slice is undefined when an offset is beyond the end or inside a
character.  An offset that a search returned is always a boundary, an offset that
counts characters need not be one.
-/

abbrev Text := List Char

namespace Text

def byteLength (text : Text) : ℕ :=
  (text.map Char.utf8Size).sum

@[simp] theorem byteLength_nil : byteLength [] = 0 :=
  rfl

@[simp] theorem byteLength_cons (char : Char) (text : Text) :
    byteLength (char :: text) = char.utf8Size + byteLength text := by
  rw [byteLength, map_cons, sum_cons]
  rfl

@[simp] theorem byteLength_append (first second : Text) :
    byteLength (first ++ second) = byteLength first + byteLength second := by
  rw [byteLength, map_append, sum_append]
  rfl

/-- Questions about the characters of a text are decided along the text. -/
instance (priority := high) decidableForallMem
    (holds : Char → Prop)
    [DecidablePred holds]
    (text : Text) :
    Decidable (∀ char ∈ text, holds char) :=
  List.decidableBAll holds text

instance (priority := high) decidableForallMemOption
    (holds : Char → Prop)
    [DecidablePred holds]
    (last : Option Char) :
    Decidable (∀ char ∈ last, holds char) :=
  Option.decidableForallMem last

theorem length_le_byteLength (text : Text) :
    text.length ≤ byteLength text := by
  induction text with
  | nil => exact Nat.le_refl 0
  | cons char rest inductionHypothesis =>
    have wide := char.utf8Size_pos
    rw [length_cons, byteLength_cons]
    omega

/-- The texts before and after a byte offset, unless it is not a boundary. -/
def splitAtByte : ℕ → Text → Option (Text × Text)
  | 0, text => some ([], text)
  | _ + 1, [] => none
  | offset + 1, char :: rest =>
    if char.utf8Size ≤ offset + 1 then
      (splitAtByte (offset + 1 - char.utf8Size) rest).map fun cut =>
        (char :: cut.1, cut.2)
    else
      none

variable (before after : Text) {text : Text} {char : Char} {offset : ℕ}

theorem splitAtByte_eq_some_iff {text before after : Text} :
    splitAtByte offset text = some (before, after) ↔
      text = before ++ after ∧ byteLength before = offset := by
  induction text generalizing offset before with
  | nil =>
    cases offset with
    | zero => cases before <;> simp [splitAtByte, eq_comm]
    | succ offset => cases before <;> simp [splitAtByte]
  | cons char rest inductionHypothesis =>
    have wide := char.utf8Size_pos
    cases offset with
    | zero =>
      cases before with
      | nil => simp [splitAtByte, eq_comm]
      | cons first others =>
        have wideFirst := first.utf8Size_pos
        simp [splitAtByte]
        omega
    | succ offset =>
      rw [splitAtByte]
      cases before with
      | nil => simp
      | cons first others =>
        split
        · rename_i fits
          rw [byteLength_cons]
          constructor
          · intro cut
            obtain ⟨_, isCut, same⟩ := Option.map_eq_some_iff.mp cut
            cases same
            obtain ⟨rfl, sameLength⟩ := inductionHypothesis.mp isCut
            exact ⟨rfl, by omega⟩
          · rintro ⟨same, sameLength⟩
            cases same
            exact Option.map_eq_some_iff.mpr
              ⟨(others, after), inductionHypothesis.mpr ⟨rfl, by omega⟩, rfl⟩
        · rename_i tooWide
          simp only [reduceCtorEq, cons_append, List.cons.injEq,
            byteLength_cons, false_iff, not_and]
          rintro ⟨rfl, _⟩
          omega

@[simp] theorem splitAtByte_append (before after : Text) :
    splitAtByte (byteLength before) (before ++ after) = some (before, after) :=
  splitAtByte_eq_some_iff.mpr ⟨rfl, rfl⟩

def sliceTo (text : Text) (stop : ℕ) : Option Text :=
  (splitAtByte stop text).map Prod.fst

def sliceFrom (text : Text) (start : ℕ) : Option Text :=
  (splitAtByte start text).map Prod.snd

/-- The text between two byte offsets. -/
def slice (text : Text) (start stop : ℕ) : Option Text :=
  if start ≤ stop then
    (splitAtByte stop text).bind fun cut => sliceFrom cut.1 start
  else
    none

@[simp] theorem sliceTo_append (before after : Text) :
    sliceTo (before ++ after) (byteLength before) = some before := by
  rw [sliceTo, splitAtByte_append]
  rfl

@[simp] theorem sliceFrom_append (before after : Text) :
    sliceFrom (before ++ after) (byteLength before) = some after := by
  rw [sliceFrom, splitAtByte_append]
  rfl

theorem sliceFrom_eq_some_iff {text after : Text} {start : ℕ} :
    sliceFrom text start = some after ↔
      ∃ before, text = before ++ after ∧ byteLength before = start := by
  simp only [sliceFrom, Option.map_eq_some_iff, Prod.exists,
    splitAtByte_eq_some_iff]
  constructor
  · rintro ⟨before, _, cut, rfl⟩
    exact ⟨before, cut⟩
  · rintro ⟨before, cut⟩
    exact ⟨before, after, cut, rfl⟩

theorem sliceTo_eq_some_iff {text before : Text} {stop : ℕ} :
    sliceTo text stop = some before ↔
      ∃ after, text = before ++ after ∧ byteLength before = stop := by
  simp only [sliceTo, Option.map_eq_some_iff, Prod.exists,
    splitAtByte_eq_some_iff]
  constructor
  · rintro ⟨_, after, cut, rfl⟩
    exact ⟨after, cut⟩
  · rintro ⟨after, cut⟩
    exact ⟨before, after, cut, rfl⟩

theorem slice_eq_some_iff {text middle : Text} {start stop : ℕ} :
    slice text start stop = some middle ↔
      ∃ before after,
        text = before ++ middle ++ after ∧
          byteLength before = start ∧
            byteLength before + byteLength middle = stop := by
  rw [slice]
  constructor
  · intro sliced
    split at sliced
    · obtain ⟨cut, isCut, isMiddle⟩ := Option.bind_eq_some_iff.mp sliced
      obtain ⟨rfl, isStop⟩ := splitAtByte_eq_some_iff.mp isCut
      obtain ⟨before, isBefore, isStart⟩ := sliceFrom_eq_some_iff.mp isMiddle
      rw [isBefore, byteLength_append] at isStop
      exact ⟨before, cut.2, by rw [isBefore], isStart, isStop⟩
    · cases sliced
  · rintro ⟨before, after, rfl, rfl, rfl⟩
    rw [if_pos (Nat.le_add_right _ _), ← byteLength_append, splitAtByte_append]
    exact sliceFrom_append before middle

theorem exists_append_of_byteLength_le
    {first second firstRest secondRest : Text}
    (same : first ++ firstRest = second ++ secondRest)
    (fewer : byteLength first ≤ byteLength second) :
    ∃ middle, second = first ++ middle ∧ firstRest = middle ++ secondRest := by
  rcases append_eq_append_iff.mp same with
    ⟨middle, isSecond, isRest⟩ | ⟨middle, rfl, rfl⟩
  · exact ⟨middle, isSecond, isRest⟩
  · rw [byteLength_append] at fewer
    obtain rfl : middle = [] := by
      refine eq_nil_of_length_eq_zero ?_
      have bytes := length_le_byteLength middle
      omega
    exact ⟨[], by simp, rfl⟩

theorem splitAtByte_append_left (before after : Text) (offset : ℕ) :
    splitAtByte (byteLength before + offset) (before ++ after) =
      (splitAtByte offset after).map fun cut => (before ++ cut.1, cut.2) := by
  refine Option.ext fun cut => ?_
  rcases cut with ⟨first, second⟩
  rw [splitAtByte_eq_some_iff, Option.map_eq_some_iff]
  constructor
  · rintro ⟨isText, isOffset⟩
    rcases append_eq_append_iff.mp isText with
      ⟨middle, rfl, rfl⟩ | ⟨middle, rfl, rfl⟩
    · rw [byteLength_append, Nat.add_left_cancel_iff] at isOffset
      exact ⟨(middle, second), splitAtByte_eq_some_iff.mpr ⟨rfl, isOffset⟩, rfl⟩
    · rw [byteLength_append] at isOffset
      obtain rfl : middle = [] := by
        refine eq_nil_of_length_eq_zero ?_
        have bytes := length_le_byteLength middle
        omega
      obtain rfl : offset = 0 := by
        rw [byteLength_nil] at isOffset
        omega
      exact ⟨([], after), splitAtByte_eq_some_iff.mpr ⟨rfl, rfl⟩, by simp⟩
  · rintro ⟨⟨middle, rest⟩, isCut, same⟩
    cases same
    obtain ⟨rfl, rfl⟩ := splitAtByte_eq_some_iff.mp isCut
    exact ⟨by simp, by simp⟩

theorem sliceFrom_append_left (before after : Text) (offset : ℕ) :
    sliceFrom (before ++ after) (byteLength before + offset) =
      sliceFrom after offset := by
  rw [sliceFrom, splitAtByte_append_left, Option.map_map, sliceFrom]
  rfl

theorem slice_append_left (before after : Text) (stop : ℕ) :
    slice (before ++ after) (byteLength before) (byteLength before + stop) =
      sliceTo after stop := by
  rw [slice, if_pos (Nat.le_add_right _ _), splitAtByte_append_left, sliceTo]
  cases splitAtByte stop after with
  | none => rfl
  | some cut => exact sliceFrom_append before cut.1

theorem length_sliceFrom_le {text after : Text} {start : ℕ}
    (sliced : sliceFrom text start = some after) :
    after.length ≤ text.length := by
  obtain ⟨before, rfl, _⟩ := sliceFrom_eq_some_iff.mp sliced
  rw [length_append]
  exact Nat.le_add_left _ _

theorem length_slice_lt
    {text middle : Text} {start stop : ℕ} (positive : 0 < start)
    (sliced : slice text start stop = some middle) :
    middle.length < text.length := by
  obtain ⟨before, after, rfl, isStart, _⟩ := slice_eq_some_iff.mp sliced
  cases before with
  | nil =>
    rw [← isStart] at positive
    exact absurd positive (Nat.lt_irrefl 0)
  | cons first before =>
    simp only [length_append, length_cons]
    omega

theorem length_slice_le {text middle : Text} {start stop : ℕ}
    (sliced : slice text start stop = some middle) :
    middle.length ≤ text.length := by
  obtain ⟨before, after, rfl, _, _⟩ := slice_eq_some_iff.mp sliced
  simp only [length_append]
  omega

/-- The byte offset of the first character with a property. -/
def find (property : Char → Bool) : Text → Option ℕ
  | [] => none
  | char :: rest =>
    if property char then some 0
    else (find property rest).map (char.utf8Size + ·)

/-- The byte offset of the first occurrence of a pattern. -/
def findPattern (pattern : Text) : Text → Option ℕ
  | [] => if pattern = [] then some 0 else none
  | char :: rest =>
    if pattern.isPrefixOf (char :: rest) then some 0
    else (findPattern pattern rest).map (char.utf8Size + ·)

theorem find_eq_some_iff {property : Char → Bool} :
    find property text = some offset ↔
      ∃ before char after,
        text = before ++ char :: after ∧
          property char = true ∧
            (∀ earlier ∈ before, property earlier = false) ∧
              byteLength before = offset := by
  induction text generalizing offset with
  | nil => simp [find]
  | cons first rest inductionHypothesis =>
    rw [find]
    split
    · rename_i isFirst
      constructor
      · rintro ⟨⟩
        exact ⟨[], first, rest, rfl, isFirst, nofun, rfl⟩
      · rintro ⟨before, char, after, isText, _, none, rfl⟩
        cases before with
        | nil => rfl
        | cons other before =>
          cases isText
          have notFirst := none first (mem_cons_self)
          rw [isFirst] at notFirst
          cases notFirst
    · rename_i notFirst
      rw [Option.map_eq_some_iff]
      constructor
      · rintro ⟨later, found, rfl⟩
        obtain ⟨before, char, after, rfl, isChar, none, rfl⟩ :=
          inductionHypothesis.mp found
        refine ⟨first :: before, char, after, rfl, isChar, ?_,
          byteLength_cons first before⟩
        exact forall_mem_cons.mpr ⟨Bool.eq_false_iff.mpr notFirst, none⟩
      · rintro ⟨before, char, after, isText, isChar, none, rfl⟩
        cases before with
        | nil =>
          cases isText
          exact absurd isChar notFirst
        | cons other before =>
          cases isText
          exact ⟨byteLength before, inductionHypothesis.mpr
            ⟨before, char, after, rfl, isChar,
              (forall_mem_cons.mp none).2, rfl⟩,
            (byteLength_cons first before).symm⟩

theorem find_eq_none_iff {property : Char → Bool} {text : Text} :
    find property text = none ↔ ∀ char ∈ text, property char = false := by
  induction text with
  | nil => simp [find]
  | cons first rest inductionHypothesis =>
    rw [find, forall_mem_cons, ← inductionHypothesis]
    cases property first <;> simp

theorem find_getD_eq (property : Char → Bool) (text : Text) :
    (find property text).getD (byteLength text) =
      byteLength (text.takeWhile fun char => !property char) := by
  induction text with
  | nil => rfl
  | cons first rest inductionHypothesis =>
    rw [find, takeWhile_cons]
    cases isFirst : property first with
    | true => simp
    | false =>
      cases isFound : find property rest with
      | none =>
        rw [isFound] at inductionHypothesis
        simpa using inductionHypothesis
      | some offset =>
        rw [isFound] at inductionHypothesis
        simpa using inductionHypothesis

theorem sliceTo_takeWhile (property : Char → Bool) (text : Text) :
    sliceTo text (byteLength (text.takeWhile property)) =
      some (text.takeWhile property) :=
  sliceTo_eq_some_iff.mpr
    ⟨text.dropWhile property, takeWhile_append_dropWhile.symm, rfl⟩

theorem sliceFrom_takeWhile (property : Char → Bool) (text : Text) :
    sliceFrom text (byteLength (text.takeWhile property)) =
      some (text.dropWhile property) :=
  sliceFrom_eq_some_iff.mpr
    ⟨text.takeWhile property, takeWhile_append_dropWhile.symm, rfl⟩

theorem exists_of_findPattern
    {pattern text : Text} (found : findPattern pattern text = some offset) :
    ∃ before after,
      text = before ++ (pattern ++ after) ∧ byteLength before = offset := by
  induction text generalizing offset with
  | nil =>
    rw [findPattern] at found
    split at found
    · rename_i empty
      cases found
      exact ⟨[], [], by simp [empty], rfl⟩
    · cases found
  | cons first rest inductionHypothesis =>
    rw [findPattern] at found
    split at found
    · rename_i isHere
      cases found
      obtain ⟨after, isText⟩ := isPrefixOf_iff_prefix.mp isHere
      exact ⟨[], after, isText.symm, rfl⟩
    · obtain ⟨later, foundLater, rfl⟩ := Option.map_eq_some_iff.mp found
      obtain ⟨before, after, rfl, rfl⟩ := inductionHypothesis foundLater
      exact ⟨first :: before, after, rfl, byteLength_cons first before⟩

theorem splitOn_eq_pair {text first second : Text} {separator : Char}
    (isSplit : text.splitOn separator = [first, second]) :
    text = first ++ separator :: second ∧
      separator ∉ first ∧ separator ∉ second := by
  by_cases member : separator ∈ text
  · obtain ⟨before, after, rfl, notBefore⟩ :=
      eq_append_cons_of_mem member
    rw [splitOn_append_cons_self_of_not_mem notBefore] at isSplit
    obtain ⟨rfl, isRest⟩ := List.cons.inj isSplit
    by_cases again : separator ∈ after
    · obtain ⟨between, rest, rfl, notBetween⟩ :=
        eq_append_cons_of_mem again
      rw [splitOn_append_cons_self_of_not_mem notBetween] at isRest
      exact absurd (List.cons.inj isRest).2 (splitOn_ne_nil _ _)
    · rw [splitOn_eq_singleton again] at isRest
      obtain ⟨rfl, _⟩ := List.cons.inj isRest
      exact ⟨rfl, notBefore, again⟩
  · rw [splitOn_eq_singleton member] at isSplit
    cases isSplit

/-- The characters with the property White_Space. -/
def isWhitespace (char : Char) : Bool :=
  (9 ≤ char.val && char.val ≤ 13) || char.val == 0x20 ||
    char.val == 0x85 || char.val == 0xA0 || char.val == 0x1680 ||
    (0x2000 ≤ char.val && char.val ≤ 0x200A) || char.val == 0x2028 ||
    char.val == 0x2029 || char.val == 0x202F || char.val == 0x205F ||
    char.val == 0x3000

def trimStart (text : Text) : Text :=
  text.dropWhile isWhitespace

def trimEnd (text : Text) : Text :=
  text.rdropWhile isWhitespace

def trim (text : Text) : Text :=
  trimEnd (trimStart text)

/-- The text up to the first white space after the leading one. -/
def firstWord (text : Text) : Text :=
  (trimStart text).takeWhile fun char => !isWhitespace char

theorem length_trim_le (text : Text) :
    (trim text).length ≤ text.length :=
  (List.rdropWhile_prefix _ _).length_le.trans (dropWhile_suffix _).length_le

theorem trimStart_append_cons (visible : isWhitespace char = false) :
    trimStart (before ++ char :: after) =
      trimStart before ++ char :: after := by
  rw [trimStart, trimStart, dropWhile_append]
  split
  · rename_i blank
    rw [List.isEmpty_iff.mp blank, nil_append,
      dropWhile_cons_of_neg (by simp [visible])]
  · rfl

theorem trimStart_append (visible : trimStart text ≠ []) (more : Text) :
    trimStart (text ++ more) = trimStart text ++ more := by
  rw [trimStart, trimStart, dropWhile_append,
    if_neg (by rwa [List.isEmpty_iff])]

theorem trimEnd_append_cons (visible : isWhitespace char = false) :
    trimEnd (before ++ char :: after) = before ++ char :: trimEnd after := by
  have reversed := trimStart_append_cons after.reverse before.reverse visible
  rw [trimStart, trimStart] at reversed
  rw [trimEnd, trimEnd, List.rdropWhile, List.rdropWhile, reverse_append,
    reverse_cons, append_assoc, singleton_append, reversed]
  simp

theorem trim_append_cons (visible : isWhitespace char = false) :
    trim (before ++ char :: after) =
      trimStart before ++ char :: trimEnd after := by
  rw [trim, trimStart_append_cons before after visible,
    trimEnd_append_cons _ after visible]

theorem trimEnd_eq_nil (blank : ∀ char ∈ text, isWhitespace char = true) :
    trimEnd text = [] :=
  rdropWhile_eq_nil_iff.mpr blank

theorem trimStart_eq_nil (blank : ∀ char ∈ text, isWhitespace char = true) :
    trimStart text = [] :=
  dropWhile_eq_nil_iff.mpr blank

theorem exists_visible_or_blank (text : Text) :
    (∃ before char after,
        text = before ++ char :: after ∧ isWhitespace char = false) ∨
      ∀ char ∈ text, isWhitespace char = true := by
  by_cases blank : ∀ char ∈ text, isWhitespace char = true
  · exact Or.inr blank
  · simp only [not_forall, Bool.not_eq_true] at blank
    obtain ⟨char, member, visible⟩ := blank
    obtain ⟨before, after, isText⟩ := mem_iff_append.mp member
    exact Or.inl ⟨before, char, after, isText, visible⟩

@[simp] theorem trim_trimStart (text : Text) :
    trim (trimStart text) = trim text := by
  rw [trim, trim, trimStart, trimStart, dropWhile_idempotent]

@[simp] theorem trim_trimEnd (text : Text) :
    trim (trimEnd text) = trim text := by
  rcases exists_visible_or_blank text with
    ⟨before, char, after, rfl, visible⟩ | blank
  · rw [trimEnd_append_cons before after visible,
      trim_append_cons before _ visible, trim_append_cons before _ visible,
      trimEnd, trimEnd, rdropWhile_idempotent]
  · rw [trimEnd_eq_nil blank, trim, trim, trimStart_eq_nil blank]
    rfl

@[simp] theorem trim_append_trimEnd (before after : Text) :
    trim (before ++ trimEnd after) = trim (before ++ after) := by
  rcases exists_visible_or_blank after with
    ⟨first, char, rest, rfl, visible⟩ | blank
  · rw [trimEnd_append_cons first rest visible, ← append_assoc, ← append_assoc,
      trim_append_cons _ _ visible, trim_append_cons _ _ visible, trimEnd,
      trimEnd, rdropWhile_idempotent]
  · rw [trimEnd_eq_nil blank, append_nil]
    rcases exists_visible_or_blank before with
      ⟨first, char, rest, rfl, visible⟩ | blankBefore
    · rw [append_assoc, cons_append, trim_append_cons _ _ visible,
        trim_append_cons _ _ visible, trimEnd, trimEnd, List.rdropWhile,
        List.rdropWhile, reverse_append,
        dropWhile_append_of_pos fun char member =>
          blank char (mem_reverse.mp member)]
    · rw [trim, trim, trimStart_eq_nil blankBefore,
        trimStart_eq_nil (forall_mem_append.mpr ⟨blankBefore, blank⟩)]

@[simp] theorem trim_trim (text : Text) : trim (trim text) = trim text := by
  rw [trim.eq_def text, trim_trimEnd, trim_trimStart, trim]

theorem trimStart_eq_self
    (startVisible : ∀ char ∈ text.head?, isWhitespace char = false) :
    trimStart text = text := by
  cases text with
  | nil => rfl
  | cons first rest =>
    exact dropWhile_cons_of_neg (by simp [startVisible first rfl])

theorem visible_of_head_trim (isFirst : (trim text).head? = some char) :
    isWhitespace char = false := by
  obtain ⟨rest, isText⟩ := head?_eq_some_iff.mp isFirst
  have startsTrimmed : char ∈ (trimStart text).head? := by
    obtain ⟨after, isStart⟩ := rdropWhile_prefix isWhitespace (trimStart text)
    rw [← isStart]
    rw [trim, trimEnd] at isText
    rw [isText]
    rfl
  have headVisible := head?_dropWhile_not isWhitespace text
  rw [trimStart] at startsTrimmed
  rw [Option.mem_def.mp startsTrimmed] at headVisible
  simpa using headVisible

theorem trim_surrounded {before text after : Text}
    (blankBefore : ∀ char ∈ before, isWhitespace char = true)
    (visible : ∀ char ∈ text, isWhitespace char = false)
    (blankAfter : ∀ char ∈ after, isWhitespace char = true) :
    trim (before ++ text ++ after) = text := by
  have startVisible : trimStart (before ++ text ++ after) =
      trimStart (text ++ after) := by
    rw [trimStart, append_assoc, dropWhile_append_of_pos blankBefore, trimStart]
  rw [trim, startVisible]
  cases text using List.reverseRecOn with
  | nil =>
    rw [nil_append, trimStart_eq_nil blankAfter]
    rfl
  | append_singleton others last =>
    have lastVisible := visible last (by simp)
    rw [append_assoc, singleton_append, trimStart_append_cons others after
      lastVisible, trimEnd_append_cons _ after lastVisible, trimEnd_eq_nil
      blankAfter, trimStart]
    cases others with
    | nil => rfl
    | cons first others =>
      rw [dropWhile_cons_of_neg (by simp [visible first (by simp)])]

theorem isInfix_trim (text : Text) : trim text <:+: text :=
  (List.rdropWhile_prefix _ _).isInfix.trans (dropWhile_suffix _).isInfix

/-- The first and the last character of a text are no white space. -/
structure HasVisibleEnds (text : Text) : Prop where
  first : ∀ char ∈ text.head?, isWhitespace char = false
  last : ∀ char ∈ text.getLast?, isWhitespace char = false

theorem HasVisibleEnds.trim_eq (ends : HasVisibleEnds text) :
    trim text = text := by
  rw [trim, trimStart_eq_self ends.first, trimEnd, rdropWhile_eq_self_iff]
  intro nonempty blank
  rw [ends.last _ (getLast_mem_getLast? nonempty)] at blank
  cases blank

theorem hasVisibleEnds_trim (text : Text) : HasVisibleEnds (trim text) where
  first _ isFirst := visible_of_head_trim isFirst
  last char isLast := by
    obtain ⟨nonempty, rfl⟩ := mem_getLast?_eq_getLast isLast
    have visible := rdropWhile_last_not isWhitespace (trimStart text) nonempty
    exact (Bool.not_eq_true _).mp visible

end Text

end ChronoDB.Library
