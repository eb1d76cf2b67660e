import ChronoDB.Library.Fields
import ChronoDB.Library.Utf8Text
import Mathlib.Data.List.Forall2
import Mathlib.Logic.Relation

namespace ChronoDB.Library

open List

/-!
# Tokens, quoted values and groups

A text is read as tokens: quoted values are kept character by character, white
space outside of them only separates.  Items between braces form a group.  Two
texts that differ by reordering the items of their groups have the same segments
up to the order of the items, and this can be tested.
-/

/-- Characters that can stand together in one token. -/
inductive CharKind where
  | word
  | symbol
  | mark
  deriving Repr, DecidableEq

/-- Brackets and commas stand alone, operators join, the rest are words. -/
def charKind (char : Char) : CharKind :=
  if char ∈ ['(', ')', '{', '}', '[', ']', ',', ';'] then
    .mark
  else if char ∈ "+-*/%^=!<>~@&|".toList then
    .symbol
  else
    .word

/--
A character of a token.  It is joined when it continues the token of the
character before it, and quoted between quotes.
-/
structure TokenChar where
  char : Char
  quoted : Bool
  joined : Bool
  deriving Repr, DecidableEq

namespace TokenChar

def openBrace : TokenChar :=
  ⟨'{', false, false⟩

def closeBrace : TokenChar :=
  ⟨'}', false, false⟩

def comma : TokenChar :=
  ⟨',', false, false⟩

/-- A character that can stand in an item of a group. -/
def Plain (token : TokenChar) : Prop :=
  token ≠ openBrace ∧ token ≠ closeBrace

instance (token : TokenChar) : Decidable token.Plain :=
  inferInstanceAs (Decidable (_ ∧ _))

end TokenChar

/-- Where a reader of a text is. -/
inductive TextPlace where
  | outside (previous : Option CharKind)
  | inside (quote : Char)
  | escaped (quote : Char)
  deriving Repr, DecidableEq

/-- Whether a character continues the token before it. -/
def joins (previous : Option CharKind) (kind : CharKind) : Bool :=
  previous = some kind ∧ kind ≠ .mark

def tokensFrom : TextPlace → Text → List TokenChar
  | _, [] => []
  | .escaped quote, char :: rest =>
    ⟨char, true, true⟩ :: tokensFrom (.inside quote) rest
  | .inside quote, char :: rest =>
    ⟨char, true, true⟩ ::
      tokensFrom
        (if char = quote then .outside none
          else if char = '\\' then .escaped quote
          else .inside quote)
        rest
  | .outside previous, char :: rest =>
    if Text.isWhitespace char then
      tokensFrom (.outside none) rest
    else if char = '"' ∨ char = '\'' then
      ⟨char, true, false⟩ :: tokensFrom (.inside char) rest
    else
      ⟨char, false, joins previous (charKind char)⟩ ::
        tokensFrom (.outside (some (charKind char))) rest

def tokens (text : Text) : List TokenChar :=
  tokensFrom (.outside none) text

inductive Segment where
  | single (token : TokenChar)
  | group (items : List (List TokenChar))
  deriving Repr, DecidableEq

def groupTokens (items : List (List TokenChar)) : List TokenChar :=
  .openBrace :: [TokenChar.comma].intercalate items ++ [.closeBrace]

namespace Segment

/-- Equal tokens, and groups of the same items in any order. -/
def Agree : Segment → Segment → Prop
  | .single token, .single other => token = other
  | .group items, .group others => items.Perm others
  | .single _, .group _ | .group _, .single _ => False

instance : DecidableRel Agree
  | .single token, .single other => inferInstanceAs (Decidable (token = other))
  | .group items, .group others =>
    inferInstanceAs (Decidable (items.Perm others))
  | .single _, .group _ | .group _, .single _ => isFalse id

def tokens : Segment → List TokenChar
  | .single token => [token]
  | .group items => groupTokens items

@[simp] theorem Agree.rfl {segment : Segment} : segment.Agree segment := by
  cases segment with
  | single token => exact Eq.refl token
  | group items => exact List.Perm.refl items

end Segment

/--
What is known of a list of tokens that is read from its end: the segments, and
before them the tokens of a group that is still open to the left.
-/
structure SegmentReader where
  pending : Option (List TokenChar)
  segments : List Segment
  deriving Repr, DecidableEq

namespace SegmentReader

/-- The segments, with the tokens of an unfinished group on their own. -/
def finish (reader : SegmentReader) : List Segment :=
  match reader.pending with
  | none => reader.segments
  | some inner =>
    (inner ++ [TokenChar.closeBrace]).map .single ++ reader.segments

def read (token : TokenChar) (reader : SegmentReader) : SegmentReader :=
  if token = .closeBrace then
    ⟨some [], reader.finish⟩
  else
    match reader.pending with
    | none => ⟨none, .single token :: reader.segments⟩
    | some inner =>
      if token = .openBrace then
        ⟨none, .group (inner.splitOn .comma) :: reader.segments⟩
      else
        ⟨some (token :: inner), reader.segments⟩

def readAll (items : List TokenChar) (reader : SegmentReader) :
    SegmentReader :=
  items.foldr read reader

def tokens (reader : SegmentReader) : List TokenChar :=
  reader.finish.flatMap Segment.tokens

/-- Readers that differ at most in the order of the items of groups. -/
structure Agree (reader other : SegmentReader) : Prop where
  pending : reader.pending = other.pending
  segments : List.Forall₂ Segment.Agree reader.segments other.segments

end SegmentReader

def segments (items : List TokenChar) : List Segment :=
  (SegmentReader.readAll items ⟨none, []⟩).finish

/-- Two texts whose tokens agree, groups compared without order. -/
def SameOutline (text other : Text) : Prop :=
  List.Forall₂ Segment.Agree (segments (tokens text)) (segments (tokens other))

instance (text other : Text) : Decidable (SameOutline text other) :=
  inferInstanceAs (Decidable (List.Forall₂ _ _ _))

/-- Reordering the items of one group. -/
inductive ReorderStep : List TokenChar → List TokenChar → Prop where
  | group
      (before after : List TokenChar)
      {items others : List (List TokenChar)}
      (plain : ∀ item ∈ items, ∀ token ∈ item, token.Plain ∧ token ≠ .comma)
      (nonempty : items ≠ [])
      (permuted : items.Perm others) :
      ReorderStep
        (before ++ groupTokens items ++ after)
        (before ++ groupTokens others ++ after)

/--
Two texts denote the same expression when they differ at most in white space
that separates tokens and in the order of the items of their groups.
-/
def SameExpression (text other : Text) : Prop :=
  Relation.ReflTransGen ReorderStep (tokens text) (tokens other)

/-!
## Reading a reordered group
-/

namespace Segment

def WellFormed : Segment → Prop
  | .single _ => True
  | .group items =>
    items ≠ [] ∧ ∀ item ∈ items, ∀ token ∈ item, token.Plain ∧ token ≠ .comma

theorem Agree.trans
    {first second third : Segment} (firstSecond : first.Agree second)
    (secondThird : second.Agree third) :
    first.Agree third := by
  cases first <;> cases second <;> cases third <;>
    first
    | exact Eq.trans firstSecond secondThird
    | exact List.Perm.trans firstSecond secondThird
    | exact firstSecond.elim
    | exact secondThird.elim

theorem forall₂_agree_trans {first second third : List Segment}
    (firstSecond : List.Forall₂ Agree first second)
    (secondThird : List.Forall₂ Agree second third) :
    List.Forall₂ Agree first third := by
  induction firstSecond generalizing third with
  | nil => exact secondThird
  | cons head _ inductionHypothesis =>
    rcases secondThird with _ | ⟨nextHead, nextTail⟩
    exact .cons (head.trans nextHead) (inductionHypothesis nextTail)

theorem forall₂_agree_refl (segments : List Segment) :
    List.Forall₂ Agree segments segments :=
  List.forall₂_same.mpr fun _ _ => Agree.rfl

end Segment

namespace SegmentReader

/-- What was read is what the segments and the open group hold. -/
theorem Agree.finish
    {reader other : SegmentReader} (agree : reader.Agree other) :
    List.Forall₂ Segment.Agree reader.finish other.finish := by
  rw [SegmentReader.finish, SegmentReader.finish, ← agree.pending]
  cases reader.pending with
  | none => exact agree.segments
  | some inner => exact rel_append (Segment.forall₂_agree_refl _) agree.segments

theorem Agree.read {reader other : SegmentReader} (agree : reader.Agree other)
    (token : TokenChar) :
    (reader.read token).Agree (other.read token) := by
  rw [SegmentReader.read, SegmentReader.read, ← agree.pending]
  split
  · exact ⟨rfl, agree.finish⟩
  · cases reader.pending with
    | none => exact ⟨rfl, .cons Segment.Agree.rfl agree.segments⟩
    | some inner =>
      dsimp only
      split
      · exact ⟨rfl, .cons Segment.Agree.rfl agree.segments⟩
      · exact ⟨rfl, agree.segments⟩

theorem Agree.readAll
    {reader other : SegmentReader} (agree : reader.Agree other)
    (items : List TokenChar) :
    (readAll items reader).Agree (readAll items other) := by
  induction items with
  | nil => exact agree
  | cons token rest inductionHypothesis => exact inductionHypothesis.read token

theorem readAll_append
    (before after : List TokenChar) (reader : SegmentReader) :
    readAll (before ++ after) reader = readAll before (readAll after reader) :=
  foldr_append

theorem readAll_plain
    {items : List TokenChar} (plain : ∀ token ∈ items, token.Plain)
    (inner : List TokenChar) (segments : List Segment) :
    readAll items ⟨some inner, segments⟩ = ⟨some (items ++ inner), segments⟩ := by
  induction items with
  | nil => rfl
  | cons token rest inductionHypothesis =>
    obtain ⟨headPlain, restPlain⟩ := forall_mem_cons.mp plain
    have isRest := inductionHypothesis restPlain
    rw [readAll, foldr_cons]
    rw [readAll] at isRest
    rw [isRest, SegmentReader.read, if_neg headPlain.2]
    simp only [if_neg headPlain.1, cons_append]

theorem plain_intercalate {items : List (List TokenChar)}
    (plain : ∀ item ∈ items, ∀ token ∈ item, token.Plain ∧ token ≠ .comma) :
    ∀ token ∈ [TokenChar.comma].intercalate items, token.Plain := by
  induction items with
  | nil => exact forall_mem_nil _
  | cons first rest inductionHypothesis =>
    obtain ⟨firstPlain, restPlain⟩ := forall_mem_cons.mp plain
    intro token member
    cases rest with
    | nil =>
      rw [intercalate_singleton] at member
      exact (firstPlain token member).1
    | cons second others =>
      rw [intercalate_cons_cons, mem_append, mem_append,
        mem_singleton] at member
      rcases member with (inFirst | rfl) | inRest
      · exact (firstPlain token inFirst).1
      · exact ⟨by decide, by decide⟩
      · exact inductionHypothesis restPlain token inRest

theorem readAll_groupTokens {items : List (List TokenChar)}
    (plain : ∀ item ∈ items, ∀ token ∈ item, token.Plain ∧ token ≠ .comma)
    (nonempty : items ≠ []) (reader : SegmentReader) :
    readAll (groupTokens items) reader =
      ⟨none, .group items :: reader.finish⟩ := by
  have closed : readAll [.closeBrace] reader = ⟨some [], reader.finish⟩ := rfl
  have separated :
      ([TokenChar.comma].intercalate items).splitOn .comma = items :=
    splitOn_intercalate _ (fun item member inItem =>
      (plain item member _ inItem).2 rfl) nonempty
  rw [groupTokens, cons_append, readAll, foldr_cons]
  change SegmentReader.read .openBrace (readAll _ reader) = _
  rw [readAll_append, closed, readAll_plain (plain_intercalate plain),
    append_nil, SegmentReader.read, if_neg (by decide)]
  simp only [if_true, separated]

end SegmentReader

variable {tokens others : List TokenChar}

theorem ReorderStep.segments_agree (step : ReorderStep tokens others) :
    List.Forall₂ Segment.Agree (segments tokens) (segments others) := by
  rcases step with ⟨before, after, plain, nonempty, permuted⟩
  rename_i items others
  have othersPlain :
      ∀ item ∈ others, ∀ token ∈ item, token.Plain ∧ token ≠ .comma :=
    fun item member => plain item (permuted.mem_iff.mpr member)
  have othersNonempty : others ≠ [] := fun empty =>
    nonempty (List.Perm.eq_nil (empty ▸ permuted))
  apply SegmentReader.Agree.finish
  rw [append_assoc, append_assoc, SegmentReader.readAll_append,
    SegmentReader.readAll_append, SegmentReader.readAll_append before,
    SegmentReader.readAll_append (groupTokens others),
    SegmentReader.readAll_groupTokens plain nonempty,
    SegmentReader.readAll_groupTokens othersPlain othersNonempty]
  apply SegmentReader.Agree.readAll
  exact ⟨rfl, .cons permuted (Segment.forall₂_agree_refl _)⟩

/-!
## Segments stand for the tokens they were read from
-/

namespace SegmentReader

/-- Groups are well formed, and an open group holds plain tokens. -/
structure WellFormed (reader : SegmentReader) : Prop where
  pending : ∀ inner ∈ reader.pending, ∀ token ∈ inner, token.Plain
  segments : ∀ segment ∈ reader.segments, segment.WellFormed

theorem WellFormed.finish
    {reader : SegmentReader} (wellFormed : reader.WellFormed) :
    ∀ segment ∈ reader.finish, segment.WellFormed := by
  rw [SegmentReader.finish]
  cases reader.pending with
  | none => exact wellFormed.segments
  | some inner =>
    intro segment member
    rcases mem_append.mp member with single | later
    · obtain ⟨token, _, rfl⟩ := mem_map.mp single
      exact trivial
    · exact wellFormed.segments segment later

theorem wellFormed_group
    {inner : List TokenChar} (plain : ∀ token ∈ inner, token.Plain) :
    (Segment.group (inner.splitOn .comma)).WellFormed := by
  refine ⟨splitOn_ne_nil _ _, fun item member token inItem => ?_⟩
  obtain ⟨inside, notComma⟩ := mem_of_mem_splitOn member inItem
  exact ⟨plain token inside, notComma⟩

theorem WellFormed.read
    {reader : SegmentReader} (wellFormed : reader.WellFormed)
    (token : TokenChar) :
    (reader.read token).WellFormed := by
  rcases reader with ⟨pending, segments⟩
  rw [SegmentReader.read]
  split
  · refine ⟨fun inner isInner => ?_, wellFormed.finish⟩
    cases isInner
    exact forall_mem_nil _
  · rename_i notClose
    cases pending with
    | none =>
      refine ⟨wellFormed.pending, ?_⟩
      exact forall_mem_cons.mpr ⟨trivial, wellFormed.segments⟩
    | some inner =>
      have innerPlain := wellFormed.pending inner rfl
      dsimp only
      split
      · refine ⟨fun inner isInner =>
          absurd isInner (Option.not_mem_none inner), ?_⟩
        exact forall_mem_cons.mpr
          ⟨wellFormed_group innerPlain, wellFormed.segments⟩
      · rename_i notOpen
        refine ⟨fun opened isOpened => ?_, wellFormed.segments⟩
        cases isOpened
        exact forall_mem_cons.mpr ⟨⟨notOpen, notClose⟩, innerPlain⟩

theorem tokens_read (token : TokenChar) (reader : SegmentReader) :
    (reader.read token).tokens = token :: reader.tokens := by
  rcases reader with ⟨pending, segments⟩
  rw [SegmentReader.read]
  split
  · rename_i isClose
    subst isClose
    rfl
  · cases pending with
    | none => rfl
    | some inner =>
      dsimp only
      split
      · rename_i isOpen
        subst isOpen
        have joined :
            [TokenChar.comma].intercalate (inner.splitOn .comma) = inner :=
          intercalate_splitOn _
        simp [SegmentReader.tokens, SegmentReader.finish, Segment.tokens,
          groupTokens, joined, flatMap_map]
      · simp [SegmentReader.tokens, SegmentReader.finish, Segment.tokens,
          flatMap_map]

theorem WellFormed.readAll (items : List TokenChar) :
    (SegmentReader.readAll items ⟨none, []⟩).WellFormed := by
  induction items with
  | nil =>
    exact ⟨fun inner isInner => absurd isInner (Option.not_mem_none inner),
      forall_mem_nil _⟩
  | cons token rest inductionHypothesis => exact inductionHypothesis.read token

theorem tokens_readAll (items : List TokenChar) :
    (SegmentReader.readAll items ⟨none, []⟩).tokens = items := by
  induction items with
  | nil => rfl
  | cons token rest inductionHypothesis =>
    rw [SegmentReader.readAll, foldr_cons, tokens_read]
    exact congrArg (token :: ·) inductionHypothesis

end SegmentReader

theorem ReorderStep.surround
    (step : ReorderStep tokens others) (before after : List TokenChar) :
    ReorderStep (before ++ tokens ++ after) (before ++ others ++ after) := by
  rcases step with ⟨inBefore, inAfter, plain, nonempty, permuted⟩
  have reordered := ReorderStep.group (before ++ inBefore) (inAfter ++ after)
    plain nonempty permuted
  simpa only [append_assoc] using reordered

theorem reorder_surround
    (reordered : Relation.ReflTransGen ReorderStep tokens others)
    (before after : List TokenChar) :
    Relation.ReflTransGen ReorderStep
      (before ++ tokens ++ after) (before ++ others ++ after) :=
  reordered.lift (fun tokens => before ++ tokens ++ after)
    fun _ _ step => step.surround before after

theorem reorder_of_agree {segments others : List Segment}
    (wellFormed : ∀ segment ∈ segments, segment.WellFormed)
    (agree : List.Forall₂ Segment.Agree segments others) :
    Relation.ReflTransGen ReorderStep
      (segments.flatMap Segment.tokens) (others.flatMap Segment.tokens) := by
  induction agree with
  | nil => exact .refl
  | @cons segment other rest otherRest headAgree _ inductionHypothesis =>
    obtain ⟨headWellFormed, restWellFormed⟩ := forall_mem_cons.mp wellFormed
    have later := reorder_surround (inductionHypothesis restWellFormed)
      segment.tokens []
    rw [append_nil, append_nil] at later
    rw [flatMap_cons, flatMap_cons]
    refine later.trans ?_
    cases segment with
    | single token =>
      cases other with
      | single otherToken =>
        cases headAgree
        exact .refl
      | group items => exact headAgree.elim
    | group items =>
      cases other with
      | single token => exact headAgree.elim
      | group otherItems =>
        exact .single (ReorderStep.group [] _ headWellFormed.2
          headWellFormed.1 headAgree)

theorem segments_agree_of_reorder
    (reordered : Relation.ReflTransGen ReorderStep tokens others) :
    List.Forall₂ Segment.Agree (segments tokens) (segments others) := by
  induction reordered with
  | refl => exact Segment.forall₂_agree_refl _
  | tail _ step inductionHypothesis =>
    exact Segment.forall₂_agree_trans inductionHypothesis step.segments_agree

/--
Two texts denote the same expression exactly when their outlines agree, which
can be tested.
-/
theorem sameExpression_iff {text other : Text} :
    SameExpression text other ↔ SameOutline text other := by
  constructor
  · exact segments_agree_of_reorder
  · intro agree
    have reordered := reorder_of_agree
      (SegmentReader.WellFormed.readAll (tokens text)).finish agree
    have isText := SegmentReader.tokens_readAll (tokens text)
    have isOther := SegmentReader.tokens_readAll (tokens other)
    rw [SegmentReader.tokens] at isText isOther
    rw [SameExpression, ← isText, ← isOther]
    exact reordered

end ChronoDB.Library
