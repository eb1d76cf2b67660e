import ChronoDB.Query.Parser

namespace ChronoDB.Query

open Library Text List

/-!
# What the parser finds

The searches for the first bracket, for an `@` modifier and for an outermost
bracket never panic: what they find is where they look for it.  An outermost
bracket is found exactly when some closing bracket brings the depth back to zero
and matches an opening one.
-/

/-!
## The first bracket and the modifiers
-/

theorem find_append_cons
    {property : Char → Bool} {before after : Text} {char : Char}
    (isChar : property char = true)
    (notBefore : ∀ earlier ∈ before, property earlier = false) :
    find property (before ++ char :: after) = some (byteLength before) :=
  find_eq_some_iff.mpr ⟨before, char, after, rfl, isChar, notBefore, rfl⟩

theorem find_eq_none_of_not_mem
    {text : Text} {char : Char} (notMember : char ∉ text) :
    find (· == char) text = none := by
  refine find_eq_none_iff.mpr fun other member => ?_
  rw [beq_eq_false_iff_ne]
  rintro rfl
  exact notMember member

theorem find_first {before after : Text} {char : Char} (first : char ∉ before) :
    find (· == char) (before ++ char :: after) = some (byteLength before) := by
  refine find_append_cons (beq_self_eq_true char) fun other member => ?_
  rw [beq_eq_false_iff_ne]
  rintro rfl
  exact first member

theorem sliceFrom_append_cons
    (before after : Text) {char : Char} (oneByte : char.utf8Size = 1) :
    sliceFrom (before ++ char :: after) (byteLength before + 1) = some after :=
  sliceFrom_eq_some_iff.mpr ⟨before ++ [char], by simp, by simp [oneByte]⟩

theorem beforeParen_cases (query : Text) :
    ('(' ∉ query ∧ beforeParen query = .ok none) ∨
      ∃ before after,
        query = before ++ '(' :: after ∧
          '(' ∉ before ∧
            beforeParen query =
              .ok (some (byteLength before, trim before)) := by
  by_cases paren : '(' ∈ query
  · obtain ⟨before, after, rfl, first⟩ := eq_append_cons_of_mem paren
    refine Or.inr ⟨before, after, rfl, first, ?_⟩
    rw [beforeParen, find_first first]
    simp only [sliceTo_append, orPanic_some, ok_bind]
  · refine Or.inl ⟨paren, ?_⟩
    rw [beforeParen, find_eq_none_of_not_mem paren]

theorem splitAtModifier_cases (text : Text) :
    ('@' ∉ text ∧ splitAtModifier text = .ok none) ∨
      ('@' ∈ text ∧
        ∃ base atPart, splitAtModifier text = .ok (some (base, atPart))) := by
  rw [splitAtModifier]
  cases isFound : findPattern " @".toList text with
  | some atIdx =>
    obtain ⟨before, after, rfl, rfl⟩ := exists_of_findPattern isFound
    have afterPattern :
        sliceFrom (before ++ (" @".toList ++ after)) (byteLength before + 2) =
          some after :=
      sliceFrom_eq_some_iff.mpr ⟨before ++ " @".toList, by simp, by simp; rfl⟩
    refine Or.inr ⟨by simp, before, after, ?_⟩
    simp only [sliceTo_append, afterPattern, orPanic_some, ok_bind]
  | none =>
    by_cases sign : '@' ∈ text
    · obtain ⟨before, after, rfl, first⟩ := eq_append_cons_of_mem sign
      refine Or.inr ⟨sign, before, after, ?_⟩
      simp only [find_first first, sliceTo_append, sliceFrom_append_cons before
        after (show '@'.utf8Size = 1 from rfl), orPanic_some, ok_bind]
    · refine Or.inl ⟨sign, ?_⟩
      simp only [find_eq_none_of_not_mem sign]

/-!
## Outermost brackets
-/

/-- The depth after a text, as the search counts it. -/
def bracketDepth (text : Text) : ℤ :=
  (text.map bracketStep).sum

@[simp] theorem bracketDepth_append (first second : Text) :
    bracketDepth (first ++ second) =
      bracketDepth first + bracketDepth second := by
  rw [bracketDepth, map_append, sum_append]
  rfl

@[simp] theorem bracketDepth_singleton (char : Char) :
    bracketDepth [char] = bracketStep char := by
  simp [bracketDepth]

/-- An opening bracket stands before an inner text that uses up the depth. -/
def OpensAt (innerDepth : ℕ) (text : Text) : Prop :=
  ∃ opening inner,
    text = opening ++ '[' :: inner ∧
      innerDepth + inner.count ']' = inner.count '[' + 1

/-- Some closing bracket at depth zero has the opening bracket it matches. -/
def HasOutermostBracket (query : Text) : Prop :=
  ∃ before after,
    query = before ++ ']' :: after ∧
      bracketDepth (before ++ [']']) = 0 ∧ OpensAt 1 before

theorem not_opensAt_nil (innerDepth : ℕ) : ¬OpensAt innerDepth [] := by
  rintro ⟨opening, inner, isText, _⟩
  cases opening <;> cases isText

theorem opensAt_append_singleton {innerDepth : ℕ} {text : Text} {char : Char} :
    OpensAt innerDepth (text ++ [char]) ↔
      (char = '[' ∧ innerDepth = 1) ∨
        ∃ opening inner,
          text = opening ++ '[' :: inner ∧
            innerDepth + (inner ++ [char]).count ']' =
              (inner ++ [char]).count '[' + 1 := by
  constructor
  · rintro ⟨opening, inner, isText, balanced⟩
    cases inner using List.reverseRecOn with
    | nil =>
      have same := append_inj' isText rfl
      exact Or.inl ⟨by simpa using same.2, by simpa using balanced⟩
    | append_singleton inner last =>
      rw [← cons_append, ← append_assoc] at isText
      have same := append_inj' isText rfl
      have sameLast : char = last := by
        simpa using same.2
      exact Or.inr ⟨opening, inner, same.1, by rw [sameLast, balanced]⟩
  · rintro (⟨rfl, rfl⟩ | ⟨opening, inner, rfl, balanced⟩)
    · exact ⟨text, [], rfl, rfl⟩
    · exact ⟨opening, inner ++ [char], by simp, balanced⟩

theorem exists_openingBefore
    {query : Text} {position innerDepth : ℕ} (inside : position ≤ query.length)
    (positive : 0 < innerDepth) :
    ∃ found,
      openingBefore query innerDepth position = .ok found ∧
        (found.isSome ↔ OpensAt innerDepth (query.take position)) := by
  induction position generalizing innerDepth with
  | zero =>
    refine ⟨none, rfl, ?_⟩
    simp [not_opensAt_nil]
  | succ position inductionHypothesis =>
    have here : query[position]? = some query[position] :=
      getElem?_eq_getElem inside
    have isTake :
        query.take (position + 1) = query.take position ++ [query[position]] :=
      take_succ_eq_append_getElem inside
    rw [openingBefore, here, isTake, opensAt_append_singleton]
    simp only [orPanic]
    generalize query[position] = char
    have before := fun depth positive =>
      @inductionHypothesis depth (Nat.le_of_lt inside) positive
    simp only [bind, Except.bind]
    by_cases isOpening : char = '['
    · rw [if_pos isOpening]
      by_cases isOne : innerDepth = 1
      · rw [if_pos isOne]
        exact ⟨some position, rfl, by simp [isOpening, isOne]⟩
      · rw [if_neg isOne]
        obtain ⟨found, isFound, foundIff⟩ := before (innerDepth - 1) (by omega)
        refine ⟨found, isFound, foundIff.trans ?_⟩
        rw [OpensAt]
        subst isOpening
        simp only [isOne, and_false, false_or, count_append, count_singleton]
        refine exists_congr fun opening => exists_congr fun inner =>
          and_congr_right fun _ => ?_
        simp
        omega
    · rw [if_neg isOpening]
      by_cases isClosing : char = ']'
      · rw [if_pos isClosing]
        obtain ⟨found, isFound, foundIff⟩ :=
          before (innerDepth + 1) (Nat.succ_pos _)
        refine ⟨found, isFound, foundIff.trans ?_⟩
        rw [OpensAt]
        subst isClosing
        simp only [isOpening, false_and, false_or, count_append,
          count_singleton]
        refine exists_congr fun opening => exists_congr fun inner =>
          and_congr_right fun _ => ?_
        simp
        omega
      · rw [if_neg isClosing]
        obtain ⟨found, isFound, foundIff⟩ := before innerDepth positive
        refine ⟨found, isFound, foundIff.trans ?_⟩
        rw [OpensAt]
        simp [isOpening, isClosing, count_append]

/-- From a position on, the search stops at the first outermost bracket. -/
theorem exists_outermostFrom
    {query before rest : Text} (isQuery : query = before ++ rest) :
    ∃ found,
      outermostFrom query (bracketDepth before) before.length rest = .ok found ∧
        (found.isSome ↔
          ∃ middle after,
            rest = middle ++ ']' :: after ∧
              bracketDepth (before ++ middle ++ [']']) = 0 ∧
                OpensAt 1 (before ++ middle)) := by
  induction rest generalizing before with
  | nil => exact ⟨none, rfl, by simp⟩
  | cons char rest inductionHypothesis =>
    have later := @inductionHypothesis (before ++ [char]) (by simp [isQuery])
    rw [bracketDepth_append, bracketDepth_singleton, length_append,
      length_singleton] at later
    obtain ⟨later, isLater, laterIff⟩ := later
    -- a bracket further on is one after this character
    have shifted :
        (∃ middle after,
            rest = middle ++ ']' :: after ∧
              bracketDepth (before ++ [char] ++ middle ++ [']']) = 0 ∧
                OpensAt 1 (before ++ [char] ++ middle)) ↔
          ∃ middle after,
            char :: rest = (char :: middle) ++ ']' :: after ∧
              bracketDepth (before ++ (char :: middle) ++ [']']) = 0 ∧
                OpensAt 1 (before ++ char :: middle) := by
      simp
    have splitHere :
        (∃ middle after,
            char :: rest = middle ++ ']' :: after ∧
              bracketDepth (before ++ middle ++ [']']) = 0 ∧
                OpensAt 1 (before ++ middle)) ↔
          (char = ']' ∧ bracketDepth before + bracketStep char = 0 ∧
              OpensAt 1 before) ∨
            later.isSome := by
      rw [laterIff, shifted]
      constructor
      · rintro ⟨middle, after, isRest, atZero, opens⟩
        cases middle with
        | nil =>
          cases isRest
          exact Or.inl ⟨rfl, by simpa using atZero, by simpa using opens⟩
        | cons first middle =>
          cases isRest
          exact Or.inr ⟨middle, after, rfl, atZero, opens⟩
      · rintro (⟨rfl, atZero, opens⟩ | ⟨middle, after, found⟩)
        · exact ⟨[], rest, rfl, by simpa using atZero, by simpa using opens⟩
        · exact ⟨char :: middle, after, found⟩
    rw [outermostFrom, splitHere]
    simp only [openingOf]
    by_cases closes : char = ']' ∧ bracketDepth before + bracketStep char = 0
    · rw [if_pos closes]
      obtain ⟨found, isFound, foundIff⟩ :=
        @exists_openingBefore query before.length 1 (by simp [isQuery])
          Nat.one_pos
      have isTake : query.take before.length = before := by
        rw [isQuery, take_left']
        rfl
      rw [isTake] at foundIff
      simp only [isFound, bind, Except.bind]
      cases found with
      | some position =>
        exact ⟨some position, rfl,
          iff_of_true rfl (Or.inl ⟨closes.1, closes.2, foundIff.mp rfl⟩)⟩
      | none =>
        refine ⟨later, isLater, ?_⟩
        simp only [Option.isSome_none, Bool.false_eq_true, false_iff]
          at foundIff
        simp [foundIff]
    · rw [if_neg closes]
      refine ⟨later, isLater, ?_⟩
      simp only [← and_assoc, closes, false_and, false_or]

theorem exists_findOutermostBracket (query : Text) :
    ∃ found,
      findOutermostBracket query = .ok found ∧
        (found.isSome ↔ HasOutermostBracket query) := by
  obtain ⟨found, isFound, foundIff⟩ := @exists_outermostFrom query [] query rfl
  refine ⟨found, isFound, foundIff.trans ?_⟩
  simp [HasOutermostBracket]

theorem findOutermostBracket_eq_none_iff {query : Text} :
    findOutermostBracket query = .ok none ↔ ¬HasOutermostBracket query := by
  obtain ⟨found, isFound, foundIff⟩ := exists_findOutermostBracket query
  rw [isFound, ← foundIff]
  cases found <;> simp

theorem not_hasOutermostBracket {query : Text}
    (noClosing : ']' ∉ query) :
    ¬HasOutermostBracket query := by
  rintro ⟨before, after, rfl, _⟩
  exact noClosing (by simp)

end ChronoDB.Query
