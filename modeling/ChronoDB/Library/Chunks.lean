import Mathlib.Data.List.Defs
import Mathlib.Data.List.Pairwise

namespace ChronoDB.Library

open List

/-!
# Lists cut into chunks

A list is cut into full chunks of one size and a last chunk that may be smaller.
The item at a position is in the chunk with the number of the position divided
by the size.
-/

variable {Item : Type}

theorem flatten_toChunks_go (size : ℕ) (items : List Item) (chunk : Array Item)
    (chunks : Array (List Item)) :
    (List.toChunks.go size items chunk chunks).flatten =
      chunks.toList.flatten ++ (chunk.toList ++ items) := by
  induction items generalizing chunk chunks with
  | nil => simp [List.toChunks.go]
  | cons item rest inductionHypothesis =>
    rw [List.toChunks.go]
    split <;> simp [inductionHypothesis]

theorem flatten_toChunks (size : ℕ) (items : List Item) :
    (items.toChunks size).flatten = items := by
  cases items with
  | nil => rw [List.toChunks, flatten_nil]
  | cons item rest =>
    cases size with
    | zero => exact flatten_singleton
    | succ size => exact flatten_toChunks_go (size + 1) rest #[item] #[]

theorem ne_nil_of_mem_toChunks_go
    (size : ℕ) (items : List Item) {chunk : Array Item}
    {chunks : Array (List Item)} (started : chunk ≠ #[])
    (nonempty : ∀ other ∈ chunks, other ≠ []) :
    ∀ other ∈ List.toChunks.go size items chunk chunks, other ≠ [] := by
  induction items generalizing chunk chunks with
  | nil =>
    simpa [List.toChunks.go, or_imp, forall_and] using ⟨nonempty, started⟩
  | cons item rest inductionHypothesis =>
    rw [List.toChunks.go]
    split
    · refine inductionHypothesis (by simp) ?_
      simpa [or_imp, forall_and] using ⟨nonempty, started⟩
    · exact inductionHypothesis (by simp) nonempty

theorem ne_nil_of_mem_toChunks {size : ℕ} {items chunk : List Item}
    (isChunk : chunk ∈ items.toChunks size) :
    chunk ≠ [] := by
  cases items with
  | nil =>
    rw [List.toChunks] at isChunk
    cases isChunk
  | cons item rest =>
    cases size with
    | zero => exact mem_singleton.mp isChunk ▸ cons_ne_nil item rest
    | succ size =>
      exact ne_nil_of_mem_toChunks_go (size + 1) rest (by simp)
        (by simp) chunk isChunk

/-- Items in different chunks are related exactly when their chunks are. -/
theorem pairwise_chunks_iff
    {size : ℕ} (positive : 0 < size) {full : List (List Item)}
    {last : List Item} (sizes : ∀ chunk ∈ full, chunk.length = size)
    (atMost : last.length ≤ size) (related : Item → Item → Prop) :
    (full ++ [last]).Pairwise
        (fun earlier later =>
          ∀ first ∈ earlier, ∀ second ∈ later, related first second) ↔
      ∀ i j first second,
        (full.flatten ++ last)[i]? = some first →
          (full.flatten ++ last)[j]? = some second →
            i / size < j / size → related first second := by
  induction full with
  | nil =>
    refine iff_of_true (by simp) ?_
    intro i j first second _ atJ less
    -- every position of the only chunk is divided to zero
    have inLast : j < last.length := by
      simpa using (List.getElem?_eq_some_iff.mp atJ).1
    rw [Nat.div_eq_of_lt (Nat.lt_of_lt_of_le inLast atMost)] at less
    exact absurd less (Nat.not_lt_zero _)
  | cons chunk rest inductionHypothesis =>
    obtain ⟨isFull, restFull⟩ := forall_mem_cons.mp sizes
    rw [cons_append, pairwise_cons,
      inductionHypothesis restFull, flatten_cons, append_assoc]
    have inRest :
        ∀ second, second ∈ rest.flatten ++ last ↔
          ∃ later ∈ rest ++ [last], second ∈ later := by
      intro second
      simp [or_and_right, exists_or]
    constructor
    · rintro ⟨across, within⟩ i j first second atI atJ less
      rcases Nat.lt_or_ge i size with early | late
      · rw [getElem?_append_left (by omega)] at atI
        have beyond : size ≤ j := by
          by_contra inside
          rw [Nat.div_eq_of_lt early,
            Nat.div_eq_of_lt (Nat.lt_of_not_le inside)] at less
          exact absurd less (Nat.lt_irrefl 0)
        rw [getElem?_append_right (by omega)] at atJ
        obtain ⟨later, isLater, inLater⟩ :=
          (inRest second).mp (mem_of_getElem? atJ)
        exact across later isLater first (mem_of_getElem? atI) second inLater
      · have beyond : size ≤ j := by
          by_contra inside
          rw [Nat.div_eq_of_lt (Nat.lt_of_not_le inside)] at less
          exact absurd less (Nat.not_lt_zero _)
        rw [getElem?_append_right (by omega), isFull] at atI atJ
        refine within (i - size) (j - size) first second atI atJ ?_
        have shiftI : i / size = (i - size) / size + 1 :=
          Nat.div_eq_sub_div positive late
        have shiftJ : j / size = (j - size) / size + 1 :=
          Nat.div_eq_sub_div positive beyond
        omega
    · intro positions
      refine ⟨fun later isLater first inChunk second inLater => ?_,
        fun i j first second atI atJ less => ?_⟩
      · obtain ⟨i, atI⟩ := getElem?_of_mem inChunk
        have early : i < chunk.length := (List.getElem?_eq_some_iff.mp atI).1
        obtain ⟨j, atJ⟩ :=
          getElem?_of_mem ((inRest second).mpr ⟨later, isLater, inLater⟩)
        refine positions i (j + chunk.length) first second ?_ ?_ ?_
        · rw [getElem?_append_left early]
          exact atI
        · rw [getElem?_append_right (Nat.le_add_left _ _), Nat.add_sub_cancel]
          exact atJ
        · rw [Nat.div_eq_of_lt (isFull ▸ early), isFull,
            Nat.add_div_right _ positive]
          exact Nat.succ_pos _
      · refine positions (i + chunk.length) (j + chunk.length) first second
          ?_ ?_ ?_
        · rw [getElem?_append_right (Nat.le_add_left _ _), Nat.add_sub_cancel]
          exact atI
        · rw [getElem?_append_right (Nat.le_add_left _ _), Nat.add_sub_cancel]
          exact atJ
        · rw [isFull, Nat.add_div_right _ positive,
            Nat.add_div_right _ positive]
          exact Nat.succ_lt_succ less

end ChronoDB.Library
