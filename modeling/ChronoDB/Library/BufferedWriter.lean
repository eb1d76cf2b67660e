import Mathlib.Data.Nat.Basic

namespace ChronoDB.Library

/-!
# Buffered writers

A buffered writer passes bytes on in the order in which it got them, and keeps
some of the newest in memory.  How many it keeps is its policy; the only promise
is that it keeps everything as long as its buffer is not full.  Bytes that are
still in memory when the writer is dropped are lost.
-/

/-- How many of its newest bytes a buffered writer keeps in memory. -/
structure BufferPolicy where
  /-- The bytes kept once an item was written behind the buffered bytes. -/
  kept : (capacity buffered item : ℕ) → ℕ
  kept_le :
    ∀ capacity buffered item, kept capacity buffered item ≤ buffered + item
  kept_of_lt :
    ∀ {capacity buffered item},
      buffered + item < capacity →
      kept capacity buffered item = buffered + item

namespace BufferPolicy

variable (policy : BufferPolicy) (capacity : ℕ)

def keptAfter (buffered : ℕ) (items : List ℕ) : ℕ :=
  items.foldl (policy.kept capacity) buffered

@[simp] theorem keptAfter_nil (buffered : ℕ) :
    policy.keptAfter capacity buffered [] = buffered :=
  rfl

@[simp] theorem keptAfter_cons (buffered item : ℕ) (items : List ℕ) :
    policy.keptAfter capacity buffered (item :: items) =
      policy.keptAfter capacity (policy.kept capacity buffered item) items :=
  rfl

/--
The policy of a writer that flushes when an item does not fit behind the
buffered bytes, and passes items of the size of its buffer straight through.
-/
def bypassing : BufferPolicy where
  kept capacity buffered item :=
    if capacity ≤ item then 0
    else if capacity < buffered + item then item
    else buffered + item
  kept_le capacity buffered item := by
    split
    · omega
    · split <;> omega
  kept_of_lt fits := by
    rw [if_neg (by omega), if_neg (by omega)]

/--
A bypassing writer keeps nothing of a batch of nonempty items exactly when the
last of them is at least as large as its buffer.
-/
theorem keptAfter_bypassing_eq_zero_iff
    {buffered item : ℕ} {items : List ℕ} (nonempty : 0 < item) :
    bypassing.keptAfter capacity buffered (items ++ [item]) = 0 ↔
      capacity ≤ item := by
  rw [keptAfter, List.foldl_append]
  simp only [List.foldl_cons, List.foldl_nil, bypassing]
  split
  · simpa
  · split <;> omega

end BufferPolicy

end ChronoDB.Library
