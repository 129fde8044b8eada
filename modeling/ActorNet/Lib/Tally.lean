import Mathlib.Data.Finset.Card
import Mathlib.Data.Finset.Range

/-!
# Counting names

Objects named by the order of their creation are counted by a predicate on
their names. A counter follows the count when it moves with every name that
begins or ceases to satisfy the predicate.
-/

namespace ActorNet.Lib

/-- How many of the first `n` names satisfy `p`. -/
def tally (n : Nat) (p : Nat → Bool) : Nat := ((Finset.range n).filter fun b => p b = true).card

variable {n b : Nat} {p q : Nat → Bool}

theorem tally_congr (same : ∀ j < n, q j = p j) : tally n q = tally n p := by
  unfold tally
  congr 1
  apply Finset.filter_congr
  intro j mem
  rw [same j (Finset.mem_range.mp mem)]

/-- One name ceases to be counted. -/
theorem tally_leave (inside : b < n) (before : p b = true) (after : q b = false)
    (same : ∀ j, j ≠ b → q j = p j) : tally n q + 1 = tally n p := by
  unfold tally
  have counted : b ∈ (Finset.range n).filter fun j => p j = true := by
    simp [inside, before]
  rw [← Finset.card_erase_add_one counted]
  congr 2
  ext j
  by_cases here : j = b
  · simp [here, after]
  · simp [here, same j here]

/-- A new name is counted, or is not. -/
theorem tally_succ (same : ∀ j < n, q j = p j) :
    tally (n + 1) q = tally n p + if q n = true then 1 else 0 := by
  rw [← tally_congr same]
  unfold tally
  rw [Finset.range_add_one, Finset.filter_insert]
  split
  · rw [Finset.card_insert_of_notMem (by simp)]
  · rfl

theorem exists_of_tally_pos (some : 0 < tally n p) : ∃ b < n, p b = true := by
  obtain ⟨b, mem⟩ := Finset.card_pos.mp some
  have both := Finset.mem_filter.mp mem
  exact ⟨b, Finset.mem_range.mp both.1, both.2⟩

end ActorNet.Lib
