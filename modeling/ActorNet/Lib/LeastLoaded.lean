import Mathlib.Algebra.Order.BigOperators.Group.Finset

/-!
# Giving work to the least loaded

A balancer of `n` loads either lets them fall, or lets one that is least rise by one.
If all loads together never exceed a peak, no single load ever exceeds the peak's
share of one, rounded up.
-/

namespace ActorNet.Lib

open Finset

variable {n peak : Nat} {f f' : Nat → Nat}

/-- What a balancer may do to the loads in one step. -/
inductive Balancing (n : Nat) (f f' : Nat → Nat) : Prop
  | falls (lower : ∀ i < n, f' i ≤ f i)
  | rises (i : Nat) (inside : i < n) (least : ∀ j < n, f i ≤ f j) (up : f' i = f i + 1)
      (others : ∀ j < n, j ≠ i → f' j = f j)

/-- Every load is at most the share of one in `peak`, rounded up. -/
def Fair (n peak : Nat) (f : Nat → Nat) : Prop := ∀ i < n, n * f i < peak + n

/-- A least load is at most the average. -/
theorem mul_least_le {i : Nat} (least : ∀ j < n, f i ≤ f j) : n * f i ≤ ∑ j ∈ range n, f j := by
  have bound := card_nsmul_le_sum (range n) f (f i) fun j mem => least j (mem_range.mp mem)
  rwa [card_range, Nat.nsmul_eq_mul] at bound

theorem fair_zero (zero : ∀ i < n, f i = 0) : Fair n peak f := by
  intro i inside
  rw [zero i inside]
  omega

/-- The step lemma: what rises was below the average of what there was before. -/
theorem Balancing.fair (step : Balancing n f f') (bounded : ∑ j ∈ range n, f' j ≤ peak)
    (fair : Fair n peak f) : Fair n peak f' := by
  intro j below
  cases step with
  | falls lower => exact Nat.lt_of_le_of_lt (Nat.mul_le_mul_left n (lower j below)) (fair j below)
  | rises i inside least up others =>
      by_cases same : j = i
      · have average := mul_least_le least
        have more : ∑ j ∈ range n, f j < ∑ j ∈ range n, f' j := by
          refine sum_lt_sum (fun k mem => ?_) ⟨i, mem_range.mpr inside, by omega⟩
          by_cases this : k = i
          · rw [this]
            omega
          · exact Nat.le_of_eq (others k (mem_range.mp mem) this).symm
        rw [same, up, Nat.mul_add, Nat.mul_one]
        omega
      · rw [others j below same]
        exact fair j below

end ActorNet.Lib
