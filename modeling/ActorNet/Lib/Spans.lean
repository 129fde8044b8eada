import Mathlib.Algebra.BigOperators.Group.List.Basic
import Mathlib.Algebra.GroupWithZero.Nat
import Mathlib.Algebra.Order.BigOperators.Group.List
import Mathlib.Algebra.Order.Group.Nat
import Mathlib.Data.List.Count
import Mathlib.Data.List.TakeDrop

/-!
# Strings in pieces

The pieces of a string, given by their lengths, lie one behind the other. `touched a b`
counts those that have a part in the bytes from `a` to `b`; `dropped n` is what is left
of them behind the first `n` bytes.
-/

namespace ActorNet.Lib

/-- How many pieces lie at least partly in the span. -/
def touched (a b : Nat) (ls : List Nat) : Nat :=
  (List.range ls.length).countP fun i => decide ((ls.take i).sum < b ∧ a < (ls.take (i + 1)).sum)

/-- The pieces behind the first `n` bytes. -/
def dropped : Nat → List Nat → List Nat
  | _, [] => []
  | n, l :: ls => if n < l then (l - n) :: ls else dropped (n - l) ls

variable {a b n l : Nat} {ls : List Nat}

@[simp] theorem touched_nil (a b : Nat) : touched a b [] = 0 := rfl

theorem touched_le_length (a b : Nat) (ls : List Nat) : touched a b ls ≤ ls.length := by
  simpa [touched] using List.countP_le_length
    (p := fun i => decide ((ls.take i).sum < b ∧ a < (ls.take (i + 1)).sum))
    (l := List.range ls.length)

theorem touched_zero (a : Nat) (ls : List Nat) : touched a 0 ls = 0 := by
  rw [touched, List.countP_eq_zero]
  simp

theorem sum_take_succ_pos (pos : ∀ l ∈ ls, 0 < l) {i : Nat} (within : i < ls.length) :
    0 < (ls.take (i + 1)).sum := by
  obtain ⟨l, rest, rfl⟩ := List.exists_cons_of_length_pos (Nat.zero_lt_of_lt within)
  have first := pos l List.mem_cons_self
  rw [List.take_succ_cons, List.sum_cons]
  omega

/-- The first piece, and the others with the span moved back. -/
theorem touched_cons (pos : ∀ l ∈ ls, 0 < l) :
    touched a b (l :: ls) = (if 0 < b ∧ a < l then 1 else 0) + touched (a - l) (b - l) ls := by
  rw [touched, List.length_cons, List.range_succ_eq_map, List.countP_cons, List.countP_map,
    Nat.add_comm]
  refine congrArg₂ (· + ·) (by simp) (List.countP_congr fun i mem => ?_)
  have later := sum_take_succ_pos pos (List.mem_range.mp mem)
  simp only [Function.comp_apply, decide_eq_true_eq]
  rw [Nat.succ_eq_add_one, List.take_succ_cons, List.take_succ_cons, List.sum_cons, List.sum_cons]
  omega

theorem sum_dropped (n : Nat) (ls : List Nat) : (dropped n ls).sum = ls.sum - n := by
  induction ls generalizing n with
  | nil => simp [dropped]
  | cons l ls ih =>
      rw [dropped, List.sum_cons]
      split
      · rw [List.sum_cons]
        omega
      · rw [ih]
        omega

/-- What a span behind the first `n` bytes touches of what is left there. -/
theorem touched_dropped (pos : ∀ l ∈ ls, 0 < l) (span : a < b) :
    touched a b (dropped n ls) = touched (n + a) (n + b) ls := by
  induction ls generalizing n with
  | nil => rfl
  | cons l ls ih =>
      obtain ⟨-, there⟩ := List.forall_mem_cons.mp pos
      rw [dropped, touched_cons there]
      split
      next within =>
        rw [touched_cons there]
        have first : (0 < b ∧ a < l - n) ↔ (0 < n + b ∧ n + a < l) := by omega
        have begin' : a - (l - n) = n + a - l := by omega
        have end' : b - (l - n) = n + b - l := by omega
        simp only [first, begin', end']
      next behind =>
        rw [ih there, if_neg (by omega), Nat.zero_add]
        congr 1 <;> omega

end ActorNet.Lib
