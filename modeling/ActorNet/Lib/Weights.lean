import Mathlib.Algebra.BigOperators.Group.List.Basic
import Mathlib.Algebra.GroupWithZero.Nat
import Mathlib.Data.List.AList

/-!
# The weight of a finite map

The sum of a number that each value of a finite map has. A counter follows it
when it moves with every value that is put into the map and taken out.
-/

namespace ActorNet.Lib

variable {α β : Type}

/-- The sum of `f` over the values. -/
def weigh (f : β → Nat) (s : AList fun _ : α => β) : Nat := (s.entries.map fun x => f x.2).sum

variable {f : β → Nat} {s : AList fun _ : α => β} {a : α} {b : β}

theorem eq_empty_of_no_key (none_ : ∀ a, a ∉ s) : s = ∅ := by
  apply AList.ext
  cases entries : s.entries with
  | nil => rfl
  | cons x rest =>
      refine absurd ?_ (none_ x.1)
      show x.1 ∈ s.entries.keys
      rw [entries]
      exact List.mem_cons_self

variable [DecidableEq α]

/-- A value that is taken out. -/
theorem weigh_erase (found : s.lookup a = some b) : f b + weigh f (s.erase a) = weigh f s := by
  have key : a ∈ s.entries.keys := by
    have there : (s.lookup a).isSome := by rw [found]; rfl
    exact AList.lookup_isSome.mp there
  obtain ⟨b', front, back, _, whole, erased⟩ := List.exists_of_kerase key
  have same : b' = b := by
    have mem : (⟨a, b'⟩ : Sigma fun _ : α => β) ∈ s.entries := by
      rw [whole]
      exact List.mem_append_right _ List.mem_cons_self
    have found' := AList.mem_lookup_iff.mpr mem
    exact Option.some.inj (found'.symm.trans found)
  subst same
  show f b' + ((List.kerase a s.entries).map fun x => f x.2).sum = (s.entries.map fun x => f x.2).sum
  rw [erased, whole]
  simp only [List.map_append, List.map_cons, List.sum_append, List.sum_cons]
  omega

/-- A value that is put in takes the place of an old one. -/
theorem weigh_insert : weigh f (s.insert a b) = f b + weigh f (s.erase a) := by
  rw [weigh, AList.entries_insert, List.map_cons, List.sum_cons]
  rfl

end ActorNet.Lib
