import Mathlib.Data.List.Chain
import Mathlib.Logic.Function.Basic

/-!
# Lists threaded through an array

Nodes are indices and `next` is the array of their links. A row of nodes is
threaded when each one's link is the one behind it: `l.IsChain (next · = ·)`,
where the link of the last says nothing. `Links more next l` is a row that marks
its own end: `more` holds of every node but the last. Rows are changed by writing
links outside of them, and by joining one to the end of another.
-/

namespace ActorNet.Lib

/-- A nonempty row whose last node, and no other, has no `more`. -/
inductive Links (more : Nat → Bool) (next : Nat → Nat) : List Nat → Prop
  | last {i} : more i = false → Links more next [i]
  | link {i j l} : more i = true → next i = j → Links more next (j :: l) →
      Links more next (i :: j :: l)

variable {more more' : Nat → Bool} {next next' : Nat → Nat} {l m : List Nat} {i p : Nat}

/-- Links elsewhere do not matter. -/
theorem threaded_congr (threaded : l.IsChain (next · = ·))
    (same : ∀ i ∈ l, next' i = next i) : l.IsChain (next' · = ·) :=
  threaded.imp_of_mem_imp fun i _ inside _ link => (same i inside).trans link

/-- Every node but the first is linked to. -/
theorem threaded_tail (threaded : l.IsChain (next · = ·)) : ∀ j ∈ l.tail, ∃ i, next i = j := by
  induction threaded with
  | nil => exact fun j inside => absurd inside List.not_mem_nil
  | singleton a => exact fun j inside => absurd inside List.not_mem_nil
  | @cons_cons a b l link _ ih =>
      intro j inside
      rcases List.mem_cons.mp inside with rfl | later
      · exact ⟨a, link⟩
      · exact ih j later

/-- Writing the head of one row into the last link of another joins them. -/
theorem threaded_join (first : l.IsChain (next · = ·)) (second : m.IsChain (next · = ·))
    (end_l : l.getLast? = some p) (begin_m : m.head? = some i) (distinct : l.Nodup)
    (apart : p ∉ m) : (l ++ m).IsChain (Function.update next p i · = ·) := by
  obtain ⟨front, rfl⟩ := List.getLast?_eq_some_iff.mp end_l
  have fresh : ∀ j ∈ front, j ≠ p := fun j inside same =>
    (List.nodup_append.mp distinct).2.2 j inside p (List.mem_singleton_self p) same
  obtain ⟨inner, -, toLast⟩ := List.isChain_append.mp first
  have kept : (front ++ [p]).IsChain (Function.update next p i · = ·) := by
    apply List.IsChain.append
    · exact threaded_congr inner fun j inside => Function.update_of_ne (fresh j inside) _ _
    · exact List.isChain_singleton _
    · intro a last b head
      rw [Function.update_of_ne (fresh a (List.mem_of_getLast? last))]
      exact toLast a last b head
  apply kept.append
  · apply threaded_congr second
    intro j inside
    apply Function.update_of_ne
    rintro rfl
    exact apart inside
  · intro a last b head
    rw [List.getLast?_concat] at last
    obtain rfl : p = a := Option.some.inj last
    obtain rfl : i = b := Option.some.inj (begin_m.symm.trans head)
    exact Function.update_self _ _ _

namespace Links

theorem ne_nil (links : Links more next l) : l ≠ [] := by
  cases links <;> exact List.cons_ne_nil _ _

theorem threaded (links : Links more next l) : l.IsChain (next · = ·) := by
  induction links with
  | last end_here => exact List.isChain_singleton _
  | link _ next_eq _ ih => exact List.IsChain.cons_cons next_eq ih

/-- Nodes elsewhere do not matter. -/
theorem congr (links : Links more next l)
    (same : ∀ i ∈ l, more' i = more i ∧ next' i = next i) : Links more' next' l := by
  induction links with
  | @last i end_here =>
      exact .last ((same i List.mem_cons_self).1.trans end_here)
  | @link i j l further next_eq _ ih =>
      obtain ⟨sameMore, sameNext⟩ := same i List.mem_cons_self
      exact .link (sameMore.trans further) (sameNext.trans next_eq)
        (ih fun k inside => same k (List.mem_cons_of_mem _ inside))

/-- The last node is marked and linked to a new one, which becomes the last. -/
theorem snoc {front : List Nat} (links : Links more next (front ++ [p]))
    (distinct : (front ++ [p, i]).Nodup) (others : ∀ j ∈ front, more' j = more j ∧ next' j = next j)
    (marked : more' p = true) (linked : next' p = i) (ends : more' i = false) :
    Links more' next' (front ++ [p, i]) := by
  induction front with
  | nil => exact .link marked linked (.last ends)
  | cons a front ih =>
      have distinct' := (List.nodup_cons.mp distinct).2
      have here := others a List.mem_cons_self
      have rest := fun tail => ih tail distinct' fun j inside =>
        others j (List.mem_cons_of_mem _ inside)
      cases front with
      | nil =>
          cases links with
          | link further next_eq tail =>
              exact .link (here.1.trans further) (here.2.trans next_eq) (rest tail)
      | cons b front =>
          cases links with
          | link further next_eq tail =>
              exact .link (here.1.trans further) (here.2.trans next_eq) (rest tail)

end Links

end ActorNet.Lib
