import Mathlib.Data.List.Nodup
import Mathlib.Logic.Function.Basic

/-!
# Semaphores of one unit

The fibers that asked for the unit, in the order in which they asked: the first has
it and the others wait for it. A fiber asks at the end of the list, and whoever has
the unit passes it on to the next when it is done.

`Keeps` relates such a list to what the fibers do: who asks is in it, and who relies
on the unit has it. `exists_running` is the rule of ranked semaphores: when those who
have a unit only wait for units of higher rank, somebody does not wait.
-/

namespace ActorNet.Lib

/-- The fibers that asked for the unit, the one that has it first. -/
abbrev Semaphore (ι : Type) := List ι

namespace Semaphore

variable {ι : Type}

def Has (q : Semaphore ι) (i : ι) : Prop := q.head? = some i

instance Has.decidable [DecidableEq ι] (q : Semaphore ι) (i : ι) : Decidable (q.Has i) :=
  inferInstanceAs (Decidable (q.head? = some i))

def wait (q : Semaphore ι) (i : ι) : Semaphore ι := q ++ [i]

def signal (q : Semaphore ι) : Semaphore ι := q.tail

theorem Has.mem {q : Semaphore ι} {i : ι} (has : q.Has i) : i ∈ q :=
  List.mem_of_mem_head? has

theorem Has.unique {q : Semaphore ι} {i j : ι} (has : q.Has i) (has' : q.Has j) : i = j :=
  Option.some.inj (has.symm.trans has')

theorem Has.wait {q : Semaphore ι} {i : ι} (has : q.Has i) (j : ι) : (q.wait j).Has i := by
  cases q with
  | nil => cases has
  | cons x q => exact has

theorem Has.signal {q : Semaphore ι} {i : ι} (has : q.Has i) : q = i :: q.signal := by
  cases q with
  | nil => cases has
  | cons x q =>
      cases has
      rfl

theorem exists_has {q : Semaphore ι} (asked : q ≠ []) : ∃ i, q.Has i := by
  cases q with
  | nil => exact absurd rfl asked
  | cons x q => exact ⟨x, rfl⟩

/-- `j` asked after `i` did, and both are still there. -/
def Behind (q : Semaphore ι) (i j : ι) : Prop := ∃ a b c : List ι, q = a ++ i :: (b ++ j :: c)

theorem Behind.wait {q : Semaphore ι} {i j k : ι} (behind : (q.wait k).Behind i j) :
    q.Behind i j ∨ (j = k ∧ i ∈ q) := by
  obtain ⟨a, b, c, all⟩ := behind
  rcases List.eq_nil_or_concat c with rfl | ⟨c, x, rfl⟩
  · have ends : q ++ [k] = (a ++ i :: b) ++ [j] := by simpa [Semaphore.wait] using all
    obtain ⟨rfl, last⟩ := List.append_inj' ends rfl
    exact .inr ⟨(List.singleton_inj.mp last).symm, by simp⟩
  · have ends : q ++ [k] = (a ++ i :: (b ++ j :: c)) ++ [x] := by
      simpa [Semaphore.wait] using all
    exact .inl ⟨a, b, c, (List.append_inj' ends rfl).1⟩

theorem Behind.signal {q : Semaphore ι} {i j : ι} (behind : q.signal.Behind i j) :
    q.Behind i j := by
  cases q with
  | nil => exact behind
  | cons x q =>
      obtain ⟨a, b, c, rest⟩ := behind
      exact ⟨x :: a, b, c, congrArg (x :: ·) rest⟩

theorem Behind.of_has {q : Semaphore ι} {i j : ι} (has : q.Has i) (inside : j ∈ q)
    (other : j ≠ i) : q.Behind i j := by
  have here := has.signal
  have later : j ∈ q.signal := by
    rw [here] at inside
    exact (List.mem_cons.mp inside).resolve_left other
  obtain ⟨b, c, rest⟩ := List.append_of_mem later
  exact ⟨[], b, c, by rw [here, rest]; rfl⟩

/-- Nobody is ahead of the one that has the unit. -/
theorem Has.not_behind {q : Semaphore ι} {i j : ι} (has : q.Has j) (distinct : q.Nodup) :
    ¬ q.Behind i j := by
  rintro ⟨a, b, c, rfl⟩
  cases a with
  | nil =>
      cases has
      simp at distinct
  | cons x a =>
      cases has
      simp at distinct

/-! ## What the fibers do -/

/-- Who `asks` is in the list, once, and who `relies` on the unit has it. -/
structure Keeps (q : Semaphore ι) (asks relies : ι → Bool) : Prop where
  distinct : q.Nodup
  asked : ∀ i, i ∈ q ↔ asks i = true
  relied : ∀ i, relies i = true → q.Has i

section

variable [DecidableEq ι] {q : Semaphore ι} {asks relies : ι → Bool} {i : ι}

/-- A fiber that had not asked asks. -/
theorem Keeps.wait (keeps : q.Keeps asks relies) (before : asks i = false) :
    (q.wait i).Keeps (Function.update asks i true) (Function.update relies i false) where
  distinct := by
    have absent : i ∉ q := by simp [keeps.asked, before]
    exact List.nodup_append.mpr ⟨keeps.distinct, List.nodup_singleton i, fun a mem b last same =>
      absent (List.mem_singleton.mp last ▸ same ▸ mem)⟩
  asked j := by
    by_cases here : j = i
    · simp [Semaphore.wait, here]
    · simp [Semaphore.wait, here, keeps.asked]
  relied j relies' := by
    by_cases here : j = i
    · simp [here] at relies'
    · exact (keeps.relied j (by simpa [here] using relies')).wait i

/-- The fiber that has the unit passes it on. -/
theorem Keeps.signal (keeps : q.Keeps asks relies) (has : q.Has i) :
    q.signal.Keeps (Function.update asks i false) (Function.update relies i false) := by
  have here := has.signal
  have distinct := keeps.distinct
  rw [here, List.nodup_cons] at distinct
  refine ⟨distinct.2, fun j => ?_, fun j relies' => ?_⟩
  · by_cases same : j = i
    · simp [same, distinct.1]
    · have inside := keeps.asked j
      rw [here, List.mem_cons] at inside
      simpa [same] using inside
  · by_cases same : j = i
    · simp [same] at relies'
    · exact absurd ((keeps.relied j (by simpa [same] using relies')).unique has) same

/-- A fiber keeps its place; it may rely on the unit when it has it. -/
theorem Keeps.stay (keeps : q.Keeps asks relies) {a b : Bool} (was : asks i = a)
    (may : b = true → q.Has i) :
    q.Keeps (Function.update asks i a) (Function.update relies i b) where
  distinct := keeps.distinct
  asked j := by rw [← was, Function.update_eq_self, keeps.asked]
  relied j relies' := by
    by_cases here : j = i
    · subst here
      exact may (by simpa using relies')
    · exact keeps.relied j (by simpa [here] using relies')

/-- The list when a fiber goes on that asked or did not, and then asks or does not. -/
def turn (q : Semaphore ι) (i : ι) : Bool → Bool → Semaphore ι
  | false, true => q.wait i
  | true, false => q.signal
  | _, _ => q

/-- A fiber goes on. To pass the unit on or to rely on it, it must have it. -/
theorem Keeps.turn (keeps : q.Keeps asks relies) {before after b : Bool} (was : asks i = before)
    (has : before = true → after = false ∨ b = true → q.Has i)
    (not_yet : before = false → b = false) (asks' : b = true → after = true) :
    (q.turn i before after).Keeps (Function.update asks i after) (Function.update relies i b) := by
  cases before with
  | false =>
      have none := not_yet rfl
      subst none
      cases after with
      | false => exact keeps.stay was (fun relies' => absurd relies' Bool.false_ne_true)
      | true => exact keeps.wait was
  | true =>
      cases after with
      | false =>
          cases b with
          | false => exact keeps.signal (has rfl (.inl rfl))
          | true => exact absurd (asks' rfl) (by simp)
      | true => exact keeps.stay was fun relies' => has rfl (.inr relies')

end

/-- Semaphores in an order. If whoever has a unit runs or asked for a unit of higher
rank, then somebody runs, unless nobody asked for anything. -/
theorem exists_running {sems : List (Semaphore ι)} {runs : ι → Prop}
    (ranked : ∀ (a : Nat) (q : Semaphore ι) (i : ι), sems[a]? = some q → q.Has i →
      runs i ∨ ∃ (b : Nat) (q' : Semaphore ι), a < b ∧ sems[b]? = some q' ∧ i ∈ q')
    {a : Nat} {q : Semaphore ι} (there : sems[a]? = some q) (asked : q ≠ []) :
    ∃ i, runs i := by
  obtain ⟨i, has⟩ := exists_has asked
  rcases ranked a q i there has with run | ⟨b, q', above, there', inside⟩
  · exact ⟨i, run⟩
  · have bound := (List.getElem?_eq_some_iff.mp there').1
    exact exists_running ranked there' (List.ne_nil_of_mem inside)
termination_by sems.length - a

end Semaphore

/-! ## Turns -/

/-- Nobody comes again after another came. -/
def InTurns {ι : Type} (l : List ι) : Prop :=
  ∀ (a b : List ι) (i j : ι), l = a ++ i :: j :: b → i ≠ j → i ∉ b

theorem InTurns.nil {ι : Type} : InTurns ([] : List ι) := by
  intro a b i j all
  simp at all

theorem InTurns.concat {ι : Type} {l : List ι} {x : ι} (turns : InTurns l)
    (last : x ∈ l → l.getLast? = some x) : InTurns (l ++ [x]) := by
  intro a b i j all other
  rcases List.eq_nil_or_concat b with rfl | ⟨b, y, rfl⟩
  · exact List.not_mem_nil
  · have ends : l ++ [x] = (a ++ i :: j :: b) ++ [y] := by simpa using all
    obtain ⟨rfl, same⟩ := List.append_inj' ends rfl
    have same := List.singleton_inj.mp same
    subst same
    have apart := turns a b i j rfl other
    intro again
    rcases List.mem_append.mp (by simpa using again : i ∈ b ++ [x]) with early | late
    · exact apart early
    · have here : i = x := List.mem_singleton.mp late
      subst here
      have final := last (by simp)
      rcases List.eq_nil_or_concat b with rfl | ⟨b, z, rfl⟩
      · have : (a ++ [i, j]).getLast? = some j := by simp
        exact other (Option.some.inj (final.symm.trans this))
      · have : (a ++ i :: j :: b.concat z).getLast? = some z := by
          rw [List.concat_eq_append, ← List.cons_append, ← List.cons_append, ← List.append_assoc,
            List.getLast?_concat]
        have same := Option.some.inj (final.symm.trans this)
        exact apart (by simp [same])

end ActorNet.Lib
