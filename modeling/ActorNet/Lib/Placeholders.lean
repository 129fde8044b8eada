import Mathlib.Data.List.Infix
import Mathlib.Data.List.Pairwise

/-!
# Placeholders in a text

A placeholder is two opening marks and a tail that has no such mark; no tail is a
prefix of another one. `expand` replaces each placeholder of a text by its value.
The lemmas say what a reader may pass on who sees only a part of the text: what
holds no opening mark, and a begin of a placeholder that does not go on as one,
unless it is the two marks alone and a placeholder begins at the second of them
(`expand_start`).
-/

namespace ActorNet.Lib.Placeholders

structure Entry (α : Type) where
  tail : List α
  value : List α

/-- The placeholders of a text and their values. -/
structure Table (α : Type) where
  opening : α
  entries : List (Entry α)
  nonempty : ∀ e ∈ entries, e.tail ≠ []
  clear : ∀ e ∈ entries, opening ∉ e.tail
  apart : entries.Pairwise fun e e' => ¬e.tail <+: e'.tail ∧ ¬e'.tail <+: e.tail

variable {α : Type} (T : Table α)

def Table.key (e : Entry α) : List α := T.opening :: T.opening :: e.tail

/-- A placeholder begins with the second of two opening marks. -/
def Table.Straddles (t : List α) : Prop := ∃ e ∈ T.entries, T.opening :: e.tail <+: t

section

variable {T} {e e' : Entry α}

/-- Tails of which one begins with the other stand at one place of the table. -/
theorem Table.index_eq {i j : Nat} (found : T.entries[i]? = some e)
    (found' : T.entries[j]? = some e') (begins : e.tail <+: e'.tail) : i = j := by
  obtain ⟨inside, rfl⟩ := List.getElem?_eq_some_iff.mp found
  obtain ⟨inside', rfl⟩ := List.getElem?_eq_some_iff.mp found'
  have apart := List.pairwise_iff_getElem.mp T.apart
  rcases Nat.lt_trichotomy i j with before | same | behind
  · exact absurd begins (apart i j inside inside' before).1
  · exact same
  · exact absurd begins (apart j i inside' inside behind).2

/-- No two placeholders begin at one place. -/
theorem Table.eq_of_prefix (member : e ∈ T.entries) (member' : e' ∈ T.entries)
    (begins : e.tail <+: e'.tail) : e = e' := by
  obtain ⟨i, found⟩ := List.mem_iff_getElem?.mp member
  obtain ⟨j, found'⟩ := List.mem_iff_getElem?.mp member'
  obtain rfl := index_eq found found' begins
  exact Option.some.inj (found.symm.trans found')

theorem Table.key_prefix_key : T.key e <+: T.key e' ↔ e.tail <+: e'.tail := by
  simp [Table.key]

end

variable [DecidableEq α]

/-- The placeholder that the text begins with. -/
def Table.find (t : List α) : Option (Entry α) := T.entries.find? fun e => (T.key e).isPrefixOf t

/-- The text behind `skip` elements, expanded. -/
def Table.expandFrom : Nat → List α → List α
  | _, [] => []
  | skip + 1, _ :: t => expandFrom skip t
  | 0, c :: t =>
    match T.find (c :: t) with
    | none => c :: expandFrom 0 t
    | some e => e.value ++ expandFrom (e.tail.length + 1) t

/-- The text with a value in place of each placeholder. -/
def Table.expand (t : List α) : List α := T.expandFrom 0 t

instance (t : List α) : Decidable (T.Straddles t) :=
  inferInstanceAs (Decidable (∃ e ∈ T.entries, T.opening :: e.tail <+: t))

variable {T} {e e' : Entry α} {c : α} {t u w : List α}

theorem Table.expand_nil : T.expand [] = [] := rfl

theorem Table.expandFrom_eq_drop (skip : Nat) : T.expandFrom skip t = T.expand (t.drop skip) := by
  induction skip generalizing t with
  | zero => rfl
  | succ skip ih =>
    cases t with
    | nil => rfl
    | cons c t => exact ih

theorem Table.find_eq_some_iff :
    T.find t = some e ↔ e ∈ T.entries ∧ T.key e <+: t := by
  constructor
  · intro found
    exact ⟨List.mem_of_find?_eq_some found, by simpa using List.find?_some found⟩
  · rintro ⟨member, begins⟩
    cases found : T.find t with
    | none =>
      have no := List.find?_eq_none.mp found e member
      rw [List.isPrefixOf_iff_prefix] at no
      exact absurd begins no
    | some e' =>
      have member' := List.mem_of_find?_eq_some found
      have begins' : T.key e' <+: t := by simpa using List.find?_some found
      rcases List.prefix_or_prefix_of_prefix begins begins' with first | first
      · rw [T.eq_of_prefix member member' (key_prefix_key.mp first)]
      · rw [T.eq_of_prefix member' member (key_prefix_key.mp first)]

theorem Table.find_eq_none_iff : T.find t = none ↔ ∀ e ∈ T.entries, ¬T.key e <+: t := by
  simp [Table.find, List.find?_eq_none]

theorem Table.expand_key (member : e ∈ T.entries) (t : List α) :
    T.expand (T.key e ++ t) = e.value ++ T.expand t := by
  have found : T.find (T.key e ++ t) = some e :=
    find_eq_some_iff.mpr ⟨member, List.prefix_append ..⟩
  rw [Table.key, List.cons_append] at found
  rw [Table.expand, Table.key, List.cons_append, Table.expandFrom, found]
  simp only [expandFrom_eq_drop]
  simp

theorem Table.expand_cons (no : ∀ e ∈ T.entries, ¬T.key e <+: c :: t) :
    T.expand (c :: t) = c :: T.expand t := by
  rw [Table.expand, Table.expandFrom, find_eq_none_iff.mpr no]
  rfl

theorem Table.expand_cons_of_ne (other : c ≠ T.opening) : T.expand (c :: t) = c :: T.expand t := by
  apply expand_cons
  rintro e - ⟨rest, whole⟩
  simp only [Table.key, List.cons_append, List.cons.injEq] at whole
  exact other whole.1.symm

/-- What holds no opening mark is passed on. -/
theorem Table.expand_clear (clear : T.opening ∉ u) : T.expand (u ++ t) = u ++ T.expand t := by
  induction u with
  | nil => rfl
  | cons c u ih =>
    have other : c ≠ T.opening := fun same => clear (same ▸ List.mem_cons_self)
    rw [List.cons_append, expand_cons_of_ne other, ih fun member => clear (.tail _ member)]
    rfl

/-- An opening mark that no other follows is passed on. -/
theorem Table.expand_single (single : ∀ d ∈ t.head?, d ≠ T.opening) :
    T.expand (T.opening :: t) = T.opening :: T.expand t := by
  apply expand_cons
  rintro e - ⟨rest, whole⟩
  cases t with
  | nil => simp [Table.key] at whole
  | cons d t =>
    simp only [Table.key, List.cons_append, List.cons.injEq] at whole
    exact single d rfl whole.2.1.symm

/-- A begin of a placeholder that goes on as none is passed on, but not the two
marks alone before a placeholder that begins with the second of them. -/
theorem Table.expand_start (member : e ∈ T.entries) (begins : w <+: T.key e)
    (no : ∀ e ∈ T.entries, ¬T.key e <+: w ++ t)
    (straddle : w = [T.opening, T.opening] → ¬T.Straddles t) :
    T.expand (w ++ t) = w ++ T.expand t := by
  obtain ⟨more, whole⟩ := begins
  cases w with
  | nil => rfl
  | cons c w =>
    have first : T.expand (c :: (w ++ t)) = c :: T.expand (w ++ t) := expand_cons no
    rw [List.cons_append, first]
    simp only [Table.key, List.cons_append, List.cons.injEq] at whole
    obtain ⟨rfl, whole⟩ := whole
    cases w with
    | nil => rfl
    | cons d w =>
      simp only [List.cons_append, List.cons.injEq] at whole
      obtain ⟨rfl, whole⟩ := whole
      have clear : T.opening ∉ w := fun inside =>
        T.clear e member (whole ▸ List.mem_append_left _ inside)
      have second : T.expand (T.opening :: (w ++ t)) = T.opening :: T.expand (w ++ t) := by
        cases w with
        | nil =>
          apply expand_cons
          intro e' member' behind
          refine straddle rfl ⟨e', member', ?_⟩
          simpa [Table.key] using behind
        | cons x w =>
          apply expand_single
          intro y head same
          cases head
          exact clear (same ▸ List.mem_cons_self)
      rw [List.cons_append, second, expand_clear clear]
      rfl

/-- The two marks before a placeholder that begins with the second of them. -/
theorem Table.expand_straddle (member : e ∈ T.entries) (t : List α) :
    T.expand ([T.opening, T.opening] ++ (T.opening :: e.tail ++ t)) =
      T.opening :: (e.value ++ T.expand t) := by
  have no : ∀ e' ∈ T.entries, ¬T.key e' <+: T.opening :: (T.key e ++ t) := by
    rintro e' member' ⟨rest, whole⟩
    simp only [Table.key, List.cons_append, List.cons.injEq, true_and] at whole
    cases tail : e'.tail with
    | nil => exact T.nonempty e' member' tail
    | cons x tail' =>
      rw [tail, List.cons_append, List.cons.injEq] at whole
      exact T.clear e' member' (by rw [tail, whole.1]; exact List.mem_cons_self)
  have split : [T.opening, T.opening] ++ (T.opening :: e.tail ++ t) =
      T.opening :: (T.key e ++ t) := by simp [Table.key]
  rw [split, expand_cons no, expand_key member]

/-- One mark and a tail are passed on. -/
theorem Table.expand_tail (member : e ∈ T.entries) (t : List α) :
    T.expand (T.opening :: e.tail ++ t) = T.opening :: e.tail ++ T.expand t := by
  have clear : T.opening ∉ e.tail := T.clear e member
  have single : ∀ d ∈ (e.tail ++ t).head?, d ≠ T.opening := by
    intro d head same
    cases tail : e.tail with
    | nil => exact T.nonempty e member tail
    | cons x tail' =>
      rw [tail] at head clear
      cases head
      exact clear (same ▸ List.mem_cons_self)
  rw [List.cons_append, expand_single single, expand_clear clear]
  rfl

end ActorNet.Lib.Placeholders
