/-!
# Ordered maps as sorted association lists

The entries of an ordered map in iteration order. Keys are compared through a
strict order given as a Boolean function, and two keys are the same entry when
neither is before the other.
-/

namespace ActorNet.Lib.OrdMap

variable {κ ν : Type} (lt : κ → κ → Bool)

/-- Insert a pair unless an equivalent key is present, which then keeps its
value. -/
def emplace (k : κ) (v : ν) : List (κ × ν) → List (κ × ν)
  | [] => [(k, v)]
  | (k', v') :: m =>
      if lt k k' then (k, v) :: (k', v') :: m
      else if lt k' k then (k', v') :: emplace k v m
      else (k', v') :: m

/-- Insert a pair, replacing the value of an equivalent key. -/
def assign (k : κ) (v : ν) : List (κ × ν) → List (κ × ν)
  | [] => [(k, v)]
  | (k', v') :: m =>
      if lt k k' then (k, v) :: (k', v') :: m
      else if lt k' k then (k', v') :: assign k v m
      else (k', v) :: m

/-- Emplacing behind entries that are all before the new key. -/
theorem emplace_append {k : κ} {v : ν} {before after : List (κ × ν)}
    (left : ∀ e ∈ before, lt k e.1 = false ∧ lt e.1 k = true) :
    emplace lt k v (before ++ after) = before ++ emplace lt k v after := by
  induction before with
  | nil => rfl
  | cons e before ih =>
      obtain ⟨⟨notBefore, isBefore⟩, rest⟩ := List.forall_mem_cons.mp left
      simp only [List.cons_append, emplace, notBefore, isBefore, Bool.false_eq_true, if_false,
        if_true, ih rest]

/-! ## Looking up -/

variable [DecidableEq κ]

def find (k : κ) (m : List (κ × ν)) : Option ν :=
  (m.find? fun e => decide (e.1 = k)).map Prod.snd

/-- Remove the entry of a key. -/
def erase (k : κ) (m : List (κ × ν)) : List (κ × ν) := m.filter fun e => decide (e.1 ≠ k)

omit [DecidableEq κ] in
/-- The keys ascend strictly. -/
def Sorted (m : List (κ × ν)) : Prop := m.Pairwise fun e e' => lt e.1 e'.1 = true

/-- A strict total order. -/
structure Strict : Prop where
  irrefl : ∀ k, lt k k = false
  trans : ∀ k k' k'', lt k k' = true → lt k' k'' = true → lt k k'' = true
  total : ∀ k k', lt k k' = false → lt k' k = false → k = k'

variable {lt} {k k' : κ} {v : ν} {m : List (κ × ν)}

theorem find_nil : find k ([] : List (κ × ν)) = none := rfl

theorem find_cons : find k ((k', v) :: m) = if k' = k then some v else find k m := by
  unfold find
  rw [List.find?_cons]
  by_cases same : k' = k <;> simp [same]

theorem find_erase : find k (erase k' m) = if k' = k then none else find k m := by
  induction m with
  | nil => simp [erase, find_nil]
  | cons e m ih =>
    obtain ⟨k'', v⟩ := e
    unfold erase at ih ⊢
    by_cases gone : k'' = k'
    · rw [List.filter_cons_of_neg (by simpa using gone), ih, find_cons]
      by_cases same : k' = k
      · rw [if_pos same, if_pos same]
      · rw [if_neg same, if_neg same, if_neg (gone ▸ same)]
    · rw [List.filter_cons_of_pos (by simpa using gone), find_cons, find_cons, ih]
      by_cases same : k' = k
      · rw [if_pos same, if_neg (same ▸ gone), if_pos same]
      · rw [if_neg same, if_neg same]

theorem Sorted.erase (sorted : Sorted lt m) : Sorted lt (erase k m) :=
  List.Pairwise.filter _ sorted

omit [DecidableEq κ] in
theorem mem_assign {e : κ × ν} (member : e ∈ assign lt k v m) : e ∈ m ∨ e = (k, v) ∨
    ∃ k' v', (k', v') ∈ m ∧ e = (k', v) ∧ lt k k' = false ∧ lt k' k = false := by
  induction m with
  | nil => exact .inr (.inl (List.mem_singleton.mp member))
  | cons entry m ih =>
    obtain ⟨k', v'⟩ := entry
    unfold assign at member
    split at member
    · rcases List.mem_cons.mp member with rfl | member
      · exact .inr (.inl rfl)
      · exact .inl member
    next notBefore =>
      split at member
      · rcases List.mem_cons.mp member with rfl | member
        · exact .inl List.mem_cons_self
        · rcases ih member with old | rfl | ⟨k'', v'', old, rest⟩
          · exact .inl (.tail _ old)
          · exact .inr (.inl rfl)
          · exact .inr (.inr ⟨k'', v'', .tail _ old, rest⟩)
      next notBehind =>
        rcases List.mem_cons.mp member with rfl | member
        · exact .inr (.inr ⟨k', v', List.mem_cons_self, rfl, by simpa using notBefore,
            by simpa using notBehind⟩)
        · exact .inl (.tail _ member)

omit [DecidableEq κ] in
theorem Sorted.assign (strict : Strict lt) (sorted : Sorted lt m) :
    Sorted lt (assign lt k v m) := by
  induction m with
  | nil => exact List.pairwise_singleton ..
  | cons entry m ih =>
    obtain ⟨k', v'⟩ := entry
    obtain ⟨first, rest⟩ := List.pairwise_cons.mp sorted
    unfold OrdMap.assign
    split
    next before =>
      refine List.pairwise_cons.mpr ⟨fun e member => ?_, sorted⟩
      rcases List.mem_cons.mp member with rfl | member
      · exact before
      · exact strict.trans _ _ _ before (first e member)
    next notBefore =>
      split
      next behind =>
        refine List.pairwise_cons.mpr ⟨fun e member => ?_, ih rest⟩
        rcases mem_assign member with old | rfl | ⟨k'', v'', old, rfl, -⟩
        · exact first e old
        · exact behind
        · exact first (k'', v'') old
      next notBehind => exact List.pairwise_cons.mpr ⟨first, rest⟩

omit [DecidableEq κ] in
theorem mem_emplace {e : κ × ν} (member : e ∈ emplace lt k v m) : e = (k, v) ∨ e ∈ m := by
  induction m with
  | nil => exact .inl (List.mem_singleton.mp member)
  | cons entry m ih =>
    unfold emplace at member
    split at member
    · exact List.mem_cons.mp member
    split at member
    · rcases List.mem_cons.mp member with rfl | member
      · exact .inr List.mem_cons_self
      · exact (ih member).imp_right (.tail _)
    · exact .inr member

omit [DecidableEq κ] in
theorem Sorted.emplace (trans : ∀ k k' k'', lt k k' = true → lt k' k'' = true → lt k k'' = true)
    (sorted : Sorted lt m) : Sorted lt (emplace lt k v m) := by
  induction m with
  | nil => exact List.pairwise_singleton ..
  | cons entry m ih =>
    obtain ⟨first, rest⟩ := List.pairwise_cons.mp sorted
    unfold OrdMap.emplace
    split
    next before =>
      refine List.pairwise_cons.mpr ⟨fun e member => ?_, sorted⟩
      rcases List.mem_cons.mp member with rfl | member
      · exact before
      · exact trans _ _ _ before (first e member)
    next =>
      split
      next behind =>
        refine List.pairwise_cons.mpr ⟨fun e member => ?_, ih rest⟩
        rcases mem_emplace member with rfl | old
        · exact behind
        · exact first e old
      next => exact sorted

theorem find_assign (strict : Strict lt) :
    find k (assign lt k' v m) = if k' = k then some v else find k m := by
  induction m with
  | nil => rw [assign, find_cons, find_nil]
  | cons entry m ih =>
    obtain ⟨k'', v''⟩ := entry
    unfold assign
    split
    · rw [find_cons]
    next notBefore =>
      split
      next behind =>
        rw [find_cons, find_cons, ih]
        by_cases same : k' = k
        · have other : k'' ≠ k := by
            rintro rfl
            rw [same, strict.irrefl] at behind
            cases behind
          rw [if_pos same, if_neg other, if_pos same]
        · rw [if_neg same, if_neg same]
      next notBehind =>
        have equal : k' = k'' := strict.total _ _ (by simpa using notBefore)
          (by simpa using notBehind)
        rw [find_cons, find_cons, equal]
        by_cases same : k'' = k
        · rw [if_pos same, if_pos same]
        · rw [if_neg same, if_neg same, if_neg same]

/-- In a sorted map an entry is found under its key. -/
theorem find_of_mem (strict : Strict lt) (sorted : Sorted lt m) (member : (k, v) ∈ m) :
    find k m = some v := by
  induction m with
  | nil => cases member
  | cons entry m ih =>
    obtain ⟨first, rest⟩ := List.pairwise_cons.mp sorted
    rw [find_cons]
    rcases List.mem_cons.mp member with rfl | member
    · rw [if_pos rfl]
    · have before : lt entry.1 k = true := first (k, v) member
      have other : entry.1 ≠ k := by
        intro same
        rw [same, strict.irrefl] at before
        cases before
      rw [if_neg other]
      exact ih rest member

theorem mem_of_find (found : find k m = some v) : (k, v) ∈ m := by
  obtain ⟨e, entry, rfl⟩ := Option.map_eq_some_iff.mp found
  have same : e.1 = k := by simpa using List.find?_some entry
  exact same ▸ List.mem_of_find?_eq_some entry

end ActorNet.Lib.OrdMap
