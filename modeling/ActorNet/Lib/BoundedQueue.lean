/-!
# Bounded queues between two tasks

What the core library documents of its `queue`: a first-in first-out queue of
bounded size, one task pushing and one task popping. `push` drops the item of a
full queue. `abort` discards what is queued and fails every waiting or later
attempt to wait for an item or for room; a later `push` still adds its item.
-/

namespace ActorNet.Lib

class BoundedQueue (α : outParam Type) (Q : Type) where
  items : Q → List α
  capacity : Q → Nat
  aborted : Q → Bool
  ofCapacity : Nat → Q
  push : α → Q → Q
  /-- Without its front item. -/
  pop : Q → Q
  abort : Q → Q
  items_ofCapacity : ∀ n, items (ofCapacity n) = []
  capacity_ofCapacity : ∀ n, capacity (ofCapacity n) = n
  aborted_ofCapacity : ∀ n, aborted (ofCapacity n) = false
  items_push : ∀ a q, items (push a q) =
    if (items q).length < capacity q then items q ++ [a] else items q
  capacity_push : ∀ a q, capacity (push a q) = capacity q
  aborted_push : ∀ a q, aborted (push a q) = aborted q
  items_pop : ∀ q, items (pop q) = (items q).tail
  capacity_pop : ∀ q, capacity (pop q) = capacity q
  aborted_pop : ∀ q, aborted (pop q) = aborted q
  items_abort : ∀ q, items (abort q) = []
  capacity_abort : ∀ q, capacity (abort q) = capacity q
  aborted_abort : ∀ q, aborted (abort q) = true
  length_items_le : ∀ q, (items q).length ≤ capacity q

namespace BoundedQueue

attribute [simp] items_ofCapacity capacity_ofCapacity aborted_ofCapacity capacity_push
  aborted_push items_pop capacity_pop aborted_pop items_abort capacity_abort aborted_abort

variable {α Q : Type} [BoundedQueue α Q]

def full (q : Q) : Bool := decide (capacity q ≤ (items q).length)

theorem full_eq_false {q : Q} : full q = false ↔ (items q).length < capacity q := by
  simp [full]

theorem full_eq_true {q : Q} : full q = true ↔ capacity q ≤ (items q).length := by
  simp [full]

theorem items_push_of_room {q : Q} (a : α) (room : (items q).length < capacity q) :
    items (push a q) = items q ++ [a] := by
  rw [items_push, if_pos room]

/-- `consume` on a queue of at most `n` items: it pops items as long as they are
`running`, and the one it stops at as well. -/
def consumeUpTo (running : α → Bool) : Nat → Q → List α × Option α × Q
  | 0, q => ([], none, q)
  | n + 1, q =>
      match items q with
      | [] => ([], none, q)
      | a :: _ =>
          if running a then
            let (taken, stop, q') := consumeUpTo running n (pop q)
            (a :: taken, stop, q')
          else ([], some a, pop q)

/-- `consume`, for a function that goes on while the items are `running`: the
items it took, the one it stopped at, and what is left. -/
def consume (running : α → Bool) (q : Q) : List α × Option α × Q :=
  consumeUpTo running (items q).length q

variable {running : α → Bool}

theorem consumeUpTo_frame (n : Nat) (q : Q) :
    capacity (consumeUpTo running n q).2.2 = capacity q ∧
      aborted (consumeUpTo running n q).2.2 = aborted q := by
  induction n generalizing q with
  | zero => exact ⟨rfl, rfl⟩
  | succ n ih =>
      unfold consumeUpTo
      split
      · exact ⟨rfl, rfl⟩
      · split
        · simpa using ih (pop q)
        · simp

@[simp] theorem capacity_consume (q : Q) : capacity (consume running q).2.2 = capacity q :=
  (consumeUpTo_frame _ q).1

@[simp] theorem aborted_consume (q : Q) : aborted (consume running q).2.2 = aborted q :=
  (consumeUpTo_frame _ q).2

/-- What `consume` takes, stops at and leaves is what was there. -/
theorem consumeUpTo_spec (n : Nat) (q : Q) (enough : (items q).length ≤ n) :
    ∃ taken stop q', consumeUpTo running n q = (taken, stop, q') ∧
      items q = taken ++ stop.toList ++ items q' ∧ (∀ a ∈ taken, running a = true) ∧
      (∀ a, stop = some a → running a = false) ∧ (stop = none → items q' = []) := by
  induction n generalizing q with
  | zero =>
      have empty : items q = [] := List.length_eq_zero_iff.mp (Nat.le_zero.mp enough)
      exact ⟨[], none, q, rfl, by simp, by simp, by simp, fun _ => empty⟩
  | succ n ih =>
      unfold consumeUpTo
      cases queue : items q with
      | nil => exact ⟨[], none, q, rfl, by simp [queue], by simp, by simp, fun _ => queue⟩
      | cons a rest =>
          dsimp only
          by_cases goes : running a = true
          · obtain ⟨taken, stop, q', consumed, split, goOn, stopped, all⟩ :=
              ih (pop q) (by simpa [queue] using enough)
            rw [if_pos goes, consumed]
            refine ⟨a :: taken, stop, q', rfl, ?_, ?_, stopped, all⟩
            · simpa [queue] using split
            · exact List.forall_mem_cons.mpr ⟨goes, goOn⟩
          · rw [if_neg goes]
            refine ⟨[], some a, pop q, rfl, by simp [queue], by simp, ?_, by simp⟩
            intro b same
            cases same
            simpa using goes

theorem consume_spec (q : Q) :
    ∃ taken stop q', consume running q = (taken, stop, q') ∧
      items q = taken ++ stop.toList ++ items q' ∧ (∀ a ∈ taken, running a = true) ∧
      (∀ a, stop = some a → running a = false) ∧ (stop = none → items q' = []) :=
  consumeUpTo_spec _ q (Nat.le_refl _)

end BoundedQueue

/-- The queue as the list of its items. -/
structure ListQueue (α : Type) where
  items : List α
  capacity : Nat
  aborted : Bool
  bounded : items.length ≤ capacity

namespace ListQueue

variable {α : Type}

def push (a : α) (q : ListQueue α) : ListQueue α :=
  if room : q.items.length < q.capacity then
    { q with items := q.items ++ [a], bounded := by simpa using Nat.succ_le_of_lt room }
  else q

def pop (q : ListQueue α) : ListQueue α :=
  { q with items := q.items.tail
           bounded := Nat.le_trans (by simp) q.bounded }

instance : BoundedQueue α (ListQueue α) where
  items := ListQueue.items
  capacity := ListQueue.capacity
  aborted := ListQueue.aborted
  ofCapacity n := ⟨[], n, false, Nat.zero_le n⟩
  push := push
  pop := pop
  abort q := { q with items := [], aborted := true, bounded := Nat.zero_le _ }
  items_ofCapacity _ := rfl
  capacity_ofCapacity _ := rfl
  aborted_ofCapacity _ := rfl
  items_push a q := by unfold push; split <;> rfl
  capacity_push a q := by unfold push; split <;> rfl
  aborted_push a q := by unfold push; split <;> rfl
  items_pop _ := rfl
  capacity_pop _ := rfl
  aborted_pop _ := rfl
  items_abort _ := rfl
  capacity_abort _ := rfl
  aborted_abort _ := rfl
  length_items_le := ListQueue.bounded

end ListQueue

end ActorNet.Lib
