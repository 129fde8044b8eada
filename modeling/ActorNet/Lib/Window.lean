import Mathlib.Data.Nat.Bitwise
import Mathlib.Logic.Function.Basic

/-!
# Windows of a ring buffer

Producer and consumer of a ring count in numbers of `w` bits that are never
reset; an entry lies where its number points modulo the size, which divides
`2 ^ w`. `Window ring size start items` says that the entries from `start` on
are `items`. What is produced goes behind them, what is consumed is the first.
-/

namespace ActorNet.Lib

variable {α : Type} {w : Nat}

structure Window (ring : Nat → α) (size : Nat) (start : BitVec w) (items : List α) : Prop where
  short : items.length ≤ size
  entry : ∀ i (inside : i < items.length), ring ((start.toNat + i) % size) = items[i]

/-- Where the entry behind `n` others lies. -/
theorem slot_add {size : Nat} (divides : size ∣ 2 ^ w) (start : BitVec w) (n : Nat) :
    (start + BitVec.ofNat w n).toNat % size = (start.toNat + n) % size := by
  rw [BitVec.toNat_add, BitVec.toNat_ofNat, Nat.add_mod_mod, Nat.mod_mod_of_dvd _ divides]

/-- Entries less than a size apart lie in different places. -/
theorem slot_ne {size a i n : Nat} (before : i < n) (within : n < size) :
    (a + i) % size ≠ (a + n) % size := by
  intro same
  have apart : (a + n - (a + i)) % size = 0 := Nat.sub_mod_eq_zero_of_mod_eq same.symm
  rw [Nat.add_sub_add_left, Nat.mod_eq_of_lt (by omega)] at apart
  omega

namespace Window

variable {ring : Nat → α} {size : Nat} {start : BitVec w} {items : List α} {a : α}

theorem empty (ring : Nat → α) (size : Nat) (start : BitVec w) : Window ring size start [] where
  short := Nat.zero_le _
  entry i inside := absurd inside (Nat.not_lt_zero i)

theorem push (window : Window ring size start items) (room : items.length < size) :
    Window (Function.update ring ((start.toNat + items.length) % size) a) size start
      (items ++ [a]) where
  short := by
    rw [List.length_append]
    exact room
  entry i inside := by
    rw [List.length_append, List.length_singleton] at inside
    by_cases last : i = items.length
    · subst last
      rw [Function.update_self, List.getElem_concat_length rfl]
    · have old : i < items.length := by omega
      rw [Function.update_of_ne (slot_ne old room), window.entry i old,
        List.getElem_append_left old]

theorem first (window : Window ring size start (a :: items)) :
    ring (start.toNat % size) = a := window.entry 0 (Nat.succ_pos _)

theorem pop (window : Window ring size start (a :: items)) (divides : size ∣ 2 ^ w) :
    Window ring size (start + 1) items where
  short := Nat.le_of_succ_le window.short
  entry i inside := by
    have moved := slot_add divides start (i + 1)
    rw [BitVec.ofNat_add, BitVec.add_comm (BitVec.ofNat w i), ← BitVec.add_assoc] at moved
    have same : ((start + 1).toNat + i) % size = (start.toNat + (i + 1)) % size := by
      rw [← moved, slot_add divides]
      rfl
    rw [same]
    exact window.entry (i + 1) (Nat.succ_lt_succ inside)

end Window

end ActorNet.Lib
