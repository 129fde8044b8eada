import Mathlib.Data.List.Basic

/-!
# Reading a string that is held in pieces

A cursor is the pieces that are not yet left behind and an offset into the
first of them. What matters of it is `Cursor.rest`, the string from there on;
`Reads` says that a number of items was read and the rest is left, and has a
rule for each way in which a loop over the pieces goes on.
-/

namespace ActorNet.Lib

structure Cursor (α : Type) where
  pieces : List (List α)
  offset : Nat
  deriving DecidableEq, Repr

namespace Cursor

variable {α : Type} {c : Cursor α} {n : Nat} {r : List α × Cursor α}

def start (pieces : List (List α)) : Cursor α := ⟨pieces, 0⟩

/-- What lies at the position in one piece. -/
def here (c : Cursor α) : List α := (c.pieces.headD []).drop c.offset

/-- The begin of the next piece. -/
def next (c : Cursor α) : Cursor α := start c.pieces.tail

def skip (c : Cursor α) (n : Nat) : Cursor α := ⟨c.pieces, c.offset + n⟩

/-- The string from the position on. -/
def rest (c : Cursor α) : List α := c.here ++ c.pieces.tail.flatten

@[simp] theorem rest_start (pieces : List (List α)) : (start pieces).rest = pieces.flatten := by
  cases pieces with
  | nil => rfl
  | cons piece pieces => rfl

theorem rest_eq (c : Cursor α) : c.rest = c.here ++ c.next.rest := by
  rw [next, rest_start, rest]

theorem here_skip (c : Cursor α) (n : Nat) : (c.skip n).here = c.here.drop n := by
  show (c.pieces.headD []).drop (c.offset + n) = _
  rw [here, List.drop_drop]

theorem rest_skip (within : n ≤ c.here.length) : (c.skip n).rest = c.rest.drop n := by
  rw [rest, here_skip, rest, List.drop_append_of_le_length within]
  rfl

/-- The next piece is where the rest goes on once this one is used up. -/
theorem rest_next (c : Cursor α) : c.next.rest = c.rest.drop c.here.length := by
  rw [rest_eq c, List.drop_left]

/-- `r` is the next `n` items, and a cursor behind them. -/
structure Reads (c : Cursor α) (n : Nat) (r : List α × Cursor α) : Prop where
  enough : n ≤ c.rest.length
  items : r.1 = c.rest.take n
  behind : r.2.rest = c.rest.drop n

namespace Reads

theorem none (c : Cursor α) : c.Reads 0 ([], c) := ⟨Nat.zero_le _, rfl, rfl⟩

/-- The items lie in one piece. -/
theorem within (enough : n ≤ c.here.length) : c.Reads n (c.here.take n, c.skip n) where
  enough := by
    rw [rest, List.length_append]
    omega
  items := by
    show c.here.take n = c.rest.take n
    rw [rest, List.take_append_of_le_length enough]
  behind := rest_skip enough

/-- The items fill the piece up and go on in the next one. -/
theorem across (used : c.here.length ≤ n) (reads : c.next.Reads (n - c.here.length) r) :
    c.Reads n (c.here ++ r.1, r.2) where
  enough := by
    have enough := reads.enough
    rw [rest_eq, List.length_append]
    omega
  items := by
    show c.here ++ r.1 = c.rest.take n
    rw [reads.items, rest_eq c, List.take_append, List.take_of_length_le used]
  behind := by
    show r.2.rest = c.rest.drop n
    rw [reads.behind, rest_eq c, List.drop_append, List.drop_of_length_le used, List.nil_append]

theorem length (reads : c.Reads n r) : r.1.length = n := by
  rw [reads.items, List.length_take, Nat.min_eq_left reads.enough]

theorem length_behind (reads : c.Reads n r) : r.2.rest.length = c.rest.length - n := by
  rw [reads.behind, List.length_drop]

end Reads

end Cursor

end ActorNet.Lib
