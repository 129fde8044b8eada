import Mathlib.Data.Nat.Basic
import Mathlib.Order.Basic

/-!
# Buffered output streams

A stream collects what is written to it and puts it into its sink as a sequence
of buffers, in order. When it does so, and where it cuts, is up to the stream;
once it is closed everything was put. `FullBuffers` puts a buffer whenever one is
full.
-/

namespace ActorNet.Lib

/-- What a writer relies on. Each operation returns the buffers it puts. -/
class OutputStream (α : outParam Type) (σ : Type) where
  /-- What was written and is not put yet. -/
  pending : σ → List α
  /-- A new stream with buffers of a size. -/
  ofSize : Nat → σ
  write : List α → σ → List (List α) × σ
  flush : σ → List (List α) × σ
  close : σ → List (List α) × σ
  pending_ofSize : ∀ size, pending (ofSize size) = []
  write_puts : ∀ data s, (write data s).1.flatten ++ pending (write data s).2 = pending s ++ data
  flush_puts : ∀ s, (flush s).1.flatten ++ pending (flush s).2 = pending s
  close_puts : ∀ s, (close s).1.flatten = pending s

/-- A stream that keeps less than a buffer. -/
structure FullBuffers (α : Type) where
  size : Nat
  held : List α
  deriving DecidableEq, Repr

namespace FullBuffers

variable {α : Type}

/-- The full buffers, and what is left. -/
def cut (size : Nat) (data : List α) : List (List α) × List α :=
  if 0 < size ∧ size ≤ data.length then
    (data.take size :: (cut size (data.drop size)).1, (cut size (data.drop size)).2)
  else ([], data)
termination_by data.length
decreasing_by
  rw [List.length_drop]
  omega

theorem cut_flatten (size : Nat) (data : List α) :
    (cut size data).1.flatten ++ (cut size data).2 = data := by
  induction data using cut.induct size with
  | case1 data full ih =>
      rw [cut, if_pos full]
      show (data.take size :: (cut size (data.drop size)).1).flatten ++ _ = data
      rw [List.flatten_cons, List.append_assoc, ih, List.take_append_drop]
  | case2 data short =>
      rw [cut, if_neg short]
      rfl

instance : OutputStream α (FullBuffers α) where
  pending s := s.held
  ofSize size := ⟨size, []⟩
  write data s := ((cut s.size (s.held ++ data)).1, ⟨s.size, (cut s.size (s.held ++ data)).2⟩)
  flush s := ([s.held], ⟨s.size, []⟩)
  close s := ([s.held], ⟨s.size, []⟩)
  pending_ofSize _ := rfl
  write_puts data s := cut_flatten s.size (s.held ++ data)
  flush_puts s := by simp
  close_puts s := by simp

end FullBuffers

end ActorNet.Lib
