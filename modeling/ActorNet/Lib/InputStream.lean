import Mathlib.Data.Nat.Basic
import Mathlib.Order.Basic

/-!
# Buffered input streams

A stream delivers its remaining elements through reads of a caller-chosen size.
How the elements are grouped by the transport is up to the stream: `readUpTo`
may return any non-empty part of what was asked for. `Chunked` is the stream
of a list of chunks, one for every way of cutting the elements.
-/

namespace ActorNet.Lib

/-- What a reader relies on. `content` is what the stream has left to deliver. -/
class InputStream (α : outParam Type) (σ : Type) where
  content : σ → List α
  /-- The next `n` elements, or all that are left. -/
  readExactly : Nat → σ → List α × σ
  /-- At most `n` of the next elements, and none only when none are left or
  none were asked for. -/
  readUpTo : Nat → σ → List α × σ
  eof : σ → Bool
  /-- A stream over a sequence of buffers. -/
  ofBuffers : List (List α) → σ
  readExactly_data : ∀ n s, (readExactly n s).1 = (content s).take n
  readExactly_rest : ∀ n s, content (readExactly n s).2 = (content s).drop n
  readUpTo_split : ∀ n s, (readUpTo n s).1 ++ content (readUpTo n s).2 = content s
  readUpTo_length : ∀ n s, (readUpTo n s).1.length ≤ n
  readUpTo_progress : ∀ n s, 0 < n → content s ≠ [] → (readUpTo n s).1 ≠ []
  eof_content : ∀ s, eof s = true → content s = []
  content_ofBuffers : ∀ bufs, content (ofBuffers bufs) = bufs.flatten

/-- A stream that arrives in the given chunks; `eof` is noticed by a read that
finds nothing. -/
structure Chunked (α : Type) where
  chunks : List (List α)
  eof : Bool
  deriving DecidableEq, Repr

namespace Chunked

variable {α : Type}

/-- Drop `n` elements from the front of the chunks. -/
def dropChunks : Nat → List (List α) → List (List α)
  | _, [] => []
  | n, c :: cs => if n < c.length then c.drop n :: cs else dropChunks (n - c.length) cs

/-- The first chunk that holds anything, cut to at most `n` elements. -/
def nextUpTo (n : Nat) : List (List α) → List α × List (List α)
  | [] => ([], [])
  | [] :: cs => nextUpTo n cs
  | (x :: c) :: cs => ((x :: c).take n, (x :: c).drop n :: cs)

theorem flatten_dropChunks (n : Nat) (cs : List (List α)) :
    (dropChunks n cs).flatten = cs.flatten.drop n := by
  induction cs generalizing n with
  | nil => simp [dropChunks]
  | cons c cs ih =>
      unfold dropChunks
      split
      · rename_i inside
        simp [List.drop_append, Nat.sub_eq_zero_of_le (Nat.le_of_lt inside)]
      · rename_i beyond
        simp [ih, List.drop_append, List.drop_of_length_le (Nat.not_lt.mp beyond)]

theorem nextUpTo_split (n : Nat) (cs : List (List α)) :
    (nextUpTo n cs).1 ++ (nextUpTo n cs).2.flatten = cs.flatten := by
  induction cs using nextUpTo.induct with
  | case1 => rfl
  | case2 cs ih => simpa [nextUpTo] using ih
  | case3 x c cs => simp [nextUpTo, ← List.append_assoc, List.take_append_drop]

theorem nextUpTo_length (n : Nat) (cs : List (List α)) : (nextUpTo n cs).1.length ≤ n := by
  induction cs using nextUpTo.induct with
  | case1 => simp [nextUpTo]
  | case2 cs ih => simpa [nextUpTo] using ih
  | case3 x c cs => exact List.length_take_le n (x :: c)

theorem nextUpTo_progress {n : Nat} (asked : 0 < n) {cs : List (List α)}
    (left : cs.flatten ≠ []) : (nextUpTo n cs).1 ≠ [] := by
  induction cs using nextUpTo.induct with
  | case1 => exact absurd rfl left
  | case2 cs ih => exact ih left
  | case3 x c cs =>
      cases n with
      | zero => exact absurd asked (Nat.lt_irrefl 0)
      | succ n => simp [nextUpTo]

instance : InputStream α (Chunked α) where
  content s := if s.eof then [] else s.chunks.flatten
  readExactly n s :=
    if s.eof then ([], s)
    else (s.chunks.flatten.take n,
      ⟨dropChunks n s.chunks, decide (s.chunks.flatten.length < n)⟩)
  readUpTo n s :=
    if s.eof then ([], s)
    else ((nextUpTo n s.chunks).1, ⟨(nextUpTo n s.chunks).2, s.chunks.flatten.isEmpty⟩)
  eof := Chunked.eof
  ofBuffers bufs := ⟨bufs, false⟩
  readExactly_data n s := by cases s.eof <;> simp
  readExactly_rest n s := by
    cases atEnd : s.eof
    · rcases Nat.lt_or_ge s.chunks.flatten.length n with short | enough
      · simp only [Bool.false_eq_true, if_false, decide_eq_true short, if_true]
        exact (List.drop_of_length_le (Nat.le_of_lt short)).symm
      · simp only [Bool.false_eq_true, if_false, decide_eq_false (Nat.not_lt.mpr enough)]
        exact flatten_dropChunks n s.chunks
    · simp [atEnd]
  readUpTo_split n s := by
    cases atEnd : s.eof
    · have split := nextUpTo_split n s.chunks
      cases found : s.chunks.flatten with
      | nil =>
          rw [found] at split
          simp [(List.append_eq_nil_iff.mp split).1]
      | cons x xs => simpa [found] using split
    · simp [atEnd]
  readUpTo_length n s := by cases s.eof <;> simp [nextUpTo_length]
  readUpTo_progress n s asked left := by
    cases atEnd : s.eof
    · simp only [Bool.false_eq_true, if_false]
      exact nextUpTo_progress asked (by simpa [atEnd] using left)
    · simp [atEnd] at left
  eof_content s atEnd := by simp [atEnd]
  content_ofBuffers bufs := by simp

end Chunked

end ActorNet.Lib
