import Mathlib.Data.List.Basic
import ActorNet.Lib.Bytes

/-!
# The Toeplitz hash

The exclusive or of the windows of 32 bits of a key that begin at the bits of
the data. The top bit of the hash is the parity of the bits that data and key
have in common, so that keys of one bit tell any two data apart: two byte
strings have one hash under every key only if they have the same bits.
-/

namespace ActorNet.Lib

/-- A bit of a byte string, the first one the highest of the first byte; there
are zeros behind the end. -/
def bitAt (bytes : List Byte) (k : Nat) : Bool := ((bytes[k / 8]?).getD 0).getMsbD (k % 8)

/-- The first window of a key. -/
def firstWindow (key : List Byte) : BitVec 32 :=
  key.getD 0 0 ++ key.getD 1 0 ++ key.getD 2 0 ++ key.getD 3 0

/-- The turn of `toeplitz_hash` for one bit of the data: the hash, and the window. -/
def toeplitzRound (key data : List Byte) (s : BitVec 32 × BitVec 32) (k : Nat) :
    BitVec 32 × BitVec 32 :=
  (if bitAt data k then s.1 ^^^ s.2 else s.1,
    s.2 <<< 1 ||| (if bitAt key (k + 32) then 1 else 0))

def toeplitzRounds (key data : List Byte) (n : Nat) : BitVec 32 × BitVec 32 :=
  (List.range n).foldl (toeplitzRound key data) (0, firstWindow key)

/-- `toeplitz_hash`: the loop over the bytes of the data and their bits, for a
key of at least four bytes. -/
def toeplitzHash (key data : List Byte) : BitVec 32 :=
  (toeplitzRounds key data (8 * data.length)).1

namespace Toeplitz

variable {key a b : List Byte} {k n : Nat}

/-! ## Bits -/

theorem bitAt_of_past (past : 8 * a.length ≤ k) : bitAt a k = false := by
  unfold bitAt
  rw [List.getElem?_eq_none (by omega)]
  simp

theorem bitAt_append_zeros (a : List Byte) (m k : Nat) :
    bitAt (a ++ List.replicate m 0) k = bitAt a k := by
  unfold bitAt
  rw [List.getElem?_append]
  split
  · rfl
  · rename_i past
    rw [List.getElem?_eq_none (Nat.le_of_not_lt past), List.getElem?_replicate]
    split <;> rfl

/-- Byte strings of one length are told apart by their bits. -/
theorem eq_of_bitAt (length : a.length = b.length) (same : ∀ k, bitAt a k = bitAt b k) : a = b := by
  apply List.ext_getElem length
  intro q inA inB
  apply BitVec.eq_of_getMsbD_eq
  intro j small
  have bit := same (8 * q + j)
  unfold bitAt at bit
  have byte : (8 * q + j) / 8 = q := by omega
  have place : (8 * q + j) % 8 = j := by omega
  rw [byte, place, List.getElem?_eq_getElem inA, List.getElem?_eq_getElem inB] at bit
  exact bit

/-! ## Windows -/

theorem rounds_succ (key data : List Byte) (n : Nat) :
    toeplitzRounds key data (n + 1) = toeplitzRound key data (toeplitzRounds key data n) n := by
  unfold toeplitzRounds
  rw [List.range_succ, List.foldl_append]
  rfl

theorem firstWindow_bits (key : List Byte) {j : Nat} (small : j < 32) :
    (firstWindow key).getMsbD j = bitAt key j := by
  have byte : ∀ q, key.getD q 0 = (key[q]?).getD 0 := fun q => List.getD_eq_getElem?_getD
  unfold firstWindow bitAt
  simp only [byte, BitVec.getMsbD_append]
  have place : ∀ q, 8 * q ≤ j → j < 8 * q + 8 → j / 8 = q ∧ j % 8 = j - 8 * q := by
    intro q low high
    omega
  split
  · obtain ⟨at_, bit⟩ := place 3 (by omega) (by omega)
    rw [at_, bit]
  split
  · obtain ⟨at_, bit⟩ := place 2 (by omega) (by omega)
    rw [at_, bit]
  split
  · obtain ⟨at_, bit⟩ := place 1 (by omega) (by omega)
    rw [at_, bit]
  · obtain ⟨at_, bit⟩ := place 0 (by omega) (by omega)
    rw [at_, bit]
    rfl

/-- The window begins at the bit of the next turn. -/
theorem window_bits (key data : List Byte) (n : Nat) {j : Nat} (small : j < 32) :
    (toeplitzRounds key data n).2.getMsbD j = bitAt key (n + j) := by
  induction n generalizing j with
  | zero =>
      rw [Nat.zero_add]
      exact firstWindow_bits key small
  | succ n ih =>
      rw [rounds_succ]
      show ((toeplitzRounds key data n).2 <<< 1 ||| _).getMsbD j = _
      rw [BitVec.getMsbD_or, BitVec.getMsbD_shiftLeft]
      by_cases last : j = 31
      · subst last
        rw [BitVec.getMsbD_of_ge _ _ (by omega), Bool.false_or,
          show n + 1 + 31 = n + 32 by omega]
        cases bitAt key (n + 32) <;> rfl
      · rw [ih (by omega), show n + 1 + j = n + (j + 1) by omega]
        have low : (if bitAt key (n + 32) then 1 else 0 : BitVec 32).getMsbD j = false := by
          have inside : j < 31 := by omega
          split
          · show (1#32).getMsbD j = false
            rw [BitVec.getMsbD_one]
            simp [last]
          · exact BitVec.getMsbD_zero
        rw [low, Bool.or_false]

/-! ## The top bit -/

/-- The parity of the bits two byte strings have in common. -/
def parity (a b : List Byte) (n : Nat) : Bool :=
  (List.range n).foldl (fun odd k => odd ^^ (bitAt a k && bitAt b k)) false

theorem parity_succ (a b : List Byte) (n : Nat) :
    parity a b (n + 1) = (parity a b n ^^ (bitAt a n && bitAt b n)) := by
  unfold parity
  rw [List.range_succ, List.foldl_append]
  rfl

theorem rounds_top (key data : List Byte) (n : Nat) :
    (toeplitzRounds key data n).1.getMsbD 0 = parity data key n := by
  induction n with
  | zero => exact BitVec.getMsbD_zero
  | succ n ih =>
      rw [rounds_succ, parity_succ]
      unfold toeplitzRound
      dsimp only
      cases bitAt data n with
      | false => simpa using ih
      | true =>
          have window := window_bits key data n (show 0 < 32 by omega)
          rw [if_pos rfl, BitVec.getMsbD_xor, ih, window]
          rfl

/-- Turns behind the end of the data do nothing to the hash. -/
theorem rounds_past (enough : 8 * a.length ≤ n) :
    (toeplitzRounds key a n).1 = toeplitzHash key a := by
  induction n, enough using Nat.le_induction with
  | base => rfl
  | succ n past ih =>
      rw [rounds_succ]
      unfold toeplitzRound
      dsimp only
      rw [bitAt_of_past past]
      exact ih

/-- The hash only sees bits. -/
theorem toeplitzHash_congr (key : List Byte) (same : ∀ k, bitAt a k = bitAt b k) :
    toeplitzHash key a = toeplitzHash key b := by
  have rounds : ∀ n, toeplitzRounds key a n = toeplitzRounds key b n := by
    intro n
    induction n with
    | zero => rfl
    | succ n ih =>
        rw [rounds_succ, rounds_succ, ih]
        unfold toeplitzRound
        rw [same]
  have past := @rounds_past key a (8 * a.length + 8 * b.length) (by omega)
  rw [← past, rounds]
  exact rounds_past (by omega)

/-! ## Keys of one bit -/

/-- A key of `n` bytes with one bit. -/
def oneBit (n i : Nat) : List Byte :=
  (List.range n).map fun q => if q = i / 8 then BitVec.twoPow 8 (7 - i % 8) else 0

theorem bitAt_oneBit {i : Nat} (inside : i < 8 * n) (k : Nat) :
    bitAt (oneBit n i) k = decide (k = i) := by
  unfold bitAt oneBit
  rw [List.getElem?_map]
  by_cases past : k / 8 < n
  · rw [List.getElem?_range past, Option.map_some, Option.getD_some]
    split
    · rename_i same
      rw [BitVec.getMsbD_eq_getLsbD, BitVec.getLsbD_twoPow]
      rw [Bool.eq_iff_iff]
      simp only [Bool.and_eq_true, decide_eq_true_eq]
      omega
    · rename_i other
      have apart : k ≠ i := by
        rintro rfl
        exact other rfl
      simp [apart]
  · rw [List.getElem?_eq_none (by simpa using past)]
    have apart : k ≠ i := by omega
    simp [apart]

theorem parity_oneBit {i : Nat} (inside : i < 8 * n) (a : List Byte) (m : Nat) :
    parity a (oneBit n i) m = (decide (i < m) && bitAt a i) := by
  induction m with
  | zero => rfl
  | succ m ih =>
      rw [parity_succ, ih, bitAt_oneBit inside]
      by_cases here : m = i
      · subst here
        simp
      · have same : decide (i < m + 1) = decide (i < m) := by
          rw [decide_eq_decide]
          omega
        rw [same, decide_eq_false here, Bool.and_false, Bool.xor_false]

/-- Two byte strings have one hash under all keys of a length that is not below
theirs exactly when they have the same bits. -/
theorem toeplitzHash_eq_iff (enoughA : a.length ≤ n) (enoughB : b.length ≤ n) :
    (∀ key : List Byte, key.length = n → toeplitzHash key a = toeplitzHash key b) ↔
      ∀ k, bitAt a k = bitAt b k := by
  constructor
  · intro same k
    by_cases inside : k < 8 * n
    · have top := congrArg (BitVec.getMsbD · 0) (same (oneBit n k) (by simp [oneBit]))
      rw [← @rounds_past _ a (8 * n) (by omega), ← @rounds_past _ b (8 * n) (by omega)] at top
      simp only [rounds_top, parity_oneBit inside] at top
      simpa [inside] using top
    · rw [bitAt_of_past (by omega), bitAt_of_past (by omega)]
  · exact fun same key _ => toeplitzHash_congr key same

end Toeplitz

end ActorNet.Lib
