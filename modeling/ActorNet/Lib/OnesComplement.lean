import Mathlib.Init

/-!
# One's-complement sums of 16-bit words

Addition of 16-bit words with the end-around carry, which gives zero only where
all words are zero.
-/

namespace ActorNet.Lib

/-- Sixteen-bit addition that adds the carry out of the top back in. -/
def onesAdd (a b : BitVec 16) : BitVec 16 :=
  BitVec.ofNat 16 ((a.toNat + b.toNat) % 65536 + (a.toNat + b.toNat) / 65536)

/-- The one's-complement sum of a list of words. -/
def onesSum : List (BitVec 16) → BitVec 16
  | [] => 0#16
  | w :: ws => onesAdd w (onesSum ws)

theorem toNat_onesAdd (a b : BitVec 16) :
    (onesAdd a b).toNat = (a.toNat + b.toNat) % 65536 + (a.toNat + b.toNat) / 65536 := by
  have ha := a.isLt
  have hb := b.isLt
  simp only [onesAdd, BitVec.toNat_ofNat]
  omega

/-- End-around addition never produces zero out of a nonzero word. -/
theorem onesAdd_eq_zero_iff (a b : BitVec 16) : onesAdd a b = 0#16 ↔ a = 0#16 ∧ b = 0#16 := by
  have ha := a.isLt
  have hb := b.isLt
  simp only [← BitVec.toNat_inj, toNat_onesAdd, BitVec.toNat_ofNat]
  omega

theorem onesSum_eq_zero_iff (ws : List (BitVec 16)) : onesSum ws = 0#16 ↔ ∀ w ∈ ws, w = 0#16 := by
  induction ws with
  | nil => simp [onesSum]
  | cons w ws ih => simp [onesSum, onesAdd_eq_zero_iff, ih]

end ActorNet.Lib
