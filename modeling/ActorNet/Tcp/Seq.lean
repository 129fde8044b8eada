import ActorNet.Net.PacketMerger

/-!
# TCP sequence numbers

A `tcp_seq` is a number modulo 2^32, and one is before another when their
difference is negative as an `int32_t`. That is no order on all of them, but
enough for `packet_merger` never to trim more off a packet than it holds.
-/

namespace ActorNet.Tcp

open Lib Net

/-- `std::min` and `std::max` on the machine's unsigned integers. -/
instance instMin {w : Nat} : Min (BitVec w) := minOfLe
instance instMax {w : Nat} : Max (BitVec w) := maxOfLe

theorem toNat_min {w : Nat} (a b : BitVec w) : (min a b).toNat = min a.toNat b.toNat := by
  show (if a ≤ b then a else b).toNat = _
  split
  · rename_i le
    exact (Nat.min_eq_left le).symm
  · rename_i le
    exact (Nat.min_eq_right (Nat.le_of_lt (Nat.not_le.mp le))).symm

theorem toNat_max {w : Nat} (a b : BitVec w) : (max a b).toNat = max a.toNat b.toNat := by
  show (if a ≤ b then b else a).toNat = _
  split
  · rename_i le
    exact (Nat.max_eq_right le).symm
  · rename_i le
    exact (Nat.max_eq_left (Nat.le_of_lt (Nat.not_le.mp le))).symm

structure TcpSeq where
  raw : BitVec 32
  deriving DecidableEq, Repr

namespace TcpSeq

instance : HAdd TcpSeq Nat TcpSeq := ⟨fun s n => ⟨s.raw + BitVec.ofNat 32 n⟩⟩
instance : HSub TcpSeq Nat TcpSeq := ⟨fun s n => ⟨s.raw - BitVec.ofNat 32 n⟩⟩

/-- `operator-(tcp_seq, tcp_seq)`. -/
instance : HSub TcpSeq TcpSeq (BitVec 32) := ⟨fun s q => s.raw - q.raw⟩

instance : LT TcpSeq := ⟨fun s q => (s - q).toInt < 0⟩
instance : LE TcpSeq := ⟨fun s q => ¬q < s⟩

instance (s q : TcpSeq) : Decidable (s < q) := inferInstanceAs (Decidable ((s - q).toInt < 0))
instance (s q : TcpSeq) : Decidable (s ≤ q) := inferInstanceAs (Decidable (¬q < s))

theorem lt_def {s q : TcpSeq} : s < q ↔ (s.raw - q.raw).toInt < 0 := Iff.rfl
theorem le_def {s q : TcpSeq} : s ≤ q ↔ 0 ≤ (q.raw - s.raw).toInt := Int.not_lt
@[simp] theorem raw_add (s : TcpSeq) (n : Nat) : (s + n).raw = s.raw + BitVec.ofNat 32 n := rfl

/-- The differences that `trim_front` takes are converted to `size_t`. -/
instance : Offset TcpSeq where
  add s n := s + n
  sub s q := ((s - q).signExtend 64).toNat
  lt s q := decide (s < q)

theorem offset_le (s q : TcpSeq) : Offset.le s q = decide (s ≤ q) := by
  rw [Offset.le]
  exact (decide_not).symm

theorem le_refl (s : TcpSeq) : s ≤ s := by
  rw [le_def, BitVec.sub_self]
  decide

/-- Numbers are before each other unless they are equal. -/
theorem lt_of_le_of_ne {s q : TcpSeq} (before : s ≤ q) (other : q ≠ s) : s < q := by
  rw [le_def, BitVec.toInt_eq_toNat_cond] at before
  rw [lt_def, BitVec.toInt_eq_toNat_cond]
  have apart : q.raw.toNat ≠ s.raw.toNat := fun same =>
    other (congrArg TcpSeq.mk (BitVec.eq_of_toNat_eq same))
  simp only [BitVec.toNat_sub] at before ⊢
  omega

theorem sub_ne_zero {s q : TcpSeq} (before : s < q) : (q - s : BitVec 32) ≠ 0 := by
  intro none
  have none : q.raw - s.raw = 0 := none
  have same : q.raw = s.raw := by grind
  rw [lt_def, same, BitVec.sub_self] at before
  exact absurd before (by decide)

/-- A difference of ordered numbers is a length. -/
theorem sub_toNat {s q : TcpSeq} (before : s ≤ q) :
    Offset.sub q s = (q - s).toNat ∧ (q - s).toNat < 2 ^ 31 := by
  have nonnegative : 0 ≤ (q - s).toInt := le_def.mp before
  have small : (q - s).toNat < 2 ^ 31 := by
    rw [BitVec.toInt_eq_toNat_cond] at nonnegative
    have bound := (q - s).isLt
    split at nonnegative <;> omega
  refine ⟨?_, small⟩
  show ((q - s).signExtend 64).toNat = _
  have positive : (q - s).msb = false := BitVec.msb_eq_false_iff_two_mul_lt.mpr (by omega)
  rw [BitVec.signExtend_eq_setWidth_of_msb_false positive, BitVec.toNat_setWidth]
  exact Nat.mod_eq_of_lt (by have := (q - s).isLt; omega)

/-- A number inside a packet is no farther from its begin than the packet is long. -/
theorem sub_le_length {s q : TcpSeq} {n : Nat} (before : s ≤ q) (inside : q ≤ s + n) :
    Offset.sub q s ≤ n := by
  obtain ⟨value, small⟩ := sub_toNat before
  rw [value]
  rw [le_def, raw_add, BitVec.toInt_eq_toNat_cond] at inside
  simp only [BitVec.toNat_sub, BitVec.toNat_add, BitVec.toNat_ofNat] at inside
  have distance : (q - s).toNat = (2 ^ 32 - s.raw.toNat + q.raw.toNat) % 2 ^ 32 :=
    BitVec.toNat_sub _ _
  rw [distance] at small ⊢
  have left := s.raw.isLt
  have right := q.raw.isLt
  omega

theorem sub_le_length_of_lt {s q : TcpSeq} {n : Nat} (before : s ≤ q) (inside : q < s + n) :
    Offset.sub q s ≤ n := by
  obtain ⟨value, small⟩ := sub_toNat before
  rw [value]
  rw [lt_def, raw_add, BitVec.toInt_eq_toNat_cond] at inside
  simp only [BitVec.toNat_sub, BitVec.toNat_add, BitVec.toNat_ofNat] at inside
  have distance : (q - s).toNat = (2 ^ 32 - s.raw.toNat + q.raw.toNat) % 2 ^ 32 :=
    BitVec.toNat_sub _ _
  rw [distance] at small ⊢
  have left := s.raw.isLt
  have right := q.raw.isLt
  omega

end TcpSeq

/-! ## The trims of a merge -/

/-- A call of `trim_front`: how much, and what the packet holds. -/
abbrev Trim := Nat × Nat

def Trim.Within (trim : Trim) : Prop := trim.1 ≤ trim.2

instance (trim : Trim) : Decidable trim.Within := inferInstanceAs (Decidable (_ ≤ _))

variable {ω : Type} [Offset ω]

open PacketMerger

/-- The trim of the first loop of `merge`, which ends the loop. -/
def findTrims (beg : ω) (p : List Byte) : Map ω → List Trim
  | [] => []
  | (segBeg, seg) :: rest =>
      let fin := Offset.add beg p.length
      let segEnd := Offset.add segBeg seg.length
      if Offset.le segBeg beg && Offset.le fin segEnd then []
      else if Offset.le beg segBeg && Offset.le segEnd fin then []
      else if Offset.lt beg segBeg && Offset.le segBeg fin && Offset.le fin segEnd then
        [(Offset.sub fin segBeg, seg.length)]
      else if Offset.le segBeg beg && Offset.le beg segEnd && Offset.lt segEnd fin then
        [(Offset.sub segEnd beg, p.length)]
      else findTrims beg p rest

/-- The trims of the second loop, up to one that fails. -/
def adjacentTrims (segBeg : ω) (seg : List Byte) : Map ω → List Trim
  | [] => []
  | (beg, p) :: rest =>
      let segEnd := Offset.add segBeg seg.length
      let fin := Offset.add beg p.length
      if Offset.le segBeg beg && Offset.le beg segEnd && Offset.lt segEnd fin then
        let trim := Offset.sub segEnd beg
        (trim, p.length) :: match PacketMerger.trimFront trim p with
          | some tail => adjacentTrims segBeg (seg ++ tail) rest
          | none => []
      else if Offset.le fin segEnd then adjacentTrims segBeg seg rest
      else if Offset.lt segEnd beg then adjacentTrims beg p rest
      else []

def allTrims : Map ω → List Trim
  | [] => []
  | (segBeg, seg) :: rest => adjacentTrims segBeg seg rest

/-- Every trim of `merge`. -/
def mergeTrims (offset : ω) (p : List Byte) (map : Map ω) : List Trim :=
  findTrims offset p map ++ match find offset p map with
    | some (.appended map) => allTrims map
    | some (.insert map p) => allTrims (emplace offset p map)
    | _ => []

theorem findTrims_within {trim : Trim} (beg : TcpSeq) (p : List Byte) (map : Map TcpSeq)
    (made : trim ∈ findTrims beg p map) : trim.Within := by
  induction map with
  | nil => cases made
  | cons seg rest ih =>
      obtain ⟨segBeg, seg⟩ := seg
      simp only [findTrims, TcpSeq.offset_le] at made
      split at made
      · cases made
      split at made
      · cases made
      split at made
      · rename_i overlap
        cases List.mem_singleton.mp made
        simp only [Bool.and_eq_true, decide_eq_true_eq] at overlap
        exact TcpSeq.sub_le_length overlap.1.2 overlap.2
      split at made
      · rename_i overlap
        cases List.mem_singleton.mp made
        simp only [Bool.and_eq_true, decide_eq_true_eq] at overlap
        exact TcpSeq.sub_le_length_of_lt overlap.1.2 (decide_eq_true_eq.mp overlap.2)
      · exact ih made

theorem adjacentTrims_within {trim : Trim} (segBeg : TcpSeq) (seg : List Byte) (map : Map TcpSeq)
    (made : trim ∈ adjacentTrims segBeg seg map) : trim.Within := by
  induction map generalizing segBeg seg with
  | nil => cases made
  | cons next rest ih =>
      obtain ⟨beg, p⟩ := next
      simp only [adjacentTrims, TcpSeq.offset_le] at made
      split at made
      · rename_i overlap
        simp only [Bool.and_eq_true, decide_eq_true_eq] at overlap
        rcases List.mem_cons.mp made with first | later
        · rw [first]
          exact TcpSeq.sub_le_length_of_lt overlap.1.2 (decide_eq_true_eq.mp overlap.2)
        · split at later
          · exact ih _ _ later
          · cases later
      split at made
      · exact ih _ _ made
      split at made
      · exact ih _ _ made
      · cases made

/-- `packet_merger` on TCP sequence numbers never trims more off a packet than
it holds, whatever is in its map. -/
theorem mergeTrims_within (offset : TcpSeq) (p : List Byte) (map : Map TcpSeq) :
    ∀ trim ∈ mergeTrims offset p map, trim.Within := by
  intro trim made
  have all : ∀ m : Map TcpSeq, trim ∈ allTrims m → trim.Within := by
    intro m made
    cases m with
    | nil => cases made
    | cons first rest => exact adjacentTrims_within _ _ _ made
  rcases List.mem_append.mp made with first | second
  · exact findTrims_within offset p map first
  · split at second
    · exact all _ second
    · exact all _ second
    · cases second

end ActorNet.Tcp
