import ActorNet.Tcp.Frames

/-!
# Putting segments in order

Below 2^31 the sequence numbers of a stream are ordered like its offsets, so the
merger keeps out-of-order segments gapped slices of the stream, and
`merge_out_of_order` takes from them what continues the data received so far.
-/

namespace ActorNet.Tcp

open Lib Lib.Slices Net PacketMerger

/-! ## Sequence numbers of a stream -/

namespace TcpSeq

/-- The number of the byte with some offset, in a stream whose first byte has
the number `first`. -/
def place (first : TcpSeq) (k : Nat) : TcpSeq := first + k

variable {first : TcpSeq} {k l : Nat}

theorem place_zero (first : TcpSeq) : first.place 0 = first := by
  show TcpSeq.mk _ = first
  simp

theorem place_add (first : TcpSeq) (k n : Nat) : first.place k + n = first.place (k + n) := by
  show TcpSeq.mk _ = TcpSeq.mk _
  congr 1
  rw [place, raw_add, BitVec.ofNat_add, BitVec.add_assoc]

/-- The difference of two numbers of the stream, as a signed number. -/
theorem toInt_place_sub (first : TcpSeq) (left : k < 2 ^ 31) (right : l < 2 ^ 31) :
    (first.place k - first.place l).toInt = (k : Int) - l := by
  have difference : first.place k - first.place l = BitVec.ofNat 32 k - BitVec.ofNat 32 l := by
    show (first.raw + BitVec.ofNat 32 k) - (first.raw + BitVec.ofNat 32 l) = _
    bv_omega
  have leftSmall : k % 2 ^ 32 = k := Nat.mod_eq_of_lt (by omega)
  have rightSmall : l % 2 ^ 32 = l := Nat.mod_eq_of_lt (by omega)
  rw [difference, BitVec.toInt_eq_toNat_cond, BitVec.toNat_sub, BitVec.toNat_ofNat,
    BitVec.toNat_ofNat, leftSmall, rightSmall]
  split <;> omega

theorem place_lt (first : TcpSeq) (left : k < 2 ^ 31) (right : l < 2 ^ 31) :
    first.place k < first.place l ↔ k < l := by
  show (first.place k - first.place l).toInt < 0 ↔ _
  rw [toInt_place_sub first left right]
  omega

theorem place_le (first : TcpSeq) (left : k < 2 ^ 31) (right : l < 2 ^ 31) :
    first.place k ≤ first.place l ↔ k ≤ l := by
  show ¬first.place l < first.place k ↔ _
  rw [place_lt first right left]
  omega

theorem place_sub (first : TcpSeq) (ordered : k ≤ l) (inside : l < 2 ^ 31) :
    (first.place l - first.place k).toNat = l - k := by
  have difference := toInt_place_sub first inside (show k < 2 ^ 31 by omega)
  rw [BitVec.toInt_eq_toNat_cond] at difference
  have bound := (first.place l - first.place k).isLt
  split at difference <;> omega

/-- The offset of a number that the stream has is told by its distance. -/
theorem place_toNat (first s : TcpSeq) : first.place (s - first).toNat = s := by
  show TcpSeq.mk (first.raw + BitVec.ofNat 32 (s.raw - first.raw).toNat) = s
  rw [BitVec.ofNat_toNat, BitVec.setWidth_eq, BitVec.add_comm, BitVec.sub_add_cancel]

theorem lt_iff_toNat (s q : TcpSeq) : s < q ↔ 2 ^ 31 ≤ (s - q).toNat := by
  have bound := (s - q).isLt
  show (s - q).toInt < 0 ↔ _
  rw [BitVec.toInt_eq_toNat_cond]
  split <;> omega

theorem le_iff_toNat (s q : TcpSeq) : s ≤ q ↔ (q - s).toNat < 2 ^ 31 := by
  show ¬q < s ↔ _
  rw [lt_iff_toNat]
  omega

theorem toNat_sub (s q : TcpSeq) :
    (s - q).toNat = (2 ^ 32 - q.raw.toNat + s.raw.toNat) % 2 ^ 32 := BitVec.toNat_sub _ _

theorem toNat_add (s : TcpSeq) (n : Nat) : (s + n).raw.toNat = (s.raw.toNat + n) % 2 ^ 32 := by
  rw [raw_add, BitVec.toNat_add, BitVec.toNat_ofNat]
  omega

/-- The offset of a number inside a window. -/
theorem offset_lt {first s : TcpSeq} {n : Nat} (near : n < 2 ^ 31) (low : first ≤ s)
    (high : s < first + n) : (s - first).toNat < n := by
  have low := (le_iff_toNat first s).mp low
  have high : first.place (s - first).toNat < first.place n := by
    rw [place_toNat]
    exact high
  exact (place_lt first low near).mp high

theorem window_place (first : TcpSeq) : Window first.place (2 ^ 31) where
  add k n _ := place_add first k n
  sub k l ordered inside := by
    have before := (place_le first (show k < 2 ^ 31 by omega) inside).mpr ordered
    rw [(sub_toNat before).1, place_sub first ordered inside]
  lt k l left right := decide_eq_decide.mpr (place_lt first left right)

end TcpSeq

/-! ## The loop of `merge_out_of_order` -/

namespace Tcb

variable {S : List Byte} {first : TcpSeq}

/-- Pieces that begin behind what has been received. -/
def Behind (P : Nat → List Byte → Prop) (n b : Nat) (d : List Byte) : Prop := P b d ∧ n < b

/-- Pieces that follow one another from an offset on. -/
def Consecutive (P : Nat → List Byte → Prop) : Nat → List (List Byte) → Prop
  | _, [] => True
  | n, d :: ds => P n d ∧ Consecutive P (n + d.length) ds

variable {P : Nat → List Byte → Prop} {size : Nat}

theorem pieces_behind (pieces : Pieces P size) (n : Nat) : Pieces (Behind P n) size where
  inside b d behind := pieces.inside b d behind.1
  join b d b' d' left right ordered touch longer :=
    ⟨pieces.join b d b' d' left.1 right.1 ordered touch longer, left.2⟩

/-- What the loop takes follows one another from `n` on, and what it leaves in
the map lies behind that; together they cover what they did. -/
structure TakenPieces (P : Nat → List Byte → Prop) (n : Nat) (m : Map Nat) (n' : Nat)
    (pieces : List (List Byte)) (m' : Map Nat) : Prop where
  consecutive : Consecutive P n pieces
  next : n' = n + pieces.flatten.length
  gapped : Gapped m'
  behind : Each (Behind P n') m'
  covers : ∀ k, k < n' ∨ Covers m' k ↔ k < n ∨ Covers m k

/-- The loop on pieces of any kind that may be cut in front. -/
theorem takeMergeable_pieces (pieces : Pieces P size) (short : size < 2 ^ 31)
    (cut : ∀ b d k, P b d → k ≤ d.length → P (b + k) (d.drop k)) {n : Nat} {m : Map Nat}
    (inside : n ≤ size) (gapped : Gapped m) (each : Each P m) :
    ∃ n' ds m', takeMergeable (first.place n) (placed first.place m) =
      ⟨first.place n', ds, placed first.place m', true⟩ ∧ TakenPieces P n m n' ds m' := by
  induction m generalizing n with
  | nil =>
      exact ⟨n, [], [], rfl, trivial, rfl, .nil, List.forall_mem_nil _, fun k => Iff.rfl⟩
  | cons x rest ih =>
      obtain ⟨b, p⟩ := x
      have piece : P b p := each.head
      have end_ := pieces.inside b p piece
      have apart := (List.pairwise_cons.mp gapped).1
      have gapped' := (List.pairwise_cons.mp gapped).2
      show ∃ n' ds m', takeMergeable (first.place n) ((first.place b, p) ::
        placed first.place rest) = _ ∧ _
      unfold takeMergeable
      dsimp only
      rw [TcpSeq.place_add]
      simp only [TcpSeq.place_le first (show b < 2 ^ 31 by omega) (show n < 2 ^ 31 by omega),
        TcpSeq.place_lt first (show n < 2 ^ 31 by omega) (show b + p.length < 2 ^ 31 by omega),
        TcpSeq.place_le first (show b + p.length < 2 ^ 31 by omega) (show n < 2 ^ 31 by omega)]
      split
      · rename_i overlap
        obtain ⟨low, high⟩ := overlap
        have trim : (first.place n - first.place b).toNat = n - b :=
          TcpSeq.place_sub first low (by omega)
        have within : n - b ≤ p.length := by omega
        rw [trim, TcpSeq.place_add, show n + (p.length - (n - b)) = b + p.length by omega]
        obtain ⟨n', ds, m', run, taken⟩ := ih end_ gapped' each.tail
        rw [run]
        refine ⟨n', p.drop (n - b) :: ds, m', ?_, ?_⟩
        · rw [decide_eq_true within]
          rfl
        have here := cut b p (n - b) piece within
        rw [show b + (n - b) = n by omega] at here
        have length : (p.drop (n - b)).length = b + p.length - n := by
          rw [List.length_drop]
          omega
        refine ⟨⟨here, ?_⟩, ?_, taken.gapped, taken.behind, fun k => ?_⟩
        · rw [length, show n + (b + p.length - n) = b + p.length by omega]
          exact taken.consecutive
        · rw [taken.next, List.flatten_cons, List.length_append, length]
          omega
        · rw [taken.covers, covers_cons]
          by_cases later : Covers rest k
          · simp only [later, or_true]
          · simp only [later, or_false]
            omega
      split
      · rename_i old
        obtain ⟨n', ds, m', run, taken⟩ := ih inside gapped' each.tail
        refine ⟨n', ds, m', run, taken.consecutive, taken.next, taken.gapped, taken.behind,
          fun k => ?_⟩
        rw [taken.covers, covers_cons]
        by_cases later : Covers rest k
        · simp only [later, or_true]
        · simp only [later, or_false]
          omega
      · rename_i notOver notOld
        have behind : n < b := by omega
        refine ⟨n, [], (b, p) :: rest, rfl, trivial, rfl, gapped, ?_, fun k => Iff.rfl⟩
        intro y mem
        refine ⟨each y mem, ?_⟩
        rcases List.mem_cons.mp mem with rfl | later
        · exact behind
        · have further : b + p.length < y.1 := apart y later
          omega

end Tcb

end ActorNet.Tcp
