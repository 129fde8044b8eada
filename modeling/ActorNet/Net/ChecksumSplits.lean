import ActorNet.Net.Checksum

/-!
# Checksums of data in pieces

A checksummer takes buffers, packets and integers one after the other, at odd
and at even positions. `Accumulates` is what it should hold after some bytes,
however they were cut; an empty buffer at an odd position is the only thing that
it does not survive.
-/

namespace ActorNet.Net

open Lib

/-- What one call of `sum` is given. -/
inductive Operand
  | buffer (data : List Byte)
  | packet (fragments : List (List Byte))
  | u8 (data : BitVec 8)
  | u16 (data : BitVec 16)
  | u32 (data : BitVec 32)

namespace Operand

/-- The bytes that are handed over together: integers are big-endian. -/
def pieces : Operand → List (List Byte)
  | buffer data => [data]
  | packet fragments => fragments
  | u8 data => [[data]]
  | u16 data => [[(data >>> 8).setWidth 8, data.setWidth 8]]
  | u32 data => [[(data >>> 24).setWidth 8, (data >>> 16).setWidth 8, (data >>> 8).setWidth 8,
      data.setWidth 8]]

def bytes (op : Operand) : List Byte := op.pieces.flatten

end Operand

namespace Checksummer

/-- The overloads of `sum`. -/
def take (c : Checksummer) : Operand → Option Checksummer
  | .buffer data => c.sum data
  | .packet fragments => c.sumPacket fragments
  | .u8 data => some (c.sum8 data)
  | .u16 data => some (c.sum16 data)
  | .u32 data => some (c.sum32 data)

/-- A sequence of calls. -/
def takeAll (c : Checksummer) (ops : List Operand) : Option Checksummer := ops.foldlM take c

/-- The accumulator has the residue of the words of `bs`, and the flag is their
parity. -/
structure Accumulates (c : Checksummer) (bs : List Byte) : Prop where
  residue : c.csum.toNat % 65535 = wordTotal bs % 65535
  odd : c.odd = (bs.length % 2 == 1)

/-- No empty piece comes at an odd position. -/
def noEmptyAtOdd (odd : Bool) : List (List Byte) → Bool
  | [] => true
  | piece :: rest =>
      !(odd && piece.isEmpty) && noEmptyAtOdd (odd ^^ (piece.length % 2 == 1)) rest

/-! ## Words across a cut -/

theorem wordTotal_append_even {bs : List Byte} (even : bs.length % 2 = 0) (ds : List Byte) :
    wordTotal (bs ++ ds) = wordTotal bs + wordTotal ds := by
  induction bs using words16.induct with
  | case1 hi lo bs ih =>
      simp only [List.length_cons] at even
      simp only [List.cons_append, wordTotal_cons_cons, ih (by omega)]
      omega
  | case2 b => simp at even
  | case3 => simp

/-- The first byte behind an odd number of bytes is a low half. -/
theorem wordTotal_append_odd {bs : List Byte} (odd : bs.length % 2 = 1) (b : Byte)
    (ds : List Byte) : wordTotal (bs ++ b :: ds) = wordTotal bs + b.toNat + wordTotal ds := by
  induction bs using words16.induct with
  | case1 hi lo bs ih =>
      simp only [List.length_cons] at odd
      simp only [List.cons_append, wordTotal_cons_cons, ih (by omega)]
      omega
  | case2 b' => simp
  | case3 => simp at odd

/-- Parities add up. -/
theorem parity_add (m n : Nat) : ((m + n) % 2 == 1) = ((m % 2 == 1) ^^ (n % 2 == 1)) := by
  rcases Nat.mod_two_eq_zero_or_one m with hm | hm <;>
    rcases Nat.mod_two_eq_zero_or_one n with hn | hn <;> simp [Nat.add_mod, hm, hn]

/-! ## One call -/

variable {c : Checksummer} {bs : List Byte}

/-- What holds between the calls: no carry is lost either. -/
structure Sums (c : Checksummer) (bs : List Byte) : Prop extends Accumulates c bs where
  reach : c.csum.toNat ≤ 2 ^ 64 * bs.length

theorem Sums.fresh : Sums fresh [] := ⟨⟨rfl, rfl⟩, Nat.le_refl _⟩

theorem Sums.even (sums : Sums c bs) (even : c.odd = false) : bs.length % 2 = 0 := by
  have flag := sums.odd
  rw [even] at flag
  have notOne : bs.length % 2 ≠ 1 := by simpa using flag.symm
  omega

theorem Sums.isOdd (sums : Sums c bs) (odd : c.odd = true) : bs.length % 2 = 1 := by
  have flag := sums.odd
  rw [odd] at flag
  simpa using flag.symm

/-- An operand whose value has the residue of what its bytes add to the words. -/
theorem Sums.add {x : BitVec 128} {taken : List Byte} (sums : Sums c bs)
    (fits : (bs ++ taken).length < 2 ^ 64) (nonempty : taken ≠ []) (small : x.toNat < 2 ^ 64)
    (residue : (wordTotal bs + x.toNat) % 65535 = wordTotal (bs ++ taken) % 65535) :
    Sums ⟨c.csum + x, c.odd ^^ (taken.length % 2 == 1)⟩ (bs ++ taken) := by
  have one : 0 < taken.length := List.length_pos_iff.mpr nonempty
  have reach := sums.reach
  have before := sums.residue
  rw [List.length_append] at fits
  have value : (c.csum + x).toNat = c.csum.toNat + x.toNat := by
    rw [BitVec.toNat_add, Nat.mod_eq_of_lt (by omega)]
  refine ⟨⟨?_, ?_⟩, ?_⟩
  · rw [value]
    omega
  · rw [List.length_append, parity_add, sums.odd]
  · rw [value, List.length_append]
    omega

theorem Sums.sum8 (sums : Sums c bs) (data : BitVec 8) (fits : (bs ++ [data]).length < 2 ^ 64) :
    Sums (c.sum8 data) (bs ++ [data]) := by
  have bound : data.toNat < 2 ^ 8 := data.isLt
  have wide : (data.setWidth 128).toNat = data.toNat := BitVec.toNat_setWidth_of_le (by decide)
  cases odd : c.odd with
  | true =>
      have shape : c.sum8 data = ⟨c.csum + data.setWidth 128, c.odd ^^ ([data].length % 2 == 1)⟩ := by
        simp [Checksummer.sum8, odd]
      rw [shape]
      refine sums.add fits (by simp) (by omega) ?_
      rw [wordTotal_append_odd (sums.isOdd odd), wide, wordTotal_nil, Nat.add_zero]
  | false =>
      have shifted : (data.setWidth 128 <<< 8).toNat = 256 * data.toNat := by
        rw [BitVec.toNat_shiftLeft, wide, Nat.shiftLeft_eq]
        omega
      have shape : c.sum8 data =
          ⟨c.csum + (data.setWidth 128 <<< 8), c.odd ^^ ([data].length % 2 == 1)⟩ := by
        simp [Checksummer.sum8, odd]
      rw [shape]
      refine sums.add fits (by simp) (by omega) ?_
      rw [wordTotal_append_even (sums.even odd), shifted, wordTotal_single]

/-- The high and the low byte of a 16-bit operand. -/
theorem toNat_halves (data : BitVec 16) :
    data.toNat = 256 * ((data >>> 8).setWidth 8).toNat + (data.setWidth 8).toNat := by
  have bound := data.isLt
  simp only [BitVec.toNat_setWidth, BitVec.toNat_ushiftRight, Nat.shiftRight_eq_div_pow]
  omega

theorem Sums.sum16 (sums : Sums c bs) (data : BitVec 16)
    (fits : (bs ++ [(data >>> 8).setWidth 8, data.setWidth 8]).length < 2 ^ 64) :
    Sums (c.sum16 data) (bs ++ [(data >>> 8).setWidth 8, data.setWidth 8]) := by
  cases odd : c.odd with
  | true =>
      have first := sums.sum8 ((data >>> 8).setWidth 8) (by simp at fits ⊢; omega)
      have second := first.sum8 (data.setWidth 8) (by simp at fits ⊢; omega)
      have shape : c.sum16 data = (c.sum8 ((data >>> 8).setWidth 8)).sum8 (data.setWidth 8) := by
        simp [Checksummer.sum16, odd]
      rw [shape]
      simpa using second
  | false =>
      have bound := data.isLt
      have wide : (data.setWidth 128).toNat = data.toNat := BitVec.toNat_setWidth_of_le (by decide)
      have halves := toNat_halves data
      have shape : c.sum16 data = ⟨c.csum + data.setWidth 128, c.odd ^^
          ([(data >>> 8).setWidth 8, data.setWidth 8].length % 2 == 1)⟩ := by
        simp [Checksummer.sum16, odd]
      rw [shape]
      refine sums.add fits (by simp) (by omega) ?_
      rw [wordTotal_append_even (sums.even odd), wide, wordTotal_cons_cons, wordTotal_nil]
      omega

/-- The bytes of a 32-bit operand are those of its halves. -/
theorem halves_bytes (data : BitVec 32) :
    [(data >>> 24).setWidth 8, (data >>> 16).setWidth 8, (data >>> 8).setWidth 8, data.setWidth 8] =
      [(((data >>> 16).setWidth 16) >>> 8).setWidth 8, ((data >>> 16).setWidth 16).setWidth 8,
        ((data.setWidth 16) >>> 8).setWidth 8, (data.setWidth 16).setWidth 8] := by
  simp only [List.cons.injEq, and_true]
  refine ⟨?_, ?_, ?_, ?_⟩ <;> apply BitVec.eq_of_toNat_eq <;>
    simp only [BitVec.toNat_setWidth, BitVec.toNat_ushiftRight, Nat.shiftRight_eq_div_pow] <;>
    omega

/-- At an odd position the halves come in the other order, which the sum does
not see. -/
theorem wordTotal_swap {bs : List Byte} (odd : bs.length % 2 = 1) (b0 b1 b2 b3 : Byte) :
    wordTotal (bs ++ [b2, b3, b0, b1]) = wordTotal (bs ++ [b0, b1, b2, b3]) := by
  simp only [wordTotal_append_odd odd, wordTotal_cons_cons, wordTotal_single]
  omega

theorem Sums.sum32 (sums : Sums c bs) (data : BitVec 32)
    (fits : (bs ++ (Operand.u32 data).bytes).length < 2 ^ 64) :
    Sums (c.sum32 data) (bs ++ (Operand.u32 data).bytes) := by
  have bytes : (Operand.u32 data).bytes =
      [(((data >>> 16).setWidth 16) >>> 8).setWidth 8, ((data >>> 16).setWidth 16).setWidth 8,
        ((data.setWidth 16) >>> 8).setWidth 8, (data.setWidth 16).setWidth 8] := by
    rw [← halves_bytes]
    simp [Operand.bytes, Operand.pieces]
  have high := toNat_halves ((data >>> 16).setWidth 16)
  have low := toNat_halves (data.setWidth 16)
  have bound := data.isLt
  rw [bytes] at fits ⊢
  cases odd : c.odd with
  | true =>
      have first := sums.sum16 (data.setWidth 16) (by simp at fits ⊢; omega)
      have second := first.sum16 ((data >>> 16).setWidth 16) (by simp at fits ⊢; omega)
      have shape : c.sum32 data =
          (c.sum16 (data.setWidth 16)).sum16 ((data >>> 16).setWidth 16) := by
        simp [Checksummer.sum32, odd]
      rw [shape]
      have swapped := second.residue
      have parity := second.odd
      have reach := second.reach
      rw [List.append_assoc, List.cons_append, List.cons_append, List.nil_append,
        wordTotal_swap (sums.isOdd odd)] at swapped
      refine ⟨⟨swapped, ?_⟩, ?_⟩
      · rw [parity]
        simp
      · simpa [Nat.add_assoc] using reach
  | false =>
      have wide : (data.setWidth 128).toNat = data.toNat := BitVec.toNat_setWidth_of_le (by decide)
      have shape : c.sum32 data = ⟨c.csum + data.setWidth 128, c.odd ^^
          ([(((data >>> 16).setWidth 16) >>> 8).setWidth 8, ((data >>> 16).setWidth 16).setWidth 8,
            ((data.setWidth 16) >>> 8).setWidth 8, (data.setWidth 16).setWidth 8].length % 2 == 1)⟩ := by
        simp [Checksummer.sum32, odd]
      have halves : data.toNat =
          65536 * ((data >>> 16).setWidth 16).toNat + (data.setWidth 16).toNat := by
        simp only [BitVec.toNat_setWidth, BitVec.toNat_ushiftRight, Nat.shiftRight_eq_div_pow]
        omega
      rw [shape]
      refine sums.add fits (by simp) (by omega) ?_
      rw [wordTotal_append_even (sums.even odd), wide, wordTotal_cons_cons, wordTotal_cons_cons,
        wordTotal_nil]
      omega

/-! ## Buffers -/

theorem Sums.aligned (sums : Sums c bs) (even : bs.length % 2 = 0) (data : List Byte)
    (fits : (bs ++ data).length < 2 ^ 64) :
    Sums ⟨sumAligned c.csum data, c.odd ^^ (data.length % 2 == 1)⟩ (bs ++ data) := by
  have before := sums.reach
  have residue := sums.residue
  rw [List.length_append] at fits
  have adds := sumAligned_adds c.csum data (by simp only [Checksummer.reach]; omega)
  have kept := adds.residue
  have reach := adds.reach
  simp only [total, wordTotal_nil, Nat.add_zero] at kept
  simp only [Checksummer.reach, List.length_nil, Nat.mul_zero, Nat.add_zero] at reach
  refine ⟨⟨?_, ?_⟩, ?_⟩
  · rw [wordTotal_append_even even]
    show (sumAligned c.csum data).toNat % 65535 = _
    omega
  · rw [List.length_append, parity_add, sums.odd]
  · rw [List.length_append]
    show (sumAligned c.csum data).toNat ≤ _
    omega

theorem Sums.sum (sums : Sums c bs) {data : List Byte} (fits : (bs ++ data).length < 2 ^ 64)
    (there : ¬(c.odd = true ∧ data = [])) :
    ∃ c', c.sum data = some c' ∧ Sums c' (bs ++ data) := by
  cases odd : c.odd with
  | false =>
      refine ⟨_, ?_, sums.aligned (sums.even odd) data fits⟩
      simp [Checksummer.sum, odd]
  | true =>
      cases data with
      | nil => exact absurd ⟨odd, rfl⟩ there
      | cons b data =>
          have bound : b.toNat < 2 ^ 8 := b.isLt
          have wide : (b.setWidth 128).toNat = b.toNat := BitVec.toNat_setWidth_of_le (by decide)
          have first : Sums ⟨c.csum + b.setWidth 128, c.odd ^^ ([b].length % 2 == 1)⟩ (bs ++ [b]) := by
            refine sums.add (by simp at fits ⊢; omega) (by simp) (by omega) ?_
            rw [wordTotal_append_odd (sums.isOdd odd), wide, wordTotal_nil, Nat.add_zero]
          have onward := first.aligned (first.even (by simp [odd])) data (by simpa using fits)
          refine ⟨_, ?_, by simpa using onward⟩
          have flag : ((b :: data).length % 2 == 1) = (true ^^ (data.length % 2 == 1)) := by
            rw [List.length_cons, Nat.add_comm, parity_add]
            rfl
          simp only [Checksummer.sum, odd, if_true, flag]
          cases data.length % 2 == 1 <;> rfl

theorem sum_nil_odd (odd : c.odd = true) : c.sum [] = none := by
  simp [Checksummer.sum, odd]

/-! ## Sequences -/

/-- The call returns just if no empty piece comes at an odd position, and then
the pieces have been added. -/
def Takes (c : Checksummer) (bs : List Byte) (pieces : List (List Byte)) :
    Option Checksummer → Prop
  | some c' => noEmptyAtOdd c.odd pieces = true ∧ Sums c' (bs ++ pieces.flatten)
  | none => noEmptyAtOdd c.odd pieces = false

theorem noEmptyAtOdd_append (odd : Bool) (ps qs : List (List Byte)) :
    noEmptyAtOdd odd (ps ++ qs) =
      (noEmptyAtOdd odd ps && noEmptyAtOdd (odd ^^ (ps.flatten.length % 2 == 1)) qs) := by
  induction ps generalizing odd with
  | nil => simp [noEmptyAtOdd]
  | cons p ps ih =>
      simp only [List.cons_append, noEmptyAtOdd, ih, List.flatten_cons, List.length_append,
        parity_add, Bool.and_assoc, Bool.xor_assoc]

/-- The rule of sequences, for the fragments of a packet and for calls. -/
theorem takes_foldlM {α : Type} {step : Checksummer → α → Option Checksummer}
    (pieces : α → List (List Byte))
    (each : ∀ (c : Checksummer) (bs : List Byte) (a : α), Sums c bs →
      (bs ++ (pieces a).flatten).length < 2 ^ 64 → Takes c bs (pieces a) (step c a))
    (as : List α) {c : Checksummer} {bs : List Byte} (sums : Sums c bs)
    (fits : (bs ++ (as.flatMap pieces).flatten).length < 2 ^ 64) :
    Takes c bs (as.flatMap pieces) (as.foldlM step c) := by
  induction as generalizing c bs with
  | nil => exact ⟨rfl, by simpa using sums⟩
  | cons a as ih =>
      rw [List.flatMap_cons, List.flatten_append, ← List.append_assoc] at fits
      have first := each c bs a sums (by simp at fits ⊢; omega)
      rw [List.foldlM_cons, List.flatMap_cons]
      cases result : step c a with
      | none =>
          rw [result] at first
          have fails : noEmptyAtOdd c.odd (pieces a) = false := first
          show noEmptyAtOdd _ _ = false
          rw [noEmptyAtOdd_append, fails, Bool.false_and]
      | some c' =>
          rw [result] at first
          obtain ⟨fine, sums'⟩ := first
          have parity : c'.odd = (c.odd ^^ ((pieces a).flatten.length % 2 == 1)) := by
            rw [sums'.odd, sums.odd, List.length_append, parity_add]
          have rest := ih sums' fits
          show Takes _ _ _ (as.foldlM step c')
          cases result' : as.foldlM step c' with
          | none =>
              rw [result'] at rest
              have fails : noEmptyAtOdd c'.odd (as.flatMap pieces) = false := rest
              show noEmptyAtOdd _ _ = false
              rw [noEmptyAtOdd_append, fine, ← parity, fails, Bool.and_false]
          | some c'' =>
              rw [result'] at rest
              obtain ⟨fine', sums''⟩ := rest
              refine ⟨?_, ?_⟩
              · rw [noEmptyAtOdd_append, fine, ← parity, fine', Bool.and_self]
              · rw [List.flatten_append, ← List.append_assoc]
                exact sums''

theorem takes_sum (sums : Sums c bs) (data : List Byte)
    (fits : (bs ++ [data].flatten).length < 2 ^ 64) : Takes c bs [data] (c.sum data) := by
  rw [List.flatten_singleton] at fits
  by_cases bad : c.odd = true ∧ data = []
  · obtain ⟨odd, rfl⟩ := bad
    rw [sum_nil_odd odd]
    simp [Takes, noEmptyAtOdd, odd]
  · obtain ⟨c', run, sums'⟩ := sums.sum fits bad
    rw [run]
    refine ⟨?_, by rwa [List.flatten_singleton]⟩
    rw [not_and] at bad
    cases odd : c.odd <;> simp [noEmptyAtOdd, odd] at bad ⊢
    exact bad

theorem takes_packet (sums : Sums c bs) (fragments : List (List Byte))
    (fits : (bs ++ fragments.flatten).length < 2 ^ 64) :
    Takes c bs fragments (c.sumPacket fragments) := by
  have single : fragments.flatMap (fun data => [data]) = fragments := by
    rw [List.flatMap_singleton']
  have all := takes_foldlM (fun data => [data])
    (fun _ _ data sums fits => takes_sum sums data fits) fragments sums (by rwa [single])
  rwa [single] at all

/-- Integers are never empty. -/
theorem takes_integer {c' : Checksummer} {piece : List Byte} (nonempty : piece ≠ [])
    (sums : Sums c' (bs ++ piece)) : Takes c bs [piece] (some c') := by
  refine ⟨?_, by rwa [List.flatten_singleton]⟩
  simp [noEmptyAtOdd, nonempty]

theorem takes_take (c : Checksummer) (bs : List Byte) (op : Operand) (sums : Sums c bs)
    (fits : (bs ++ op.pieces.flatten).length < 2 ^ 64) : Takes c bs op.pieces (c.take op) := by
  cases op with
  | buffer data => exact takes_sum sums data fits
  | packet fragments => exact takes_packet sums fragments fits
  | u8 data => exact takes_integer (by simp) (sums.sum8 data (by simpa [Operand.pieces] using fits))
  | u16 data =>
      exact takes_integer (by simp) (sums.sum16 data (by simpa [Operand.pieces] using fits))
  | u32 data =>
      have all := sums.sum32 data (by simpa [Operand.bytes] using fits)
      rw [Operand.bytes, Operand.pieces, List.flatten_singleton] at all
      exact takes_integer (by simp) all

/-- However a byte string is presented, its words are accumulated, unless an
empty buffer or fragment comes at an odd position. -/
theorem takeAll_iff (ops : List Operand)
    (short : (ops.flatMap Operand.pieces).flatten.length < 2 ^ 64) :
    (∃ c, Checksummer.fresh.takeAll ops = some c ∧
      Accumulates c (ops.flatMap Operand.pieces).flatten) ↔
    noEmptyAtOdd false (ops.flatMap Operand.pieces) = true := by
  have takes := takes_foldlM Operand.pieces takes_take ops Sums.fresh (by simpa using short)
  unfold takeAll
  cases result : ops.foldlM take Checksummer.fresh with
  | none =>
      rw [result] at takes
      have fails : noEmptyAtOdd false (ops.flatMap Operand.pieces) = false := takes
      simp [fails]
  | some c =>
      rw [result] at takes
      obtain ⟨fine, sums⟩ := takes
      exact ⟨fun _ => fine, fun _ => ⟨c, rfl, sums.toAccumulates⟩⟩

/-- A buffer, an integer and a packet whose fragments begin at an odd position. -/
theorem takeAll_mixed :
    ∃ c, Checksummer.fresh.takeAll
        [.buffer [0x45, 0x00, 0x54], .u16 0x1234, .packet [[0xab], [], [0x01, 0x02, 0x03]]] = some c ∧
      Accumulates c [0x45, 0x00, 0x54, 0x12, 0x34, 0xab, 0x01, 0x02, 0x03] :=
  (takeAll_iff
    [.buffer [0x45, 0x00, 0x54], .u16 0x1234, .packet [[0xab], [], [0x01, 0x02, 0x03]]]
    (by decide)).mpr (by decide)

/-- A packet with a fragment of one byte and an empty one behind it. -/
theorem takeAll_empty : ¬∃ c, Checksummer.fresh.takeAll [.packet [[0xab], []]] = some c ∧
    Accumulates c [0xab] := by
  rintro ⟨c, run, -⟩
  have none : Checksummer.fresh.takeAll [.packet [[0xab], []]] = none := by decide
  rw [none] at run
  cases run

end Checksummer

end ActorNet.Net
