import ActorNet.Lib.Bytes
import ActorNet.Lib.OnesComplement

/-!
# The Internet checksum

`checksummer` adds up the bytes it is given as big-endian 16-bit words, eight
bytes at a time, in a 128-bit accumulator, which keeps the residue of their sum
modulo `65535` (`sumAligned_adds`). `get` folds the carries, complements the
folded value and converts it to network order with the overload of `hton` for
the type of the operand, which at that point is 64 bits wide: the 16 bits it
returns are the top ones (`get_eq`).
-/

namespace ActorNet.Net

open Lib

/-! ## Byte order -/

/-- An operand in memory, least significant byte first: a little-endian host. -/
def load (w : Nat) (bs : List Byte) : BitVec w := BitVec.ofNat w (ofBytesLE bs)

def ntoh16 (x : BitVec 16) : BitVec 16 := BitVec.ofNat 16 (swapBytes 2 x.toNat)
def ntoh64 (x : BitVec 64) : BitVec 64 := BitVec.ofNat 64 (swapBytes 8 x.toNat)
def hton16 (x : BitVec 16) : BitVec 16 := ntoh16 x
def hton64 (x : BitVec 64) : BitVec 64 := ntoh64 x

/-! ## `checksummer` -/

/-- The accumulator and the parity of the bytes summed so far. -/
structure Checksummer where
  csum : BitVec 128
  odd : Bool
  deriving DecidableEq, Repr

namespace Checksummer

def fresh : Checksummer := ⟨0#128, false⟩

/-- The eight-byte loop of `sum(data, len)`; returns the bytes left over. -/
def sumWords64 (csum : BitVec 128) : List Byte → BitVec 128 × List Byte
  | b0 :: b1 :: b2 :: b3 :: b4 :: b5 :: b6 :: b7 :: data =>
      let p64 := load 64 [b0, b1, b2, b3, b4, b5, b6, b7]
      sumWords64 (csum + (ntoh64 p64).setWidth 128) data
  | data => (csum, data)

/-- The two-byte loop of `sum(data, len)`. -/
def sumWords16 (csum : BitVec 128) : List Byte → BitVec 128 × List Byte
  | b0 :: b1 :: data =>
      sumWords16 (csum + (ntoh16 (load 16 [b0, b1])).setWidth 128) data
  | data => (csum, data)

/-- The last byte, when there is one: `csum += *p8++ << 8`. -/
def sumLast (csum : BitVec 128) : List Byte → BitVec 128
  | b :: _ => csum + (b.setWidth 128 <<< 8)
  | [] => csum

/-- What `sum(data, len)` does once it stands at an even byte. -/
def sumAligned (csum : BitVec 128) (data : List Byte) : BitVec 128 :=
  let (csum, data) := sumWords64 csum data
  let (csum, data) := sumWords16 csum data
  sumLast csum data

/-- `sum(const char *data, size_t len)`. At odd parity the first byte is read
before the length is looked at; `none` is that read past an empty buffer. -/
def sum (c : Checksummer) (data : List Byte) : Option Checksummer :=
  let odd := c.odd ^^ (data.length % 2 == 1)
  if c.odd then
    match data with
    | [] => none
    | b :: data => some ⟨sumAligned (c.csum + b.setWidth 128) data, odd⟩
  else
    some ⟨sumAligned c.csum data, odd⟩

/-- `sum(uint8_t)`. -/
def sum8 (c : Checksummer) (data : BitVec 8) : Checksummer :=
  ⟨if c.odd then c.csum + data.setWidth 128 else c.csum + (data.setWidth 128 <<< 8), !c.odd⟩

/-- `sum(uint16_t)`. -/
def sum16 (c : Checksummer) (data : BitVec 16) : Checksummer :=
  if c.odd then
    (c.sum8 ((data >>> 8).setWidth 8)).sum8 (data.setWidth 8)
  else
    { c with csum := c.csum + data.setWidth 128 }

/-- `sum(uint32_t)`. -/
def sum32 (c : Checksummer) (data : BitVec 32) : Checksummer :=
  if c.odd then
    (c.sum16 (data.setWidth 16)).sum16 ((data >>> 16).setWidth 16)
  else
    { c with csum := c.csum + data.setWidth 128 }

/-- `sum(const packet &)`: every fragment in order. -/
def sumPacket (c : Checksummer) (fragments : List (List Byte)) : Option Checksummer :=
  fragments.foldlM sum c

/-- The value `get` arrives at after folding the carries, before it
complements it. -/
def folded (c : Checksummer) : BitVec 64 :=
  let mask := 0xffffffffffffffff#128
  let csum1 : BitVec 128 := (c.csum &&& mask) + c.csum.sshiftRight 64
  let csum : BitVec 64 := ((csum1 &&& mask) + csum1.sshiftRight 64).setWidth 64
  let csum := (csum &&& 0xffff#64) + ((csum >>> 16) &&& 0xffff#64) +
    ((csum >>> 32) &&& 0xffff#64) + (csum >>> 48)
  let csum := (csum &&& 0xffff#64) + (csum >>> 16)
  (csum &&& 0xffff#64) + (csum >>> 16)

/-- `get`: `return hton(~csum)`. The operand is a `uint64_t`, so overload
resolution takes the 64-bit `hton`; the return type then keeps 16 bits. -/
def get (c : Checksummer) : BitVec 16 := (hton64 (~~~ c.folded)).setWidth 16

end Checksummer

/-- `ip_checksum(data, len)`. -/
def ipChecksum (data : List Byte) : Option (BitVec 16) :=
  (Checksummer.fresh.sum data).map Checksummer.get

/-! ## Where the checksum is stored and checked -/

/-- A message with its 16-bit checksum field overwritten by an operand already
in network order, as `iph->csum = csum.get()` and `write_nbo_checksum` do. -/
def writeNboChecksum (message : List Byte) (field : Nat) (csum : BitVec 16) : List Byte :=
  message.take field ++ toBytesLE 2 csum.toNat ++ message.drop (field + 2)

/-- `ipv4_traits::tcp_pseudo_header_checksum`. -/
def tcpPseudoHeaderChecksum (csum : Checksummer) (src dst : BitVec 32) (len : BitVec 16) :
    Checksummer :=
  ((((csum.sum32 src).sum32 dst).sum8 0#8).sum8 6#8).sum16 len

/-- The check of `ipv4::handle_received_packet` on the 20 header bytes, taken
when the device does not offload it. -/
def ipv4ChecksumOk (iph : List Byte) : Option Bool :=
  (Checksummer.fresh.sum iph).map fun csum => csum.get == 0#16

/-- The check of `tcp::received` on a whole segment, header included. -/
def tcpChecksumOk (src dst : BitVec 32) (fragments : List (List Byte)) : Option Bool :=
  let len := BitVec.ofNat 16 (fragments.map List.length).sum
  ((tcpPseudoHeaderChecksum Checksummer.fresh src dst len).sumPacket fragments).map
    fun csum => csum.get == 0#16

/-! ## RFC 1071 -/

/-- The big-endian 16-bit words of a byte string; an odd last byte is the high
half of a word whose low half is zero. -/
def words16 : List Byte → List (BitVec 16)
  | hi :: lo :: bs => (hi ++ lo) :: words16 bs
  | [b] => [b ++ 0#8]
  | [] => []

/-- The checksum of RFC 1071: the complement of the one's-complement sum, as
the 16-bit operand whose bytes in memory are in network order. -/
def internetChecksum (bs : List Byte) : BitVec 16 := hton16 (~~~ onesSum (words16 bs))

/-! ## Adding up the words -/

namespace Checksummer

theorem toNat_ntoh64_load (b0 b1 b2 b3 b4 b5 b6 b7 : Byte) :
    (ntoh64 (load 64 [b0, b1, b2, b3, b4, b5, b6, b7])).toNat =
      ofBytesBE [b0, b1, b2, b3, b4, b5, b6, b7] := by
  have low : ofBytesLE [b0, b1, b2, b3, b4, b5, b6, b7] < 2 ^ 64 := ofBytesLE_lt rfl
  have high : ofBytesBE [b0, b1, b2, b3, b4, b5, b6, b7] < 2 ^ 64 := ofBytesBE_lt rfl
  rw [ntoh64, load, BitVec.toNat_ofNat, BitVec.toNat_ofNat, Nat.mod_eq_of_lt low,
    swapBytes_ofBytesLE 8 rfl, Nat.mod_eq_of_lt high]

theorem toNat_ntoh16_load (b0 b1 : Byte) :
    (ntoh16 (load 16 [b0, b1])).toNat = ofBytesBE [b0, b1] := by
  have low : ofBytesLE [b0, b1] < 2 ^ 16 := ofBytesLE_lt rfl
  have high : ofBytesBE [b0, b1] < 2 ^ 16 := ofBytesBE_lt rfl
  rw [ntoh16, load, BitVec.toNat_ofNat, BitVec.toNat_ofNat, Nat.mod_eq_of_lt low,
    swapBytes_ofBytesLE 2 rfl, Nat.mod_eq_of_lt high]

/-- The plain sum of the 16-bit words of a byte string. -/
def wordTotal (bs : List Byte) : Nat := ((words16 bs).map BitVec.toNat).sum

@[simp] theorem wordTotal_nil : wordTotal [] = 0 := rfl

@[simp] theorem wordTotal_single (b : Byte) : wordTotal [b] = 256 * b.toNat := by
  have bound : b.toNat < 2 ^ 8 := b.isLt
  simp only [wordTotal, words16, List.map_cons, List.map_nil, List.sum_cons, List.sum_nil]
  rw [BitVec.toNat_append, BitVec.toNat_ofNat, Nat.zero_mod, Nat.or_zero, Nat.shiftLeft_eq]
  omega

@[simp] theorem wordTotal_cons_cons (hi lo : Byte) (bs : List Byte) :
    wordTotal (hi :: lo :: bs) = 256 * hi.toNat + lo.toNat + wordTotal bs := by
  have low : lo.toNat < 2 ^ 8 := lo.isLt
  simp only [wordTotal, words16, List.map_cons, List.sum_cons, BitVec.toNat_append]
  rw [← Nat.shiftLeft_add_eq_or_of_lt low, Nat.shiftLeft_eq, Nat.mul_comm]

/-- An accumulator with the bytes still to be added to it. -/
abbrev Pending := BitVec 128 × List Byte

/-- What the accumulator and the words still to be added come to. -/
def total (p : Pending) : Nat := p.1.toNat + wordTotal p.2

/-- An upper bound on everything the accumulator can reach. -/
def reach (p : Pending) : Nat := p.1.toNat + 2 ^ 64 * p.2.length

/-- One stage of `sum`: it keeps the residue of the total and stays within reach. -/
structure Adds (p q : Pending) : Prop where
  residue : total q % 65535 = total p % 65535
  reach : reach q ≤ reach p

theorem Adds.refl (p : Pending) : Adds p p := ⟨rfl, Nat.le_refl _⟩

theorem Adds.trans {p q r : Pending} (first : Adds p q) (second : Adds q r) : Adds p r :=
  ⟨second.residue.trans first.residue, Nat.le_trans second.reach first.reach⟩

/-- Adding one operand whose value has the residue of the words it covers. -/
theorem Adds.operand {csum x : BitVec 128} {taken rest : List Byte}
    (fits : Checksummer.reach (csum, taken ++ rest) < 2 ^ 128) (small : x.toNat < 2 ^ 64)
    (nonempty : taken ≠ [])
    (split : wordTotal (taken ++ rest) = wordTotal taken + wordTotal rest)
    (residue : x.toNat % 65535 = wordTotal taken % 65535) :
    Adds (csum, taken ++ rest) (csum + x, rest) := by
  have one : 0 < taken.length := List.length_pos_iff.mpr nonempty
  simp only [Checksummer.reach, List.length_append] at fits
  have value : (csum + x).toNat = csum.toNat + x.toNat := by
    rw [BitVec.toNat_add, Nat.mod_eq_of_lt (by omega)]
  refine ⟨?_, ?_⟩
  · simp only [total, value, split]
    omega
  · simp only [Checksummer.reach, value, List.length_append]
    omega

theorem sumWords64_adds (csum : BitVec 128) (data : List Byte)
    (fits : reach (csum, data) < 2 ^ 128) :
    Adds (csum, data) (sumWords64 csum data) := by
  induction csum, data using sumWords64.induct with
  | case1 csum b0 b1 b2 b3 b4 b5 b6 b7 data p64 ih =>
      have value : ((ntoh64 p64).setWidth 128).toNat =
          ofBytesBE [b0, b1, b2, b3, b4, b5, b6, b7] := by
        rw [BitVec.toNat_setWidth_of_le (by decide), toNat_ntoh64_load]
      have high : ofBytesBE [b0, b1, b2, b3, b4, b5, b6, b7] < 2 ^ 64 := ofBytesBE_lt rfl
      have here : Adds (csum, [b0, b1, b2, b3, b4, b5, b6, b7] ++ data)
          (csum + (ntoh64 p64).setWidth 128, data) := by
        refine Adds.operand fits (by omega) (by simp) (by simp; omega) ?_
        rw [value]
        simp [ofBytesBE, ofBytesLE]
        omega
      rw [sumWords64]
      exact here.trans (ih (Nat.lt_of_le_of_lt here.reach fits))
  | case2 csum data short =>
      rw [sumWords64]
      · exact Adds.refl _
      · exact short

theorem sumWords16_adds (csum : BitVec 128) (data : List Byte)
    (fits : reach (csum, data) < 2 ^ 128) :
    Adds (csum, data) (sumWords16 csum data) := by
  induction csum, data using sumWords16.induct with
  | case1 csum b0 b1 data ih =>
      have value : ((ntoh16 (load 16 [b0, b1])).setWidth 128).toNat = ofBytesBE [b0, b1] := by
        rw [BitVec.toNat_setWidth_of_le (by decide), toNat_ntoh16_load]
      have high : ofBytesBE [b0, b1] < 2 ^ 16 := ofBytesBE_lt rfl
      have here : Adds (csum, [b0, b1] ++ data)
          (csum + (ntoh16 (load 16 [b0, b1])).setWidth 128, data) := by
        refine Adds.operand fits (by omega) (by simp) (by simp) ?_
        rw [value]
        simp [ofBytesBE, ofBytesLE]
        omega
      rw [sumWords16]
      exact here.trans (ih (Nat.lt_of_le_of_lt here.reach fits))
  | case2 csum data short =>
      rw [sumWords16]
      · exact Adds.refl _
      · exact short

/-- The two-byte loop leaves at most one byte. -/
theorem sumWords16_left (csum : BitVec 128) (data : List Byte) :
    (sumWords16 csum data).2 = [] ∨ ∃ b, (sumWords16 csum data).2 = [b] := by
  induction csum, data using sumWords16.induct with
  | case1 csum b0 b1 data ih =>
      rw [sumWords16]
      exact ih
  | case2 csum data short =>
      rw [sumWords16]
      · match data, short with
        | [], _ => exact Or.inl rfl
        | [b], _ => exact Or.inr ⟨b, rfl⟩
        | b0 :: b1 :: rest, short => exact absurd rfl (short b0 b1 rest)
      · exact short

/-- Summing a whole buffer from an even byte keeps the residue of its words. -/
theorem sumAligned_adds (csum : BitVec 128) (data : List Byte)
    (fits : reach (csum, data) < 2 ^ 128) :
    Adds (csum, data) (sumAligned csum data, []) := by
  have wide := sumWords64_adds csum data fits
  have narrow := sumWords16_adds (sumWords64 csum data).1 (sumWords64 csum data).2
    (Nat.lt_of_le_of_lt wide.reach fits)
  have both := wide.trans narrow
  have room := Nat.lt_of_le_of_lt both.reach fits
  unfold sumAligned
  simp only
  rcases sumWords16_left (sumWords64 csum data).1 (sumWords64 csum data).2 with none | ⟨b, one⟩
  · rw [none, sumLast, ← none]
    exact both
  · refine both.trans ?_
    have bound : b.toNat < 2 ^ 8 := b.isLt
    have value : (b.setWidth 128 <<< 8).toNat = 256 * b.toNat := by
      rw [BitVec.toNat_shiftLeft, BitVec.toNat_setWidth_of_le (by decide), Nat.shiftLeft_eq]
      omega
    generalize sumWords16 (sumWords64 csum data).1 (sumWords64 csum data).2 = p at one room ⊢
    obtain ⟨csum', left⟩ := p
    subst one
    refine @Adds.operand _ _ [b] [] room ?_ ?_ ?_ ?_ <;> simp [value]
    omega

/-- The words of a byte string are all zero exactly when its bytes are. -/
theorem wordTotal_eq_zero_iff (bs : List Byte) : wordTotal bs = 0 ↔ ∀ b ∈ bs, b = 0#8 := by
  have zero (b : Byte) : b = 0#8 ↔ b.toNat = 0 := by simp [← BitVec.toNat_inj]
  induction bs using words16.induct with
  | case1 hi lo bs ih =>
      simp only [wordTotal_cons_cons, List.mem_cons, forall_eq_or_imp, ← ih]
      rw [zero hi, zero lo]
      omega
  | case2 b => simp [zero]
  | case3 => simp

theorem onesSum_words16_eq_zero_iff (bs : List Byte) :
    onesSum (words16 bs) = 0#16 ↔ wordTotal bs = 0 := by
  rw [onesSum_eq_zero_iff, wordTotal]
  generalize words16 bs = ws
  have zero (w : BitVec 16) : w = 0#16 ↔ w.toNat = 0 := by simp [← BitVec.toNat_inj]
  induction ws with
  | nil => simp
  | cons w ws ih =>
      simp only [List.mem_cons, forall_eq_or_imp, List.map_cons, List.sum_cons, ih]
      rw [zero w]
      omega

/-! ### Folding the carries -/

/-- One carry fold of `get` on a 64-bit value. -/
theorem toNat_fold16 (x : BitVec 64) (small : x.toNat < 2 ^ 20) :
    ((x &&& 0xffff#64) + (x >>> 16)).toNat = x.toNat % 65536 + x.toNat / 65536 := by
  have low : (x &&& 0xffff#64).toNat = x.toNat % 65536 := by
    rw [BitVec.toNat_and]
    exact Nat.and_two_pow_sub_one_eq_mod x.toNat 16
  rw [BitVec.toNat_add, low, BitVec.toNat_ushiftRight, Nat.shiftRight_eq_div_pow]
  omega

/-- The fold of the four 16-bit quarters of a 64-bit value. -/
theorem toNat_fold64 (x : BitVec 64) :
    ((x &&& 0xffff#64) + ((x >>> 16) &&& 0xffff#64) + ((x >>> 32) &&& 0xffff#64) +
        (x >>> 48)).toNat =
      x.toNat % 65536 + x.toNat / 65536 % 65536 + x.toNat / 4294967296 % 65536 +
        x.toNat / 281474976710656 := by
  have low (y : BitVec 64) : (y &&& 0xffff#64).toNat = y.toNat % 65536 := by
    rw [BitVec.toNat_and]
    exact Nat.and_two_pow_sub_one_eq_mod y.toNat 16
  have bound := x.isLt
  simp only [BitVec.toNat_add, low, BitVec.toNat_ushiftRight, Nat.shiftRight_eq_div_pow,
    Nat.reducePow] at bound ⊢
  generalize x.toNat = n at bound ⊢
  have quarter3 : n / 281474976710656 < 65536 := by omega
  have quarter2 := Nat.mod_lt (n / 4294967296) (by decide : 0 < 65536)
  have quarter1 := Nat.mod_lt (n / 65536) (by decide : 0 < 65536)
  have quarter0 := Nat.mod_lt n (by decide : 0 < 65536)
  generalize n / 281474976710656 = q3 at *
  generalize n / 4294967296 % 65536 = q2 at *
  generalize n / 65536 % 65536 = q1 at *
  generalize n % 65536 = q0 at *
  omega

/-- Whatever was summed, the folded value fits in 16 bits. -/
theorem folded_lt (c : Checksummer) : c.folded.toNat < 65536 := by
  unfold folded
  simp only
  generalize BitVec.setWidth 64 _ = x
  have bound := x.isLt
  have first := toNat_fold64 x
  generalize (x &&& 0xffff#64) + ((x >>> 16) &&& 0xffff#64) + ((x >>> 32) &&& 0xffff#64) +
    (x >>> 48) = y at first ⊢
  have small : y.toNat < 262144 := by omega
  have second := toNat_fold16 y (by omega)
  have third := toNat_fold16 ((y &&& 0xffff#64) + (y >>> 16)) (by omega)
  omega

/-- The overload at work: the sixteen bits that survive the 64-bit conversion
are the top bits of `~csum`, and these are ones for every sum. -/
theorem get_eq (c : Checksummer) : c.get = 0xffff#16 := by
  have fits := folded_lt c
  have complement : (~~~ c.folded).toNat = 2 ^ 64 - 1 - c.folded.toNat := BitVec.toNat_not
  apply BitVec.eq_of_toNat_eq
  simp only [get, hton64, ntoh64, BitVec.toNat_setWidth, BitVec.toNat_ofNat, swapBytes,
    complement, toBytesLE, List.reverse_cons, List.reverse_nil, List.nil_append,
    List.cons_append, ofBytesLE]
  -- the two top bytes of the complement become the two low bytes of the result
  have top : (2 ^ 64 - 1 - c.folded.toNat) / 256 / 256 / 256 / 256 / 256 / 256 = 65535 := by
    omega
  rw [top]
  generalize (2 ^ 64 - 1 - c.folded.toNat) / 256 / 256 / 256 / 256 / 256 % 2 ^ 8 + _ = rest
  omega

end Checksummer

theorem internetChecksum_eq_iff (bs : List Byte) :
    internetChecksum bs = 0xffff#16 ↔ ∀ b ∈ bs, b = 0#8 := by
  rw [← Checksummer.wordTotal_eq_zero_iff, ← Checksummer.onesSum_words16_eq_zero_iff,
    internetChecksum, hton16, ntoh16]
  have bound := (onesSum (words16 bs)).isLt
  have complement : (~~~ onesSum (words16 bs)).toNat =
      2 ^ 16 - 1 - (onesSum (words16 bs)).toNat := BitVec.toNat_not
  simp only [← BitVec.toNat_inj, BitVec.toNat_ofNat, swapBytes, complement, toBytesLE,
    List.reverse_cons, List.reverse_nil, List.nil_append, List.cons_append, ofBytesLE]
  omega

/-- `get` is the RFC 1071 checksum exactly of the byte strings that are all
zero, and neither receive check ever accepts, in particular not a message
whose own checksum field was filled in with `get`. -/
theorem ipChecksum_eq_internetChecksum_iff (data message : List Byte) (field : Nat)
    (csum : BitVec 16) (src dst : BitVec 32) (fragments : List (List Byte)) :
    (ipChecksum data = some (internetChecksum data) ↔ ∀ b ∈ data, b = 0#8) ∧
    ipv4ChecksumOk (writeNboChecksum message field csum) ≠ some true ∧
    ipv4ChecksumOk message ≠ some true ∧
    tcpChecksumOk src dst fragments ≠ some true := by
  have rejected (message : List Byte) : ipv4ChecksumOk message ≠ some true := by
    simp [ipv4ChecksumOk, Checksummer.get_eq]
  refine ⟨?_, rejected _, rejected _, ?_⟩
  · rw [← internetChecksum_eq_iff]
    simp only [ipChecksum, Checksummer.sum, Checksummer.fresh, Bool.false_eq_true, if_false,
      Option.map_some, Option.some.injEq, Checksummer.get_eq]
    exact eq_comm
  · simp [tcpChecksumOk, Checksummer.get_eq]

/-- A well-formed header with the checksum a standard sender puts in it: its
words add up to all ones, and the receive check turns it down. -/
theorem ipv4ChecksumOk_rejects_header :
    ipChecksum [0x45#8, 0x00#8] = some 0xffff#16 ∧
    internetChecksum [0x45#8, 0x00#8] = 0xffba#16 ∧
    onesSum (words16 [0x45#8, 0x00#8, 0x00#8, 0x54#8, 0x00#8, 0x00#8, 0x00#8, 0x00#8, 0x40#8,
      0x01#8, 0xf9#8, 0x55#8, 0xc0#8, 0xa8#8, 0x00#8, 0x01#8, 0xc0#8, 0xa8#8, 0x00#8, 0x02#8]) =
        0xffff#16 ∧
    ipv4ChecksumOk [0x45#8, 0x00#8, 0x00#8, 0x54#8, 0x00#8, 0x00#8, 0x00#8, 0x00#8, 0x40#8,
      0x01#8, 0xf9#8, 0x55#8, 0xc0#8, 0xa8#8, 0x00#8, 0x01#8, 0xc0#8, 0xa8#8, 0x00#8, 0x02#8] =
        some false := by
  refine ⟨?_, ?_, ?_, ?_⟩ <;> decide +kernel

end ActorNet.Net
