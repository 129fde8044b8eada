import Mathlib.Data.Nat.Basic
import Mathlib.Tactic.Ring

/-!
# Byte strings and the integers they spell

A byte is eight bits; an integer of `n` bytes is read from a byte string and
written to one, in either byte order. Both orders are the same function up to
`List.reverse`, so only the little-endian direction carries proofs.
-/

namespace ActorNet.Lib

/-- One octet. -/
abbrev Byte := BitVec 8

instance lawfulBEq_bytes : LawfulBEq (List Byte) := inferInstance

/-- The number a byte string spells, least significant byte first. -/
def ofBytesLE : List Byte → Nat
  | [] => 0
  | b :: bs => b.toNat + 256 * ofBytesLE bs

/-- The `n` low bytes of a number, least significant first. -/
def toBytesLE : Nat → Nat → List Byte
  | 0, _ => []
  | n + 1, x => BitVec.ofNat 8 x :: toBytesLE n (x / 256)

/-- The number a byte string spells, most significant byte first. -/
def ofBytesBE (bs : List Byte) : Nat := ofBytesLE bs.reverse

/-- The `n` low bytes of a number, most significant first. -/
def toBytesBE (n x : Nat) : List Byte := (toBytesLE n x).reverse

@[simp] theorem length_toBytesLE (n x : Nat) : (toBytesLE n x).length = n := by
  induction n generalizing x with
  | zero => rfl
  | succ n ih => simp [toBytesLE, ih]

@[simp] theorem length_toBytesBE (n x : Nat) : (toBytesBE n x).length = n := by
  simp [toBytesBE]

theorem ofBytesLE_lt {bs : List Byte} {n : Nat} (length : bs.length = n) :
    ofBytesLE bs < 2 ^ (8 * n) := by
  subst length
  induction bs with
  | nil => simp [ofBytesLE]
  | cons b bs ih =>
      have low : b.toNat < 256 := b.isLt
      simp only [ofBytesLE, List.length_cons, Nat.mul_add, pow_add]
      omega

/-- Writing `n` bytes of a number and reading them back keeps its low bytes. -/
theorem ofBytesLE_toBytesLE (n x : Nat) : ofBytesLE (toBytesLE n x) = x % 256 ^ n := by
  induction n generalizing x with
  | zero => simp [toBytesLE, ofBytesLE, Nat.mod_one]
  | succ n ih =>
      simp only [toBytesLE, ofBytesLE, ih, BitVec.toNat_ofNat]
      change x % 256 + 256 * (x / 256 % 256 ^ n) = x % 256 ^ (n + 1)
      rw [Nat.pow_succ, Nat.mul_comm (256 ^ n) 256, Nat.mod_mul]

/-- Reading a byte string as a number and writing it back changes nothing. -/
theorem toBytesLE_ofBytesLE (bs : List Byte) :
    toBytesLE bs.length (ofBytesLE bs) = bs := by
  induction bs with
  | nil => rfl
  | cons b bs ih =>
      have low : b.toNat < 256 := b.isLt
      have head : BitVec.ofNat 8 (b.toNat + 256 * ofBytesLE bs) = b := by
        apply BitVec.eq_of_toNat_eq
        simp only [BitVec.toNat_ofNat]
        omega
      have tail : (b.toNat + 256 * ofBytesLE bs) / 256 = ofBytesLE bs := by omega
      simp only [List.length_cons, ofBytesLE, toBytesLE, head, tail, ih]

theorem ofBytesLE_toBytesLE_of_lt {n x : Nat} (fits : x < 256 ^ n) :
    ofBytesLE (toBytesLE n x) = x := by
  rw [ofBytesLE_toBytesLE, Nat.mod_eq_of_lt fits]

theorem ofBytesBE_toBytesBE_of_lt {n x : Nat} (fits : x < 256 ^ n) :
    ofBytesBE (toBytesBE n x) = x := by
  rw [ofBytesBE, toBytesBE, List.reverse_reverse, ofBytesLE_toBytesLE_of_lt fits]

theorem toBytesBE_ofBytesBE (bs : List Byte) : toBytesBE bs.length (ofBytesBE bs) = bs := by
  rw [toBytesBE, ofBytesBE, ← List.length_reverse, toBytesLE_ofBytesLE, List.reverse_reverse]

/-- Reversing the bytes of an `n`-byte number: the conversion between host and
network order on a little-endian machine. -/
def swapBytes (n x : Nat) : Nat := ofBytesLE (toBytesLE n x).reverse

theorem ofBytesBE_lt {bs : List Byte} {n : Nat} (length : bs.length = n) :
    ofBytesBE bs < 2 ^ (8 * n) :=
  ofBytesLE_lt (by rw [List.length_reverse, length])

/-- Loading bytes in host order and swapping them reads the bytes in network
order. -/
theorem swapBytes_ofBytesLE (n : Nat) {bs : List Byte} (length : bs.length = n) :
    swapBytes n (ofBytesLE bs) = ofBytesBE bs := by
  rw [swapBytes, ← length, toBytesLE_ofBytesLE, ofBytesBE]

/-! ## Writing over a part -/

/-- The string with these bytes in the place of as many from an offset on. -/
def overwrite (s : List Byte) (at_ : Nat) (bytes : List Byte) : List Byte :=
  s.take at_ ++ bytes ++ s.drop (at_ + bytes.length)

theorem length_overwrite {s bytes : List Byte} {at_ : Nat} (inside : at_ + bytes.length ≤ s.length) :
    (overwrite s at_ bytes).length = s.length := by
  simp only [overwrite, List.length_append, List.length_take, List.length_drop]
  omega

@[simp] theorem overwrite_nil (s : List Byte) (at_ : Nat) : overwrite s at_ [] = s := by
  simp [overwrite]

/-- Up to the end of what was written. -/
theorem take_overwrite {s : List Byte} {at_ : Nat} (bytes : List Byte) (inside : at_ ≤ s.length) :
    (overwrite s at_ bytes).take (at_ + bytes.length) = s.take at_ ++ bytes := by
  apply List.take_left'
  rw [List.length_append, List.length_take, Nat.min_eq_left inside]

theorem drop_overwrite {s bytes : List Byte} {at_ : Nat} (inside : at_ ≤ s.length) (n : Nat) :
    (overwrite s at_ bytes).drop (at_ + bytes.length + n) = s.drop (at_ + bytes.length + n) := by
  have front : (s.take at_ ++ bytes).length = at_ + bytes.length := by
    rw [List.length_append, List.length_take, Nat.min_eq_left inside]
  rw [overwrite, ← front, List.drop_length_add_append, List.drop_drop]

/-- Two writes behind one another are one. -/
theorem overwrite_append {s bytes more : List Byte} {at_ : Nat} (inside : at_ ≤ s.length) :
    overwrite (overwrite s at_ bytes) (at_ + bytes.length) more =
      overwrite s at_ (bytes ++ more) := by
  rw [overwrite, take_overwrite bytes inside, drop_overwrite inside, overwrite, List.length_append,
    ← Nat.add_assoc, List.append_assoc, List.append_assoc, List.append_assoc, List.append_assoc]

/-- Writing into the middle one of three parts. -/
theorem overwrite_middle {front middle back bytes : List Byte} {at_ : Nat}
    (inside : at_ + bytes.length ≤ middle.length) :
    overwrite (front ++ (middle ++ back)) (front.length + at_) bytes =
      front ++ (overwrite middle at_ bytes ++ back) := by
  have before : (front ++ (middle ++ back)).take (front.length + at_) =
      front ++ middle.take at_ := by
    rw [List.take_length_add_append, List.take_append_of_le_length (by omega)]
  have behind : (front ++ (middle ++ back)).drop (front.length + at_ + bytes.length) =
      middle.drop (at_ + bytes.length) ++ back := by
    rw [Nat.add_assoc, List.drop_length_add_append, List.drop_append_of_le_length inside]
  rw [overwrite, overwrite, before, behind]
  simp only [List.append_assoc]

end ActorNet.Lib
