import Mathlib.Data.List.Count
import ActorNet.Lib.Bytes
import ActorNet.Lib.Guarded

/-!
# Packets

A `net::packet` is a list of fragments. The first may lie in the array `_data`
inside the packet itself, which is filled from its end so that headers can be
prepended without an allocation; `_headroom` is the room left in front of it.
All other fragments are memory of their own and are kept by value.
-/

namespace ActorNet.Net

open Lib

/-- `internal_data_size`. -/
def internalDataSize : Nat := 128 - 16

/-- `default_nr_frags`. -/
def defaultNrFrags : Nat := 4

/-- `fragment`: `size` bytes that start `base` bytes after `_data`, or memory
elsewhere. -/
inductive Fragment
  | inData (base : Int) (size : Nat)
  | outside (bytes : List Byte)
  deriving DecidableEq, Repr

namespace Fragment

def size : Fragment → Nat
  | inData _ size => size
  | outside bytes => bytes.length

/-- The bytes of a fragment of a packet with this `_data`. -/
def bytes (data : List Byte) : Fragment → List Byte
  | inData base size => (data.drop base.toNat).take size
  | outside bytes => bytes

/-- `base += n; size -= n`. -/
def trimFront (n : Nat) : Fragment → Fragment
  | inData base size => inData (base + n) (size - n)
  | outside bytes => outside (bytes.drop n)

/-- `size -= n`. -/
def trimBack (n : Nat) : Fragment → Fragment
  | inData base size => inData base (size - n)
  | outside bytes => outside (bytes.take (bytes.length - n))

/-- `{base + offset, fsize}`. -/
def slice (offset fsize : Nat) : Fragment → Fragment
  | inData base _ => inData (base + offset) fsize
  | outside bytes => outside ((bytes.drop offset).take fsize)

/-- `base -= n; size += n`, inside `_data`. -/
def extendFront (n : Nat) : Fragment → Fragment
  | inData base size => inData (base - n) (size + n)
  | outside bytes => outside bytes

end Fragment

/-- Why an operation does not complete: a failed assertion, the use of a packet
that was moved from, or an access outside the memory it is for. -/
inductive Fault
  | assertion
  | movedFrom
  | outOfBounds
  deriving DecidableEq, Repr

/-- `packet::impl`. `_nr_frags` is the length of `frags`. -/
structure Impl where
  len : Nat
  frags : List Fragment
  allocatedFrags : Nat
  data : List Byte
  headroom : Nat
  deriving DecidableEq, Repr

namespace Impl

/-- The bytes of a list of fragments. -/
def gather (data : List Byte) (frags : List Fragment) : List Byte :=
  frags.flatMap (Fragment.bytes data)

/-- The bytes of the packet. -/
def content (p : Impl) : List Byte := gather p.data p.frags

/-- Arithmetic on `_len`, an `unsigned`. -/
def unsigned (n : Nat) : Nat := n % 2 ^ 32

/-- The contents of a new `_data`, which nothing has written yet. -/
def newData : List Byte := List.replicate internalDataSize 0#8

/-- Writing to `_data` from an offset on. -/
def writeData (data : List Byte) (base : Int) (bytes : List Byte) :
    Except Fault (List Byte) :=
  if 0 ≤ base ∧ base + bytes.length ≤ internalDataSize then
    .ok (data.take base.toNat ++ bytes ++ data.drop (base.toNat + bytes.length))
  else .error .outOfBounds

/-- `impl::allocate`, whose `operator new` asserts that the number fits. -/
def allocate (nrFrags : Nat) : Except Fault Impl :=
  let nrFrags := max nrFrags defaultNrFrags
  if nrFrags < 2 ^ 16 then .ok ⟨0, [], nrFrags, newData, internalDataSize⟩
  else .error .assertion

/-- `using_internal_data`. -/
def usingInternalData (p : Impl) : Bool :=
  match p.frags with
  | .inData base _ :: _ => decide (0 ≤ base ∧ base < internalDataSize)
  | _ => false

/-- `unuse_internal_data`. -/
def unuseInternalData (p : Impl) : Impl :=
  if p.usingInternalData then
    match p.frags with
    | f :: rest => { p with
        frags := .outside (f.bytes p.data) :: rest
        headroom := internalDataSize }
    | [] => p
  else p

/-- `impl::copy` with `copy_internal_fragment_to`. -/
def copy (old : Impl) (nr : Nat) : Except Fault Impl := do
  let n ← allocate nr
  let n := { n with len := old.len, frags := old.frags, headroom := old.headroom }
  if old.usingInternalData then
    match old.frags with
    | f :: rest => do
        let data ← writeData n.data old.headroom (f.bytes old.data)
        .ok { n with data := data, frags := .inData old.headroom f.size :: rest }
    | [] => .ok n
  else .ok n

/-- `impl::allocate_if_needed`. -/
def allocateIfNeeded (old : Impl) (extraFrags : Nat) : Except Fault Impl :=
  if old.frags.length + extraFrags ≤ old.allocatedFrags then .ok old
  else old.copy (max (old.frags.length + extraFrags) (2 * old.frags.length))

/-! ## Construction -/

/-- `packet(fragment)`, which copies the bytes. -/
def ofBytes (bytes : List Byte) : Except Fault Impl :=
  if bytes.length ≤ internalDataSize then do
    let headroom := internalDataSize - bytes.length
    let data ← writeData newData headroom bytes
    .ok ⟨unsigned bytes.length, [.inData headroom bytes.length], defaultNrFrags, data, headroom⟩
  else .ok ⟨unsigned bytes.length, [.outside bytes], defaultNrFrags, newData, internalDataSize⟩

/-- `packet(std::vector<fragment>, deleter)`, which does not copy; a packet of
one fragment or of none is built the same way. -/
def ofFragments (frags : List (List Byte)) : Except Fault Impl := do
  let p ← allocate frags.length
  .ok { p with
    frags := frags.map .outside
    len := unsigned (frags.map List.length).sum }

/-- `packet(packet &&, fragment)` and its zero-copy siblings. -/
def appendFragment (x : Impl) (bytes : List Byte) : Except Fault Impl := do
  let x ← x.allocateIfNeeded 1
  .ok { x with len := unsigned (x.len + bytes.length), frags := x.frags ++ [.outside bytes] }

/-- `allocate_headroom`; `none` is `false`. -/
def allocateHeadroom (p : Impl) (size : Nat) : Except Fault (Option Impl) :=
  if size ≤ p.headroom then do
    let p := { p with len := unsigned (p.len + size) }
    let p ← if p.usingInternalData then .ok p else do
      let p ← p.allocateIfNeeded 1
      .ok { p with frags := .inData internalDataSize 0 :: p.frags }
    match p.frags with
    | f :: rest => .ok (some { p with
        headroom := p.headroom - size
        frags := f.extendFront size :: rest })
    | [] => .error .outOfBounds
  else .ok none

/-- Writing to `_frags[0].base`. -/
def writeFront (p : Impl) (bytes : List Byte) : Except Fault Impl :=
  match p.frags with
  | .inData base _ :: _ => do
      let data ← writeData p.data base bytes
      .ok { p with data := data }
  | .outside old :: rest =>
      if bytes.length ≤ old.length then
        .ok { p with frags := .outside (bytes ++ old.drop bytes.length) :: rest }
      else .error .outOfBounds
  | [] => .error .outOfBounds

/-- `packet(fragment, packet &&)`: prepend bytes, copying them. -/
def prepend (x : Impl) (bytes : List Byte) : Except Fault Impl := do
  match ← x.allocateHeadroom bytes.length with
  | some p => p.writeFront bytes
  | none => do
      let x ← x.unuseInternalData.allocateIfNeeded 1
      .ok { x with len := unsigned (x.len + bytes.length), frags := .outside bytes :: x.frags }

/-- `prepend_uninitialized_header`. -/
def prependUninitializedHeader (p : Impl) (size : Nat) : Except Fault Impl := do
  match ← p.allocateHeadroom size with
  | some p => .ok p
  | none => do
      let p := p.unuseInternalData
      match ← p.allocateHeadroom size with
      | some p => .ok p
      | none => do
          let p ← { p with len := unsigned (p.len + size) }.allocateIfNeeded 1
          .ok { p with frags := .outside (List.replicate size 0#8) :: p.frags }

/-- `prepend_header`, with the header its caller writes through the pointer. -/
def prependHeader (p : Impl) (header : List Byte) : Except Fault Impl := do
  let p ← p.prependUninitializedHeader header.length
  p.writeFront header

/-! ## The other operations -/

/-- `packet::append`. -/
def append (x p : Impl) : Except Fault Impl :=
  if x.len = 0 then .ok p
  else do
    let x ← x.allocateIfNeeded p.frags.length
    .ok { x with
      len := unsigned (x.len + p.len)
      frags := x.frags ++ p.unuseInternalData.frags }

/-- The loop that passes over whole fragments in `trim_front`, in `share`, and
from the last fragment backwards in `trim_back`: how much is left to go, and
the fragments not passed. -/
def skipFrags : Nat → List Fragment → Except Fault (Nat × List Fragment)
  | howMuch, f :: rest =>
      if howMuch ≠ 0 ∧ f.size ≤ howMuch then skipFrags (howMuch - f.size) rest
      else .ok (howMuch, f :: rest)
  | 0, [] => .ok (0, [])
  | _ + 1, [] => .error .outOfBounds

/-- `packet::trim_front`. -/
def trimFront (p : Impl) (howMuch : Nat) : Except Fault Impl :=
  if p.len < howMuch then .error .assertion
  else do
    let (howMuch', frags) ← skipFrags howMuch p.frags
    let p := { p with len := p.len - howMuch, frags := frags }
    let p := if p.usingInternalData then p else { p with headroom := internalDataSize }
    if howMuch' = 0 then .ok p
    else match p.frags with
      | f :: rest => .ok { p with
          headroom := if p.usingInternalData then p.headroom + howMuch' else p.headroom
          frags := f.trimFront howMuch' :: rest }
      | [] => .error .outOfBounds

/-- `packet::trim_back`. -/
def trimBack (p : Impl) (howMuch : Nat) : Except Fault Impl :=
  if p.len < howMuch then .error .assertion
  else do
    let (howMuch', back) ← skipFrags howMuch p.frags.reverse
    let p := { p with len := p.len - howMuch, frags := back.reverse }
    if howMuch' = 0 then .ok p
    else match back with
      | f :: rest =>
          let p := { p with frags := (f.trimBack howMuch' :: rest).reverse }
          .ok (if rest = [] ∧ p.usingInternalData then
            { p with headroom := p.headroom + howMuch' } else p)
      | [] => .error .outOfBounds

/-- The second loop of `share`: take fragments until `len` bytes are there. -/
def takeFrags : Nat → Nat → List Fragment → Except Fault (List Fragment)
  | _, 0, _ => .ok []
  | offset, len + 1, f :: rest => do
      let fsize := min (len + 1) (f.size - offset)
      let taken ← takeFrags 0 (len + 1 - fsize) rest
      .ok (f.slice offset fsize :: taken)
  | _, _ + 1, [] => .error .outOfBounds

/-- `packet::share(offset, len)`: the packet, no longer using its internal data,
and the new one. -/
def share (p : Impl) (offset len : Nat) : Except Fault (Impl × Impl) := do
  let p := p.unuseInternalData
  let n ← allocate 1
  let n ← n.allocateIfNeeded p.frags.length
  let (offset, frags) ← skipFrags offset p.frags
  let taken ← takeFrags offset len frags
  .ok (p, { n with frags := taken, len := unsigned (taken.map Fragment.size).sum })

/-- The loop of `linearize`: how many of the fragments make up `desiredSize`. -/
def countFrags : Nat → List Fragment → Except Fault Nat
  | 0, _ => .ok 0
  | _ + 1, [] => .error .outOfBounds
  | desired + 1, f :: rest => do
      let more ← countFrags (desired + 1 - f.size) rest
      .ok (more + 1)

/-- `packet::linearize(at_frag, desired_size)`. -/
def linearize (p : Impl) (atFrag desiredSize : Nat) : Except Fault Impl := do
  let p := p.unuseInternalData
  let nrFrags ← countFrags desiredSize (p.frags.drop atFrag)
  let newFrag := gather p.data ((p.frags.drop atFrag).take nrFrags)
  .ok { p with
    frags := p.frags.take atFrag ++ .outside newFrag :: p.frags.drop (atFrag + nrFrags) }

/-- The loop of `get_header`: the fragment an offset lies in and the offset
inside it. -/
def findFrag : Nat → List Fragment → Option (Nat × Nat)
  | _, [] => none
  | offset, f :: rest =>
      if f.size ≤ offset then (findFrag (offset - f.size) rest).map fun (i, o) => (i + 1, o)
      else some (0, offset)

/-- `packet::get_header`: the packet, and the `size` bytes the returned pointer
points to unless it is null. -/
def getHeader (p : Impl) (offset size : Nat) : Except Fault (Impl × Option (List Byte)) :=
  if p.len < offset + size then .ok (p, none)
  else match findFrag offset p.frags with
    | none => .ok (p, none)
    | some (i, o) => do
        let here := ((p.frags[i]?).map Fragment.size).getD 0
        let p ← if here < o + size then p.linearize i (o + size) else .ok p
        match p.frags[i]? with
        | some f =>
            if o + size ≤ f.size then .ok (p, some (((f.bytes p.data).drop o).take size))
            else .error .outOfBounds
        | none => .error .outOfBounds

end Impl

end ActorNet.Net
