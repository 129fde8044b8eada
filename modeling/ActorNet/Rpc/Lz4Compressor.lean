import ActorNet.Lib.Failing
import ActorNet.Rpc.Lz4Fragmented

/-!
# The LZ4 compressor

A compressed message is the size of the message in four bytes and one LZ4 block.
The codec works on contiguous memory, so both directions go through two scratch
buffers of the thread: what comes in fragments is first copied into one of them,
and what may be longer than a chunk is written into the other one.

The memory is explicit. What an allocation contains, and whether it succeeds, is
up to a `Memory`; a block keeps the bytes that were written to it until it is
freed. An access outside of a block is a `fault`.
-/

namespace ActorNet.Rpc.Lz4Compressor

open Lib
open Lz4Fragmented (Buf Bufs compressBound)

/-! ## The codec -/

/-- A call of LZ4: whether it succeeded, and the bytes that it wrote from the start
of its destination on. -/
structure Coded where
  ok : Bool
  written : List Byte
  deriving DecidableEq, Repr

/-- `LZ4_compress_default` and `LZ4_decompress_safe`, with the sizes as the `int`
they are. -/
structure Codec where
  compressDefault : (src : List Byte) → (srcSize dstCapacity : Int) → Coded
  decompressSafe : (src : List Byte) → (compressedSize dstCapacity : Int) → Coded

/-- Nothing is written behind the capacity, and a negative one is an error. -/
structure Codec.Contained (lz4 : Codec) : Prop where
  compress : ∀ src n capacity,
    (lz4.compressDefault src n capacity).written.length ≤ capacity.toNat
  decompress : ∀ src n capacity,
    (lz4.decompressSafe src n capacity).written.length ≤ capacity.toNat
  nonnegative : ∀ src n capacity, (lz4.decompressSafe src n capacity).ok → 0 ≤ capacity

/-- A message compressed into room for `LZ4_compressBound` bytes is decompressed
again. -/
structure Codec.Inverse (lz4 : Codec) : Prop extends lz4.Contained where
  undone : ∀ message : List Byte, 1 ≤ message.length → message.length ≤ 0x7E000000 →
    ∃ block, block ≠ [] ∧
      lz4.compressDefault message message.length (compressBound message.length) = ⟨true, block⟩ ∧
      lz4.decompressSafe block block.length message.length = ⟨true, message⟩

/-! ## Memory -/

/-- Where a pointer points: into a buffer of the caller, or into a block that was
allocated here. -/
inductive Base where
  | null
  | caller
  | block (id : Nat)
  deriving DecidableEq, Repr

/-- An area given to the codec. -/
structure Area where
  base : Base
  offset : Nat
  length : Nat
  deriving DecidableEq, Repr

def Area.Overlap (a b : Area) : Prop :=
  a.base = b.base ∧ a.base ≠ .null ∧ a.offset < b.offset + b.length ∧ b.offset < a.offset + a.length

/-- The areas of one call. -/
structure CodecCall where
  src : Area
  dst : Area
  deriving DecidableEq, Repr

/-- The allocations of one call in their order: what each contains, or `none` when
it throws. -/
abbrev Memory := Nat → Option (Nat → Byte)

/-- No allocation throws. -/
def Grants (mem : Memory) : Prop := ∀ k, (mem k).isSome

structure Block where
  id : Nat
  bytes : List Byte
  deriving DecidableEq, Repr

/-- `reusable_buffer`. -/
structure ReusableBuffer where
  data : Option Block
  size : Nat
  deriving DecidableEq, Repr

namespace ReusableBuffer

def empty : ReusableBuffer := ⟨none, 0⟩

def base (b : ReusableBuffer) : Base :=
  match b.data with
  | none => .null
  | some block => .block block.id

/-- The bytes at `_data`; there is none at a null pointer. -/
def bytes (b : ReusableBuffer) : List Byte :=
  match b.data with
  | none => []
  | some block => block.bytes

def withBytes (b : ReusableBuffer) (bytes : List Byte) : ReusableBuffer :=
  { b with data := b.data.map fun block => { block with bytes } }

end ReusableBuffer

/-- The two buffers. -/
inductive Scratch where
  | compressed
  | decompressed
  deriving DecidableEq, Repr

/-- The state of a thread; `heap` counts the allocations, `calls` are those of the
codec. -/
structure Thread where
  compressedData : ReusableBuffer
  decompressedData : ReusableBuffer
  bufferUseCount : Nat
  heap : Nat
  calls : List CodecCall
  deriving DecidableEq, Repr

namespace Thread

def start : Thread := ⟨.empty, .empty, 0, 0, []⟩

def buffer (t : Thread) : Scratch → ReusableBuffer
  | .compressed => t.compressedData
  | .decompressed => t.decompressedData

def setBuffer (t : Thread) (which : Scratch) (b : ReusableBuffer) : Thread :=
  match which with
  | .compressed => { t with compressedData := b }
  | .decompressed => { t with decompressedData := b }

/-- The bytes at `_data` are overwritten. -/
def write (t : Thread) (which : Scratch) (bytes : List Byte) : Thread :=
  t.setBuffer which ((t.buffer which).withBytes bytes)

variable (t : Thread) (which : Scratch) (b : ReusableBuffer)

@[simp] theorem buffer_setBuffer : (t.setBuffer which b).buffer which = b := by
  cases which <;> rfl

theorem buffer_setBuffer_of_ne {other : Scratch} (ne : other ≠ which) :
    (t.setBuffer which b).buffer other = t.buffer other := by
  cases which <;> cases other <;> first | rfl | exact absurd rfl ne

theorem buffer_heap (heap : Nat) : { t with heap := heap : Thread }.buffer which = t.buffer which := by
  cases which <;> rfl

@[simp] theorem heap_setBuffer : (t.setBuffer which b).heap = t.heap := by cases which <;> rfl

end Thread

/-- How a call ends other than by returning. -/
inductive Stop where
  | badAlloc
  | runtimeError (what : String)
  | fault
  deriving DecidableEq, Repr

abbrev Run := Failing Thread Stop

section

variable (mem : Memory)

def alloc (n : Nat) : Run Block := fun t =>
  match mem t.heap with
  | some uninit => (.ok ⟨t.heap, (List.range n).map uninit⟩, { t with heap := t.heap + 1 })
  | none => (.error .badAlloc, t)

end

def load (src : List Byte) (at_ n : Nat) : Except Stop (List Byte) :=
  if at_ + n ≤ src.length then .ok ((src.drop at_).take n) else .error .fault

def store (dst : List Byte) (at_ : Nat) (bytes : List Byte) : Except Stop (List Byte) :=
  if at_ + bytes.length ≤ dst.length then .ok (overwrite dst at_ bytes) else .error .fault

/-! ## The reusable buffers -/

/-- The loop of `prepare`, `at_` being where `dst` points. -/
def copyFragments (dst : List Byte) (at_ : Nat) : List (List Byte) → Except Stop (List Byte)
  | [] => .ok dst
  | fragment :: fragments =>
      match store dst at_ fragment with
      | .ok dst => copyFragments dst (at_ + fragment.length) fragments
      | .error e => .error e

section

variable (mem : Memory) (which : Scratch)

/-- `reserve`. -/
def reserve (n : Nat) : Run Unit := do
  let b ← .gets fun t => t.buffer which
  if b.size < n then
    -- what `new` throws leaves a null pointer and the old size behind
    .modify fun t => t.setBuffer which ⟨none, b.size⟩
    let block ← alloc mem n
    .modify fun t => t.setBuffer which ⟨some block, n⟩
  else pure ()

/-- `prepare`: the pointer that is returned and the bytes at it. -/
def prepare (input : Bufs) (size : Nat) : Run (Base × List Byte) :=
  match input with
  | .buffer single => pure (.caller, single)
  | .vector fragments => do
      reserve mem which size
      let b ← .gets fun t => t.buffer which
      let bytes ← .ofExcept (copyFragments b.bytes 0 fragments)
      .modify fun t => t.write which bytes
      pure (b.base, bytes)

/-- The loop of `with_reserved`. -/
def copyChunks (src : List Byte) (pos left : Nat) : Run (List (List Byte)) :=
  if _ : left = 0 then pure []
  else do
    let thisSize := min left chunkSize
    let _ ← alloc mem thisSize
    let chunk ← .ofExcept (load src pos thisSize)
    let buffers ← copyChunks src (pos + thisSize) (left - thisSize)
    pure (chunk :: buffers)
termination_by left
decreasing_by
  have positive : 0 < chunkSize := by decide
  omega

/-- `with_reserved`. The function gets a destination and gives back what that holds
afterwards, with the size it returns or what it throws. -/
def withReserved (maxSize : Nat)
    (fn : Base → List Byte → Run (List Byte × Except Stop Nat)) : Run Buf :=
  if maxSize ≤ chunkSize then do
    let dst ← alloc mem maxSize
    let (bytes, size) ← fn (.block dst.id) dst.bytes
    let dstSize ← .ofExcept size
    pure (.ofBuffer (bytes.take dstSize))
  else do
    reserve mem which maxSize
    let b ← .gets fun t => t.buffer which
    let (bytes, size) ← fn b.base b.bytes
    .modify fun t => t.write which bytes
    let dstSize ← .ofExcept size
    if dstSize ≤ chunkSize then do
      let _ ← alloc mem dstSize
      let dst ← .ofExcept (load bytes 0 dstSize)
      pure (.ofBuffer dst)
    else do
      let buffers ← copyChunks mem bytes 0 dstSize
      pure (.ofVector buffers dstSize)

end

/-- `drop_buffers_trigger`. -/
def dropBuffersTrigger : Nat := 100000

/-- `after_buffer_use`. -/
def Thread.afterBufferUse (t : Thread) : Thread :=
  if t.bufferUseCount = dropBuffersTrigger then
    { t with compressedData := .empty, decompressedData := .empty, bufferUseCount := 0 }
  else { t with bufferUseCount := t.bufferUseCount + 1 }

/-! ## Compression and decompression -/

/-- What a block holds after the codec wrote to an area of it. -/
def callCodec (src dst : Area) (room : List Byte) (coded : Coded) : Run (List Byte) := do
  .modify fun t => { t with calls := ⟨src, dst⟩ :: t.calls }
  -- the codec has to be given memory of that capacity
  if dst.offset + dst.length ≤ room.length then pure (overwrite room dst.offset coded.written)
  else .ofExcept (.error .fault)

section

variable (lz4 : Codec) (mem : Memory)

/-- `lz4_compressor::compress`. -/
def compress (headSpace : BitVec 64) (data : Buf) : Run Buf := do
  let headSpace := headSpace + 4#64
  let dstSize := headSpace + BitVec.ofNat 64 (compressBound data.size.toNat)
  let dst ← withReserved mem .compressed dstSize.toNat fun base dst => do
    let srcSize := data.size
    let (srcBase, src) ← prepare mem .decompressed data.bufs data.size.toNat
    let capacity := compressBound srcSize.toNat
    let src ← .ofExcept (load src 0 srcSize.toInt.toNat)
    let coded := lz4.compressDefault src srcSize.toInt capacity
    let dst ← callCodec ⟨srcBase, 0, srcSize.toInt.toNat⟩ ⟨base, headSpace.toNat, capacity⟩
      dst coded
    -- LZ4 returns zero when it fails
    if coded.ok = false ∨ coded.written = [] then
      pure (dst, .error (.runtimeError "RPC frame LZ4 compression failure"))
    else do
      let dst ← .ofExcept (store dst (headSpace - 4#64).toNat (toBytesLE 4 srcSize.toNat))
      pure (dst, .ok (coded.written.length + headSpace.toNat))
  .modify Thread.afterBufferUse
  pure dst

/-- `lz4_compressor::decompress`. -/
def decompress (data : Buf) : Run Buf :=
  if data.size.toNat < 4 then pure ⟨0#32, .vector []⟩
  else do
    let (srcBase, src) ← prepare mem .decompressed data.bufs data.size.toNat
    let header ← .ofExcept (load src 0 4)
    let dstSize := BitVec.ofNat 32 (ofBytesLE header)
    if dstSize = 0#32 then
      .ofExcept (.error (.runtimeError
        "RPC frame LZ4 decompression failure: decompressed size cannot be zero"))
    else do
      let srcSize := data.size - 4#32
      let dst ← withReserved mem .compressed dstSize.toNat fun base dst => do
        let src ← .ofExcept (load src 4 srcSize.toInt.toNat)
        let coded := lz4.decompressSafe src srcSize.toInt dstSize.toInt
        let dst ← callCodec ⟨srcBase, 4, srcSize.toInt.toNat⟩ ⟨base, 0, dstSize.toInt.toNat⟩
          dst coded
        if coded.ok = false then
          pure (dst, .error (.runtimeError "RPC frame LZ4 decompression failure"))
        else pure (dst, .ok dstSize.toNat)
      .modify Thread.afterBufferUse
      pure dst

/-! ## Histories -/

inductive Call where
  | compress (headSpace : BitVec 64) (data : Buf)
  | decompress (data : Buf)
  deriving DecidableEq, Repr

def Call.data : Call → Buf
  | .compress _ data => data
  | .decompress data => data

def Call.run : Call → Run Buf
  | .compress headSpace data => Lz4Compressor.compress lz4 mem headSpace data
  | .decompress data => Lz4Compressor.decompress lz4 mem data

end

/-- The states of a thread between the calls: whatever a call returned or threw, as
long as it was no fault. The sizes of what it was given are right. -/
inductive Reached (lz4 : Codec) (heaps : Memory → Prop) : Thread → Prop
  | start : Reached lz4 heaps .start
  | call {t t' : Thread} {r : Except Stop Buf} {call : Call} {mem : Memory} :
      Reached lz4 heaps t → heaps mem → call.data.Whole → call.run lz4 mem t = (r, t') →
      r ≠ .error .fault → Reached lz4 heaps t'

end ActorNet.Rpc.Lz4Compressor
