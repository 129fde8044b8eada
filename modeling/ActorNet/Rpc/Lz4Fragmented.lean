import ActorNet.Lib.Fragments
import ActorNet.Rpc.Buffer

/-!
# The fragmented LZ4 compressor

A compressed message is a row of chunks, each behind a header of four bytes: an
intermediate chunk holds 32 KiB and its header the compressed size, the last
one has the top bit of the header set, the size of what it holds in the other
bits, and takes up the rest of the message. The LZ4 streams are a parameter.

Source and destination are both held in fragments. A step that reads or writes
past the end of one is `none`.
-/

namespace ActorNet.Rpc.Lz4Fragmented

open Lib

/-! ## The streaming codec -/

/-- `LZ4_COMPRESSBOUND`. -/
def compressBound (n : Nat) : Nat := if n > 0x7E000000 then 0 else n + n / 255 + 16

/-- `LZ4_compress_fast_continue` into a buffer of `LZ4_COMPRESSBOUND` bytes, and
`LZ4_decompress_safe_continue` with the size of its destination, `none` being a
negative result. A stream is the list of the chunks that went through it since
it was reset. -/
structure Lz4 where
  compressContinue : (stream : List (List Byte)) → (src : List Byte) → List Byte
  decompressContinue : (stream : List (List Byte)) → (src : List Byte) → (capacity : Nat) →
    Option (List Byte)

/-- What LZ4 promises: behind one history the two are inverse, and the bound on
the compressed size holds. -/
structure Lz4.Streaming (lz4 : Lz4) : Prop where
  inverse : ∀ stream chunk, chunk.length ≤ 0x7E000000 →
    lz4.decompressContinue stream (lz4.compressContinue stream chunk) chunk.length = some chunk
  bound : ∀ stream chunk, chunk.length ≤ 0x7E000000 →
    (lz4.compressContinue stream chunk).length ≤ compressBound chunk.length

/-! ## Buffers -/

/-- The variant in `snd_buf` and `rcv_buf`. -/
inductive Bufs where
  | vector (bufs : List (List Byte))
  | buffer (buf : List Byte)
  deriving DecidableEq, Repr

def Bufs.fragments : Bufs → List (List Byte)
  | .vector bufs => bufs
  | .buffer buf => [buf]

/-- What `snd_buf` and `rcv_buf` have in common. -/
structure Buf where
  size : BitVec 32
  bufs : Bufs
  deriving DecidableEq, Repr

def Buf.content (b : Buf) : List Byte := b.bufs.fragments.flatten

/-- The size is that of the buffers. -/
def Buf.Whole (b : Buf) : Prop := b.size.toNat = b.content.length

instance (b : Buf) : Decidable b.Whole :=
  inferInstanceAs (Decidable (b.size.toNat = b.content.length))

/-- The constructor from one `temporary_buffer`. -/
def Buf.ofBuffer (buf : List Byte) : Buf := ⟨BitVec.ofNat 32 buf.length, .buffer buf⟩

/-- The constructor from a vector and a size. -/
def Buf.ofVector (bufs : List (List Byte)) (size : Nat) : Buf :=
  ⟨BitVec.ofNat 32 size, .vector bufs⟩

/-- `dst_buffers` and `dst_offset`: the buffers that were trimmed, the size of the
last one, and what it holds before the offset. -/
structure Dest where
  trimmed : List (List Byte)
  size : Nat
  written : List Byte
  fits : written.length ≤ size

namespace Dest

/-- A new last buffer, of `fresh` bytes, when the old one has no room for `n`. -/
def reserve (d : Dest) (fresh n : Nat) : Dest :=
  if d.written.length + n > d.size then ⟨d.trimmed ++ [d.written], fresh, [], Nat.zero_le _⟩
  else d

def put (d : Dest) (bytes : List Byte) : Option Dest :=
  if fits : (d.written ++ bytes).length ≤ d.size then
    some ⟨d.trimmed, d.size, d.written ++ bytes, fits⟩
  else none

/-- The buffers once the last one is trimmed. -/
def buffers (d : Dest) : List (List Byte) := d.trimmed ++ [d.written]

def content (d : Dest) : List Byte := d.buffers.flatten

/-- What both functions return in the end. -/
def finish (d : Dest) (total : Nat) : Buf :=
  match d.trimmed with
  | [] => .ofBuffer d.written
  | _ :: _ => .ofVector d.buffers total

end Dest

/-! ## Compression -/

def lastChunkFlag : BitVec 32 := 1#32 <<< 31

def chunkHeaderSize : Nat := 4

/-- `chunk_size`; the preferred size of a buffer is `Rpc.chunkSize`. -/
def chunkSize : Nat := 32 * 1024

def chunkCompressBound : Nat := compressBound chunkSize

def chunkMaximumCompressedSize : Nat := chunkCompressBound + chunkHeaderSize

/-- `advance_src`. -/
def advanceSrc (src : Cursor Byte) (n : Nat) : Cursor Byte :=
  if src.offset + n ≥ (src.pieces.headD []).length then src.next else src.skip n

/-- The loop of `maybe_linearize`. -/
def linearize : List (List Byte) → Nat → Nat → Option (List Byte × Cursor Byte)
  | pieces, offset, 0 => some ([], ⟨pieces, offset⟩)
  | [], _, _ + 1 => none
  | piece :: pieces, offset, left + 1 =>
      let thisSize := min (piece.length - offset) (left + 1)
      let copied := (piece.drop offset).take thisSize
      -- the end of a fragment is left behind at once
      if offset + thisSize ≥ piece.length then
        (linearize pieces 0 (left + 1 - thisSize)).map fun (bytes, src) => (copied ++ bytes, src)
      else some (copied, ⟨piece :: pieces, offset + thisSize⟩)

/-- `maybe_linearize`: the bytes at the pointer it returns. -/
def maybeLinearize (src : Cursor Byte) (size : Nat) : Option (List Byte × Cursor Byte) :=
  if (src.pieces.headD []).length - src.offset < size then linearize src.pieces src.offset size
  else some (src.here.take size, advanceSrc src chunkSize)

/-- The variables of the loop over the intermediate chunks. -/
structure Compressing where
  stream : List (List Byte)
  src : Cursor Byte
  srcLeft : Nat
  dst : Dest
  totalCompressedSize : Nat

section

variable (lz4 : Lz4)

/-- The body of that loop. -/
def compressChunk (s : Compressing) : Option Compressing := do
  let dst := s.dst.reserve Rpc.chunkSize chunkMaximumCompressedSize
  let (chunk, src) ← maybeLinearize s.src chunkSize
  let compressed := lz4.compressContinue s.stream chunk
  let dst ← dst.put (toBytesLE 4 compressed.length ++ compressed)
  some ⟨s.stream ++ [chunk], src, s.srcLeft - chunkSize, dst,
    s.totalCompressedSize + (compressed.length + chunkHeaderSize)⟩

theorem compressChunk_srcLeft {s s' : Compressing} (step : compressChunk lz4 s = some s') :
    s'.srcLeft = s.srcLeft - chunkSize := by
  simp only [compressChunk, Option.bind_eq_bind, Option.bind_eq_some_iff] at step
  obtain ⟨_, _, _, _, done⟩ := step
  cases done
  rfl

/-- The loop over the intermediate chunks. -/
def compressChunks (s : Compressing) : Option Compressing :=
  if _ : s.srcLeft > chunkSize then
    match _ : compressChunk lz4 s with
    | some s' => compressChunks s'
    | none => none
  else some s
termination_by s.srcLeft
decreasing_by
  rw [compressChunk_srcLeft lz4 ‹_›]
  exact Nat.sub_lt (by omega) (by decide)

/-- The last chunk, and the buffer that is returned. -/
def compressLast (headSpace : Nat) (s : Compressing) : Option Buf := do
  let lastChunkCompressBound := compressBound s.srcLeft
  let dst := s.dst.reserve Rpc.chunkSize (lastChunkCompressBound + chunkHeaderSize)
  let (chunk, _) ← maybeLinearize s.src s.srcLeft
  let compressed := lz4.compressContinue s.stream chunk
  let header := lastChunkFlag ||| BitVec.ofNat 32 s.srcLeft
  let dst ← dst.put (toBytesLE 4 header.toNat ++ compressed)
  some (dst.finish
    (s.totalCompressedSize + (compressed.length + chunkHeaderSize + headSpace)))

/-- `lz4_fragmented_compressor::compress`; the head space is left uninitialized. -/
def compress (uninit : Nat → Byte) (headSpace : Nat) (data : Buf) : Option Buf :=
  let space := (List.range headSpace).map uninit
  let sizeLeft := data.size.toNat
  match data.bufs.fragments with
  | [] => none
  | front :: rest =>
      let singleChunkSize := compressBound sizeLeft + headSpace + chunkHeaderSize
      if singleChunkSize ≤ chunkSize ∧ sizeLeft ≤ chunkSize ∧ front.length = sizeLeft then
        -- faster path for small messages
        let header := lastChunkFlag ||| BitVec.ofNat 32 sizeLeft
        some (.ofBuffer (space ++ toBytesLE 4 header.toNat ++ lz4.compressContinue [] front))
      else do
        let dst : Dest := ⟨[], max headSpace Rpc.chunkSize, space, by simp [space]⟩
        let s ← compressChunks lz4 ⟨[], .start (front :: rest), sizeLeft, dst, 0⟩
        compressLast lz4 headSpace s

end

/-! ## Decompression -/

/-- The loop of `copy_src`. -/
def copyLoop : List (List Byte) → Nat → Nat → Option (List Byte × Cursor Byte)
  | pieces, offset, 0 => some ([], ⟨pieces, offset⟩)
  | [], _, _ + 1 => none
  | piece :: pieces, offset, n + 1 =>
      let thisSize := min (n + 1) (piece.length - offset)
      let copied := (piece.drop offset).take thisSize
      -- the end of a fragment is left behind only when more is to be copied
      if thisSize = n + 1 then some (copied, ⟨piece :: pieces, offset + thisSize⟩)
      else (copyLoop pieces 0 (n + 1 - thisSize)).map fun (bytes, src) => (copied ++ bytes, src)

/-- `copy_src`: the bytes at the pointer it returns. -/
def copySrc (src : Cursor Byte) (n : Nat) : Option (List Byte × Cursor Byte) :=
  if (src.pieces.headD []).length - src.offset ≥ n then some (src.here.take n, src.skip n)
  else copyLoop src.pieces src.offset n

theorem copyLoop_reads (pieces : List (List Byte)) (offset n : Nat)
    {r : List Byte × Cursor Byte} (copied : copyLoop pieces offset n = some r) :
    (Cursor.mk pieces offset).Reads n r := by
  induction pieces generalizing offset n r with
  | nil =>
      cases n with
      | zero =>
          cases copied
          exact Cursor.Reads.none _
      | succ n => cases copied
  | cons piece pieces ih =>
      cases n with
      | zero =>
          cases copied
          exact Cursor.Reads.none _
      | succ n =>
          have here : (piece.drop offset).length = piece.length - offset := List.length_drop
          rw [copyLoop] at copied
          split at copied
          · rename_i all
            cases copied
            rw [all]
            apply Cursor.Reads.within
            show n + 1 ≤ (piece.drop offset).length
            omega
          · rename_i part
            obtain ⟨q, further, rfl⟩ := Option.map_eq_some_iff.mp copied
            have used : min (n + 1) (piece.length - offset) = (piece.drop offset).length := by
              omega
            have reads := ih 0 _ further
            rw [used] at reads ⊢
            rw [List.take_length]
            exact Cursor.Reads.across (by show (piece.drop offset).length ≤ _; omega) reads

theorem copySrc_reads {src : Cursor Byte} {n : Nat} {r : List Byte × Cursor Byte}
    (copied : copySrc src n = some r) : src.Reads n r := by
  unfold copySrc at copied
  split at copied
  · rename_i contiguous
    cases copied
    apply Cursor.Reads.within
    rw [Cursor.here, List.length_drop]
    exact contiguous
  · exact copyLoop_reads _ _ _ copied

/-- What a destination of a given size holds after decompression into it. -/
def filled (uninit : Nat → Byte) (size : Nat) (out : List Byte) : List Byte :=
  out ++ (List.range (size - out.length)).map uninit

/-- `buf_size`. -/
def bufSize : Nat := 64 * 1024

section

variable (lz4 : Lz4) (uninit : Nat → Byte)

/-- Decompress into what `get_dest` returns, a new buffer being made where the
last one has no room. -/
def decompressInto (stream : List (List Byte)) (src : List Byte) (size : Nat) (dst : Dest) :
    Option (List (List Byte) × Dest) := do
  let out ← lz4.decompressContinue stream src size
  let dst ← (dst.reserve bufSize size).put (filled uninit size out)
  some (stream ++ [out], dst)

/-- The loop over the chunks, from reading a header on. -/
def decompressChunks (stream : List (List Byte)) (src : Cursor Byte) (srcLeft : Nat)
    (dst : Dest) (totalSize : Nat) : Option Buf :=
  match _ : copySrc src chunkHeaderSize with
  | none => none
  | some (bytes, src₁) =>
      let header := BitVec.ofNat 32 (ofBytesLE bytes)
      let srcLeft := srcLeft - chunkHeaderSize
      if header &&& lastChunkFlag = 0 then
        match _ : copySrc src₁ header.toNat with
        | none => none
        | some (compressed, src₂) =>
            match decompressInto lz4 uninit stream compressed chunkSize dst with
            | none => none
            | some (stream, dst) =>
                decompressChunks stream src₂ (srcLeft - header.toNat) dst (totalSize + chunkSize)
      else do
        let size := (header &&& ~~~lastChunkFlag).toNat
        let (compressed, _) ← copySrc src₁ srcLeft
        let (_, dst) ← decompressInto lz4 uninit stream compressed size dst
        some (dst.finish (totalSize + size))
termination_by src.rest.length
decreasing_by
  have first := copySrc_reads ‹copySrc src _ = _›
  have second := copySrc_reads ‹copySrc src₁ _ = _›
  have enough := first.enough
  rw [second.length_behind, first.length_behind]
  simp only [chunkHeaderSize] at enough ⊢
  omega

/-- `lz4_fragmented_compressor::decompress`; `none` is an exception. -/
def decompress (data : Buf) : Option Buf :=
  if data.size.toNat < 4 then some ⟨0#32, .vector []⟩
  else
    let chunks := decompressChunks lz4 uninit [] (.start data.bufs.fragments) data.size.toNat
      ⟨[], bufSize, [], Nat.zero_le _⟩ 0
    match data.bufs with
    | .buffer buf =>
        let header := BitVec.ofNat 32 (ofBytesLE (buf.take 4))
        if header &&& lastChunkFlag = 0 then chunks
        else
          -- faster path for small messages
          let size := (header &&& ~~~lastChunkFlag).toNat
          let src := (buf.drop chunkHeaderSize).take (data.size.toNat - chunkHeaderSize)
          (lz4.decompressContinue [] src size).map fun out => .ofBuffer (filled uninit size out)
    | .vector _ => chunks

end

end ActorNet.Rpc.Lz4Fragmented
