import ActorNet.Rpc.Lz4RoundTrip
import Mathlib.Data.List.Forall2

/-!
# Decompression of what anybody may have sent

`decompressOrFault` is `decompress` with its outcomes told apart: an exception,
a read past the end of the input, a destination that is smaller than what the
decoder is told, or buffers, in which a byte that the decoder did not write is
`none`. `Fair` says of a string, without its buffers, that its chunks declare
what they hold; the outcome is safe just for these.
-/

namespace ActorNet.Rpc.Lz4Fragmented

open Lib

variable {lz4 : Lz4}

/-- The decoder writes into the destination it is given only. -/
structure Lz4.Contained (lz4 : Lz4) : Prop where
  within : ∀ stream src capacity out,
    lz4.decompressContinue stream src capacity = some out → out.length ≤ capacity

/-! ## Outcomes -/

/-- A byte of a destination, `none` as long as the decoder did not write it. -/
abbrev Cell := Option Byte

inductive Fault where
  | exception
  | overread
  | overrun
  deriving DecidableEq, Repr

/-- What the decoder leaves of a destination. -/
def cells (size : Nat) (out : List Byte) : List Cell :=
  out.map some ++ List.replicate (size - out.length) none

/-- `dst_buffers` and `dst_offset` again: the buffers that were trimmed, the size
of the last one, and its bytes before the offset. -/
structure Landing where
  trimmed : List (List Cell)
  size : Nat
  written : List Cell

namespace Landing

def empty : Landing := ⟨[], bufSize, []⟩

/-- `get_dest`, up to where the new offset is stored. -/
def getDest (d : Landing) (size : Nat) : Landing :=
  if d.size - d.written.length < size then ⟨d.trimmed ++ [d.written], bufSize, []⟩ else d

def buffers (d : Landing) : List (List Cell) := d.trimmed ++ [d.written]

end Landing

/-! ## Decompression -/

/-- `copy_src`. -/
def readSrc (src : Cursor Byte) (n : Nat) : Except Fault (List Byte × Cursor Byte) :=
  match copySrc src n with
  | some r => .ok r
  | none => .error .overread

section

variable (lz4 : Lz4)

/-- Decompress `declared` bytes into what `get_dest` returns. -/
def decodeInto (stream : List (List Byte)) (src : List Byte) (declared : Nat) (dst : Landing) :
    Except Fault (List (List Byte) × Landing) :=
  let dst := dst.getDest declared
  if dst.size - dst.written.length < declared then .error .overrun
  else
    match lz4.decompressContinue stream src declared with
    | none => .error .exception
    | some out =>
        .ok (stream ++ [out], { dst with written := dst.written ++ cells declared out })

/-- `read_header`. -/
def readHeader (src : Cursor Byte) : Except Fault (BitVec 32 × Cursor Byte) :=
  (readSrc src chunkHeaderSize).map fun (bytes, src) => (BitVec.ofNat 32 (ofBytesLE bytes), src)

theorem readSrc_reads {src : Cursor Byte} {n : Nat} {r : List Byte × Cursor Byte}
    (read : readSrc src n = .ok r) : src.Reads n r := by
  unfold readSrc at read
  split at read
  · rename_i found
    cases read
    exact copySrc_reads found
  · cases read

theorem readHeader_length {src : Cursor Byte} {r : BitVec 32 × Cursor Byte}
    (read : readHeader src = .ok r) : r.2.rest.length + 4 = src.rest.length := by
  unfold readHeader at read
  cases found : readSrc src chunkHeaderSize with
  | error fault =>
      rw [found] at read
      cases read
  | ok bytes =>
      rw [found] at read
      cases read
      have reads := readSrc_reads found
      have enough := reads.enough
      show bytes.2.rest.length + 4 = _
      rw [reads.length_behind]
      simp only [chunkHeaderSize] at enough ⊢
      omega

/-- The loop over the chunks, and what is returned in the end. -/
def chunksOrFault (stream : List (List Byte)) (src : Cursor Byte) (srcLeft : Nat)
    (dst : Landing) : Except Fault (List (List Cell)) :=
  match _ : readHeader src with
  | .error fault => .error fault
  | .ok (header, src₁) =>
      let srcLeft := srcLeft - chunkHeaderSize
      if header &&& lastChunkFlag = 0 then
        match _ : readSrc src₁ header.toNat with
        | .error fault => .error fault
        | .ok (compressed, src₂) =>
            match decodeInto lz4 stream compressed chunkSize dst with
            | .error fault => .error fault
            | .ok (stream, dst) => chunksOrFault stream src₂ (srcLeft - header.toNat) dst
      else do
        let size := (header &&& ~~~lastChunkFlag).toNat
        let (compressed, _) ← readSrc src₁ srcLeft
        let (_, dst) ← decodeInto lz4 stream compressed size dst
        .ok dst.buffers
termination_by src.rest.length
decreasing_by
  have first := readHeader_length ‹readHeader src = _›
  have second := readSrc_reads ‹readSrc src₁ _ = _›
  rw [second.length_behind]
  dsimp only at first ⊢
  omega

/-- `lz4_fragmented_compressor::decompress` with its outcomes told apart. -/
def decompressOrFault (data : Buf) : Except Fault (List (List Cell)) :=
  if data.size.toNat < 4 then .ok []
  else
    let chunks := chunksOrFault lz4 [] (.start data.bufs.fragments) data.size.toNat .empty
    match data.bufs with
    | .buffer buf =>
        let header := BitVec.ofNat 32 (ofBytesLE (buf.take 4))
        if header &&& lastChunkFlag = 0 then chunks
        else
          -- faster path for small messages
          let size := (header &&& ~~~lastChunkFlag).toNat
          let src := (buf.drop chunkHeaderSize).take (data.size.toNat - chunkHeaderSize)
          match lz4.decompressContinue [] src size with
          | none => .error .exception
          | some out => .ok [cells size out]
    | .vector _ => chunks

end

/-- It throws, or every byte it returns was written by the decoder. -/
def Safe : Except Fault (List (List Cell)) → Prop
  | .error fault => fault = .exception
  | .ok buffers => ∀ cell ∈ buffers.flatten, cell.isSome

/-! ## What a string declares -/

/-- The header a string begins with. -/
def headerOf (bytes : List Byte) : BitVec 32 := BitVec.ofNat 32 (ofBytesLE (bytes.take 4))

/-- The size in the header of a last chunk. -/
def declaredSize (bytes : List Byte) : Nat := (headerOf bytes &&& ~~~lastChunkFlag).toNat

/-- The decoder made 32 KiB of every chunk. -/
def Full (stream : List (List Byte)) : Prop := ∀ chunk ∈ stream, chunk.length = chunkSize

/-- Chunks that lie within the string, of which the last one fits into a
destination buffer, and that hold what they declare if the decoder takes them
all. `stream` is what it made of the chunks before. -/
inductive Fair (lz4 : Lz4) : (stream : List (List Byte)) → (bytes : List Byte) → Prop where
  | last {stream : List (List Byte)} {bytes : List Byte} (header : 4 ≤ bytes.length)
      (flag : headerOf bytes &&& lastChunkFlag ≠ 0) (fits : declaredSize bytes ≤ bufSize)
      (fills : ∀ out, lz4.decompressContinue stream (bytes.drop 4) (declaredSize bytes) = some out →
        Full stream ∧ out.length = declaredSize bytes) :
      Fair lz4 stream bytes
  | chunk {stream : List (List Byte)} {bytes : List Byte} (header : 4 ≤ bytes.length)
      (flag : headerOf bytes &&& lastChunkFlag = 0)
      (within : (headerOf bytes).toNat ≤ (bytes.drop 4).length)
      (further : ∀ out, lz4.decompressContinue stream
          ((bytes.drop 4).take (headerOf bytes).toNat) chunkSize = some out →
        Fair lz4 (stream ++ [out]) ((bytes.drop 4).drop (headerOf bytes).toNat)) :
      Fair lz4 stream bytes

/-- The condition on a message: a single chunk in a single buffer gets a
destination of the size it declares. -/
def Buf.Fair (lz4 : Lz4) (data : Buf) : Prop :=
  match data.bufs with
  | .buffer buf =>
      if headerOf buf &&& lastChunkFlag = 0 then Lz4Fragmented.Fair lz4 [] buf
      else ∀ out, lz4.decompressContinue [] (buf.drop 4) (declaredSize buf) = some out →
        out.length = declaredSize buf
  | .vector bufs => Lz4Fragmented.Fair lz4 [] bufs.flatten

/-! ## Destinations -/

/-- Every byte was written by the decoder. -/
def Written (buffers : List (List Cell)) : Prop := ∀ cell ∈ buffers.flatten, cell.isSome

theorem written_cells (size : Nat) (out : List Byte) :
    Written [cells size out] ↔ size ≤ out.length := by
  rw [Written, List.flatten_singleton, cells, List.forall_mem_append]
  constructor
  · rintro ⟨-, spare⟩
    by_contra short
    -- the cells behind the output are as they were allocated
    have unwritten : none ∈ List.replicate (size - out.length) (none : Cell) :=
      List.mem_replicate.mpr ⟨by omega, rfl⟩
    exact absurd (spare none unwritten) (by simp)
  · intro full
    refine ⟨?_, ?_⟩
    · intro cell written
      obtain ⟨byte, -, rfl⟩ := List.mem_map.mp written
      rfl
    · rw [Nat.sub_eq_zero_of_le full]
      simp

theorem length_cells {size : Nat} {out : List Byte} (within : out.length ≤ size) :
    (cells size out).length = size := by
  rw [cells, List.length_append, List.length_map, List.length_replicate]
  omega

/-- The destination as it is between two chunks; it is written all over just if
`good` holds. -/
structure Landing.Sound (d : Landing) (good : Prop) : Prop where
  size : d.size = bufSize
  fits : d.written.length ≤ d.size
  written : Written d.buffers ↔ good

theorem Landing.Sound.empty : Landing.empty.Sound (Full []) where
  size := rfl
  fits := Nat.zero_le _
  written := by simp [Written, Landing.buffers, Landing.empty, Full]

theorem Landing.Sound.getDest {d : Landing} {good : Prop} (sound : d.Sound good) {declared : Nat}
    (small : declared ≤ bufSize) :
    (d.getDest declared).Sound good ∧
      (d.getDest declared).written.length + declared ≤ (d.getDest declared).size := by
  unfold Landing.getDest
  split
  · refine ⟨⟨rfl, Nat.zero_le _, ?_⟩, by simpa using small⟩
    rw [← sound.written]
    simp [Written, Landing.buffers]
  · have fits := sound.fits
    exact ⟨sound, by omega⟩

theorem full_append (stream : List (List Byte)) (out : List Byte) :
    Full (stream ++ [out]) ↔ Full stream ∧ out.length = chunkSize := by
  rw [Full, List.forall_mem_append, List.forall_mem_singleton, Full]

section

variable {d : Landing} {good : Prop} {declared : Nat} {stream : List (List Byte)} {src : List Byte}

theorem decodeInto_overrun (sound : d.Sound good) (large : bufSize < declared) :
    decodeInto lz4 stream src declared d = .error .overrun := by
  have size := sound.size
  have short : d.size - d.written.length < declared := by omega
  unfold decodeInto Landing.getDest
  rw [if_pos short]
  exact if_pos (by simpa using large)

theorem decodeInto_rejected (sound : d.Sound good) (small : declared ≤ bufSize)
    (rejected : lz4.decompressContinue stream src declared = none) :
    decodeInto lz4 stream src declared d = .error .exception := by
  obtain ⟨-, room⟩ := sound.getDest small
  unfold decodeInto
  rw [rejected]
  exact if_neg (by omega)

theorem decodeInto_accepted (contained : lz4.Contained) (sound : d.Sound good)
    (small : declared ≤ bufSize) {out : List Byte}
    (accepted : lz4.decompressContinue stream src declared = some out) :
    ∃ d', decodeInto lz4 stream src declared d = .ok (stream ++ [out], d') ∧
      d'.Sound (good ∧ out.length = declared) := by
  obtain ⟨sound', room⟩ := sound.getDest small
  have within := contained.within stream src declared out accepted
  refine ⟨{ d.getDest declared with
    written := (d.getDest declared).written ++ cells declared out }, ?_, sound'.size, ?_, ?_⟩
  · unfold decodeInto
    rw [accepted]
    exact if_neg (by omega)
  · show ((d.getDest declared).written ++ cells declared out).length ≤ (d.getDest declared).size
    rw [List.length_append, length_cells within]
    exact room
  -- the new part is written all over if the decoder fills it
  · have split : Written ((d.getDest declared).trimmed ++
        [(d.getDest declared).written ++ cells declared out]) ↔
        Written (d.getDest declared).buffers ∧ Written [cells declared out] := by
      simp only [Written, Landing.buffers, List.flatten_append, List.flatten_singleton,
        List.forall_mem_append, and_assoc]
    have all : declared ≤ out.length ↔ out.length = declared := by omega
    show Written ((d.getDest declared).trimmed ++ _) ↔ _
    rw [split, sound'.written, written_cells, all]

end

/-! ## Reading -/

section

variable {src : Cursor Byte} {n : Nat}

theorem readSrc_within (enough : n ≤ src.rest.length) :
    ∃ src', readSrc src n = .ok (src.rest.take n, src') ∧ src'.rest = src.rest.drop n := by
  obtain ⟨src', copied, behind⟩ := copySrc_spec (List.take_append_drop n src.rest).symm
  rw [List.length_take, Nat.min_eq_left enough] at copied
  exact ⟨src', by rw [readSrc, copied], behind⟩

theorem readSrc_beyond (short : src.rest.length < n) : readSrc src n = .error .overread := by
  unfold readSrc
  split
  · rename_i found
    exact absurd (copySrc_reads found).enough (by omega)
  · rfl

theorem readHeader_within (enough : 4 ≤ src.rest.length) :
    ∃ src', readHeader src = .ok (headerOf src.rest, src') ∧ src'.rest = src.rest.drop 4 := by
  obtain ⟨src', read, behind⟩ := readSrc_within enough
  refine ⟨src', ?_, behind⟩
  rw [readHeader, chunkHeaderSize, read]
  rfl

theorem readHeader_beyond (short : src.rest.length < 4) :
    readHeader src = .error .overread := by
  rw [readHeader, chunkHeaderSize, readSrc_beyond short]
  rfl

end

/-! ## The loop -/

section

variable {stream : List (List Byte)} {src src₁ src₂ : Cursor Byte} {srcLeft : Nat}
  {dst : Landing} {header : BitVec 32} {fault : Fault}

theorem chunksOrFault_no_header (failed : readHeader src = .error fault) :
    chunksOrFault lz4 stream src srcLeft dst = .error fault := by
  rw [chunksOrFault]
  split
  · rename_i found
    rw [failed] at found
    cases found
    rfl
  · rename_i found
    rw [failed] at found
    cases found

theorem chunksOrFault_last (read : readHeader src = .ok (header, src₁))
    (flag : header &&& lastChunkFlag ≠ 0) {compressed : List Byte}
    (copied : readSrc src₁ (srcLeft - chunkHeaderSize) = .ok (compressed, src₂)) :
    chunksOrFault lz4 stream src srcLeft dst =
      (decodeInto lz4 stream compressed (header &&& ~~~lastChunkFlag).toNat dst).map
        fun r => r.2.buffers := by
  rw [chunksOrFault]
  split
  · rename_i found
    rw [read] at found
    cases found
  · rename_i found
    rw [read] at found
    cases found
    simp only [if_neg flag, copied]
    show (decodeInto lz4 stream compressed _ dst).bind _ = _
    cases decodeInto lz4 stream compressed (header &&& ~~~lastChunkFlag).toNat dst with
    | error fault => rfl
    | ok r => rfl

theorem chunksOrFault_last_beyond (read : readHeader src = .ok (header, src₁))
    (flag : header &&& lastChunkFlag ≠ 0)
    (failed : readSrc src₁ (srcLeft - chunkHeaderSize) = .error fault) :
    chunksOrFault lz4 stream src srcLeft dst = .error fault := by
  rw [chunksOrFault]
  split
  · rename_i found
    rw [read] at found
    cases found
  · rename_i found
    rw [read] at found
    cases found
    simp only [if_neg flag, failed]
    rfl

theorem chunksOrFault_beyond (read : readHeader src = .ok (header, src₁))
    (flag : header &&& lastChunkFlag = 0) (failed : readSrc src₁ header.toNat = .error fault) :
    chunksOrFault lz4 stream src srcLeft dst = .error fault := by
  rw [chunksOrFault]
  split
  · rename_i found
    rw [read] at found
    cases found
  · rename_i found
    rw [read] at found
    cases found
    simp only [if_pos flag]
    split
    · rename_i found
      rw [failed] at found
      cases found
      rfl
    · rename_i found
      rw [failed] at found
      cases found

theorem chunksOrFault_chunk {compressed : List Byte}
    (read : readHeader src = .ok (header, src₁)) (flag : header &&& lastChunkFlag = 0)
    (copied : readSrc src₁ header.toNat = .ok (compressed, src₂)) :
    chunksOrFault lz4 stream src srcLeft dst =
      match decodeInto lz4 stream compressed chunkSize dst with
      | .error fault => .error fault
      | .ok (stream, dst) =>
          chunksOrFault lz4 stream src₂ (srcLeft - chunkHeaderSize - header.toNat) dst := by
  rw [chunksOrFault]
  split
  · rename_i found
    rw [read] at found
    cases found
  · rename_i found
    rw [read] at found
    cases found
    simp only [if_pos flag]
    split
    · rename_i found
      rw [copied] at found
      cases found
    · rename_i found
      rw [copied] at found
      cases found
      rfl

end

/-! ## The outcomes are those of `decompress` -/

/-- A byte of a buffer behind what the decoder wrote of it. -/
def Shows (cell : Cell) (byte : Byte) : Prop := ∀ written ∈ cell, written = byte

theorem cells_shows (uninit : Nat → Byte) (size : Nat) (out : List Byte) :
    List.Forall₂ Shows (cells size out) (filled uninit size out) := by
  apply List.rel_append
  · rw [List.forall₂_map_left_iff, List.forall₂_same]
    intro byte _ written same
    cases same
    rfl
  · rw [List.forall₂_map_right_iff]
    apply List.forall₂_iff_get.mpr
    refine ⟨by simp, ?_⟩
    intro i _ _ written same
    simp at same

/-- The two destinations hold the same. -/
structure Landing.Mirrors (d : Landing) (e : Dest) : Prop where
  size : d.size = e.size
  trimmed : List.Forall₂ Shows d.trimmed.flatten e.trimmed.flatten
  written : List.Forall₂ Shows d.written e.written

namespace Landing.Mirrors

variable {d : Landing} {e : Dest}

theorem length (mirrors : d.Mirrors e) : d.written.length = e.written.length :=
  mirrors.written.length_eq

theorem getDest (mirrors : d.Mirrors e) (size : Nat) :
    (d.getDest size).Mirrors (e.reserve bufSize size) := by
  have same := mirrors.size
  have length := mirrors.length
  have fits := e.fits
  unfold Landing.getDest Dest.reserve
  by_cases room : d.size - d.written.length < size
  · rw [if_pos room, if_pos (by omega)]
    refine ⟨rfl, ?_, .nil⟩
    rw [List.flatten_append, List.flatten_append, List.flatten_singleton, List.flatten_singleton]
    exact List.rel_append mirrors.trimmed mirrors.written
  · rw [if_neg room, if_neg (by omega)]
    exact mirrors

theorem content (mirrors : d.Mirrors e) : List.Forall₂ Shows d.buffers.flatten e.content := by
  rw [Landing.buffers, Dest.content, Dest.buffers, List.flatten_append, List.flatten_append,
    List.flatten_singleton, List.flatten_singleton]
  exact List.rel_append mirrors.trimmed mirrors.written

end Landing.Mirrors

/-- Where the outcome is a fault there is no result; else the bytes that the
decoder wrote are those of the result. -/
def OutcomeOf (outcome : Except Fault (List (List Cell))) (result : Option Buf) : Prop :=
  match outcome with
  | .error _ => result = none
  | .ok buffers => ∃ b, result = some b ∧ List.Forall₂ Shows buffers.flatten b.content

theorem decodeInto_mirrors (contained : lz4.Contained) (uninit : Nat → Byte)
    (stream : List (List Byte)) (src : List Byte) (declared : Nat) {d : Landing} {e : Dest}
    (mirrors : d.Mirrors e) :
    match decodeInto lz4 stream src declared d with
    | .error _ => decompressInto lz4 uninit stream src declared e = none
    | .ok (stream', d') => ∃ e', decompressInto lz4 uninit stream src declared e =
        some (stream', e') ∧ d'.Mirrors e' := by
  have reserved := mirrors.getDest declared
  have size := reserved.size
  have length := reserved.length
  have fits := (e.reserve bufSize declared).fits
  unfold decodeInto decompressInto
  cases decoded : lz4.decompressContinue stream src declared with
  | none =>
      by_cases room : (d.getDest declared).size - (d.getDest declared).written.length < declared
      · rw [if_pos room]
        rfl
      · rw [if_neg room]
        rfl
  | some out =>
      have within := contained.within stream src declared out decoded
      have all : (filled uninit declared out).length = declared := by
        rw [← (cells_shows uninit declared out).length_eq, length_cells within]
      simp only [Option.bind_eq_bind, Option.bind_some, Dest.put]
      by_cases room : (d.getDest declared).size - (d.getDest declared).written.length < declared
      · rw [if_pos room, dif_neg]
        · rfl
        · rw [List.length_append, all]
          omega
      · rw [if_neg room, dif_pos]
        · exact ⟨_, rfl, size, reserved.trimmed,
            List.rel_append reserved.written (cells_shows uninit declared out)⟩
        · rw [List.length_append, all]
          omega

theorem chunksOrFault_outcome (contained : lz4.Contained) (uninit : Nat → Byte)
    (stream : List (List Byte)) (src : Cursor Byte) (srcLeft : Nat) {d : Landing} {e : Dest}
    (mirrors : d.Mirrors e) (total : Nat) :
    OutcomeOf (chunksOrFault lz4 stream src srcLeft d)
      (decompressChunks lz4 uninit stream src srcLeft e total) := by
  generalize length : src.rest.length = left
  induction left using Nat.strongRecOn generalizing stream src srcLeft d e total with
  | ind left ih =>
      rw [decompressChunks]
      split
      · rename_i failed
        have failed : readHeader src = .error .overread := by
          rw [readHeader, readSrc, failed]
          rfl
        rw [chunksOrFault_no_header failed]
        rfl
      · rename_i bytes src₁ found
        have read : readHeader src = .ok (BitVec.ofNat 32 (ofBytesLE bytes), src₁) := by
          rw [readHeader, readSrc, found]
          rfl
        have shorter := readHeader_length read
        generalize BitVec.ofNat 32 (ofBytesLE bytes) = header at read ⊢
        by_cases flag : header &&& lastChunkFlag = 0
        · simp only [if_pos flag]
          split
          · rename_i failed
            have failed : readSrc src₁ header.toNat = .error .overread := by
              rw [readSrc, failed]
            rw [chunksOrFault_beyond read flag failed]
            rfl
          · rename_i compressed src₂ found
            have copied : readSrc src₁ header.toNat = .ok (compressed, src₂) := by
              rw [readSrc, found]
            have behind := (readSrc_reads copied).length_behind
            have both := decodeInto_mirrors contained uninit stream compressed chunkSize mirrors
            rw [chunksOrFault_chunk read flag copied]
            cases into : decodeInto lz4 stream compressed chunkSize d with
            | error fault =>
                rw [into] at both
                rw [both]
                rfl
            | ok r =>
                rw [into] at both
                obtain ⟨e', into', mirrors'⟩ := both
                rw [into']
                dsimp only at shorter behind
                exact ih src₂.rest.length (by omega) r.1 src₂ _ mirrors' _ rfl
        · simp only [if_neg flag]
          cases found : copySrc src₁ (srcLeft - chunkHeaderSize) with
          | none =>
              have failed : readSrc src₁ (srcLeft - chunkHeaderSize) = .error .overread := by
                rw [readSrc, found]
              rw [chunksOrFault_last_beyond read flag failed]
              rfl
          | some r =>
              have copied : readSrc src₁ (srcLeft - chunkHeaderSize) = .ok r := by
                rw [readSrc, found]
              have both := decodeInto_mirrors contained uninit stream r.1
                (header &&& ~~~lastChunkFlag).toNat mirrors
              rw [chunksOrFault_last read flag copied]
              simp only [Option.bind_eq_bind, Option.bind_some]
              cases into : decodeInto lz4 stream r.1 (header &&& ~~~lastChunkFlag).toNat d with
              | error fault =>
                  rw [into] at both
                  rw [both]
                  rfl
              | ok s =>
                  rw [into] at both
                  obtain ⟨e', into', mirrors'⟩ := both
                  rw [into']
                  refine ⟨_, rfl, ?_⟩
                  rw [Dest.content_finish]
                  exact mirrors'.content

/-- `decompressOrFault` tells apart what `decompress` returns or not. -/
theorem decompressOrFault_outcome (contained : lz4.Contained) (uninit : Nat → Byte) (data : Buf) :
    OutcomeOf (decompressOrFault lz4 data) (decompress lz4 uninit data) := by
  have mirrors : Landing.empty.Mirrors ⟨[], bufSize, [], Nat.zero_le _⟩ := ⟨rfl, .nil, .nil⟩
  have chunks := chunksOrFault_outcome contained uninit [] (.start data.bufs.fragments)
    data.size.toNat mirrors 0
  unfold decompressOrFault decompress
  by_cases short : data.size.toNat < 4
  · rw [if_pos short, if_pos short]
    exact ⟨_, rfl, .nil⟩
  · rw [if_neg short, if_neg short]
    cases bufs : data.bufs with
    | vector pieces =>
        rw [bufs] at chunks
        exact chunks
    | buffer buf =>
        rw [bufs] at chunks
        dsimp only
        generalize BitVec.ofNat 32 (ofBytesLE (buf.take 4)) = header
        by_cases flag : header &&& lastChunkFlag = 0
        · rw [if_pos flag, if_pos flag]
          exact chunks
        · rw [if_neg flag, if_neg flag]
          cases lz4.decompressContinue [] ((buf.drop chunkHeaderSize).take
              (data.size.toNat - chunkHeaderSize)) (header &&& ~~~lastChunkFlag).toNat with
          | none => rfl
          | some out =>
              refine ⟨_, rfl, ?_⟩
              show List.Forall₂ Shows [cells _ out].flatten [filled uninit _ out].flatten
              rw [List.flatten_singleton, List.flatten_singleton]
              exact cells_shows uninit _ out

/-! ## When it is safe -/

/-- The loop over the chunks is safe just for a fair string, whatever buffers it
is in. -/
theorem chunksOrFault_safe (contained : lz4.Contained) (stream : List (List Byte))
    (src : Cursor Byte) (dst : Landing) (sound : dst.Sound (Full stream)) :
    Safe (chunksOrFault lz4 stream src src.rest.length dst) ↔ Fair lz4 stream src.rest := by
  generalize length : src.rest.length = left
  -- on the bytes that are left: each turn reads a header at least
  induction left using Nat.strongRecOn generalizing stream src dst with
  | ind left ih =>
      by_cases enough : 4 ≤ src.rest.length
      · obtain ⟨src₁, read, behind⟩ := readHeader_within enough
        have left₁ : left - chunkHeaderSize = src₁.rest.length := by
          rw [behind, List.length_drop, length, chunkHeaderSize]
        by_cases flag : headerOf src.rest &&& lastChunkFlag = 0
        · -- an intermediate chunk
          by_cases within : (headerOf src.rest).toNat ≤ src₁.rest.length
          · obtain ⟨src₂, copied, behind₂⟩ := readSrc_within within
            have small : chunkSize ≤ bufSize := by decide
            rw [chunksOrFault_chunk read flag copied, left₁]
            cases decoded : lz4.decompressContinue stream
                (src₁.rest.take (headerOf src.rest).toNat) chunkSize with
            | none =>
                rw [decodeInto_rejected sound small decoded]
                apply iff_of_true rfl
                refine .chunk enough flag (by rw [← behind]; exact within) ?_
                intro out accepted
                rw [← behind, decoded] at accepted
                cases accepted
            | some out =>
                obtain ⟨dst', into, sound'⟩ :=
                  decodeInto_accepted contained sound small decoded
                rw [← full_append] at sound'
                have left₂ : src₁.rest.length - (headerOf src.rest).toNat = src₂.rest.length := by
                  rw [behind₂, List.length_drop]
                have shorter : src₂.rest.length < left := by
                  rw [← left₂, ← left₁, chunkHeaderSize]
                  omega
                rw [into, left₂]
                show Safe (chunksOrFault lz4 (stream ++ [out]) src₂ src₂.rest.length dst') ↔ _
                rw [ih _ shorter (stream ++ [out]) src₂ dst' sound' rfl, behind₂, behind]
                constructor
                · intro further
                  refine .chunk enough flag (by rw [← behind]; exact within) ?_
                  intro out' accepted
                  rw [← behind, decoded] at accepted
                  cases accepted
                  exact further
                · intro fair
                  cases fair with
                  | last _ flag' => exact absurd flag flag'
                  | chunk _ _ _ further => exact further out (by rw [← behind]; exact decoded)
          · -- the chunk goes on behind the end
            rw [chunksOrFault_beyond read flag (readSrc_beyond (by omega))]
            apply iff_of_false (by intro faulty; cases faulty)
            intro fair
            cases fair with
            | last _ flag' => exact flag' flag
            | chunk _ _ within' =>
                rw [← behind] at within'
                exact within within'
        · -- the last one
          obtain ⟨src₂, copied, -⟩ := readSrc_within (Nat.le_refl src₁.rest.length)
          rw [List.take_length] at copied
          rw [← left₁] at copied
          rw [chunksOrFault_last read flag copied, behind, ← declaredSize]
          by_cases fits : declaredSize src.rest ≤ bufSize
          · cases decoded : lz4.decompressContinue stream (src.rest.drop 4)
                (declaredSize src.rest) with
            | none =>
                rw [decodeInto_rejected sound fits decoded]
                apply iff_of_true rfl
                refine .last enough flag fits ?_
                intro out accepted
                rw [decoded] at accepted
                cases accepted
            | some out =>
                obtain ⟨dst', into, sound'⟩ := decodeInto_accepted contained sound fits decoded
                rw [into]
                show Written dst'.buffers ↔ _
                rw [sound'.written]
                constructor
                · intro good
                  refine .last enough flag fits ?_
                  intro out' accepted
                  rw [decoded] at accepted
                  cases accepted
                  exact good
                · intro fair
                  cases fair with
                  | last _ _ _ fills => exact fills out decoded
                  | chunk _ flag' => exact absurd flag' flag
          · -- the declared size is no room that any destination has
            rw [decodeInto_overrun sound (by omega)]
            apply iff_of_false (by intro faulty; cases faulty)
            intro fair
            cases fair with
            | last _ _ fits' => exact fits fits'
            | chunk _ flag' => exact flag flag'
      · -- the header itself goes on behind the end
        rw [chunksOrFault_no_header (readHeader_beyond (by omega))]
        apply iff_of_false (by intro faulty; cases faulty)
        intro fair
        cases fair with
        | last header => exact enough header
        | chunk header => exact enough header

/-- The faster path, for one chunk. -/
theorem oneChunk_safe (contained : lz4.Contained) (block : List Byte) (size : Nat) :
    Safe (match lz4.decompressContinue [] block size with
      | none => .error .exception
      | some out => .ok [cells size out]) ↔
      ∀ out, lz4.decompressContinue [] block size = some out → out.length = size := by
  cases decoded : lz4.decompressContinue [] block size with
  | none =>
      apply iff_of_true rfl
      intro out accepted
      cases accepted
  | some out =>
      have within := contained.within [] block size out decoded
      show Written [cells size out] ↔ _
      rw [written_cells]
      constructor
      · intro full out' accepted
        cases accepted
        omega
      · intro fills
        exact Nat.le_of_eq (fills out rfl).symm

/-- A message of four bytes or more, in any buffers, either makes `decompress`
throw or is returned as the decoder wrote it, without a read past the end of the
input and with room for all that the decoder is told, just if it is fair. -/
theorem decompress_safe_iff (contained : lz4.Contained) (data : Buf) (whole : data.Whole)
    (long : 4 ≤ data.content.length) :
    Safe (decompressOrFault lz4 data) ↔ data.Fair lz4 := by
  have chunks : Safe (chunksOrFault lz4 [] (.start data.bufs.fragments) data.size.toNat .empty) ↔
      Fair lz4 [] data.content := by
    have safe := chunksOrFault_safe contained [] (.start data.bufs.fragments) .empty .empty
    rw [Cursor.rest_start] at safe
    rw [whole]
    exact safe
  unfold decompressOrFault Buf.Fair
  rw [if_neg (by rw [whole]; omega)]
  cases bufs : data.bufs with
  | vector pieces =>
      have content : data.content = pieces.flatten := by rw [Buf.content, bufs, Bufs.fragments]
      rw [content, bufs] at chunks
      exact chunks
  | buffer buf =>
      have content : data.content = buf := by
        rw [Buf.content, bufs, Bufs.fragments, List.flatten_singleton]
      rw [content, bufs] at chunks
      show Safe (if headerOf buf &&& lastChunkFlag = 0 then _ else _) ↔
        if headerOf buf &&& lastChunkFlag = 0 then Fair lz4 [] buf else _
      by_cases flag : headerOf buf &&& lastChunkFlag = 0
      · rw [if_pos flag, if_pos flag]
        exact chunks
      · have all : (buf.drop chunkHeaderSize).take (data.size.toNat - chunkHeaderSize) =
            buf.drop 4 := by
          apply List.take_of_length_le
          rw [whole, content, List.length_drop]
        rw [if_neg flag, if_neg flag]
        refine (oneChunk_safe contained _ (declaredSize buf)).trans ?_
        rw [all]

theorem literals_contained : literals.Contained where
  within := by
    intro stream src capacity out accepted
    cases src with
    | nil => cases accepted
    | cons token bytes =>
        simp only [literals] at accepted
        split at accepted
        · obtain ⟨⟨n, src⟩, -, taken⟩ := Option.bind_eq_some_iff.mp accepted
          simp only [Option.ite_none_right_eq_some] at taken
          obtain ⟨⟨-, fits⟩, same⟩ := taken
          cases same
          exact fits
        · simp only [Option.ite_none_right_eq_some] at accepted
          obtain ⟨⟨-, fits⟩, same⟩ := accepted
          cases same
          exact fits

/-- Three bytes as they are sent. -/
theorem decompress_safe_literals :
    Safe (decompressOrFault literals ⟨8#32, .buffer [3, 0, 0, 0x80, 0x30, 1, 2, 3]⟩) ↔
      (⟨8#32, .buffer [3, 0, 0, 0x80, 0x30, 1, 2, 3]⟩ : Buf).Fair literals :=
  decompress_safe_iff literals_contained _ (by decide) (by decide)

/-- A chunk of one byte behind the end, a last chunk that declares more than a
destination buffer holds, and an empty block that is declared as five bytes. -/
theorem hostile_unsafe :
    ¬ Safe (decompressOrFault literals ⟨4#32, .buffer [1, 0, 0, 0]⟩) ∧
      ¬ Safe (decompressOrFault literals ⟨5#32, .vector [[1, 0, 1, 0x80], [0]]⟩) ∧
      ¬ Safe (decompressOrFault literals ⟨5#32, .buffer [5, 0, 0, 0x80, 0]⟩) := by
  refine ⟨?_, ?_, ?_⟩
  · intro safe
    obtain ⟨src, read, behind⟩ := @readHeader_within (.start [[1, 0, 0, 0]]) (by decide)
    have beyond : readSrc src 1 = .error .overread := readSrc_beyond (by rw [behind]; decide)
    have run : decompressOrFault literals ⟨4#32, .buffer [1, 0, 0, 0]⟩ = .error .overread :=
      chunksOrFault_beyond read (by decide) beyond
    rw [run] at safe
    cases safe
  · intro safe
    obtain ⟨src, read, behind⟩ := @readHeader_within (.start [[1, 0, 1, 0x80], [0]]) (by decide)
    obtain ⟨src₂, copied, -⟩ := @readSrc_within src 1 (by rw [behind]; decide)
    have run : decompressOrFault literals ⟨5#32, .vector [[1, 0, 1, 0x80], [0]]⟩ =
        .error .overrun := by
      show chunksOrFault literals [] (.start [[1, 0, 1, 0x80], [0]]) 5 .empty = _
      rw [chunksOrFault_last read (by decide) copied, decodeInto_overrun .empty (by decide)]
      rfl
    rw [run] at safe
    cases safe
  · intro safe
    have unwritten := safe none (by decide)
    cases unwritten

end ActorNet.Rpc.Lz4Fragmented
