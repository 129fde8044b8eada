import ActorNet.Rpc.Lz4Fragmented

/-!
# What the fragmented compressor makes of a message is undone

`wire` is the compressed form of a message as one string, whatever fragments
the message came in. `compress` writes it behind the head space: while it runs,
what is written and the compressed form of what is left make up the whole.
`decompress` reads it back from any fragments: its loop follows the recursion
of `wire`.
-/

namespace ActorNet.Rpc.Lz4Fragmented

open Lib

variable {lz4 : Lz4} {uninit : Nat → Byte}

/-- The compressed form of a message behind what went through the stream. -/
def wire (lz4 : Lz4) (stream : List (List Byte)) (message : List Byte) : List Byte :=
  if message.length ≤ chunkSize then
    toBytesLE 4 (lastChunkFlag ||| BitVec.ofNat 32 message.length).toNat ++
      lz4.compressContinue stream message
  else
    toBytesLE 4 (lz4.compressContinue stream (message.take chunkSize)).length ++
      lz4.compressContinue stream (message.take chunkSize) ++
      wire lz4 (stream ++ [message.take chunkSize]) (message.drop chunkSize)
termination_by message.length
decreasing_by
  have positive : 0 < chunkSize := by decide
  rw [List.length_drop]
  omega

theorem wire_last (stream : List (List Byte)) {message : List Byte}
    (short : message.length ≤ chunkSize) :
    wire lz4 stream message =
      toBytesLE 4 (lastChunkFlag ||| BitVec.ofNat 32 message.length).toNat ++
        lz4.compressContinue stream message := by
  rw [wire, if_pos short]

theorem wire_chunk (stream : List (List Byte)) {message : List Byte}
    (long : ¬ message.length ≤ chunkSize) :
    wire lz4 stream message =
      toBytesLE 4 (lz4.compressContinue stream (message.take chunkSize)).length ++
        lz4.compressContinue stream (message.take chunkSize) ++
        wire lz4 (stream ++ [message.take chunkSize]) (message.drop chunkSize) := by
  rw [wire, if_neg long]

/-! ## Destination buffers -/

namespace Dest

variable {d : Dest} {fresh n : Nat} {bytes : List Byte}

@[simp] theorem content_reserve (d : Dest) (fresh n : Nat) :
    (d.reserve fresh n).content = d.content := by
  unfold reserve
  split
  · simp [content, buffers]
  · rfl

/-- Where room was made, as much can be written. -/
theorem put_reserve (roomy : n ≤ fresh) (small : bytes.length ≤ n) :
    ∃ d', (d.reserve fresh n).put bytes = some d' ∧ d'.content = d.content ++ bytes := by
  have room : ((d.reserve fresh n).written ++ bytes).length ≤ (d.reserve fresh n).size := by
    rw [List.length_append]
    unfold reserve
    split
    · show 0 + bytes.length ≤ fresh
      omega
    · omega
  refine ⟨_, dif_pos room, ?_⟩
  rw [← content_reserve d fresh n]
  simp [content, buffers]

@[simp] theorem content_finish (d : Dest) (total : Nat) : (d.finish total).content = d.content := by
  unfold finish content buffers
  cases d.trimmed with
  | nil => rfl
  | cons buf bufs => rfl

/-- The declared size, when the total is right. -/
theorem size_finish {total : Nat} (right : total = d.content.length) :
    (d.finish total).size = BitVec.ofNat 32 d.content.length := by
  subst right
  unfold finish content buffers
  cases d.trimmed with
  | nil => simp [Buf.ofBuffer]
  | cons buf bufs => rfl

end Dest

/-! ## Reading the source -/

theorem linearize_reads (pieces : List (List Byte)) (offset left : Nat)
    (enough : left ≤ (Cursor.mk pieces offset).rest.length) :
    ∃ r, linearize pieces offset left = some r ∧ (Cursor.mk pieces offset).Reads left r := by
  induction pieces generalizing offset left with
  | nil =>
      have none_left : left = 0 := by simpa [Cursor.rest, Cursor.here] using enough
      subst none_left
      exact ⟨_, rfl, Cursor.Reads.none _⟩
  | cons piece pieces ih =>
      cases left with
      | zero => exact ⟨_, rfl, Cursor.Reads.none _⟩
      | succ left =>
          have here : (piece.drop offset).length = piece.length - offset := List.length_drop
          rw [linearize]
          split
          · rename_i ends
            have used : min (piece.length - offset) (left + 1) = (piece.drop offset).length := by
              omega
            rw [Cursor.rest_eq, List.length_append] at enough
            change left + 1 ≤ (piece.drop offset).length + (Cursor.start pieces).rest.length
              at enough
            obtain ⟨r, copied, reads⟩ :=
              ih 0 (left + 1 - (piece.drop offset).length) (by
                show _ ≤ (Cursor.start pieces).rest.length
                omega)
            refine ⟨_, by rw [used, copied, List.take_length]; rfl, ?_⟩
            exact Cursor.Reads.across (by show (piece.drop offset).length ≤ _; omega) reads
          · rename_i within
            have all : min (piece.length - offset) (left + 1) = left + 1 := by omega
            refine ⟨_, rfl, ?_⟩
            rw [all]
            apply Cursor.Reads.within
            show left + 1 ≤ (piece.drop offset).length
            omega

/-- The pointer of `maybe_linearize`. Where the bytes lie in one fragment the
cursor moves on by a whole chunk, so it is right behind a whole chunk only. -/
theorem maybeLinearize_spec (src : Cursor Byte) {size : Nat} (enough : size ≤ src.rest.length)
    (positive : 0 < size) :
    ∃ src', maybeLinearize src size = some (src.rest.take size, src') ∧
      (size = chunkSize → src'.rest = src.rest.drop size) := by
  have here : src.here.length = (src.pieces.headD []).length - src.offset := List.length_drop
  unfold maybeLinearize
  by_cases scattered : (src.pieces.headD []).length - src.offset < size
  · obtain ⟨r, copied, reads⟩ := linearize_reads src.pieces src.offset size enough
    refine ⟨r.2, ?_, fun _ => reads.behind⟩
    rw [if_pos scattered, copied, ← reads.items]
  · have reads : src.Reads size _ := Cursor.Reads.within (by omega)
    refine ⟨advanceSrc src chunkSize, ?_, ?_⟩
    · rw [if_neg scattered, ← reads.items]
    · intro whole
      subst whole
      unfold advanceSrc
      split
      · rw [Cursor.rest_next]
        congr 1
        omega
      · exact reads.behind

theorem copyLoop_some (pieces : List (List Byte)) (offset n : Nat)
    (enough : n ≤ (Cursor.mk pieces offset).rest.length) :
    ∃ r, copyLoop pieces offset n = some r := by
  induction pieces generalizing offset n with
  | nil =>
      have none_left : n = 0 := by simpa [Cursor.rest, Cursor.here] using enough
      subst none_left
      exact ⟨_, rfl⟩
  | cons piece pieces ih =>
      cases n with
      | zero => exact ⟨_, rfl⟩
      | succ n =>
          have here : (piece.drop offset).length = piece.length - offset := List.length_drop
          rw [Cursor.rest_eq, List.length_append] at enough
          change n + 1 ≤ (piece.drop offset).length + (Cursor.start pieces).rest.length at enough
          rw [copyLoop]
          split
          · exact ⟨_, rfl⟩
          · obtain ⟨r, copied⟩ := ih 0 (n + 1 - min (n + 1) (piece.length - offset)) (by
              show _ ≤ (Cursor.start pieces).rest.length
              omega)
            exact ⟨_, by rw [copied]; rfl⟩

/-- `copy_src` finds what there is. -/
theorem copySrc_spec {src : Cursor Byte} {front back : List Byte} (rest : src.rest = front ++ back) :
    ∃ src', copySrc src front.length = some (front, src') ∧ src'.rest = back := by
  have enough : front.length ≤ src.rest.length := by rw [rest, List.length_append]; omega
  have found : ∃ r, copySrc src front.length = some r := by
    unfold copySrc
    split
    · exact ⟨_, rfl⟩
    · exact copyLoop_some _ _ _ enough
  obtain ⟨⟨bytes, src'⟩, copied⟩ := found
  have reads := copySrc_reads copied
  have items : bytes = front := reads.items.trans (by rw [rest, List.take_left])
  refine ⟨src', by rw [copied, items], ?_⟩
  rw [reads.behind, rest, List.drop_left]

/-! ## Headers -/

theorem lastChunkFlag_toNat : lastChunkFlag.toNat = 2 ^ 31 := by decide

theorem getLsbD_lastChunkFlag (i : Nat) : lastChunkFlag.getLsbD i = decide (i = 31) := by
  rw [BitVec.getLsbD, lastChunkFlag_toNat, Nat.testBit_two_pow]
  simp [eq_comm]

theorem getLsbD_ofNat_top {n : Nat} (small : n < 2 ^ 31) : (BitVec.ofNat 32 n).getLsbD 31 = false := by
  rw [BitVec.getLsbD, BitVec.toNat_ofNat, Nat.mod_eq_of_lt (by omega)]
  exact Nat.testBit_lt_two_pow small

/-- A size below 2 GiB does not look like the header of a last chunk. -/
theorem size_not_last {n : Nat} (small : n < 2 ^ 31) : BitVec.ofNat 32 n &&& lastChunkFlag = 0 := by
  apply BitVec.eq_of_getLsbD_eq
  intro i inside
  rw [BitVec.getLsbD_and, getLsbD_lastChunkFlag]
  by_cases top : i = 31
  · subst top
    rw [getLsbD_ofNat_top small]
    rfl
  · simp [top]

theorem last_is_last (x : BitVec 32) : (lastChunkFlag ||| x) &&& lastChunkFlag ≠ 0 := by
  intro zero
  have top : ((lastChunkFlag ||| x) &&& lastChunkFlag).getLsbD 31 = false := by
    rw [zero]
    rfl
  rw [BitVec.getLsbD_and, BitVec.getLsbD_or, getLsbD_lastChunkFlag] at top
  simp at top

/-- The size in the header of a last chunk. -/
theorem last_size {n : Nat} (small : n < 2 ^ 31) :
    (lastChunkFlag ||| BitVec.ofNat 32 n) &&& ~~~lastChunkFlag = BitVec.ofNat 32 n := by
  apply BitVec.eq_of_getLsbD_eq
  intro i inside
  rw [BitVec.getLsbD_and, BitVec.getLsbD_or, BitVec.getLsbD_not, getLsbD_lastChunkFlag]
  by_cases top : i = 31
  · subst top
    rw [getLsbD_ofNat_top small]
    rfl
  · simp [top, inside]

/-- A header is read as it was written. -/
theorem header_read (header : BitVec 32) :
    BitVec.ofNat 32 (ofBytesLE (toBytesLE 4 header.toNat)) = header := by
  rw [ofBytesLE_toBytesLE_of_lt header.isLt, BitVec.ofNat_toNat, BitVec.setWidth_eq]

/-! ## Compression -/

/-- The bound on a chunk of at most 32 KiB is one on 32 KiB. -/
theorem compressBound_le {n : Nat} (small : n ≤ chunkSize) :
    compressBound n ≤ chunkCompressBound := by
  have size : chunkSize = 32768 := rfl
  unfold chunkCompressBound compressBound
  rw [if_neg (by omega), if_neg (by omega)]
  omega

/-- While `compress` runs: `out` is what is written, and the compressed form of
what is left. -/
structure Compressing.Towards (lz4 : Lz4) (headSpace : Nat) (out : List Byte) (s : Compressing) :
    Prop where
  more : 0 < s.srcLeft
  left : s.srcLeft = s.src.rest.length
  content : s.dst.content ++ wire lz4 s.stream s.src.rest = out
  total : s.totalCompressedSize + headSpace = s.dst.content.length

section

variable {headSpace : Nat} {out : List Byte} {s : Compressing}

theorem compressChunk_towards (streaming : lz4.Streaming) (towards : s.Towards lz4 headSpace out)
    (more : s.srcLeft > chunkSize) :
    ∃ s', compressChunk lz4 s = some s' ∧ s'.Towards lz4 headSpace out := by
  have left := towards.left
  obtain ⟨src, found, moved⟩ :=
    maybeLinearize_spec s.src (show chunkSize ≤ s.src.rest.length by omega) (by decide)
  have chunk_length : (s.src.rest.take chunkSize).length = chunkSize := by
    rw [List.length_take]
    omega
  have bound := streaming.bound s.stream (s.src.rest.take chunkSize)
    (by rw [chunk_length]; decide)
  have small : (toBytesLE 4 (lz4.compressContinue s.stream (s.src.rest.take chunkSize)).length ++
      lz4.compressContinue s.stream (s.src.rest.take chunkSize)).length ≤
      chunkMaximumCompressedSize := by
    rw [chunk_length] at bound
    rw [List.length_append, length_toBytesLE, Nat.add_comm]
    exact Nat.add_le_add_right bound 4
  obtain ⟨dst, put, content⟩ :=
    Dest.put_reserve (d := s.dst) (show chunkMaximumCompressedSize ≤ Rpc.chunkSize by decide) small
  refine ⟨_, by simp only [compressChunk, found, put, Option.bind_eq_bind, Option.bind_some]; rfl, ?_⟩
  exact {
    more := Nat.sub_pos_of_lt more
    left := by
      show s.srcLeft - chunkSize = src.rest.length
      rw [moved rfl, List.length_drop, left]
    content := by
      show dst.content ++ wire lz4 (s.stream ++ [s.src.rest.take chunkSize]) src.rest = out
      rw [← towards.content, wire_chunk s.stream (by omega), content, moved rfl, List.append_assoc]
    total := by
      have total := towards.total
      show s.totalCompressedSize + (_ + chunkHeaderSize) + headSpace = dst.content.length
      rw [content, List.length_append, List.length_append, length_toBytesLE, ← total,
        chunkHeaderSize]
      omega }

theorem compressChunks_towards (streaming : lz4.Streaming)
    (towards : s.Towards lz4 headSpace out) :
    ∃ s', compressChunks lz4 s = some s' ∧ s'.Towards lz4 headSpace out ∧
      s'.srcLeft ≤ chunkSize := by
  induction s using compressChunks.induct lz4 with
  | case1 s more s' step ih =>
      obtain ⟨t, step', next⟩ := compressChunk_towards streaming towards more
      obtain rfl : s' = t := Option.some.inj (step.symm.trans step')
      obtain ⟨last, run, reached⟩ := ih next
      refine ⟨last, ?_, reached⟩
      rw [compressChunks, dif_pos more]
      split
      · rename_i t' same
        obtain rfl : s' = t' := Option.some.inj (step.symm.trans same)
        exact run
      · rename_i failed
        rw [step] at failed
        cases failed
  | case2 s more failed =>
      obtain ⟨t, step, -⟩ := compressChunk_towards streaming towards more
      rw [step] at failed
      cases failed
  | case3 s done =>
      refine ⟨s, ?_, towards, by omega⟩
      rw [compressChunks, dif_neg done]

theorem compressLast_towards (streaming : lz4.Streaming) (towards : s.Towards lz4 headSpace out)
    (last : s.srcLeft ≤ chunkSize) :
    ∃ b, compressLast lz4 headSpace s = some b ∧ b.content = out ∧
      b.size = BitVec.ofNat 32 out.length := by
  have left := towards.left
  obtain ⟨src, found, -⟩ :=
    maybeLinearize_spec s.src (show s.srcLeft ≤ s.src.rest.length by omega) towards.more
  rw [left, List.take_length, ← left] at found
  have bound := streaming.bound s.stream s.src.rest
    (by rw [← left]; exact Nat.le_trans last (by decide))
  have small : (toBytesLE 4 (lastChunkFlag ||| BitVec.ofNat 32 s.srcLeft).toNat ++
      lz4.compressContinue s.stream s.src.rest).length ≤
      compressBound s.srcLeft + chunkHeaderSize := by
    rw [← left] at bound
    rw [List.length_append, length_toBytesLE, Nat.add_comm]
    exact Nat.add_le_add_right bound 4
  have roomy : compressBound s.srcLeft + chunkHeaderSize ≤ Rpc.chunkSize :=
    Nat.le_trans (Nat.add_le_add_right (compressBound_le last) _) (by decide)
  obtain ⟨dst, put, content⟩ := Dest.put_reserve (d := s.dst) roomy small
  have whole : dst.content = out := by
    rw [← towards.content, wire_last s.stream (by omega), content, left]
  refine ⟨_, by simp only [compressLast, found, put, Option.bind_eq_bind, Option.bind_some]; rfl, ?_, ?_⟩
  · rw [Dest.content_finish, whole]
  · rw [Dest.size_finish, whole]
    have total := towards.total
    rw [content, List.length_append, List.length_append, length_toBytesLE, ← total,
      chunkHeaderSize]
    omega

end

/-- `compress` writes the compressed form behind the head space, and declares its
length as far as 32 bits hold it. -/
theorem compress_spec (streaming : lz4.Streaming) (headSpace : Nat) {data : Buf}
    (whole : data.Whole) (nonempty : data.content ≠ []) :
    ∃ out, compress lz4 uninit headSpace data = some out ∧
      out.content = (List.range headSpace).map uninit ++ wire lz4 [] data.content ∧
      out.size = BitVec.ofNat 32 out.content.length := by
  have positive : 0 < data.content.length := List.length_pos_iff.mpr nonempty
  unfold compress
  cases fragments : data.bufs.fragments with
  | nil =>
      exfalso
      exact nonempty (by rw [Buf.content, fragments, List.flatten_nil])
  | cons front rest =>
      have content : data.content = front ++ rest.flatten := by
        rw [Buf.content, fragments, List.flatten_cons]
      simp only
      split
      · rename_i fast
        obtain ⟨-, small, length⟩ := fast
        have single : data.content = front := by
          have same := congrArg List.length content
          rw [List.length_append, ← whole, length] at same
          rw [content, List.eq_nil_of_length_eq_zero (l := rest.flatten) (by omega),
            List.append_nil]
        have written (b : List Byte) : (Buf.ofBuffer b).content = b := by
          simp [Buf.ofBuffer, Buf.content, Bufs.fragments]
        refine ⟨_, rfl, ?_, ?_⟩
        · rw [written, wire_last [] (by rw [← whole]; exact small), single, length,
            List.append_assoc]
        · rw [written]
          rfl
      · have start : Compressing.Towards lz4 headSpace
            ((List.range headSpace).map uninit ++ wire lz4 [] data.content)
            ⟨[], .start (front :: rest), data.size.toNat,
              ⟨[], max headSpace Rpc.chunkSize, (List.range headSpace).map uninit, by simp⟩, 0⟩ :=
          { more := by rw [whole]; exact positive
            left := by
              rw [Cursor.rest_start, List.flatten_cons, ← content]
              exact whole
            content := by
              rw [Cursor.rest_start, List.flatten_cons, ← content]
              simp [Dest.content, Dest.buffers]
            total := by simp [Dest.content, Dest.buffers] }
        obtain ⟨s, run, towards, last⟩ := compressChunks_towards streaming start
        obtain ⟨out, done, content', size⟩ := compressLast_towards streaming towards last
        refine ⟨out, by rw [run]; exact done, content', ?_⟩
        rw [size, content']

/-! ## Decompression -/

/-- One chunk is decompressed into what `get_dest` returns. -/
theorem decompressInto_spec (uninit : Nat → Byte) (streaming : lz4.Streaming) (stream : List (List Byte))
    {chunk : List Byte} (small : chunk.length ≤ chunkSize) (d : Dest) :
    ∃ d', decompressInto lz4 uninit stream (lz4.compressContinue stream chunk) chunk.length d =
        some (stream ++ [chunk], d') ∧
      d'.content = d.content ++ chunk := by
  have inverse := streaming.inverse stream chunk (Nat.le_trans small (by decide))
  have all : filled uninit chunk.length chunk = chunk := by simp [filled]
  obtain ⟨d', put, content⟩ :=
    Dest.put_reserve (d := d) (Nat.le_trans small (show chunkSize ≤ bufSize by decide))
      (Nat.le_refl chunk.length)
  refine ⟨d', ?_, content⟩
  simp only [decompressInto, inverse, all, put, Option.bind_eq_bind, Option.bind_some]

/-- The loop of `decompress` undoes the recursion of `wire`. -/
theorem decompressChunks_wire (streaming : lz4.Streaming) (stream : List (List Byte))
    (message : List Byte) {src : Cursor Byte} {srcLeft : Nat} {dst : Dest} {total : Nat}
    (rest : src.rest = wire lz4 stream message) (left : srcLeft = src.rest.length)
    (right : total = dst.content.length) :
    ∃ b, decompressChunks lz4 uninit stream src srcLeft dst total = some b ∧
      b.content = dst.content ++ message ∧ b.size = BitVec.ofNat 32 b.content.length := by
  have chunk_small : chunkSize < 2 ^ 31 := by decide
  induction stream, message using wire.induct generalizing src srcLeft dst total with
  | case1 stream message short =>
      rw [wire_last stream short] at rest
      obtain ⟨src₁, readHeader, rest₁⟩ := copySrc_spec rest
      rw [length_toBytesLE] at readHeader
      have left₁ : srcLeft - chunkHeaderSize = (lz4.compressContinue stream message).length := by
        rw [left, rest, List.length_append, length_toBytesLE, chunkHeaderSize]
        omega
      obtain ⟨src₂, copied, -⟩ := copySrc_spec (rest₁.trans (List.append_nil _).symm)
      obtain ⟨dst', into, content⟩ :=
        decompressInto_spec uninit streaming stream short dst
      have size : (BitVec.ofNat 32 message.length).toNat = message.length :=
        Nat.mod_eq_of_lt (by omega)
      refine ⟨dst'.finish (total + message.length), ?_, ?_, ?_⟩
      · rw [decompressChunks]
        split
        · rename_i failed
          rw [chunkHeaderSize, readHeader] at failed
          cases failed
        · rename_i bytes src' found
          rw [chunkHeaderSize, readHeader] at found
          cases found
          rw [header_read, if_neg (last_is_last _), last_size (by omega), size, left₁]
          simp only [copied, into, Option.bind_eq_bind, Option.bind_some]
      · rw [Dest.content_finish, content]
      · rw [Dest.content_finish]
        apply Dest.size_finish
        rw [content, List.length_append, right]
  | case2 stream message long ih =>
      have chunk_length : (message.take chunkSize).length = chunkSize := by
        rw [List.length_take]
        omega
      generalize compressed : lz4.compressContinue stream (message.take chunkSize) = packed
      have bound : packed.length < 2 ^ 31 := by
        have bound := streaming.bound stream (message.take chunkSize)
          (by rw [chunk_length]; decide)
        rw [compressed, chunk_length] at bound
        exact Nat.lt_of_le_of_lt bound (by decide)
      have size : (BitVec.ofNat 32 packed.length).toNat = packed.length :=
        Nat.mod_eq_of_lt (by omega)
      rw [wire_chunk stream long, compressed, List.append_assoc] at rest
      obtain ⟨src₁, readHeader, rest₁⟩ := copySrc_spec rest
      rw [length_toBytesLE] at readHeader
      obtain ⟨src₂, copied, rest₂⟩ := copySrc_spec rest₁
      obtain ⟨dst', into, content⟩ :=
        decompressInto_spec uninit streaming stream (Nat.le_of_eq chunk_length) dst
      rw [compressed, chunk_length] at into
      obtain ⟨b, run, content', declared⟩ :=
        @ih src₂ (srcLeft - chunkHeaderSize - packed.length) dst' (total + chunkSize) rest₂ (by
          rw [left, rest, rest₂, List.length_append, List.length_append, length_toBytesLE,
            chunkHeaderSize]
          omega) (by rw [content, List.length_append, chunk_length, right])
      refine ⟨b, ?_, ?_, declared⟩
      · rw [decompressChunks]
        split
        · rename_i failed
          rw [chunkHeaderSize, readHeader] at failed
          cases failed
        · rename_i bytes src' found
          rw [chunkHeaderSize, readHeader] at found
          cases found
          have header : BitVec.ofNat 32 (ofBytesLE (toBytesLE 4 packed.length)) =
              BitVec.ofNat 32 packed.length := by
            rw [ofBytesLE_toBytesLE_of_lt (by omega)]
          simp only [header, if_pos (size_not_last bound)]
          split
          · rename_i failed
            rw [header, size, copied] at failed
            cases failed
          · rename_i again src' found
            rw [header, size, copied] at found
            cases found
            rw [size, into]
            exact run
      · rw [content', content, List.append_assoc, List.take_append_drop]

/-- `decompress` undoes the compressed form, however it is cut into buffers. -/
theorem decompress_wire (streaming : lz4.Streaming) {message : List Byte} {data : Buf}
    (whole : data.Whole) (content : data.content = wire lz4 [] message) :
    ∃ b, decompress lz4 uninit data = some b ∧ b.content = message ∧
      b.size = BitVec.ofNat 32 message.length := by
  obtain ⟨b, run, result, size⟩ :=
    @decompressChunks_wire lz4 uninit streaming [] message (.start data.bufs.fragments)
      data.size.toNat ⟨[], bufSize, [], Nat.zero_le _⟩ 0
      (by rw [Cursor.rest_start]; exact content) (by rw [Cursor.rest_start]; exact whole) rfl
  have result : b.content = message := by simpa [Dest.content, Dest.buffers] using result
  rw [result] at size
  have header : 4 ≤ data.size.toNat := by
    rw [whole, content]
    by_cases short : message.length ≤ chunkSize
    · simp [wire_last [] short]
    · simp [wire_chunk [] short]
  unfold decompress
  rw [if_neg (by omega)]
  cases bufs : data.bufs with
  | vector _ =>
      rw [bufs] at run
      exact ⟨b, run, result, size⟩
  | buffer buf =>
      have held : buf = wire lz4 [] message := by
        simpa [Buf.content, bufs, Bufs.fragments] using content
      rw [bufs] at run
      simp only
      split
      · exact ⟨b, run, result, size⟩
      · rename_i last
        have small : chunkSize < 2 ^ 31 := by decide
        by_cases short : message.length ≤ chunkSize
        · have inverse := streaming.inverse [] message (Nat.le_trans short (by decide))
          have all : data.size.toNat - chunkHeaderSize =
              (lz4.compressContinue [] message).length := by
            rw [whole, content, wire_last [] short, List.length_append, length_toBytesLE,
              chunkHeaderSize]
            omega
          have length : (BitVec.ofNat 32 message.length).toNat = message.length :=
            Nat.mod_eq_of_lt (by omega)
          refine ⟨.ofBuffer message, ?_, by simp [Buf.ofBuffer, Buf.content, Bufs.fragments], rfl⟩
          rw [held, all, wire_last [] short, List.take_left' (length_toBytesLE _ _), header_read,
            last_size (by omega), length, chunkHeaderSize,
            List.drop_left' (length_toBytesLE _ _), List.take_length, inverse]
          simp [filled]
        · exfalso
          apply last
          have bound := streaming.bound [] (message.take chunkSize)
            (Nat.le_trans (List.length_take_le _ _) (by decide))
          rw [List.length_take, Nat.min_eq_left (by omega)] at bound
          have bound : (lz4.compressContinue [] (message.take chunkSize)).length < 2 ^ 31 :=
            Nat.lt_of_le_of_lt bound (by decide)
          rw [held, wire_chunk [] short, List.append_assoc, List.take_left' (length_toBytesLE _ _),
            ofBytesLE_toBytesLE_of_lt (by omega), size_not_last bound]

/-- A message that is compressed behind any head space, from any fragments, comes
back from any fragments of the bytes behind that space. The declared size is
that of the buffers exactly as long as 32 bits hold it. -/
theorem round_trip (streaming : lz4.Streaming) (headSpace : Nat) {data : Buf}
    (whole : data.Whole) (nonempty : data.content ≠ []) :
    ∃ out, compress lz4 uninit headSpace data = some out ∧ headSpace ≤ out.content.length ∧
      (out.Whole ↔ out.content.length < 2 ^ 32) ∧
      ∀ received : Buf, received.Whole → received.content = out.content.drop headSpace →
        ∀ garbage, ∃ b, decompress lz4 garbage received = some b ∧ b.content = data.content ∧
          b.size.toNat = data.content.length := by
  obtain ⟨out, done, content, size⟩ := compress_spec streaming headSpace whole nonempty
  have space : ((List.range headSpace).map uninit).length = headSpace := by simp
  refine ⟨out, done, ?_, ?_, ?_⟩
  · rw [content, List.length_append, space]
    omega
  · unfold Buf.Whole
    rw [size, BitVec.toNat_ofNat]
    exact Nat.mod_eq_iff_lt (by decide)
  · intro received whole' same garbage
    rw [content, List.drop_left' space] at same
    obtain ⟨b, undone, result, declared⟩ := decompress_wire streaming whole' same
    refine ⟨b, undone, result, ?_⟩
    rw [declared, ← whole, BitVec.ofNat_toNat, BitVec.setWidth_eq]

/-! ## Blocks of literals -/

/-- The bytes behind the token that add up to a length of literals. -/
def lengthBytes (n : Nat) : List Byte :=
  if n < 255 then [BitVec.ofNat 8 n] else 255 :: lengthBytes (n - 255)

def readLength : List Byte → Option (Nat × List Byte)
  | [] => none
  | b :: bs =>
      if b = 255 then (readLength bs).map fun (n, rest) => (n + 255, rest)
      else some (b.toNat, bs)

/-- LZ4 on bytes in which it finds no repetition: a token, and all bytes as
literals. -/
def literals : Lz4 where
  compressContinue _ src :=
    if src.length < 15 then BitVec.ofNat 8 (16 * src.length) :: src
    else 0xF0 :: (lengthBytes (src.length - 15) ++ src)
  decompressContinue _ src capacity :=
    match src with
    | [] => none
    | token :: bytes =>
        if token = 0xF0 then
          (readLength bytes).bind fun (n, src) =>
            if src.length = n + 15 ∧ src.length ≤ capacity then some src else none
        else if bytes.length = token.toNat / 16 ∧ bytes.length ≤ capacity then some bytes
        else none

theorem readLength_lengthBytes (n : Nat) (bytes : List Byte) :
    readLength (lengthBytes n ++ bytes) = some (n, bytes) := by
  induction n using lengthBytes.induct with
  | case1 n short =>
      have other : BitVec.ofNat 8 n ≠ 255 := by
        intro same
        have value := congrArg BitVec.toNat same
        rw [BitVec.toNat_ofNat, Nat.mod_eq_of_lt (by omega)] at value
        exact Nat.ne_of_lt short value
      rw [lengthBytes, if_pos short, List.singleton_append, readLength, if_neg other,
        BitVec.toNat_ofNat, Nat.mod_eq_of_lt (by omega)]
  | case2 n long ih =>
      rw [lengthBytes, if_neg long, List.cons_append, readLength, if_pos rfl, ih]
      show some (n - 255 + 255, bytes) = some (n, bytes)
      rw [Nat.sub_add_cancel (by omega)]

theorem length_lengthBytes (n : Nat) : (lengthBytes n).length = n / 255 + 1 := by
  induction n using lengthBytes.induct with
  | case1 n short =>
      rw [lengthBytes, if_pos short, Nat.div_eq_of_lt short]
      rfl
  | case2 n long ih =>
      rw [lengthBytes, if_neg long, List.length_cons, ih]
      omega

theorem literals_streaming : literals.Streaming where
  inverse stream chunk _ := by
    unfold literals
    by_cases short : chunk.length < 15
    · have token : (BitVec.ofNat 8 (16 * chunk.length)).toNat = 16 * chunk.length :=
        Nat.mod_eq_of_lt (by omega)
      have other : BitVec.ofNat 8 (16 * chunk.length) ≠ 0xF0 := by
        intro same
        have value := congrArg BitVec.toNat same
        rw [token] at value
        exact Nat.ne_of_lt (show 16 * chunk.length < 240 by omega) value
      simp only [if_pos short, if_neg other, token]
      rw [if_pos ⟨by omega, Nat.le_refl _⟩]
    · simp only [if_neg short, if_true, readLength_lengthBytes, Option.bind_some]
      rw [if_pos ⟨by omega, Nat.le_refl _⟩]
  bound stream chunk small := by
    unfold literals compressBound
    rw [if_neg (by omega)]
    show (if chunk.length < 15 then _ else _ : List Byte).length ≤ _
    split
    · rw [List.length_cons]
      omega
    · rw [List.length_cons, List.length_append, length_lengthBytes]
      omega

/-- Three bytes, in fragments one of which is empty. -/
theorem round_trip_literals :
    ∃ out, compress literals (fun _ => 0) 4 ⟨3#32, .vector [[], [1], [2, 3]]⟩ = some out ∧
      4 ≤ out.content.length ∧ (out.Whole ↔ out.content.length < 2 ^ 32) ∧
      ∀ received : Buf, received.Whole → received.content = out.content.drop 4 →
        ∀ garbage, ∃ b, decompress literals garbage received = some b ∧
          b.content = [1, 2, 3] ∧ b.size.toNat = 3 :=
  round_trip literals_streaming 4 (by decide) (by decide)

/-- Literals make a message longer. -/
theorem length_wire_literals (stream : List (List Byte)) (message : List Byte) :
    message.length ≤ (wire literals stream message).length := by
  have longer (stream : List (List Byte)) (chunk : List Byte) :
      chunk.length ≤ (literals.compressContinue stream chunk).length := by
    show chunk.length ≤ (if chunk.length < 15 then _ else _ : List Byte).length
    split
    · rw [List.length_cons]
      omega
    · rw [List.length_cons, List.length_append]
      omega
  induction stream, message using wire.induct with
  | case1 stream message short =>
      have last := longer stream message
      rw [wire_last stream short, List.length_append]
      omega
  | case2 stream message long ih =>
      have first := longer stream (message.take chunkSize)
      rw [List.length_take] at first
      rw [List.length_drop] at ih
      rw [wire_chunk stream long, List.length_append, List.length_append]
      omega

/-- The longest messages, if they cannot be compressed, fill more than the size of a
buffer can tell. -/
theorem longest_overflows :
    literals.Streaming ∧ ∀ message : List Byte, message.length = 2 ^ 32 - 1 →
      (⟨BitVec.ofNat 32 (2 ^ 32 - 1), .buffer message⟩ : Buf).Whole ∧
      ¬ ∃ out, compress literals (fun _ => 0) 4
          ⟨BitVec.ofNat 32 (2 ^ 32 - 1), .buffer message⟩ = some out ∧ out.Whole := by
  refine ⟨literals_streaming, fun message longest => ?_⟩
  have content : (⟨BitVec.ofNat 32 (2 ^ 32 - 1), .buffer message⟩ : Buf).content = message := by
    rw [Buf.content, Bufs.fragments, List.flatten_singleton]
  have whole : (⟨BitVec.ofNat 32 (2 ^ 32 - 1), .buffer message⟩ : Buf).Whole := by
    unfold Buf.Whole
    rw [content, longest]
    show (BitVec.ofNat 32 (2 ^ 32 - 1)).toNat = 2 ^ 32 - 1
    decide
  refine ⟨whole, ?_⟩
  rintro ⟨out, done, fits⟩
  have nonempty : message ≠ [] := by
    rintro rfl
    cases longest
  obtain ⟨out', done', written, -⟩ :=
    @compress_spec literals (fun _ => 0) literals_streaming 4 _ whole (by rw [content]; exact nonempty)
  obtain rfl : out = out' := Option.some.inj (done.symm.trans done')
  have long := length_wire_literals [] message
  have small := out.size.isLt
  rw [fits, written, content, List.length_append, List.length_map, List.length_range] at small
  omega

end ActorNet.Rpc.Lz4Fragmented
