import ActorNet.Rpc.Lz4Hostile
import ActorNet.Rpc.Lz4Scratch

/-!
# What the LZ4 compressor makes of a message is undone

A message and its compressed form go through the scratch buffers of two threads,
each with a history of its own. The message comes back from any of them unless a
buffer that is needed is stale, that is, unless an allocation threw before while
the buffer was to grow.
-/

namespace ActorNet.Rpc.Lz4Compressor

open Lib Failing
open Lz4Fragmented (Buf Bufs compressBound)

variable {lz4 : Codec} {mem : Memory} {sender receiver : Thread} {headSpace : BitVec 64}
  {data received : Buf}

/-- The areas that the codec was ever given are apart, call by call. -/
def Thread.Apart (t : Thread) : Prop := ∀ call ∈ t.calls, ¬ call.src.Overlap call.dst

/-- The message is compressed behind the head space and comes back from any
fragments of the rest; the declared sizes are right, and no areas overlap. -/
def RoundTrips (lz4 : Codec) (sender receiver : Thread) (headSpace : BitVec 64) (data : Buf) :
    Prop :=
  ∀ mem, Grants mem → ∃ out sender',
    compress lz4 mem headSpace data sender = (.ok out, sender') ∧ out.Whole ∧ sender'.Apart ∧
    ∀ received : Buf, received.Whole → received.content = out.content.drop headSpace.toNat →
      ∀ mem', Grants mem' → ∃ back receiver',
        decompress lz4 mem' received receiver = (.ok back, receiver') ∧
        back.content = data.content ∧ back.Whole ∧ receiver'.Apart

/-- No buffer that is needed is stale, and the `uint32_t` of a `snd_buf` can hold the
size of the result. -/
structure Clear (lz4 : Codec) (sender receiver : Thread) (headSpace : BitVec 64) (data : Buf) :
    Prop where
  gathered : ¬ sender.CannotPrepare data
  reserved : ¬ sender.CannotReserve (roomFor headSpace data)
  declared : headSpace.toNat + 4 + (encoded lz4 data).written.length < 2 ^ 32
  regathered : ¬ receiver.decompressedData.Stale (4 + (encoded lz4 data).written.length)
  unpacked : ¬ receiver.CannotReserve data.content.length

/-! ## One message -/

section

variable (inverse : lz4.Inverse) (whole : data.Whole) (some_bytes : 1 ≤ data.content.length)
  (bounded : data.content.length ≤ 0x7E000000)

theorem compressBound_lt {n : Nat} (bounded : n ≤ 0x7E000000) : compressBound n < 2 ^ 31 := by
  unfold compressBound
  split <;> omega

theorem toInt_of_small {x : BitVec 32} (small : x.toNat < 2 ^ 31) : x.toInt = x.toNat := by
  rw [BitVec.toInt_eq_toNat_cond, if_pos (by omega)]

include inverse whole some_bytes bounded

/-- The encoder succeeds, within the bound. -/
theorem encoded_ok : ∃ block, block ≠ [] ∧ encoded lz4 data = ⟨true, block⟩ ∧
    block.length < 2 ^ 31 ∧
    lz4.decompressSafe block block.length data.content.length = ⟨true, data.content⟩ := by
  obtain ⟨block, nonempty, compressed, undone⟩ := inverse.undone data.content some_bytes bounded
  have size : data.size.toInt = data.content.length := by
    rw [← whole, toInt_of_small (by rw [whole]; omega)]
  have within := inverse.compress data.content data.content.length
    (compressBound data.content.length)
  rw [compressed, Int.toNat_natCast] at within
  have bound := compressBound_lt bounded
  refine ⟨block, nonempty, ?_, Nat.lt_of_le_of_lt within bound, undone⟩
  rw [encoded, size, Int.toNat_natCast, List.take_length, whole, compressed]

/-- What the receiver reads in the compressed form. -/
theorem received_ok (whole_too : received.Whole)
    (content : received.content =
      toBytesLE 4 data.size.toNat ++ (encoded lz4 data).written) :
    received.size.toNat = 4 + (encoded lz4 data).written.length ∧
      declaredSize received = data.content.length ∧
      decoded lz4 received = ⟨true, data.content⟩ := by
  obtain ⟨block, -, compressed, small, undone⟩ := encoded_ok inverse whole some_bytes bounded
  rw [compressed] at content ⊢
  have length : received.size.toNat = 4 + block.length := by
    rw [whole_too, content, List.length_append, length_toBytesLE]
  have header : declaredSize received = data.content.length := by
    rw [declaredSize, content, List.take_left' (length_toBytesLE 4 _),
      ofBytesLE_toBytesLE_of_lt (by rw [whole]; omega), whole]
  have minus : (received.size - 4#32).toNat = block.length := by
    have sub := BitVec.toNat_sub_of_le (x := received.size) (y := 4#32) (by
      show 4 ≤ received.size.toNat
      omega)
    rw [sub, length]
    exact Nat.add_sub_cancel_left 4 _
  have capacity : (BitVec.ofNat 32 data.content.length).toNat = data.content.length := by
    rw [BitVec.toNat_ofNat, Nat.mod_eq_of_lt (by omega)]
  refine ⟨length, header, ?_⟩
  rw [decoded, header, toInt_of_small (by omega), minus, toInt_of_small (by omega), capacity,
    content, List.drop_left' (length_toBytesLE 4 _), Int.toNat_natCast, List.take_length, undone]

/-- The sender, with memory enough. -/
theorem packs_iff (sound : sender.Sound) (grants : Grants mem) :
    (∃ out sender', compress lz4 mem headSpace data sender = (.ok out, sender') ∧ out.Whole ∧
        sender'.Apart) ↔
      ¬ sender.CannotPrepare data ∧ ¬ sender.CannotReserve (roomFor headSpace data) ∧
        headSpace.toNat + 4 + (encoded lz4 data).written.length < 2 ^ 32 := by
  obtain ⟨block, nonempty, compressed, -, -⟩ := encoded_ok inverse whole some_bytes bounded
  have post := compress_post mem inverse.toContained sound whole headSpace
  cases result : compress lz4 mem headSpace data sender with
  | mk r sender' =>
      rw [result] at post
      cases r with
      | error e =>
          apply iff_of_false
          · rintro ⟨_, _, returned, -⟩
            cases returned
          · rintro ⟨prepared, reserved, declared⟩
            cases post.1 with
            | unprepared cannot => exact prepared cannot
            | unreserved cannot => exact reserved cannot
            | wrapped beyond =>
                have bound := compressBound_lt bounded
                rw [roomFor, whole] at beyond
                omega
            -- the bound was made for LZ4 to succeed
            | rejected bad =>
                rw [compressed] at bad
                exact absurd bad (by simp [nonempty])
            | denied none_left => exact none_left grants
      | ok out =>
          obtain ⟨is, sound'⟩ := post
          cases is with
          | accepted space rest prepared _ reserved length =>
              have inside : headSpace.toNat + 4 + (encoded lz4 data).written.length ≤
                  (space ++ toBytesLE 4 data.size.toNat ++ (encoded lz4 data).written ++
                    rest).length := by
                simp only [List.length_append, length_toBytesLE]
                omega
              rw [← whole_pack inside]
              constructor
              · rintro ⟨_, _, returned, right, -⟩
                cases returned
                exact ⟨prepared, reserved, right⟩
              · rintro ⟨-, -, right⟩
                exact ⟨_, _, rfl, right, sound'.apart⟩

/-- The receiver, with memory enough. -/
theorem unpacks_iff (sound : receiver.Sound) (grants : Grants mem) (whole_too : received.Whole)
    (content : received.content = toBytesLE 4 data.size.toNat ++ (encoded lz4 data).written) :
    (∃ back receiver', decompress lz4 mem received receiver = (.ok back, receiver') ∧
        back.content = data.content ∧ back.Whole ∧ receiver'.Apart) ↔
      ¬ receiver.CannotPrepare received ∧ ¬ receiver.CannotReserve data.content.length := by
  obtain ⟨length, declared, undone⟩ :=
    received_ok inverse whole some_bytes bounded whole_too content
  have post := decompress_post mem inverse.toContained sound whole_too
  cases result : decompress lz4 mem received receiver with
  | mk r receiver' =>
      rw [result] at post
      cases r with
      | error e =>
          apply iff_of_false
          · rintro ⟨_, _, returned, -⟩
            cases returned
          · rintro ⟨prepared, reserved⟩
            cases post.1 with
            | unprepared _ cannot => exact prepared cannot
            | zero _ _ none_left => omega
            | unreserved _ _ _ cannot =>
                rw [declared] at cannot
                exact reserved cannot
            | rejected _ _ _ bad =>
                rw [undone] at bad
                cases bad
            | denied none_left => exact none_left grants
      | ok back =>
          obtain ⟨is, sound'⟩ := post
          cases is with
          | short few => omega
          | accepted dst _ prepared _ _ reserved enough _ =>
              rw [declared, undone] at *
              -- the block fills all that the header declares
              have inside : 0 + data.content.length ≤ dst.length := by omega
              have written := take_overwrite data.content (Nat.zero_le dst.length)
              rw [Nat.zero_add] at written
              apply iff_of_true _ ⟨prepared, reserved⟩
              refine ⟨_, _, rfl, ?_, ?_, sound'.apart⟩
              · rw [content_pack]
                exact written
              · rw [whole_pack (by rw [length_overwrite inside]; exact enough)]
                omega

end

/-- What is left of the result behind the head space. -/
theorem drop_content {out : Buf} (is : Compresses lz4 mem sender headSpace data (.ok out)) :
    out.content.drop headSpace.toNat =
      toBytesLE 4 data.size.toNat ++ (encoded lz4 data).written := by
  cases is with
  | accepted space rest _ _ _ length =>
      rw [content_pack, List.take_left' (by
        simp only [List.length_append, length_toBytesLE, length]), List.append_assoc]
      exact List.drop_left' length

/-- All bytes in one fragment. -/
def oneFragment (bytes : List Byte) : Buf := .ofVector [bytes] bytes.length

theorem oneFragment_whole (bytes : List Byte) (fits : bytes.length < 2 ^ 32) :
    (oneFragment bytes).Whole ∧ (oneFragment bytes).content = bytes := by
  have content : (oneFragment bytes).content = bytes := List.flatten_singleton
  refine ⟨?_, content⟩
  rw [Buf.Whole, content]
  exact BitVec.toNat_ofNat _ _ ▸ Nat.mod_eq_of_lt fits

/-- A message comes back just if the buffers are clear, whatever the two threads did
before. -/
theorem round_trips_iff {heaps : Memory → Prop} (inverse : lz4.Inverse)
    (reached : Reached lz4 heaps sender) (reached_too : Reached lz4 heaps receiver)
    (headSpace : BitVec 64) (data : Buf) (whole : data.Whole)
    (some_bytes : 1 ≤ data.content.length) (bounded : data.content.length ≤ 0x7E000000) :
    RoundTrips lz4 sender receiver headSpace data ↔ Clear lz4 sender receiver headSpace data := by
  have sound := reached.sound inverse.toContained
  have sound_too := reached_too.sound inverse.toContained
  constructor
  · intro trips
    -- one memory that grants everything is enough to see each condition
    have grants : Grants fun _ => some fun _ => 0 := fun _ => rfl
    obtain ⟨out, sender', returned, right, apart, comes_back⟩ := trips _ grants
    obtain ⟨gathered, reserved, declared⟩ := (packs_iff inverse whole some_bytes bounded sound
      grants).mp ⟨out, sender', returned, right, apart⟩
    have post := compress_post (fun _ => some fun _ => 0) inverse.toContained sound whole
      headSpace
    have behind := drop_content (post.of_ok returned).1
    have length : (out.content.drop headSpace.toNat).length =
        4 + (encoded lz4 data).written.length := by
      rw [behind, List.length_append, length_toBytesLE]
    obtain ⟨whole_too, content⟩ := oneFragment_whole (out.content.drop headSpace.toNat)
      (by omega)
    obtain ⟨prepared, unpacked⟩ := (unpacks_iff inverse whole some_bytes bounded sound_too grants
      whole_too (content.trans behind)).mp (comes_back _ whole_too content _ grants)
    refine ⟨gathered, reserved, declared, ?_, unpacked⟩
    rw [← length, ← content, ← whole_too]
    exact prepared
  · intro clear mem grants
    obtain ⟨out, sender', returned, right, apart⟩ := (packs_iff inverse whole some_bytes bounded
      sound grants).mpr ⟨clear.gathered, clear.reserved, clear.declared⟩
    refine ⟨out, sender', returned, right, apart, ?_⟩
    intro received whole_too content mem' grants'
    have post := compress_post mem inverse.toContained sound whole headSpace
    have behind := drop_content (post.of_ok returned).1
    refine (unpacks_iff inverse whole some_bytes bounded sound_too grants' whole_too
      (content.trans behind)).mpr ⟨?_, clear.unpacked⟩
    unfold Thread.CannotPrepare
    split
    · exact id
    · rw [whole_too, content, behind, List.length_append, length_toBytesLE]
      exact clear.regathered

/-- LZ4 on bytes in which it finds no repetition, one block at a time. -/
def literalBlocks : Codec where
  compressDefault src _ capacity :=
    let block := Lz4Fragmented.literals.compressContinue [] src
    if (block.length : Int) ≤ capacity then ⟨true, block⟩ else ⟨false, []⟩
  decompressSafe src _ capacity :=
    if capacity < 0 then ⟨false, []⟩
    else match Lz4Fragmented.literals.decompressContinue [] src capacity.toNat with
      | some message => ⟨true, message⟩
      | none => ⟨false, []⟩

theorem literalBlocks_inverse : literalBlocks.Inverse where
  compress src n capacity := by
    simp only [literalBlocks]
    split
    · show (Lz4Fragmented.literals.compressContinue [] src).length ≤ capacity.toNat
      omega
    · exact Nat.zero_le _
  decompress src n capacity := by
    simp only [literalBlocks]
    split
    · exact Nat.zero_le _
    · split
      · exact Lz4Fragmented.literals_contained.within _ _ _ _ ‹_›
      · exact Nat.zero_le _
  nonnegative src n capacity good := by
    simp only [literalBlocks] at good
    split at good
    · cases good
    · omega
  undone message _ small := by
    have bound := Lz4Fragmented.literals_streaming.bound [] message small
    have inverse := Lz4Fragmented.literals_streaming.inverse [] message small
    refine ⟨Lz4Fragmented.literals.compressContinue [] message, ?_, ?_, ?_⟩
    · show (if message.length < 15 then _ else _ : List Byte) ≠ []
      split <;> exact List.cons_ne_nil _ _
    · simp only [literalBlocks]
      rw [if_pos (by omega)]
    · simp only [literalBlocks]
      rw [if_neg (by omega), Int.toNat_natCast, inverse]

/-- Three bytes in fragments, on threads that did nothing before. -/
theorem round_trips_iff_fresh :
    RoundTrips literalBlocks .start .start 4#64 ⟨3#32, .vector [[], [1], [2, 3]]⟩ ↔
      Clear literalBlocks .start .start 4#64 ⟨3#32, .vector [[], [1], [2, 3]]⟩ :=
  round_trips_iff literalBlocks_inverse (.start : Reached literalBlocks Grants .start) .start 4#64 _
    (by decide) (by decide) (by decide)

/-- A frame of five bytes that declares no size, and one of six bytes for which `new`
throws; then two bytes in fragments are copied to a null pointer. -/
theorem stale_not_undone :
    ∃ t, Reached literalBlocks (fun _ => True) t ∧
      ¬ RoundTrips literalBlocks t t 4#64 ⟨2#32, .vector [[1], [2]]⟩ := by
  have empty_size : Call.run literalBlocks (fun _ => some fun _ => 7)
      (.decompress ⟨5#32, .vector [[0, 0], [0, 0, 0]]⟩) .start =
        (.error (.runtimeError
          "RPC frame LZ4 decompression failure: decompressed size cannot be zero"),
          ⟨.empty, ⟨some ⟨0, [0, 0, 0, 0, 0]⟩, 5⟩, 0, 1, []⟩) := rfl
  have no_memory : Call.run literalBlocks (fun _ => none)
      (.decompress ⟨6#32, .vector [[0, 0, 0], [0, 0, 0]]⟩)
      ⟨.empty, ⟨some ⟨0, [0, 0, 0, 0, 0]⟩, 5⟩, 0, 1, []⟩ =
        (.error .badAlloc, ⟨.empty, ⟨none, 5⟩, 0, 1, []⟩) := rfl
  refine ⟨⟨.empty, ⟨none, 5⟩, 0, 1, []⟩, ?_, ?_⟩
  · have first : Reached literalBlocks (fun _ => True)
        ⟨.empty, ⟨some ⟨0, [0, 0, 0, 0, 0]⟩, 5⟩, 0, 1, []⟩ :=
      .call .start trivial (by decide) empty_size nofun
    exact .call first trivial (by decide) no_memory nofun
  · intro trips
    obtain ⟨out, t', returned, -⟩ := trips (fun _ => some fun _ => 7) fun _ => rfl
    cases returned

end ActorNet.Rpc.Lz4Compressor
