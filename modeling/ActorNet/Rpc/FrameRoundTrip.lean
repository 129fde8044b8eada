import Mathlib.Tactic.Positivity
import ActorNet.Rpc.Frame

/-!
# Frames are read back as they were written

Each read loop recovers what the other side's send loop wrote, for every way
the transport cuts the bytes (`serverLoop_sendLoop`, `clientLoop_sendLoop`).
The one thing that could get lost is a deadline: its field counts whole
milliseconds and zero stands for none (`requestTimeout_isSome`), so on a finer
clock a call with less than a millisecond left would arrive without one
(`frames_round_trip_iff`). The clock of the connections ticks in milliseconds.
-/

namespace ActorNet.Rpc

open Lib InputStream

/-! ## Reading a sized body -/

section

variable {σ : Type} [InputStream Byte σ]

/-- A read at most the length of what is known to come splits that part. -/
theorem readUpTo_prefix {n : Nat} {s : σ} {body rest : List Byte}
    (left : content s = body ++ rest) (small : n ≤ body.length) :
    ∃ later, body = (readUpTo n s).1 ++ later ∧ content (readUpTo n s).2 = later ++ rest := by
  have split := readUpTo_split n s
  have short : (readUpTo n s).1.length ≤ body.length := (readUpTo_length n s).trans small
  rw [left] at split
  refine ⟨body.drop (readUpTo n s).1.length, ?_, ?_⟩
  · have front := congrArg (List.take (readUpTo n s).1.length) split
    rw [List.take_left, List.take_append_of_le_length short] at front
    conv_lhs => rw [← List.take_append_drop (readUpTo n s).1.length body, ← front]
  · have back := congrArg (List.drop (readUpTo n s).1.length) split
    rwa [List.drop_left, List.drop_append_of_le_length short] at back

theorem readRest_spec {left : Nat} {s : σ} {body rest : List Byte}
    (coming : content s = body ++ rest) (length : body.length = left) (positive : 0 < left) :
    ∃ v s', readRest left s = (v, 0, s') ∧ v.flatten = body ∧ content s' = rest := by
  induction left using Nat.strong_induction_on generalizing s body with
  | _ left ih =>
      have nonempty : body ≠ [] := List.length_pos_iff.mp (length ▸ positive)
      have progress : (readUpTo left s).1 ≠ [] :=
        readUpTo_progress left s positive (by simp [coming, nonempty])
      obtain ⟨later, body_eq, coming'⟩ := readUpTo_prefix coming length.ge
      have count : left = (readUpTo left s).1.length + later.length :=
        length.symm.trans ((congrArg List.length body_eq).trans List.length_append)
      rw [readRest]
      simp only [progress, if_false]
      by_cases done : left - (readUpTo left s).1.length = 0
      · have noMore : later = [] := List.length_eq_zero_iff.mp (by omega)
        subst noMore
        simp only [done, if_true]
        exact ⟨_, _, rfl, by simpa using body_eq.symm, by simpa using coming'⟩
      · have shorter : left - (readUpTo left s).1.length < left := by
          have := List.length_pos_iff.mpr progress
          omega
        obtain ⟨v, s', readMore, flat, after⟩ :=
          ih _ shorter coming' (by omega) (Nat.pos_of_ne_zero done)
        simp only [done, if_false, readMore]
        exact ⟨_, s', rfl, by rw [List.flatten_cons, flat, ← body_eq], after⟩

/-- The body arrives whole, in however many buffers. -/
theorem readRcvBuf_spec {size : BitVec 32} {s : σ} {body rest : List Byte}
    (coming : content s = body ++ rest) (length : body.length = size.toNat) :
    ∃ rb s', readRcvBuf size s = (rb, s') ∧ rb.size = size ∧ rb.content = body ∧
      content s' = rest := by
  obtain ⟨later, body_eq, coming'⟩ := readUpTo_prefix coming length.ge
  have count : size.toNat = (readUpTo size.toNat s).1.length + later.length :=
    length.symm.trans ((congrArg List.length body_eq).trans List.length_append)
  unfold readRcvBuf
  by_cases nothing : (readUpTo size.toNat s).1 = []
  · -- only a read of nothing at all returns nothing here
    have zero : size.toNat = 0 := by
      by_contra positive
      have nonempty : body ≠ [] := List.length_pos_iff.mp (by omega)
      exact readUpTo_progress size.toNat s (by omega) (by simp [coming, nonempty]) nothing
    have noBody : body = [] := List.length_eq_zero_iff.mp (by omega)
    have noMore : later = [] := List.length_eq_zero_iff.mp (by omega)
    subst noBody noMore
    simp only [nothing, if_true]
    exact ⟨_, _, rfl, (BitVec.eq_of_toNat_eq zero).symm, rfl, by simpa using coming'⟩
  · simp only [nothing, if_false]
    by_cases whole : (readUpTo size.toNat s).1.length = size.toNat
    · have noMore : later = [] := List.length_eq_zero_iff.mp (by omega)
      subst noMore
      simp only [whole, if_true]
      exact ⟨_, _, rfl, rfl, by simpa [RcvBuf.content] using body_eq.symm,
        by simpa using coming'⟩
    · simp only [whole, if_false]
      have stillLeft : later.length = size.toNat - (readUpTo size.toNat s).1.length := by omega
      obtain ⟨v, s', readMore, flat, after⟩ := readRest_spec coming' stillLeft (by omega)
      simp only [readMore]
      exact ⟨_, _, rfl, by simp, by rw [RcvBuf.content, List.flatten_cons, flat, ← body_eq],
        after⟩

/-! ## Reading one frame -/

variable {Header Value : Type}

/-- A header and a body of the size it announces are read as one frame. -/
theorem readFrame_spec {F : FrameType Header Value} {s : σ} {header body rest : List Byte}
    (coming : content s = header ++ body ++ rest) (length : header.length = F.headerSize)
    (announced : (F.getSize (F.decodeHeader header)).toNat = body.length) :
    ∃ rb s', readFrame F s = (F.makeValue (F.decodeHeader header) rb, s') ∧
      rb.content = body ∧ content s' = rest ∧ rb.size = F.getSize (F.decodeHeader header) := by
  have headerRead : (readExactly F.headerSize s).1 = header := by
    rw [readExactly_data, coming, ← length, List.append_assoc, List.take_left]
  have after : content (readExactly F.headerSize s).2 = body ++ rest := by
    rw [readExactly_rest, coming, ← length, List.append_assoc, List.drop_left]
  unfold readFrame
  simp only [headerRead, length, ne_eq, not_true_eq_false, if_false]
  by_cases empty : F.getSize (F.decodeHeader header) = 0#32
  · have noBody : body = [] := by
      rw [empty] at announced
      exact List.length_eq_zero_iff.mp announced.symm
    subst noBody
    simp only [empty, if_true]
    exact ⟨_, _, rfl, rfl, by simpa using after, rfl⟩
  · simp only [empty, if_false]
    obtain ⟨rb, s', read, size, whole, later⟩ := readRcvBuf_spec after announced.symm
    simp only [read, size, not_true_eq_false, if_false]
    exact ⟨rb, s', rfl, whole, later, size⟩

/-- The size field written behind a reserved head is the length of the body. -/
theorem SndBuf.Holds.bodySize {b : SndBuf} {head body : List Byte} {n : Nat}
    (holds : b.Holds head body) (reserved : head.length = n) (small : n < 2 ^ 32) :
    (b.size - BitVec.ofNat 32 n).toNat = body.length := by
  have size := holds.size_eq
  have count : (BitVec.ofNat 32 n).toNat = n := by simpa using Nat.mod_eq_of_lt small
  rw [BitVec.toNat_sub_of_le (by rw [BitVec.le_def, count, size]; omega), count, size]
  omega

/-- With a compressor, a frame goes out as a length and the compressed data. -/
theorem compress_some {codecs : Compressor → Codec} {link : Link} {c : Compressor}
    (used : link.compressor = some c) (inverse : (codecs c).Inverse) {buf out : SndBuf}
    {header body : List Byte} (holds : buf.Holds header body)
    (compressed : compress codecs link buf = some out) :
    ∃ packed space data, (codecs c).compress 4 buf = some packed ∧ space.length = 4 ∧
      packed.Holds space data ∧ data.length < 2 ^ 32 ∧
      out.content = toBytesLE 4 data.length ++ data := by
  unfold compress at compressed
  simp only [used, Option.bind_eq_bind, Option.bind_eq_some_iff, Option.some.injEq]
    at compressed
  obtain ⟨packed, done, rfl⟩ := compressed
  obtain ⟨space, data, four, packedHolds⟩ := inverse.headSpace holds done
  have size : (packed.size - 4#32).toNat = data.length :=
    packedHolds.bodySize four (by decide)
  have written : (packed.writeFront 0 (toBytesLE 4 (packed.size - 4#32).toNat)).Holds
      (toBytesLE 4 (packed.size - 4#32).toNat) data := by
    simpa using packedHolds.writeFront [] space [] (toBytesLE 4 (packed.size - 4#32).toNat)
      (by simp) rfl (by simp [four])
  exact ⟨packed, space, data, done, four, packedHolds, size ▸ (packed.size - 4#32).isLt,
    size ▸ written.content_eq⟩

/-- What `compress` makes of a frame, `read_frame_compressed` undoes. -/
theorem readFrameCompressed_spec {codecs : Compressor → Codec} {link : Link}
    (inverse : ∀ c, link.compressor = some c → (codecs c).Inverse)
    (F : FrameType Header Value) {s : σ} {buf out : SndBuf} {header body rest : List Byte}
    (holds : buf.Holds header body) (compressed : compress codecs link buf = some out)
    (coming : content s = out.content ++ rest) (length : header.length = F.headerSize)
    (announced : (F.getSize (F.decodeHeader header)).toNat = body.length) :
    ∃ rb s', readFrameCompressed codecs link F s =
        some (F.makeValue (F.decodeHeader header) rb, s') ∧
      rb.content = body ∧ content s' = rest ∧ rb.size = F.getSize (F.decodeHeader header) := by
  unfold readFrameCompressed
  cases used : link.compressor with
  | none =>
      simp only [compress, used, Option.some.injEq] at compressed
      subst compressed
      rw [holds.content_eq] at coming
      obtain ⟨rb, s', read, whole, later, size⟩ := readFrame_spec coming length announced
      exact ⟨rb, s', by rw [read], whole, later, size⟩
  | some c =>
      obtain ⟨packed, space, data, done, four, packedHolds, small, wire⟩ :=
        compress_some used (inverse c used) holds compressed
      rw [wire, List.append_assoc] at coming
      have headerRead : (readExactly 4 s).1 = toBytesLE 4 data.length := by
        rw [readExactly_data, coming]
        exact List.take_left' (length_toBytesLE 4 _)
      have after : content (readExactly 4 s).2 = data ++ rest := by
        rw [readExactly_rest, coming]
        exact List.drop_left' (length_toBytesLE 4 _)
      have size : data.length = (BitVec.ofNat 32 (ofBytesLE (toBytesLE 4 data.length))).toNat := by
        rw [ofBytesLE_toBytesLE_of_lt small, BitVec.toNat_ofNat, Nat.mod_eq_of_lt small]
      obtain ⟨rb, s', read, rbSize, whole, later⟩ := readRcvBuf_spec after size
      obtain ⟨eb, unpacked, plain⟩ := (inverse c used).inverse holds done four packedHolds whole
      have inner : content (ofBuffers eb.bufs : σ) = header ++ body ++ [] := by
        rw [content_ofBuffers, List.append_nil]
        exact plain
      obtain ⟨rb', _, frame, whole', _, frameSize⟩ := readFrame_spec inner length announced
      refine ⟨rb', s', ?_, whole', later, frameSize⟩
      simp only [headerRead, length_toBytesLE, ne_eq, not_true_eq_false, if_false, read, rbSize,
        unpacked, frame, Option.bind_eq_bind, Option.bind_some]

end

/-! ## The headers written -/

/-- A list of known length in two parts. -/
theorem exists_split {l : List Byte} (n m : Nat) (length : l.length = n + m) :
    ∃ before after, l = before ++ after ∧ before.length = n ∧ after.length = m :=
  ⟨l.take n, l.drop n, (List.take_append_drop n l).symm, by simp; omega, by simp; omega⟩

/-- What `send_helper` leaves in the reserved bytes: eight are still free. -/
theorem sendHelper_holds {c : Call} (fits : 28 + c.args.length < 2 ^ 32) :
    ∃ free, free.length = 8 ∧ (sendHelper c).Holds
      (free ++ (toBytesLE 8 c.verb.toNat ++ toBytesLE 8 c.msgId.toNat ++
        toBytesLE 4 c.args.length)) c.args := by
  have small : 28 ≤ chunkSize := by decide
  have holds : (marshall 28 c.uninit c.args).Holds ((List.range 28).map c.uninit) c.args :=
    allocate_holds (by simpa using small) (by simpa using fits)
  have payload := holds.bodySize (by simp) (by decide : 28 < 2 ^ 32)
  obtain ⟨free, l₁, split₁, free_len, len₁⟩ := exists_split 8 20
    (by simp : ((List.range 28).map c.uninit).length = 8 + 20)
  obtain ⟨v, l₂, rfl, v_len, len₂⟩ := exists_split 8 12 len₁
  obtain ⟨i, z, rfl, i_len, z_len⟩ := exists_split 8 4 len₂
  refine ⟨free, free_len, ?_⟩
  have verb := holds.writeFront free v (i ++ z) (toBytesLE 8 c.verb.toNat)
    (by rw [split₁, List.append_assoc]) free_len (by simp [v_len])
  have msgId := verb.writeFront (free ++ toBytesLE 8 c.verb.toNat) i z
    (toBytesLE 8 c.msgId.toNat) (by simp) rfl (by simp [i_len])
  have size := msgId.writeFront (free ++ toBytesLE 8 c.verb.toNat ++ toBytesLE 8 c.msgId.toNat)
    z [] (toBytesLE 4 c.args.length) (by simp) rfl (by simp [z_len])
  simp only [List.length_append, free_len, length_toBytesLE, Nat.reduceAdd] at msgId size
  simpa [sendHelper, payload, List.append_assoc] using size

/-- The response header takes the whole reserved space. -/
theorem respond_holds {msgId : BitVec 64} {data : SndBuf} {head body : List Byte}
    (holds : data.Holds head body) (reserved : head.length = 12) :
    (respond msgId data).Holds (toBytesLE 8 msgId.toNat ++ toBytesLE 4 body.length) body := by
  have payload := holds.bodySize reserved (by decide)
  obtain ⟨i, z, split, i_len, z_len⟩ := exists_split 8 4 reserved
  have id := holds.writeFront [] i z (toBytesLE 8 msgId.toNat) (by simpa using split) rfl
    (by simp [i_len])
  have size := id.writeFront (toBytesLE 8 msgId.toNat) z [] (toBytesLE 4 body.length)
    (by simp) rfl (by simp [z_len])
  simp only [List.length_nil, List.append_nil, length_toBytesLE] at size
  have same : (data.writeFront 0 (toBytesLE 8 msgId.toNat)).size = data.size := rfl
  simpa [respond, same, payload] using size

/-- The header a call goes out with. -/
def requestHeader (clock : Clock) (link : Link) (c : Call) (now : TimePoint) : List Byte :=
  (if link.timeoutNegotiated then
      toBytesLE 8 ((OutgoingEntry.ofCall c).left clock now).toNat else []) ++
    (toBytesLE 8 c.verb.toNat ++ toBytesLE 8 c.msgId.toNat ++ toBytesLE 4 c.args.length)

section

variable {clock : Clock} {codecs : Compressor → Codec} {link : Link}

/-- The send loop completes the header of a call before compressing it. -/
theorem outgoingBuffer_request {c : Call} (fits : 28 + c.args.length < 2 ^ 32)
    (now : TimePoint) :
    ∃ buf, buf.Holds (requestHeader clock link c now) c.args ∧
      outgoingBuffer clock codecs link .request now (.ofCall c) = compress codecs link buf := by
  obtain ⟨free, free_len, holds⟩ := sendHelper_holds fits
  refine ⟨_, ?_, rfl⟩
  have buf : (OutgoingEntry.ofCall c).buf = sendHelper c := rfl
  unfold requestHeader
  cases link.timeoutNegotiated
  · simpa [buf] using holds.trimFront free_len (by decide)
  · simpa [buf] using holds.writeFront [] free _
      (toBytesLE 8 ((OutgoingEntry.ofCall c).left clock now).toNat) rfl rfl (by simp [free_len])

theorem outgoingBuffer_response {r : Reply} (fits : 12 + r.answer.payload.length < 2 ^ 32)
    (now : TimePoint) :
    ∃ buf, buf.Holds (toBytesLE 8 (r.answer.wireId r.msgId).toNat ++
        toBytesLE 4 r.answer.payload.length) r.answer.payload ∧
      outgoingBuffer clock codecs link .response now (.ofReply r) =
        compress codecs link buf := by
  have small : 12 ≤ chunkSize := by decide
  have holds : (marshall 12 r.uninit r.answer.payload).Holds
      ((List.range 12).map r.uninit) r.answer.payload :=
    allocate_holds (by simpa using small) (by simpa using fits)
  exact ⟨_, respond_holds holds (by simp), rfl⟩

/-! ## The headers read -/

/-- An integer field between other fields. -/
theorem readLE_field {n offset x : Nat} {before after : List Byte}
    (position : before.length = offset) (fits : x < 256 ^ n) :
    readLE n (before ++ (toBytesLE n x ++ after)) offset = x := by
  rw [readLE, ← position, List.drop_left, List.take_left' (length_toBytesLE n x),
    ofBytesLE_toBytesLE_of_lt fits]

theorem requestFrame_decodeHeader (verb msgId : BitVec 64) {length : Nat}
    (fits : length < 2 ^ 32) :
    requestFrame.decodeHeader
        (toBytesLE 8 verb.toNat ++ toBytesLE 8 msgId.toNat ++ toBytesLE 4 length) =
      ⟨none, verb, msgId, BitVec.ofNat 32 length⟩ := by
  have type : readLE 8 (toBytesLE 8 verb.toNat ++ toBytesLE 8 msgId.toNat ++
      toBytesLE 4 length) 0 = verb.toNat := by
    simpa using @readLE_field 8 0 verb.toNat [] (toBytesLE 8 msgId.toNat ++ toBytesLE 4 length)
      rfl verb.isLt
  have id : readLE 8 (toBytesLE 8 verb.toNat ++ toBytesLE 8 msgId.toNat ++
      toBytesLE 4 length) 8 = msgId.toNat := by
    rw [List.append_assoc]
    exact readLE_field (by simp) msgId.isLt
  have size : readLE 4 (toBytesLE 8 verb.toNat ++ toBytesLE 8 msgId.toNat ++
      toBytesLE 4 length) 16 = length := by
    simpa using @readLE_field 4 16 length (toBytesLE 8 verb.toNat ++ toBytesLE 8 msgId.toNat) []
      (by simp) fits
  simp only [requestFrame, type, id, size, BitVec.ofNat_toNat, BitVec.setWidth_eq]

theorem requestFrameWithTimeout_decodeHeader (left verb msgId : BitVec 64) {length : Nat}
    (fits : length < 2 ^ 32) :
    requestFrameWithTimeout.decodeHeader (toBytesLE 8 left.toNat ++
        (toBytesLE 8 verb.toNat ++ toBytesLE 8 msgId.toNat ++ toBytesLE 4 length)) =
      ⟨some left, verb, msgId, BitVec.ofNat 32 length⟩ := by
  have expire : readLE 8 (toBytesLE 8 left.toNat ++ (toBytesLE 8 verb.toNat ++
      toBytesLE 8 msgId.toNat ++ toBytesLE 4 length)) 0 = left.toNat := by
    simpa using @readLE_field 8 0 left.toNat [] (toBytesLE 8 verb.toNat ++
      toBytesLE 8 msgId.toNat ++ toBytesLE 4 length) rfl left.isLt
  simp only [requestFrameWithTimeout, expire, List.drop_left' (length_toBytesLE 8 left.toNat),
    requestFrame_decodeHeader verb msgId fits, BitVec.ofNat_toNat, BitVec.setWidth_eq]

theorem responseFrame_decodeHeader (msgId : BitVec 64) {length : Nat}
    (fits : length < 2 ^ 32) :
    responseFrame.decodeHeader (toBytesLE 8 msgId.toNat ++ toBytesLE 4 length) =
      (msgId, BitVec.ofNat 32 length) := by
  have id : readLE 8 (toBytesLE 8 msgId.toNat ++ toBytesLE 4 length) 0 = msgId.toNat := by
    simpa using @readLE_field 8 0 msgId.toNat [] (toBytesLE 4 length) rfl msgId.isLt
  have size : readLE 4 (toBytesLE 8 msgId.toNat ++ toBytesLE 4 length) 8 = length := by
    simpa using @readLE_field 4 8 length (toBytesLE 8 msgId.toNat) [] (by simp) fits
  simp only [responseFrame, id, size, BitVec.ofNat_toNat, BitVec.setWidth_eq]

/-! ## One round of each loop -/

variable {σ : Type} [InputStream Byte σ]

/-- At the end of the bytes a frame comes back without data. -/
theorem readFrameCompressed_nil (codecs : Compressor → Codec) (link : Link)
    {Header Value : Type} (F : FrameType Header Value) {s : σ} (done : content s = [])
    (header : 0 < F.headerSize) :
    ∃ s', readFrameCompressed codecs link F s = some (F.emptyValue, s') := by
  unfold readFrameCompressed
  cases link.compressor with
  | some c =>
      have short : (readExactly 4 s).1.length ≠ 4 := by
        rw [readExactly_data, done]; decide
      exact ⟨_, by simp only [short, ne_eq, not_false_eq_true, if_true]; rfl⟩
  | none =>
      have short : (readExactly F.headerSize s).1.length ≠ F.headerSize := by
        rw [readExactly_data, done, List.take_nil]
        exact header.ne
      exact ⟨_, by simp only [readFrame, short, ne_eq, not_false_eq_true, if_true]; rfl⟩

/-- A frame that went through `compress` is not the empty string. -/
theorem compress_nonempty (inverse : ∀ c, link.compressor = some c → (codecs c).Inverse)
    {buf out : SndBuf} {header body : List Byte} (holds : buf.Holds header body)
    (some_header : header ≠ []) (compressed : compress codecs link buf = some out) :
    out.content ≠ [] := by
  cases used : link.compressor with
  | none =>
      simp only [compress, used, Option.some.injEq] at compressed
      subst compressed
      simp [holds.content_eq, some_header]
  | some c =>
      obtain ⟨_, _, data, _, _, _, _, wire⟩ :=
        compress_some used (inverse c used) holds compressed
      simp [wire, toBytesLE]

/-- The server reads a call as it was made; of the timeout it gets what the
header says. -/
theorem readRequest_spec (inverse : ∀ c, link.compressor = some c → (codecs c).Inverse)
    {c : Call} (fits : 28 + c.args.length < 2 ^ 32) {sent : TimePoint} (now : TimePoint)
    {out : SndBuf} {s : σ} {rest : List Byte}
    (written : outgoingBuffer clock codecs link .request sent (.ofCall c) = some out)
    (coming : content s = out.content ++ rest) :
    ∃ s', readRequest clock codecs link now s =
        some (some ⟨c.verb, c.msgId, c.args, requestTimeout clock now
          (if link.timeoutNegotiated then some ((OutgoingEntry.ofCall c).left clock sent)
            else none)⟩, s') ∧
      content s' = rest := by
  obtain ⟨buf, holds, same⟩ := @outgoingBuffer_request clock codecs link c fits sent
  rw [same] at written
  have small : c.args.length < 2 ^ 32 := by omega
  have size : (BitVec.ofNat 32 c.args.length).toNat = c.args.length := by
    simpa using Nat.mod_eq_of_lt small
  unfold readRequest readRequestFrameCompressed
  unfold requestHeader at holds
  cases negotiated : link.timeoutNegotiated with
  | false =>
      simp only [negotiated, Bool.false_eq_true, if_false, List.nil_append] at holds
      have decode := requestFrame_decodeHeader c.verb c.msgId small
      obtain ⟨rb, s', read, whole, later, _⟩ := readFrameCompressed_spec inverse requestFrame holds
        written coming (by simp [requestFrame]) (by rw [decode]; exact size)
      rw [decode] at read
      exact ⟨s', by simp only [Bool.false_eq_true, if_false, read, Option.map_some,
        requestFrame_makeValue, whole], later⟩
  | true =>
      simp only [negotiated, if_true] at holds
      have decode := requestFrameWithTimeout_decodeHeader
        ((OutgoingEntry.ofCall c).left clock sent) c.verb c.msgId small
      obtain ⟨rb, s', read, whole, later, _⟩ := readFrameCompressed_spec inverse requestFrameWithTimeout
        holds written coming (by simp [requestFrameWithTimeout]) (by rw [decode]; exact size)
      rw [decode] at read
      exact ⟨s', by simp only [if_true, read, Option.map_some, requestFrameWithTimeout_makeValue,
        whole], later⟩

/-- The client reads a reply under the id it was sent with. -/
theorem readResponse_spec (inverse : ∀ c, link.compressor = some c → (codecs c).Inverse)
    {r : Reply} (fits : 12 + r.answer.payload.length < 2 ^ 32) {sent : TimePoint}
    {out : SndBuf} {s : σ} {rest : List Byte}
    (written : outgoingBuffer clock codecs link .response sent (.ofReply r) = some out)
    (coming : content s = out.content ++ rest) :
    ∃ s', readResponse codecs link s =
        some (some ⟨r.answer.wireId r.msgId, r.answer.payload⟩, s') ∧ content s' = rest := by
  obtain ⟨buf, holds, same⟩ := @outgoingBuffer_response clock codecs link r fits sent
  rw [same] at written
  have small : r.answer.payload.length < 2 ^ 32 := by omega
  have size : (BitVec.ofNat 32 r.answer.payload.length).toNat = r.answer.payload.length := by
    simpa using Nat.mod_eq_of_lt small
  have decode := responseFrame_decodeHeader (r.answer.wireId r.msgId) small
  obtain ⟨rb, s', read, whole, later, _⟩ := readFrameCompressed_spec inverse responseFrame holds written
    coming (by simp [responseFrame]) (by rw [decode]; exact size)
  rw [decode] at read
  exact ⟨s', by simp only [readResponse, read, Option.map_some, responseFrame_makeValue, whole],
    later⟩

end

/-! ## Whole runs of the loops -/

section

variable {σ : Type} [InputStream Byte σ] {α β ε : Type}

/-- The entries a send loop writes: it stops at the first that fails. -/
def written (write : ε → Option SndBuf) (es : List ε) : List ε :=
  es.takeWhile fun e => (write e).isSome

theorem writeLoop_map {ε' : Type} (f : ε' → ε) (write : ε → Option SndBuf) (es : List ε') :
    writeLoop write (es.map f) = writeLoop (fun e => write (f e)) es := by
  induction es with
  | nil => rfl
  | cons e es ih => simp only [List.map_cons, writeLoop, ih]

/-- A loop that finds no more bytes ends. -/
theorem readLoop_nil {next : Nat → σ → Option (Option α × σ)}
    (finish : ∀ fuel s, content s = [] → ∃ s', next fuel s = some (none, s')) {s : σ}
    (done : content s = []) {fuel : Nat} (enough : 0 < fuel) :
    readLoop next fuel s = some [] := by
  cases fuel with
  | zero => exact absurd enough (Nat.lt_irrefl 0)
  | succ fuel =>
      obtain ⟨s', read⟩ := finish fuel s done
      simp only [readLoop, read, ite_self]

/-- If one round reads what one entry wrote, the loop reads what all of them
wrote, in their order. -/
theorem readLoop_spec {next : Nat → σ → Option (Option α × σ)} {write : ε → Option SndBuf}
    {view : α → β} {expected : ε → β} {es : List ε}
    (one : ∀ e ∈ es, ∀ out, write e = some out → out.content ≠ [] ∧
      ∀ fuel s rest, content s = out.content ++ rest →
        ∃ a s', next fuel s = some (some a, s') ∧ view a = expected e ∧ content s' = rest)
    (finish : ∀ fuel s, content s = [] → ∃ s', next fuel s = some (none, s'))
    {s : σ} (coming : content s = writeLoop write es) {fuel : Nat} (enough : es.length < fuel) :
    ∃ as, readLoop next fuel s = some as ∧ as.map view = (written write es).map expected := by
  induction es generalizing s fuel with
  | nil => exact ⟨[], readLoop_nil finish coming (by omega), rfl⟩
  | cons e es ih =>
      cases wrote : write e with
      | none =>
          have nothing : content s = [] := by simpa only [writeLoop, wrote] using coming
          exact ⟨[], readLoop_nil finish nothing (by omega), by simp [written, wrote]⟩
      | some out =>
          simp only [writeLoop, wrote] at coming
          obtain ⟨nonempty, reads⟩ := one e List.mem_cons_self out wrote
          cases fuel with
          | zero => exact absurd enough (Nat.not_lt_zero _)
          | succ fuel =>
              obtain ⟨a, s', first, seen, later⟩ := reads fuel s _ coming
              obtain ⟨as, rest, views⟩ := ih (fun e mem => one e (List.mem_cons_of_mem _ mem))
                later (by simpa using enough)
              have more : eof s = false := by
                by_contra atEnd
                have empty := eof_content s (by simpa using atEnd)
                rw [coming] at empty
                exact nonempty (List.append_eq_nil_iff.mp empty).1
              refine ⟨a :: as, ?_, ?_⟩
              · simp only [readLoop, more, Bool.false_eq_true, if_false, first, rest,
                  Option.map_some]
              · simp [written, wrote, seen, views]

end

/-! ## The round trip -/

section

variable (clock : Clock) (codecs : Compressor → Codec) (link : Link)

/-- The calls that go out, each with the time at which the send loop takes it. -/
def writtenCalls (calls : List (Call × TimePoint)) : List (Call × TimePoint) :=
  written (fun c => outgoingBuffer clock codecs link .request c.2 (.ofCall c.1)) calls

/-- The replies that go out. -/
def writtenReplies (replies : List (Reply × TimePoint)) : List (Reply × TimePoint) :=
  written (fun r => outgoingBuffer clock codecs link .response r.2 (.ofReply r.1)) replies

/-- The bytes on the wire for a list of calls. -/
def requestBytes (calls : List (Call × TimePoint)) : List Byte :=
  sendLoop clock codecs link .request (calls.map fun c => (.ofCall c.1, c.2))

/-- The bytes on the wire for a list of replies. -/
def responseBytes (replies : List (Reply × TimePoint)) : List Byte :=
  sendLoop clock codecs link .response (replies.map fun r => (.ofReply r.1, r.2))

/-- A request without the value of its deadline. -/
def Request.view (r : Request) : BitVec 64 × BitVec 64 × List Byte × Bool :=
  (r.type, r.msgId, r.payload, r.timeout.isSome)

end

variable {clock : Clock} {codecs : Compressor → Codec} {link : Link}

/-- The milliseconds left are zero when less than one of them is. -/
theorem millisecondsLeft_eq_zero (clock : Clock) {t sent : TimePoint} (unexpired : sent < t) :
    millisecondsLeft clock t sent = 0#64 ↔ t.val - sent.val < clock.ticksPerMs := by
  have later : sent.val < t.val := unexpired
  have remaining : (t.val : Int) - sent.val = ((t.val - sent.val : Nat) : Int) := by omega
  have bound : (t.val - sent.val) / clock.ticksPerMs < 2 ^ 64 := by
    have := Nat.div_le_self (t.val - sent.val) clock.ticksPerMs
    have := t.isLt
    omega
  rw [millisecondsLeft, remaining, ← Int.ofNat_tdiv, BitVec.ofInt_natCast]
  constructor
  · intro zero
    have value := congrArg BitVec.toNat zero
    rw [BitVec.toNat_ofNat, Nat.mod_eq_of_lt bound] at value
    exact (Nat.div_eq_zero_iff_lt clock.positive).mp value
  · intro short
    rw [Nat.div_eq_of_lt short]

/-- The server has a deadline when one was sent and a whole millisecond was
left of it. -/
theorem requestTimeout_isSome {c : Call} {sent : TimePoint}
    (unexpired : ∀ t, c.timeout = some t → sent < t) (now : TimePoint) :
    (requestTimeout clock now (if link.timeoutNegotiated then
        some ((OutgoingEntry.ofCall c).left clock sent) else none)).isSome =
      (link.timeoutNegotiated &&
        c.timeout.any fun t => decide (clock.ticksPerMs ≤ t.val - sent.val)) := by
  cases link.timeoutNegotiated with
  | false => rfl
  | true =>
      cases deadline : c.timeout with
      | none => simp [requestTimeout, OutgoingEntry.left, OutgoingEntry.ofCall, deadline]
      | some t =>
          have later := unexpired t deadline
          have armed : t ≠ 0 := fun zero => absurd (zero ▸ later) (Fin.not_lt_zero sent)
          by_cases short : t.val - sent.val < clock.ticksPerMs
          · have zero := (millisecondsLeft_eq_zero clock later).mpr short
            simp [requestTimeout, OutgoingEntry.left, OutgoingEntry.ofCall, deadline, armed,
              zero, Nat.not_le.mpr short]
          · have nonzero := mt (millisecondsLeft_eq_zero clock later).mp short
            simp [requestTimeout, OutgoingEntry.left, OutgoingEntry.ofCall, deadline, armed,
              nonzero, Nat.not_lt.mp short]

/-- What the server should see of a call. -/
def Call.view (link : Link) (c : Call) : BitVec 64 × BitVec 64 × List Byte × Bool :=
  (c.verb, c.msgId, c.args, c.timeout.isSome && link.timeoutNegotiated)

/-- What the server sees of a call. -/
def Call.received (clock : Clock) (link : Link) (c : Call) (sent : TimePoint) :
    BitVec 64 × BitVec 64 × List Byte × Bool :=
  (c.verb, c.msgId, c.args, link.timeoutNegotiated &&
    c.timeout.any fun t => decide (clock.ticksPerMs ≤ t.val - sent.val))

section

variable {σ : Type} [InputStream Byte σ]

/-- The server reads exactly the calls that were written, in their order. -/
theorem serverLoop_sendLoop
    (inverse : ∀ c, link.compressor = some c → (codecs c).Inverse)
    {calls : List (Call × TimePoint)}
    (fits : ∀ c ∈ calls, c.1.args.length < 2 ^ 32 - 28)
    (unexpired : ∀ c ∈ calls, ∀ t, c.1.timeout = some t → c.2 < t)
    {s : σ} (coming : content s = requestBytes clock codecs link calls)
    (now : Nat → TimePoint) {fuel : Nat} (enough : calls.length < fuel) :
    ∃ requests, serverLoop clock codecs link now fuel s = some requests ∧
      requests.map Request.view =
        (writtenCalls clock codecs link calls).map fun c => c.1.received clock link c.2 := by
  rw [requestBytes, sendLoop, writeLoop_map] at coming
  refine readLoop_spec ?_ ?_ coming enough
  · intro c mem out wrote
    have small : 28 + c.1.args.length < 2 ^ 32 := by have := fits c mem; omega
    obtain ⟨buf, holds, same⟩ := @outgoingBuffer_request clock codecs link c.1 small c.2
    refine ⟨compress_nonempty inverse holds ?_ (same ▸ wrote), ?_⟩
    · simp [requestHeader, toBytesLE]
    · intro fuel s rest arriving
      obtain ⟨s', read, later⟩ := readRequest_spec inverse small (now fuel) wrote arriving
      exact ⟨_, s', read, by
        simp only [Request.view, Call.received, requestTimeout_isSome (unexpired c mem)], later⟩
  · intro fuel s done
    unfold readRequest readRequestFrameCompressed
    cases link.timeoutNegotiated
    · obtain ⟨s', read⟩ := readFrameCompressed_nil codecs link requestFrame done (by decide)
      exact ⟨s', by simp only [Bool.false_eq_true, if_false, read]; rfl⟩
    · obtain ⟨s', read⟩ :=
        readFrameCompressed_nil codecs link requestFrameWithTimeout done (by decide)
      exact ⟨s', by simp only [if_true, read]; rfl⟩

/-- The client reads exactly the replies that were written, in their order. -/
theorem clientLoop_sendLoop
    (inverse : ∀ c, link.compressor = some c → (codecs c).Inverse)
    {replies : List (Reply × TimePoint)}
    (fits : ∀ r ∈ replies, r.1.answer.payload.length < 2 ^ 32 - 12)
    {s : σ} (coming : content s = responseBytes clock codecs link replies)
    {fuel : Nat} (enough : replies.length < fuel) :
    clientLoop codecs link fuel s = some ((writtenReplies clock codecs link replies).map
      fun r => ⟨r.1.answer.wireId r.1.msgId, r.1.answer.payload⟩) := by
  rw [responseBytes, sendLoop, writeLoop_map] at coming
  obtain ⟨as, loop, views⟩ : ∃ as, clientLoop codecs link fuel s = some as ∧ as.map id =
      (writtenReplies clock codecs link replies).map fun r =>
        ⟨r.1.answer.wireId r.1.msgId, r.1.answer.payload⟩ := by
    refine readLoop_spec ?_ ?_ coming enough
    · intro r mem out wrote
      have small : 12 + r.1.answer.payload.length < 2 ^ 32 := by have := fits r mem; omega
      obtain ⟨buf, holds, same⟩ := @outgoingBuffer_response clock codecs link r.1 small r.2
      refine ⟨compress_nonempty inverse holds ?_ (same ▸ wrote), ?_⟩
      · simp [toBytesLE]
      · intro fuel s rest arriving
        obtain ⟨s', read, later⟩ := readResponse_spec inverse small wrote arriving
        exact ⟨_, s', read, rfl, later⟩
    · intro fuel s done
      obtain ⟨s', read⟩ := readFrameCompressed_nil codecs link responseFrame done (by decide)
      exact ⟨s', by simp only [readResponse, read]; rfl⟩
  rw [loop, ← views, List.map_id]

end

/-- What a call is resolved with when the server answers so. -/
def Answer.outcome : Answer → Outcome
  | value payload => .value payload
  | userException what => .userException what
  | unknownVerb type => .unknownVerb type

/-- Taking an integer field off the front of a stream. -/
theorem take?_field (n x : Nat) (rest : List Byte) :
    take? n (toBytesLE n x ++ rest) = some (toBytesLE n x, rest) := by
  simp [take?, List.splitAt_eq]

theorem unmarshalException_user {what : List Byte} (fits : what.length < 2 ^ 32) :
    unmarshalException (Answer.userException what).payload = some (.userException what) := by
  have length : ofBytesLE (toBytesLE 4 what.length) = what.length :=
    ofBytesLE_toBytesLE_of_lt fits
  have type : ofBytesLE (toBytesLE 4 0) = 0 := rfl
  simp only [unmarshalException, Answer.payload, List.append_assoc, take?_field,
    Option.bind_eq_bind, Option.bind_some, type, length]
  simp [take?, List.splitAt_eq]

theorem unmarshalException_unknownVerb (type : BitVec 64) :
    unmarshalException (Answer.unknownVerb type).payload = some (.unknownVerb type) := by
  have kind : ofBytesLE (toBytesLE 4 1) = 1 := rfl
  have value : ofBytesLE (toBytesLE 8 type.toNat) = type.toNat :=
    ofBytesLE_toBytesLE_of_lt type.isLt
  have field := take?_field 8 type.toNat []
  rw [List.append_nil] at field
  simp only [unmarshalException, Answer.payload, List.append_assoc, take?_field, field,
    Option.bind_eq_bind, Option.bind_some, kind, value, BitVec.ofNat_toNat, BitVec.setWidth_eq]

/-- The sign of the id and the payload say what the server answered. -/
theorem outcome_answer {msgId : BitVec 64} (positive : 0 < msgId.toInt) {answer : Answer}
    (fits : answer.payload.length < 2 ^ 32) :
    (⟨answer.wireId msgId, answer.payload⟩ : Response).outcome = some answer.outcome := by
  have negative : ¬ 0 ≤ (-msgId).toInt := by
    have bound := @BitVec.toInt_lt 64 msgId
    rw [BitVec.toInt_neg, Int.bmod_def]
    omega
  cases answer with
  | value payload =>
      simp only [Response.outcome, Answer.wireId, positive.le, if_true]
      rfl
  | userException what =>
      have short : what.length < 2 ^ 32 := by
        simp only [Answer.payload, List.length_append, length_toBytesLE] at fits
        omega
      simp only [Response.outcome, Answer.wireId, negative, if_false]
      exact unmarshalException_user short
  | unknownVerb type =>
      simp only [Response.outcome, Answer.wireId, negative, if_false]
      exact unmarshalException_unknownVerb type

/-! ## Agreement of the two ends -/

/-- The server reads what the client's calls were, with a deadline exactly for
the calls that have one, when timeouts were negotiated. -/
def RequestsRoundTrip (clock : Clock) (codecs : Compressor → Codec) (link : Link)
    (calls : List (Call × TimePoint)) : Prop :=
  ∀ (σ : Type) [InputStream Byte σ] (s : σ) (now : Nat → TimePoint) (fuel : Nat),
    content s = requestBytes clock codecs link calls → calls.length < fuel →
    ∃ requests, serverLoop clock codecs link now fuel s = some requests ∧
      requests.map Request.view =
        (writtenCalls clock codecs link calls).map fun c => c.1.view link

/-- The client reads what the server's replies were. -/
def ResponsesRoundTrip (clock : Clock) (codecs : Compressor → Codec) (link : Link)
    (replies : List (Reply × TimePoint)) : Prop :=
  ∀ (σ : Type) [InputStream Byte σ] (s : σ) (fuel : Nat),
    content s = responseBytes clock codecs link replies → replies.length < fuel →
    clientLoop codecs link fuel s = some ((writtenReplies clock codecs link replies).map
      fun r => ⟨r.1.answer.wireId r.1.msgId, r.1.answer.payload⟩)

/-- Every written call with a deadline had a whole millisecond left, as far as
deadlines travel at all. -/
def DeadlinesWhole (clock : Clock) (codecs : Compressor → Codec) (link : Link)
    (calls : List (Call × TimePoint)) : Prop :=
  link.timeoutNegotiated = true → ∀ c ∈ writtenCalls clock codecs link calls, ∀ t,
    c.1.timeout = some t → clock.ticksPerMs ≤ t.val - c.2.val

/-- A call arrives as it should exactly when its deadline is a whole one. -/
theorem received_eq_view {c : Call} {sent : TimePoint} :
    c.received clock link sent = c.view link ↔
      (link.timeoutNegotiated = true → ∀ t, c.timeout = some t →
        clock.ticksPerMs ≤ t.val - sent.val) := by
  cases deadline : c.timeout <;> cases negotiated : link.timeoutNegotiated <;>
    simp [Call.received, Call.view, deadline, negotiated]

theorem requestsRoundTrip_iff
    (inverse : ∀ c, link.compressor = some c → (codecs c).Inverse)
    {calls : List (Call × TimePoint)}
    (fits : ∀ c ∈ calls, c.1.args.length < 2 ^ 32 - 28)
    (unexpired : ∀ c ∈ calls, ∀ t, c.1.timeout = some t → c.2 < t) :
    RequestsRoundTrip clock codecs link calls ↔ DeadlinesWhole clock codecs link calls := by
  constructor
  · intro roundTrip negotiated c mem
    let s : Chunked Byte := ⟨[requestBytes clock codecs link calls], false⟩
    have whole : content s = requestBytes clock codecs link calls := by simp [s, content]
    obtain ⟨rs, loop, seen⟩ := roundTrip (Chunked Byte) s (fun _ => 0) _ whole
      (Nat.lt_succ_self _)
    obtain ⟨rs', loop', seen'⟩ := serverLoop_sendLoop inverse fits unexpired whole
      (fun _ => 0) (Nat.lt_succ_self _)
    cases loop.symm.trans loop'
    exact received_eq_view.mp (List.map_inj_left.mp (seen'.symm.trans seen) c mem) negotiated
  · intro deadlines σ _ s now fuel coming enough
    obtain ⟨rs, loop, seen⟩ := serverLoop_sendLoop inverse fits unexpired coming now enough
    exact ⟨rs, loop, seen.trans (List.map_congr_left fun c mem =>
      received_eq_view.mpr fun negotiated => deadlines negotiated c mem)⟩

/-- Requests and responses are read back as they were written exactly when no
written call had less than a millisecond to its deadline. -/
theorem frames_round_trip_iff
    (inverse : ∀ c, link.compressor = some c → (codecs c).Inverse)
    {calls : List (Call × TimePoint)} {replies : List (Reply × TimePoint)}
    (fits : ∀ c ∈ calls, c.1.args.length < 2 ^ 32 - 28)
    (unexpired : ∀ c ∈ calls, ∀ t, c.1.timeout = some t → c.2 < t)
    (repliesFit : ∀ r ∈ replies, r.1.answer.payload.length < 2 ^ 32 - 12) :
    RequestsRoundTrip clock codecs link calls ∧ ResponsesRoundTrip clock codecs link replies ↔
      DeadlinesWhole clock codecs link calls := by
  rw [requestsRoundTrip_iff inverse fits unexpired]
  exact and_iff_left fun σ _ s fuel coming enough =>
    clientLoop_sendLoop inverse repliesFit coming enough

/-- A compressor that only makes room in front. -/
def copyCodec : Codec where
  compress n b :=
    if b.size.toNat + n < 2 ^ 32 then
      some ⟨b.size + BitVec.ofNat 32 n, List.replicate n 0#8 :: b.bufs⟩
    else none
  decompress r := some r

theorem copyCodec_compress {n : Nat} {b out : SndBuf} {head body : List Byte}
    (holds : b.Holds head body) (done : copyCodec.compress n b = some out) :
    out.Holds (List.replicate n 0#8) (head ++ body) := by
  simp only [copyCodec] at done
  split at done
  · rename_i fits
    cases done
    exact {
      size_eq := by
        have size := holds.size_eq
        simp only [BitVec.toNat_add, BitVec.toNat_ofNat, Nat.add_mod_mod, List.length_replicate,
          List.length_append]
        rw [Nat.mod_eq_of_lt fits]
        omega
      front := ⟨[], b.bufs, by simp, by simpa [SndBuf.content] using holds.content_eq⟩ }
  · cases done

theorem copyCodec_inverse : copyCodec.Inverse where
  headSpace holds done :=
    ⟨_, _, List.length_replicate, copyCodec_compress holds done⟩
  inverse {n b head body out space data r} holds done spaceLength outHolds received := by
    have same := (copyCodec_compress holds done).content_eq.symm.trans outHolds.content_eq
    have data_eq := (List.append_inj' same (by
      have length := congrArg List.length same
      simp only [List.length_append, List.length_replicate, spaceLength] at length
      simp only [List.length_append]
      omega)).2
    exact ⟨r, rfl, received.trans data_eq.symm⟩

/-- **Frame round trip.** On a clock that ticks once in a millisecond, whatever is
sent before its deadline is read back as it was written, with a deadline exactly
for the calls that have one; and each reply says what the server answered. -/
theorem frames_round_trip
    (inverse : ∀ c, link.compressor = some c → (codecs c).Inverse)
    (lowres : clock.ticksPerMs = 1)
    {calls : List (Call × TimePoint)} {replies : List (Reply × TimePoint)}
    (fits : ∀ c ∈ calls, c.1.args.length < 2 ^ 32 - 28)
    (unexpired : ∀ c ∈ calls, ∀ t, c.1.timeout = some t → c.2 < t)
    (repliesFit : ∀ r ∈ replies, r.1.answer.payload.length < 2 ^ 32 - 12) :
    RequestsRoundTrip clock codecs link calls ∧ ResponsesRoundTrip clock codecs link replies ∧
      ∀ r ∈ replies, 0 < r.1.msgId.toInt →
        (⟨r.1.answer.wireId r.1.msgId, r.1.answer.payload⟩ : Response).outcome =
          some r.1.answer.outcome := by
  have whole : DeadlinesWhole clock codecs link calls := by
    intro _ c written t deadline
    have mem : c ∈ calls := List.takeWhile_subset _ written
    have later : c.2.val < t.val := unexpired c mem t deadline
    omega
  obtain ⟨requests, responses⟩ :=
    (frames_round_trip_iff inverse fits unexpired repliesFit).mpr whole
  refine ⟨requests, responses, fun r mem positive => outcome_answer positive ?_⟩
  have small := repliesFit r mem
  omega

/-- Two calls, one of them due in ten milliseconds, over a compressing link. -/
theorem frames_round_trip_copied :
    RequestsRoundTrip ⟨1, 2 ^ 63 - 1, by decide⟩ (fun _ => copyCodec) ⟨some ⟨[0x63]⟩, true⟩
        [(⟨7#64, 1#64, [1, 2, 3], some 20, fun _ => 0⟩, 10),
          (⟨7#64, 2#64, [], none, fun _ => 0⟩, 10)] ∧
      ResponsesRoundTrip ⟨1, 2 ^ 63 - 1, by decide⟩ (fun _ => copyCodec) ⟨some ⟨[0x63]⟩, true⟩
        [(⟨1#64, .userException [0x6e, 0x6f], fun _ => 0⟩, 0)] := by
  obtain ⟨requests, responses, _⟩ := @frames_round_trip ⟨1, 2 ^ 63 - 1, by decide⟩
    (fun _ => copyCodec) ⟨some ⟨[0x63]⟩, true⟩ (fun _ _ => copyCodec_inverse) rfl
    [(⟨7#64, 1#64, [1, 2, 3], some 20, fun _ => 0⟩, 10),
      (⟨7#64, 2#64, [], none, fun _ => 0⟩, 10)]
    [(⟨1#64, .userException [0x6e, 0x6f], fun _ => 0⟩, 0)] (by decide) (by simp) (by decide)
  exact ⟨requests, responses⟩

end ActorNet.Rpc
