import ActorNet.Lib.Bytes

/-!
# Send and receive buffers

An `rpc::snd_buf` is a list of memory chunks with its size kept beside it, and
headers are written into space reserved at its front. `SndBuf.Holds b head`
says what every writer relies on: the size is the real one and the first chunk
holds at least the reserved bytes. Under it, the writes act on the content as
on one byte string.
-/

namespace ActorNet.Rpc

open Lib

/-- `snd_buf::chunk_size`. -/
def chunkSize : Nat := 128 * 1024

/-- `snd_buf`; a single `temporary_buffer` is a list of one. -/
structure SndBuf where
  size : BitVec 32
  bufs : List (List Byte)
  deriving DecidableEq, Repr

/-- `rcv_buf`. -/
structure RcvBuf where
  size : BitVec 32
  bufs : List (List Byte)
  deriving DecidableEq, Repr

def SndBuf.content (b : SndBuf) : List Byte := b.bufs.flatten

def RcvBuf.content (b : RcvBuf) : List Byte := b.bufs.flatten

/-- `rcv_buf()`. -/
def RcvBuf.empty : RcvBuf := ⟨0#32, []⟩

/-- The chunks `snd_buf(size_t)` allocates, once filled with the given bytes. -/
def cutChunks (content : List Byte) : List (List Byte) :=
  if content.length ≤ chunkSize then [content]
  else content.take chunkSize :: cutChunks (content.drop chunkSize)
termination_by content.length
decreasing_by
  have positive : 0 < chunkSize := by decide
  simp only [List.length_drop]
  omega

/-- `marshall`: the serialized arguments behind `headSpace` bytes that are left
uninitialized, `uninit` being what the allocation happened to contain. -/
def marshall (headSpace : Nat) (uninit : Nat → Byte) (args : List Byte) : SndBuf :=
  let content := (List.range headSpace).map uninit ++ args
  ⟨BitVec.ofNat 32 content.length, cutChunks content⟩

/-- Write bytes at an offset into `front().get_write()`. -/
def SndBuf.writeFront (b : SndBuf) (offset : Nat) (bytes : List Byte) : SndBuf :=
  { b with bufs := match b.bufs with
    | [] => []
    | c :: cs => (c.take offset ++ bytes ++ c.drop (offset + bytes.length)) :: cs }

/-- `front().trim_front(n)` with the size adjusted. -/
def SndBuf.trimFront (b : SndBuf) (n : Nat) : SndBuf where
  size := b.size - BitVec.ofNat 32 n
  bufs := match b.bufs with
    | [] => []
    | c :: cs => c.drop n :: cs

/-- The size is right, and the first chunk begins with the whole of `head`. -/
structure SndBuf.Holds (b : SndBuf) (head body : List Byte) : Prop where
  size_eq : b.size.toNat = head.length + body.length
  front : ∃ tail cs, b.bufs = (head ++ tail) :: cs ∧ tail ++ cs.flatten = body

theorem SndBuf.Holds.content_eq {b : SndBuf} {head body : List Byte}
    (holds : b.Holds head body) : b.content = head ++ body := by
  obtain ⟨tail, cs, front, rest⟩ := holds.front
  rw [SndBuf.content, front, List.flatten_cons, List.append_assoc, rest]

theorem flatten_cutChunks (content : List Byte) : (cutChunks content).flatten = content := by
  induction content using cutChunks.induct with
  | case1 content short => simp [cutChunks, short]
  | case2 content long ih =>
      rw [cutChunks, if_neg long, List.flatten_cons, ih, List.take_append_drop]

/-- The first chunk of an allocation holds any head up to the chunk size. -/
theorem front_cutChunks {head : List Byte} (small : head.length ≤ chunkSize)
    (body : List Byte) :
    ∃ tail cs, cutChunks (head ++ body) = (head ++ tail) :: cs ∧ tail ++ cs.flatten = body := by
  rw [cutChunks]
  split
  · exact ⟨body, [], rfl, List.append_nil body⟩
  · refine ⟨body.take (chunkSize - head.length), cutChunks ((head ++ body).drop chunkSize),
      ?_, ?_⟩
    · rw [List.take_append, List.take_of_length_le small]
    · rw [flatten_cutChunks, List.drop_append, List.drop_of_length_le small, List.nil_append,
        List.take_append_drop]

/-- A buffer allocated for a head and a body holds them. -/
theorem allocate_holds {head body : List Byte} (small : head.length ≤ chunkSize)
    (fits : head.length + body.length < 2 ^ 32) :
    (⟨BitVec.ofNat 32 (head ++ body).length, cutChunks (head ++ body)⟩ : SndBuf).Holds
      head body where
  size_eq := by
    simp only [BitVec.toNat_ofNat, List.length_append]
    exact Nat.mod_eq_of_lt fits
  front := front_cutChunks small body

namespace SndBuf.Holds

variable {b : SndBuf} {head body : List Byte}

/-- Writing inside the reserved head. -/
theorem writeFront (holds : b.Holds head body) (before old after bytes : List Byte)
    {offset : Nat} (split : head = before ++ old ++ after) (position : before.length = offset)
    (same : bytes.length = old.length) :
    (b.writeFront offset bytes).Holds (before ++ bytes ++ after) body := by
  obtain ⟨tail, cs, front, rest⟩ := holds.front
  subst split position
  exact {
    size_eq := by
      have size := holds.size_eq
      simp only [List.length_append, same] at size ⊢
      exact size
    front := ⟨tail, cs, by
      simp [SndBuf.writeFront, front, same, List.drop_append, List.append_assoc], rest⟩ }

/-- Trimming reserved bytes off the front. -/
theorem trimFront {before after : List Byte} {n : Nat} (holds : b.Holds (before ++ after) body)
    (count : before.length = n) (small : n < 2 ^ 32) : (b.trimFront n).Holds after body := by
  obtain ⟨tail, cs, front, rest⟩ := holds.front
  subst count
  exact {
    size_eq := by
      have size := holds.size_eq
      have count : (BitVec.ofNat 32 before.length).toNat = before.length := by
        simpa using Nat.mod_eq_of_lt small
      simp only [List.length_append] at size
      rw [SndBuf.trimFront, BitVec.toNat_sub_of_le (by
        rw [BitVec.le_def, count, size]; omega), count, size]
      omega
    front := ⟨tail, cs, by simp [SndBuf.trimFront, front, List.append_assoc], rest⟩ }

end SndBuf.Holds

end ActorNet.Rpc
