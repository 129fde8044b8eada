import ActorNet.Lib.OutputStream
import ActorNet.Http.Shutdown

/-!
# Chunked replies

The body writer of a reply writes to a stream whose sink makes a chunk of every
buffer, and the connection ends the body once the writer has succeeded. What a
reader of the chunked encoding makes of the bytes is stated beside it: it finds
the chunks up to the first that is empty.
-/

namespace ActorNet.Http

open Lib BoundedQueue Connection

/-! ## The code -/

def crlf : List UInt8 := [0x0D, 0x0A]

def hexDigit (n : Nat) : UInt8 := UInt8.ofNat (if n < 10 then 48 + n else 87 + n)

/-- What `{:x}` makes of a size. -/
def formatHex (n : Nat) : List UInt8 :=
  if n < 16 then [hexDigit n] else formatHex (n / 16) ++ [hexDigit (n % 16)]

/-- `http_chunked_data_sink_impl::put`: an empty buffer is ignored. -/
def putChunk (buf : List UInt8) : List UInt8 :=
  if buf.length = 0 then [] else formatHex buf.length ++ crlf ++ buf ++ crlf

/-- What a body writer does to its stream before it closes it. -/
inductive BodyOp
  | write (data : List UInt8)
  | flush
  deriving DecidableEq, Repr

def BodyOp.data : BodyOp → List UInt8
  | .write data => data
  | .flush => []

/-- All that is written. -/
def written (ops : List BodyOp) : List UInt8 := ops.flatMap BodyOp.data

section

variable {S : Type} [OutputStream UInt8 S]

def BodyOp.run (s : S) : BodyOp → List (List UInt8) × S
  | .write data => OutputStream.write data s
  | .flush => OutputStream.flush s

/-- The buffers that the operations put, and those of `close`. -/
def runOps (s : S) (closes : Bool) : List BodyOp → List (List UInt8)
  | [] => if closes then (OutputStream.close s).1 else []
  | op :: ops => (op.run s).1 ++ runOps (op.run s).2 closes ops

variable (S)

/-- What the body writer gets out through `make_http_chunked_output_stream`. -/
def chunkedBody (ops : List BodyOp) (closes : Bool) : List UInt8 :=
  (runOps (OutputStream.ofSize 32000 : S) closes ops).flatMap putChunk

end

/-- The end of the body, which `start_response` writes. -/
def lastChunk : List UInt8 := 0x30 :: crlf ++ crlf

/-- The bytes that a step of the writer adds behind the headers, for a reply with
this body. A body writer that fails may have got out a part of it. -/
def Writer.emits (body : List UInt8) (sent : Nat) : Writer → Event → List UInt8
  | .writingBody, .write => body
  | .writingBody, .writeFails => body.take sent
  | .writingEnd, .write => lastChunk
  | _, _ => []

/-- The bytes that a run adds. -/
def emitted {Q : Type} [BoundedQueue (Option Reply) Q] (server : Server) (body : List UInt8)
    (sent : Nat) (c : Connection Q) : List Event → List UInt8
  | [] => []
  | e :: es =>
      c.writer.emits body sent e ++
        match step server c e with
        | none => []
        | some c' => emitted server body sent c' es

/-! ## The chunked encoding -/

/-- The value of a hexadecimal digit. -/
def hexDigitValue (b : UInt8) : Option Nat :=
  if 48 ≤ b.toNat ∧ b.toNat ≤ 57 then some (b.toNat - 48)
  else if 97 ≤ b.toNat ∧ b.toNat ≤ 102 then some (b.toNat - 87)
  else if 65 ≤ b.toNat ∧ b.toNat ≤ 70 then some (b.toNat - 55)
  else none

/-- Hexadecimal digits up to the end of the line. -/
def readHex (acc : Nat) : List UInt8 → Option (Nat × List UInt8)
  | [] => none
  | b :: bytes =>
      match hexDigitValue b with
      | some digit => readHex (16 * acc + digit) bytes
      | none => if b = 0x0D ∧ bytes.head? = some 0x0A then some (acc, bytes.tail) else none

/-- The size at the begin of a chunk: one digit at least. -/
def readSize : List UInt8 → Option (Nat × List UInt8)
  | [] => none
  | b :: bytes =>
      match hexDigitValue b with
      | some digit => readHex digit bytes
      | none => none

theorem readHex_shorter {acc n : Nat} {bytes rest : List UInt8}
    (read : readHex acc bytes = some (n, rest)) : rest.length < bytes.length := by
  induction bytes generalizing acc with
  | nil => cases read
  | cons b bytes ih =>
      rw [readHex] at read
      split at read
      · have shorter := ih read
        rw [List.length_cons]
        omega
      · split at read
        · cases read
          rw [List.length_tail, List.length_cons]
          omega
        · cases read

theorem readSize_shorter {n : Nat} {bytes rest : List UInt8}
    (read : readSize bytes = some (n, rest)) : rest.length < bytes.length := by
  cases bytes with
  | nil => cases read
  | cons b bytes =>
      rw [readSize] at read
      split at read
      · have shorter := readHex_shorter read
        rw [List.length_cons]
        omega
      · cases read

/-- The chunks up to the empty one, and the bytes behind the body. -/
def readChunks (bytes : List UInt8) : Option (List (List UInt8) × List UInt8) :=
  match _ : readSize bytes with
  | none => none
  | some (n, rest) =>
      if n = 0 then
        if crlf <+: rest then some ([], rest.drop 2) else none
      else if n ≤ rest.length ∧ crlf <+: rest.drop n then
        (readChunks (rest.drop (n + 2))).map fun (chunks, behind) => (rest.take n :: chunks, behind)
      else none
termination_by bytes.length
decreasing_by
  have shorter := readSize_shorter ‹_›
  rw [List.length_drop]
  omega

section

variable {bytes rest more : List UInt8} {n : Nat}

theorem readChunks_end (read : readSize bytes = some (0, crlf ++ rest)) :
    readChunks bytes = some ([], rest) := by
  rw [readChunks]
  split
  · rename_i found
    rw [read] at found
    cases found
  · rename_i found
    rw [read] at found
    cases found
    rw [if_pos rfl, if_pos (List.prefix_append _ _)]
    rfl

theorem readChunks_chunk {chunk : List UInt8} (some_ : chunk ≠ [])
    (read : readSize bytes = some (chunk.length, chunk ++ crlf ++ rest)) :
    readChunks bytes =
      (readChunks rest).map fun (chunks, behind) => (chunk :: chunks, behind) := by
  have positive := List.length_pos_iff.mpr some_
  rw [readChunks]
  split
  · rename_i found
    rw [read] at found
    cases found
  · rename_i found
    rw [read] at found
    cases found
    have inside : chunk.length ≤ (chunk ++ crlf ++ rest).length := by
      rw [List.length_append, List.length_append]
      omega
    have stops : crlf <+: (chunk ++ crlf ++ rest).drop chunk.length := by
      rw [List.append_assoc, List.drop_left]
      exact List.prefix_append _ _
    have behind : (chunk ++ crlf ++ rest).drop (chunk.length + 2) = rest := by
      apply List.drop_left'
      rw [List.length_append]
      rfl
    rw [if_neg (by omega), if_pos ⟨inside, stops⟩, behind, List.append_assoc, List.take_left]

end

/-! ## Sizes -/

theorem hexDigitValue_hexDigit {n : Nat} (small : n < 16) : hexDigitValue (hexDigit n) = some n := by
  have all : ∀ n < 16, hexDigitValue (hexDigit n) = some n := by decide
  exact all n small

theorem readHex_digit {n acc : Nat} (small : n < 16) (bytes : List UInt8) :
    readHex acc (hexDigit n :: bytes) = readHex (16 * acc + n) bytes := by
  rw [readHex, hexDigitValue_hexDigit small]

/-- The digits of a number are read behind those before. -/
theorem readHex_formatHex (n : Nat) :
    ∃ k, ∀ acc bytes, readHex acc (formatHex n ++ bytes) = readHex (16 ^ k * acc + n) bytes := by
  induction n using formatHex.induct with
  | case1 n small =>
      refine ⟨1, ?_⟩
      intro acc bytes
      rw [formatHex, if_pos small, List.singleton_append, readHex_digit small, Nat.pow_one]
  | case2 n large ih =>
      obtain ⟨k, reads⟩ := ih
      refine ⟨k + 1, ?_⟩
      intro acc bytes
      have digit : n % 16 < 16 := Nat.mod_lt n (by decide)
      have value : 16 * (16 ^ k * acc + n / 16) + n % 16 = 16 ^ (k + 1) * acc + n := by
        rw [Nat.pow_succ, Nat.mul_add, Nat.add_assoc, Nat.div_add_mod, ← Nat.mul_assoc,
          Nat.mul_comm 16]
      rw [formatHex, if_neg large, List.append_assoc, reads, List.singleton_append,
        readHex_digit digit, value]

theorem formatHex_begins (n : Nat) :
    ∃ digit rest, formatHex n = digit :: rest ∧ (hexDigitValue digit).isSome := by
  induction n using formatHex.induct with
  | case1 n small =>
      rw [formatHex, if_pos small]
      exact ⟨_, [], rfl, by rw [hexDigitValue_hexDigit small]; rfl⟩
  | case2 n large ih =>
      obtain ⟨digit, rest, begins, isDigit⟩ := ih
      rw [formatHex, if_neg large, begins]
      exact ⟨digit, _, rfl, isDigit⟩

theorem readSize_eq_readHex {b : UInt8} (isDigit : (hexDigitValue b).isSome)
    (bytes : List UInt8) : readSize (b :: bytes) = readHex 0 (b :: bytes) := by
  obtain ⟨digit, value⟩ := Option.isSome_iff_exists.mp isDigit
  simp only [readSize, readHex, value, Nat.mul_zero, Nat.zero_add]

theorem readSize_formatHex (n : Nat) (rest : List UInt8) :
    readSize (formatHex n ++ (crlf ++ rest)) = some (n, rest) := by
  obtain ⟨k, reads⟩ := readHex_formatHex n
  obtain ⟨digit, more, begins, isDigit⟩ := formatHex_begins n
  have first : readSize (formatHex n ++ (crlf ++ rest)) = readHex 0 (formatHex n ++ (crlf ++ rest)) := by
    rw [begins, List.cons_append]
    exact readSize_eq_readHex isDigit _
  rw [first, reads, Nat.mul_zero, Nat.zero_add]
  rfl

theorem readHex_append {acc n : Nat} {bytes rest : List UInt8}
    (read : readHex acc bytes = some (n, rest)) (more : List UInt8) :
    readHex acc (bytes ++ more) = some (n, rest ++ more) := by
  induction bytes generalizing acc with
  | nil => cases read
  | cons b bytes ih =>
      rw [readHex] at read
      rw [List.cons_append, readHex]
      split at read
      · exact ih read
      · split at read
        · rename_i ends
          cases read
          cases bytes with
          | nil => cases ends.2
          | cons d bytes => exact if_pos ends
        · cases read

theorem readSize_append {n : Nat} {bytes rest : List UInt8}
    (read : readSize bytes = some (n, rest)) (more : List UInt8) :
    readSize (bytes ++ more) = some (n, rest ++ more) := by
  cases bytes with
  | nil => cases read
  | cons b bytes =>
      rw [readSize] at read
      rw [List.cons_append, readSize]
      split at read
      · exact readHex_append read more
      · cases read

/-! ## Bodies -/

/-- Chunks and the end of the body are read as they were put. -/
theorem readChunks_put (chunks : List (List UInt8)) (rest : List UInt8) :
    readChunks (chunks.flatMap putChunk ++ (lastChunk ++ rest)) =
      some (chunks.filter (· ≠ []), rest) := by
  induction chunks with
  | nil =>
      have zero : formatHex 0 = [0x30] := by
        rw [formatHex, if_pos (by decide)]
        rfl
      have size := readSize_formatHex 0 (crlf ++ rest)
      rw [zero] at size
      exact readChunks_end size
  | cons chunk chunks ih =>
      rw [List.flatMap_cons, List.append_assoc]
      by_cases empty : chunk = []
      · subst empty
        exact ih
      · have sized : putChunk chunk ++ (chunks.flatMap putChunk ++ (lastChunk ++ rest)) =
            formatHex chunk.length ++ (crlf ++
              (chunk ++ crlf ++ (chunks.flatMap putChunk ++ (lastChunk ++ rest)))) := by
          unfold putChunk
          rw [if_neg (by simpa using empty)]
          simp only [List.append_assoc]
        rw [sized, readChunks_chunk empty (readSize_formatHex _ _), ih,
          List.filter_cons_of_pos (by simpa using empty)]
        rfl

/-- What is read does not depend on what comes behind it. -/
theorem readChunks_append {bytes behind : List UInt8} {chunks : List (List UInt8)}
    (read : readChunks bytes = some (chunks, behind)) (more : List UInt8) :
    readChunks (bytes ++ more) = some (chunks, behind ++ more) := by
  -- the chunk that is read is shorter than the bytes, by `readSize_shorter`
  induction length : bytes.length using Nat.strongRecOn generalizing bytes chunks with
  | ind length_ ih =>
      rw [readChunks] at read
      split at read
      · cases read
      · rename_i n rest found
        have found' := readSize_append found more
        split at read
        · rename_i last
          subst last
          split at read
          · rename_i stops
            cases read
            obtain ⟨tail, rfl⟩ := stops
            rw [List.append_assoc] at found'
            exact readChunks_end found'
          · cases read
        · rename_i some_
          split at read
          · rename_i inside
            obtain ⟨within, tail, stops⟩ := inside
            obtain ⟨⟨later, end_⟩, read, same⟩ := Option.map_eq_some_iff.mp read
            cases same
            have split : rest = rest.take n ++ crlf ++ tail := by
              rw [List.append_assoc, stops, List.take_append_drop]
            have size : (rest.take n).length = n := List.length_take_of_le within
            have tail_eq : rest.drop (n + 2) = tail := by
              rw [← List.drop_drop, ← stops]
              rfl
            have chunk : rest.take n ≠ [] := by
              intro none
              rw [none] at size
              exact some_ size.symm
            have shorter := readSize_shorter found
            rw [tail_eq] at read
            have onward := ih tail.length (by
              rw [← tail_eq, List.length_drop]
              omega) read rfl
            have found'' : readSize (bytes ++ more) =
                some ((rest.take n).length, rest.take n ++ crlf ++ (tail ++ more)) := by
              rw [found', size, ← List.append_assoc, ← split]
            rw [readChunks_chunk chunk found'', onward]
            rfl
          · cases read

/-- A part of the chunks, without the end of the body, is not read as a body. -/
theorem readChunks_part (chunks : List (List UInt8)) {part : List UInt8}
    (before : part <+: chunks.flatMap putChunk) : readChunks part = none := by
  cases read : readChunks part with
  | none => rfl
  | some found =>
      obtain ⟨more, whole⟩ := before
      -- what is read of the part is read of the whole as well, and there nothing is left
      have longer := readChunks_append read (more ++ (lastChunk ++ []))
      rw [← List.append_assoc, whole, readChunks_put, Option.some.injEq, Prod.mk.injEq] at longer
      have nothing := (List.append_eq_nil_iff.mp (List.append_eq_nil_iff.mp longer.2.symm).2).2
      cases nothing

/-! ## The stream of the body writer -/

section

variable {S : Type} [OutputStream UInt8 S]

theorem run_puts (s : S) (op : BodyOp) :
    (op.run s).1.flatten ++ OutputStream.pending (op.run s).2 =
      OutputStream.pending s ++ op.data := by
  cases op with
  | write data => exact OutputStream.write_puts data s
  | flush => exact (OutputStream.flush_puts s).trans (List.append_nil _).symm

/-- Once the stream is closed, all that was written is in its buffers. -/
theorem runOps_closed (s : S) (ops : List BodyOp) :
    (runOps s true ops).flatten = OutputStream.pending s ++ written ops := by
  induction ops generalizing s with
  | nil => exact (OutputStream.close_puts s).trans (List.append_nil _).symm
  | cons op ops ih =>
      rw [runOps, List.flatten_append, ih, ← List.append_assoc, run_puts, List.append_assoc]
      rfl

theorem flatten_filter (buffers : List (List UInt8)) :
    (buffers.filter (· ≠ [])).flatten = buffers.flatten := by
  induction buffers with
  | nil => rfl
  | cons buffer buffers ih =>
      by_cases empty : buffer = []
      · subst empty
        exact ih
      · rw [List.filter_cons_of_pos (by simpa using empty), List.flatten_cons, ih,
          List.flatten_cons]

variable (S)

/-- The body of a writer that closes its stream decodes to what was written. -/
theorem readChunks_body (ops : List BodyOp) :
    ∃ chunks, readChunks (chunkedBody S ops true ++ lastChunk) = some (chunks, []) ∧
      chunks.flatten = written ops ∧ ∀ chunk ∈ chunks, chunk ≠ [] := by
  refine ⟨(runOps (OutputStream.ofSize 32000 : S) true ops).filter (· ≠ []), ?_, ?_, ?_⟩
  · have read := readChunks_put (runOps (OutputStream.ofSize 32000 : S) true ops) []
    rw [List.append_nil] at read
    exact read
  · rw [flatten_filter, runOps_closed, OutputStream.pending_ofSize, List.nil_append]
  · intro chunk member
    simpa using (List.mem_filter.mp member).2

end

/-! ## The writer of the connection -/

section

variable {Q : Type} [BoundedQueue (Option Reply) Q] {server : Server} {c c' : Connection Q}

theorem readEnd_writer (c : Connection Q) : (readEnd c).writer = c.writer := by
  unfold readEnd
  split
  · rfl
  · split
    · rfl
    · rfl

theorem notFull_writer (c : Connection Q) (wait : Bool → Reader) :
    (notFull c wait).writer = c.writer := by
  unfold notFull
  split
  · exact readEnd_writer _
  · rfl

theorem readOne_writer (server : Server) (c : Connection Q) :
    (readOne server c).writer = c.writer := by
  unfold readOne
  split
  · rfl
  · rfl
  · dsimp only
    split
    · rfl
    · split
      · exact notFull_writer _ _
      · rfl

theorem readerStep_writer (moves : readerStep server c = some c') : c'.writer = c.writer := by
  unfold readerStep at moves
  split at moves
  · cases moves
    split
    · exact readEnd_writer c
    · rfl
  · cases moves
    exact readOne_writer server c
  · cases moves
    rfl
  · cases moves
    exact notFull_writer _ _
  · cases moves
    rfl
  · cases moves
    rfl
  · cases moves
    rfl
  · cases moves
    rfl
  all_goals cases moves

theorem readerFails_writer (moves : readerFails c = some c') : c'.writer = c.writer := by
  unfold readerFails at moves
  split at moves
  · cases moves
    exact readEnd_writer _
  · cases moves
    exact readEnd_writer _
  · cases moves

theorem signalFailure_writer (c : Connection Q) : (signalFailure c).writer = c.writer := by
  unfold signalFailure failWaiter
  split
  · exact readEnd_writer _
  · exact readEnd_writer _
  · rfl
  · rfl

/-- The writer is busy with the body of a reply or with its end. -/
def Connection.InBody (c : Connection Q) (_ : Event) : Prop :=
  c.writer = .writingBody ∨ c.writer = .writingEnd

instance (c : Connection Q) (e : Event) : Decidable (c.InBody e) :=
  inferInstanceAs (Decidable (_ ∨ _))

/-- A step of the reader adds nothing. -/
theorem emits_read (body : List UInt8) (sent : Nat) (writer : Writer) {e : Event}
    (reads : e = .read ∨ e = .readFails) : writer.emits body sent e = [] := by
  rcases reads with rfl | rfl
  · cases writer <;> rfl
  · cases writer <;> rfl

theorem emitted_cons (body : List UInt8) (sent : Nat) {e : Event} (es : List Event)
    (moves : step server c e = some c') :
    emitted server body sent c (e :: es) =
      c.writer.emits body sent e ++ emitted server body sent c' es := by
  rw [emitted, moves]

theorem emitted_end {es : List Event} (body : List UInt8) (sent : Nat)
    (during : Along (step server) Connection.InBody c es) (run : exec (step server) c es = some c')
    (ends : c'.writer = .flushing) :
    (c.writer = .flushing → es = []) ∧
      (c.writer = .writingEnd → .writeFails ∉ es ∧ emitted server body sent c es = lastChunk) ∧
      (c.writer = .writingBody → emitted server body sent c es =
        if .writeFails ∈ es then body.take sent else body ++ lastChunk) ∧ c.writer ≠ .popping := by
  induction es generalizing c with
  | nil =>
      cases run
      rw [ends]
      exact ⟨fun _ => rfl, by simp, by simp, by simp⟩
  | cons e es ih =>
      obtain ⟨inBody, onward⟩ := during
      obtain ⟨s, moves, run⟩ := exec_cons.mp run
      obtain ⟨flushing, writingEnd, writingBody, popping⟩ := ih (onward s moves) run
      rw [emitted_cons body sent es moves]
      -- the reader emits nothing, whatever it does meanwhile
      have same (reads : e = .read ∨ e = .readFails) (writer : s.writer = c.writer) :
          (c.writer = .flushing → e :: es = []) ∧
            (c.writer = .writingEnd → .writeFails ∉ e :: es ∧
              c.writer.emits body sent e ++ emitted server body sent s es = lastChunk) ∧
            (c.writer = .writingBody →
              c.writer.emits body sent e ++ emitted server body sent s es =
                if .writeFails ∈ e :: es then body.take sent else body ++ lastChunk) ∧
            c.writer ≠ .popping := by
        have other : .writeFails ∈ e :: es ↔ .writeFails ∈ es := by
          rcases reads with rfl | rfl
          · simp
          · simp
        rw [writer] at writingEnd writingBody popping
        simp only [emits_read body sent _ reads, List.nil_append, other]
        refine ⟨?_, writingEnd, writingBody, popping⟩
        intro flush
        rcases inBody with body | last
        · rw [flush] at body
          cases body
        · rw [flush] at last
          cases last
      cases e with
      | read => exact same (.inl rfl) (readerStep_writer moves)
      | readFails => exact same (.inr rfl) (readerFails_writer moves)
      | write =>
          rcases inBody with writing | writing
          · rw [step, writerStep, writing] at moves
            cases moves
            -- behind the body comes its end; a failure there does not lead to the flush
            obtain ⟨succeeds, last⟩ := writingEnd rfl
            rw [writing, last]
            refine ⟨by simp, by simp, fun _ => ?_, by simp⟩
            rw [if_neg (by simpa using succeeds)]
            rfl
          · rw [step, writerStep, writing] at moves
            cases moves
            obtain rfl := flushing rfl
            rw [writing]
            exact ⟨by simp, fun _ => ⟨by decide, rfl⟩, by simp, by simp⟩
      | writeFails =>
          rcases inBody with writing | writing
          · rw [step, writerFails, writing] at moves
            cases moves
            -- the writer goes to the flush, and the end of the body is never written
            obtain rfl := flushing (signalFailure_writer _)
            rw [writing]
            refine ⟨by simp, by simp, fun _ => ?_, by simp⟩
            exact List.append_nil _
          · rw [step, writerFails, writing] at moves
            cases moves
            exact absurd (signalFailure_writer _) popping

/-- The body that a connection emits for a writer that succeeds decodes to what
was written, in chunks of which the one behind the last is empty; without its
success no end of the body is emitted. -/
theorem chunked_reply {S : Type} [OutputStream UInt8 S] {ops : List BodyOp} {closes : Bool}
    {sent : Nat} {es : List Event} (starts : c.writer = .writingBody)
    (during : Along (step server) Connection.InBody c es) (run : exec (step server) c es = some c')
    (ends : c'.writer = .flushing) :
    (.writeFails ∉ es → closes = true →
      ∃ chunks, readChunks (emitted server (chunkedBody S ops closes) sent c es) =
          some (chunks, []) ∧
        chunks.flatten = written ops ∧ ∀ chunk ∈ chunks, chunk ≠ []) ∧
    (.writeFails ∈ es → ∀ part, part <+: emitted server (chunkedBody S ops closes) sent c es →
      readChunks part = none) := by
  have whole := (emitted_end (chunkedBody S ops closes) sent during run ends).2.2.1 starts
  rw [whole]
  constructor
  · intro succeeds closed
    rw [if_neg succeeds, closed]
    exact readChunks_body S ops
  · intro fails part before
    rw [if_pos fails] at before
    exact readChunks_part _ (before.trans (List.take_prefix _ _))

end

/-- A connection that is about to write a body. -/
def bodyDue : Connection (ListQueue (Option Reply)) := { start [] with writer := .writingBody }

/-- Three bytes in two writes, with an empty one and a flush between them. -/
theorem chunked_reply_bytes :
    (.writeFails ∉ [Event.write, .write] → true = true →
      ∃ chunks, readChunks (emitted emptyPages (chunkedBody (FullBuffers UInt8)
            [.write [1, 2], .write [], .flush, .write [3]] true) 0 bodyDue [.write, .write]) =
          some (chunks, []) ∧
        chunks.flatten = written [.write [1, 2], .write [], .flush, .write [3]] ∧
        ∀ chunk ∈ chunks, chunk ≠ []) ∧
    (.writeFails ∈ [Event.write, .write] →
      ∀ part, part <+: emitted emptyPages (chunkedBody (FullBuffers UInt8)
          [.write [1, 2], .write [], .flush, .write [3]] true) 0 bodyDue [.write, .write] →
        readChunks part = none) :=
  @chunked_reply _ _ emptyPages bodyDue { bodyDue with writer := .flushing } (FullBuffers UInt8) _
    [.write [1, 2], .write [], .flush, .write [3]] true 0 [.write, .write] rfl (by decide) rfl rfl

end ActorNet.Http
