import ActorNet.Rpc.StreamSafety

/-!
# What a source yields

As long as the receiving connection ends only after the source has taken
everything from the queue, the source yields the values of the sink in their
order and then, once, the end of the stream. Every call of the source returns: the read
loop and the source never wait for each other, and what they still have to do runs out
(`ahead`). A connection that ends earlier discards what is queued, and the source finds
the stream closed instead.
-/

namespace ActorNet.Rpc

open Lib BoundedQueue StreamConnection
open InputStream (content)

/-! ## When the connection may end -/

section

variable {σ Q : Type} [InputStream Byte σ] [BoundedQueue StreamBuf Q]

/-- The next round of the read loop is its end. -/
def loopEnds (codecs : Compressor → Codec) (link : Link) (c : StreamConnection σ Q) : Bool :=
  InputStream.eof c.readBuf || c.error ||
    (readFrameCompressed codecs link streamFrame c.readBuf).isNone

/-- The read loop ends only on an empty queue or after the source was closed. -/
def EndsDrained (codecs : Compressor → Codec) (link : Link) (c : StreamConnection σ Q)
    (e : StreamEvent) : Prop :=
  e = .readFrame → c.reader = .reading → loopEnds codecs link c = true →
    (items c.streamQueue).isEmpty = true ∨ c.sourceClosed = true

instance (codecs : Compressor → Codec) (link : Link) (c : StreamConnection σ Q)
    (e : StreamEvent) : Decidable (EndsDrained codecs link c e) :=
  inferInstanceAs (Decidable (_ → _ → _ → _))

/-- The condition under which a stream is delivered and no assertion fails. -/
def Punctual (codecs : Compressor → Codec) (link : Link) (c : StreamConnection σ Q)
    (e : StreamEvent) : Prop :=
  FramesApart codecs link c e ∧ EndsDrained codecs link c e

instance (codecs : Compressor → Codec) (link : Link) (c : StreamConnection σ Q)
    (e : StreamEvent) : Decidable (Punctual codecs link c e) :=
  inferInstanceAs (Decidable (_ ∧ _))

end

/-! ## Steps without a call -/

/-- The read loop or the source goes on; nothing is asked of them. -/
def StreamEvent.goesOn : StreamEvent → Bool
  | .call | .sinkCloses => false
  | _ => true

/-- The steps a reader has ahead of it, with those of the source for the frame at hand. -/
def FrameReader.ahead : FrameReader → Nat
  | .reading => 1
  | .acquiring _ => 5
  | .pushing _ _ => 4
  | .ended => 0

def SourcePhase.ahead : SourcePhase → Nat
  | .closing _ => 1
  | _ => 0

@[simp] theorem FrameReader.ahead_reading : FrameReader.reading.ahead = 1 := rfl
@[simp] theorem FrameReader.ahead_acquiring (buf : RcvBuf) :
    (FrameReader.acquiring buf).ahead = 5 := rfl
@[simp] theorem FrameReader.ahead_pushing (buf : StreamBuf) (granted : Bool) :
    (FrameReader.pushing buf granted).ahead = 4 := rfl
@[simp] theorem FrameReader.ahead_ended : FrameReader.ended.ahead = 0 := rfl

@[simp] theorem SourcePhase.ahead_idle : SourcePhase.idle.ahead = 0 := rfl
@[simp] theorem SourcePhase.ahead_waiting : SourcePhase.waiting.ahead = 0 := rfl
@[simp] theorem SourcePhase.ahead_closing (r : SourceRead) : (SourcePhase.closing r).ahead = 1 :=
  rfl

/-- No more steps can follow than this without another call of the source. -/
def StreamConnection.ahead {σ Q : Type} [InputStream Byte σ] [BoundedQueue StreamBuf Q]
    (c : StreamConnection σ Q) : Nat :=
  (bif c.error then 0 else 1 + 5 * (content c.readBuf).length) + c.reader.ahead +
    2 * (items c.streamQueue).length + c.source.ahead

/-! ## Reading the frames of a sink -/

/-- A buffer as the frame it came from. -/
def RcvBuf.view (b : RcvBuf) : Option (List Byte) := if b.isEnd then none else some b.content

def StreamBuf.view (b : StreamBuf) : Option (List Byte) := b.buf.view

/-- The header of a frame. -/
def streamHeader : Option (List Byte) → List Byte
  | some value => toBytesLE 4 value.length
  | none => toBytesLE 4 endSize.toNat

def streamBody : Option (List Byte) → List Byte
  | some value => value
  | none => []

/-- A value fits into its size field, and the compressor does not throw. -/
def Sendable (codecs : Compressor → Codec) (link : Link) (uninit : Nat → Byte)
    (frame : Option (List Byte)) : Prop :=
  4 + (streamBody frame).length < 2 ^ 32 ∧
    (compress codecs link (sinkFrame uninit frame)).isSome = true

instance (codecs : Compressor → Codec) (link : Link) (uninit : Nat → Byte)
    (frame : Option (List Byte)) : Decidable (Sendable codecs link uninit frame) :=
  inferInstanceAs (Decidable (_ ∧ _))

variable {codecs : Compressor → Codec} {link : Link} {uninit : Nat → Byte}

theorem sinkFrame_holds {frame : Option (List Byte)}
    (fits : 4 + (streamBody frame).length < 2 ^ 32) :
    (sinkFrame uninit frame).Holds (streamHeader frame) (streamBody frame) := by
  have four : ((List.range 4).map uninit).length = 4 := by simp
  set space := (List.range 4).map uninit
  have marshalled : ∀ body : List Byte, 4 + body.length < 2 ^ 32 →
      (marshall 4 uninit body).Holds space body := fun body small =>
    allocate_holds (by rw [four]; decide) (by rw [four]; exact small)
  cases frame with
  | some value =>
      have holds := marshalled value fits
      have size := holds.bodySize four (by decide)
      have written := holds.writeFront [] space [] (toBytesLE 4 value.length) (by simp) rfl
        (by simp [four])
      simpa [sinkFrame, sinkValue, streamHeader, streamBody, size] using written
  | none =>
      have written := (marshalled [] (by simp)).writeFront [] space [] (toBytesLE 4 endSize.toNat)
        (by simp) rfl (by simp [four])
      simpa [sinkFrame, sinkClose, streamHeader, streamBody] using written

/-- Without compression the frames stand on the wire as they are. -/
theorem streamBytes_plain {negotiated : Bool} {frames : List (Option (List Byte))}
    (fits : ∀ frame ∈ frames, 4 + (streamBody frame).length < 2 ^ 32) :
    streamBytes codecs ⟨none, negotiated⟩ uninit frames =
      frames.flatMap fun frame => streamHeader frame ++ streamBody frame := by
  induction frames with
  | nil => rfl
  | cons frame frames ih =>
      obtain ⟨first, rest⟩ := List.forall_mem_cons.mp fits
      have holds := @sinkFrame_holds uninit frame first
      rw [List.flatMap_cons, ← ih rest, ← holds.content_eq]
      rfl

theorem streamFrame_decodeHeader {frame : Option (List Byte)}
    (fits : 4 + (streamBody frame).length < 2 ^ 32) :
    streamFrame.decodeHeader (streamHeader frame) =
      ⟨BitVec.ofNat 32 (streamBody frame).length, frame.isNone⟩ := by
  have field : ∀ {x}, x < 2 ^ 32 → readLE 4 (toBytesLE 4 x) 0 = x := fun {x} small => by
    simpa using @readLE_field 4 0 x [] [] rfl small
  cases frame with
  | some value =>
      have small : 4 + value.length < 2 ^ 32 := fits
      have proper : BitVec.ofNat 32 value.length ≠ endSize := by
        intro same
        have value := congrArg BitVec.toNat same
        rw [BitVec.toNat_ofNat, Nat.mod_eq_of_lt (by omega)] at value
        simp [endSize] at value
        omega
      simp [streamFrame, streamHeader, streamBody, field (show value.length < 2 ^ 32 by omega),
        proper]
  | none =>
      simp [streamFrame, streamHeader, streamBody, field endSize.isLt]

section

variable {σ : Type} [InputStream Byte σ]

theorem streamFrame_makeValue (h : StreamHeader) (rb : RcvBuf) :
    streamFrame.makeValue h rb = some (if h.eos then { rb with size := endSize } else rb) := rfl

/-- The next frame on the wire is the next one read. -/
theorem readStreamFrame_spec (inverse : ∀ c, link.compressor = some c → (codecs c).Inverse)
    {frame : Option (List Byte)} {frames : List (Option (List Byte))}
    (sendable : Sendable codecs link uninit frame) {s : σ}
    (coming : content s = streamBytes codecs link uninit (frame :: frames)) :
    content s ≠ [] ∧ ∃ buf s', readFrameCompressed codecs link streamFrame s = some (some buf, s') ∧
      buf.view = frame ∧ content s' = streamBytes codecs link uninit frames ∧
      (content s').length < (content s).length := by
  obtain ⟨fits, sent⟩ := sendable
  have holds := @sinkFrame_holds uninit frame fits
  have decode := streamFrame_decodeHeader fits
  obtain ⟨out, compressed⟩ := Option.isSome_iff_exists.mp sent
  simp only [streamBytes, writeLoop, compressed] at coming
  have nonempty := compress_nonempty inverse holds
    (by cases frame <;> simp [streamHeader, toBytesLE]) compressed
  have announced : (BitVec.ofNat 32 (streamBody frame).length).toNat =
      (streamBody frame).length := by
    rw [BitVec.toNat_ofNat, Nat.mod_eq_of_lt (by omega)]
  obtain ⟨rb, s', read, whole, later, size⟩ := readFrameCompressed_spec inverse streamFrame holds
    compressed coming (by cases frame <;> simp [streamHeader, streamFrame])
    (by rw [decode]; exact announced)
  rw [decode, streamFrame_makeValue] at read
  have some_bytes := List.length_pos_of_ne_nil nonempty
  refine ⟨?_, _, s', read, ?_, later, ?_⟩
  · rw [coming]
    exact fun none => nonempty (List.append_eq_nil_iff.mp none).1
  · rw [decode] at size
    cases frame with
    | none => simp [RcvBuf.view, RcvBuf.isEnd]
    | some value =>
        have proper : rb.size ≠ endSize := by
          intro same
          have length := congrArg BitVec.toNat (size.symm.trans same)
          change (BitVec.ofNat 32 (streamBody (some value)).length).toNat = 2 ^ 32 - 1 at length
          rw [announced] at length
          omega
        simpa [RcvBuf.view, RcvBuf.isEnd, proper, streamBody] using whole
  · rw [coming, later, List.length_append]
    omega

end

/-! ## The flow of a stream -/

variable {σ Q : Type} [InputStream Byte σ] [BoundedQueue StreamBuf Q]

/-- While the source is open, what it has yielded, what is buffered and what is
to come make up the values and the end. -/
structure Flowing (codecs : Compressor → Codec) (link : Link) (uninit : Nat → Byte)
    (values : List (List Byte)) (c : StreamConnection σ Q) : Prop where
  sourceOpen : c.sourceClosed = false
  queueOpen : aborted c.streamQueue = false
  notEnded : c.reader ≠ .ended
  notClosing : ∀ r, c.source ≠ .closing r
  plain : ∀ b ∈ c.bufs, b.isEnd = false
  flow : ∃ (done : List (List Byte)) (coming : List (Option (List Byte))), c.yielded = done.map .value ∧
    (c.error = false → content c.readBuf = streamBytes codecs link uninit coming) ∧
    (c.error = true → coming = []) ∧ (∀ b ∈ c.received, b.isEnd = true → coming = []) ∧
    done.map some ++ c.bufs.map StreamBuf.view ++ (items c.streamQueue).map StreamBuf.view ++
      c.reader.hand.map RcvBuf.view ++ coming = values.map some ++ [none]

/-- After the end, the source reports it once and is closed from then on. -/
structure Over (values : List (List Byte)) (c : StreamConnection σ Q) : Prop where
  sourceClosed : c.sourceClosed = true
  bufs : c.bufs = []
  queue : items c.streamQueue = []
  hand : c.reader.hand = []
  content : c.error = false → content c.readBuf = []
  results : c.source = .closing .endOfStream ∧ c.yielded = values.map .value ∨
    c.source = .idle ∧
      ∃ k, c.yielded = values.map .value ++ .endOfStream :: List.replicate k .closed

variable {values : List (List Byte)} {c c' : StreamConnection σ Q}

/-- Nothing follows the end. -/
theorem nothing_behind_end {α : Type} {values : List α} {before after : List (Option α)}
    (same : before ++ none :: after = values.map some ++ [none]) : after = [] := by
  rcases List.eq_nil_or_concat after with empty | ⟨after, last, rfl⟩
  · exact empty
  · have shape : (before ++ none :: after) ++ [last] = values.map some ++ [none] := by
      simpa using same
    have inside : none ∈ values.map some := by
      rw [← (List.append_inj' shape rfl).1]
      simp
    simp at inside

/-- The only end among the values and their end is the last. -/
theorem end_last {α : Type} {before values : List α} {after : List (Option α)}
    (same : before.map some ++ none :: after = values.map some ++ [none]) :
    before = values ∧ after = [] := by
  have last := nothing_behind_end same
  subst last
  have values_eq := (List.append_inj' same rfl).1
  exact ⟨List.map_injective_iff.mpr (Option.some_injective α) values_eq, rfl⟩

theorem map_view_plain {bufs : List StreamBuf} (plain : ∀ b ∈ bufs, b.isEnd = false) :
    bufs.map StreamBuf.view = (bufs.map fun b => b.buf.content).map some := by
  rw [List.map_map]
  refine List.map_congr_left fun b member => ?_
  have proper : b.buf.isEnd = false := plain b member
  simp [StreamBuf.view, RcvBuf.view, proper]

/-- The end is the last of what is on its way, so something is while the source
is open. -/
theorem Flowing.on_its_way (h : Flowing codecs link uninit values c)
    (hand : c.reader.hand = []) (queue : items c.streamQueue = []) :
    c.error = false ∧ (∀ b ∈ c.received, b.isEnd = false) ∧ ∃ frame frames,
      frame ∈ values.map some ++ [none] ∧
        content c.readBuf = streamBytes codecs link uninit (frame :: frames) := by
  obtain ⟨done, coming, _, wire, last, seen, total⟩ := h.flow
  cases coming with
  | nil =>
      rw [queue, hand, map_view_plain h.plain] at total
      have no_end : none ∉ (done ++ c.bufs.map fun b => b.buf.content).map some := by simp
      simp only [List.map_nil, List.append_nil, ← List.map_append] at total
      exact absurd (by rw [total]; simp) no_end
  | cons frame frames =>
      have error : c.error = false := by
        by_contra failed
        exact List.cons_ne_nil _ _ (last (by simpa using failed))
      have unseen : ∀ b ∈ c.received, b.isEnd = false := by
        intro b member
        by_contra isEnd
        exact List.cons_ne_nil _ _ (seen b member (by simpa using isEnd))
      exact ⟨error, unseen, frame, frames, by rw [← total]; simp, wire error⟩

/-! ## The steps -/

theorem readFrameStep_flowing (inverse : ∀ c, link.compressor = some c → (codecs c).Inverse)
    (sendable : ∀ frame ∈ values.map some ++ [none], Sendable codecs link uninit frame)
    (h : Flowing codecs link uninit values c) (drained : EndsDrained codecs link c .readFrame)
    (step : readFrameStep codecs link c = some c') :
    Flowing codecs link uninit values c' ∧ c'.ahead < c.ahead := by
  unfold readFrameStep at step
  split at step
  case h_2 => cases step
  rename_i reading
  have hand : c.reader.hand = [] := by rw [reading]; rfl
  -- the loop does not end here: the end of the stream is still to come
  have goes_on : loopEnds codecs link c = false := by
    by_contra ends
    have ends : loopEnds codecs link c = true := by simpa using ends
    have queue : items c.streamQueue = [] := by
      simpa [h.sourceOpen] using drained rfl reading ends
    obtain ⟨error, _, frame, frames, among, wire⟩ := h.on_its_way hand queue
    obtain ⟨more, buf, rest, read, _⟩ := readStreamFrame_spec inverse (sendable frame among) wire
    have notEof : InputStream.eof c.readBuf = false := by
      by_contra atEnd
      exact more (InputStream.eof_content _ (by simpa using atEnd))
    simp [loopEnds, notEof, error, read] at ends
  obtain ⟨⟨notEof, error⟩, reads⟩ : (InputStream.eof c.readBuf = false ∧ c.error = false) ∧
      (readFrameCompressed codecs link streamFrame c.readBuf).isNone = false := by
    simpa [loopEnds] using goes_on
  obtain ⟨done, coming, yielded, wire, last, seen, total⟩ := h.flow
  have wire := wire error
  rw [if_neg (by simp [notEof, error])] at step
  cases coming with
  | nil =>
      obtain ⟨rest, nothing⟩ := @readFrameCompressed_nil _ _ codecs link _ _ streamFrame _ wire
        (by decide)
      rw [nothing] at step
      cases step
      refine ⟨⟨h.sourceOpen, h.queueOpen, h.notEnded, h.notClosing, h.plain,
        ⟨done, [], yielded, fun error => (by cases error), fun _ => rfl, seen, total⟩⟩, ?_⟩
      simp [StreamConnection.ahead, error]
  | cons frame frames =>
      obtain ⟨_, buf, rest, read, view, later, shorter⟩ :=
        readStreamFrame_spec inverse (sendable frame (by rw [← total]; simp)) wire
      rw [read] at step
      cases step
      have lower : (5 * (content rest).length + 5 : Nat) ≤ 5 * (content c.readBuf).length := by
        omega
      refine ⟨⟨h.sourceOpen, h.queueOpen, by simp, h.notClosing, h.plain,
        ⟨done, frames, yielded, fun _ => later, fun failed => ?_, ?_, ?_⟩⟩, ?_⟩
      · simp [error] at failed
      · intro b member isEnd
        rcases List.mem_append.mp member with old | new
        · exact absurd (seen b old isEnd) (List.cons_ne_nil _ _)
        · -- the frame that was just read is the end
          have none_read : frame = none := by
            rw [← view, ← List.mem_singleton.mp new]
            simp [RcvBuf.view, isEnd]
          rw [none_read] at total
          exact nothing_behind_end total
      · rw [hand] at total
        simpa [FrameReader.hand, view] using total
      · simp only [StreamConnection.ahead, error, reading, FrameReader.ahead_reading,
          FrameReader.ahead_acquiring, cond_false]
        omega

/-- A buffer that moves from the reader into the queue. -/
theorem push_flowing {sem : Nat} {b : StreamBuf} (h : Flowing codecs link uninit values c)
    (room : (items c.streamQueue).length < capacity c.streamQueue)
    (hand : c.reader.hand = [b.buf]) (waits : 4 ≤ c.reader.ahead) :
    Flowing codecs link uninit values
        { c with streamSem := sem, streamQueue := push b c.streamQueue, reader := .reading } ∧
      StreamConnection.ahead
        { c with streamSem := sem, streamQueue := push b c.streamQueue, reader := .reading } <
          c.ahead := by
  have added := items_push_of_room b room
  obtain ⟨done, coming, yielded, wire, last, seen, total⟩ := h.flow
  refine ⟨⟨h.sourceOpen, by simpa using h.queueOpen, by simp, h.notClosing, h.plain,
    ⟨done, coming, yielded, wire, last, seen, ?_⟩⟩, ?_⟩
  · show _ ++ (items (push b c.streamQueue)).map StreamBuf.view ++ [] ++ coming = _
    rw [added, ← total, hand]
    simp [StreamBuf.view]
  · simp only [StreamConnection.ahead, added, List.length_append, List.length_singleton,
      FrameReader.ahead_reading]
    omega

theorem acquireStep_flowing (h : Flowing codecs link uninit values c)
    (step : acquireStep c = some c') :
    Flowing codecs link uninit values c' ∧ c'.ahead < c.ahead := by
  unfold acquireStep at step
  split at step
  case h_2 => cases step
  rename_i buf acquiring
  dsimp only at step
  split at step
  case isFalse => cases step
  split at step
  · cases step
    refine ⟨⟨h.sourceOpen, h.queueOpen, by simp, h.notClosing, h.plain, ?_⟩, ?_⟩
    · have flow := h.flow
      rw [acquiring] at flow
      exact flow
    · simp [StreamConnection.ahead, acquiring]
  · rename_i notFull
    cases step
    exact push_flowing h (full_eq_false.mp (Bool.eq_false_iff.mpr notFull))
      (by rw [acquiring]; rfl) (by simp [acquiring])

theorem pushStep_flowing (kept : Kept c) (h : Flowing codecs link uninit values c)
    (step : pushStep c = some c') :
    Flowing codecs link uninit values c' ∧ c'.ahead < c.ahead := by
  unfold pushStep at step
  split at step
  · rename_i buf pushing
    cases step
    exact push_flowing h (kept.fifty ▸ kept.room buf pushing) (by rw [pushing]; rfl)
      (by simp [pushing])
  · cases step

/-- The source yields the first of its buffers. -/
theorem processOneBuffer_flowing {b : StreamBuf} {rest : List StreamBuf}
    (h : Flowing codecs link uninit values { c with source := .idle }) (bufs : c.bufs = b :: rest) :
    Flowing codecs link uninit values (processOneBuffer c b rest) := by
  obtain ⟨done, coming, yielded, wire, last, seen, total⟩ := h.flow
  have plain := h.plain
  change ∀ x ∈ c.bufs, x.isEnd = false at plain
  rw [bufs] at plain
  have proper : b.buf.isEnd = false := plain b List.mem_cons_self
  refine ⟨h.sourceOpen, h.queueOpen, h.notEnded, by simp [processOneBuffer, yields],
    fun x member => plain x (List.mem_cons_of_mem _ member),
    ⟨done ++ [b.buf.content], coming, ?_, wire, last, seen, ?_⟩⟩
  · change c.yielded = _ at yielded
    simp [processOneBuffer, yields, yielded]
  · rw [← total]
    change _ ++ rest.map StreamBuf.view ++ _ ++ _ ++ _ = _ ++ c.bufs.map StreamBuf.view ++ _ ++ _ ++ _
    rw [bufs]
    simp [StreamBuf.view, RcvBuf.view, proper, processOneBuffer, yields]

theorem callStep_flowing (h : Flowing codecs link uninit values c)
    (step : callStep c = some c') :
    Flowing codecs link uninit values c' ∧ c'.ahead = c.ahead := by
  have idle : Flowing codecs link uninit values { c with source := .idle } :=
    ⟨h.sourceOpen, h.queueOpen, h.notEnded, by simp, h.plain, h.flow⟩
  unfold callStep at step
  split at step
  case h_2 => cases step
  rename_i free
  split at step
  · rename_i b rest bufs
    cases step
    refine ⟨processOneBuffer_flowing idle bufs, ?_⟩
    simp [StreamConnection.ahead, processOneBuffer, yields, free]
  · rw [if_neg (by simp [h.sourceOpen])] at step
    cases step
    refine ⟨⟨h.sourceOpen, h.queueOpen, h.notEnded, by simp, h.plain, h.flow⟩, ?_⟩
    simp [StreamConnection.ahead, free]

/-- The source finds the end of the stream alone in front of the queue. -/
theorem closeSource_over (done : c.yielded = values.map .value) (bufs : c.bufs = [])
    (queue : items c.streamQueue = []) (hand : c.reader.hand = [])
    (wire : c.error = false → content c.readBuf = []) :
    Over values (closeSource c .endOfStream) := by
  unfold closeSource
  split
  · exact ⟨rfl, bufs, queue, hand, fun error => (by cases error), .inl ⟨rfl, done⟩⟩
  · exact ⟨rfl, bufs, queue, hand, wire, .inr ⟨rfl, 0, by simp [yields, done]⟩⟩

theorem ahead_granted (queue : Q) (reader : FrameReader) :
    (granted queue reader).ahead = reader.ahead := by
  unfold granted
  split
  · rfl
  · cases reader <;> rfl

theorem ahead_closeSource (c : StreamConnection σ Q) (r : SourceRead) :
    (closeSource c r).ahead ≤ { c with source := .idle }.ahead + 1 := by
  unfold closeSource
  split
  · simp [StreamConnection.ahead]
  · exact Nat.le_succ _

theorem receiveStep_flowing (kept : Kept c) (h : Flowing codecs link uninit values c)
    (step : receiveStep c = some c') :
    (Flowing codecs link uninit values c' ∨ Over values c') ∧ c'.ahead < c.ahead := by
  unfold receiveStep at step
  split at step
  case h_2 => cases step
  rename_i waiting
  rw [if_neg (by simp [h.queueOpen])] at step
  split at step
  case isTrue => cases step
  rename_i some_queued
  dsimp only at step
  obtain ⟨taken, stop, queue, split, cap, abort, going, stopped, left, same⟩ := streamReceive_eq kept
  obtain ⟨done, coming, yielded, wire, last, seen, total⟩ := h.flow
  rw [kept.drained waiting, split] at total
  rw [same] at step
  have before : c.ahead = (bif c.error then 0 else 1 + 5 * (content c.readBuf).length) +
      c.reader.ahead + 2 * (taken ++ stop.toList ++ items queue).length := by
    rw [← split]
    simp only [StreamConnection.ahead, waiting, SourcePhase.ahead_waiting, Nat.add_zero]
  cases taken with
  | nil =>
      cases stop with
      | none =>
          -- a batch of nothing came from an empty queue
          refine absurd ?_ some_queued
          rw [split, left (.inr rfl)]
          rfl
      | some e =>
          have isEnd : e.buf.isEnd = true := stopped e rfl
          have view : e.view = none := by simp [StreamBuf.view, RcvBuf.view, isEnd]
          have total : done.map some ++ none :: ((items queue).map StreamBuf.view ++
              (c.reader.hand.map RcvBuf.view ++ coming)) = values.map some ++ [none] := by
            simpa [view] using total
          obtain ⟨rfl, none_left⟩ := end_last total
          obtain ⟨none_queued, none_left⟩ := List.append_eq_nil_iff.mp none_left
          obtain ⟨none_handed, rfl⟩ := List.append_eq_nil_iff.mp none_left
          cases step
          refine ⟨.inr (closeSource_over yielded rfl (List.map_eq_nil_iff.mp none_queued) ?_ wire),
            ?_⟩
          · show (granted queue c.reader).hand = []
            rw [hand_granted]
            exact List.map_eq_nil_iff.mp none_handed
          · refine Nat.lt_of_le_of_lt (ahead_closeSource _ _) ?_
            rw [before]
            simp [StreamConnection.ahead, ahead_granted]
            omega
  | cons b rest =>
      have empty := left (.inl (List.cons_ne_nil b rest))
      rw [empty] at total
      cases step
      refine ⟨.inl (processOneBuffer_flowing ⟨h.sourceOpen, ?_, ?_, by simp, going,
        done, coming, yielded, wire, last, seen, ?_⟩ rfl), ?_⟩
      · show aborted (if _ then _ else _) = false
        split <;> simpa [abort] using h.queueOpen
      · intro ended
        exact h.notEnded (granted_ended ended)
      · rw [← total]
        show _ ++ (b :: rest).map StreamBuf.view ++ (items (if _ then _ else _)).map StreamBuf.view ++
          (granted queue c.reader).hand.map RcvBuf.view ++ coming = _
        rw [hand_granted]
        cases stop with
        | none => simp [empty]
        | some e =>
            -- the end that is put back stands for the end that was found
            have isEnd : e.buf.isEnd = true := stopped e rfl
            have putBackEnd : putBack.buf.isEnd = true := by decide
            have room : (items queue).length < capacity queue := by
              rw [empty, cap]
              decide
            have pushed := items_push_of_room putBack room
            simp [pushed, empty, putBackEnd, StreamBuf.view, RcvBuf.view, isEnd]
      · -- of a batch at most the end stays in the queue
        rw [before]
        have room : (items queue).length < capacity queue := by
          rw [empty, cap]
          decide
        cases stop with
        | none =>
            simp [StreamConnection.ahead, processOneBuffer, yields, ahead_granted, empty]
        | some e =>
            simp [StreamConnection.ahead, processOneBuffer, yields, ahead_granted,
              items_push_of_room putBack room, empty]

theorem step_flowing (inverse : ∀ c, link.compressor = some c → (codecs c).Inverse)
    (sendable : ∀ frame ∈ values.map some ++ [none], Sendable codecs link uninit frame)
    {e : StreamEvent} (kept : Kept c)
    (h : Flowing codecs link uninit values c) (drained : EndsDrained codecs link c e)
    (next : step codecs link c e = some c') :
    (Flowing codecs link uninit values c' ∨ Over values c') ∧
      c'.ahead + (if e.goesOn then 1 else 0) ≤ c.ahead := by
  unfold step at next
  rw [kept.running] at next
  cases e with
  | readFrame => exact (readFrameStep_flowing inverse sendable h drained next).imp_left .inl
  | acquire => exact (acquireStep_flowing h next).imp_left .inl
  | push => exact (pushStep_flowing kept h next).imp_left .inl
  | call => exact (callStep_flowing h next).imp .inl Nat.le_of_eq
  | receive => exact receiveStep_flowing kept h next
  | stopped =>
      change stoppedStep c = some c' at next
      unfold stoppedStep at next
      split at next
      · rename_i r closing _
        exact absurd closing (h.notClosing r)
      · cases next
  | sinkCloses =>
      cases next
      refine ⟨.inl ⟨h.sourceOpen, h.queueOpen, h.notEnded, h.notClosing, h.plain, ?_⟩, ?_⟩
      · have flow := h.flow
        simp only [sinkClosesStep, h.sourceOpen, Bool.or_false]
        exact flow
      · simp [sinkClosesStep, h.sourceOpen, StreamConnection.ahead, StreamEvent.goesOn]

/-- Behind the end of a stream the read loop finds nothing. -/
theorem readFrameStep_over (h : Over values c)
    (step : readFrameStep codecs link c = some c') : Over values c' ∧ c'.ahead < c.ahead := by
  unfold readFrameStep at step
  split at step
  case h_2 => cases step
  rename_i reading
  split at step
  · cases step
    refine ⟨⟨h.sourceClosed, h.bufs, items_abort _, rfl, fun error => (by cases error), h.results⟩,
      ?_⟩
    simp [StreamConnection.ahead, teardown, reading]
  · rename_i going
    have error : c.error = false := by simp at going; exact going.2
    obtain ⟨rest, nothing⟩ := @readFrameCompressed_nil _ _ codecs link _ _ streamFrame _
      (h.content error) (by decide)
    rw [nothing] at step
    cases step
    refine ⟨⟨h.sourceClosed, h.bufs, h.queue, h.hand, fun error => (by cases error), h.results⟩,
      ?_⟩
    unfold StreamConnection.ahead
    simp only [error, cond_true, cond_false]
    omega

/-- Who reads on is told that the stream is closed. -/
theorem callStep_over (h : Over values c) (step : callStep c = some c') :
    Over values c' ∧ c'.ahead = c.ahead := by
  unfold callStep at step
  split at step
  case h_2 => cases step
  rename_i idle
  rw [h.bufs] at step
  simp only [h.sourceClosed, if_true] at step
  cases step
  refine ⟨⟨h.sourceClosed, h.bufs, h.queue, h.hand, h.content, .inr ⟨rfl, ?_⟩⟩, ?_⟩
  · rcases h.results with ⟨closing, _⟩ | ⟨_, k, yielded⟩
    · rw [idle] at closing
      cases closing
    · exact ⟨k + 1, by simp [yields, yielded, List.replicate_succ']⟩
  · simp [StreamConnection.ahead, yields, idle]

/-- The end that was held back is reported. -/
theorem stoppedStep_over (h : Over values c) (step : stoppedStep c = some c') :
    Over values c' ∧ c'.ahead < c.ahead := by
  unfold stoppedStep at step
  split at step
  case h_2 => cases step
  rename_i r closing _
  cases step
  refine ⟨⟨h.sourceClosed, h.bufs, h.queue, h.hand, h.content, .inr ⟨rfl, 0, ?_⟩⟩, ?_⟩
  · rcases h.results with ⟨same, yielded⟩ | ⟨idle, _⟩
    · rw [closing] at same
      cases same
      simp [yields, yielded]
    · rw [closing] at idle
      cases idle
  · simp [StreamConnection.ahead, yields, closing]

/-- After its end a stream stays over, and nothing is left to do soon. -/
theorem step_over {e : StreamEvent} (kept : Kept c) (h : Over values c)
    (next : step codecs link c e = some c') :
    Over values c' ∧ c'.ahead + (if e.goesOn then 1 else 0) ≤ c.ahead := by
  have hand := h.hand
  unfold step at next
  rw [kept.running] at next
  cases e with
  | readFrame => exact readFrameStep_over h next
  | call => exact (callStep_over h next).imp_right Nat.le_of_eq
  | stopped => exact stoppedStep_over h next
  | acquire =>
      change acquireStep c = some c' at next
      unfold acquireStep at next
      split at next
      case h_2 => cases next
      rename_i buf acquiring
      rw [acquiring] at hand
      cases hand
  | push =>
      change pushStep c = some c' at next
      unfold pushStep at next
      split at next
      case h_2 => cases next
      rename_i buf pushing
      rw [pushing] at hand
      cases hand
  | receive =>
      change receiveStep c = some c' at next
      unfold receiveStep at next
      split at next
      case h_2 => cases next
      rename_i waiting
      rcases h.results with ⟨same, _⟩ | ⟨same, _⟩
      · rw [waiting] at same
        cases same
      · rw [waiting] at same
        cases same
  | sinkCloses =>
      cases next
      refine ⟨⟨h.sourceClosed, h.bufs, h.queue, h.hand, fun error => ?_, h.results⟩, ?_⟩
      · simp [sinkClosesStep, h.sourceClosed] at error
      · simp [sinkClosesStep, h.sourceClosed, StreamConnection.ahead, StreamEvent.goesOn]

/-! ## Runs -/

/-- The values in order, and the end reported once when they have all been
yielded; whoever reads on after the end is told that the stream is closed. -/
def Delivered (values : List (List Byte)) (yielded : List SourceRead) : Prop :=
  (∃ n, yielded = (values.take n).map .value) ∨
    ∃ k, yielded = values.map .value ++ .endOfStream :: List.replicate k .closed

theorem take_of_map_some {α : Type} {before values : List α} {after : List (Option α)}
    (same : before.map some ++ after = values.map some ++ [none]) :
    before = values.take before.length := by
  induction before generalizing values with
  | nil => rfl
  | cons b before ih =>
      cases values with
      | nil => simp at same
      | cons v values =>
          simp only [List.map_cons, List.cons_append, List.cons.injEq, Option.some.injEq] at same
          obtain ⟨rfl, same⟩ := same
          rw [List.length_cons, List.take_succ_cons, ← ih same]

theorem Flowing.delivered (h : Flowing codecs link uninit values c) :
    Delivered values c.yielded := by
  obtain ⟨done, coming, yielded, _, _, _, total⟩ := h.flow
  simp only [List.append_assoc] at total
  exact .inl ⟨done.length, by rw [yielded, ← take_of_map_some total]⟩

theorem Over.delivered (h : Over values c) : Delivered values c.yielded := by
  rcases h.results with ⟨_, yielded⟩ | ⟨_, k, yielded⟩
  · exact .inl ⟨values.length, by simp [yielded]⟩
  · exact .inr ⟨k, yielded⟩

/-- While a read is under way the read loop or the source has a step to do. -/
def CanGoOn (codecs : Compressor → Codec) (link : Link) (c : StreamConnection σ Q) : Prop :=
  c.source ≠ .idle → ∃ e c', e.goesOn = true ∧ Punctual codecs link c e ∧
    step codecs link c e = some c'

theorem readFrameStep_reading (reading : c.reader = .reading) :
    ∃ c', readFrameStep codecs link c = some c' := by
  unfold readFrameStep
  rw [reading]
  dsimp only
  split
  · exact ⟨_, rfl⟩
  · split <;> exact ⟨_, rfl⟩

omit [InputStream Byte σ] in
theorem acquireStep_enough {buf : RcvBuf} (acquiring : c.reader = .acquiring buf)
    (enough : units buf ≤ c.streamSem) : ∃ c', acquireStep c = some c' := by
  change min buf.size.toNat maxStreamBuffersMemory ≤ _ at enough
  unfold acquireStep
  rw [acquiring]
  dsimp only
  rw [if_pos enough]
  split <;> exact ⟨_, rfl⟩

omit [InputStream Byte σ] in
theorem pushStep_granted {buf : StreamBuf} (pushing : c.reader = .pushing buf true) :
    ∃ c', pushStep c = some c' := by
  unfold pushStep
  rw [pushing]
  exact ⟨_, rfl⟩

omit [InputStream Byte σ] in
theorem receiveStep_queued (waiting : c.source = .waiting) (queue : items c.streamQueue ≠ []) :
    ∃ c', receiveStep c = some c' := by
  unfold receiveStep
  rw [waiting]
  dsimp only
  split
  · exact ⟨_, rfl⟩
  · rw [if_neg (by simpa using queue)]
    split <;> exact ⟨_, rfl⟩

omit [InputStream Byte σ] [BoundedQueue StreamBuf Q] in
theorem stoppedStep_ended {r : SourceRead} (closing : c.source = .closing r)
    (ended : c.reader = .ended) : ∃ c', stoppedStep c = some c' := by
  unfold stoppedStep
  rw [closing, ended]
  exact ⟨_, rfl⟩

theorem endsBehindEmpty_of_unseen {received : List RcvBuf}
    (unseen : ∀ b ∈ received, b.isEnd = false) : endsBehindEmpty received = false := by
  unfold endsBehindEmpty
  split
  · rename_i e a before shape
    have member : e ∈ received := by
      rw [← List.mem_reverse, shape]
      exact List.mem_cons_self
    simp [unseen e member]
  · rfl

theorem Flowing.goes_on (kept : Kept c)
    (h : Flowing codecs link uninit values c) : CanGoOn codecs link c := by
  intro busy
  have waiting : c.source = .waiting := by
    cases source : c.source with
    | idle => exact absurd source busy
    | waiting => rfl
    | closing r => exact absurd source (h.notClosing r)
  have empty := kept.drained waiting
  have running := kept.running
  by_cases queue : items c.streamQueue = []
  · -- the end is still on its way, so the read loop has not ended
    cases reader : c.reader with
    | ended => exact absurd reader h.notEnded
    | reading =>
        obtain ⟨c', next⟩ := @readFrameStep_reading codecs link _ _ _ _ _ reader
        obtain ⟨_, unseen, _⟩ := h.on_its_way (by rw [reader]; rfl) queue
        exact ⟨.readFrame, c', rfl, ⟨fun _ _ _ _ => endsBehindEmpty_of_unseen unseen,
          fun _ _ _ => .inl (by simp [queue])⟩, by simp [step, running, next]⟩
    | acquiring buf =>
        -- no buffer holds any units
        have total := kept.units_total
        rw [queue, empty, reader] at total
        have enough : units buf ≤ c.streamSem := by
          have most : units buf ≤ maxStreamBuffersMemory := Nat.min_le_right _ _
          simp only [held_nil, FrameReader.held] at total
          omega
        obtain ⟨c', next⟩ := acquireStep_enough reader enough
        exact ⟨.acquire, c', rfl, by simp [Punctual, FramesApart, EndsDrained],
          by simp [step, running, next]⟩
    | pushing buf granted =>
        cases granted with
        | true =>
            obtain ⟨c', next⟩ := pushStep_granted reader
            exact ⟨.push, c', rfl, by simp [Punctual, FramesApart, EndsDrained],
              by simp [step, running, next]⟩
        | false =>
            have crowded := kept.crowded buf reader
            rw [queue] at crowded
            exact absurd crowded (by decide)
  · obtain ⟨c', next⟩ := receiveStep_queued waiting queue
    exact ⟨.receive, c', rfl, by simp [Punctual, FramesApart, EndsDrained],
      by simp [step, running, next]⟩

theorem Over.goes_on (kept : Kept c) (h : Over values c) : CanGoOn codecs link c := by
  intro busy
  have running := kept.running
  have closing : c.source = .closing .endOfStream := by
    rcases h.results with ⟨closing, _⟩ | ⟨idle, _⟩
    · exact closing
    · exact absurd idle busy
  have hand := h.hand
  cases reader : c.reader with
  | ended =>
      obtain ⟨c', next⟩ := stoppedStep_ended closing reader
      exact ⟨.stopped, c', rfl, by simp [Punctual, FramesApart, EndsDrained],
        by simp [step, running, next]⟩
  | reading =>
      -- nothing is left to read, so no empty frame comes behind the end
      obtain ⟨c', next⟩ := @readFrameStep_reading codecs link _ _ _ _ _ reader
      refine ⟨.readFrame, c', rfl, ⟨fun _ _ error empty => ?_, fun _ _ _ => .inr h.sourceClosed⟩,
        by simp [step, running, next]⟩
      obtain ⟨rest, nothing⟩ := @readFrameCompressed_nil _ _ codecs link _ _ streamFrame _
        (h.content error) (by decide)
      have none_read : streamFrame.emptyValue = none := rfl
      simp [readsEmpty, nothing, none_read] at empty
  | acquiring buf => rw [reader] at hand; cases hand
  | pushing buf granted => rw [reader] at hand; cases hand

theorem start_flowing (readBuf : σ) (sinkClosed : Bool)
    (wire : content readBuf = streamBytes codecs link uninit (values.map some ++ [none])) :
    Flowing codecs link uninit values (start readBuf sinkClosed : StreamConnection σ Q) where
  sourceOpen := rfl
  queueOpen := aborted_ofCapacity _
  notEnded := by simp [start]
  notClosing r := by simp [start]
  plain b member := by simp [start] at member
  flow := ⟨[], values.map some ++ [none], rfl, fun _ => wire, fun error => (by cases error),
    fun b member => (by cases member), by simp [start, FrameReader.hand]⟩

/-- A stream of a sink that is flowing or over is so after a punctual step, and there is
less to do after a step that goes on. -/
theorem step_delivering (inverse : ∀ c, link.compressor = some c → (codecs c).Inverse)
    (sendable : ∀ frame ∈ values.map some ++ [none], Sendable codecs link uninit frame)
    {e : StreamEvent}
    (h : Kept c ∧ (Flowing codecs link uninit values c ∨ Over values c))
    (punctual : Punctual codecs link c e) (next : step codecs link c e = some c') :
    (Kept c' ∧ (Flowing codecs link uninit values c' ∨ Over values c')) ∧
      c'.ahead + (if e.goesOn then 1 else 0) ≤ c.ahead := by
  obtain ⟨kept, flowing | finished⟩ := h
  · obtain ⟨goesOn, lower⟩ := step_flowing inverse sendable kept flowing punctual.2 next
    exact ⟨⟨step_kept kept punctual.1 next, goesOn⟩, lower⟩
  · obtain ⟨goesOn, lower⟩ := step_over kept finished next
    exact ⟨⟨step_kept kept punctual.1 next, .inr goesOn⟩, lower⟩

/-! ### The calls of the source -/

def SourcePhase.busy : SourcePhase → Nat
  | .idle => 0
  | _ => 1

/-- The calls of the source: those that have returned and the one under way. -/
def StreamConnection.calls (c : StreamConnection σ Q) : Nat := c.yielded.length + c.source.busy

omit [InputStream Byte σ] [BoundedQueue StreamBuf Q] in
theorem calls_yields (c : StreamConnection σ Q) (r : SourceRead) :
    (yields c r).calls = c.yielded.length + 1 := by
  simp [StreamConnection.calls, yields, SourcePhase.busy]

omit [InputStream Byte σ] [BoundedQueue StreamBuf Q] in
theorem calls_closeSource (c : StreamConnection σ Q) (r : SourceRead) :
    (closeSource c r).calls = c.yielded.length + 1 := by
  unfold closeSource
  split
  · rfl
  · exact calls_yields _ r

omit [InputStream Byte σ] in
theorem streamReceive_yielded (c : StreamConnection σ Q) :
    (streamReceive c).yielded = c.yielded := by
  simp only [streamReceive]
  split <;> rfl

omit [InputStream Byte σ] [BoundedQueue StreamBuf Q] in
theorem callStep_calls (step : callStep c = some c') : c'.calls = c.calls + 1 := by
  unfold callStep at step
  split at step
  case h_2 => cases step
  rename_i idle
  have free : c.calls = c.yielded.length := by
    simp [StreamConnection.calls, idle, SourcePhase.busy]
  rw [free]
  split at step
  · cases step
    exact calls_yields _ _
  · split at step <;> cases step
    · exact calls_yields _ _
    · rfl

omit [InputStream Byte σ] in
theorem receiveStep_calls (step : receiveStep c = some c') : c'.calls = c.calls := by
  unfold receiveStep at step
  split at step
  case h_2 => cases step
  rename_i waiting
  have busy : c.calls = c.yielded.length + 1 := by
    simp [StreamConnection.calls, waiting, SourcePhase.busy]
  have received := streamReceive_yielded c
  rw [busy]
  split at step
  · cases step
    exact calls_closeSource _ _
  split at step
  · cases step
  dsimp only at step
  split at step <;> cases step
  · exact (calls_closeSource _ _).trans (by rw [received])
  · exact (calls_yields _ _).trans (by rw [received])

theorem step_calls {e : StreamEvent} (next : step codecs link c e = some c') :
    c'.calls = c.calls + (if e == .call then 1 else 0) := by
  unfold step at next
  split at next
  · cases next
  cases e with
  | call => exact callStep_calls next
  | receive => exact receiveStep_calls next
  | readFrame =>
      change readFrameStep codecs link c = some c' at next
      unfold readFrameStep at next
      split at next
      case h_2 => cases next
      split at next
      · cases next
        rfl
      · split at next <;> cases next <;> rfl
  | acquire =>
      change acquireStep c = some c' at next
      unfold acquireStep at next
      split at next
      case h_2 => cases next
      dsimp only at next
      split at next
      case isFalse => cases next
      split at next <;> cases next <;> rfl
  | push =>
      change pushStep c = some c' at next
      unfold pushStep at next
      split at next <;> cases next
      rfl
  | stopped =>
      change stoppedStep c = some c' at next
      unfold stoppedStep at next
      split at next <;> cases next
      rename_i r closing _
      rw [calls_yields]
      simp [StreamConnection.calls, closing, SourcePhase.busy]
  | sinkCloses =>
      cases next
      rfl

/-- **Stream delivery.** When no end of the stream stands between empty frames
and the connection ends only after the queue was drained, the assertion holds
whatever the peer sends, and of the stream of a sink the source yields the
values in order and the end once: every call returns one of them, for while one is
under way the read loop or the source has a step to do, and these run out. -/
theorem stream_delivered (inverse : ∀ c, link.compressor = some c → (codecs c).Inverse)
    {readBuf : σ} {sinkClosed : Bool} {es : List StreamEvent} {t : StreamConnection σ Q}
    (punctual : Along (step codecs link) (Punctual codecs link)
      (start readBuf sinkClosed : StreamConnection σ Q) es)
    (run : exec (step codecs link) (start readBuf sinkClosed) es = some t) :
    t.assertFailed = false ∧
    ∀ uninit values, (∀ frame ∈ values.map some ++ [none], Sendable codecs link uninit frame) →
      content readBuf = streamBytes codecs link uninit (values.map some ++ [none]) →
      Delivered values t.yielded ∧ t.calls = es.count .call ∧ CanGoOn codecs link t ∧
      ∀ more t', Along (step codecs link) (Punctual codecs link) t more →
        exec (step codecs link) t more = some t' →
        more.countP StreamEvent.goesOn ≤ t.ahead := by
  have kept : Kept t := punctual.invariant
    (fun s e s' h ok next => step_kept h ok.1 next) (start_kept readBuf sinkClosed) run
  refine ⟨kept.running, fun uninit values sendable wire => ?_⟩
  have delivering : Kept t ∧ (Flowing codecs link uninit values t ∨ Over values t) :=
    punctual.invariant (fun s e s' h ok next => (step_delivering inverse sendable h ok next).1)
      ⟨start_kept readBuf sinkClosed, .inl (start_flowing readBuf sinkClosed wire)⟩ run
  have calls : t.calls = es.count .call := by
    have counted := exec_countP (fun _ _ _ next => step_calls next) run
    simpa [StreamConnection.calls, start, SourcePhase.busy, List.count] using counted
  have bounded : ∀ more t', Along (step codecs link) (Punctual codecs link) t more →
      exec (step codecs link) t more = some t' → more.countP StreamEvent.goesOn ≤ t.ahead :=
    fun more t' along further => along.countP_le
      (fun s e s' h ok next => step_delivering inverse sendable h ok next) delivering further
  rcases delivering.2 with flowing | finished
  · exact ⟨flowing.delivered, calls, flowing.goes_on kept, bounded⟩
  · exact ⟨finished.delivered, calls, finished.goes_on kept, bounded⟩

/-! ## One value and its end -/

/-- A link without compression. -/
def plainLink : Link := ⟨none, false⟩

/-- The frame of the value 7 and the end of the stream. -/
def oneValue : Chunked Byte := ⟨[[1, 0, 0, 0, 7], [255, 255, 255, 255]], false⟩

theorem oneValue_bytes : InputStream.content oneValue =
    streamBytes (fun _ => copyCodec) plainLink (fun _ => 0) [some [7], none] := by
  rw [plainLink, streamBytes_plain (by decide)]
  decide

theorem stream_delivered_one :
    ∃ t : StreamConnection (Chunked Byte) (ListQueue StreamBuf),
      exec (step (fun _ => copyCodec) plainLink) (start oneValue true)
        [.call, .readFrame, .acquire, .receive, .readFrame, .acquire, .call, .receive, .readFrame,
          .stopped] = some t ∧
      t.assertFailed = false ∧ Delivered [[7]] t.yielded := by
  have run : exec (step (fun _ => copyCodec) plainLink)
      (start oneValue true : StreamConnection (Chunked Byte) (ListQueue StreamBuf))
      [.call, .readFrame, .acquire, .receive, .readFrame, .acquire, .call, .receive, .readFrame,
        .stopped] = some _ := (Option.some_get (by decide)).symm
  have delivered := stream_delivered (fun _ used => (by cases used)) (by decide) run
  exact ⟨_, run, delivered.1,
    (delivered.2 (fun _ => 0) [[7]] (by decide) oneValue_bytes).1⟩

/-- The connection ends with the end of the stream still in the queue, and a
peer puts the end between two empty frames. -/
theorem stream_end_discarded :
    (∃ t : StreamConnection (Chunked Byte) (ListQueue StreamBuf),
      exec (step (fun _ => copyCodec) plainLink) (start oneValue true)
        [.call, .readFrame, .acquire, .receive, .readFrame, .acquire, .readFrame, .readFrame,
          .call, .receive, .stopped] = some t ∧
      t.yielded = [.value [7], .closed] ∧ ¬ Delivered [[7]] t.yielded) ∧
    InputStream.content oneValue =
      streamBytes (fun _ => copyCodec) plainLink (fun _ => 0) [some [7], none] ∧
    ∃ t : StreamConnection (Chunked Byte) (ListQueue StreamBuf),
      exec (step (fun _ => copyCodec) plainLink)
        (start ⟨[[0, 0, 0, 0], [255, 255, 255, 255], [0, 0, 0, 0]], false⟩ true)
        [.readFrame, .acquire, .readFrame, .acquire, .readFrame, .acquire, .call, .receive] =
          some t ∧ t.assertFailed = true := by
  have cut_short : ∀ yielded, yielded = [.value [7], SourceRead.closed] →
      ¬ Delivered [[7]] yielded := by
    rintro _ rfl (⟨n, values⟩ | ⟨k, ends⟩)
    · have member : SourceRead.closed ∈ ([[7]].take n).map SourceRead.value := by
        rw [← values]
        simp
      obtain ⟨_, _, same⟩ := List.mem_map.mp member
      cases same
    · simp at ends
  refine ⟨⟨_, (Option.some_get (by decide)).symm, by decide, cut_short _ (by decide)⟩,
    oneValue_bytes, _, (Option.some_get (by decide)).symm, by decide⟩

end ActorNet.Rpc
