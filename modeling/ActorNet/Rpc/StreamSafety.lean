import ActorNet.Rpc.FrameRoundTrip
import ActorNet.Rpc.Stream

/-!
# What a batch of a stream may hold

The end of a stream takes every unit of the semaphore, so nothing but empty
frames can share the queue with it. `stream_receive` asserts that nothing is
left behind an end that it finds behind other frames: this fails exactly for an
empty frame on either side of the end.
-/

namespace ActorNet.Rpc

open Lib BoundedQueue StreamConnection

/-! ## The frames a peer sends -/

/-- An end of the stream directly behind an empty frame. -/
def endsBehindEmpty (received : List RcvBuf) : Bool :=
  match received.reverse with
  | e :: a :: _ => e.isEnd && a.size == 0#32
  | _ => false

section

variable {σ Q : Type} [InputStream Byte σ]

def readsEmpty (codecs : Compressor → Codec) (link : Link) (s : σ) : Bool :=
  match readFrameCompressed codecs link streamFrame s with
  | some (some buf, _) => buf.size == 0#32
  | _ => false

/-- The peer sends no empty frame behind an end that is itself behind one. -/
def FramesApart (codecs : Compressor → Codec) (link : Link) (c : StreamConnection σ Q)
    (e : StreamEvent) : Prop :=
  e = .readFrame → c.reader = .reading → c.error = false →
    readsEmpty codecs link c.readBuf = true → endsBehindEmpty c.received = false

instance (codecs : Compressor → Codec) (link : Link) (c : StreamConnection σ Q)
    (e : StreamEvent) : Decidable (FramesApart codecs link c e) :=
  inferInstanceAs (Decidable (_ → _ → _ → _ → _))

end

/-- No end of the stream stands between two empty frames. -/
def NoEmptyAroundEnd (received : List RcvBuf) : Prop :=
  ∀ before a e d after, received = before ++ a :: e :: d :: after →
    a.size = 0#32 → e.isEnd = true → d.size ≠ 0#32

theorem NoEmptyAroundEnd.append {received : List RcvBuf} {buf : RcvBuf}
    (apart : NoEmptyAroundEnd received)
    (next : buf.size = 0#32 → endsBehindEmpty received = false) :
    NoEmptyAroundEnd (received ++ [buf]) := by
  intro before a e d after same empty isEnd nothing
  rcases List.eq_nil_or_concat after with rfl | ⟨after, last, rfl⟩
  · -- the frame that arrives now is the one behind the end
    have shape : received ++ [buf] = (before ++ [a, e]) ++ [d] := by simpa using same
    obtain ⟨ends, last⟩ := List.append_inj' shape rfl
    cases last
    have alone := next nothing
    simp [ends, endsBehindEmpty, empty, isEnd] at alone
  · have shape : received ++ [buf] = (before ++ a :: e :: d :: after) ++ [last] := by
      simpa using same
    have shape := (List.append_inj' shape rfl).1
    exact apart before a e d after shape empty isEnd nothing

/-! ## Units and arrivals -/

/-- The units a frame has to acquire. -/
def units (buf : RcvBuf) : Nat := min buf.size.toNat maxStreamBuffersMemory

theorem units_isEnd {buf : RcvBuf} (isEnd : buf.isEnd = true) :
    units buf = maxStreamBuffersMemory := by
  have size : buf.size = endSize := by simpa [RcvBuf.isEnd] using isEnd
  rw [units, size]
  decide

theorem units_eq_zero {buf : RcvBuf} : units buf = 0 ↔ buf.size = 0#32 := by
  have positive : maxStreamBuffersMemory ≠ 0 := by decide
  constructor
  · intro none
    have : buf.size.toNat = 0 := by
      unfold units at none
      omega
    exact BitVec.eq_of_toNat_eq this
  · intro empty
    simp [units, empty]

/-- What a frame reader still has to put into the queue. -/
def FrameReader.hand : FrameReader → List RcvBuf
  | .acquiring buf => [buf]
  | .pushing buf _ => [buf.buf]
  | _ => []

def FrameReader.held : FrameReader → Nat
  | .pushing buf _ => buf.su
  | _ => 0

/-- The mark that `stream_receive` puts back. -/
def putBack : StreamBuf := ⟨⟨endSize, []⟩, 0⟩

variable {σ Q : Type} [BoundedQueue StreamBuf Q]

/-- The queue holds the frames that arrived last, behind a mark that was put
back; every unit of the semaphore is with some buffer or free. -/
structure Kept (c : StreamConnection σ Q) : Prop where
  running : c.assertFailed = false
  fifty : capacity c.streamQueue = maxQueuedStreamBuffers
  units_total : c.streamSem + held (items c.streamQueue) + held c.bufs + c.reader.held =
    maxStreamBuffersMemory
  arrived : ∃ early marked queued, items c.streamQueue = marked ++ queued ∧
    (marked = [] ∨ marked = [putBack]) ∧
    c.received = early ++ queued.map StreamBuf.buf ++ c.reader.hand ∧
    ∀ b ∈ queued, b.su = units b.buf
  handed : ∀ b granted, c.reader = .pushing b granted → b.su = units b.buf
  room : ∀ b, c.reader = .pushing b true → (items c.streamQueue).length < maxQueuedStreamBuffers
  crowded : ∀ b, c.reader = .pushing b false →
    maxQueuedStreamBuffers ≤ (items c.streamQueue).length
  atEnd : c.reader = .ended → aborted c.streamQueue = true
  drained : c.source = .waiting → c.bufs = []
  apart : NoEmptyAroundEnd c.received

@[simp] theorem held_nil : held [] = 0 := rfl

@[simp] theorem held_cons (b : StreamBuf) (bufs : List StreamBuf) :
    held (b :: bufs) = b.su + held bufs := by
  simp [held]

@[simp] theorem held_append (bufs bufs' : List StreamBuf) :
    held (bufs ++ bufs') = held bufs + held bufs' := by
  simp [held]

variable {codecs : Compressor → Codec} {link : Link} {c c' : StreamConnection σ Q}

theorem start_kept (readBuf : σ) (sinkClosed : Bool) :
    Kept (start readBuf sinkClosed : StreamConnection σ Q) where
  running := rfl
  fifty := capacity_ofCapacity _
  units_total := by simp [start, FrameReader.held]
  arrived := ⟨[], [], [], by simp [start], .inl rfl, rfl, by simp⟩
  handed b granted reader := nomatch reader
  room b reader := nomatch reader
  crowded b reader := nomatch reader
  atEnd ended := nomatch ended
  drained _ := rfl
  apart before a e d after same := by simp [start] at same

theorem teardown_kept (h : Kept c) (reading : c.reader = .reading) : Kept (teardown c) where
  running := h.running
  fifty := by simpa [teardown] using h.fifty
  units_total := by
    have total := h.units_total
    simp [teardown, FrameReader.held, reading] at total ⊢
    omega
  arrived := ⟨c.received, [], [], by simp [teardown], .inl rfl, by
    simp [teardown, FrameReader.hand], by simp⟩
  handed b granted reader := nomatch reader
  room b reader := nomatch reader
  crowded b reader := nomatch reader
  atEnd _ := aborted_abort _
  drained := h.drained
  apart := h.apart

theorem readFrameStep_kept [InputStream Byte σ] (h : Kept c) (apart : FramesApart codecs link c .readFrame)
    (step : readFrameStep codecs link c = some c') : Kept c' := by
  unfold readFrameStep at step
  split at step
  · rename_i reading
    split at step
    · cases step
      exact teardown_kept h reading
    rename_i going
    have error : c.error = false := by simp at going; exact going.2
    split at step
    · cases step
      exact teardown_kept h reading
    · cases step
      exact ⟨h.running, h.fifty, h.units_total, h.arrived, h.handed, h.room, h.crowded, h.atEnd,
        h.drained, h.apart⟩
    · rename_i buf rest read
      cases step
      obtain ⟨early, marked, queued, queue, mark, arrived, su⟩ := h.arrived
      have next : buf.size = 0#32 → endsBehindEmpty c.received = false := by
        intro empty
        exact apart rfl reading error (by simp [readsEmpty, read, empty])
      constructor
      · exact h.running
      · exact h.fifty
      · simpa [FrameReader.held, reading] using h.units_total
      · refine ⟨early, marked, queued, queue, mark, ?_, su⟩
        show c.received ++ [buf] = early ++ queued.map StreamBuf.buf ++ [buf]
        rw [arrived, reading]
        simp [FrameReader.hand]
      · exact fun b granted reader => nomatch reader
      · exact fun b reader => nomatch reader
      · exact fun b reader => nomatch reader
      · exact fun ended => nomatch ended
      · exact h.drained
      · exact h.apart.append next
  · cases step

/-- A buffer that the reader puts into the queue. -/
theorem push_kept {sem : Nat} {b : StreamBuf} (h : Kept c)
    (room : (items c.streamQueue).length < maxQueuedStreamBuffers)
    (hand : c.reader.hand = [b.buf]) (su : b.su = units b.buf)
    (taken : sem + b.su = c.streamSem + c.reader.held) :
    Kept { c with streamSem := sem, streamQueue := push b c.streamQueue, reader := .reading } := by
  have added := items_push_of_room b (h.fifty ▸ room)
  obtain ⟨early, marked, queued, queue, mark, arrived, queuedSu⟩ := h.arrived
  constructor
  · exact h.running
  · simpa using h.fifty
  · have total := h.units_total
    show sem + held (items (push b c.streamQueue)) + held c.bufs + 0 = maxStreamBuffersMemory
    rw [added, held_append, held_cons, held_nil]
    omega
  · refine ⟨early, marked, queued ++ [b], ?_, mark, ?_, ?_⟩
    · show items (push b c.streamQueue) = _
      rw [added, queue, List.append_assoc]
    · show c.received = early ++ (queued ++ [b]).map StreamBuf.buf ++ []
      rw [arrived, hand]
      simp
    · intro x member
      rcases List.mem_append.mp member with old | new
      · exact queuedSu x old
      · rw [List.mem_singleton.mp new]
        exact su
  · exact fun b granted reader => nomatch reader
  · exact fun b reader => nomatch reader
  · exact fun b reader => nomatch reader
  · exact fun ended => nomatch ended
  · exact h.drained
  · exact h.apart

theorem acquireStep_kept (h : Kept c) (step : acquireStep c = some c') : Kept c' := by
  unfold acquireStep at step
  split at step
  · rename_i buf acquiring
    dsimp only at step
    split at step
    · rename_i enough
      change units buf ≤ c.streamSem at enough
      split at step
      · rename_i isFull
        cases step
        obtain ⟨early, marked, queued, queue, mark, arrived, su⟩ := h.arrived
        constructor
        · exact h.running
        · exact h.fifty
        · have total := h.units_total
          rw [acquiring] at total
          change c.streamSem + held (items c.streamQueue) + held c.bufs + 0 = _ at total
          show c.streamSem - units buf + held (items c.streamQueue) + held c.bufs + units buf = _
          omega
        · refine ⟨early, marked, queued, queue, mark, ?_, su⟩
          rw [acquiring] at arrived
          exact arrived
        · intro b granted reader
          cases reader
          rfl
        · exact fun b reader => nomatch reader
        · intro b _
          exact h.fifty ▸ full_eq_true.mp isFull
        · exact fun ended => nomatch ended
        · exact h.drained
        · exact h.apart
      · rename_i notFull
        cases step
        have room := full_eq_false.mp (Bool.eq_false_iff.mpr notFull)
        refine push_kept h (h.fifty ▸ room) (by rw [acquiring]; rfl) rfl ?_
        rw [acquiring]
        exact Nat.sub_add_cancel enough
    · cases step
  · cases step

theorem pushStep_kept (h : Kept c) (step : pushStep c = some c') : Kept c' := by
  unfold pushStep at step
  split at step
  · rename_i buf pushing
    cases step
    refine push_kept h (h.room buf pushing) (by rw [pushing]; rfl) (h.handed buf true pushing)
      ?_
    rw [pushing]
    rfl
  · cases step

/-! ## The source -/

theorem held_eq_zero {bufs : List StreamBuf} (none : held bufs = 0) : ∀ b ∈ bufs, b.su = 0 := by
  intro b member
  have counted : b.su ∈ bufs.map StreamBuf.su := List.mem_map_of_mem member
  have part := List.single_le_sum (by simp) b.su counted
  exact Nat.le_zero.mp (none ▸ part)

/-- The end of a stream that was not put back shares the queue with empty
frames only, so it is the last. -/
theorem Kept.nothing_behind_end (h : Kept c) {taken rest : List StreamBuf} {e : StreamBuf}
    (queue : items c.streamQueue = taken ++ e :: rest) (some_taken : taken ≠ [])
    (going : ∀ b ∈ taken, b.isEnd = false) (isEnd : e.isEnd = true) : rest = [] := by
  obtain ⟨early, marked, queued, split, mark, arrived, su⟩ := h.arrived
  have unmarked : marked = [] := by
    rcases mark with none | put
    · exact none
    · -- a mark that was put back is the first item and would have ended the batch
      obtain ⟨a, taken, rfl⟩ := List.exists_cons_of_ne_nil some_taken
      rw [put, queue] at split
      have first : a = putBack := (List.cons.inj split).1
      have goes := going a List.mem_cons_self
      rw [first] at goes
      exact absurd goes (by decide)
  have all : queued = taken ++ e :: rest := by rw [← queue, split, unmarked, List.nil_append]
  have whole : e.su = maxStreamBuffersMemory := by
    rw [su e (by simp [all]), units_isEnd isEnd]
  have total := h.units_total
  rw [queue, held_append, held_cons] at total
  have takenEmpty : held taken = 0 := by omega
  have restEmpty : held rest = 0 := by omega
  by_contra more
  obtain ⟨d, rest, rfl⟩ := List.exists_cons_of_ne_nil more
  obtain ⟨before, a, rfl⟩ := List.eq_nil_or_concat taken |>.resolve_left some_taken
  have emptyBefore : a.buf.size = 0#32 := by
    have none := held_eq_zero takenEmpty a (by simp)
    exact units_eq_zero.mp ((su a (by simp [all])).symm.trans none)
  have emptyBehind : d.buf.size = 0#32 := by
    have none := held_eq_zero restEmpty d (by simp)
    exact units_eq_zero.mp ((su d (by simp [all])).symm.trans none)
  refine h.apart (early ++ before.map StreamBuf.buf) a.buf e.buf d.buf
    (rest.map StreamBuf.buf ++ c.reader.hand) ?_ emptyBefore isEnd emptyBehind
  rw [arrived, all]
  simp

theorem hand_grant (reader : FrameReader) : (FrameReader.grant reader).hand = reader.hand := by
  cases reader <;> rfl

theorem held_grant (reader : FrameReader) : (FrameReader.grant reader).held = reader.held := by
  cases reader <;> rfl

/-- The reader after a batch was taken, which left `queue` behind. -/
def granted (queue : Q) (reader : FrameReader) : FrameReader :=
  if full queue then reader else FrameReader.grant reader

theorem hand_granted (queue : Q) (reader : FrameReader) :
    (granted queue reader).hand = reader.hand := by
  unfold granted
  split
  · rfl
  · exact hand_grant reader

theorem held_granted (queue : Q) (reader : FrameReader) :
    (granted queue reader).held = reader.held := by
  unfold granted
  split
  · rfl
  · exact held_grant reader

/-- A reader that has room after a batch had it before or finds it now. -/
theorem granted_true {queue : Q} {reader : FrameReader} {b : StreamBuf}
    (pushing : granted queue reader = .pushing b true) :
    full queue = false ∨ reader = .pushing b true := by
  unfold granted at pushing
  split at pushing
  · exact .inr pushing
  · rename_i notFull
    exact .inl (by simpa using notFull)

theorem granted_false {queue : Q} {reader : FrameReader} {b : StreamBuf}
    (pushing : granted queue reader = .pushing b false) : full queue = true := by
  unfold granted at pushing
  split at pushing
  · assumption
  · cases reader <;> cases pushing

theorem granted_su {queue : Q} {reader : FrameReader} {b : StreamBuf} {flag : Bool}
    (pushing : granted queue reader = .pushing b flag) : ∃ flag', reader = .pushing b flag' := by
  unfold granted at pushing
  split at pushing
  · exact ⟨flag, pushing⟩
  · cases reader with
    | pushing buf flag' =>
        cases pushing
        exact ⟨flag', rfl⟩
    | _ => cases pushing

theorem granted_ended {queue : Q} {reader : FrameReader} (ended : granted queue reader = .ended) :
    reader = .ended := by
  unfold granted at ended
  split at ended
  · exact ended
  · cases reader <;> first | rfl | cases ended

/-- What a batch leaves behind: the frames after the end it stopped at, or only
the end itself, put back. -/
theorem streamReceive_eq (h : Kept c) :
    ∃ taken stop queue, items c.streamQueue = taken ++ Option.toList stop ++ items queue ∧
      capacity queue = maxQueuedStreamBuffers ∧ aborted queue = aborted c.streamQueue ∧
      (∀ b ∈ taken, b.isEnd = false) ∧ (∀ e, stop = some e → e.isEnd = true) ∧
      (taken ≠ [] ∨ stop = none → items queue = []) ∧
      streamReceive c = { c with
        bufs := taken
        streamSem := c.streamSem + held stop.toList
        streamQueue := if stop.isSome && !taken.isEmpty then push putBack queue else queue
        reader := granted queue c.reader } := by
  obtain ⟨taken, stop, queue, consumed, split, going, stopped, all⟩ :=
    @consume_spec _ _ _ (fun b : StreamBuf => !b.isEnd) c.streamQueue
  have cap : capacity queue = maxQueuedStreamBuffers := by
    have same := @capacity_consume _ _ _ (fun b : StreamBuf => !b.isEnd) c.streamQueue
    rw [consumed, h.fifty] at same
    exact same
  have abort : aborted queue = aborted c.streamQueue := by
    have same := @aborted_consume _ _ _ (fun b : StreamBuf => !b.isEnd) c.streamQueue
    rwa [consumed] at same
  have going : ∀ b ∈ taken, b.isEnd = false := fun b member => by simpa using going b member
  have stopped : ∀ e, stop = some e → e.isEnd = true := fun e same => by
    simpa using stopped e same
  have left : taken ≠ [] ∨ stop = none → items queue = [] := by
    rintro (some_taken | none)
    · cases stop with
      | none => exact all rfl
      | some e =>
          refine h.nothing_behind_end ?_ some_taken going (stopped e rfl)
          rw [split]
          simp
    · exact all none
  refine ⟨taken, stop, queue, split, cap, abort, going, stopped, left, ?_⟩
  unfold streamReceive
  rw [consumed]
  dsimp only
  split
  · rename_i behind
    have some_taken : taken ≠ [] := by
      rintro rfl
      simp at behind
    simp [left (.inl some_taken), granted, putBack, h.running]
  · rfl

/-- What is left of the queue arrived last. -/
theorem Kept.left_arrived (h : Kept c) {gone left : List StreamBuf}
    (queue : items c.streamQueue = gone ++ left) (some_gone : gone = [] → left = []) :
    ∃ early, c.received = early ++ left.map StreamBuf.buf ++ c.reader.hand ∧
      ∀ b ∈ left, b.su = units b.buf := by
  obtain ⟨early, marked, queued, split, mark, arrived, su⟩ := h.arrived
  have short : left.length ≤ queued.length := by
    have lengths := congrArg List.length (queue.symm.trans split)
    simp only [List.length_append] at lengths
    rcases mark with rfl | rfl
    · simp at lengths
      omega
    · -- the mark is gone with the batch, unless nothing was there
      by_cases none : gone = []
      · simp [some_gone none]
      · have some := List.length_pos_iff.mpr none
        simp at lengths
        omega
  obtain ⟨older, rfl⟩ : left <:+ queued :=
    List.suffix_of_suffix_length_le ⟨gone, queue.symm⟩ ⟨marked, split.symm⟩ short
  refine ⟨early ++ older.map StreamBuf.buf, ?_, fun b member => ?_⟩
  · rw [arrived]
    simp
  · exact su b (List.mem_append_right older member)

theorem streamReceive_kept (h : Kept c) (drained : c.bufs = []) :
    Kept { streamReceive c with source := .idle } := by
  obtain ⟨taken, stop, queue, split, cap, abort, _, _, left, same⟩ := streamReceive_eq h
  have total := h.units_total
  rw [split, drained] at total
  simp only [held_append, held_nil] at total
  obtain ⟨early, arrived, su⟩ := h.left_arrived split (by
    intro none
    obtain ⟨-, noStop⟩ := List.append_eq_nil_iff.mp none
    exact left (.inr (by simpa using noStop)))
  -- the queue holds what the batch left, or the end that was put back behind nothing
  have now : (∃ q, q = (if stop.isSome && !taken.isEmpty then push putBack queue else queue) ∧
      capacity q = maxQueuedStreamBuffers ∧ aborted q = aborted queue ∧
      (items q = items queue ∨ items q = [putBack] ∧ items queue = [])) := by
    refine ⟨_, rfl, ?_⟩
    split
    · rename_i behind
      have some_taken : taken ≠ [] := by
        rintro rfl
        simp at behind
      have empty := left (.inl some_taken)
      have room : (items queue).length < capacity queue := by
        rw [empty, cap]
        decide
      refine ⟨by simpa using cap, by simp, .inr ⟨?_, empty⟩⟩
      rw [items_push_of_room putBack room, empty]
      rfl
    · exact ⟨cap, rfl, .inl rfl⟩
  obtain ⟨q, is_q, cap_q, aborted_q, which⟩ := now
  rw [same, ← is_q]
  constructor
  · exact h.running
  · exact cap_q
  · have held_q : held (items q) = held (items queue) := by
      rcases which with same | ⟨put, empty⟩
      · rw [same]
      · rw [put, empty]
        rfl
    show c.streamSem + held stop.toList + held (items q) + held taken + (granted queue c.reader).held
      = maxStreamBuffersMemory
    rw [held_q, held_granted]
    omega
  · rcases which with same | ⟨put, empty⟩
    · refine ⟨early, [], items queue, same, .inl rfl, ?_, su⟩
      rw [hand_granted]
      exact arrived
    · refine ⟨early, [putBack], [], put, .inr rfl, ?_, by simp⟩
      rw [hand_granted]
      rw [empty] at arrived
      exact arrived
  · intro b flag pushing
    obtain ⟨flag', before⟩ := granted_su pushing
    exact h.handed b flag' before
  · intro b pushing
    have short : (items queue).length < maxQueuedStreamBuffers := by
      rcases granted_true pushing with notFull | before
      · exact cap ▸ full_eq_false.mp notFull
      · have room := h.room b before
        rw [split] at room
        simp only [List.length_append] at room
        omega
    rcases which with same | ⟨put, _⟩
    · exact same ▸ short
    · show (items q).length < _
      rw [put]
      decide
  · intro b pushing
    have long := full_eq_true.mp (granted_false pushing)
    rw [cap] at long
    rcases which with same | ⟨_, empty⟩
    · exact same ▸ long
    · rw [empty] at long
      exact absurd long (by decide)
  · intro ended
    show aborted q = true
    rw [aborted_q, abort]
    exact h.atEnd (granted_ended ended)
  · exact fun waiting => nomatch waiting
  · exact h.apart

/-- Results and flags are no part of the invariant. -/
theorem Kept.result (h : Kept c) {sinkClosed sourceClosed error : Bool} {source : SourcePhase}
    {yielded : List SourceRead} (notWaiting : source ≠ .waiting) :
    Kept { c with sinkClosed, sourceClosed, error, source, yielded } :=
  ⟨h.running, h.fifty, h.units_total, h.arrived, h.handed, h.room, h.crowded, h.atEnd,
    fun waiting => absurd waiting notWaiting, h.apart⟩

theorem processOneBuffer_kept {b : StreamBuf} {rest : List StreamBuf}
    (h : Kept { c with source := .idle }) (bufs : c.bufs = b :: rest) :
    Kept (processOneBuffer c b rest) := by
  have total := h.units_total
  refine ⟨h.running, h.fifty, ?_, h.arrived, h.handed, h.room, h.crowded, h.atEnd,
    fun waiting => (by cases waiting), h.apart⟩
  rw [bufs] at total
  change c.streamSem + b.su + held (items c.streamQueue) + held rest + c.reader.held = _
  simp only [held_cons] at total
  omega

theorem closeSource_kept {r : SourceRead} (h : Kept { c with source := .idle }) :
    Kept (closeSource c r) := by
  unfold closeSource
  split
  · exact h.result (by simp)
  · exact h.result (by simp)

theorem callStep_kept (h : Kept c) (step : callStep c = some c') : Kept c' := by
  unfold callStep at step
  split at step
  · rename_i idle
    split at step
    · rename_i b rest bufs
      cases step
      exact processOneBuffer_kept (h.result (by simp)) bufs
    · rename_i empty
      cases step
      split
      · exact h.result (by simp)
      · exact ⟨h.running, h.fifty, h.units_total, h.arrived, h.handed, h.room, h.crowded, h.atEnd,
          fun _ => empty, h.apart⟩
  · cases step

theorem receiveStep_kept (h : Kept c) (step : receiveStep c = some c') : Kept c' := by
  unfold receiveStep at step
  split at step
  · rename_i waiting
    split at step
    · cases step
      exact closeSource_kept (h.result (by simp))
    split at step
    · cases step
    dsimp only at step
    have received := streamReceive_kept h (h.drained waiting)
    split at step
    · cases step
      exact closeSource_kept received
    · rename_i b rest bufs
      cases step
      exact processOneBuffer_kept received bufs
  · cases step

theorem stoppedStep_kept (h : Kept c) (step : stoppedStep c = some c') : Kept c' := by
  unfold stoppedStep at step
  split at step
  · cases step
    exact h.result (by simp)
  · cases step

theorem sinkClosesStep_kept (h : Kept c) : Kept (sinkClosesStep c) :=
  ⟨h.running, h.fifty, h.units_total, h.arrived, h.handed, h.room, h.crowded, h.atEnd, h.drained,
    h.apart⟩

theorem step_kept [InputStream Byte σ] {e : StreamEvent} (h : Kept c)
    (apart : FramesApart codecs link c e) (next : step codecs link c e = some c') : Kept c' := by
  unfold step at next
  rw [h.running] at next
  cases e with
  | readFrame => exact readFrameStep_kept h apart next
  | acquire => exact acquireStep_kept h next
  | push => exact pushStep_kept h next
  | call => exact callStep_kept h next
  | receive => exact receiveStep_kept h next
  | stopped => exact stoppedStep_kept h next
  | sinkCloses =>
      cases next
      exact sinkClosesStep_kept h

end ActorNet.Rpc
