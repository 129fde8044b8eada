import ActorNet.Http.ReplyOrder

/-!
# Shutting an HTTP connection down

The writer signals an error through `_done` and by aborting the queue, but only
for replies with a body writer, and the reader overwrites `_done` when a handler
returns. While every failing write falls into a moment at which this does no
harm, `_done` stays set, no request is handled after the writer has failed, and
neither task waits for the other in vain.
-/

namespace ActorNet.Http

open Lib BoundedQueue Connection

/-! ## When a write may fail -/

/-- Nothing is left to the reader but to end. -/
def Reader.leaving : Reader → Bool
  | .endRoom true | .finished => true
  | _ => false

/-- A request holds its place in the queue and is yet to be handled, or a
request that keeps the connection alive is with its handler. -/
def Reader.committed : Reader → Bool
  | .replyRoom _ true | .handling _ false | .handled false => true
  | _ => false

/-- The phases of a reader that has set `_done`. -/
def Reader.settled : Reader → Bool
  | .loop | .endRoom _ | .finished => true
  | _ => false

variable {Q : Type} [BoundedQueue (Option Reply) Q]

/-- A reply without a body writer fails only when the reader has nothing left
to do, one with a body writer never while the reader is committed. -/
def FailsInTime (c : Connection Q) (e : Event) : Prop :=
  e = .writeFails →
    if c.writer = .writingReply then c.reader.leaving = true else c.reader.committed = false

instance (c : Connection Q) (e : Event) : Decidable (FailsInTime c e) :=
  inferInstanceAs (Decidable (_ → _))

/-! ## The invariant -/

structure Sound (c : Connection Q) : Prop where
  ten : capacity c.replies = 10
  marked : aborted c.replies = false → none ∈ items c.replies → c.reader = .finished
  atEnd : c.reader = .finished →
    aborted c.replies = true ∨ none ∈ items c.replies ∨ ∃ failed, c.writer = .ended failed
  crowded : c.reader.waits = true → 10 ≤ (items c.replies).length
  room : aborted c.replies = false → c.reader = .endRoom true → (items c.replies).length < 10
  failed : c.writer = .ended true → aborted c.replies = true ∨ c.reader.leaving = true
  ended : c.writer = .ended false → c.reader = .finished
  stopped : aborted c.replies = true →
    c.done = true ∧ c.reader.committed = false ∧ c.reader.waits = false
  settled : aborted c.replies = false → c.done = true → c.reader.settled = true

variable {server : Server} {input : List UInt8} {c c' : Connection Q}

theorem start_sound : Sound (start input : Connection Q) where
  ten := by simp [start]
  marked _ marker := by simp [start] at marker
  atEnd atEnd := nomatch atEnd
  crowded waiting := nomatch waiting
  room _ granted := nomatch granted
  failed ended := nomatch ended
  ended ended := nomatch ended
  stopped aborted := by simp [start] at aborted
  settled _ done := nomatch done

/-- The writer has not ended for good while the reader is at work. -/
theorem Sound.notEnded (h : Sound c) (busy : c.reader.leaving = false) :
    c.writer ≠ .ended false := by
  intro ended
  simp [h.ended ended, Reader.leaving] at busy

/-- A reader that moves on to another of its phases. -/
theorem Sound.moves (h : Sound c) (busy : c.reader.leaving = false)
    (writer : c'.writer = c.writer) (ten : capacity c'.replies = capacity c.replies)
    (same : aborted c'.replies = aborted c.replies)
    (marked : none ∈ items c'.replies → none ∈ items c.replies)
    (going : c'.reader.leaving = false)
    (crowded : c'.reader.waits = true →
      aborted c.replies = false ∧ 10 ≤ (items c'.replies).length)
    (stopped : aborted c.replies = true → c'.done = true ∧ c'.reader.committed = false)
    (settled : aborted c.replies = false → c'.done = true → c'.reader.settled = true) :
    Sound c' where
  ten := ten.trans h.ten
  marked running marker := by
    have atEnd := h.marked (same ▸ running) (marked marker)
    simp [atEnd, Reader.leaving] at busy
  atEnd atEnd := by simp [atEnd, Reader.leaving] at going
  crowded waiting := (crowded waiting).2
  room _ granted := by simp [granted, Reader.leaving] at going
  failed ended := .inl (by simpa [same, busy] using h.failed (writer ▸ ended))
  ended ended := absurd (writer ▸ ended) (h.notEnded busy)
  stopped aborted := by
    rw [same] at aborted
    refine ⟨(stopped aborted).1, (stopped aborted).2, ?_⟩
    by_contra waiting
    have := (crowded (by simpa using waiting)).1
    simp [aborted] at this
  settled running done := settled (same ▸ running) done

theorem readEnd_sound (h : Sound c) (busy : c.reader.leaving = false) : Sound (readEnd c) := by
  unfold readEnd
  split
  · rename_i isAborted
    constructor
    · exact h.ten
    · exact fun _ _ => rfl
    · exact fun _ => .inl isAborted
    · exact fun waiting => nomatch waiting
    · exact fun _ granted => nomatch granted
    · exact fun _ => .inl isAborted
    · exact fun _ => rfl
    · exact fun _ => ⟨(h.stopped isAborted).1, rfl, rfl⟩
    · exact fun _ _ => rfl
  · rename_i running
    split
    · rename_i isFull
      exact h.moves busy rfl rfl rfl id rfl
        (fun _ => ⟨by simpa using running, h.ten ▸ full_eq_true.mp isFull⟩)
        (fun isAborted => absurd isAborted running) (fun _ _ => rfl)
    · rename_i notFull
      have added := items_push_of_room none (full_eq_false.mp (Bool.eq_false_iff.mpr notFull))
      constructor
      · simpa using h.ten
      · exact fun _ _ => rfl
      · exact fun _ => .inr (.inl (by simp [added]))
      · exact fun waiting => nomatch waiting
      · exact fun _ granted => nomatch granted
      · exact fun _ => .inr rfl
      · exact fun _ => rfl
      · exact fun isAborted => absurd (by simpa using isAborted) running
      · exact fun _ _ => rfl

theorem readFailed_sound (h : Sound c) (busy : c.reader.leaving = false) :
    Sound (readFailed c) := by
  have counted : Sound { c with readErrors := c.readErrors + 1 } :=
    ⟨h.ten, h.marked, h.atEnd, h.crowded, h.room, h.failed, h.ended, h.stopped, h.settled⟩
  exact readEnd_sound counted busy

theorem notFull_sound {wait : Bool → Reader} (h : Sound c) (busy : c.reader.leaving = false)
    (going : ∀ granted, (wait granted).leaving = false)
    (waits : ∀ granted, (wait granted).waits = !granted)
    (working : c.reader.settled = false) : Sound (notFull c wait) := by
  unfold notFull
  split
  · exact readFailed_sound h busy
  · rename_i running
    refine h.moves busy rfl rfl rfl id (going _) (fun waiting => ?_)
      (fun isAborted => absurd isAborted running) (fun open_ done => ?_)
    · have isFull : full c.replies = true := by simpa [waits] using waiting
      exact ⟨by simpa using running, h.ten ▸ full_eq_true.mp isFull⟩
    · exact absurd (h.settled open_ done) (by simp [working])

/-- Pushing a reply puts no end marker into the queue. -/
theorem none_mem_push {q : Q} {r : Reply} (marker : none ∈ items (push (some r) q)) :
    none ∈ items q := by
  rw [items_push] at marker
  split at marker
  · simpa using marker
  · exact marker

theorem readOne_sound (h : Sound c) (parsing : c.reader = .parsing) :
    Sound (readOne server c) := by
  have busy : c.reader.leaving = false := by simp [parsing, Reader.leaving]
  have working : c.reader.settled = false := by simp [parsing, Reader.settled]
  have rejected : ∀ rest served resp, Sound (generateErrorReplyAndClose
      { c with input := rest, requestsServed := served } resp) := fun rest served resp =>
    h.moves busy rfl (capacity_push _ _) (aborted_push _ _) none_mem_push
      rfl
      (fun waiting => by simp [generateErrorReplyAndClose, Reader.waits] at waiting)
      (fun _ => ⟨rfl, rfl⟩) (fun _ _ => rfl)
  unfold readOne
  split
  · exact h.moves busy rfl rfl rfl id rfl (by intro waiting; cases waiting)
      (fun _ => ⟨rfl, rfl⟩) (fun _ _ => rfl)
  · exact rejected _ _ _
  · rename_i parsed rest _
    dsimp only
    split
    · exact rejected _ _ _
    have taken : Sound { c with input := rest, requestsServed := c.requestsServed + 1 } :=
      ⟨h.ten, h.marked, h.atEnd, h.crowded, h.room, h.failed, h.ended, h.stopped, h.settled⟩
    split
    · exact notFull_sound taken busy (fun _ => rfl) (by intro granted; cases granted <;> rfl) working
    · exact h.moves busy rfl rfl rfl id rfl (by intro waiting; cases waiting)
        (fun isAborted => ⟨(h.stopped isAborted).1, rfl⟩)
        (fun open_ done => absurd (h.settled open_ done) (by simp [working]))

theorem readerStep_sound (h : Sound c) (step : readerStep server c = some c') : Sound c' := by
  unfold readerStep at step
  split at step <;> rename_i reader <;> cases step
  case h_1 =>
    have busy : c.reader.leaving = false := by simp [reader, Reader.leaving]
    split
    · exact readEnd_sound h busy
    · rename_i going
      exact h.moves busy rfl rfl rfl id rfl (fun waiting => nomatch waiting)
        (fun isAborted => ⟨(h.stopped isAborted).1, rfl⟩) (fun _ done => absurd done going)
  case h_2 => exact readOne_sound h reader
  case h_3 req =>
    exact h.moves (by simp [reader, Reader.leaving]) rfl (capacity_push _ _) (aborted_push _ _)
      none_mem_push rfl (fun waiting => nomatch waiting)
      (fun isAborted => ⟨(h.stopped isAborted).1, rfl⟩)
      (fun open_ done => by simpa [reader, Reader.settled] using h.settled open_ done)
  case h_4 req =>
    have read : Sound { c with input := c.input.drop req.contentLength } :=
      ⟨h.ten, h.marked, h.atEnd, h.crowded, h.room, h.failed, h.ended, h.stopped, h.settled⟩
    exact notFull_sound read (by simp [reader, Reader.leaving]) (fun _ => rfl)
      (by intro granted; cases granted <;> rfl) (by simp [reader, Reader.settled])
  case h_5 req =>
    exact h.moves (by simp [reader, Reader.leaving]) rfl rfl rfl id rfl
      (fun waiting => nomatch waiting)
      (fun isAborted => by simpa [reader, Reader.committed] using (h.stopped isAborted).2.1)
      (fun open_ done => by simpa [reader, Reader.settled] using h.settled open_ done)
  case h_6 req close =>
    refine h.moves (by simp [reader, Reader.leaving]) rfl (capacity_push _ _) (aborted_push _ _)
      none_mem_push rfl (fun waiting => nomatch waiting) (fun isAborted => ?_)
      (fun open_ done => by simpa [reader, Reader.settled] using h.settled open_ done)
    obtain ⟨done, free, _⟩ := h.stopped isAborted
    cases close with
    | false => simp [reader, Reader.committed] at free
    | true => exact ⟨done, rfl⟩
  case h_7 close =>
    refine h.moves (by simp [reader, Reader.leaving]) rfl rfl rfl id rfl
      (fun waiting => nomatch waiting) (fun isAborted => ?_) (fun _ _ => rfl)
    obtain ⟨_, free, _⟩ := h.stopped isAborted
    cases close with
    | false => simp [reader, Reader.committed] at free
    | true => exact ⟨rfl, rfl⟩
  case h_8 =>
    constructor
    · simpa using h.ten
    · exact fun _ _ => rfl
    · intro _
      show aborted (push none c.replies) = true ∨ _
      cases running : aborted c.replies with
      | true => exact .inl (by simpa using running)
      | false =>
          have room := h.room running reader
          exact .inr (.inl (by simp [items_push_of_room none (h.ten ▸ room)]))
    · exact fun waiting => nomatch waiting
    · exact fun _ granted => nomatch granted
    · exact fun _ => .inr rfl
    · exact fun _ => rfl
    · exact fun isAborted => ⟨(h.stopped (by simpa using isAborted)).1, rfl, rfl⟩
    · exact fun _ _ => rfl

theorem readerFails_sound (h : Sound c) (step : readerFails c = some c') : Sound c' := by
  unfold readerFails at step
  split at step <;> rename_i reader <;> cases step
  · exact readFailed_sound h (by simp [reader, Reader.leaving])
  · exact readFailed_sound h (by simp [reader, Reader.leaving])

/-! ## The steps of the writer -/

theorem settled_grant {reader : Reader} (settled : reader.settled = true) :
    (Reader.grant reader).settled = true := by
  cases reader <;> simp_all [Reader.grant, Reader.settled]

theorem doResponseLoop_sound (h : Sound c) (popping : c.writer = .popping)
    (step : doResponseLoop c = some c') : Sound c' := by
  unfold doResponseLoop at step
  split at step
  · rename_i isAborted
    cases step
    exact ⟨h.ten, h.marked, fun _ => .inl isAborted, h.crowded, h.room, fun _ => .inl isAborted,
      fun ended => (by cases ended), h.stopped, h.settled⟩
  rename_i running
  split at step
  · cases step
  rename_i resp rest queue
  -- the reader is the same but for room that it may have been granted
  set reader := if full c.replies then Reader.grant c.reader else c.reader with grants
  have finished : reader = .finished ↔ c.reader = .finished := by
    rw [grants]
    split
    · exact grant_finished
    · rfl
  have settled : c.reader.settled = true → reader.settled = true := by
    intro settled
    rw [grants]
    split
    · exact settled_grant settled
    · exact settled
  have patient : reader.waits = false := by
    rw [grants]
    split
    · exact waits_grant c.reader
    · rename_i notFull
      by_contra waiting
      have crowded := h.crowded (by simpa using waiting)
      exact notFull (full_eq_true.mpr (h.ten ▸ crowded))
  have room : (items (pop c.replies)).length < 10 := by
    have bounded := length_items_le c.replies
    rw [h.ten] at bounded
    have shorter : (items (pop c.replies)).length < (items c.replies).length := by simp [queue]
    omega
  have marked : none ∈ items c.replies → reader = .finished := fun marker =>
    finished.mpr (h.marked (by simpa using running) marker)
  cases resp with
  | none =>
      cases step
      have atEnd : reader = .finished := marked (by simp [queue])
      constructor
      · simpa using h.ten
      · exact fun _ _ => atEnd
      · exact fun _ => .inr (.inr ⟨false, rfl⟩)
      · exact fun waiting => by simp [patient] at waiting
      · exact fun _ _ => room
      · exact fun ended => nomatch ended
      · exact fun _ => atEnd
      · exact fun isAborted => absurd (by simpa using isAborted) running
      · exact fun _ _ => by simp [atEnd, Reader.settled]
  | some resp =>
      cases step
      constructor
      · simpa using h.ten
      · intro _ marker
        have queued : none ∈ items (pop c.replies) := marker
        rw [items_pop] at queued
        exact marked (List.mem_of_mem_tail queued)
      · intro atEnd
        rcases h.atEnd (finished.mp atEnd) with isAborted | marker | ⟨failed, ended⟩
        · exact absurd isAborted running
        · exact .inr (.inl (by simpa [queue] using marker))
        · simp [popping] at ended
      · exact fun waiting => by simp [patient] at waiting
      · exact fun _ _ => room
      · intro ended
        dsimp only at ended
        split at ended <;> cases ended
      · intro ended
        dsimp only at ended
        split at ended <;> cases ended
      · exact fun isAborted => absurd (by simpa using isAborted) running
      · exact fun _ done => settled (h.settled (by simpa using running) done)

/-- A step of the writer that touches only the writer. -/
theorem Sound.writing (h : Sound c) {writer : Writer} (busy : ∀ failed, c.writer ≠ .ended failed)
    (next : ∀ failed, writer ≠ .ended failed) : Sound { c with writer } where
  ten := h.ten
  marked := h.marked
  atEnd atEnd := by
    rcases h.atEnd atEnd with isAborted | marker | ⟨failed, ended⟩
    · exact .inl isAborted
    · exact .inr (.inl marker)
    · exact absurd ended (busy failed)
  crowded := h.crowded
  room := h.room
  failed ended := absurd ended (next true)
  ended ended := absurd ended (next false)
  stopped := h.stopped
  settled := h.settled

theorem writerStep_sound (h : Sound c) (step : writerStep c = some c') : Sound c' := by
  unfold writerStep at step
  split at step <;> rename_i writer
  · exact doResponseLoop_sound h writer step
  iterate 4
    cases step
    exact h.writing (by simp [writer]) (by simp)
  · cases step

/-- A failure that is signalled finds the reader where it can still be told. -/
theorem signalFailure_sound (ten : capacity c.replies = 10) (free : c.reader.committed = false)
    (running : ∀ failed, c.writer ≠ .ended failed) : Sound (signalFailure c) := by
  have signalled : ∀ errors reader, reader.committed = false → reader.waits = false →
      Sound { c with done := true, replies := push none (abort c.replies), readErrors := errors
                     reader } := by
    intro errors reader free patient
    constructor
    · simpa using ten
    · exact fun running => by simp at running
    · exact fun _ => .inl (by simp)
    · exact fun waiting => by simp [patient] at waiting
    · exact fun running => by simp at running
    · exact fun _ => .inl (by simp)
    · exact fun ended => absurd ended (running false)
    · exact fun _ => ⟨rfl, free, patient⟩
    · exact fun running => by simp at running
  unfold signalFailure failWaiter
  dsimp only
  split
  · simpa [readFailed, readEnd] using signalled (c.readErrors + 1) .finished rfl rfl
  · simpa [readFailed, readEnd] using signalled (c.readErrors + 1) .finished rfl rfl
  · exact signalled c.readErrors .finished rfl rfl
  · rename_i noContinue noReply noEnd
    refine signalled c.readErrors c.reader free ?_
    unfold Reader.waits
    split
    · rename_i reader; exact (noContinue _ reader).elim
    · rename_i reader; exact (noReply _ reader).elim
    · rename_i reader; exact (noEnd reader).elim
    · rfl

theorem writerFails_sound (h : Sound c) (inTime : FailsInTime c .writeFails)
    (step : writerFails c = some c') : Sound c' := by
  have inTime := inTime rfl
  unfold writerFails at step
  split at step <;> rename_i writer <;> cases step
  · -- without a body writer nobody is told, but the reader has nothing left to do
    rw [if_pos writer] at inTime
    refine ⟨h.ten, h.marked, fun _ => .inr (.inr ⟨true, rfl⟩), h.crowded, h.room,
      fun _ => .inr inTime, fun ended => ?_, h.stopped, h.settled⟩
    cases ended
  all_goals
    rw [if_neg (by simp [writer])] at inTime
    exact signalFailure_sound h.ten inTime (by simp)

theorem step_sound {e : Event} (h : Sound c) (inTime : FailsInTime c e)
    (step : c.step server e = some c') : Sound c' := by
  cases e with
  | read => exact readerStep_sound h step
  | readFails => exact readerFails_sound h step
  | write => exact writerStep_sound h step
  | writeFails => exact writerFails_sound h inTime step

/-! ## Runs -/

/-- The step in which `generate_reply` hands a request to its handler. -/
def Handles (c : Connection Q) (e : Event) : Prop :=
  e = .read ∧ ∃ req, c.reader = .replyRoom req true

@[simp] theorem readEnd_done (c : Connection Q) : (readEnd c).done = c.done := by
  unfold readEnd
  split
  · rfl
  · split <;> rfl

@[simp] theorem readFailed_done (c : Connection Q) : (readFailed c).done = c.done :=
  readEnd_done _

@[simp] theorem notFull_done (c : Connection Q) (wait : Bool → Reader) :
    (notFull c wait).done = c.done := by
  unfold notFull
  split
  · exact readFailed_done c
  · rfl

theorem readOne_done (done : c.done = true) : (readOne server c).done = true := by
  unfold readOne
  split
  · rfl
  · rfl
  · dsimp only
    split
    · rfl
    · split
      · simpa using done
      · exact done

theorem Sound.readerStep_done (h : Sound c) (step : readerStep server c = some c')
    (done : c.done = true) : c'.done = true := by
  unfold readerStep at step
  split at step <;> rename_i reader <;> cases step
  case h_1 => split <;> simpa using done
  case h_2 => exact readOne_done done
  case h_4 => simpa [readRequestBody] using done
  case h_7 close =>
    -- the one place where the flag is overwritten
    cases running : aborted c.replies with
    | false => simpa [reader, Reader.settled] using h.settled running done
    | true =>
        have free := (h.stopped running).2.1
        cases close with
        | false => simp [reader, Reader.committed] at free
        | true => rfl
  all_goals exact done

theorem doResponseLoop_done (step : doResponseLoop c = some c') : c'.done = c.done := by
  unfold doResponseLoop at step
  split at step
  · cases step; rfl
  · split at step
    · cases step
    · rename_i resp rest _
      cases resp <;> cases step <;> rfl

theorem signalFailure_done (c : Connection Q) : (signalFailure c).done = true := by
  unfold signalFailure failWaiter
  split <;> simp

theorem Sound.done_stays {e : Event} (h : Sound c) (step : c.step server e = some c')
    (done : c.done = true) : c'.done = true := by
  cases e with
  | read => exact h.readerStep_done step done
  | readFails =>
      change readerFails c = some c' at step
      unfold readerFails at step
      split at step <;> cases step <;> simpa using done
  | write =>
      change writerStep c = some c' at step
      unfold writerStep at step
      split at step
      · exact (doResponseLoop_done step).trans done
      all_goals cases step <;> exact done
  | writeFails =>
      change writerFails c = some c' at step
      unfold writerFails at step
      split at step <;> cases step
      · exact done
      all_goals exact signalFailure_done _

theorem Sound.notHandled {e : Event} (h : Sound c) (handles : Handles c e) :
    c.writer ≠ .ended true := by
  obtain ⟨_, req, reader⟩ := handles
  intro ended
  rcases h.failed ended with isAborted | leaving
  · have free := (h.stopped isAborted).2.1
    simp [reader, Reader.committed] at free
  · simp [reader, Reader.leaving] at leaving

theorem Sound.served (h : Sound c) (waiting : c.reader.waits = true) (failed : Bool) :
    c.writer ≠ .ended failed := by
  intro ended
  cases failed with
  | false => simp [h.ended ended, Reader.waits] at waiting
  | true =>
      rcases h.failed ended with isAborted | leaving
      · simp [(h.stopped isAborted).2.2] at waiting
      · revert waiting leaving
        cases c.reader with
        | endRoom granted => cases granted <;> simp [Reader.waits, Reader.leaving]
        | _ => simp [Reader.leaving, Reader.waits]

theorem Sound.progress (server : Server) (h : Sound c) :
    c.completed ∨ ∃ e c', FailsInTime c e ∧ c.step server e = some c' := by
  cases writing : writerStep c with
  | some c' => exact .inr ⟨.write, c', by simp [FailsInTime], writing⟩
  | none =>
      have stuck := writerStep_none writing
      have ready : c.reader.waits = false := by
        by_contra waiting
        rcases stuck with ⟨failed, ended⟩ | ⟨_, _, empty⟩
        · exact h.served (by simpa using waiting) failed ended
        · have crowded := h.crowded (by simpa using waiting)
          simp [empty] at crowded
      by_cases atEnd : c.reader = .finished
      · rcases stuck with ⟨failed, ended⟩ | ⟨popping, running, empty⟩
        · exact .inl ⟨atEnd, failed, ended⟩
        · rcases h.atEnd atEnd with isAborted | marker | ⟨failed, ended⟩
          · simp [running] at isAborted
          · simp [empty] at marker
          · simp [popping] at ended
      · obtain ⟨c', step⟩ := readerStep_of_busy server atEnd ready
        exact .inr ⟨.read, c', by simp [FailsInTime], step⟩

/-- **Shutdown.** While every failing write fails in time: a reader that waits
for room has a writer to wait for, so that some task can go on until `process`
completes; and no step clears `_done` or handles a request after the writer has
ended because of a failure. -/
theorem shutdown_in_time {es : List Event} {t : Connection Q}
    (inTime : Along (step server) FailsInTime (start input : Connection Q) es)
    (run : exec (step server) (start input) es = some t) :
    (t.reader.waits = true → ∀ failed, t.writer ≠ .ended failed) ∧
    (t.completed ∨ ∃ e t', FailsInTime t e ∧ t.step server e = some t') ∧
    ∀ e t', FailsInTime t e → t.step server e = some t' →
      (t.done = true → t'.done = true) ∧ (Handles t e → t.writer ≠ .ended true) := by
  have h : Sound t :=
    inTime.invariant (fun s e s' h ok next => step_sound h ok next) start_sound run
  refine ⟨h.served, h.progress server, fun e t' _ next => ⟨?_, h.notHandled⟩⟩
  exact h.done_stays next

/-- The reply to `getRequest` fails when the reader has finished. -/
theorem shutdown_in_time_get :
    ∃ t : Connection (ListQueue (Option Reply)),
      exec (step emptyPages) (start getRequest)
        (List.replicate 9 .read ++ [.write, .writeFails]) = some t ∧
      (t.completed ∨ ∃ e t', FailsInTime t e ∧ t.step emptyPages e = some t') := by
  have run : exec (step emptyPages) (start getRequest : Connection (ListQueue (Option Reply)))
      (List.replicate 9 .read ++ [.write, .writeFails]) = some _ :=
    (Option.some_get (by decide)).symm
  exact ⟨_, run, (shutdown_in_time (by decide) run).2.1⟩

/-! ## Failures that come too early -/

/-- A server whose handlers answer with a body writer. -/
def streamedPages : Server where
  contentLengthLimit := emptyPages.contentLengthLimit
  consume := emptyPages.consume
  handle _ _ resp := { resp with bodyWriter := true }

/-- Twelve requests. The reply to the first fails while the reader handles the
others, which wait for a writer that has ended. -/
def unnoticedFailure : List Event :=
  List.replicate 6 .read ++ [.write, .writeFails] ++ List.replicate 63 .read

/-- Two requests. The first body writer fails while the second is handled. -/
def overwrittenFailure : List Event :=
  List.replicate 10 .read ++ [.write, .writeFails]

/-- A failed write leaves the reader handling requests and then waiting without
a writer, and `_done` is cleared after a body writer has failed. -/
theorem failure_unnoticed :
    (∃ t : Connection (ListQueue (Option Reply)),
      exec (step emptyPages) (start (List.replicate 12 getRequest).flatten)
        unnoticedFailure = some t ∧ t.reader.waits = true ∧ t.writer = .ended true ∧
      t.requestsServed = 12) ∧
    ∃ t t' : Connection (ListQueue (Option Reply)),
      exec (step streamedPages) (start (List.replicate 2 getRequest).flatten)
        overwrittenFailure = some t ∧ t.done = true ∧
      exec (step streamedPages) t [.read, .read] = some t' ∧ t'.done = false := by
  constructor
  · refine ⟨_, (Option.some_get ?_).symm, ?_, ?_, ?_⟩
    all_goals decide
  · refine ⟨_, _, (Option.some_get ?_).symm, ?_, (Option.some_get ?_).symm, ?_⟩
    all_goals decide

end ActorNet.Http
