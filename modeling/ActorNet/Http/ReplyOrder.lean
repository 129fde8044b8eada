import Mathlib.Data.List.ReduceOption
import ActorNet.Http.Connection

/-!
# One reply for every request, in order

`transcript` is what a connection owes its peer for a byte stream, request by
request and with no queue in between. The invariant of the two tasks is that
what is written, what is queued and what the reader still has to push add up to
the transcript. An error reply is pushed without waiting for room, so it has to
find some.
-/

namespace ActorNet.Http

open Lib BoundedQueue Connection

/-! ## What is owed for a byte stream -/

/-- The replies to the first `fuel` requests of a stream, when `served` requests
came before them. Nothing is owed after the reply that closes the connection. -/
def transcript (server : Server) : Nat → Nat → List UInt8 → List Reply
  | 0, _, _ => []
  | fuel + 1, served, input =>
      match server.consume input with
      | (.eof, _, _) => []
      | (.error, req, _) => [malformedReply req]
      | (.done, parsed, rest) =>
          let req :=
            { parsed with contentLength := toSizeT (strtol (parsed.getHeader "Content-Length")) }
          if req.contentLength > server.contentLengthLimit then
            [tooLargeReply server.contentLengthLimit req]
          else
            (if expectsContinue req then [continueReply req] else []) ++
              handlerReply server (served + 1) (withBody req rest) ::
                if shouldClose req then []
                else transcript server fuel (served + 1) (rest.drop req.contentLength)

/-- The next request of the stream gets an error reply. -/
def rejects (server : Server) (input : List UInt8) : Bool :=
  match server.consume input with
  | (.eof, _, _) => false
  | (.error, _, _) => true
  | (.done, parsed, _) =>
      decide (server.contentLengthLimit < toSizeT (strtol (parsed.getHeader "Content-Length")))

variable {Q : Type} [BoundedQueue (Option Reply) Q]

/-- When the request that `read_one` takes is rejected, there is room for its
reply. -/
def RoomToReject (server : Server) (c : Connection Q) (e : Event) : Prop :=
  e = .read → c.reader = .parsing → rejects server c.input = true → full c.replies = false

/-- The reply of a request whose body is read, and all that follows it. -/
def owedFrom (server : Server) (fuel served : Nat) (req : Request) (rest : List UInt8) :
    List Reply :=
  handlerReply server served req ::
    if shouldClose req then [] else transcript server fuel served rest

instance (server : Server) (c : Connection Q) (e : Event) :
    Decidable (RoomToReject server c e) :=
  inferInstanceAs (Decidable (_ → _ → _ → _))

/-- What the reader has still to push. -/
def owed (server : Server) (fuel : Nat) (c : Connection Q) : List Reply :=
  match c.reader with
  | .loop => if c.done then [] else transcript server fuel c.requestsServed c.input
  | .parsing => transcript server fuel c.requestsServed c.input
  | .continueRoom req _ =>
      continueReply req :: owedFrom server fuel c.requestsServed (withBody req c.input)
        (c.input.drop req.contentLength)
  | .readingBody req =>
      owedFrom server fuel c.requestsServed (withBody req c.input)
        (c.input.drop req.contentLength)
  | .replyRoom req _ => owedFrom server fuel c.requestsServed req c.input
  | .handling req close =>
      handlerReply server c.requestsServed req ::
        if close then [] else transcript server fuel c.requestsServed c.input
  | .handled close => if close then [] else transcript server fuel c.requestsServed c.input
  | .endRoom _ | .finished => []

/-- What is written or waits in the queue. -/
def pushed (c : Connection Q) : List Reply := c.written ++ (items c.replies).reduceOption

/-- What is pushed and what is owed add up to the transcript; `lost` is what a
failing read cut off. -/
def Balance (server : Server) (input : List UInt8) (readErrors : Nat) (sent : List Reply)
    (later : Nat → List Reply) : Prop :=
  ∃ k, ∀ fuel, ∃ lost, transcript server (k + fuel) 0 input = sent ++ later fuel ++ lost ∧
    (readErrors = 0 → lost = [])

/-- The reader was granted room it has not used yet. -/
def Reader.hasRoom : Reader → Bool
  | .continueRoom _ true | .replyRoom _ true | .handling _ _ | .endRoom true => true
  | _ => false

def Reader.waits : Reader → Bool
  | .continueRoom _ false | .replyRoom _ false | .endRoom false => true
  | _ => false

structure Orderly (server : Server) (input : List UInt8) (c : Connection Q) : Prop where
  open_ : aborted c.replies = false
  ten : capacity c.replies = 10
  queued : c.reader ≠ .finished → ∃ rs : List Reply, items c.replies = rs.map some
  marked : c.reader = .finished →
    (∃ rs : List Reply, items c.replies = rs.map some ++ [none]) ∨
      c.writer = .ended false ∧ items c.replies = []
  ended : ∀ failed, c.writer = .ended failed → c.reader = .finished ∧ items c.replies = []
  room : c.reader.hasRoom = true → (items c.replies).length < 10
  crowded : c.reader.waits = true → 10 ≤ (items c.replies).length
  balance : Balance server input c.readErrors (pushed c) fun fuel => owed server fuel c

variable {server : Server} {input : List UInt8} {c c' : Connection Q}

theorem Balance.consume {errors : Nat} {sent sent' : List Reply} {later later' : Nat → List Reply}
    (h : Balance server input errors sent later)
    (moved : ∀ fuel, sent' ++ later' fuel = sent ++ later (fuel + 1)) :
    Balance server input errors sent' later' := by
  obtain ⟨k, h⟩ := h
  refine ⟨k + 1, fun fuel => ?_⟩
  obtain ⟨lost, total, complete⟩ := h (fuel + 1)
  refine ⟨lost, ?_, complete⟩
  rw [moved fuel, ← total]
  congr 1
  omega

theorem Balance.keep {errors : Nat} {sent sent' : List Reply} {later later' : Nat → List Reply}
    (h : Balance server input errors sent later)
    (moved : ∀ fuel, sent' ++ later' fuel = sent ++ later fuel) :
    Balance server input errors sent' later' := by
  obtain ⟨k, h⟩ := h
  refine ⟨k, fun fuel => ?_⟩
  rw [moved fuel]
  exact h fuel

/-- A read that fails cuts off what is still owed. -/
theorem Balance.cut {errors errors' : Nat} {sent : List Reply} {later : Nat → List Reply}
    (h : Balance server input errors sent later) (failed : errors' ≠ 0) :
    Balance server input errors' sent fun _ => [] := by
  obtain ⟨k, h⟩ := h
  refine ⟨k, fun fuel => ?_⟩
  obtain ⟨lost, total, _⟩ := h fuel
  exact ⟨later fuel ++ lost, by simpa [List.append_assoc] using total, fun none => absurd none failed⟩

/-! ## The steps of the reader -/

/-- The queue while the reader runs: only replies, and someone to take them. -/
structure Filling (q : Q) (writer : Writer) : Prop where
  open_ : aborted q = false
  ten : capacity q = 10
  queued : ∃ rs : List Reply, items q = rs.map some
  running : ∀ failed, writer ≠ .ended failed

theorem Orderly.filling (h : Orderly server input c) (busy : c.reader ≠ .finished) :
    Filling c.replies c.writer where
  open_ := h.open_
  ten := h.ten
  queued := h.queued busy
  running failed ended := busy (h.ended failed ended).1

theorem Filling.push {q : Q} {writer : Writer} (h : Filling q writer)
    (room : (items q).length < 10) (r : Reply) : Filling (push (some r) q) writer := by
  obtain ⟨rs, same⟩ := h.queued
  refine ⟨by simpa using h.open_, by simpa using h.ten, ⟨rs ++ [r], ?_⟩, h.running⟩
  rw [items_push_of_room _ (h.ten ▸ room), same]
  simp

theorem Filling.orderly (h : Filling c.replies c.writer) (busy : c.reader ≠ .finished)
    (room : c.reader.hasRoom = true → (items c.replies).length < 10)
    (crowded : c.reader.waits = true → 10 ≤ (items c.replies).length)
    (balance : Balance server input c.readErrors (pushed c) fun fuel => owed server fuel c) :
    Orderly server input c where
  open_ := h.open_
  ten := h.ten
  queued _ := h.queued
  marked ended := absurd ended busy
  ended failed ended := absurd ended (h.running failed)
  room := room
  crowded := crowded
  balance := balance

theorem pushed_push (q : Q) (room : (items q).length < capacity q) (r : Reply)
    (written : List Reply) :
    written ++ (items (push (some r) q)).reduceOption =
      written ++ (items q).reduceOption ++ [r] := by
  rw [items_push_of_room _ room, List.reduceOption_append]
  simp

theorem readEnd_orderly (h : Filling c.replies c.writer)
    (balance : Balance server input c.readErrors (pushed c) fun _ => []) :
    Orderly server input (readEnd c) := by
  unfold readEnd
  rw [if_neg (by simp [h.open_])]
  split
  · rename_i isFull
    refine Filling.orderly h (by simp) (by simp [Reader.hasRoom]) (fun _ => ?_) balance
    exact h.ten ▸ full_eq_true.mp isFull
  · rename_i notFull
    have room := full_eq_false.mp (Bool.eq_false_iff.mpr notFull)
    have added := items_push_of_room none room
    obtain ⟨rs, same⟩ := h.queued
    constructor
    · simpa using h.open_
    · simpa using h.ten
    · exact fun busy => absurd rfl busy
    · exact fun _ => .inl ⟨rs, by rw [added, same]⟩
    · exact fun failed ended => absurd ended (h.running failed)
    · exact fun granted => nomatch granted
    · exact fun waiting => nomatch waiting
    · have same : (items (push none c.replies)).reduceOption = (items c.replies).reduceOption := by
        rw [added, List.reduceOption_append]
        simp
      show Balance server input c.readErrors
        (c.written ++ (items (push none c.replies)).reduceOption) fun _ => []
      rw [same]
      exact balance

theorem readFailed_orderly (h : Orderly server input c) (busy : c.reader ≠ .finished) :
    Orderly server input (readFailed c) := by
  show Orderly server input (readEnd { c with readErrors := c.readErrors + 1 })
  exact readEnd_orderly (h.filling busy) (h.balance.cut (Nat.succ_ne_zero _))

theorem notFull_orderly {wait : Bool → Reader} (h : Filling c.replies c.writer)
    (busy : ∀ granted, wait granted ≠ .finished)
    (hasRoom : ∀ granted, (wait granted).hasRoom = granted)
    (waits : ∀ granted, (wait granted).waits = !granted)
    (balance : ∀ granted, Balance server input c.readErrors (pushed c)
      fun fuel => owed server fuel { c with reader := wait granted }) :
    Orderly server input (notFull c wait) := by
  unfold notFull
  rw [if_neg (by simp [h.open_])]
  refine Filling.orderly h (busy _) ?_ ?_ (balance _)
  · intro granted
    have room : full c.replies = false := by simpa [hasRoom] using granted
    exact h.ten ▸ full_eq_false.mp room
  · intro waiting
    have isFull : full c.replies = true := by simpa [waits] using waiting
    exact h.ten ▸ full_eq_true.mp isFull

theorem generateErrorReply_orderly {resp : Reply} (h : Filling c.replies c.writer)
    (room : full c.replies = false)
    (balance : Balance server input c.readErrors (pushed c ++ [resp]) fun _ => []) :
    Orderly server input (generateErrorReplyAndClose c resp) := by
  have room := full_eq_false.mp room
  refine Filling.orderly (h.push (h.ten ▸ room) resp) (by simp [generateErrorReplyAndClose])
    (by simp [generateErrorReplyAndClose, Reader.hasRoom])
    (by simp [generateErrorReplyAndClose, Reader.waits]) ?_
  have added := pushed_push c.replies room resp c.written
  refine balance.keep fun fuel => ?_
  simpa [pushed, owed, generateErrorReplyAndClose] using added

theorem shouldClose_withBody (req : Request) (input : List UInt8) :
    shouldClose (withBody req input) = shouldClose req := by
  unfold withBody
  split <;> rfl

theorem readOne_orderly (h : Orderly server input c) (parsing : c.reader = .parsing)
    (room : rejects server c.input = true → full c.replies = false) :
    Orderly server input (readOne server c) := by
  have filling := h.filling (by simp [parsing])
  have balance := h.balance
  have owing : ∀ fuel, owed server (fuel + 1) c =
      transcript server (fuel + 1) c.requestsServed c.input := by simp [owed, parsing]
  unfold readOne
  split
  · -- the stream ends between two requests
    rename_i req rest found
    refine Filling.orderly filling (by simp) (by simp [Reader.hasRoom])
      (by simp [Reader.waits]) (balance.consume fun fuel => ?_)
    rw [owing, transcript, found]
    rfl
  · rename_i req rest found
    refine generateErrorReply_orderly filling (room (by simp [rejects, found]))
      (balance.consume fun fuel => ?_)
    rw [owing, transcript, found]
    simp [pushed]
  · rename_i parsed rest found
    dsimp only
    split
    · rename_i large
      refine generateErrorReply_orderly filling (room (by simpa [rejects, found] using large))
        (balance.consume fun fuel => ?_)
      rw [owing, transcript, found]
      simp [pushed, if_pos large]
    · rename_i fits
      split
      · rename_i expects
        refine notFull_orderly filling (by simp) (by intro granted; cases granted <;> rfl)
          (by intro granted; cases granted <;> rfl)
          (fun granted => balance.consume fun fuel => ?_)
        rw [owing, transcript, found]
        simp [pushed, if_neg fits, if_pos expects, owed, owedFrom, shouldClose_withBody]
      · rename_i silent
        refine Filling.orderly filling (by simp) (by simp [Reader.hasRoom])
          (by simp [Reader.waits]) (balance.consume fun fuel => ?_)
        rw [owing, transcript, found]
        simp [pushed, if_neg fits, if_neg silent, owed, owedFrom, shouldClose_withBody]

theorem readerStep_orderly (h : Orderly server input c)
    (room : RoomToReject server c .read) (step : readerStep server c = some c') :
    Orderly server input c' := by
  have balance := h.balance
  unfold readerStep at step
  split at step <;> rename_i reader <;> cases step
  case h_1 =>
    have filling := h.filling (by simp [reader])
    split
    · rename_i done
      exact readEnd_orderly filling (balance.keep fun fuel => by simp [owed, reader, done])
    · rename_i going
      exact Filling.orderly filling (by simp) (by simp [Reader.hasRoom]) (by simp [Reader.waits])
        (balance.keep fun fuel => by simp [owed, reader, going, pushed])
  case h_2 => exact readOne_orderly h reader (room rfl reader)
  case h_3 req =>
    have filling := h.filling (by simp [reader])
    have room := h.room (by simp [reader, Reader.hasRoom])
    refine Filling.orderly (filling.push room _) (by simp) (by simp [Reader.hasRoom])
      (by simp [Reader.waits]) (balance.keep fun fuel => ?_)
    have added := pushed_push c.replies (h.ten ▸ room) (continueReply req) c.written
    simp [owed, reader, pushed, added]
  case h_4 req =>
    refine notFull_orderly (h.filling (by simp [reader])) (by simp)
      (by intro granted; cases granted <;> rfl) (by intro granted; cases granted <;> rfl)
      (fun granted => balance.keep fun fuel => ?_)
    simp [owed, reader, pushed]
  case h_5 req =>
    have room := h.room (by simp [reader, Reader.hasRoom])
    refine Filling.orderly (h.filling (by simp [reader])) (by simp) (fun _ => room)
      (by simp [Reader.waits]) (balance.keep fun fuel => ?_)
    simp [owed, reader, pushed, owedFrom]
  case h_6 req close =>
    have filling := h.filling (by simp [reader])
    have room := h.room (by simp [reader, Reader.hasRoom])
    refine Filling.orderly (filling.push room _) (by simp) (by simp [Reader.hasRoom])
      (by simp [Reader.waits]) (balance.keep fun fuel => ?_)
    have added :=
      pushed_push c.replies (h.ten ▸ room) (handlerReply server c.requestsServed req) c.written
    simp [owed, reader, pushed, added]
  case h_7 close =>
    refine Filling.orderly (h.filling (by simp [reader])) (by simp) (by simp [Reader.hasRoom])
      (by simp [Reader.waits]) (balance.keep fun fuel => ?_)
    simp [owed, reader, pushed]
  case h_8 =>
    -- room for the end marker was granted, so the queue is as if it had been asked for now
    have room := h.room (by simp [reader, Reader.hasRoom])
    have running := h.open_
    have atEnd := readEnd_orderly (h.filling (by simp [reader]))
      (balance.keep fun fuel => by simp [owed, reader])
    have notFull : full c.replies = false := full_eq_false.mpr (h.ten ▸ room)
    simpa [readEnd, running, notFull] using atEnd

theorem readerFails_orderly (h : Orderly server input c) (step : readerFails c = some c') :
    Orderly server input c' := by
  unfold readerFails at step
  split at step <;> rename_i reader <;> cases step
  · exact readFailed_orderly h (by simp [reader])
  · exact readFailed_orderly h (by simp [reader])

/-! ## The steps of the writer -/

@[simp] theorem waits_grant (reader : Reader) : (Reader.grant reader).waits = false := by
  cases reader <;> rfl

theorem grant_finished {reader : Reader} : Reader.grant reader = .finished ↔ reader = .finished := by
  cases reader <;> simp [Reader.grant]

omit [BoundedQueue (Option Reply) Q] in
/-- Granting room changes nothing that is owed. -/
theorem owed_grant (fuel : Nat) (replies : Q) (writer : Writer) (written : List Reply) :
    owed server fuel { c with replies, writer, written, reader := Reader.grant c.reader } =
      owed server fuel c := by
  cases reader : c.reader <;> simp [owed, Reader.grant, reader]

theorem doResponseLoop_orderly (h : Orderly server input c) (step : doResponseLoop c = some c') :
    Orderly server input c' := by
  unfold doResponseLoop at step
  rw [if_neg (by simp [h.open_])] at step
  split at step
  · cases step
  · rename_i resp rest queue
    -- the reader is the same but for room that it may have been granted
    set reader := if full c.replies then Reader.grant c.reader else c.reader with grants
    have sameOwed : ∀ fuel writer written,
        owed server fuel { c with replies := pop c.replies, writer, written, reader } =
          owed server fuel c := by
      intro fuel writer written
      rw [grants]
      split
      · exact owed_grant fuel _ _ _
      · rfl
    have finished : reader = .finished ↔ c.reader = .finished := by
      rw [grants]
      split
      · exact grant_finished
      · rfl
    have shorter : (items (pop c.replies)).length < (items c.replies).length := by
      simp [queue]
    have room : reader.hasRoom = true → (items (pop c.replies)).length < 10 := by
      intro granted
      rw [grants] at granted
      split at granted
      · have := length_items_le c.replies
        have := h.ten
        omega
      · have := h.room granted
        omega
    have crowded : reader.waits = true → 10 ≤ (items (pop c.replies)).length := by
      intro waiting
      rw [grants] at waiting
      split at waiting
      · simp at waiting
      · rename_i notFull
        have := h.crowded waiting
        exact absurd (full_eq_true.mpr (h.ten ▸ this)) notFull
    cases resp with
    | none =>
        -- the end marker is the last element, and the reader has finished
        cases step
        have atEnd : c.reader = .finished := by
          by_contra busy
          obtain ⟨rs, same⟩ := h.queued busy
          cases rs <;> simp [queue] at same
        have empty : rest = [] := by
          rcases h.marked atEnd with ⟨rs, same⟩ | ⟨_, none⟩
          · cases rs with
            | nil => simpa [queue] using same
            | cons r rs => simp [queue] at same
          · simp [queue] at none
        constructor
        · simpa using h.open_
        · simpa using h.ten
        · exact fun busy => absurd (finished.mpr atEnd) busy
        · exact fun _ => .inr ⟨rfl, by simp [queue, empty]⟩
        · exact fun _ _ => ⟨finished.mpr atEnd, by simp [queue, empty]⟩
        · exact room
        · exact crowded
        · refine h.balance.keep fun fuel => ?_
          rw [sameOwed fuel _ _]
          simp [pushed, queue]
    | some resp =>
        cases step
        constructor
        · simpa using h.open_
        · simpa using h.ten
        · intro busy
          obtain ⟨rs, same⟩ := h.queued (fun atEnd => busy (finished.mpr atEnd))
          refine ⟨rs.tail, ?_⟩
          show items (pop c.replies) = _
          rw [items_pop, same, List.map_tail]
        · intro atEnd
          rcases h.marked (finished.mp atEnd) with ⟨rs, same⟩ | ⟨_, none⟩
          · cases rs with
            | nil => simp [queue] at same
            | cons r rs => exact .inl ⟨rs, by simp [same]⟩
          · simp [queue] at none
        · intro failed ended
          dsimp only at ended
          split at ended <;> cases ended
        · exact room
        · exact crowded
        · refine h.balance.keep fun fuel => ?_
          rw [sameOwed fuel _ _]
          simp [pushed, queue]

/-- A step of the writer that touches only the writer. -/
theorem Orderly.writing (h : Orderly server input c) {writer : Writer}
    (busy : ∀ failed, c.writer ≠ .ended failed) (next : ∀ failed, writer ≠ .ended failed) :
    Orderly server input { c with writer } where
  open_ := h.open_
  ten := h.ten
  queued := h.queued
  marked atEnd := .inl ((h.marked atEnd).resolve_right fun ended => busy false ended.1)
  ended failed ended := absurd ended (next failed)
  room := h.room
  crowded := h.crowded
  balance := h.balance

theorem writerStep_orderly (h : Orderly server input c) (step : writerStep c = some c') :
    Orderly server input c' := by
  unfold writerStep at step
  split at step <;> rename_i writer
  · exact doResponseLoop_orderly h step
  iterate 4
    cases step
    exact h.writing (by simp [writer]) (by simp)
  · cases step

/-! ## Runs -/

theorem start_orderly : Orderly server input (start input : Connection Q) where
  open_ := by simp [start]
  ten := by simp [start]
  queued _ := ⟨[], by simp [start]⟩
  marked atEnd := nomatch atEnd
  ended failed ended := nomatch ended
  room granted := nomatch granted
  crowded waiting := nomatch waiting
  balance := ⟨0, fun fuel => ⟨[], by simp [start, pushed, owed], fun _ => rfl⟩⟩

theorem step_orderly {e : Event} (h : Orderly server input c) (succeeds : e ≠ .writeFails)
    (room : RoomToReject server c e) (step : c.step server e = some c') :
    Orderly server input c' := by
  cases e with
  | read => exact readerStep_orderly h room step
  | readFails => exact readerFails_orderly h step
  | write => exact writerStep_orderly h step
  | writeFails => exact absurd rfl succeeds

theorem readerStep_of_busy (server : Server) (busy : c.reader ≠ .finished)
    (ready : c.reader.waits = false) : ∃ c', readerStep server c = some c' := by
  unfold readerStep
  split
  case h_9 waiting => simp [waiting, Reader.waits] at ready
  case h_10 waiting => simp [waiting, Reader.waits] at ready
  case h_11 waiting => simp [waiting, Reader.waits] at ready
  case h_12 atEnd => exact absurd atEnd busy
  all_goals exact ⟨_, rfl⟩

/-- The writer stops only at its end or at an empty queue. -/
theorem writerStep_none (stuck : writerStep c = none) :
    (∃ failed, c.writer = .ended failed) ∨
      c.writer = .popping ∧ aborted c.replies = false ∧ items c.replies = [] := by
  cases writer : c.writer with
  | ended failed => exact .inl ⟨failed, rfl⟩
  | popping =>
      simp only [writerStep, writer, doResponseLoop] at stuck
      split at stuck
      · cases stuck
      rename_i running
      split at stuck
      · rename_i empty
        exact .inr ⟨rfl, by simpa using running, empty⟩
      · split at stuck <;> cases stuck
  | _ => simp [writerStep, writer] at stuck

/-- Neither task is ever left waiting for the other. -/
theorem Orderly.progress (h : Orderly server input c) :
    c.completed ∨ ∃ e c', e ≠ .writeFails ∧ RoomToReject server c e ∧ c.step server e = some c' := by
  cases writing : writerStep c with
  | some c' => exact .inr ⟨.write, c', by simp, by simp [RoomToReject], writing⟩
  | none =>
      rcases writerStep_none writing with ⟨failed, ended⟩ | ⟨popping, _, empty⟩
      · exact .inl ⟨(h.ended failed ended).1, failed, ended⟩
      -- the queue is empty, so the reader neither has finished nor waits
      have busy : c.reader ≠ .finished := by
        intro atEnd
        rcases h.marked atEnd with ⟨rs, same⟩ | ⟨ended, _⟩
        · simp [empty] at same
        · simp [popping] at ended
      have ready : c.reader.waits = false := by
        by_contra waiting
        have := h.crowded (by simpa using waiting)
        simp [empty] at this
      obtain ⟨c', step⟩ := readerStep_of_busy server busy ready
      refine .inr ⟨.read, c', by simp, fun _ _ _ => full_eq_false.mpr ?_, step⟩
      rw [empty, h.ten]
      exact Nat.zero_lt_succ 9

theorem run_orderly {es : List Event} (writes : ∀ e ∈ es, e ≠ .writeFails)
    (room : Along (step server) (RoomToReject server) (start input : Connection Q) es)
    (run : exec (step server) (start input) es = some c) : Orderly server input c := by
  have succeed : Along (step server) (fun _ e => e ≠ .writeFails) (start input : Connection Q) es :=
    Along.of_mem writes _
  exact (room.and succeed).invariant (fun s e s' h ok next => step_orderly h ok.2 ok.1 next)
    start_orderly run

/-- **Reply discipline.** While writes succeed and every rejected request finds
room in the queue, what is written is always the beginning of what the byte
stream is owed, and all of it when `process` completes; and until then some
step of the reader or the writer is possible. -/
theorem replies_in_order {es : List Event} {t : Connection Q}
    (writes : ∀ e ∈ es, e ≠ .writeFails)
    (room : Along (step server) (RoomToReject server) (start input : Connection Q) es)
    (run : exec (step server) (start input) es = some t) :
    (∃ n, ∀ fuel, n ≤ fuel → t.written <+: transcript server fuel 0 input) ∧
    (t.completed → t.readErrors = 0 →
      ∃ n, ∀ fuel, n ≤ fuel → t.written = transcript server fuel 0 input) ∧
    (t.completed ∨
      ∃ e t', e ≠ .writeFails ∧ RoomToReject server t e ∧ t.step server e = some t') := by
  have h := run_orderly writes room run
  obtain ⟨k, balance⟩ := h.balance
  refine ⟨⟨k, fun fuel enough => ?_⟩, fun completed whole => ⟨k, fun fuel enough => ?_⟩,
    h.progress⟩
  · obtain ⟨lost, total, _⟩ := balance (fuel - k)
    rw [Nat.add_sub_cancel' enough] at total
    rw [total, pushed, List.append_assoc, List.append_assoc]
    exact List.prefix_append _ _
  · obtain ⟨lost, total, complete⟩ := balance (fuel - k)
    obtain ⟨atEnd, failed, ended⟩ := completed
    rw [Nat.add_sub_cancel' enough] at total
    rw [total, complete whole, pushed, (h.ended failed ended).2]
    simp [owed, atEnd]

/-! ## A server of empty pages -/

/-- `GET / HTTP/1.1` and an empty line. -/
def getRequest : List UInt8 :=
  ("GET / HTTP/1.1\r\n\r\n".toList).map fun c => UInt8.ofNat c.toNat

/-- A server that answers every request with an empty page. Its parser is right
about the empty stream, about `getRequest` and about a byte that is no letter. -/
def emptyPages : Server where
  contentLengthLimit := 2 ^ 64 - 1
  consume input :=
    if input.isEmpty then (.eof, ⟨"", "", "", [], 0, []⟩, [])
    else if getRequest.isPrefixOf input then
      (.done, ⟨"GET", "/", "1.1", [], 0, []⟩, input.drop getRequest.length)
    else (.error, ⟨"", "", "", [], 0, []⟩, input)
  handle _ _ resp := resp

theorem replies_in_order_get :
    ∃ t : Connection (ListQueue (Option Reply)),
      exec (step emptyPages) (start getRequest)
        (List.replicate 9 .read ++ List.replicate 3 .write) = some t ∧ t.completed ∧
      ∃ n, ∀ fuel, n ≤ fuel → t.written = transcript emptyPages fuel 0 getRequest := by
  have run : exec (step emptyPages) (start getRequest : Connection (ListQueue (Option Reply)))
      (List.replicate 9 .read ++ List.replicate 3 .write) = some _ :=
    (Option.some_get (by decide)).symm
  refine ⟨_, run, ⟨by decide, false, by decide⟩, ?_⟩
  exact (replies_in_order (by decide) (by decide) run).2.1 ⟨by decide, false, by decide⟩
    (by decide)

/-- Ten requests and a question mark, all there before the writer runs. -/
def pipelined : List UInt8 := (List.replicate 10 getRequest).flatten ++ [0x3f]

def lateWriter : List Event :=
  List.replicate 63 .read ++ [.write, .read] ++ List.replicate 20 .write

/-- The malformed request behind ten others is never answered. -/
theorem rejected_request_unanswered :
    ∃ t : Connection (ListQueue (Option Reply)),
      exec (step emptyPages) (start pipelined) lateWriter = some t ∧
      (∀ e ∈ lateWriter, e ≠ .writeFails) ∧ t.completed ∧ t.readErrors = 0 ∧
      t.requestsServed = 11 ∧ t.written.length = 10 ∧
      (transcript emptyPages 11 0 pipelined).length = 11 := by
  refine ⟨Option.get _ ?_, (Option.some_get ?_).symm, by decide, ⟨?_, false, ?_⟩, ?_, ?_, ?_, ?_⟩
  all_goals decide

end ActorNet.Http
