import Mathlib.Algebra.Group.Nat.Defs
import Mathlib.Data.List.Count
import Mathlib.Data.Nat.Basic
import Mathlib.Order.Basic
import Mathlib.Logic.Function.Basic
import ActorNet.Lib.Run

/-!
# The life of a call on a client connection

A call that waits for a reply is known to four parties: the map `_outstanding`,
the timer of its handler, the `cancel_wait` of its cancellable, and, while it is
not sent, its entry in the outgoing queue with a timer and a `cancel_send` of
its own. Whichever acts first must resolve the promise and disarm the others.
The map, the timers and the cancellables are modelled apart from each other, so
that a callback left armed would be seen to miss its entry (`missed`).
-/

namespace ActorNet.Rpc

open Lib

/-- What the promise of a call is resolved with; `P` is the payload of a reply. -/
inductive Resolution (P : Type)
  | value (payload : P)
  | exception (payload : P)
  | timeout
  | canceled
  | closed
  deriving DecidableEq, Repr

/-- `reply_handler`: `reply.done`, and whether `pcancel` is set. -/
structure Handler where
  done : Bool
  pcancel : Bool
  deriving DecidableEq, Repr

/-- `outgoing_entry`, named by the message id of its call. -/
structure QueueEntry where
  id : Nat
  pcancel : Bool
  deriving DecidableEq, Repr

/-- The `cancellable` a caller gave with a call, if any, and which of its
functions are set. -/
structure Cancellable where
  given : Bool
  cancelSend : Bool
  cancelWait : Bool
  deriving DecidableEq, Repr

/-- The timeout of a call: none, one that `send` finds expired, a later one. -/
inductive CallTimeout
  | none
  | expired
  | later
  deriving DecidableEq, Repr

structure CallOptions where
  wait : Bool
  timeout : CallTimeout
  cancel : Bool
  deriving DecidableEq, Repr

/-- `rpc::client`, as far as calls go. Tables are indexed by message id: the map
of handlers, the armed timers with their callbacks, the cancellables, and for
every call what its promise was resolved with and how often the promise of its
queue entry was. -/
structure Client (P : Type) where
  messageId : Nat
  outstanding : Nat → Option Handler
  waitTimer : Nat → Bool
  outgoingQueue : List QueueEntry
  sending : Option QueueEntry
  sendTimer : Nat → Bool
  cancellable : Nat → Cancellable
  error : Bool
  readerDone : Bool
  queueCleared : Bool
  closed : Bool
  resolved : Nat → List (Resolution P)
  sent : Nat → Nat
  rejected : Nat
  missed : Bool

def Client.initial (P : Type) : Client P where
  messageId := 1
  outstanding _ := none
  waitTimer _ := false
  outgoingQueue := []
  sending := none
  sendTimer _ := false
  cancellable _ := ⟨false, false, false⟩
  error := false
  readerDone := false
  queueCleared := false
  closed := false
  resolved _ := []
  sent _ := 0
  rejected := 0
  missed := false

/-- What happens to a client: a call is submitted, a frame with data arrives,
a timer fires, a call is cancelled, the send loop takes an entry and is done
with it, the connection fails or is stopped, the read loop ends, and the
teardown clears the queue and then the map. -/
inductive Event (P : Type)
  | submit (call : CallOptions)
  | frame (msgId : Int) (data : P)
  | waitTimer (id : Nat)
  | sendTimer (id : Nat)
  | cancel (id : Nat)
  | popFront
  | sendDone
  | stop
  | readEnd
  | clearQueue
  | clearOutstanding

namespace Client

variable {P : Type}

/-! ## Handlers -/

/-- `reply_handler::timeout` and its siblings: mark the reply done and resolve
its promise. -/
def resolve (s : Client P) (id : Nat) (h : Handler) (r : Resolution P) : Client P :=
  { s with
    outstanding := Function.update s.outstanding id (some { h with done := true })
    resolved := Function.update s.resolved id (s.resolved id ++ [r]) }

/-- Erase handlers from the map. The destructor closes a promise that is not
resolved, clears `cancel_wait` and disarms the timer. -/
def eraseHandlers (s : Client P) (p : Nat → Bool) : Client P :=
  { s with
    outstanding := fun id => if p id then none else s.outstanding id
    waitTimer := fun id =>
      if p id && (s.outstanding id).isSome then false else s.waitTimer id
    cancellable := fun id =>
      if p id && (s.outstanding id).any Handler.pcancel then
        { s.cancellable id with cancelWait := false }
      else s.cancellable id
    resolved := fun id =>
      if p id && (s.outstanding id).any (!·.done) then s.resolved id ++ [.closed]
      else s.resolved id }

/-- A callback that finds its handler with `_outstanding[id]`, resolves it and
erases it. -/
def settle (s : Client P) (id : Nat) (r : Resolution P) : Client P :=
  match s.outstanding id with
  | some h => (s.resolve id h r).eraseHandlers (· == id)
  | none => { s with missed := true }

/-- `wait_timed_out`. -/
def waitTimedOut (s : Client P) (id : Nat) : Client P := s.settle id .timeout

/-- The function `wait_for_reply` leaves in `cancel_wait`. -/
def cancelWait (s : Client P) (id : Nat) : Client P := s.settle id .canceled

/-- `client::wait_for_reply`; `emplace` keeps a handler that is already there. -/
def waitForReply (s : Client P) (id : Nat) (timeout : CallTimeout) (cancel : Bool) :
    Client P :=
  { s with
    waitTimer := Function.update s.waitTimer id (timeout != .none)
    cancellable := Function.update s.cancellable id
      { s.cancellable id with cancelWait := cancel }
    outstanding := Function.update s.outstanding id
      (some ((s.outstanding id).getD ⟨false, cancel⟩)) }

/-- The body of the read loop for a frame with data. -/
def received (s : Client P) (msgId : Int) (data : P) : Client P :=
  match s.outstanding msgId.natAbs with
  | some _ => s.settle msgId.natAbs (if 0 ≤ msgId then .value data else .exception data)
  | none => s

/-! ## Queue entries -/

/-- The destructor of queue entries that still have their promise. -/
def destroyEntries (s : Client P) (es : List QueueEntry) : Client P :=
  { s with
    sendTimer := fun id => if es.any (·.id == id) then false else s.sendTimer id
    cancellable := fun id =>
      if es.any fun e => e.id == id && e.pcancel then
        { s.cancellable id with cancelSend := false }
      else s.cancellable id
    sent := fun id => s.sent id + es.countP (·.id == id) }

/-- The `deleter` of an entry: `_outgoing_queue.erase(it)`. -/
def eraseEntry (s : Client P) (id : Nat) : Client P :=
  match s.outgoingQueue.filter (·.id == id) with
  | [] => { s with missed := true }
  | victims =>
      { s with outgoingQueue := s.outgoingQueue.filter (·.id != id) }.destroyEntries victims

/-- `connection::send` without its error branch. -/
def send (s : Client P) (id : Nat) (timeout : CallTimeout) (cancel : Bool) : Client P :=
  if timeout = .expired then s
  else { s with
    outgoingQueue := s.outgoingQueue ++ [⟨id, cancel⟩]
    sendTimer := Function.update s.sendTimer id (timeout == .later)
    cancellable := Function.update s.cancellable id
      { s.cancellable id with cancelSend := cancel } }

/-- The send loop takes the front entry: its timer is cancelled and it can no
longer be cancelled. -/
def popFront (s : Client P) : Option (Client P) :=
  match s.outgoingQueue with
  | [] => none
  | d :: queue => some { s with
      outgoingQueue := queue
      sending := some d
      sendTimer := Function.update s.sendTimer d.id false
      cancellable := if d.pcancel then
          Function.update s.cancellable d.id { s.cancellable d.id with cancelSend := false }
        else s.cancellable }

/-! ## The client -/

/-- `next_message_id`, with the cancellable the caller brought for the call. -/
def handOut (s : Client P) (cancel : Bool) : Client P :=
  { s with
    messageId := s.messageId + 1
    cancellable := Function.update s.cancellable s.messageId ⟨cancel, false, false⟩ }

/-- `send_helper`: the message id is an `int64_t`, so the counter must not
overflow. -/
def submit (s : Client P) (call : CallOptions) : Option (Client P) :=
  if s.error then some { s with rejected := s.rejected + 1 }
  else if s.messageId + 1 < 2 ^ 63 then
    let id := s.messageId
    let s := (s.handOut call.cancel).send id call.timeout call.cancel
    some (if call.wait then s.waitForReply id call.timeout call.cancel else s)
  else none

/-- `cancellable::cancel`. -/
def cancel (s : Client P) (id : Nat) : Client P :=
  let s := if (s.cancellable id).cancelSend then s.eraseEntry id else s
  if (s.cancellable id).cancelWait then s.cancelWait id else s

/-- One event; `none` when it cannot happen in this state. -/
def step (s : Client P) : Event P → Option (Client P)
  | .submit call => s.submit call
  | .frame msgId data => if s.readerDone then none else some (s.received msgId data)
  | .waitTimer id =>
      if s.waitTimer id then
        some ({ s with waitTimer := Function.update s.waitTimer id false }.waitTimedOut id)
      else none
  | .sendTimer id =>
      if s.sendTimer id then
        some ({ s with sendTimer := Function.update s.sendTimer id false }.eraseEntry id)
      else none
  | .cancel id => if (s.cancellable id).given then some (s.cancel id) else none
  | .popFront =>
      if s.sending.isSome || s.queueCleared then none else s.popFront
  | .sendDone => match s.sending with
      | some d => some ({ s with sending := none }.destroyEntries [d])
      | none => none
  | .stop => some { s with error := true }
  | .readEnd =>
      if s.readerDone then none else some { s with error := true, readerDone := true }
  | .clearQueue =>
      if s.readerDone && s.sending.isNone && !s.queueCleared then
        some ({ s with outgoingQueue := [], queueCleared := true }.destroyEntries
          s.outgoingQueue)
      else none
  | .clearOutstanding =>
      if s.queueCleared && !s.closed then
        some { s.eraseHandlers fun _ => true with closed := true }
      else none

/-- The clients that some run leads to. -/
def run (es : List (Event P)) : Option (Client P) := exec step (initial P) es

end Client

/-- What an event resolves the call `id` with, if it applies to it. -/
def Event.resolves {P : Type} (id : Nat) : Event P → Option (Resolution P)
  | .frame msgId data =>
      if msgId.natAbs = id then some (if 0 ≤ msgId then .value data else .exception data)
      else none
  | .waitTimer id' => if id' = id then some .timeout else none
  | .cancel id' => if id' = id then some .canceled else none
  | .clearOutstanding => some .closed
  | _ => none

end ActorNet.Rpc
