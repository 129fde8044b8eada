import Mathlib.Logic.Function.Basic
import ActorNet.Lib.Run
import ActorNet.Rpc.Calls

/-!
# The outgoing queue and its cancellables, with their raw pointers

An `outgoing_entry` and the `cancellable` it was queued with point at each other:
`pcancel` is the address of the cancellable, `send_back_pointer` the address of
that field. Both are addresses here too, so that a pointer may outlive what it
points to. The nodes of `_outgoing_queue` are named by their address, and so are
the cancellables; an allocator may hand out an address again once it is free.
-/

namespace ActorNet.Rpc.OutgoingQueue

open Lib

/-- `outgoing_entry`: the iterator that its armed timer erases, whether it still
has its promise, and its `pcancel`. -/
structure OutgoingEntry where
  t : Option Nat
  p : Bool
  pcancel : Option Nat
  deriving DecidableEq, Repr

/-- The move constructor: the entry it builds, and what it leaves of the old one. -/
def OutgoingEntry.moved (o : OutgoingEntry) : OutgoingEntry × OutgoingEntry :=
  (⟨o.t, o.p, o.pcancel⟩, { o with t := none, p := false })

/-- `cancellable`, as far as sending goes: the iterator that `cancel_send`
erases, and the node whose `pcancel` field `send_back_pointer` points to. -/
structure Cancellable where
  cancelSend : Option Nat
  sendBackPointer : Option Nat
  deriving DecidableEq, Repr

/-- Where the send loop stands: before it is started, about to look at `_error`,
waiting for an entry, with an entry in flight, or done. -/
inductive SendLoop
  | notStarted
  | checking
  | waiting
  | sending (d : OutgoingEntry)
  | stopped
  deriving DecidableEq, Repr

/-- A connection and the memory around it: `node` is what each queued node holds,
`cancellable` has the live objects only. `strayed` records that freed memory was
used: an erase of a node that is not queued, or a write through a pointer to what
is no more. -/
structure Connection where
  queue : List Nat
  node : Nat → OutgoingEntry
  cancellable : Nat → Option Cancellable
  loop : SendLoop
  error : Bool
  strayed : Bool

/-- What happens: a cancellable is constructed, an entry is queued at an address
of the allocator's choice, the timer of an entry fires, the send loop makes a
step, a cancellable is cancelled, moved into a new object or an old one, or
destroyed, and the connection fails and is torn down. -/
inductive Event
  | construct (c : Nat)
  | send (a : Nat) (timeout : CallTimeout) (cancel : Option Nat)
  | timer (a : Nat)
  | startLoop
  | checkError
  | broken
  | takeFront
  | flushed
  | flushFailed
  | cancel (c : Nat)
  | move (target source : Nat)
  | assign (target source : Nat)
  | destroy (c : Nat)
  | abort
  | clear
  deriving DecidableEq, Repr

namespace Connection

def initial : Connection where
  queue := []
  node _ := ⟨none, false, none⟩
  cancellable _ := none
  loop := .notStarted
  error := false
  strayed := false

/-! ## Writing through pointers -/

/-- Write to the cancellable at `c`. -/
def store (s : Connection) (c : Nat) (f : Cancellable → Cancellable) : Connection :=
  match s.cancellable c with
  | some x => { s with cancellable := Function.update s.cancellable c (some (f x)) }
  | none => { s with strayed := true }

/-- `*send_back_pointer = this`, where the pointer leads to the node `a`. -/
def storePcancel (s : Connection) (a c : Nat) : Connection :=
  if a ∈ s.queue then
    { s with node := Function.update s.node a { s.node a with pcancel := some c } }
  else { s with strayed := true }

/-- `~outgoing_entry`. -/
def destroyEntry (s : Connection) (o : OutgoingEntry) : Connection :=
  if o.p then
    match o.pcancel with
    | some c => s.store c fun _ => ⟨none, none⟩
    | none => s
  else s

/-- The `deleter` of an entry: `_outgoing_queue.erase(it)`. -/
def erase (s : Connection) (a : Nat) : Connection :=
  if a ∈ s.queue then { s with queue := s.queue.erase a }.destroyEntry (s.node a)
  else { s with strayed := true }

/-! ## The connection -/

/-- `connection::send` once the error and the timeout are checked. -/
def enqueue (s : Connection) (a : Nat) (timeout : Bool) (cancel : Option Nat) :
    Connection :=
  let s := { s with
    queue := s.queue ++ [a]
    node := Function.update s.node a ⟨if timeout then some a else none, true, cancel⟩ }
  match cancel with
  | some c => s.store c fun _ => ⟨some a, some a⟩
  | none => s

/-- `connection::send`. -/
def send (s : Connection) (a : Nat) (timeout : CallTimeout) (cancel : Option Nat) :
    Connection :=
  if s.error then s
  else match timeout with
    | .expired => s
    | .none => s.enqueue a false cancel
    | .later => s.enqueue a true cancel

/-- The timer of the node `a` fires: it is no longer armed, and erases `it`. -/
def fire (s : Connection) (a it : Nat) : Connection :=
  { s with node := Function.update s.node a { s.node a with t := none } }.erase it

/-- The continuation of the send loop: the front is moved out and its node
freed, its timer cancelled, and the request is no longer cancellable. -/
def takeFront (s : Connection) : Connection :=
  match s.queue with
  | [] => { s with loop := .checking }
  | a :: queue =>
      let (d, left) := (s.node a).moved
      let s := { s with queue := queue }.destroyEntry left
      let d := { d with t := none }
      let s := match d.pcancel with
        | some c => s.store c fun x => { x with cancelSend := none }
        | none => s
      { s with loop := .sending d }

/-- `_outgoing_queue.clear()`. -/
def clear (s : Connection) : Connection := s.queue.foldl erase s

/-! ## Cancellables -/

/-- `cancellable::cancel`, as far as `cancel_send` goes. -/
def cancel (s : Connection) (c : Nat) : Connection :=
  match (s.cancellable c).bind Cancellable.cancelSend with
  | some a => s.erase a
  | none => s

/-- `~cancellable`. -/
def destroy (s : Connection) (c : Nat) : Connection :=
  let s := s.cancel c
  { s with cancellable := Function.update s.cancellable c none }

/-- The move constructor of `cancellable`, of `source` at `target`. -/
def move (s : Connection) (target source : Nat) : Connection :=
  match s.cancellable source with
  | some x =>
      let vacated := Function.update s.cancellable source (some ⟨none, none⟩)
      let s := { s with cancellable := Function.update vacated target (some x) }
      match x.sendBackPointer with
      | some a => s.storePcancel a target
      | none => s
  | none => { s with strayed := true }

/-- The move assignment of `cancellable`. -/
def assign (s : Connection) (target source : Nat) : Connection :=
  if target = source then s else (s.destroy target).move target source

/-! ## The system -/

/-- One event; `none` when it cannot happen in this state. -/
def step (s : Connection) : Event → Option Connection
  | .construct c =>
      if (s.cancellable c).isNone then
        some { s with cancellable := Function.update s.cancellable c (some ⟨none, none⟩) }
      else none
  | .send a timeout cancel =>
      if a ∉ s.queue ∧ ∀ c ∈ cancel, (s.cancellable c).isSome then
        some (s.send a timeout cancel)
      else none
  | .timer a =>
      if a ∈ s.queue then (s.node a).t.map fun it => s.fire a it else none
  | .startLoop =>
      if s.loop = .notStarted then some { s with loop := .checking } else none
  | .checkError =>
      if s.loop = .checking then
        some { s with loop := if s.error then .stopped else .waiting }
      else none
  | .broken =>
      if s.loop = .waiting ∧ s.error then some { s with loop := .stopped } else none
  | .takeFront => if s.loop = .waiting then some s.takeFront else none
  | .flushed => match s.loop with
      | .sending d => some ({ s with loop := .checking }.destroyEntry d)
      | _ => none
  | .flushFailed => match s.loop with
      | .sending d => some ({ s with loop := .stopped, error := true }.destroyEntry d)
      | _ => none
  | .cancel c => if (s.cancellable c).isSome then some (s.cancel c) else none
  | .move target source =>
      if (s.cancellable target).isNone ∧ (s.cancellable source).isSome then
        some (s.move target source)
      else none
  | .assign target source =>
      if (s.cancellable target).isSome ∧ (s.cancellable source).isSome then
        some (s.assign target source)
      else none
  | .destroy c => if (s.cancellable c).isSome then some (s.destroy c) else none
  | .abort => some { s with error := true }
  | .clear =>
      if s.error ∧ (s.loop = .notStarted ∨ s.loop = .stopped) then some s.clear else none

/-- The states that some run leads to. -/
def run (es : List Event) : Option Connection := exec step initial es

end Connection

end ActorNet.Rpc.OutgoingQueue
