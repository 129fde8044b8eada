import ActorNet.Lib.Weights
import ActorNet.Lib.Run
import ActorNet.Dns.Socket

/-!
# The table of sockets

`dns_resolver::impl` keeps its entries in `_sockets` by descriptor, and counts the
continuations that will come back to an entry in `pending`: `use` adds one and
`release` takes one, and `do_close` takes one more when the output is closed. The
entry goes when the count falls below zero. The gate counts all of them, and `close()`
waits for it.
-/

namespace ActorNet.Dns

open Lib

/-- The type that `socket()` is asked for. -/
inductive SockType
  | stream
  | dgram
  | other
  deriving DecidableEq, Repr

/-- Whether `do_close` leaves the entry with an output that is still to be closed. -/
def SockEntry.closesLater (e : SockEntry) (out : Future Unit) : Bool :=
  match e.entry, out with
  | .tcp tcp, .pending => tcp.output
  | _, _ => false

/-- `dns_resolver::impl`: `_sockets`, `_closed`, and the count of `_gate` and whether
it is closed. -/
structure Resolver where
  sockets : AList fun _ : Nat => SockEntry
  closed : Bool
  gate : Nat
  gateClosed : Bool

namespace Resolver

/-- The loop of `next_fd`, over the descriptors there are. -/
def nextFrom (fds : List Nat) : Nat → Nat → Nat
  | 0, fd => fd
  | n + 1, fd => if fd ∈ fds then nextFrom fds n (fd + 1) else fd

/-- `next_fd`. -/
def nextFd (r : Resolver) : Nat :=
  nextFrom r.sockets.keys r.sockets.keys.length (r.sockets.keys.length + 1)

/-- `use`; `none` is an exception, of the gate or of `at`. -/
def use (r : Resolver) (fd : Nat) : Option Resolver :=
  if r.gateClosed then none
  else (r.sockets.lookup fd).map fun e => { r with
    sockets := r.sockets.insert fd { e with pending := e.pending + 1 }
    gate := r.gate + 1 }

/-- `release`; `none` is the exception of `at`. -/
def release (r : Resolver) (fd : Nat) : Option Resolver :=
  (r.sockets.lookup fd).map fun e =>
    let e := { e with pending := e.pending - 1 }
    { r with
      sockets := if e.pending < 0 then r.sockets.erase fd else r.sockets.insert fd e
      gate := r.gate - 1 }

/-- `do_socket`. -/
def doSocket (r : Resolver) (type : SockType) : Resolver × Ret :=
  if r.closed then (r, .error none)
  else
    let fd := r.nextFd
    match type with
    | .stream => ({ r with sockets := r.sockets.insert fd .newTcp }, .value fd)
    | .dgram => ({ r with sockets := r.sockets.insert fd .newUdp }, .value fd)
    | .other => (r, .error none)

/-- `do_close`, and whether the output is still to be closed; `none` is an exception. -/
def doClose (r : Resolver) (fd : Nat) (out : Future Unit) : Option (Resolver × Bool) :=
  (r.sockets.lookup fd).bind fun e =>
    if e.closed then some (r, false)
    else if r.gateClosed then none
    else
      let r := { r with
        sockets := r.sockets.insert fd { e with closed := true }
        gate := r.gate + 1 }
      if e.closesLater out then some (r, true) else (r.release fd).map (·, false)

/-- The resolver after a callback on an entry, what it returns, and whether a
continuation is waiting. -/
def store (r : Resolver) (fd : Nat) (c : Call) : Resolver × Ret × Bool :=
  let r := { r with sockets := r.sockets.insert fd c.entry }
  if c.deferred then
    match r.use fd with
    | some r => (r, c.ret, true)
    | none => (r, .error none, false)
  else (r, c.ret, false)

/-- `do_connect`; `none` is its assertion. -/
def doConnect (r : Resolver) (fd : Nat) (sa : Option Nat) (f : Future Unit) :
    Option (Resolver × Ret × Bool) :=
  if r.closed then some (r, .error none, false)
  else match r.sockets.lookup fd with
    | none => some (r, .error none, false)
    | some e => (e.connect sa f).map (r.store fd)

/-- `do_recvfrom`; `none` when it does not return. -/
def doRecvfrom (r : Resolver) (fd len : Nat) (read : Future (List Byte))
    (receive : Future Datagram) : Option (Resolver × Ret × Bool) :=
  if r.closed then some (r, .error none, false)
  else match r.sockets.lookup fd with
    | none => some (r, .error none, false)
    | some e => match e.recvfrom read receive 2 len with
        | some (.done c) => some (r.store fd c)
        | _ => none

/-- `do_sendv`; `none` when there is no connection to ask. -/
def doSendv (r : Resolver) (fd : Nat) (vec : List (List Byte)) (f : Future Unit) :
    Option (Resolver × Ret × Bool) :=
  if r.closed then some (r, .error none, false)
  else match r.sockets.lookup fd with
    | none => some (r, .error none, false)
    | some e => match e.sendv vec f with
        | .done c => some (r.store fd c)
        | .noConnection => none

end Resolver

/-! ## Runs -/

/-- What a continuation waits for. -/
inductive Op
  | connect
  | recv
  | send
  deriving DecidableEq, Repr

/-- What comes of it. -/
inductive Completion
  | connected (ok : Bool)
  | read (buf : Option (List Byte))
  | receive (d : Option Datagram)
  | sent
  deriving DecidableEq, Repr

def Completion.op : Completion → Op
  | .connected _ => .connect
  | .read _ => .recv
  | .receive _ => .recv
  | .sent => .send

/-- What the continuation does to its entry. -/
def Completion.apply : Completion → SockEntry → SockEntry
  | .connected ok, e => e.connected ok
  | .read buf, e => e.readDone buf
  | .receive d, e => e.receiveDone d
  | .sent, e => e.sendDone

/-- What runs on the shard: a continuation that is in `poll_sockets`, or `close()` that is
in `ares_cancel`. -/
inductive Task
  | idle
  | completing (fd : Nat) (op : Op)
  | closing
  deriving DecidableEq, Repr

/-- The resolver, the continuations and the closes of outputs that it waits for, the
descriptors that nobody has closed yet, those that c-ares holds, and what runs. -/
structure World where
  resolver : Resolver
  ops : List (Nat × Op)
  closes : List Nat
  live : List Nat
  held : List Nat
  task : Task
  /-- An entry was looked for in vain, outside of a `try`. -/
  lost : Bool
  /-- `_sockets` was modified in the loop over it. -/
  torn : Bool

inductive Event
  | socket (type : SockType)
  | connect (fd : Nat) (sa : Option Nat) (f : Future Unit)
  | recvfrom (fd len : Nat) (read : Future (List Byte)) (receive : Future Datagram)
  | sendv (fd : Nat) (vec : List (List Byte)) (f : Future Unit)
  | close (fd : Nat) (out : Future Unit)
  | complete (fd : Nat) (done : Completion)
  | finish
  | outClosed (fd : Nat)
  | cancel
  | closeAll (order : List Nat) (outs : Nat → Future Unit)

namespace World

def start : World := ⟨⟨∅, false, 0, false⟩, [], [], [], [], .idle, false, false⟩

/-- After a callback on an entry. -/
def after (w : World) (fd : Nat) (op : Op) (x : Resolver × Ret × Bool) : World :=
  { w with resolver := x.1, ops := if x.2.2 then (fd, op) :: w.ops else w.ops }

/-- `do_close`. -/
def closeOne (w : World) (fd : Nat) (out : Future Unit) : World :=
  match w.resolver.doClose fd out with
  | none => { w with lost := true }
  | some (r, later) => { w with
      resolver := r
      live := w.live.erase fd
      closes := if later then fd :: w.closes else w.closes }

/-- The loop of `close()`. An iterator to an entry that is erased leads nowhere. -/
def closeLoop (outs : Nat → Future Unit) : List Nat → World → World
  | [], w => w
  | fd :: order, w =>
      let w := w.closeOne fd (outs fd)
      if w.lost then w
      else if fd ∈ w.resolver.sockets then closeLoop outs order w
      else { w with torn := true }

/-- `release`, at the end of a continuation. -/
def releaseOne (w : World) (fd : Nat) : World :=
  match w.resolver.release fd with
  | none => { w with lost := true }
  | some r => { w with resolver := r }

/-- One event. c-ares uses a descriptor from the callback that returned it to its close
callback; a continuation runs when nothing else does, looks at its entry, polls the
sockets and releases the entry; `close()` comes last. -/
def step (w : World) (e : Event) : Option World :=
  if w.lost ∨ w.torn then none
  else match e with
    | .socket type =>
        match w.resolver.doSocket type with
        | (r, .value fd) => some { w with
            resolver := r
            live := fd :: w.live
            held := fd :: w.held }
        | (r, .error _) => some { w with resolver := r }
    | .connect fd sa f =>
        if fd ∈ w.held then (w.resolver.doConnect fd sa f).map (w.after fd .connect) else none
    | .recvfrom fd len read receive =>
        if fd ∈ w.held then (w.resolver.doRecvfrom fd len read receive).map (w.after fd .recv)
        else none
    | .sendv fd vec f =>
        if fd ∈ w.held then (w.resolver.doSendv fd vec f).map (w.after fd .send) else none
    | .close fd out =>
        if fd ∈ w.held then some { w.closeOne fd out with held := w.held.erase fd } else none
    | .complete fd done =>
        if w.task = .idle ∧ (fd, done.op) ∈ w.ops then
          match w.resolver.sockets.lookup fd with
          | none => some { w with lost := true }
          | some e => some { w with
              resolver := { w.resolver with sockets := w.resolver.sockets.insert fd (done.apply e) }
              task := .completing fd done.op }
        else none
    | .finish => match w.task with
        | .completing fd op =>
            some { w.releaseOne fd with ops := w.ops.erase (fd, op), task := .idle }
        | _ => none
    | .outClosed fd =>
        if w.task = .idle ∧ fd ∈ w.closes then
          some { w.releaseOne fd with closes := w.closes.erase fd }
        else none
    | .cancel =>
        if w.task = .idle ∧ w.resolver.closed = false then
          some { w with resolver := { w.resolver with closed := true }, task := .closing }
        else none
    | .closeAll order outs =>
        if w.task = .closing ∧ order.Perm w.resolver.sockets.keys then
          let w := closeLoop outs order w
          some { w with resolver := { w.resolver with gateClosed := true }, task := .idle }
        else none

/-- The future of `close()` is resolved: its gate is closed, and nobody is inside. -/
def closeDone (w : World) : Prop := w.resolver.gateClosed = true ∧ w.resolver.gate = 0

/-- The continuations that wait for a descriptor. -/
def waiting (w : World) (fd : Nat) : Nat := w.ops.countP (·.1 = fd)

end World

end ActorNet.Dns
