import Mathlib.Algebra.BigOperators.Group.List.Basic
import ActorNet.Lib.Run
import ActorNet.Rpc.Frame

/-!
# How a server connection answers its requests

The read loop takes requests one by one and waits for memory before it goes on;
the handlers run on their own, and each reply is queued when its handler is
done. The memory is one semaphore of the whole server, so a request also waits behind
those of other connections. Requests have no deadline here, the connection is alive
and the reply gate of the server is open.
-/

namespace ActorNet.Rpc

open Lib

/-- What the catch clauses tell apart: exceptions below `std::exception`, which
have a text, and all others. -/
inductive Thrown
  | std (what : List Byte)
  | other
  deriving DecidableEq, Repr

/-- How a handler ends: it returns, or it throws before or after its future. -/
inductive HandlerOutcome (Ret : Type)
  | returned (r : Ret)
  | threw (e : Thrown)
  | failed (e : Thrown)
  deriving DecidableEq, Repr

/-- `apply`: an exception thrown by the handler itself becomes a failed future. -/
def HandlerOutcome.apply {Ret : Type} : HandlerOutcome Ret → Except Thrown Ret
  | .returned r => .ok r
  | .threw e => .error e
  | .failed e => .error e

/-- A request frame, and whether `get_handler` finds a handler for its verb. -/
structure ServerRequest where
  type : BitVec 64
  msgId : BitVec 64
  payload : List Byte
  known : Bool
  deriving DecidableEq, Repr

/-- `resource_limits`, the serializer of the protocol, which may throw, and what
the memory of a new buffer contains. -/
structure Service (Args Ret : Type) where
  basicRequestSize : Nat
  bloatFactor : Nat
  maxMemory : Nat
  unmarshall : BitVec 64 → List Byte → Except Thrown Args
  marshall : BitVec 64 → Ret → Except Thrown (List Byte)
  uninit : Nat → Byte

/-- A text as bytes. -/
def textBytes (s : String) : List Byte := s.toList.map fun c => BitVec.ofNat 8 c.toNat

namespace Service

variable {Args Ret : Type} (service : Service Args Ret) (r : ServerRequest)

/-- `estimate_request_size` in a `size_t`. -/
def estimateRequestSize : Nat :=
  (service.basicRequestSize + r.payload.length * service.bloatFactor) % 2 ^ 64

def oversized : Bool := decide (service.maxMemory < service.estimateRequestSize r)

/-- What a request can ask for, on any connection: its estimated size, if that is not too
much, or what the reply for an unknown verb takes. -/
def mayAsk (n : Nat) : Bool := decide (n ≤ service.maxMemory) || n == 28

/-- `reply` for a verb that waits. An exception that is no `std::exception`
leaves it, and then nothing is sent. -/
def reply (ret : Except Thrown Ret) : Option Reply :=
  match ret.bind (service.marshall r.type) with
  | .ok data => some ⟨r.msgId, .value data, service.uninit⟩
  | .error (.std what) => some ⟨r.msgId, .userException what, service.uninit⟩
  | .error .other => none

/-- The exception an oversized request is answered with. -/
def oversizedError : Thrown :=
  .std (textBytes ("request size " ++ toString (service.estimateRequestSize r) ++
    " large than memory limit " ++ toString service.maxMemory))

def unknownVerbReply : Reply := ⟨r.msgId, .unknownVerb r.type, service.uninit⟩

end Service

/-- How far a request has come; `finished` keeps what its handler did, if it
was run. Units are those of `_resources_available`. -/
inductive Stage (Args Ret : Type)
  | waiting (units : Nat)
  | running (units : Nat) (args : Args)
  | finished (outcome : Option (HandlerOutcome Ret))
  deriving DecidableEq, Repr

/-- Who waits in `_resources_available`: a request of the connection, under its number,
or somebody else, who may have a deadline: a request of another connection, or one of
this that nobody waits for or that has a deadline. -/
inductive Waiter
  | own (k units : Nat)
  | other (units : Nat) (deadline : Bool)
  deriving DecidableEq, Repr

/-- `server::connection` with the requests it has read, what of `_resources_available`
is free, who waits for some of it, first come first served, and the units that others
hold; with the units of the replies that are not sent yet, and all replies ever queued,
each under the number of its request. -/
structure ServerConnection (Args Ret : Type) where
  requests : List (ServerRequest × Stage Args Ret)
  available : Nat
  waiters : List Waiter
  others : Nat
  outgoing : List Nat
  responses : List (Nat × Reply)

inductive ServerEvent (Ret : Type)
  | read (r : ServerRequest)
  /-- Whoever waits first gets the units. -/
  | granted
  | completed (k : Nat) (outcome : HandlerOutcome Ret)
  | sent
  /-- Somebody else waits for units. -/
  | otherAsks (n : Nat) (deadline : Bool)
  /-- The deadline of one that waits has passed. -/
  | otherLeaves (i : Nat)
  | otherReleases (n : Nat)

/-- The server or one of its handlers goes on; nothing new is asked of it. -/
def ServerEvent.GoesOn {Ret : Type} : ServerEvent Ret → Prop
  | .read _ | .otherAsks .. => False
  | _ => True

namespace ServerConnection

variable {Args Ret : Type}

def start (service : Service Args Ret) : ServerConnection Args Ret :=
  { requests := [], available := service.maxMemory, waiters := [], others := 0, outgoing := []
    responses := [] }

/-- The replies queued for a request. -/
def responsesTo (c : ServerConnection Args Ret) (k : Nat) : List Reply :=
  (c.responses.filter fun response => response.1 == k).map Prod.snd

def Stage.isWaiting : Stage Args Ret → Bool
  | .waiting _ => true
  | _ => false

/-- `respond` and `send`: the reply is queued and keeps its units until it is sent. -/
def queueResponse (c : ServerConnection Args Ret) (k : Nat) (reply : Reply) (units : Nat) :
    ServerConnection Args Ret :=
  { c with responses := c.responses ++ [(k, reply)], outgoing := c.outgoing ++ [units] }

/-- The stage of a request changes. -/
def advance (c : ServerConnection Args Ret) (k : Nat) (r : ServerRequest)
    (stage : Stage Args Ret) : ServerConnection Args Ret :=
  { c with requests := c.requests.set k (r, stage) }

/-- One round of the read loop of `process`; the loop waits while the request
before waits for memory. -/
def readStep (service : Service Args Ret) (c : ServerConnection Args Ret) (r : ServerRequest) :
    Option (ServerConnection Args Ret) :=
  if c.requests.any fun request => Stage.isWaiting request.2 then none
  else
    let k := c.requests.length
    let add (stage : Stage Args Ret) := { c with requests := c.requests ++ [(r, stage)] }
    let wait (units : Nat) :=
      { add (.waiting units) with waiters := c.waiters ++ [.own k units] }
    if !r.known then some (wait 28)
    else if service.oversized r then
      match service.reply r (.error (service.oversizedError r)) with
      | some reply => some (queueResponse (add (.finished none)) k reply 0)
      | none => some (add (.finished none))
    else some (wait (service.estimateRequestSize r))

/-- The continuation of `wait_for_resources`: `send_unknown_verb_reply`, or the
unmarshalling of a request, whose failure is only logged. -/
def grantedStep (service : Service Args Ret) (c : ServerConnection Args Ret) (k : Nat) :
    Option (ServerConnection Args Ret) :=
  match c.requests[k]? with
  | some (r, .waiting units) =>
      if units ≤ c.available then
        let taken := { c with available := c.available - units }
        if !r.known then
          some (queueResponse (advance taken k r (.finished none)) k (service.unknownVerbReply r) units)
        else match service.unmarshall r.type r.payload with
          | .ok args => some (advance taken k r (.running units args))
          | .error _ => some (advance c k r (.finished none))
      else none
  | _ => none

/-- The future of a handler is resolved. -/
def completedStep (service : Service Args Ret) (c : ServerConnection Args Ret) (k : Nat)
    (outcome : HandlerOutcome Ret) : Option (ServerConnection Args Ret) :=
  match c.requests[k]? with
  | some (r, .running units _) =>
      let done := advance c k r (.finished (some outcome))
      match service.reply r outcome.apply with
      | some reply => some (queueResponse done k reply units)
      | none => some { done with available := c.available + units }
  | _ => none

def step (service : Service Args Ret) (c : ServerConnection Args Ret) :
    ServerEvent Ret → Option (ServerConnection Args Ret)
  | .read r => readStep service c r
  | .granted =>
      -- `signal` serves the wait list from its front, and nobody passes it
      match c.waiters with
      | [] => none
      | .own k _ :: rest => grantedStep service { c with waiters := rest } k
      | .other n _ :: rest =>
          if n ≤ c.available then
            some { c with waiters := rest, available := c.available - n, others := c.others + n }
          else none
  | .completed k outcome => completedStep service c k outcome
  | .sent =>
      match c.outgoing with
      | [] => none
      | units :: rest => some { c with outgoing := rest, available := c.available + units }
  | .otherAsks n deadline =>
      if service.mayAsk n then some { c with waiters := c.waiters ++ [.other n deadline] } else none
  | .otherLeaves i =>
      match c.waiters[i]? with
      | some (.other _ true) => some { c with waiters := c.waiters.eraseIdx i }
      | _ => none
  | .otherReleases n =>
      if 0 < n ∧ n ≤ c.others then
        some { c with available := c.available + n, others := c.others - n }
      else none

end ServerConnection

end ActorNet.Rpc
