import ActorNet.Lib.Bytes
import ActorNet.Lib.Run
import ActorNet.Lib.Semaphore

/-!
# The tls session between its users and the transport

`get`, `put`, `flush` and `close` of one session run as fibers on one cpu. Each is cut
at the futures it waits for, and what can run runs in any order. What gnutls does with
the transport during a call is not known: it may ask for any number of bytes, push any
number of buffers and return anything. It does not push while it receives a record.

`_in_sem` and `_out_sem` are held over the calls of gnutls and the futures these wait
for. A handshake takes both, the first one first, and can start again at any time,
because the other side can ask for it.
-/

namespace ActorNet.Net.Tls

open Lib

/-! ## The model -/

/-- What a `future<>` is. `available` is also true of a future that failed. -/
inductive Future where
  | ready
  | failed
  | pending
  deriving DecidableEq, Repr

def Future.available (f : Future) : Bool := f ≠ .pending

/-- What gnutls asks of the transport: `pull`, or `vec_push` with what `_out.put` then
returns. -/
inductive Transport where
  | pull (len : Nat)
  | push (put : Future)
  deriving DecidableEq, Repr

/-- What a call of gnutls returns: a number, `GNUTLS_E_AGAIN` with the direction,
`GNUTLS_E_REHANDSHAKE`, or another error. A certificate that `verify` refuses is one. -/
inductive Verdict where
  | done (n : Nat)
  | again (writing : Bool)
  | rehandshake
  | fatal
  deriving DecidableEq, Repr

/-- One call of gnutls. `pending` is what `gnutls_record_check_pending` says before it. -/
structure Call where
  pending : Nat
  does : List Transport
  verdict : Verdict
  deriving DecidableEq, Repr

/-- What is called again after a handshake. -/
inductive Task where
  | get
  | put (p : List (List Byte))
  deriving DecidableEq, Repr

/-- Who calls `do_get`: `get`, or the loop of `wait_for_eof`. -/
inductive Reader where
  | get
  | drain
  deriving DecidableEq, Repr

/-- What goes on when `_in.get()` has brought something. -/
inductive OnInput where
  | shake (t : Task)
  | read (r : Reader)
  deriving DecidableEq, Repr

/-- What `gnutls_bye` returned. -/
inductive Bye where
  | again
  | sent
  | failed
  deriving DecidableEq, Repr

/-- What goes on when the output is done. -/
inductive OnOutput where
  | shake (t : Task) (writing : Bool)
  | shaken (t : Task)
  | write (p : List (List Byte)) (failing : Bool)
  | bye (b : Bye)
  | flush
  deriving DecidableEq, Repr

/-- Where a fiber is. A stage stands for the continuation that runs next, `shakeIn`,
`read`, `drainIn`, `closeIn` for one behind `_in_sem` and `shake`, `write`, `flush`,
`bye`, `closeOut` for one behind `_out_sem`. Between `trust` and `shakeIn` the system's
certificates may be loaded; `emptied` has read an empty buffer, `closing` waits for
`shutdown` or for the timer. -/
inductive Stage where
  | idle
  | again (t : Task)
  | trust (t : Task)
  | shakeIn (t : Task)
  | shake (t : Task)
  | read (r : Reader)
  | emptied
  | write (p : List (List Byte)) (begun : Bool)
  | flush
  | bye
  | byeDone
  | drainIn
  | drain
  | closing
  | closeIn
  | closeOut
  | input (k : OnInput)
  | output (f : Future) (k : OnOutput)
  | done (ok : Bool)
  deriving DecidableEq, Repr

def OnInput.stage : OnInput → Stage
  | .shake t => .shake t
  | .read r => .read r

@[simp] theorem OnInput.stage_shake (t : Task) : (OnInput.shake t).stage = .shake t := rfl
@[simp] theorem OnInput.stage_read (r : Reader) : (OnInput.read r).stage = .read r := rfl

/-- `session`, with its fibers. The last fields only record: the bytes `_in` brought,
those gnutls pulled, those it took to send with the fiber that sent them, and what each
fiber was asked to send. `aborted` says that an assertion failed. -/
structure Session where
  inSem : Semaphore Nat := []
  outSem : Semaphore Nat := []
  eof : Bool := false
  shutdown : Bool := false
  connected : Bool := false
  error : Bool := false
  outputPending : Future := .ready
  input : List Byte := []
  fibers : Nat → Stage := fun _ => .idle
  spawned : Nat := 0
  aborted : Bool := false
  received : List Byte := []
  pulled : List Byte := []
  sent : List (Nat × List Byte) := []
  asked : Nat → List Byte := fun _ => []

inductive Event where
  | get
  | put (p : List (List Byte))
  | flush
  | close
  /-- Fiber `i` goes on; `c` is the call of gnutls it makes, if it makes one. -/
  | run (i : Nat) (c : Call)
  /-- Fiber `i` goes on in `do_get`, with the call of `gnutls_record_recv`. -/
  | recv (i : Nat) (c : Call)
  /-- The certificates cannot be loaded. -/
  | distrust (i : Nat)
  /-- `_in.get()` of fiber `i` brings a buffer; an empty one is the end. -/
  | arrives (i : Nat) (buf : List Byte)
  | inputFails (i : Nat)
  /-- The output fiber `i` waits for is done. -/
  | flushed (i : Nat) (ok : Bool)
  /-- The output nobody waits for is done. -/
  | pushed (ok : Bool)
  deriving DecidableEq, Repr

def Transport.isPull : Transport → Bool
  | .pull _ => true
  | .push _ => false

/-- The fiber that goes on because of what it was waiting for, if one does. -/
def Event.fiber : Event → Option Nat
  | .run i _ | .recv i _ | .arrives i _ | .flushed i _ => some i
  | _ => none

/-- `gnutls_record_recv` only pulls. -/
def Event.Quiet : Event → Prop
  | .recv _ c => ∀ op ∈ c.does, op.isPull = true
  | _ => True

namespace Session

/-! ### Fibers and semaphores -/

def goto (s : Session) (i : Nat) (g : Stage) : Session :=
  { s with fibers := Function.update s.fibers i g }

def waitIn (s : Session) (i : Nat) (g : Stage) : Session :=
  { s with inSem := s.inSem.wait i }.goto i g

def waitOut (s : Session) (i : Nat) (g : Stage) : Session :=
  { s with outSem := s.outSem.wait i }.goto i g

def leaveIn (s : Session) (i : Nat) (g : Stage) : Session :=
  { s with inSem := s.inSem.signal }.goto i g

def leaveOut (s : Session) (i : Nat) (g : Stage) : Session :=
  { s with outSem := s.outSem.signal }.goto i g

def leaveBoth (s : Session) (i : Nat) (g : Stage) : Session :=
  { s with inSem := s.inSem.signal, outSem := s.outSem.signal }.goto i g

/-! ### The transport -/

/-- `pull` and `vec_push`. -/
def transport (s : Session) : Transport → Session
  | .pull len =>
      if s.eof || s.input.isEmpty then s
      else { s with input := s.input.drop len, pulled := s.pulled ++ s.input.take len }
  | .push put => if s.outputPending.available then { s with outputPending := put } else s

def does (s : Session) (ops : List Transport) : Session := ops.foldl transport s

def waitForInput (s : Session) (i : Nat) (k : OnInput) : Session :=
  if s.input.isEmpty then s.goto i (.input k) else s.goto i k.stage

def waitForOutput (s : Session) (i : Nat) (k : OnOutput) : Session :=
  { s with outputPending := .ready }.goto i (.output s.outputPending k)

/-! ### The operations -/

def doHandshake (s : Session) (i : Nat) (t : Task) (c : Call) : Session :=
  if s.connected then s.leaveBoth i (.again t)
  else
    match c.verdict with
    | .done _ => { s.does c.does with connected := true }.waitForOutput i (.shaken t)
    | .again writing => (s.does c.does).waitForOutput i (.shake t writing)
    | .rehandshake | .fatal => (s.does c.does).leaveBoth i (.done false)

def get (s : Session) (i : Nat) : Session :=
  if s.error then s.goto i (.done false)
  else if s.shutdown || s.eof then s.goto i (.done true)
  else if !s.connected then s.goto i (.trust .get)
  else s.waitIn i (.read .get)

def put (s : Session) (i : Nat) (p : List (List Byte)) : Session :=
  if s.error || s.shutdown then s.goto i (.done false)
  else if !s.connected then s.goto i (.trust (.put p))
  else s.waitOut i (.write p false)

def call (s : Session) (i : Nat) : Task → Session
  | .get => s.get i
  | .put p => s.put i p

/-- `do_get` returns a buffer: `get` leaves the semaphore, the loop goes on. -/
def gives (s : Session) (i : Nat) (empty : Bool) : Reader → Session
  | .get => s.leaveIn i (if empty then .emptied else .done true)
  | .drain => s.goto i .drain

/-- `do_get`. -/
def doGet (s : Session) (i : Nat) (r : Reader) (c : Call) : Option Session :=
  let avail := if c.pending = 0 then s.input.length else c.pending
  if avail = 0 then
    some (if s.eof then s.gives i true r else s.waitForInput i (.read r))
  else
    match c.verdict with
    | .done n =>
        if avail < n then none
        else
          let s := s.does c.does
          some ({ s with eof := s.eof || n = 0 }.gives i (n = 0) r)
    | .again _ => some ((s.does c.does).goto i (.read r))
    | .rehandshake => some ({ s.does c.does with connected := false }.gives i true r)
    | .fatal => some ({ s.does c.does with error := true }.leaveIn i (.done false))

/-- `do_put` from the fragments `p` on: the assertion it begins with, and one call of
`gnutls_record_send`. -/
def doPut (s : Session) (i : Nat) (p : List (List Byte)) (begun : Bool) (c : Call) :
    Option Session :=
  if !begun && !s.outputPending.available then some { s with aborted := true }
  else
    match p with
    | [] => some (s.leaveOut i (.done true))
    | [] :: p => some (s.goto i (.write p true))
    | f :: p =>
        match c.verdict with
        | .done n =>
            if f.length < n then none
            else
              let s := s.does c.does
              some ({ s with sent := s.sent ++ [(i, f.take n)] }.waitForOutput i
                (.write (f.drop n :: p) false))
        | _ => some ({ s.does c.does with error := true }.waitForOutput i (.write [] true))

def doShutdown (s : Session) (i : Nat) (c : Call) : Session :=
  if s.error || !s.connected then s.leaveOut i .byeDone
  else
    match c.verdict with
    | .done _ => (s.does c.does).waitForOutput i (.bye .sent)
    | .again _ => (s.does c.does).waitForOutput i (.bye .again)
    | .rehandshake | .fatal =>
        { s.does c.does with error := true }.waitForOutput i (.bye .failed)

/-- The output fiber `i` waited for is done. -/
def flushedOk (s : Session) (i : Nat) : OnOutput → Session
  | .shake t writing => if writing then s.goto i (.shake t) else s.waitForInput i (.shake t)
  | .shaken t => s.leaveBoth i (.again t)
  | .write p failing =>
      if failing then s.leaveOut i (.done false) else s.goto i (.write p true)
  | .bye .again => s.goto i .bye
  | .bye .sent => s.leaveOut i .byeDone
  | .bye .failed => s.leaveOut i (.done false)
  | .flush => s.leaveOut i (.done true)

/-- The output fiber `i` waited for failed. -/
def flushedBad (s : Session) (i : Nat) : OnOutput → Session
  | .shake _ _ | .shaken _ => { s with error := true }.leaveBoth i (.done false)
  | .write _ _ | .bye _ => { s with error := true }.leaveOut i (.done false)
  | .flush => s.leaveOut i (.done false)

/-- The next continuation of fiber `i`. -/
def run (s : Session) (i : Nat) (c : Call) : Option Session :=
  match s.fibers i with
  | .again t => some (s.call i t)
  | .trust t => some (s.waitIn i (.shakeIn t))
  | .shakeIn t => if s.inSem.Has i then some (s.waitOut i (.shake t)) else none
  | .shake t => if s.outSem.Has i then some (s.doHandshake i t c) else none
  | .emptied => some (s.goto i (if s.eof then .done true else .trust .get))
  | .write p begun => if s.outSem.Has i then s.doPut i p begun c else none
  | .flush => if s.outSem.Has i then some (s.goto i (.output .pending .flush)) else none
  | .bye => if s.outSem.Has i then some (s.doShutdown i c) else none
  | .byeDone => some (s.waitIn i .drainIn)
  | .drainIn =>
      if s.inSem.Has i then
        some (if s.error || !s.connected then s.leaveIn i (.done true) else s.goto i .drain)
      else none
  | .closing => some ({ s with eof := true }.waitIn i .closeIn)
  | .closeIn => if s.inSem.Has i then some (s.waitOut i .closeOut) else none
  | .closeOut => if s.outSem.Has i then some (s.leaveBoth i (.done true)) else none
  | .output .ready k => some (s.flushedOk i k)
  | .output .failed k => some (s.flushedBad i k)
  | _ => none

def recv (s : Session) (i : Nat) (c : Call) : Option Session :=
  match s.fibers i with
  | .read r => if s.inSem.Has i then s.doGet i r c else none
  | .drain => if s.eof then some (s.leaveIn i (.done true)) else s.doGet i .drain c
  | _ => none

/-- The next fiber. -/
def spawn (s : Session) : Session := { s with spawned := s.spawned + 1 }

def close (s : Session) : Session :=
  if s.shutdown then s
  else
    ({ s with shutdown := true }.spawn.waitOut s.spawned .bye).spawn.goto (s.spawned + 1) .closing

/-- Gnutls does nothing and fails. -/
def noCall : Call := ⟨0, [], .fatal⟩

def outcome (ok : Bool) : Future := if ok then .ready else .failed

def step (s : Session) (e : Event) : Option Session :=
  if s.aborted then none
  else
    match e with
    | .get => some (s.spawn.get s.spawned)
    | .put p =>
        some ({ s with asked := Function.update s.asked s.spawned p.flatten }.spawn.put s.spawned p)
    | .flush => some (s.spawn.waitOut s.spawned .flush)
    | .close => some s.close
    | .run i c => s.run i c
    | .recv i c => s.recv i c
    | .distrust i =>
        match s.fibers i with
        | .trust _ => some (s.goto i (.done false))
        | _ => none
    | .arrives i buf =>
        match s.fibers i with
        | .input k => some ({ s with
            input := buf
            eof := s.eof || buf.isEmpty
            received := s.received ++ buf }.goto i k.stage)
        | _ => none
    | .inputFails i =>
        match s.fibers i with
        | .input (.shake _) => some ({ s with error := true }.leaveBoth i (.done false))
        | .input (.read _) => some ({ s with error := true }.leaveIn i (.done false))
        | _ => none
    | .flushed i ok =>
        match s.fibers i with
        | .output .pending k => some (s.goto i (.output (outcome ok) k))
        | _ => none
    | .pushed ok =>
        if s.outputPending = .pending then some { s with outputPending := outcome ok } else none

end Session

/-! ## What a stage says -/

def Task.left : Task → List Byte
  | .get => []
  | .put p => p.flatten

@[simp] theorem Task.left_get : Task.get.left = [] := rfl
@[simp] theorem Task.left_put (p : List (List Byte)) : (Task.put p).left = p.flatten := rfl

namespace Stage

/-- The fiber asked for `_in_sem`. -/
def asksIn : Stage → Bool
  | .shakeIn _ | .shake _ | .read _ | .drainIn | .drain | .closeIn | .closeOut | .input _
  | .output _ (.shake _ _) | .output _ (.shaken _) => true
  | _ => false

/-- The fiber goes on without looking whether it has `_in_sem`. -/
def reliesIn : Stage → Bool
  | .shake _ | .drain | .closeOut | .input _
  | .output _ (.shake _ _) | .output _ (.shaken _) => true
  | _ => false

/-- The fiber asked for `_out_sem`. -/
def asksOut : Stage → Bool
  | .shake _ | .write _ _ | .flush | .bye | .closeOut | .input (.shake _) | .output _ _ => true
  | _ => false

/-- The fiber goes on without looking whether it has `_out_sem`. -/
def reliesOut : Stage → Bool
  | .write _ true | .input (.shake _) | .output _ _ => true
  | _ => false

/-- The fiber waits for `_in.get()`. -/
def gets : Stage → Bool
  | .input _ => true
  | _ => false

/-- The fiber is going to push, or waits for what was pushed. -/
def pushes : Stage → Bool
  | .write _ _ => true
  | .output _ k => k ≠ .flush
  | _ => false

/-- The fiber is in a handshake with both semaphores asked for. -/
def shakes : Stage → Bool
  | .shake _ | .input (.shake _) | .output _ (.shake _ _) => true
  | _ => false

/-- The fiber is in the middle of its packet. -/
def sends : Stage → Bool
  | .write _ true | .output _ (.write _ _) => true
  | _ => false

/-- The fiber has not sent anything. -/
def fresh : Stage → Bool
  | .write _ true | .output _ (.write _ _) | .done _ => false
  | _ => true

/-- A fiber that goes on from `a` to `g` has to have `_in_sem`. -/
def needsIn (a g : Stage) : Bool := a.asksIn && (!g.asksIn || g.reliesIn)

def needsOut (a g : Stage) : Bool := a.asksOut && (!g.asksOut || g.reliesOut)

/-- No fiber relies at once on what it asks for. -/
def leads (a g : Stage) : Bool := (a.asksIn || !g.reliesIn) && (a.asksOut || !g.reliesOut)

/-- The fiber has begun its packet at `g` if it had at `a`, and not the other way. -/
def keeps (a g : Stage) : Bool := (a.fresh || !g.fresh) && (a.sends || a.fresh || !g.sends)

/-- What the fiber is still to send, unless it failed. -/
def left : Stage → Option (List Byte)
  | .again t | .trust t | .shakeIn t | .shake t | .input (.shake t) | .output _ (.shake t _)
  | .output _ (.shaken t) => some t.left
  | .write p _ | .output _ (.write p false) => some p.flatten
  | .output _ (.write _ true) | .done false => none
  | _ => some []

theorem asksIn_of_reliesIn {g : Stage} (relies : g.reliesIn = true) : g.asksIn = true := by
  cases g with
  | output f k => cases k <;> first | rfl | nomatch relies
  | _ => first | rfl | nomatch relies

theorem asksOut_of_reliesOut {g : Stage} (relies : g.reliesOut = true) : g.asksOut = true := by
  cases g with
  | input k => cases k <;> first | rfl | nomatch relies
  | _ => first | rfl | nomatch relies

theorem reliesIn_of_gets {g : Stage} (waits : g.gets = true) : g.reliesIn = true := by
  cases g <;> first | rfl | nomatch waits

theorem reliesIn_of_shakes {g : Stage} (shaking : g.shakes = true) : g.reliesIn = true := by
  cases g with
  | output f k => cases k <;> first | rfl | nomatch shaking
  | _ => first | rfl | nomatch shaking

theorem asksOut_of_pushes {g : Stage} (pushing : g.pushes = true) : g.asksOut = true := by
  cases g <;> first | rfl | nomatch pushing

/-- Who asked for both semaphores has the first one. -/
theorem reliesIn_of_asks {g : Stage} (asksIn' : g.asksIn = true) (asksOut' : g.asksOut = true) :
    g.reliesIn = true := by
  cases g with
  | output f k => cases k <;> first | rfl | exact absurd asksIn' Bool.false_ne_true
  | _ =>
      first
      | rfl
      | exact absurd asksIn' Bool.false_ne_true
      | exact absurd asksOut' Bool.false_ne_true

theorem reliesOut_of_sends {g : Stage} (sending : g.sends = true) : g.reliesOut = true := by
  cases g with
  | write p begun => cases begun <;> first | rfl | nomatch sending
  | _ => first | rfl | nomatch sending

end Stage

namespace Session

/-! ## What holds in every run -/

/-- Who was given a number, and what the bytes of the transport say. -/
structure Intake (s : Session) : Prop where
  balance : s.received = s.pulled ++ s.input
  starved : ∀ i, (s.fibers i).gets = true → s.input = []

/-- An output that is neither done nor awaited is that of a handshake that failed. No
fiber that is going to push is there then, and none gets behind a handshake. -/
structure Outflow (s : Session) : Prop where
  stale : s.outputPending ≠ .ready →
    s.connected = false ∧ ∀ i, (s.fibers i).pushes = false
  first : s.connected = false → ∀ i j, (s.fibers i).shakes = true →
    (s.fibers j).pushes = true → ¬ s.outSem.Behind i j
  runs : s.aborted = false

/-- The bytes fiber `i` has sent. -/
def sentBy (s : Session) (i : Nat) : List Byte :=
  (s.sent.filter (·.1 = i)).flatMap (·.2)

/-- The fibers that sent, each time they did. -/
def turns (s : Session) : List Nat := s.sent.map (·.1)

/-- What was sent, against what was asked. -/
structure Plain (s : Session) : Prop where
  begins : ∀ i, s.sentBy i <+: s.asked i
  left : ∀ i r, (s.fibers i).left = some r → s.sentBy i ++ r = s.asked i
  turns : InTurns s.turns
  fresh : ∀ i, (s.fibers i).fresh = true → i ∉ s.turns
  sends : ∀ i, (s.fibers i).sends = true → i ∈ s.turns → s.turns.getLast? = some i

structure Sound (s : Session) : Prop where
  ins : s.inSem.Keeps (fun i => (s.fibers i).asksIn) (fun i => (s.fibers i).reliesIn)
  outs : s.outSem.Keeps (fun i => (s.fibers i).asksOut) (fun i => (s.fibers i).reliesOut)
  intake : s.Intake
  outflow : s.Outflow
  plain : s.Plain
  idle : ∀ i, s.spawned ≤ i → s.fibers i = .idle

theorem start_sound : ({} : Session).Sound where
  ins := ⟨List.nodup_nil, by simp [Stage.asksIn], by simp [Stage.reliesIn]⟩
  outs := ⟨List.nodup_nil, by simp [Stage.asksOut], by simp [Stage.reliesOut]⟩
  intake := ⟨rfl, fun _ _ => rfl⟩
  outflow := ⟨by simp, by simp [Stage.shakes], rfl⟩
  plain := ⟨by simp [sentBy], by simp [sentBy, Stage.left], InTurns.nil, by simp [Session.turns],
    by simp [Stage.sends]⟩
  idle _ _ := rfl

/-- Fiber `i` goes on to stage `g`, and the semaphores follow. -/
structure Moves (s s' : Session) (i : Nat) (g : Stage) : Prop where
  inside : i < s.spawned
  fibers : s'.fibers = Function.update s.fibers i g
  ins : s'.inSem = s.inSem.turn i (s.fibers i).asksIn g.asksIn
  outs : s'.outSem = s.outSem.turn i (s.fibers i).asksOut g.asksOut
  hasIn : (s.fibers i).asksIn = true → g.asksIn = false ∨ g.reliesIn = true → s.inSem.Has i
  newIn : (s.fibers i).asksIn = false → g.reliesIn = false
  hasOut : (s.fibers i).asksOut = true → g.asksOut = false ∨ g.reliesOut = true → s.outSem.Has i
  newOut : (s.fibers i).asksOut = false → g.reliesOut = false
  spawned : s'.spawned = s.spawned

/-- What a move says of: the fibers and the semaphores. -/
def seats (s : Session) : Nat × (Nat → Stage) × Semaphore Nat × Semaphore Nat :=
  (s.spawned, s.fibers, s.inSem, s.outSem)

/-- The seats when fiber `i` has gone from `a` to `g`. -/
def turned (s : Session) (i : Nat) (a g : Stage) :
    Nat × (Nat → Stage) × Semaphore Nat × Semaphore Nat :=
  (s.spawned, Function.update s.fibers i g, s.inSem.turn i a.asksIn g.asksIn,
    s.outSem.turn i a.asksOut g.asksOut)

/-- What passed the transport. -/
def wire (s : Session) : Bool × Bool × Future × List Byte × List Byte × List Byte :=
  (s.aborted, s.connected, s.outputPending, s.input, s.received, s.pulled)

/-- What passed the users. -/
def talk (s : Session) : List (Nat × List Byte) × (Nat → List Byte) := (s.sent, s.asked)

section

variable {s s' : Session} {i : Nat} {a g : Stage}

theorem Moves.of (here : s.fibers i = a) (inside : i < s.spawned) (leads : a.leads g = true)
    (hasIn : a.needsIn g = true → s.inSem.Has i) (hasOut : a.needsOut g = true → s.outSem.Has i)
    (turned : s'.seats = s.turned i a g) : s.Moves s' i g := by
  subst here
  simp only [seats, Session.turned, Prod.mk.injEq] at turned
  obtain ⟨spawned, fibers, ins, outs⟩ := turned
  simp only [Stage.leads, Bool.and_eq_true, Bool.or_eq_true, Bool.not_eq_true'] at leads
  simp only [Stage.needsIn, Stage.needsOut, Bool.and_eq_true, Bool.or_eq_true,
    Bool.not_eq_true'] at hasIn hasOut
  exact {
    inside, fibers, ins, outs, spawned
    hasIn := fun asks needs => hasIn ⟨asks, needs⟩
    newIn := fun new => leads.1.resolve_left (by simp [new])
    hasOut := fun asks needs => hasOut ⟨asks, needs⟩
    newOut := fun new => leads.2.resolve_left (by simp [new]) }

theorem Moves.at_self (moves : s.Moves s' i g) : s'.fibers i = g := by
  rw [moves.fibers, Function.update_self]

theorem Moves.at_other (moves : s.Moves s' i g) {j : Nat} (other : j ≠ i) :
    s'.fibers j = s.fibers j := by
  rw [moves.fibers, Function.update_of_ne other]

/-- What is said of a stage is changed for the fiber that moved. -/
theorem Moves.says (moves : s.Moves s' i g) {β : Type} (f : Stage → β) :
    (fun j => f (s'.fibers j)) = Function.update (fun j => f (s.fibers j)) i (f g) := by
  rw [moves.fibers]
  exact Function.comp_update f s.fibers i g

theorem Sound.locks (sound : s.Sound) (moves : s.Moves s' i g) :
    s'.inSem.Keeps (fun j => (s'.fibers j).asksIn) (fun j => (s'.fibers j).reliesIn) ∧
      s'.outSem.Keeps (fun j => (s'.fibers j).asksOut) (fun j => (s'.fibers j).reliesOut) := by
  rw [moves.ins, moves.outs, moves.says Stage.asksIn, moves.says Stage.reliesIn,
    moves.says Stage.asksOut, moves.says Stage.reliesOut]
  exact ⟨sound.ins.turn rfl moves.hasIn moves.newIn Stage.asksIn_of_reliesIn,
    sound.outs.turn rfl moves.hasOut moves.newOut Stage.asksOut_of_reliesOut⟩

theorem Sound.idle_of (sound : s.Sound) (moves : s.Moves s' i g) (j : Nat)
    (past : s'.spawned ≤ j) : s'.fibers j = .idle := by
  have inside := moves.inside
  rw [moves.spawned] at past
  rw [moves.at_other (by omega), sound.idle j past]

/-! ### Each part, when one fiber moves -/

theorem Intake.of_moves (intake : s.Intake) (moves : s.Moves s' i g)
    (balance : s'.received = s'.pulled ++ s'.input) (less : s.input = [] → s'.input = [])
    (gets : g.gets = true → s'.input = []) : s'.Intake := by
  refine ⟨balance, fun j waits => ?_⟩
  by_cases here : j = i
  · subst here
    rw [moves.at_self] at waits
    exact gets waits
  · rw [moves.at_other here] at waits
    exact less (intake.starved j waits)

/-- The fibers that are behind another were so before, or ask only now. -/
theorem Moves.behind (moves : s.Moves s' i g) {j k : Nat} (behind : s'.outSem.Behind j k) :
    s.outSem.Behind j k ∨ (k = i ∧ (s.fibers i).asksOut = false) := by
  rw [moves.outs] at behind
  cases before : (s.fibers i).asksOut <;> cases after : g.asksOut <;>
    simp only [before, after, Semaphore.turn] at behind
  · exact .inl behind
  · exact behind.wait.imp_right fun late => ⟨late.1, rfl⟩
  · exact .inl behind.signal
  · exact .inl behind

theorem Outflow.of_moves (outflow : s.Outflow) (sound : s.Sound) (moves : s.Moves s' i g)
    (same : s'.outputPending = s.outputPending) (connected : s'.connected = s.connected)
    (runs : s'.aborted = s.aborted)
    (pushes : g.pushes = true → (s.fibers i).pushes = true ∨ s.connected = true)
    (shakes : g.shakes = true → (s.fibers i).shakes = true ∨ (s.fibers i).asksOut = false) :
    s'.Outflow := by
  have before : s.connected = false → ∀ j, (s'.fibers j).pushes = true →
      (s.fibers j).pushes = true := by
    intro off j pushing
    by_cases here : j = i
    · subst here
      rw [moves.at_self] at pushing
      exact (pushes pushing).resolve_right (by simp [off])
    · rwa [moves.at_other here] at pushing
  refine ⟨fun old => ?_, fun off j k shaking pushing behind => ?_, runs ▸ outflow.runs⟩
  · rw [same] at old
    obtain ⟨off, nobody⟩ := outflow.stale old
    refine ⟨connected ▸ off, fun j => ?_⟩
    by_contra pushing
    have pushed := before off j (by simpa using pushing)
    exact absurd (nobody j) (by simp [pushed])
  · rw [connected] at off
    have pushed := before off k pushing
    rcases moves.behind behind with ahead | ⟨rfl, late⟩
    · refine outflow.first off j k ?_ pushed ahead
      by_cases here : j = i
      · subst here
        rw [moves.at_self] at shaking
        have inside : j ∈ s.outSem := by
          obtain ⟨a, b, c, all⟩ := ahead
          simp [all]
        exact (shakes shaking).resolve_right (by simp [(sound.outs.asked j).mp inside])
      · rwa [moves.at_other here] at shaking
    · rw [Stage.asksOut_of_pushes pushed] at late
      cases late

/-- What may be said of the next stage of fiber `i` that sends nothing. -/
structure Speaks (s : Session) (i : Nat) (g : Stage) : Prop where
  left : ∀ r, g.left = some r → (s.fibers i).left = some r
  fresh : g.fresh = true → (s.fibers i).fresh = true
  sends : g.sends = true → (s.fibers i).sends = true ∨ (s.fibers i).fresh = true

theorem Speaks.of (here : s.fibers i = a) (keeps : a.keeps g = true)
    (left : g.left = none ∨ g.left = a.left) : s.Speaks i g := by
  subst here
  simp only [Stage.keeps, Bool.and_eq_true, Bool.or_eq_true, Bool.not_eq_true'] at keeps
  refine ⟨fun r rest => ?_, fun new => ?_, fun mid => ?_⟩
  · rcases left with failed | same
    · simp [failed] at rest
    · exact same ▸ rest
  · exact keeps.1.resolve_right (by simp [new])
  · exact keeps.2.resolve_right (by simp [mid])

theorem Plain.of_speaks (plain : s.Plain) (fibers : s'.fibers = Function.update s.fibers i g)
    (speaks : s.Speaks i g) (talk : s'.talk = s.talk) : s'.Plain := by
  obtain ⟨sent, asked⟩ : s'.sent = s.sent ∧ s'.asked = s.asked := by
    simpa only [Session.talk, Prod.mk.injEq] using talk
  have sentBy : s'.sentBy = s.sentBy := by
    simp only [funext_iff, Session.sentBy, sent, implies_true]
  have turns : s'.turns = s.turns := by rw [Session.turns, sent, Session.turns]
  refine ⟨fun j => ?_, fun j r rest => ?_, turns ▸ plain.turns, fun j new => ?_,
    fun j mid mem => ?_⟩
  · rw [sentBy, asked]
    exact plain.begins j
  · rw [sentBy, asked]
    refine plain.left j r ?_
    by_cases here : j = i
    · subst here
      rw [fibers, Function.update_self] at rest
      exact speaks.left r rest
    · rwa [fibers, Function.update_of_ne here] at rest
  · rw [turns]
    refine plain.fresh j ?_
    by_cases here : j = i
    · subst here
      rw [fibers, Function.update_self] at new
      exact speaks.fresh new
    · rwa [fibers, Function.update_of_ne here] at new
  · rw [turns] at mem ⊢
    by_cases here : j = i
    · subst here
      rw [fibers, Function.update_self] at mid
      exact (speaks.sends mid).elim (fun was => plain.sends j was mem)
        fun new => absurd mem (plain.fresh j new)
    · rw [fibers, Function.update_of_ne here] at mid
      exact plain.sends j mid mem

/-! ### Moves that leave the wire alone -/

/-- What else has to hold of the next stage of fiber `i`. -/
structure Goes (s : Session) (i : Nat) (g : Stage) : Prop where
  gets : g.gets = true → s.input = []
  pushes : g.pushes = true → (s.fibers i).pushes = true ∨ s.connected = true
  shakes : g.shakes = true → (s.fibers i).shakes = true ∨ (s.fibers i).asksOut = false

theorem Goes.of (here : s.fibers i = a) (gets : g.gets = true → s.input = [])
    (pushes : (g.pushes && !a.pushes) = true → s.connected = true)
    (shakes : (a.shakes || !a.asksOut || !g.shakes) = true) : s.Goes i g := by
  subst here
  simp only [Bool.and_eq_true, Bool.not_eq_true'] at pushes
  simp only [Bool.or_eq_true, Bool.not_eq_true'] at shakes
  refine ⟨gets, fun pushing => ?_, fun shaking => shakes.resolve_right (by simp [shaking])⟩
  cases was : (s.fibers i).pushes with
  | true => exact .inl rfl
  | false => exact .inr (pushes ⟨pushing, was⟩)

theorem Sound.moved (sound : s.Sound) (moves : s.Moves s' i g) (wire : s'.wire = s.wire)
    (goes : s.Goes i g) (plain : s'.Plain) : s'.Sound := by
  simp only [Session.wire, Prod.mk.injEq] at wire
  obtain ⟨aborted, connected, outputPending, input, received, pulled⟩ := wire
  have intake : s'.Intake := by
    refine sound.intake.of_moves moves ?_ (fun empty => input ▸ empty) ?_
    · rw [received, pulled, input, sound.intake.balance]
    · rw [input]
      exact goes.gets
  have outflow := sound.outflow.of_moves sound moves outputPending connected aborted
    goes.pushes goes.shakes
  exact ⟨(sound.locks moves).1, (sound.locks moves).2, intake, outflow, plain, sound.idle_of moves⟩

/-- A fiber that leaves the wire alone and does what its stages say. -/
theorem Sound.goes (sound : s.Sound) (here : s.fibers i = a) (inside : i < s.spawned)
    (leads : (a.leads g && a.keeps g && (a.shakes || !a.asksOut || !g.shakes)) = true)
    (needs : (a.needsIn g = true → s.inSem.Has i) ∧ (a.needsOut g = true → s.outSem.Has i) ∧
      (g.gets = true → s.input = []) ∧ ((g.pushes && !a.pushes) = true → s.connected = true))
    (left : g.left = none ∨ g.left = a.left) (turned : s'.seats = s.turned i a g)
    (wire : s'.wire = s.wire) (talk : s'.talk = s.talk) : s'.Sound := by
  simp only [Bool.and_eq_true] at leads
  obtain ⟨hasIn, hasOut, gets, pushes⟩ := needs
  have moves : s.Moves s' i g := .of here inside leads.1.1 hasIn hasOut turned
  exact sound.moved moves wire (.of here gets pushes leads.2)
    (sound.plain.of_speaks moves.fibers (.of here leads.1.2 left) talk)

/-! ### What gnutls does with the transport -/

/-- A call takes bytes from the front of the input and may push. -/
theorem does_spec (s : Session) (ops : List Transport) : ∃ n f,
    s.does ops = { s with
      input := s.input.drop n
      pulled := s.pulled ++ s.input.take n
      outputPending := f } ∧
    ((∀ op ∈ ops, op.isPull = true) → f = s.outputPending) := by
  induction ops generalizing s with
  | nil => exact ⟨0, s.outputPending, by simp [does], fun _ => rfl⟩
  | cons op ops ih =>
      obtain ⟨n, f, did, pulls⟩ := ih (s.transport op)
      have unfolded : s.does (op :: ops) = (s.transport op).does ops := rfl
      rw [unfolded, did]
      cases op with
      | pull len =>
          by_cases stops : (s.eof || s.input.isEmpty) = true
          · rw [transport, if_pos stops] at pulls ⊢
            exact ⟨n, f, rfl, fun all => pulls fun op mem => all op (List.mem_cons_of_mem _ mem)⟩
          · rw [transport, if_neg stops] at pulls ⊢
            refine ⟨len + n, f, ?_, fun all => ?_⟩
            · simp [List.take_add]
            · exact pulls fun op mem => all op (List.mem_cons_of_mem _ mem)
      | push put =>
          refine ⟨n, f, ?_, fun all => by simpa [Transport.isPull] using all _ List.mem_cons_self⟩
          by_cases free : s.outputPending.available = true
          · simp only [transport, if_pos free]
          · simp only [transport, if_neg free]

theorem Intake.took (intake : s.Intake) (n : Nat) :
    s.received = (s.pulled ++ s.input.take n) ++ s.input.drop n ∧
      (s.input = [] → s.input.drop n = []) := by
  refine ⟨?_, fun empty => by rw [empty, List.drop_nil]⟩
  rw [List.append_assoc, List.take_append_drop, intake.balance]

theorem Sound.inside (sound : s.Sound) (there : s.fibers i ≠ .idle) : i < s.spawned := by
  by_contra past
  exact there (sound.idle i (Nat.le_of_not_lt past))

/-! ### The operations that leave the wire alone -/

theorem Sound.get (sound : s.Sound) (inside : i < s.spawned)
    (new : s.fibers i = .idle ∨ s.fibers i = .again .get) : (s.get i).Sound := by
  unfold Session.get
  split
  · rcases new with here | here <;> exact sound.goes (g := .done false) here inside rfl
      ⟨nofun, nofun, nofun, nofun⟩ (.inl rfl) rfl rfl rfl
  · split
    · rcases new with here | here <;> exact sound.goes (g := .done true) here inside rfl
        ⟨nofun, nofun, nofun, nofun⟩ (.inr rfl) rfl rfl rfl
    · split
      · rcases new with here | here <;> exact sound.goes (g := .trust .get) here inside rfl
          ⟨nofun, nofun, nofun, nofun⟩ (.inr rfl) rfl rfl rfl
      · rcases new with here | here <;> exact sound.goes (g := .read .get) here inside rfl
          ⟨nofun, nofun, nofun, nofun⟩ (.inr rfl) rfl rfl rfl

theorem Sound.putAgain (sound : s.Sound) {p : List (List Byte)}
    (here : s.fibers i = .again (.put p)) : (s.put i p).Sound := by
  have inside : i < s.spawned := sound.inside (by simp [here])
  unfold Session.put
  split
  · exact sound.goes (g := .done false) here inside rfl ⟨nofun, nofun, nofun, nofun⟩ (.inl rfl)
      rfl rfl rfl
  · split
    · exact sound.goes (g := .trust (.put p)) here inside rfl
        ⟨nofun, nofun, nofun, nofun⟩ (.inr rfl) rfl rfl rfl
    · rename_i on
      have on : s.connected = true := by simpa using on
      exact sound.goes (g := .write p false) here inside rfl
        ⟨nofun, nofun, nofun, fun _ => on⟩ (.inr rfl) rfl rfl rfl

/-- The output is done: what the fiber relied on, it has. -/
theorem Sound.flushedOk (sound : s.Sound) {f : Future} {k : OnOutput}
    (here : s.fibers i = .output f k) : (s.flushedOk i k).Sound := by
  have inside : i < s.spawned := sound.inside (by simp [here])
  have hasOut : s.outSem.Has i := sound.outs.relied i (by simp [here, Stage.reliesOut])
  cases k with
  | shake t writing =>
      have hasIn : s.inSem.Has i := sound.ins.relied i (by simp [here, Stage.reliesIn])
      cases writing with
      | true =>
          exact sound.goes (g := .shake t) here inside rfl
            ⟨fun _ => hasIn, nofun, nofun, nofun⟩ (.inr rfl) rfl rfl rfl
      | false =>
          simp only [Session.flushedOk, Bool.false_eq_true, if_false, waitForInput]
          split
          · rename_i empty
            have empty : s.input = [] := by simpa using empty
            exact sound.goes (g := .input (.shake t)) here inside rfl
              ⟨fun _ => hasIn, fun _ => hasOut, fun _ => empty, nofun⟩ (.inr rfl) rfl rfl rfl
          · exact sound.goes (g := .shake t) here inside rfl
              ⟨fun _ => hasIn, nofun, nofun, nofun⟩ (.inr rfl) rfl rfl rfl
  | shaken t =>
      have hasIn : s.inSem.Has i := sound.ins.relied i (by simp [here, Stage.reliesIn])
      exact sound.goes (g := .again t) here inside rfl
        ⟨fun _ => hasIn, fun _ => hasOut, nofun, nofun⟩ (.inr rfl) rfl rfl rfl
  | write p failing =>
      cases failing with
      | true =>
          exact sound.goes (g := .done false) here inside rfl
            ⟨nofun, fun _ => hasOut, nofun, nofun⟩ (.inl rfl) rfl rfl rfl
      | false =>
          exact sound.goes (g := .write p true) here inside rfl
            ⟨nofun, fun _ => hasOut, nofun, nofun⟩ (.inr rfl) rfl rfl rfl
  | bye b =>
      cases b with
      | again =>
          exact sound.goes (g := .bye) here inside rfl
            ⟨nofun, nofun, nofun, nofun⟩ (.inr rfl) rfl rfl rfl
      | sent =>
          exact sound.goes (g := .byeDone) here inside rfl
            ⟨nofun, fun _ => hasOut, nofun, nofun⟩ (.inr rfl) rfl rfl rfl
      | failed =>
          exact sound.goes (g := .done false) here inside rfl
            ⟨nofun, fun _ => hasOut, nofun, nofun⟩ (.inl rfl) rfl rfl rfl
  | flush =>
      exact sound.goes (g := .done true) here inside rfl
        ⟨nofun, fun _ => hasOut, nofun, nofun⟩ (.inr rfl) rfl rfl rfl

theorem Sound.flushed (sound : s.Sound) {f : Future} {k : OnOutput}
    (here : s.fibers i = .output f k) (f' : Future) : (s.goto i (.output f' k)).Sound := by
  have inside : i < s.spawned := sound.inside (by simp [here])
  have hasOut : s.outSem.Has i := sound.outs.relied i (by simp [here, Stage.reliesOut])
  cases k with
  | shake t writing =>
      have hasIn : s.inSem.Has i := sound.ins.relied i (by simp [here, Stage.reliesIn])
      exact sound.goes (g := .output f' (.shake t writing)) here inside rfl
        ⟨fun _ => hasIn, fun _ => hasOut, nofun, nofun⟩ (.inr rfl) rfl rfl rfl
  | shaken t =>
      have hasIn : s.inSem.Has i := sound.ins.relied i (by simp [here, Stage.reliesIn])
      exact sound.goes (g := .output f' (.shaken t)) here inside rfl
        ⟨fun _ => hasIn, fun _ => hasOut, nofun, nofun⟩ (.inr rfl) rfl rfl rfl
  | write p failing =>
      cases failing <;>
      exact sound.goes (g := .output f' (.write p _)) here inside rfl
        ⟨nofun, fun _ => hasOut, nofun, nofun⟩ (.inr rfl) rfl rfl rfl
  | bye b =>
      exact sound.goes (g := .output f' (.bye b)) here inside rfl
        ⟨nofun, fun _ => hasOut, nofun, nofun⟩ (.inr rfl) rfl rfl rfl
  | flush =>
      exact sound.goes (g := .output f' .flush) here inside rfl
        ⟨nofun, fun _ => hasOut, nofun, nofun⟩ (.inr rfl) rfl rfl rfl

theorem Sound.flushedBad (sound : s.Sound) {f : Future} {k : OnOutput}
    (here : s.fibers i = .output f k) : (s.flushedBad i k).Sound := by
  have inside : i < s.spawned := sound.inside (by simp [here])
  have hasOut : s.outSem.Has i := sound.outs.relied i (by simp [here, Stage.reliesOut])
  cases k with
  | shake t writing =>
      have hasIn : s.inSem.Has i := sound.ins.relied i (by simp [here, Stage.reliesIn])
      exact sound.goes (g := .done false) here inside rfl
        ⟨fun _ => hasIn, fun _ => hasOut, nofun, nofun⟩ (.inl rfl) rfl rfl rfl
  | shaken t =>
      have hasIn : s.inSem.Has i := sound.ins.relied i (by simp [here, Stage.reliesIn])
      exact sound.goes (g := .done false) here inside rfl
        ⟨fun _ => hasIn, fun _ => hasOut, nofun, nofun⟩ (.inl rfl) rfl rfl rfl
  | write p failing =>
      exact sound.goes (g := .done false) here inside rfl
        ⟨nofun, fun _ => hasOut, nofun, nofun⟩ (.inl rfl) rfl rfl rfl
  | bye b =>
      exact sound.goes (g := .done false) here inside rfl
        ⟨nofun, fun _ => hasOut, nofun, nofun⟩ (.inl rfl) rfl rfl rfl
  | flush =>
      exact sound.goes (g := .done false) here inside rfl
        ⟨nofun, fun _ => hasOut, nofun, nofun⟩ (.inl rfl) rfl rfl rfl

/-- The continuations that do not call gnutls. -/
theorem Sound.plainRun (sound : s.Sound) {c : Call} (next : s.run i c = some s')
    (noCall : ∀ t p b, s.fibers i ≠ .shake t ∧ s.fibers i ≠ .write p b ∧ s.fibers i ≠ .bye) :
    s'.Sound := by
  unfold Session.run at next
  split at next
  all_goals rename_i here
  all_goals try simp only [Option.ite_none_right_eq_some, Option.some.injEq, reduceCtorEq] at next
  all_goals have inside : i < s.spawned := sound.inside (by simp [here])
  · subst next
    rename_i t
    cases t with
    | get => exact sound.get inside (.inr here)
    | put p => exact sound.putAgain here
  · subst next
    rename_i t
    exact sound.goes (g := .shakeIn t) here inside rfl ⟨nofun, nofun, nofun, nofun⟩ (.inr rfl)
      rfl rfl rfl
  · obtain ⟨has, rfl⟩ := next
    rename_i t
    exact sound.goes (g := .shake t) here inside rfl ⟨fun _ => has, nofun, nofun, nofun⟩ (.inr rfl)
      rfl rfl rfl
  · exact absurd here (noCall _ [] false).1
  · subst next
    split
    · exact sound.goes (g := .done true) here inside rfl ⟨nofun, nofun, nofun, nofun⟩ (.inr rfl)
        rfl rfl rfl
    · exact sound.goes (g := .trust .get) here inside rfl ⟨nofun, nofun, nofun, nofun⟩ (.inr rfl)
        rfl rfl rfl
  · exact absurd here (noCall .get _ _).2.1
  · obtain ⟨has, rfl⟩ := next
    exact sound.goes (g := .output .pending .flush) here inside rfl
      ⟨nofun, fun _ => has, nofun, nofun⟩ (.inr rfl) rfl rfl rfl
  · exact absurd here (noCall .get [] false).2.2
  · subst next
    exact sound.goes (g := .drainIn) here inside rfl ⟨nofun, nofun, nofun, nofun⟩ (.inr rfl)
      rfl rfl rfl
  · obtain ⟨has, rfl⟩ := next
    split
    · exact sound.goes (g := .done true) here inside rfl
        ⟨fun _ => has, nofun, nofun, nofun⟩ (.inr rfl) rfl rfl rfl
    · exact sound.goes (g := .drain) here inside rfl ⟨fun _ => has, nofun, nofun, nofun⟩ (.inr rfl)
        rfl rfl rfl
  · subst next
    exact sound.goes (g := .closeIn) here inside rfl ⟨nofun, nofun, nofun, nofun⟩ (.inr rfl)
      rfl rfl rfl
  · obtain ⟨has, rfl⟩ := next
    exact sound.goes (g := .closeOut) here inside rfl ⟨fun _ => has, nofun, nofun, nofun⟩ (.inr rfl)
      rfl rfl rfl
  · obtain ⟨has, rfl⟩ := next
    have hasIn : s.inSem.Has i := sound.ins.relied i (by simp [here, Stage.reliesIn])
    exact sound.goes (g := .done true) here inside rfl
      ⟨fun _ => hasIn, fun _ => has, nofun, nofun⟩ (.inr rfl) rfl rfl rfl
  · subst next
    exact sound.flushedOk here
  · subst next
    exact sound.flushedBad here

/-! ### Calls of gnutls -/

/-- The fiber that has `_out_sem` takes over the output of the call it made. -/
theorem Sound.awaits (sound : s.Sound) {f : Future} {k : OnOutput} (has : s.outSem.Has i)
    (moves : s.Moves s' i (.output f k)) (balance : s'.received = s'.pulled ++ s'.input)
    (less : s.input = [] → s'.input = []) (ready : s'.outputPending = .ready)
    (on : s'.connected = false → s.connected = false) (runs : s'.aborted = s.aborted)
    (shakes : (Stage.output f k).shakes = true → (s.fibers i).shakes = true)
    (plain : s'.Plain) : s'.Sound where
  ins := (sound.locks moves).1
  outs := (sound.locks moves).2
  intake := sound.intake.of_moves moves balance less (by simp [Stage.gets])
  outflow := by
    refine ⟨fun old => absurd ready old, fun off j k' shaking pushing behind => ?_,
      runs ▸ sound.outflow.runs⟩
    have asks : (s.fibers i).asksOut = true := (sound.outs.asked i).mp has.mem
    have ahead : s.outSem.Behind j k' := (moves.behind behind).resolve_right (by simp [asks])
    by_cases last : k' = i
    · subst last
      exact has.not_behind sound.outs.distinct ahead
    · rw [moves.at_other last] at pushing
      refine sound.outflow.first (on off) j k' ?_ pushing ahead
      by_cases here : j = i
      · subst here
        rw [moves.at_self] at shaking
        exact shakes shaking
      · rwa [moves.at_other here] at shaking
  plain := plain
  idle := sound.idle_of moves

/-- A handshake that fails leaves the output of its last call. Nobody is behind it that
would push. -/
theorem Sound.handshakeFails (sound : s.Sound) {t : Task} (here : s.fibers i = .shake t)
    (has : s.outSem.Has i) (off : s.connected = false) (moves : s.Moves s' i (.done false))
    (balance : s'.received = s'.pulled ++ s'.input) (less : s.input = [] → s'.input = [])
    (same : s'.connected = s.connected) (runs : s'.aborted = s.aborted)
    (plain : s'.Plain) : s'.Sound where
  ins := (sound.locks moves).1
  outs := (sound.locks moves).2
  intake := sound.intake.of_moves moves balance less (by simp [Stage.gets])
  outflow := by
    have nobody : ∀ j, (s'.fibers j).pushes = false := by
      intro j
      by_contra pushing
      have pushing : (s'.fibers j).pushes = true := by simpa using pushing
      by_cases same : j = i
      · subst same
        rw [moves.at_self] at pushing
        cases pushing
      · rw [moves.at_other same] at pushing
        have inside := (sound.outs.asked j).mpr (Stage.asksOut_of_pushes pushing)
        exact sound.outflow.first off i j (by simp [here, Stage.shakes]) pushing
          (.of_has has inside same)
    refine ⟨fun _ => ⟨same ▸ off, nobody⟩, fun _ _ k _ pushing => ?_, runs ▸ sound.outflow.runs⟩
    rw [nobody k] at pushing
    cases pushing
  plain := plain
  idle := sound.idle_of moves

theorem Sound.doHandshake (sound : s.Sound) {t : Task} {c : Call} (here : s.fibers i = .shake t)
    (has : s.outSem.Has i) : (s.doHandshake i t c).Sound := by
  have inside : i < s.spawned := sound.inside (by simp [here])
  have hasIn : s.inSem.Has i := sound.ins.relied i (by simp [here, Stage.reliesIn])
  unfold Session.doHandshake
  split
  · exact sound.goes (g := .again t) here inside rfl
      ⟨fun _ => hasIn, fun _ => has, nofun, nofun⟩ (.inr rfl) rfl rfl rfl
  · rename_i off
    have off : s.connected = false := by simpa using off
    obtain ⟨n, f, did, -⟩ := s.does_spec c.does
    obtain ⟨balance, less⟩ := sound.intake.took n
    rw [did]
    split
    · exact sound.awaits (f := f) (k := .shaken t) has
        (.of here inside rfl (fun _ => hasIn) (fun _ => has) rfl) balance less rfl (fun _ => off)
        rfl nofun (sound.plain.of_speaks rfl (.of here rfl (.inr rfl)) rfl)
    · rename_i writing _
      exact sound.awaits (f := f) (k := .shake t writing) has
        (.of here inside rfl (fun _ => hasIn) (fun _ => has) rfl) balance less rfl (fun _ => off)
        rfl (by simp [here, Stage.shakes])
        (sound.plain.of_speaks rfl (.of here rfl (.inr rfl)) rfl)
    all_goals
      exact sound.handshakeFails here has off
        (.of here inside rfl (fun _ => hasIn) (fun _ => has) rfl) balance less rfl rfl
        (sound.plain.of_speaks rfl (.of here rfl (.inl rfl)) rfl)

/-- A packet's fiber sends `x` from the front of what is left. -/
theorem Plain.sends_of (plain : s.Plain) (sound : s.Sound) {x r : List Byte} {g : Stage}
    (fibers : s'.fibers = Function.update s.fibers i g) (has : s.outSem.Has i)
    (sent : s'.sent = s.sent ++ [(i, x)]) (asked : s'.asked = s.asked)
    (before : (s.fibers i).left = some (x ++ r))
    (after : g.left = some r) (stays : g.fresh = false)
    (mine : (s.fibers i).sends = true ∨ (s.fibers i).fresh = true) : s'.Plain := by
  have turns : s'.turns = s.turns ++ [i] := by
    rw [Session.turns, sent, List.map_append, Session.turns]
    rfl
  have own : s'.sentBy i = s.sentBy i ++ x := by
    simp [Session.sentBy, sent, List.filter_append]
  have others : ∀ j, j ≠ i → s'.sentBy j = s.sentBy j := by
    intro j other
    simp [Session.sentBy, sent, List.filter_append, Ne.symm other]
  have last : i ∈ s.turns → s.turns.getLast? = some i := fun mem =>
    mine.elim (fun mid => plain.sends i mid mem) fun new => absurd mem (plain.fresh i new)
  have whole : s.sentBy i ++ (x ++ r) = s.asked i := plain.left i _ before
  refine ⟨fun j => ?_, fun j rest left => ?_, ?_, fun j new => ?_, fun j mid _ => ?_⟩
  · rw [asked]
    by_cases here : j = i
    · subst here
      rw [own, ← whole, ← List.append_assoc]
      exact List.prefix_append _ _
    · rw [others j here]
      exact plain.begins j
  · rw [asked]
    by_cases here : j = i
    · subst here
      rw [fibers, Function.update_self, after] at left
      cases left
      rw [own, ← whole, List.append_assoc]
    · rw [others j here]
      rw [fibers, Function.update_of_ne here] at left
      exact plain.left j rest left
  · rw [turns]
    exact plain.turns.concat last
  · rw [turns]
    by_cases here : j = i
    · subst here
      rw [fibers, Function.update_self, stays] at new
      cases new
    · rw [fibers, Function.update_of_ne here] at new
      have absent := plain.fresh j new
      simp [absent, here]
  · rw [turns, List.getLast?_concat]
    by_cases here : j = i
    · rw [here]
    · rw [fibers, Function.update_of_ne here] at mid
      have holds := sound.outs.relied j (Stage.reliesOut_of_sends mid)
      exact absurd (holds.unique has) here

theorem Sound.doPut (sound : s.Sound) {p : List (List Byte)} {b : Bool} {c : Call}
    (here : s.fibers i = .write p b) (has : s.outSem.Has i) (next : s.doPut i p b c = some s') :
    s'.Sound := by
  have inside : i < s.spawned := sound.inside (by simp [here])
  -- nobody is going to push while an output is left over
  have free : s.outputPending = .ready := by
    by_contra old
    have none := (sound.outflow.stale old).2 i
    simp [here, Stage.pushes] at none
  obtain ⟨n, f, did, -⟩ := s.does_spec c.does
  obtain ⟨balance, less⟩ := sound.intake.took n
  unfold Session.doPut at next
  rw [free] at next
  simp only [Future.available, ne_eq, reduceCtorEq, not_false_eq_true, decide_true, Bool.not_true,
    Bool.and_false, Bool.false_eq_true, if_false] at next
  have sends : (s.fibers i).sends = true ∨ (s.fibers i).fresh = true := by
    cases b <;> simp [here, Stage.sends, Stage.fresh]
  rcases p with _ | ⟨_ | ⟨x, xs⟩, p⟩
  · cases next
    cases b <;>
    exact sound.goes (g := .done true) here inside rfl ⟨nofun, fun _ => has, nofun, nofun⟩
      (.inr rfl) rfl rfl rfl
  · cases next
    cases b <;>
    exact sound.goes (g := .write p true) here inside rfl ⟨nofun, fun _ => has, nofun, nofun⟩
      (.inr rfl) rfl rfl rfl
  · simp only [did] at next
    split at next
    · rename_i m _
      simp only [Option.ite_none_left_eq_some, Option.some.injEq] at next
      obtain ⟨_, rfl⟩ := next
      have cut : (s.fibers i).left =
          some ((x :: xs).take m ++ ((x :: xs).drop m :: p).flatten) := by
        simp [here, Stage.left, ← List.append_assoc]
      exact sound.awaits (f := f) (k := .write ((x :: xs).drop m :: p) false) has
        (.of here inside rfl nofun (fun _ => has) rfl) balance less rfl id rfl nofun
        (sound.plain.sends_of sound rfl has rfl rfl cut rfl rfl sends)
    · cases next
      have keeps : (Stage.write ((x :: xs) :: p) b).keeps (.output f (.write [] true)) = true := by
        cases b <;> rfl
      exact sound.awaits (f := f) (k := .write [] true) has
        (.of here inside rfl nofun (fun _ => has) rfl) balance less rfl id rfl nofun
        (sound.plain.of_speaks rfl (.of here keeps (.inl rfl)) rfl)

theorem Sound.doShutdown (sound : s.Sound) {c : Call} (here : s.fibers i = .bye)
    (has : s.outSem.Has i) : (s.doShutdown i c).Sound := by
  have inside : i < s.spawned := sound.inside (by simp [here])
  obtain ⟨n, f, did, -⟩ := s.does_spec c.does
  obtain ⟨balance, less⟩ := sound.intake.took n
  unfold Session.doShutdown
  split
  · exact sound.goes (g := .byeDone) here inside rfl ⟨nofun, fun _ => has, nofun, nofun⟩
      (.inr rfl) rfl rfl rfl
  · rw [did]
    have speaks (b : Bye) : s.Speaks i (.output f (.bye b)) := .of here rfl (.inr rfl)
    split
    · exact sound.awaits (f := f) (k := .bye .sent) has
        (.of here inside rfl nofun (fun _ => has) rfl) balance less rfl id rfl nofun
        (sound.plain.of_speaks rfl (speaks _) rfl)
    · exact sound.awaits (f := f) (k := .bye .again) has
        (.of here inside rfl nofun (fun _ => has) rfl) balance less rfl id rfl nofun
        (sound.plain.of_speaks rfl (speaks _) rfl)
    all_goals
      exact sound.awaits (f := f) (k := .bye .failed) has
        (.of here inside rfl nofun (fun _ => has) rfl) balance less rfl id rfl nofun
        (sound.plain.of_speaks rfl (speaks _) rfl)

/-- The fiber that has `_in_sem` reads: it pulls, and may find that the other side
asks for a handshake. -/
theorem Sound.reads (sound : s.Sound) (has : s.inSem.Has i) (moves : s.Moves s' i g)
    (balance : s'.received = s'.pulled ++ s'.input) (less : s.input = [] → s'.input = [])
    (same : s'.outputPending = s.outputPending)
    (on : s'.connected = s.connected ∨ s'.connected = false) (runs : s'.aborted = s.aborted)
    (gets : g.gets = false) (pushes : g.pushes = false) (shakes : g.shakes = false)
    (plain : s'.Plain) : s'.Sound where
  ins := (sound.locks moves).1
  outs := (sound.locks moves).2
  intake := sound.intake.of_moves moves balance less (by simp [gets])
  outflow := by
    refine ⟨fun old => ?_, fun _ j k shaking => ?_, runs ▸ sound.outflow.runs⟩
    · rw [same] at old
      obtain ⟨off, nobody⟩ := sound.outflow.stale old
      refine ⟨on.elim (fun same => same ▸ off) id, fun j => ?_⟩
      by_cases here : j = i
      · rw [here, moves.at_self, pushes]
      · rw [moves.at_other here, nobody j]
    · -- whoever shakes hands has `_in_sem`
      by_cases here : j = i
      · rw [here, moves.at_self, shakes] at shaking
        cases shaking
      · rw [moves.at_other here] at shaking
        have holds := sound.ins.relied j (Stage.reliesIn_of_shakes shaking)
        exact absurd (holds.unique has) here
  plain := plain
  idle := sound.idle_of moves

/-- `do_get` has read something, or nothing. -/
theorem Sound.gives (sound : s.Sound) {r : Reader}
    (here : s.fibers i = .read r ∨ s.fibers i = .drain ∧ r = .drain) (has : s.inSem.Has i)
    (n : Nat) (empty eof connected : Bool) (on : connected = s.connected ∨ connected = false) :
    ({ s with
      input := s.input.drop n
      pulled := s.pulled ++ s.input.take n
      eof := eof
      connected := connected }.gives i empty r).Sound := by
  have inside : i < s.spawned := sound.inside (by rcases here with here | ⟨here, _⟩ <;> simp [here])
  obtain ⟨balance, less⟩ := sound.intake.took n
  cases r with
  | get =>
      have here := here.resolve_right (by simp)
      cases empty with
      | true =>
          exact sound.reads (g := .emptied) has (.of here inside rfl (fun _ => has) nofun rfl)
            balance less rfl on rfl rfl rfl rfl
            (sound.plain.of_speaks rfl (.of here rfl (.inr rfl)) rfl)
      | false =>
          exact sound.reads (g := .done true) has (.of here inside rfl (fun _ => has) nofun rfl)
            balance less rfl on rfl rfl rfl rfl
            (sound.plain.of_speaks rfl (.of here rfl (.inr rfl)) rfl)
  | drain =>
      rcases here with here | ⟨here, _⟩ <;>
      exact sound.reads (g := .drain) has (.of here inside rfl (fun _ => has) nofun rfl) balance
        less rfl on rfl rfl rfl rfl (sound.plain.of_speaks rfl (.of here rfl (.inr rfl)) rfl)

theorem Sound.doGet (sound : s.Sound) {r : Reader} {c : Call}
    (here : s.fibers i = .read r ∨ s.fibers i = .drain ∧ r = .drain) (has : s.inSem.Has i)
    (quiet : ∀ op ∈ c.does, op.isPull = true) (next : s.doGet i r c = some s') : s'.Sound := by
  have inside : i < s.spawned := sound.inside (by rcases here with here | ⟨here, _⟩ <;> simp [here])
  obtain ⟨n, f, did, pulls⟩ := s.does_spec c.does
  have pulls := pulls quiet
  subst pulls
  obtain ⟨balance, less⟩ := sound.intake.took n
  unfold Session.doGet at next
  simp only [did] at next
  generalize (if c.pending = 0 then s.input.length else c.pending) = avail at next
  split at next
  · cases next
    split
    · have gives := sound.gives here has 0 true s.eof s.connected (.inl rfl)
      simpa using gives
    · unfold waitForInput
      split
      · rename_i empty
        have empty : s.input = [] := by simpa using empty
        rcases here with here | ⟨here, rfl⟩
        · exact sound.goes (g := .input (.read r)) here inside rfl
            ⟨fun _ => has, nofun, fun _ => empty, nofun⟩ (.inr rfl) rfl rfl rfl
        · exact sound.goes (g := .input (.read .drain)) here inside rfl
            ⟨fun _ => has, nofun, fun _ => empty, nofun⟩ (.inr rfl) rfl rfl rfl
      · rcases here with here | ⟨here, rfl⟩
        · exact sound.goes (g := .read r) here inside rfl ⟨nofun, nofun, nofun, nofun⟩ (.inr rfl)
            rfl rfl rfl
        · exact sound.goes (g := .read .drain) here inside rfl ⟨nofun, nofun, nofun, nofun⟩
            (.inr rfl) rfl rfl rfl
  · split at next
    · simp only [Option.ite_none_left_eq_some, Option.some.injEq] at next
      obtain ⟨_, rfl⟩ := next
      exact sound.gives here has n _ _ s.connected (.inl rfl)
    · cases next
      rcases here with here | ⟨here, rfl⟩
      · exact sound.reads (g := .read r) has (.of here inside rfl nofun nofun rfl) balance less rfl
          (.inl rfl) rfl rfl rfl rfl (sound.plain.of_speaks rfl (.of here rfl (.inr rfl)) rfl)
      · exact sound.reads (g := .read .drain) has (.of here inside rfl nofun nofun rfl) balance less
          rfl (.inl rfl) rfl rfl rfl rfl (sound.plain.of_speaks rfl (.of here rfl (.inr rfl)) rfl)
    · cases next
      exact sound.gives here has n true s.eof false (.inr rfl)
    · cases next
      rcases here with here | ⟨here, rfl⟩ <;>
      exact sound.reads (g := .done false) has (.of here inside rfl (fun _ => has) nofun rfl)
        balance less rfl (.inl rfl) rfl rfl rfl rfl
        (sound.plain.of_speaks rfl (.of here rfl (.inl rfl)) rfl)

/-- `_in.get()` has brought a buffer. Nobody else waits for one. -/
theorem Sound.fed (sound : s.Sound) {k : OnInput} (here : s.fibers i = .input k)
    (moves : s.Moves s' i g) (goes : s.Goes i g) (balance : s'.received = s'.pulled ++ s'.input)
    (same : s'.outputPending = s.outputPending) (connected : s'.connected = s.connected)
    (runs : s'.aborted = s.aborted) (gets : g.gets = false) (plain : s'.Plain) : s'.Sound where
  ins := (sound.locks moves).1
  outs := (sound.locks moves).2
  intake := by
    refine ⟨balance, fun j waits => ?_⟩
    by_cases other : j = i
    · rw [other, moves.at_self, gets] at waits
      cases waits
    · rw [moves.at_other other] at waits
      have holds := sound.ins.relied j (Stage.reliesIn_of_gets waits)
      have holds' := sound.ins.relied i (by simp [here, Stage.reliesIn])
      exact absurd (holds.unique holds') other
  outflow := sound.outflow.of_moves sound moves same connected runs goes.pushes goes.shakes
  plain := plain
  idle := sound.idle_of moves

theorem Sound.arrives (sound : s.Sound) {k : OnInput} (here : s.fibers i = .input k)
    (buf : List Byte) :
    ({ s with
      input := buf
      eof := s.eof || buf.isEmpty
      received := s.received ++ buf }.goto i k.stage).Sound := by
  have inside : i < s.spawned := sound.inside (by simp [here])
  have hasIn : s.inSem.Has i := sound.ins.relied i (by simp [here, Stage.reliesIn])
  have starved := sound.intake.starved i (by simp [here, Stage.gets])
  have balance : s.received ++ buf = s.pulled ++ buf := by
    rw [sound.intake.balance, starved, List.append_nil]
  cases k with
  | shake t =>
      have hasOut : s.outSem.Has i := sound.outs.relied i (by simp [here, Stage.reliesOut])
      exact sound.fed (g := .shake t) here
        (.of here inside rfl (fun _ => hasIn) nofun rfl) (.of here nofun nofun rfl) balance
        rfl rfl rfl rfl (sound.plain.of_speaks rfl (.of here rfl (.inr rfl)) rfl)
  | read r =>
      exact sound.fed (g := .read r) here (.of here inside rfl nofun nofun rfl)
        (.of here nofun nofun rfl) balance rfl rfl rfl rfl
        (sound.plain.of_speaks rfl (.of here rfl (.inr rfl)) rfl)

theorem Sound.spawn (sound : s.Sound) : s.spawn.Sound :=
  ⟨sound.ins, sound.outs, ⟨sound.intake.balance, sound.intake.starved⟩,
    ⟨sound.outflow.stale, sound.outflow.first, sound.outflow.runs⟩,
    ⟨sound.plain.begins, sound.plain.left, sound.plain.turns, sound.plain.fresh,
      sound.plain.sends⟩,
    fun i past => sound.idle i (Nat.le_of_succ_le past)⟩

/-- A new fiber is asked to send `x`. -/
theorem Plain.asks (plain : s.Plain) {x : List Byte} (new : s.fibers i = .idle)
    (fibers : s'.fibers = Function.update s.fibers i g) (sent : s'.sent = s.sent)
    (asked : s'.asked = Function.update s.asked i x) (left : ∀ r, g.left = some r → r = x) :
    s'.Plain := by
  have sentBy : ∀ j, s'.sentBy j = s.sentBy j := fun j => by
    rw [Session.sentBy, sent, Session.sentBy]
  have turns : s'.turns = s.turns := by rw [Session.turns, sent, Session.turns]
  have absent : i ∉ s.turns := plain.fresh i (by simp [new, Stage.fresh])
  have nothing : s.sentBy i = [] := by
    rw [Session.sentBy, List.flatMap_eq_nil_iff]
    rintro ⟨j, y⟩ mem
    obtain ⟨mem, same⟩ := List.mem_filter.mp mem
    exact absurd (List.mem_map.mpr ⟨_, mem, by simpa using same⟩) absent
  refine ⟨fun j => ?_, fun j r rest => ?_, turns ▸ plain.turns, fun j new' => ?_,
    fun j mid mem => ?_⟩
  · rw [sentBy, asked]
    by_cases here : j = i
    · rw [here, nothing]
      exact List.nil_prefix
    · rw [Function.update_of_ne here]
      exact plain.begins j
  · rw [sentBy, asked]
    rw [fibers] at rest
    by_cases here : j = i
    · subst here
      rw [Function.update_self] at rest
      rw [Function.update_self, nothing, left r rest, List.nil_append]
    · rw [Function.update_of_ne here] at rest ⊢
      exact plain.left j r rest
  · rw [turns]
    rw [fibers] at new'
    by_cases here : j = i
    · rwa [here]
    · rw [Function.update_of_ne here] at new'
      exact plain.fresh j new'
  · rw [turns] at mem ⊢
    rw [fibers] at mid
    by_cases here : j = i
    · exact absurd (here ▸ mem) absent
    · rw [Function.update_of_ne here] at mid
      exact plain.sends j mid mem

theorem Sound.putNew (sound : s.Sound) (p : List (List Byte)) :
    ({ s with
      asked := Function.update s.asked s.spawned p.flatten }.spawn.put s.spawned p).Sound := by
  have new : s.spawn.fibers s.spawned = .idle := sound.idle s.spawned (Nat.le_refl _)
  have inside : s.spawned < s.spawn.spawned := Nat.lt_succ_self _
  have begun := sound.spawn
  have asks : ∀ {m : Session} {g : Stage}, m.fibers = Function.update s.spawn.fibers s.spawned g →
      m.sent = s.spawn.sent → m.asked = Function.update s.spawn.asked s.spawned p.flatten →
      (∀ r, g.left = some r → r = p.flatten) → m.Plain := fun fibers sent asked left =>
    begun.plain.asks new fibers sent asked left
  unfold Session.put
  split
  · exact begun.moved (g := .done false) (.of new inside rfl nofun nofun rfl) rfl
      (.of new nofun nofun rfl) (asks rfl rfl rfl (by simp [Stage.left]))
  · split
    · exact begun.moved (g := .trust (.put p)) (.of new inside rfl nofun nofun rfl) rfl
        (.of new nofun nofun rfl) (asks rfl rfl rfl (by simp [Stage.left]))
    · rename_i on
      have on : s.connected = true := by simpa [Session.spawn] using on
      exact begun.moved (g := .write p false) (.of new inside rfl nofun nofun rfl) rfl
        (.of new nofun (fun _ => on) rfl) (asks rfl rfl rfl (by simp [Stage.left]))

theorem Sound.close (sound : s.Sound) : s.close.Sound := by
  unfold Session.close
  split
  · exact sound
  · have here : s.spawn.fibers s.spawned = .idle := sound.idle s.spawned (Nat.le_refl _)
    have inside : s.spawned < s.spawn.spawned := Nat.lt_succ_self _
    have first : ({ s with shutdown := true }.spawn.waitOut s.spawned .bye).Sound :=
      sound.spawn.goes (g := .bye) here inside rfl ⟨nofun, nofun, nofun, nofun⟩ (.inr rfl)
        rfl rfl rfl
    generalize made : { s with shutdown := true }.spawn.waitOut s.spawned .bye = m at first ⊢
    have here : m.spawn.fibers (s.spawned + 1) = .idle := by
      subst made
      exact first.idle _ (Nat.le_refl _)
    have inside : s.spawned + 1 < m.spawn.spawned := by
      subst made
      exact Nat.lt_succ_self _
    exact first.spawn.goes (g := .closing) here inside rfl ⟨nofun, nofun, nofun, nofun⟩ (.inr rfl)
      rfl rfl rfl

theorem Sound.run (sound : s.Sound) {c : Call} (next : s.run i c = some s') : s'.Sound := by
  cases here : s.fibers i with
  | shake t =>
      simp only [Session.run, here, Option.ite_none_right_eq_some, Option.some.injEq] at next
      obtain ⟨has, rfl⟩ := next
      exact sound.doHandshake here has
  | write p begun =>
      simp only [Session.run, here, Option.ite_none_right_eq_some] at next
      exact sound.doPut here next.1 next.2
  | bye =>
      simp only [Session.run, here, Option.ite_none_right_eq_some, Option.some.injEq] at next
      obtain ⟨has, rfl⟩ := next
      exact sound.doShutdown here has
  | _ => exact sound.plainRun next (by simp [here])

theorem Sound.recv (sound : s.Sound) {c : Call} (quiet : ∀ op ∈ c.does, op.isPull = true)
    (next : s.recv i c = some s') : s'.Sound := by
  unfold Session.recv at next
  split at next
  · rename_i r here
    simp only [Option.ite_none_right_eq_some] at next
    exact sound.doGet (.inl here) next.1 quiet next.2
  · rename_i here
    have has : s.inSem.Has i := sound.ins.relied i (by simp [here, Stage.reliesIn])
    split at next
    · cases next
      have inside : i < s.spawned := sound.inside (by simp [here])
      exact sound.goes (g := .done true) here inside rfl ⟨fun _ => has, nofun, nofun, nofun⟩
        (.inr rfl) rfl rfl rfl
    · exact sound.doGet (.inr ⟨here, rfl⟩) has quiet next
  · cases next

theorem Sound.step (sound : s.Sound) {e : Event} (quiet : e.Quiet) (next : s.step e = some s') :
    s'.Sound := by
  have runs := sound.outflow.runs
  unfold Session.step at next
  rw [if_neg (by simp [runs])] at next
  cases e with
  | get =>
      cases next
      exact sound.spawn.get (Nat.lt_succ_self _) (.inl (sound.idle s.spawned (Nat.le_refl _)))
  | put p =>
      cases next
      exact sound.putNew p
  | flush =>
      cases next
      have here : s.spawn.fibers s.spawned = .idle := sound.idle s.spawned (Nat.le_refl _)
      have inside : s.spawned < s.spawn.spawned := Nat.lt_succ_self _
      exact sound.spawn.goes (g := .flush) here inside rfl ⟨nofun, nofun, nofun, nofun⟩ (.inr rfl)
        rfl rfl rfl
  | close =>
      cases next
      exact sound.close
  | run i c => exact sound.run next
  | recv i c => exact sound.recv quiet next
  | distrust i =>
      cases here : s.fibers i with
      | trust t =>
          simp only [here, Option.some.injEq] at next
          subst next
          have inside : i < s.spawned := sound.inside (by simp [here])
          exact sound.goes (g := .done false) here inside rfl ⟨nofun, nofun, nofun, nofun⟩
            (.inl rfl) rfl rfl rfl
      | _ => simp [here] at next
  | arrives i buf =>
      cases here : s.fibers i with
      | input k =>
          simp only [here, Option.some.injEq] at next
          subst next
          exact sound.arrives here buf
      | _ => simp [here] at next
  | inputFails i =>
      cases here : s.fibers i with
      | input k =>
          have inside : i < s.spawned := sound.inside (by simp [here])
          have hasIn : s.inSem.Has i := sound.ins.relied i (by simp [here, Stage.reliesIn])
          cases k with
          | shake t =>
              have hasOut : s.outSem.Has i := sound.outs.relied i (by simp [here, Stage.reliesOut])
              simp only [here, Option.some.injEq] at next
              subst next
              exact sound.goes (g := .done false) here inside rfl
                ⟨fun _ => hasIn, fun _ => hasOut, nofun, nofun⟩ (.inl rfl) rfl rfl rfl
          | read r =>
              simp only [here, Option.some.injEq] at next
              subst next
              exact sound.goes (g := .done false) here inside rfl
                ⟨fun _ => hasIn, nofun, nofun, nofun⟩ (.inl rfl) rfl rfl rfl
      | _ => simp [here] at next
  | flushed i ok =>
      cases here : s.fibers i with
      | output f k =>
          cases f with
          | pending =>
              simp only [here, Option.some.injEq] at next
              subst next
              exact sound.flushed here (outcome ok)
          | _ => simp [here] at next
      | _ => simp [here] at next
  | pushed ok =>
      simp only [Option.ite_none_right_eq_some, Option.some.injEq] at next
      obtain ⟨waits, rfl⟩ := next
      obtain ⟨off, nobody⟩ := sound.outflow.stale (by simp [waits])
      exact ⟨sound.ins, sound.outs, ⟨sound.intake.balance, sound.intake.starved⟩,
        ⟨fun _ => ⟨off, nobody⟩, sound.outflow.first, sound.outflow.runs⟩,
        ⟨sound.plain.begins, sound.plain.left, sound.plain.turns, sound.plain.fresh,
          sound.plain.sends⟩, sound.idle⟩

theorem sound_of_run {es : List Event} (quiet : ∀ e ∈ es, e.Quiet)
    (run : exec Session.step {} es = some s) : s.Sound :=
  Along.invariant (fun _ _ _ sound quiet next => sound.step quiet next) start_sound
    (Along.of_mem quiet _) run

/-! ## The transport is used as its contract says -/

/-- Fiber `i` waits for a buffer it put. -/
def Puts (s : Session) (i : Nat) : Prop := ∃ k, k ≠ .flush ∧ s.fibers i = .output .pending k

/-- In every run: what the transport brought is what gnutls pulled, in that order, and
what is still in the buffer; `_in.get()` is only called when the buffer is empty and no
other call of it is pending, and `_out.put` only when no other is. -/
theorem transport_contract (es : List Event) (s : Session) (quiet : ∀ e ∈ es, e.Quiet)
    (run : exec step {} es = some s) :
    s.received = s.pulled ++ s.input ∧
      (∀ i, (s.fibers i).gets = true → s.input = [] ∧
        ∀ j, (s.fibers j).gets = true → j = i) ∧
      (∀ i, s.Puts i → s.outputPending = .ready ∧ ∀ j, s.Puts j → j = i) := by
  have sound := sound_of_run quiet run
  refine ⟨sound.intake.balance, fun i waits => ⟨sound.intake.starved i waits, fun j other => ?_⟩,
    ?_⟩
  · have has := sound.ins.relied i (Stage.reliesIn_of_gets waits)
    exact (sound.ins.relied j (Stage.reliesIn_of_gets other)).unique has
  · rintro i ⟨k, pushes, here⟩
    refine ⟨?_, fun j other => ?_⟩
    · by_contra old
      have none := (sound.outflow.stale old).2 i
      simp [here, Stage.pushes, pushes] at none
    · obtain ⟨k', _, there⟩ := other
      have has := sound.outs.relied i (by simp [here, Stage.reliesOut])
      exact (sound.outs.relied j (by simp [there, Stage.reliesOut])).unique has

/-- A handshake waits for input and pulls a part of what came. -/
theorem transport_contract_handshake : ∃ s, exec step {} [.get, .run 0 noCall, .run 0 noCall,
      .run 0 ⟨0, [.push .ready, .pull 5], .again false⟩, .run 0 noCall, .arrives 0 [1, 2, 3],
      .run 0 ⟨0, [.pull 2], .done 0⟩] = some s ∧
    s.received = s.pulled ++ s.input ∧ s.input = [3] := by
  refine ⟨_, rfl, ?_, rfl⟩
  exact (transport_contract [.get, .run 0 noCall, .run 0 noCall,
    .run 0 ⟨0, [.push .ready, .pull 5], .again false⟩, .run 0 noCall, .arrives 0 [1, 2, 3],
    .run 0 ⟨0, [.pull 2], .done 0⟩] _ (by simp [Event.Quiet]) rfl).1

/-! ## The assertion of `do_put` -/

/-- The assertion of `do_put` never fails. An output that is not done is either awaited
by a fiber, or the session is not connected and nobody is going to send. -/
theorem put_assertion_holds (es : List Event) (s : Session) (quiet : ∀ e ∈ es, e.Quiet)
    (run : exec step {} es = some s) :
    s.aborted = false ∧ (s.outputPending ≠ .ready →
      s.connected = false ∧ ∀ i, (s.fibers i).pushes = false) := by
  have sound := sound_of_run quiet run
  exact ⟨sound.outflow.runs, sound.outflow.stale⟩

/-- The failed handshake's output is still pending when the session is closed and every
fiber is done: the destructor has an assertion, too, and that one fails. -/
theorem put_assertion_holds_closed : ∃ s, exec step {} [.get, .run 0 noCall, .run 0 noCall,
      .run 0 ⟨0, [.push .pending], .fatal⟩, .close, .run 1 noCall, .run 1 noCall, .run 1 noCall,
      .run 2 noCall, .run 2 noCall, .run 2 noCall] = some s ∧
    s.aborted = false ∧ s.outputPending = .pending ∧
      ∀ i < s.spawned, s.fibers i = .done false ∨ s.fibers i = .done true := by
  refine ⟨_, rfl, ?_, rfl, by decide⟩
  exact (put_assertion_holds [.get, .run 0 noCall, .run 0 noCall,
    .run 0 ⟨0, [.push .pending], .fatal⟩, .close, .run 1 noCall, .run 1 noCall, .run 1 noCall,
    .run 2 noCall, .run 2 noCall, .run 2 noCall] _ (by simp [Event.Quiet]) rfl).1

/-! ## The packets -/

/-- Whatever gnutls takes at a time, and whoever else reads, writes or shakes hands: the
packets are sent one after the other, each from its front, and whole if `put` says so. -/
theorem plaintext_in_order (es : List Event) (s : Session) (quiet : ∀ e ∈ es, e.Quiet)
    (run : exec step {} es = some s) :
    InTurns s.turns ∧ ∀ i, s.sentBy i <+: s.asked i ∧
      (s.fibers i = .done true → s.sentBy i = s.asked i) := by
  have sound := sound_of_run quiet run
  refine ⟨sound.plain.turns, fun i => ⟨sound.plain.begins i, fun here => ?_⟩⟩
  have whole := sound.plain.left i [] (by simp [here, Stage.left])
  rwa [List.append_nil] at whole

/-- A packet of two fragments, the first of which is taken in two parts. -/
theorem plaintext_in_order_parts : ∃ s, exec step {} [.put [[1, 2], [3]], .run 0 noCall,
      .run 0 noCall, .run 0 ⟨0, [], .done 0⟩, .run 0 noCall, .run 0 noCall,
      .run 0 ⟨0, [.push .ready], .done 1⟩, .run 0 noCall, .run 0 ⟨0, [.push .ready], .done 1⟩,
      .run 0 noCall, .run 0 noCall, .run 0 ⟨0, [.push .pending], .done 1⟩, .flushed 0 true,
      .run 0 noCall, .run 0 noCall, .run 0 noCall] = some s ∧
    s.sentBy 0 = s.asked 0 ∧ s.asked 0 = [1, 2, 3] := by
  refine ⟨_, rfl, ?_, rfl⟩
  exact ((plaintext_in_order [.put [[1, 2], [3]], .run 0 noCall, .run 0 noCall,
    .run 0 ⟨0, [], .done 0⟩, .run 0 noCall, .run 0 noCall, .run 0 ⟨0, [.push .ready], .done 1⟩,
    .run 0 noCall, .run 0 ⟨0, [.push .ready], .done 1⟩, .run 0 noCall, .run 0 noCall,
    .run 0 ⟨0, [.push .pending], .done 1⟩, .flushed 0 true, .run 0 noCall, .run 0 noCall,
    .run 0 noCall] _ (by simp [Event.Quiet]) rfl).2 0).2 rfl

/-! ## Somebody can always go on -/

/-- The next continuation of fiber `i` can run, or what it waits for can come. -/
def GoesOn (s : Session) (i : Nat) : Prop :=
  ∃ e : Event, e.Quiet ∧ e.fiber = some i ∧ (s.step e).isSome = true

def Active (s : Session) (i : Nat) : Prop := s.fibers i ≠ .idle ∧ ∀ ok, s.fibers i ≠ .done ok

theorem doPut_isSome (p : List (List Byte)) (begun : Bool) : (s.doPut i p begun noCall).isSome := by
  unfold doPut
  split
  · rfl
  · split <;> rfl

theorem doGet_isSome (r : Reader) : (s.doGet i r noCall).isSome := by
  by_cases nothing : s.input.length = 0 <;> simp [doGet, noCall, nothing]

/-- Only the semaphores can keep a fiber from going on. -/
theorem Sound.goesOn (sound : s.Sound) (active : s.Active i)
    (hasIn : (s.fibers i).asksIn = true → s.inSem.Has i)
    (hasOut : (s.fibers i).asksOut = true → s.outSem.Has i) : s.GoesOn i := by
  have runs := sound.outflow.runs
  cases here : s.fibers i with
  | idle => exact absurd here active.1
  | done ok => exact absurd here (active.2 ok)
  | input k =>
      refine ⟨.arrives i [], trivial, rfl, ?_⟩
      simp [Session.step, runs, here]
  | output f k =>
      cases f with
      | pending =>
          refine ⟨.flushed i true, trivial, rfl, ?_⟩
          simp [Session.step, runs, here]
      | _ =>
          refine ⟨.run i noCall, trivial, rfl, ?_⟩
          simp [Session.step, runs, Session.run, here]
  | read r =>
      have has := hasIn (by simp [here, Stage.asksIn])
      refine ⟨.recv i noCall, by simp [Event.Quiet, noCall], rfl, ?_⟩
      simp [Session.step, runs, Session.recv, here, has, doGet_isSome]
  | drain =>
      refine ⟨.recv i noCall, by simp [Event.Quiet, noCall], rfl, ?_⟩
      cases ended : s.eof <;> simp [Session.step, runs, Session.recv, here, ended, doGet_isSome]
  | write p begun =>
      have has := hasOut (by simp [here, Stage.asksOut])
      refine ⟨.run i noCall, trivial, rfl, ?_⟩
      simp [Session.step, runs, Session.run, here, has, doPut_isSome]
  | _ =>
      refine ⟨.run i noCall, trivial, rfl, ?_⟩
      simp_all [Session.step, Session.run, Stage.asksIn, Stage.asksOut]

/-- The order of the semaphores: who has the first one goes on or asked for the second,
and who has the second one goes on. -/
theorem Sound.exists_goesOn (sound : s.Sound) {q : Semaphore Nat}
    (asked : q = s.inSem ∨ q = s.outSem) (some_ : q ≠ []) : ∃ i, s.GoesOn i := by
  have active : ∀ i, i ∈ s.inSem ∨ i ∈ s.outSem → s.Active i := by
    intro i inside
    rw [sound.ins.asked, sound.outs.asked] at inside
    constructor
    · intro here
      simp [here, Stage.asksIn, Stage.asksOut] at inside
    · intro ok here
      simp [here, Stage.asksIn, Stage.asksOut] at inside
  have second : ∀ i, s.outSem.Has i → s.GoesOn i := fun i has =>
    sound.goesOn (active i (.inr has.mem)) (fun asks => sound.ins.relied i
      (Stage.reliesIn_of_asks asks ((sound.outs.asked i).mp has.mem))) fun _ => has
  have ranked : ∀ (a : Nat) (q : Semaphore Nat) (i : Nat), [s.inSem, s.outSem][a]? = some q →
      q.Has i → s.GoesOn i ∨ ∃ (b : Nat) (q' : Semaphore Nat), a < b ∧
        [s.inSem, s.outSem][b]? = some q' ∧ i ∈ q' := by
    intro a q i there has
    rcases a with _ | _ | a
    · cases there
      by_cases waits : i ∈ s.outSem
      · exact .inr ⟨1, s.outSem, Nat.one_pos, rfl, waits⟩
      · exact .inl (sound.goesOn (active i (.inl has.mem)) (fun _ => has)
          fun asks => absurd ((sound.outs.asked i).mpr asks) waits)
    · cases there
      exact .inl (second i has)
    · cases there
  rcases asked with rfl | rfl
  · exact Semaphore.exists_running ranked (a := 0) rfl some_
  · exact Semaphore.exists_running ranked (a := 1) rfl some_

/-- As long as some operation is under way, a continuation can run or something can come
for which one of them waits: the two semaphores never block each other. -/
theorem never_stuck (es : List Event) (s : Session) (quiet : ∀ e ∈ es, e.Quiet)
    (run : exec step {} es = some s) (i : Nat) (active : s.Active i) : ∃ j, s.GoesOn j := by
  have sound := sound_of_run quiet run
  by_cases first : (s.fibers i).asksIn = true
  · exact sound.exists_goesOn (.inl rfl) (List.ne_nil_of_mem ((sound.ins.asked i).mpr first))
  · by_cases second : (s.fibers i).asksOut = true
    · exact sound.exists_goesOn (.inr rfl) (List.ne_nil_of_mem ((sound.outs.asked i).mpr second))
    · exact ⟨i, sound.goesOn active (fun asks => absurd asks first) fun asks => absurd asks second⟩

/-- A reader has `_in_sem`, a handshake waits for it: a buffer may come. -/
theorem never_stuck_reader : ∃ s : Session, exec step {} [.get, .run 0 noCall, .run 0 noCall,
      .run 0 ⟨0, [], .done 0⟩, .run 0 noCall, .run 0 noCall, .recv 0 noCall, .get, .get] = some s ∧
    ∃ j, s.GoesOn j := by
  refine ⟨_, rfl, ?_⟩
  exact never_stuck [.get, .run 0 noCall, .run 0 noCall, .run 0 ⟨0, [], .done 0⟩, .run 0 noCall,
    .run 0 noCall, .recv 0 noCall, .get, .get] _ (by simp [Event.Quiet, noCall]) rfl 1
    ⟨by decide, fun ok => by cases ok <;> decide⟩

end

end Session

end ActorNet.Net.Tls
