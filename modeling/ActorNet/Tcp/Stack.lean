import ActorNet.Lib.BoundedQueue
import ActorNet.Net.Checksum
import ActorNet.Tcp.TcbRun

/-!
# Connections and listeners

The protocol of one cpu: the table of connections, the listeners by port, and
`received`, which finds out whose segment a packet is. Blocks and listeners are
named by the order of their creation, as pointers are in the code; a block that
a SYN made keeps the name of its listener until it is queued for accept.
-/

namespace ActorNet.Tcp

open Lib Net

/-- What `tcp` asks its network interface: the features of the device, its
queues, and whether a connection is steered to this cpu. -/
structure Host where
  hw : HwFeatures
  hwQueuesCount : Nat
  steeredHere : ConnId → Bool
  hostAddress : BitVec 32

/-- A block, and the listener that still waits for it. -/
structure Block where
  tcb : Tcb
  awaits : Option Nat := none
  deriving DecidableEq, Repr

/-- `listener`; one that is destroyed is not `alive`. -/
structure Listener (Q : Type) where
  port : BitVec 16
  q : Q
  pending : BitVec 64 := 0
  alive : Bool := true

/-- A packet of `respond_with_reset`. -/
structure Reset where
  localIp : BitVec 32
  foreignIp : BitVec 32
  header : TcpHdr
  deriving DecidableEq, Repr

/-- The header `respond_with_reset` writes. -/
def resetHeader (rth : TcpHdr) : TcpHdr where
  srcPort := rth.dstPort
  dstPort := rth.srcPort
  seq := if rth.fAck then rth.ack else ⟨0⟩
  ack := if rth.fSyn then rth.seq + 1 else ⟨0⟩
  dataOffset := tcpHdrLen / 4
  fFin := false
  fSyn := false
  fRst := true
  fAck := rth.fSyn
  window := 0

/-- `tcp`. -/
structure Stack (Q : Type) where
  blocks : List Block := []
  tcbs : ConnId → Option Nat := fun _ => none
  listeners : List (Listener Q) := []
  listening : BitVec 16 → Option Nat := fun _ => none
  resets : List Reset := []
  crash : Option Crash := none

variable {Q : Type} [BoundedQueue Nat Q]

namespace Listener

/-- `full`: both sizes are machine words. -/
def full (x : Listener Q) : Bool :=
  decide (BitVec.ofNat 64 (BoundedQueue.capacity x.q) ≤
    x.pending + BitVec.ofNat 64 (BoundedQueue.items x.q).length)

def incPending (x : Listener Q) : Listener Q := { x with pending := x.pending + 1 }

/-- A connection is queued, and is not pending any more. -/
def pushConnected (b : Nat) (x : Listener Q) : Listener Q :=
  { x with q := BoundedQueue.push b x.q, pending := x.pending - 1 }

end Listener

namespace Stack

/-- `respond_with_reset`. -/
def respondWithReset (rth : TcpHdr) (localIp foreignIp : BitVec 32) (s : Stack Q) : Stack Q :=
  if rth.fRst then s
  else { s with resets := s.resets ++ [⟨localIp, foreignIp, resetHeader rth⟩] }

/-- `add_connected_tcb`. -/
def addConnectedTcb (b : Nat) (localPort : BitVec 16) (s : Stack Q) : Stack Q :=
  match s.listening localPort with
  | none => s
  | some l => { s with
      listeners := s.listeners.modify l (Listener.pushConnected b)
      blocks := s.blocks.modify b fun x => { x with awaits := none } }

/-- What a block asks for. -/
def meet (b : Nat) (id : ConnId) (s : Stack Q) : Request → Stack Q
  | .removeFromTcbs => { s with tcbs := Function.update s.tcbs id none }
  | .addConnectedTcb => s.addConnectedTcb b id.localPort
  | .respondWithReset th => s.respondWithReset th id.localIp id.foreignIp

/-- A handler of the block `b` ran. -/
def onTcb (b : Nat) (handler : Tcb → Tcb) (s : Stack Q) : Stack Q :=
  match s.blocks[b]? with
  | none => s
  | some x =>
      let t := handler x.tcb
      t.requests.foldl (meet b t.id) { s with
        blocks := s.blocks.modify b fun x => { x with tcb := { t with requests := [] } }
        crash := t.crash }

/-- A new block enters `_tcbs`, where `insert` leaves an entry alone that is
there already. -/
def insertTcb (id : ConnId) (memory : Tcb) (awaits : Option Nat) (s : Stack Q) : Stack Q :=
  { s with
    blocks := s.blocks ++ [⟨Tcb.new id memory, awaits⟩]
    tcbs := if (s.tcbs id).isSome then s.tcbs
      else Function.update s.tcbs id (some s.blocks.length) }

/-- `inc_pending`. -/
def incPending (l : Nat) (s : Stack Q) : Stack Q :=
  { s with listeners := s.listeners.modify l Listener.incPending }

/-- A SYN for the listener `l` makes a block. -/
def acceptSyn (hw : HwFeatures) (beyond : Nat → Byte) (iss : TcpSeq) (memory : Tcb) (l : Nat)
    (id : ConnId) (h : TcpHdr) (p : Impl) (s : Stack Q) : Stack Q :=
  ((s.insertTcb id memory (some l)).incPending l).onTcb s.blocks.length
    (Tcb.inputHandleListenState hw beyond iss h p)

/-- `received`, for a segment of no connection. -/
def receivedUnknown (hw : HwFeatures) (beyond : Nat → Byte) (iss : TcpSeq) (memory : Tcb)
    (id : ConnId) (h : TcpHdr) (p : Impl) (s : Stack Q) : Stack Q :=
  match s.listening id.localPort with
  | none => s.respondWithReset h id.localIp id.foreignIp
  | some l =>
      if (s.listeners[l]?).any Listener.full then s.respondWithReset h id.localIp id.foreignIp
      else if h.fRst then s
      else if h.fAck then s.respondWithReset h id.localIp id.foreignIp
      else if h.fSyn then s.acceptSyn hw beyond iss memory l id h p
      else s

/-- The checksum of a segment is wrong, where the device does not check it. -/
def checksumFails (hw : HwFeatures) (p : Impl) (src dst : BitVec 32) : Bool :=
  !hw.rxCsumOffload &&
    tcpChecksumOk src dst (p.frags.map fun f => f.bytes p.data) == some false

/-- `received`. -/
def received (hw : HwFeatures) (beyond : Nat → Byte) (iss : TcpSeq) (memory : Tcb) (p : Impl)
    (src dst : BitVec 32) (s : Stack Q) : Stack Q :=
  match p.getHeader 0 tcpHdrLen with
  | .error _ => { s with crash := some .nullHeader }
  | .ok (_, none) => s
  | .ok (p, some th) =>
      let h := TcpHdr.read th
      if h.length < tcpHdrLen then s
      else if checksumFails hw p src dst then s
      else
        let id : ConnId := ⟨dst, src, h.dstPort, h.srcPort⟩
        match s.tcbs id with
        | none => s.receivedUnknown hw beyond iss memory id h p
        | some b => s.onTcb b (Tcb.inputHandle hw beyond h p)

/-- The name of the connection `connect` makes, with a port it has drawn. -/
def connectId (host : Host) (dstIp : BitVec 32) (dstPort srcPort : BitVec 16) : ConnId :=
  ⟨host.hostAddress, dstIp, srcPort, dstPort⟩

/-- The loop of `connect` ends with this draw. -/
def draws (host : Host) (id : ConnId) (s : Stack Q) : Bool :=
  decide (41952 ≤ id.localPort.toNat) &&
    !(decide (1 < host.hwQueuesCount) && (!host.steeredHere id || (s.tcbs id).isSome))

/-- `connect`. -/
def connect (hw : HwFeatures) (iss : TcpSeq) (memory : Tcb) (id : ConnId) (s : Stack Q) : Stack Q :=
  (s.insertTcb id memory none).onTcb s.blocks.length (Tcb.connect hw iss)

/-- `listen`; `emplace` leaves an entry alone that is there already. -/
def listen (port : BitVec 16) (queueLength : BitVec 64) (s : Stack Q) : Stack Q :=
  { s with
    listeners := s.listeners ++ [{ port, q := BoundedQueue.ofCapacity queueLength.toNat }]
    listening := if (s.listening port).isSome then s.listening
      else Function.update s.listening port (some s.listeners.length) }

/-- `~listener`. -/
def destroyListener (l : Nat) (s : Stack Q) : Stack Q :=
  match s.listeners[l]? with
  | none => s
  | some x => { s with
      listeners := s.listeners.modify l fun x => { x with alive := false }
      listening := if x.port = 0 then s.listening else Function.update s.listening x.port none }

/-- `accept`, when there is a connection. -/
def accept (l : Nat) (s : Stack Q) : Stack Q :=
  { s with listeners := s.listeners.modify l fun x => { x with q := BoundedQueue.pop x.q } }

/-- `abort_accept`. -/
def abortAccept (l : Nat) (s : Stack Q) : Stack Q :=
  { s with listeners := s.listeners.modify l fun x => { x with q := BoundedQueue.abort x.q } }

end Stack

/-! ## Runs -/

inductive StackEvent
  | received (beyond : Nat → Byte) (iss : TcpSeq) (memory : Tcb) (p : Impl) (src dst : BitVec 32)
  | connect (iss : TcpSeq) (memory : Tcb) (dstIp : BitVec 32) (dstPort srcPort : BitVec 16)
  | tcb (b : Nat) (e : TcbEvent)
  | listen (port : BitVec 16) (queueLength : BitVec 64)
  | destroyListener (l : Nat)
  | accept (l : Nat)
  | abortAccept (l : Nat)

/-- The events a block meets on its own; the others come from the stack. -/
def TcbEvent.own : TcbEvent → Bool
  | .connect _ | .listen .. | .segment .. => false
  | _ => true

namespace Stack

/-- When an event can happen. -/
def enabled (host : Host) (s : Stack Q) : StackEvent → Bool
  | .received .. | .listen .. => true
  | .connect _ _ dstIp dstPort srcPort => s.draws host (connectId host dstIp dstPort srcPort)
  | .tcb b e => e.own && (s.blocks[b]?).any fun x => x.tcb.enabled e
  | .destroyListener l | .abortAccept l => (s.listeners[l]?).any Listener.alive
  | .accept l =>
      (s.listeners[l]?).any fun x =>
        x.alive && !BoundedQueue.aborted x.q && !(BoundedQueue.items x.q).isEmpty

def handle (host : Host) (s : Stack Q) : StackEvent → Stack Q
  | .received beyond iss memory p src dst => s.received host.hw beyond iss memory p src dst
  | .connect iss memory dstIp dstPort srcPort =>
      s.connect host.hw iss memory (connectId host dstIp dstPort srcPort)
  | .tcb b e => s.onTcb b fun t => t.handle host.hw e
  | .listen port queueLength => s.listen port queueLength
  | .destroyListener l => s.destroyListener l
  | .accept l => s.accept l
  | .abortAccept l => s.abortAccept l

/-- One event of a process that has not ended. -/
def step (host : Host) (s : Stack Q) (e : StackEvent) : Option (Stack Q) :=
  if s.crash = none ∧ s.enabled host e then some (s.handle host e) else none

variable {s : Stack Q} {b : Nat} {id : ConnId}

/-! ## What a handler leaves -/

/-- What every request that is met keeps, they keep together. -/
theorem foldl_meet {I : Stack Q → Prop} {rs : List Request} (holds : I s)
    (kept : ∀ u : Stack Q, ∀ r ∈ rs, I u → I (meet b id u r)) : I (rs.foldl (meet b id) s) := by
  induction rs generalizing s with
  | nil => exact holds
  | cons r rest ih =>
      obtain ⟨first, others⟩ := List.forall_mem_cons.mp (fun r mem => (kept · r mem))
      exact ih (first s holds) fun u r mem => others r mem u

omit [BoundedQueue Nat Q] in
theorem respondWithReset_eq (th : TcpHdr) (localIp foreignIp : BitVec 32) (s : Stack Q) :
    ∃ resets, s.respondWithReset th localIp foreignIp = { s with resets } := by
  unfold respondWithReset
  split
  · exact ⟨s.resets, rfl⟩
  · exact ⟨_, rfl⟩

/-- The connection with some name. -/
def tcb? (s : Stack Q) (j : Nat) : Option Tcb := (s.blocks[j]?).map Block.tcb

theorem addConnectedTcb_frame (port : BitVec 16) (s : Stack Q) :
    (s.addConnectedTcb b port).crash = s.crash ∧
      ∀ j, (s.addConnectedTcb b port).tcb? j = s.tcb? j := by
  unfold addConnectedTcb
  split
  · exact ⟨rfl, fun _ => rfl⟩
  · refine ⟨rfl, fun j => ?_⟩
    unfold tcb?
    dsimp only
    rw [List.getElem?_modify]
    cases s.blocks[j]? with
    | none => rfl
    | some x =>
        show some (Block.tcb (if b = j then _ else x)) = some x.tcb
        split <;> rfl

/-- Meeting a request neither ends the process nor touches a connection. -/
theorem meet_frame (r : Request) (s : Stack Q) :
    (meet b id s r).crash = s.crash ∧ ∀ j, (meet b id s r).tcb? j = s.tcb? j := by
  cases r with
  | removeFromTcbs => exact ⟨rfl, fun _ => rfl⟩
  | addConnectedTcb => exact addConnectedTcb_frame id.localPort s
  | respondWithReset th =>
      obtain ⟨resets, result⟩ := respondWithReset_eq th id.localIp id.foreignIp s
      show (s.respondWithReset th id.localIp id.foreignIp).crash = _ ∧
        ∀ j, (s.respondWithReset th id.localIp id.foreignIp).tcb? j = _
      rw [result]
      exact ⟨rfl, fun _ => rfl⟩

/-- A handler ends the process when it crashes, and changes one connection. -/
theorem onTcb_frame {x : Block} (here : s.blocks[b]? = some x) (handler : Tcb → Tcb) :
    (s.onTcb b handler).crash = (handler x.tcb).crash ∧ ∀ j, (s.onTcb b handler).tcb? j =
      if j = b then some { handler x.tcb with requests := [] } else s.tcb? j := by
  have kept : ∀ u : Stack Q, ∀ r ∈ (handler x.tcb).requests,
      (u.crash = (handler x.tcb).crash ∧ ∀ j, u.tcb? j =
        if j = b then some { handler x.tcb with requests := [] } else s.tcb? j) →
      ((meet b (handler x.tcb).id u r).crash = (handler x.tcb).crash ∧
        ∀ j, (meet b (handler x.tcb).id u r).tcb? j =
          if j = b then some { handler x.tcb with requests := [] } else s.tcb? j) := by
    intro u r _ ⟨crash, blocks⟩
    obtain ⟨crash', blocks'⟩ := @meet_frame Q _ b (handler x.tcb).id r u
    exact ⟨crash'.trans crash, fun j => (blocks' j).trans (blocks j)⟩
  unfold onTcb
  rw [here]
  refine foldl_meet ⟨rfl, fun j => ?_⟩ kept
  unfold tcb?
  dsimp only
  rw [List.getElem?_modify]
  split
  · rename_i same
    subst same
    rw [here, if_pos rfl]
    rfl
  · rename_i other
    rw [if_neg (Ne.symm other)]
    cases s.blocks[j]? <;> rfl

end Stack

end ActorNet.Tcp
