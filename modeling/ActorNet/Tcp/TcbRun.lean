import ActorNet.Lib.Run
import ActorNet.Tcp.Input

/-!
# The runs of a connection

A block is constructed over whatever memory holds, opened by `connect` or by a
SYN for a listener, and then takes segments, calls of its user, timers and the
outcomes of address resolution in any order. The user holds a connection from
the moment `_connect_done` is resolved.
-/

namespace ActorNet.Tcp

open Lib Net

inductive TcbEvent
  | connect (iss : TcpSeq)
  | listen (iss : TcpSeq) (beyond : Nat → Byte) (th : TcpHdr) (p : Impl)
  | segment (beyond : Nat → Byte) (th : TcpHdr) (p : Impl)
  | send (p : List Byte)
  | waitForData
  | read
  | closeRead
  | closeWrite
  | shutdownConnect
  | closeContinuation
  | delayedAck
  | retransmit
  | persist
  | resolved
  | arpQueueFull
  | arpTimeout
  | getPacket

namespace Tcb

/-- The constructor: the fields it does not set keep what is in `memory`. -/
def new (id : ConnId) (memory : Tcb) : Tcb :=
  { id
    snd := {
      unacknowledged := memory.snd.unacknowledged, next := memory.snd.next
      window := memory.snd.window, windowScale := memory.snd.windowScale
      mss := memory.snd.mss, wl1 := memory.snd.wl1, wl2 := memory.snd.wl2
      initial := memory.snd.initial, cwnd := memory.snd.cwnd
      ssthresh := memory.snd.ssthresh, recover := memory.snd.recover }
    rcv := {
      next := memory.rcv.next, window := memory.rcv.window
      windowScale := memory.rcv.windowScale, mss := memory.rcv.mss
      initial := memory.rcv.initial }
    option := { localMss := memory.option.localMss } }

/-- `received`, behind the lookup. -/
def inputHandle (hw : HwFeatures) (beyond : Nat → Byte) (th : TcpHdr) (p : Impl) (t : Tcb) : Tcb :=
  if t.state = .synSent then t.inputHandleSynSentState hw beyond th p
  else t.inputHandleOtherState hw th p

/-- The handlers of the future `output` has from `poll_tcb`. -/
def arpQueueFull (t : Tcb) : Tcb :=
  { t with resolving := t.resolving - 1, pollActive := false, retransmitArmed := true }

def arpTimeout (t : Tcb) : Tcb :=
  let t := { t with resolving := t.resolving - 1 }
  if t.inState [.synSent] then t.connectFailed.cleanup else t

/-- When an event can happen. -/
def enabled (t : Tcb) : TcbEvent → Bool
  | .connect _ | .listen .. => t.life = .fresh
  | .segment .. => t.life = .inTable
  | .send _ | .waitForData | .read | .closeRead => t.connectDone = some true
  | .closeWrite => t.connectDone.isSome
  | .shutdownConnect => t.life ≠ .fresh
  | .closeContinuation => 0 < t.closeReady
  | .delayedAck => t.delayedAckArmed
  | .retransmit => t.retransmitArmed
  | .persist => t.persistArmed
  | .resolved | .arpQueueFull | .arpTimeout => 0 < t.resolving
  | .getPacket => 0 < t.pollTcbs

def handle (hw : HwFeatures) (t : Tcb) : TcbEvent → Tcb
  | .connect iss => t.connect hw iss
  | .listen iss beyond th p => t.inputHandleListenState hw beyond iss th p
  | .segment beyond th p => t.inputHandle hw beyond th p
  | .send p => t.send p
  | .waitForData => t.waitForData
  | .read => t.read.2
  | .closeRead => t.abortReader
  | .closeWrite => t.close
  | .shutdownConnect => t.shutdownConnect
  | .closeContinuation => { t with closeReady := t.closeReady - 1 }.closeContinuation hw
  | .delayedAck => { t with delayedAckArmed := false, nrFullSegReceived := 0 }.output
  | .retransmit => { t with retransmitArmed := false }.retransmit hw
  | .persist => { t with persistArmed := false }.persist hw
  | .resolved => { t with resolving := t.resolving - 1, pollTcbs := t.pollTcbs + 1 }
  | .arpQueueFull => t.arpQueueFull
  | .arpTimeout => t.arpTimeout
  | .getPacket => { t with pollTcbs := t.pollTcbs - 1 }.getPacket hw

/-- One event of a process that has not ended; the requests are met at once. -/
def step (hw : HwFeatures) (t : Tcb) (e : TcbEvent) : Option Tcb :=
  if t.crash = none ∧ t.enabled e then some { t.handle hw e with requests := [] } else none

end Tcb

end ActorNet.Tcp
