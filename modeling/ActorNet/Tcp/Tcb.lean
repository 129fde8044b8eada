import Mathlib.Data.Nat.Basic
import ActorNet.Net.Packet
import ActorNet.Tcp.Header

/-!
# The transmission control block

The state of one connection and what it does on its own: sending, its timers,
the calls of its user. `output` asks for the address of the peer and has the
block polled when it is known; `outputOne` builds a segment. Timers and waits
are kept without their times: an armed timer can fire at any moment.
-/

namespace ActorNet.Tcp

open Lib Net

/-- `tcp_state`. -/
inductive TcpState
  | closed | listen | synSent | synReceived | established | finWait1 | finWait2
  | closeWait | closing | lastAck | timeWait
  deriving DecidableEq, Repr

/-- `hw_features`, as far as TCP reads it. -/
structure HwFeatures where
  rxCsumOffload : Bool
  txTso : Bool
  mtu : BitVec 16
  maxPacketLen : BitVec 16
  deriving DecidableEq, Repr

/-- `unacked_segment`. -/
structure UnackedSegment where
  p : List Byte
  dataLen : BitVec 16
  nrTransmits : Nat
  deriving DecidableEq, Repr

/-- The `send` half. What the constructor leaves unset has no default here. -/
structure Send where
  unacknowledged : TcpSeq
  next : TcpSeq
  window : BitVec 32
  windowScale : Byte
  mss : BitVec 16
  wl1 : TcpSeq
  wl2 : TcpSeq
  initial : TcpSeq
  data : List UnackedSegment := []
  unsent : List (List Byte) := []
  unsentLen : BitVec 32 := 0
  closed : Bool := false
  /-- Somebody waits for all data to be acknowledged, or for room in the queue. -/
  allDataAckedPromise : Bool := false
  sendAvailablePromise : Bool := false
  currentQueueSpace : BitVec 64 := 0
  cwnd : BitVec 32
  ssthresh : BitVec 32
  dupacks : BitVec 16 := 0
  synRetransmit : Nat := 0
  finRetransmit : Nat := 0
  limitedTransfer : BitVec 32 := 0
  partialAck : BitVec 32 := 0
  recover : TcpSeq
  windowProbe : Bool := false
  zeroWindowProbingOut : Byte := 0
  deriving DecidableEq, Repr

/-- A reader: it waits for data, or its wait is over. -/
inductive Reader
  | idle
  | waiting
  | ready
  deriving DecidableEq, Repr

/-- The `receive` half. -/
structure Receive where
  next : TcpSeq
  window : BitVec 32
  windowScale : Byte
  mss : BitVec 16
  initial : TcpSeq
  data : List (List Byte) := []
  dataSize : BitVec 64 := 0
  outOfOrder : PacketMerger.Map TcpSeq := []
  reader : Reader := .idle
  deriving DecidableEq, Repr

/-- What there is a promise of. -/
inductive Promise
  | connect
  | dataReceived
  | allDataAcked
  | sendAvailable
  deriving DecidableEq, Repr

/-- `l4connid`. -/
structure ConnId where
  localIp : BitVec 32
  foreignIp : BitVec 32
  localPort : BitVec 16
  foreignPort : BitVec 16
  deriving DecidableEq, Repr

/-- A segment given to `queue_packet`. -/
structure Segment where
  header : TcpHdr
  options : List Byte
  data : List Byte
  deriving DecidableEq, Repr

/-- What a block asks of the `tcp` it belongs to. -/
inductive Request
  | removeFromTcbs
  | addConnectedTcb
  | respondWithReset (th : TcpHdr)
  deriving DecidableEq, Repr

/-- What ends the process: a null header that is used, a trim of a packet by more
than it holds, received or in flight, `abort` in the merger, the assertions of
`output_one` and of `get_packet`, a division by a congestion window of zero. Of
several faults in a row it is the first. -/
inductive Crash
  | nullHeader
  | trimFront
  | trimUnacked
  | mergeError
  | windowAssertion
  | emptyPacketq
  | divisionByZero
  deriving DecidableEq, Repr

/-- Whether a block has been opened, and is still to be found in `_tcbs`. -/
inductive Life
  | fresh
  | inTable
  | removed
  deriving DecidableEq, Repr

/-- `tcp::tcb`. -/
structure Tcb where
  id : ConnId
  state : TcpState := .closed
  snd : Send
  rcv : Receive
  option : TcpOption
  delayedAckArmed : Bool := false
  retransmitArmed : Bool := false
  persistArmed : Bool := false
  nrFullSegReceived : Nat := 0
  packetq : List Segment := []
  pollActive : Bool := false
  /-- Address resolutions under way, and entries in `_poll_tcbs`. -/
  resolving : Nat := 0
  pollTcbs : Nat := 0
  /-- `_connect_done`: a value, or an exception. -/
  connectDone : Option Bool := none
  /-- Continuations of `close` that are ready to run. -/
  closeReady : Nat := 0
  life : Life := .fresh
  /-- All segments ever queued, all promises ever resolved, and the requests that
  are not met yet. -/
  queued : List Segment := []
  resolved : List Promise := []
  requests : List Request := []
  crash : Option Crash := none
  deriving DecidableEq, Repr

/-- `_max_nr_retransmit`. -/
def maxNrRetransmit : Nat := 5

/-- `max_receive_buf_size`. -/
def maxReceiveBufSize : BitVec 64 := 3737600

/-- `max_queue_space`. -/
def maxQueueSpace : BitVec 64 := 212992

namespace Tcb

/-! ## Conditions and small steps -/

/-- `in_state`. -/
def inState (t : Tcb) (states : List TcpState) : Bool := decide (t.state ∈ states)

def synNeedsOn (t : Tcb) : Bool := t.inState [.synSent, .synReceived]

def finNeedsOn (t : Tcb) : Bool :=
  t.inState [.finWait1, .closing, .lastAck] && t.snd.closed && t.snd.unsentLen == 0

def ackNeedsOn (t : Tcb) : Bool := !t.inState [.closed, .listen, .synSent]

def foreignWillNotSend (t : Tcb) : Bool :=
  t.inState [.closing, .timeWait, .closeWait, .lastAck, .closed]

/-- The process ends here; what the model still computes does not happen. -/
def fail (reason : Crash) (t : Tcb) : Tcb := { t with crash := t.crash <|> some reason }

def request (r : Request) (t : Tcb) : Tcb := { t with requests := t.requests ++ [r] }

/-- `get_default_receive_window_size`: Linux's default window size. -/
def getDefaultReceiveWindowSize (t : Tcb) : BitVec 32 := 29200#32 <<< t.rcv.windowScale.toNat

def getModifiedReceiveWindowSize (t : Tcb) : BitVec 32 :=
  let left : BitVec 32 :=
    if maxReceiveBufSize < t.rcv.dataSize then 0
    else (maxReceiveBufSize - t.rcv.dataSize).setWidth 32
  min left t.getDefaultReceiveWindowSize

/-- `flight_size`. -/
def flightSize (t : Tcb) : BitVec 32 :=
  BitVec.ofNat 32 (t.snd.data.map fun seg => seg.p.length).sum

def localMss (hw : HwFeatures) : BitVec 16 :=
  hw.mtu - BitVec.ofNat 16 tcpHdrLen - BitVec.ofNat 16 ipHdrLenMin

/-- `output`, with the call of `poll_tcb`. -/
def output (t : Tcb) : Tcb :=
  if t.pollActive then t else { t with pollActive := true, resolving := t.resolving + 1 }

/-- The promises that are neither kept nor broken yet. -/
def waits (t : Tcb) : Promise → Bool
  | .connect => t.connectDone.isNone
  | .dataReceived => decide (t.rcv.reader = .waiting)
  | .allDataAcked => t.snd.allDataAckedPromise
  | .sendAvailable => t.snd.sendAvailablePromise

/-- `set_value` or `set_exception`. -/
def resolve (p : Promise) (t : Tcb) : Tcb := { t with resolved := t.resolved ++ [p] }

def signalDataReceived (t : Tcb) : Tcb :=
  if t.rcv.reader = .waiting then
    { t with rcv := { t.rcv with reader := .ready } }.resolve .dataReceived
  else t

def signalAllDataAcked (t : Tcb) : Tcb :=
  if t.snd.allDataAckedPromise && t.snd.unsentLen == 0 then
    { t with snd := { t.snd with allDataAckedPromise := false },
             closeReady := t.closeReady + 1 }.resolve .allDataAcked
  else t

def signalSendAvailable (t : Tcb) : Tcb :=
  if t.snd.sendAvailablePromise && decide (t.snd.currentQueueSpace < maxQueueSpace) then
    { t with snd := { t.snd with sendAvailablePromise := false } }.resolve .sendAvailable
  else t

/-- `clear_delayed_ack`. -/
def clearDelayedAck (t : Tcb) : Tcb := { t with delayedAckArmed := false }

def exitFastRecovery (t : Tcb) : Tcb :=
  { t with snd := { t.snd with dupacks := 0, limitedTransfer := 0, partialAck := 0 } }

/-- `cleanup`. The counter of unsent bytes and the persist timer stay as they are. -/
def cleanup (t : Tcb) : Tcb :=
  { t with
    snd := { t.snd with unsent := [], data := [] }
    rcv := { t.rcv with outOfOrder := [], dataSize := 0, data := [] }
    retransmitArmed := false
    delayedAckArmed := false
    life := .removed }.request .removeFromTcbs

/-- `_connect_done.set_exception`. -/
def connectFailed (t : Tcb) : Tcb := { t with connectDone := some false }.resolve .connect

/-- `do_syn_sent` and `do_syn_received`. -/
def enterSyn (state : TcpState) (t : Tcb) : Tcb := { t with state }.output

def doEstablished (t : Tcb) : Tcb :=
  { t with state := .established, connectDone := some true }.resolve .connect

def doReset (t : Tcb) : Tcb :=
  let t := { t with state := .closed }.cleanup
  { t with
    snd := { t.snd with allDataAckedPromise := false, sendAvailablePromise := false }
    rcv := { t.rcv with reader := if t.rcv.reader = .waiting then .idle else t.rcv.reader }
    resolved := t.resolved ++ [.dataReceived, .allDataAcked, .sendAvailable].filter t.waits }

def doTimeWait (t : Tcb) : Tcb := { t with state := .timeWait }.cleanup

def doClosed (t : Tcb) : Tcb := { t with state := .closed }.cleanup

/-- `do_setup_isn`, with the number `get_isn` computes. -/
def doSetupIsn (iss : TcpSeq) (t : Tcb) : Tcb :=
  { t with snd := { t.snd with
      initial := iss, unacknowledged := iss, next := iss + 1, recover := iss } }

def doLocalFinAcked (t : Tcb) : Tcb :=
  { t with snd := { t.snd with
      unacknowledged := t.snd.unacknowledged + 1, next := t.snd.next + 1 } }

/-! ## Sending -/

/-- `can_send`, which counts what it allows during limited transfer. -/
def canSend (t : Tcb) : BitVec 32 × Tcb :=
  if t.snd.windowProbe then (1, t)
  else if t.snd.window = 0 then (0, t)
  else
    let windowUsed := t.snd.next - t.snd.unacknowledged
    if t.snd.window < windowUsed then (0, t)
    else
      let x := min t.snd.cwnd (min (t.snd.window - windowUsed) t.snd.unsentLen)
      let mss := t.snd.mss.setWidth 32
      if t.snd.dupacks = 1 ∨ t.snd.dupacks = 2 then
        let most := t.snd.cwnd + 2 * mss
        let x := if t.flightSize ≤ most then min x (most - t.flightSize) else 0
        (x, { t with snd := { t.snd with limitedTransfer := t.snd.limitedTransfer + x } })
      else if 3 ≤ t.snd.dupacks then (min mss x, t)
      else (x, t)

/-- The hard case of `get_transmit_packet`: merge packets, possibly split the last. -/
def mergeUnsent (canSend : Nat) (p : List Byte) : List (List Byte) → List Byte × List (List Byte)
  | [] => (p, [])
  | q :: rest =>
      if q.length ≤ canSend then mergeUnsent (canSend - q.length) (p ++ q) rest
      else if canSend = 0 then (p, q :: rest)
      else (p ++ q.take canSend, q.drop canSend :: rest)

/-- The three cases of `get_transmit_packet`; that of one small packet is the
hard case with nothing behind it. -/
def takeUnsent (canSend : Nat) : List (List Byte) → List Byte × List (List Byte)
  | [] => ([], [])
  | p :: rest =>
      if canSend < p.length then (p.take canSend, p.drop canSend :: rest)
      else mergeUnsent (canSend - p.length) p rest

/-- The payload the device or the peer takes at most. -/
def maxPayload (hw : HwFeatures) (t : Tcb) : BitVec 32 :=
  if hw.txTso then
    hw.maxPacketLen.setWidth 32 - BitVec.ofNat 32 tcpHdrLen - BitVec.ofNat 32 ipHdrLenMin
  else (min (localMss hw) t.snd.mss).setWidth 32

def getTransmitPacket (hw : HwFeatures) (t : Tcb) : List Byte × Tcb :=
  if t.snd.unsent.isEmpty then ([], t)
  else
    let (canSend, t) := t.canSend
    let (p, unsent) := takeUnsent (min canSend (t.maxPayload hw)).toNat t.snd.unsent
    (p, { t with snd := { t.snd with
      unsent, unsentLen := t.snd.unsentLen - BitVec.ofNat 32 p.length } })

/-- The header `output_one` writes. -/
def outHeader (t : Tcb) (seq : TcpSeq) : TcpHdr :=
  { srcPort := t.id.localPort
    dstPort := t.id.foreignPort
    seq := seq
    ack := t.rcv.next
    dataOffset := (tcpHdrLen + t.option.getSize t.synNeedsOn t.ackNeedsOn) / 4
    fFin := t.finNeedsOn
    fSyn := t.synNeedsOn
    fRst := false
    fAck := t.ackNeedsOn
    window := (t.rcv.window >>> t.rcv.windowScale.toNat).setWidth 16 }

def queuePacket (s : Segment) (t : Tcb) : Tcb :=
  { t with packetq := t.packetq ++ [s], queued := t.queued ++ [s] }

/-- The data segment joins the retransmission queue, and the timer is started. -/
def rememberSegment (p : List Byte) (t : Tcb) : Tcb :=
  let len := BitVec.ofNat 16 p.length
  if len ≠ 0 ∨ t.synNeedsOn ∨ t.finNeedsOn then
    let data := if len = 0 then t.snd.data else t.snd.data ++ [⟨p, len, 0⟩]
    { t with snd := { t.snd with data }, retransmitArmed := true }
  else t

/-- A segment that is not a retransmission takes the next sequence numbers; if
it acknowledges, the delayed acknowledgement is not needed any more. -/
def takeNumbers (dataRetransmit : Bool) (len : BitVec 16) (t : Tcb) : Tcb :=
  { t with
    delayedAckArmed := t.delayedAckArmed && !t.ackNeedsOn
    snd := { t.snd with
      next := if dataRetransmit then t.snd.next else t.snd.next + len.toNat } }

/-- The assertion of `output_one`: with a window of zero nothing above one byte
may be queued. -/
def checkWindow (len : BitVec 16) (t : Tcb) : Tcb :=
  if 0 < t.snd.window ∨ t.snd.window = 0 ∧ len ≤ 1 then t else t.fail .windowAssertion

/-- `output_one` for a payload. -/
def emit (dataRetransmit : Bool) (p : List Byte) (t : Tcb) : Tcb :=
  let len := BitVec.ofNat 16 p.length
  let seq :=
    if dataRetransmit then t.snd.unacknowledged
    else if t.synNeedsOn then t.snd.initial else t.snd.next
  let t := t.takeNumbers dataRetransmit len
  let segment : Segment := ⟨t.outHeader seq, t.option.fill t.synNeedsOn t.ackNeedsOn, p⟩
  let t := if dataRetransmit then t else t.rememberSegment p
  (t.checkWindow len).queuePacket segment

/-- `output_one`. -/
def outputOne (hw : HwFeatures) (dataRetransmit : Bool) (t : Tcb) : Tcb :=
  if t.state = .closed then t
  else if dataRetransmit then t.emit true ((t.snd.data.map UnackedSegment.p).headD [])
  else
    let (p, t) := t.getTransmitPacket hw
    t.emit false p

/-! ## Timers -/

/-- `output_update_rto`, the times apart. -/
def outputUpdateRto (t : Tcb) : Tcb := { t.output with retransmitArmed := true }

/-- `persist`. -/
def persist (hw : HwFeatures) (t : Tcb) : Tcb :=
  let t := { t with snd := { t.snd with
    windowProbe := true, zeroWindowProbingOut := t.snd.zeroWindowProbingOut + 1 } }
  let t := t.outputOne hw false
  let t := { t with snd := { t.snd with windowProbe := false } }
  { t.output with persistArmed := true }

/-- The last part of `retransmit`: the earliest segment is sent again. -/
def retransmitData (hw : HwFeatures) (t : Tcb) : Tcb :=
  match t.snd.data with
  | [] => t
  | seg :: rest =>
      let smss := t.snd.mss.setWidth 32
      let ssthresh := if seg.nrTransmits = 0 then max (t.flightSize / 2) (2 * smss)
        else t.snd.ssthresh
      let t := { t with snd := { t.snd with
        ssthresh, recover := t.snd.next - 1, cwnd := smss } }.exitFastRecovery
      if seg.nrTransmits < maxNrRetransmit then
        let t := { t with snd := { t.snd with
          data := { seg with nrTransmits := seg.nrTransmits + 1 } :: rest } }
        (t.outputOne hw true).outputUpdateRto
      else t.doReset

def countSyn (t : Tcb) : Tcb :=
  { t with snd := { t.snd with synRetransmit := t.snd.synRetransmit + 1 } }

def countFin (t : Tcb) : Tcb :=
  { t with snd := { t.snd with finRetransmit := t.snd.finRetransmit + 1 } }

/-- The part of `retransmit` about our FIN, and what comes after. -/
def retransmitFin (hw : HwFeatures) (t : Tcb) : Tcb :=
  if t.finNeedsOn then
    if t.snd.finRetransmit < maxNrRetransmit then t.countFin.outputUpdateRto.retransmitData hw
    else t.countFin.cleanup
  else t.retransmitData hw

/-- `retransmit`. -/
def retransmit (hw : HwFeatures) (t : Tcb) : Tcb :=
  if t.synNeedsOn then
    if t.snd.synRetransmit < maxNrRetransmit then t.countSyn.outputUpdateRto.retransmitFin hw
    else t.countSyn.connectFailed.cleanup
  else t.retransmitFin hw

/-- `fast_retransmit`. -/
def fastRetransmit (hw : HwFeatures) (t : Tcb) : Tcb :=
  match t.snd.data with
  | [] => t
  | seg :: rest =>
      let t := { t with snd := { t.snd with
        data := { seg with nrTransmits := seg.nrTransmits + 1 } :: rest } }
      (t.outputOne hw true).output

/-! ## The user and the interface -/

/-- `connect`. -/
def connect (hw : HwFeatures) (iss : TcpSeq) (t : Tcb) : Tcb :=
  let t := { t with life := .inTable }.doSetupIsn iss
  let t := { t with
    option := { t.option with localWinScale := 7, localMss := localMss hw }
    rcv := { t.rcv with windowScale := 7, mss := localMss hw } }
  { t with rcv := { t.rcv with window := t.getDefaultReceiveWindowSize } }.enterSyn .synSent

/-- `wait_for_data`. -/
def waitForData (t : Tcb) : Tcb :=
  { t with rcv := { t.rcv with
    reader := if !t.rcv.data.isEmpty || t.foreignWillNotSend then .ready else .waiting } }

/-- `read`: what it returns, and the state after it. A promise made to a reader
is left as it is. -/
def read (t : Tcb) : List Byte × Tcb :=
  let reader : Reader := if t.rcv.reader = .waiting then .waiting else .idle
  let t' := { t with rcv := { t.rcv with dataSize := 0, data := [], reader } }
  (t.rcv.data.flatten, { t' with rcv := { t'.rcv with window := t'.getDefaultReceiveWindowSize } })

/-- `abort_reader`. -/
def abortReader (t : Tcb) : Tcb :=
  if t.rcv.reader = .waiting then
    { t with rcv := { t.rcv with reader := .idle } }.resolve .dataReceived
  else t

/-- `wait_send_available`. -/
def waitSendAvailable (t : Tcb) : Tcb :=
  { t with snd := { t.snd with sendAvailablePromise :=
      t.snd.sendAvailablePromise || !decide (t.snd.currentQueueSpace < maxQueueSpace) } }

/-- `send`. -/
def send (p : List Byte) (t : Tcb) : Tcb :=
  if t.snd.closed || t.inState [.closed] then t
  else
    let t := { t with snd := { t.snd with
      currentQueueSpace := t.snd.currentQueueSpace + BitVec.ofNat 64 p.length
      unsentLen := t.snd.unsentLen + BitVec.ofNat 32 p.length
      unsent := t.snd.unsent ++ [p] } }
    let (canSend, t) := t.canSend
    (if 0 < canSend then t.output else t).waitSendAvailable

/-- `close`, up to its wait for all data to be acknowledged. -/
def close (t : Tcb) : Tcb :=
  if t.inState [.closed] || t.snd.closed then t
  else if t.snd.data.isEmpty && t.snd.unsentLen == 0 then { t with closeReady := t.closeReady + 1 }
  else { t with snd := { t.snd with allDataAckedPromise := true } }

/-- What `close` does when all data is acknowledged. -/
def closeContinuation (hw : HwFeatures) (t : Tcb) : Tcb :=
  let state : TcpState := match t.state with
    | .closeWait => .lastAck
    | .established => .finWait1
    | state => state
  ({ t with snd := { t.snd with closed := true }, state }.outputOne hw false).output

/-- `connection::shutdown_connect`. -/
def shutdownConnect (t : Tcb) : Tcb :=
  if t.synNeedsOn then t.connectFailed.cleanup else t.abortReader.close

/-- The end of `get_packet`: a packet leaves the queue, and the block asks to be
polled again while it has more to send. -/
def popPacket (t : Tcb) : Tcb :=
  if t.inState [.closed] then t
  else match t.packetq with
    | [] => t.fail .emptyPacketq
    | _ :: rest =>
        let t := { t with packetq := rest }
        if !rest.isEmpty then t.output
        else if t.snd.dupacks < 3 then
          let (canSend, t) := t.canSend
          if 0 < canSend ∧ 0 < t.snd.window then t.output else t
        else t

/-- `get_packet`, for an entry of `_poll_tcbs`. -/
def getPacket (hw : HwFeatures) (t : Tcb) : Tcb :=
  let t := { t with pollActive := false }
  (if t.packetq.isEmpty then t.outputOne hw false else t).popPacket

end Tcb

end ActorNet.Tcp
