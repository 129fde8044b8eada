import ActorNet.Tcp.Tcb

/-!
# Incoming segments

What a connection does with a segment, by its state: a new one takes a SYN, one
in SYN_SENT the answer to its own, and all others go through the steps of RFC
793. The header has been read already; the packet still begins with it.
-/

namespace ActorNet.Tcp

open Lib Net

namespace Tcb

/-! ## The handshake -/

/-- `init_from_options`. -/
def initFromOptions (hw : HwFeatures) (beyond : Nat → Byte) (th : TcpHdr) (opts : List Byte)
    (t : Tcb) : Tcb :=
  let option := { t.option.parse beyond opts with localMss := localMss hw }
  let window := th.window.setWidth 32 <<< option.remoteWinScale.toNat
  let mss := option.remoteMss.setWidth 32
  let cwnd : BitVec 32 :=
    if 2190 < mss then 2 * mss else if 1095 < mss ∧ mss ≤ 2190 then 3 * mss else 4 * mss
  let t := { t with
    option
    rcv := { t.rcv with windowScale := option.localWinScale, mss := option.localMss }
    snd := { t.snd with
      windowScale := option.remoteWinScale, mss := option.remoteMss
      window, wl1 := th.seq, wl2 := th.ack, cwnd, ssthresh := window } }
  { t with rcv := { t.rcv with window := t.getDefaultReceiveWindowSize } }

/-- How the two handlers of a SYN begin: the options, if the header is there to
be read, and the packet without its header. They use a null header at once, when they
add the length of the fixed part to it; the trim behind that would fail as well. -/
def takeHeader (th : TcpHdr) (p : Impl) (t : Tcb) : Except Tcb (List Byte) :=
  match p.getHeader 0 th.length with
  | .ok (p, some header) =>
      match p.trimFront th.length with
      | .ok _ => .ok (header.drop tcpHdrLen)
      | .error _ => .error (t.fail .trimFront)
  | _ => .error (t.fail .nullHeader)

/-- `input_handle_listen_state`. -/
def inputHandleListenState (hw : HwFeatures) (beyond : Nat → Byte) (iss : TcpSeq) (th : TcpHdr)
    (p : Impl) (t : Tcb) : Tcb :=
  let t := { t with life := .inTable }
  match t.takeHeader th p with
  | .error t => t
  | .ok opts =>
      let t := { t with rcv := { t.rcv with next := th.seq + 1, initial := th.seq } }
      ((t.doSetupIsn iss).initFromOptions hw beyond th opts).enterSyn .synReceived

/-- The SYN of the peer sets RCV.NXT and IRS, and what it acknowledges SND.UNA. -/
def takeSyn (th : TcpHdr) (t : Tcb) : Tcb :=
  { t with
    rcv := { t.rcv with next := th.seq + 1, initial := th.seq }
    snd := { t.snd with
      unacknowledged := if th.fAck then th.ack else t.snd.unacknowledged } }

/-- The fourth check of `input_handle_syn_sent_state`: the SYN bit. -/
def synInSynSent (hw : HwFeatures) (beyond : Nat → Byte) (th : TcpHdr) (opts : List Byte)
    (t : Tcb) : Tcb :=
  if t.snd.initial < (t.takeSyn th).snd.unacknowledged then
    ((t.takeSyn th).initFromOptions hw beyond th opts).doEstablished.output
  else (t.takeSyn th).enterSyn .synReceived

/-- `input_handle_syn_sent_state`. -/
def inputHandleSynSentState (hw : HwFeatures) (beyond : Nat → Byte) (th : TcpHdr) (p : Impl)
    (t : Tcb) : Tcb :=
  match t.takeHeader th p with
  | .error t => t
  | .ok opts =>
      if th.fAck ∧ (th.ack ≤ t.snd.initial ∨ t.snd.next < th.ack) then
        t.request (.respondWithReset th)
      else
        let acceptable := th.fAck && t.snd.unacknowledged ≤ th.ack && th.ack ≤ t.snd.next
        if th.fRst then if acceptable then t.doReset else t
        else if th.fSyn then t.synInSynSent hw beyond th opts
        else t

/-! ## Acknowledgements -/

/-- `update_cwnd`: slow start below `ssthresh`, congestion avoidance above. -/
def updateCwnd (ackedBytes : BitVec 32) (t : Tcb) : Tcb :=
  let smss := t.snd.mss.setWidth 32
  if t.snd.cwnd < t.snd.ssthresh then
    { t with snd := { t.snd with cwnd := t.snd.cwnd + min ackedBytes smss } }
  else if t.snd.cwnd = 0 then t.fail .divisionByZero
  else { t with snd := { t.snd with cwnd := t.snd.cwnd + max 1 (smss * smss / t.snd.cwnd) } }

/-- The loop of `data_segment_acked` over the segments in flight. -/
def wholeSegmentsAcked (segAck : TcpSeq) : List UnackedSegment → Tcb → BitVec 32 × Tcb
  | [], t => (0, { t with snd := { t.snd with data := [] } })
  | seg :: rest, t =>
      if t.snd.unacknowledged + seg.p.length ≤ segAck then
        let acked := BitVec.ofNat 32 seg.p.length
        let t := { t with snd := { t.snd with
          unacknowledged := t.snd.unacknowledged + seg.p.length } }.updateCwnd acked
        let t := { t with snd := { t.snd with
          currentQueueSpace := t.snd.currentQueueSpace - seg.dataLen.setWidth 64 } }.signalSendAvailable
        let (total, t) := wholeSegmentsAcked segAck rest t
        (acked + total, t)
      else (0, { t with snd := { t.snd with data := seg :: rest } })

/-- The end of `data_segment_acked`: a part of the first segment is acknowledged. -/
def partOfSegmentAcked (segAck : TcpSeq) (t : Tcb) : BitVec 32 × Tcb :=
  if t.snd.unacknowledged < segAck then
    let acked := segAck - t.snd.unacknowledged
    let t := match t.snd.data with
      | [] => t
      | seg :: rest =>
          let t := if seg.p.length < acked.toNat then t.fail .trimUnacked else t
          { t with snd := { t.snd with data := { seg with p := seg.p.drop acked.toNat } :: rest } }
    (acked, { t with snd := { t.snd with unacknowledged := segAck } }.updateCwnd acked)
  else (0, t)

/-- `data_segment_acked`. -/
def dataSegmentAcked (segAck : TcpSeq) (t : Tcb) : BitVec 32 × Tcb :=
  let (whole, t) := wholeSegmentsAcked segAck t.snd.data t
  let (part, t) := t.partOfSegmentAcked segAck
  (whole + part, t)

/-- The window a segment advertises. -/
def advertised (th : TcpHdr) (t : Tcb) : BitVec 32 :=
  th.window.setWidth 32 <<< t.snd.windowScale.toNat

/-- `update_window`. -/
def updateWindow (th : TcpHdr) (segSeq : TcpSeq) (t : Tcb) : Tcb :=
  let window := t.advertised th
  { t with
    snd := { t.snd with window, wl1 := segSeq, wl2 := th.ack, zeroWindowProbingOut := 0 }
    persistArmed := decide (window = 0) }

/-- The window is taken from segments that are not older than the last one it
was taken from. -/
def updateWindowIfNewer (th : TcpHdr) (segSeq : TcpSeq) (t : Tcb) : Tcb :=
  if t.snd.wl1 < segSeq ∨ t.snd.wl1 = segSeq ∧ t.snd.wl2 ≤ th.ack then t.updateWindow th segSeq
  else t

/-- `set_retransmit_timer`. -/
def setRetransmitTimer (t : Tcb) : Tcb :=
  if t.snd.data.isEmpty then { t with retransmitArmed := false }.signalAllDataAcked
  else { t with retransmitArmed := true }

/-- An acknowledgement of new data that ends fast recovery. -/
def fullAck (t : Tcb) : Tcb :=
  let smss := t.snd.mss.setWidth 32
  let cwnd := min t.snd.ssthresh (max t.flightSize smss + smss)
  ({ t with snd := { t.snd with cwnd } }.exitFastRecovery).setRetransmitTimer

/-- One that leaves data of the recovery unacknowledged, after the first
segment was sent again. -/
def partialAck (ackedBytes : BitVec 32) (t : Tcb) : Tcb :=
  let smss := t.snd.mss.setWidth 32
  let cwnd := t.snd.cwnd - ackedBytes
  let cwnd := if smss ≤ ackedBytes then cwnd + smss else cwnd
  let t := { t with snd := { t.snd with cwnd, partialAck := t.snd.partialAck + 1 } }
  if t.snd.partialAck = 1 then { t with retransmitArmed := true } else t

/-- What an acknowledgement of new data means for fast recovery. -/
def newDataAcked (hw : HwFeatures) (th : TcpHdr) (ackedBytes : BitVec 32) (t : Tcb) : Tcb :=
  if 3 ≤ t.snd.dupacks then
    if t.snd.recover < th.ack then t.fullAck
    else (t.fastRetransmit hw).partialAck ackedBytes
  else t.exitFastRecovery.setRetransmitTimer

/-- The block for `SND.UNA < SEG.ACK =< SND.NXT`. -/
def ackNewData (hw : HwFeatures) (th : TcpHdr) (segSeq : TcpSeq) (t : Tcb) : Tcb :=
  let (ackedBytes, t) := t.dataSegmentAcked th.ack
  (t.updateWindowIfNewer th segSeq).newDataAcked hw th ackedBytes

/-- Whether a segment is a duplicate acknowledgement in the sense of RFC 5681.
Probes of a closed window that are in flight do not count as data. -/
def isDuplicateAck (th : TcpHdr) (segLen : Nat) (t : Tcb) : Bool :=
  let packetsOut := t.snd.next - t.snd.unacknowledged - t.snd.zeroWindowProbingOut.setWidth 32
  decide (0 < packetsOut.toInt) && !t.snd.data.isEmpty && segLen == 0 && !th.fFin && !th.fSyn &&
    th.ack == t.snd.unacknowledged && t.advertised th == t.snd.window

/-- The third duplicate starts fast recovery, unless it is about older data. -/
def thirdDuplicateAck (hw : HwFeatures) (th : TcpHdr) (t : Tcb) : Tcb :=
  let smss := t.snd.mss.setWidth 32
  let t :=
    if t.snd.recover < th.ack - 1 then
      { t with snd := { t.snd with
        recover := t.snd.next - 1
        ssthresh := max ((t.flightSize - t.snd.limitedTransfer) / 2) (2 * smss) } }.fastRetransmit hw
    else t
  { t with snd := { t.snd with cwnd := t.snd.ssthresh + 3 * smss } }

/-- The block for a duplicate acknowledgement, and whether it lets data go out. -/
def duplicateAck (hw : HwFeatures) (th : TcpHdr) (t : Tcb) : Tcb × Bool :=
  let t := { t with snd := { t.snd with dupacks := t.snd.dupacks + 1 } }
  if t.snd.dupacks = 1 ∨ t.snd.dupacks = 2 then (t, true)
  else if t.snd.dupacks = 3 then (t.thirdDuplicateAck hw th, false)
  else if 3 < t.snd.dupacks then
    ({ t with snd := { t.snd with cwnd := t.snd.cwnd + t.snd.mss.setWidth 32 } }, true)
  else (t, false)

/-- The processing in ESTABLISHED and CLOSE_WAIT, and whether it lets data go
out; an error is the state the handler returns with at once. -/
def ackInEstablished (hw : HwFeatures) (th : TcpHdr) (segSeq : TcpSeq) (segLen : Nat) (t : Tcb) :
    Except Tcb (Tcb × Bool) :=
  if !t.inState [.established, .closeWait] then .ok (t, false)
  else if t.snd.unacknowledged < th.ack ∧ th.ack ≤ t.snd.next then
    .ok (t.ackNewData hw th segSeq, true)
  else if t.isDuplicateAck th segLen then .ok (t.duplicateAck hw th)
  else if t.snd.next < th.ack then .error t.output
  else if t.snd.window = 0 ∧ 0 < th.window then .ok (t.updateWindow th segSeq, true)
  else .ok (t, false)

/-- Our FIN has the number behind the last one sent. -/
def finAcked (th : TcpHdr) (t : Tcb) : Bool := th.ack == t.snd.next + 1

/-- The processing in the states after our FIN. -/
def ackOfFin (th : TcpHdr) (t : Tcb) : Except Tcb Tcb :=
  match t.state with
  | .finWait1 => .ok (if t.finAcked th then { t with state := .finWait2 }.doLocalFinAcked else t)
  | .closing => .error (if t.finAcked th then t.doLocalFinAcked.doTimeWait else t)
  | .lastAck => if t.finAcked th then .error t.doLocalFinAcked.doClosed else .ok t
  | _ => .ok t

/-- SYN_RECEIVED: any acknowledgement between SND.UNA and SND.NXT will do. -/
def ackInSynReceived (th : TcpHdr) (t : Tcb) : Except Tcb Tcb :=
  if t.inState [.synReceived] then
    if t.snd.unacknowledged ≤ th.ack ∧ th.ack ≤ t.snd.next then
      .ok (t.doEstablished.request .addConnectedTcb)
    else .error (t.request (.respondWithReset th))
  else .ok t

/-- The fifth step: check the ACK field. -/
def checkAck (hw : HwFeatures) (th : TcpHdr) (segSeq : TcpSeq) (segLen : Nat) (t : Tcb) :
    Except Tcb (Tcb × Bool) := do
  let t ← t.ackInSynReceived th
  let acked ← t.ackInEstablished hw th segSeq segLen
  let t ← acked.1.ackOfFin th
  .ok (t, acked.2)

/-! ## The segment text and the FIN -/

/-- What `merge_out_of_order` takes from the map. -/
structure Merged where
  next : TcpSeq
  pieces : List (List Byte)
  map : PacketMerger.Map TcpSeq
  within : Bool

/-- The loop of `merge_out_of_order`. -/
def takeMergeable (next : TcpSeq) : PacketMerger.Map TcpSeq → Merged
  | [] => ⟨next, [], [], true⟩
  | (segBeg, p) :: rest =>
      let segEnd := segBeg + p.length
      if segBeg ≤ next ∧ next < segEnd then
        let trim := (next - segBeg).toNat
        let m := takeMergeable (next + (p.length - trim)) rest
        { m with pieces := p.drop trim :: m.pieces, within := m.within && decide (trim ≤ p.length) }
      else if segEnd ≤ next then takeMergeable next rest
      else ⟨next, [], (segBeg, p) :: rest, true⟩

/-- `merge_out_of_order`, and whether anything was merged. -/
def mergeOutOfOrder (t : Tcb) : Bool × Tcb :=
  let m := takeMergeable t.rcv.next t.rcv.outOfOrder
  let size := (m.pieces.map List.length).sum
  let t := if m.within then t else t.fail .trimFront
  (!m.pieces.isEmpty, { t with rcv := { t.rcv with
    next := m.next
    data := t.rcv.data ++ m.pieces
    dataSize := t.rcv.dataSize + BitVec.ofNat 64 size
    outOfOrder := m.map } })

/-- `insert_out_of_order`. -/
def insertOutOfOrder (seg : TcpSeq) (p : List Byte) (t : Tcb) : Tcb :=
  match PacketMerger.merge seg p t.rcv.outOfOrder with
  | some map => { t with rcv := { t.rcv with outOfOrder := map } }
  | none =>
      if (mergeTrims seg p t.rcv.outOfOrder).all fun trim => decide trim.Within then
        t.fail .mergeError
      else t.fail .trimFront

/-- `should_send_ack`. -/
def shouldSendAck (segLen : BitVec 16) (t : Tcb) : Bool × Tcb :=
  let full := segLen == t.rcv.mss
  if t.rcv.mss < segLen ∨ full ∧ 1 ≤ t.nrFullSegReceived then
    (true, { t with nrFullSegReceived := 0, delayedAckArmed := false })
  else
    let nrFullSegReceived := if full then t.nrFullSegReceived + 1 else t.nrFullSegReceived
    (false, { t with nrFullSegReceived, delayedAckArmed := true })

/-- The seventh step: process the segment text, and whether to acknowledge it. -/
def segmentText (data : List Byte) (t : Tcb) : Bool × Tcb :=
  if data.isEmpty then (false, t)
  else
    let t := { t with rcv := { t.rcv with
      dataSize := t.rcv.dataSize + BitVec.ofNat 64 data.length
      data := t.rcv.data ++ [data]
      next := t.rcv.next + data.length } }
    let (merged, t) := t.mergeOutOfOrder
    let t := { t with rcv := { t.rcv with
      window := t.getModifiedReceiveWindowSize } }.signalDataReceived
    if merged then (true, t) else t.shouldSendAck (BitVec.ofNat 16 data.length)

/-- The FIN takes its number, the reader is told, and it is acknowledged at once. -/
def takeFin (finSeq : TcpSeq) (t : Tcb) : Tcb :=
  { t with rcv := { t.rcv with next := finSeq + 1 } }.signalDataReceived.clearDelayedAck.output

/-- The eighth step: check the FIN bit, and whether the segment is still to be
acknowledged; an error is the state the handler returns with. -/
def checkFin (th : TcpHdr) (finSeq : TcpSeq) (doOutput : Bool) (t : Tcb) :
    Except Tcb (Tcb × Bool) :=
  if !th.fFin then .ok (t, doOutput)
  else if t.inState [.closed, .listen, .synSent] then .error t
  else if finSeq = t.rcv.next then
    let t := t.takeFin finSeq
    match t.state with
    | .synReceived | .established => .ok ({ t with state := .closeWait }, false)
    | .finWait1 => .ok ({ t with state := .closing }, false)
    | .finWait2 => .error t.doTimeWait
    | _ => .ok (t, false)
  else .ok (t, doOutput)

/-- The end of `input_handle_other_state`. -/
def outputAfter (doOutput doOutputData : Bool) (t : Tcb) : Tcb :=
  if doOutput then t.clearDelayedAck.output
  else if doOutputData then
    let (canSend, t) := t.canSend
    if canSend ≠ 0 then t.clearDelayedAck.output else t
  else t

/-- The steps from the sixth on. -/
def afterAck (th : TcpHdr) (segSeq : TcpSeq) (data : List Byte) (doOutputData : Bool) (t : Tcb) :
    Tcb :=
  if t.inState [.closeWait, .closing, .lastAck, .timeWait] then t
  else
    let (doOutput, t) :=
      if t.inState [.established, .finWait1, .finWait2] then t.segmentText data else (false, t)
    match t.checkFin th (segSeq + data.length) doOutput with
    | .error t => t
    | .ok (t, doOutput) => t.outputAfter doOutput doOutputData

/-! ## The handler of all other states -/

/-- `segment_acceptable`. -/
def segmentAcceptable (segSeq : TcpSeq) (segLen : Nat) (t : Tcb) : Bool :=
  let right := t.rcv.next + t.rcv.window.toNat
  if segLen = 0 then
    if t.rcv.window = 0 then segSeq == t.rcv.next
    else t.rcv.next ≤ segSeq && segSeq < right
  else if t.rcv.window = 0 then false
  else
    let last := segSeq + segLen - 1
    (t.rcv.next ≤ segSeq && segSeq < right) || (t.rcv.next ≤ last && last < right)

/-- The steps two to eight, for a segment that begins at RCV.NXT. -/
def segmentInOrder (hw : HwFeatures) (th : TcpHdr) (segSeq : TcpSeq) (data : List Byte) (t : Tcb) :
    Tcb :=
  if th.fRst ∧ t.inState [.synReceived] then t.connectFailed.doReset
  else if th.fRst ∧ t.inState [.established, .finWait1, .finWait2, .closeWait] then t.doReset
  else if th.fRst ∧ t.inState [.closing, .lastAck, .timeWait] then t.doClosed
  else if th.fSyn then (t.request (.respondWithReset th)).doReset
  else if !th.fAck then t
  else match t.checkAck hw th segSeq data.length with
    | .error t => t
    | .ok (t, doOutputData) => t.afterAck th segSeq data doOutputData

/-- What lies in front of RCV.NXT and is cut off. -/
def duplicated (segSeq : TcpSeq) (segLen : Nat) (t : Tcb) : Nat :=
  if segSeq < t.rcv.next then min (t.rcv.next - segSeq).toNat segLen else 0

/-- How a segment meets the sequence numbers: its header claims more than there
is, it lies outside the window, or what is left of it begins here. -/
inductive Arrival
  | overrun
  | unacceptable
  | outOfOrder (segSeq : TcpSeq) (p : List Byte)
  | inOrder (segSeq : TcpSeq) (p : List Byte)

/-- The begin of `input_handle_other_state`, up to the first step. -/
def arrival (th : TcpHdr) (p : Impl) (t : Tcb) : Arrival :=
  match p.trimFront th.length with
  | .error _ => .overrun
  | .ok p =>
      if !t.segmentAcceptable th.seq p.len then .unacceptable
      else
        let dup := t.duplicated th.seq p.len
        match p.trimFront dup with
        | .error _ => .overrun
        | .ok p =>
            let segSeq := th.seq + dup
            if segSeq ≠ t.rcv.next then .outOfOrder segSeq p.content else .inOrder segSeq p.content

/-- `input_handle_other_state`. -/
def inputHandleOtherState (hw : HwFeatures) (th : TcpHdr) (p : Impl) (t : Tcb) : Tcb :=
  match t.arrival th p with
  | .overrun => t.fail .trimFront
  | .unacceptable => t.output
  | .outOfOrder segSeq p => (t.insertOutOfOrder segSeq p).output
  | .inOrder segSeq p => t.segmentInOrder hw th segSeq p

end Tcb

end ActorNet.Tcp
