import ActorNet.Tcp.TcbRun

/-!
# What sending leaves alone

Sending moves data and timers, but neither the state of the handshake nor what
was agreed in it, and it asks nothing of the table of connections. `Bearing`
collects what is left alone; each operation has one lemma about it.
-/

namespace ActorNet.Tcp

open Lib Net

/-- The part of a block that acknowledgements and text leave alone as well. -/
structure Standing where
  id : ConnId
  state : TcpState
  life : Life
  connectDone : Option Bool
  requests : List Request
  initial : TcpSeq
  mss : BitVec 16
  windowScale : Byte
  closed : Bool
  rcvWindowScale : Byte
  option : TcpOption

/-- The part of a block that sending leaves alone. -/
structure Bearing extends Standing where
  unacknowledged : TcpSeq
  window : BitVec 32
  rcvNext : TcpSeq

namespace Tcb

variable {t : Tcb} {hw : HwFeatures}

def standing (t : Tcb) : Standing where
  id := t.id
  state := t.state
  life := t.life
  connectDone := t.connectDone
  requests := t.requests
  initial := t.snd.initial
  mss := t.snd.mss
  windowScale := t.snd.windowScale
  closed := t.snd.closed
  rcvWindowScale := t.rcv.windowScale
  option := t.option

def bearing (t : Tcb) : Bearing where
  toStanding := t.standing
  unacknowledged := t.snd.unacknowledged
  window := t.snd.window
  rcvNext := t.rcv.next

@[simp] theorem fail_bearing (t : Tcb) (c : Crash) : (t.fail c).bearing = t.bearing := rfl
@[simp] theorem queuePacket_bearing (t : Tcb) (s : Segment) :
    (t.queuePacket s).bearing = t.bearing := rfl
@[simp] theorem takeNumbers_bearing (t : Tcb) (r : Bool) (len : BitVec 16) :
    (t.takeNumbers r len).bearing = t.bearing := rfl
@[simp] theorem clearDelayedAck_bearing (t : Tcb) : t.clearDelayedAck.bearing = t.bearing := rfl
@[simp] theorem exitFastRecovery_bearing (t : Tcb) : t.exitFastRecovery.bearing = t.bearing := rfl

@[simp] theorem output_bearing (t : Tcb) : t.output.bearing = t.bearing := by
  unfold output
  split <;> rfl

@[simp] theorem canSend_bearing (t : Tcb) : t.canSend.2.bearing = t.bearing := by
  unfold canSend
  dsimp only
  split_ifs <;> rfl

@[simp] theorem getTransmitPacket_bearing (t : Tcb) :
    (t.getTransmitPacket hw).2.bearing = t.bearing := by
  unfold getTransmitPacket
  split
  · rfl
  · exact t.canSend_bearing

@[simp] theorem rememberSegment_bearing (t : Tcb) (p : List Byte) :
    (t.rememberSegment p).bearing = t.bearing := by
  unfold rememberSegment
  dsimp only
  split <;> rfl

@[simp] theorem checkWindow_bearing (t : Tcb) (len : BitVec 16) :
    (t.checkWindow len).bearing = t.bearing := by
  unfold checkWindow
  split <;> rfl

@[simp] theorem emit_bearing (t : Tcb) (r : Bool) (p : List Byte) :
    (t.emit r p).bearing = t.bearing := by
  cases r <;> simp [emit]

@[simp] theorem outputOne_bearing (t : Tcb) (r : Bool) :
    (t.outputOne hw r).bearing = t.bearing := by
  unfold outputOne
  split
  · rfl
  split
  · exact emit_bearing t true _
  · exact (emit_bearing _ false _).trans t.getTransmitPacket_bearing

@[simp] theorem signalDataReceived_bearing (t : Tcb) : t.signalDataReceived.bearing = t.bearing := by
  unfold signalDataReceived
  split <;> rfl

@[simp] theorem signalAllDataAcked_bearing (t : Tcb) : t.signalAllDataAcked.bearing = t.bearing := by
  unfold signalAllDataAcked
  split <;> rfl

@[simp] theorem signalSendAvailable_bearing (t : Tcb) :
    t.signalSendAvailable.bearing = t.bearing := by
  unfold signalSendAvailable
  split <;> rfl

@[simp] theorem waitSendAvailable_bearing (t : Tcb) : t.waitSendAvailable.bearing = t.bearing := rfl

@[simp] theorem setRetransmitTimer_bearing (t : Tcb) : t.setRetransmitTimer.bearing = t.bearing := by
  unfold setRetransmitTimer
  split
  · exact signalAllDataAcked_bearing _
  · rfl

@[simp] theorem fastRetransmit_bearing (t : Tcb) : (t.fastRetransmit hw).bearing = t.bearing := by
  unfold fastRetransmit
  split
  · rfl
  · simp only [output_bearing, outputOne_bearing]
    rfl

@[simp] theorem abortReader_bearing (t : Tcb) : t.abortReader.bearing = t.bearing := by
  unfold abortReader
  split <;> rfl

@[simp] theorem close_bearing (t : Tcb) : t.close.bearing = t.bearing := by
  unfold close
  split
  · rfl
  split <;> rfl

@[simp] theorem waitForData_bearing (t : Tcb) : t.waitForData.bearing = t.bearing := rfl

@[simp] theorem read_bearing (t : Tcb) : t.read.2.bearing = t.bearing := rfl

@[simp] theorem send_bearing (t : Tcb) (p : List Byte) : (t.send p).bearing = t.bearing := by
  unfold send
  split
  · rfl
  dsimp only
  rw [waitSendAvailable_bearing]
  split
  · rw [output_bearing, canSend_bearing]
    rfl
  · exact canSend_bearing _

@[simp] theorem persist_bearing (t : Tcb) : (t.persist hw).bearing = t.bearing := by
  unfold persist
  show (output _).bearing = _
  rw [output_bearing]
  show (outputOne hw false _).bearing = _
  rw [outputOne_bearing]
  rfl

@[simp] theorem popPacket_bearing (t : Tcb) : t.popPacket.bearing = t.bearing := by
  unfold popPacket
  split
  · rfl
  split
  · rfl
  · dsimp only
    split
    · exact output_bearing _
    split
    · split
      · rw [output_bearing, canSend_bearing]
        rfl
      · exact canSend_bearing _
    · rfl

@[simp] theorem getPacket_bearing (t : Tcb) : (t.getPacket hw).bearing = t.bearing := by
  unfold getPacket
  rw [popPacket_bearing]
  split
  · exact outputOne_bearing _ false
  · rfl

/-! ## Acknowledgements and text -/

theorem standing_of_bearing {t' : Tcb} (same : t.bearing = t'.bearing) :
    t.standing = t'.standing :=
  congrArg Bearing.toStanding same

@[simp] theorem updateCwnd_bearing (t : Tcb) (n : BitVec 32) :
    (t.updateCwnd n).bearing = t.bearing := by
  unfold updateCwnd
  dsimp only
  split
  · rfl
  split <;> rfl

theorem wholeSegmentsAcked_standing (segAck : TcpSeq) (segs : List UnackedSegment) (t : Tcb) :
    (wholeSegmentsAcked segAck segs t).2.standing = t.standing := by
  induction segs generalizing t with
  | nil => rfl
  | cons seg rest ih =>
      unfold wholeSegmentsAcked
      split
      · dsimp only
        rw [ih, standing_of_bearing (signalSendAvailable_bearing _)]
        show (updateCwnd _ _).standing = _
        rw [standing_of_bearing (updateCwnd_bearing _ _)]
        rfl
      · rfl

theorem partOfSegmentAcked_standing (segAck : TcpSeq) (t : Tcb) :
    (t.partOfSegmentAcked segAck).2.standing = t.standing := by
  unfold partOfSegmentAcked
  split
  · dsimp only
    rw [standing_of_bearing (updateCwnd_bearing _ _)]
    split
    · rfl
    · split <;> rfl
  · rfl

theorem dataSegmentAcked_standing (segAck : TcpSeq) (t : Tcb) :
    (t.dataSegmentAcked segAck).2.standing = t.standing := by
  unfold dataSegmentAcked
  dsimp only
  rw [partOfSegmentAcked_standing, wholeSegmentsAcked_standing]

theorem updateWindowIfNewer_standing (th : TcpHdr) (segSeq : TcpSeq) (t : Tcb) :
    (t.updateWindowIfNewer th segSeq).standing = t.standing := by
  unfold updateWindowIfNewer
  split <;> rfl

theorem fullAck_bearing (t : Tcb) : t.fullAck.bearing = t.bearing := by
  unfold fullAck
  dsimp only
  rw [setRetransmitTimer_bearing]
  rfl

theorem partialAck_bearing (n : BitVec 32) (t : Tcb) : (t.partialAck n).bearing = t.bearing := by
  unfold partialAck
  dsimp only
  split <;> rfl

theorem newDataAcked_bearing (th : TcpHdr) (n : BitVec 32) (t : Tcb) :
    (t.newDataAcked hw th n).bearing = t.bearing := by
  unfold newDataAcked
  split
  · split
    · exact fullAck_bearing t
    · rw [partialAck_bearing, fastRetransmit_bearing]
  · rw [setRetransmitTimer_bearing, exitFastRecovery_bearing]

theorem ackNewData_standing (th : TcpHdr) (segSeq : TcpSeq) (t : Tcb) :
    (t.ackNewData hw th segSeq).standing = t.standing := by
  unfold ackNewData
  dsimp only
  rw [standing_of_bearing (newDataAcked_bearing _ _ _), updateWindowIfNewer_standing,
    dataSegmentAcked_standing]

theorem thirdDuplicateAck_bearing (th : TcpHdr) (t : Tcb) :
    (t.thirdDuplicateAck hw th).bearing = t.bearing := by
  unfold thirdDuplicateAck
  dsimp only
  split
  · exact fastRetransmit_bearing _
  · rfl

theorem duplicateAck_bearing (th : TcpHdr) (t : Tcb) :
    (t.duplicateAck hw th).1.bearing = t.bearing := by
  unfold duplicateAck
  dsimp only
  split
  · rfl
  split
  · exact thirdDuplicateAck_bearing th _
  split <;> rfl

/-- The state a step ends in, whether its handler goes on or returns. -/
def reached : Except Tcb (Tcb × Bool) → Tcb
  | .ok r => r.1
  | .error t => t

theorem reached_ok (t : Tcb) (b : Bool) : reached (.ok (t, b)) = t := rfl

/-- What the processing in ESTABLISHED and CLOSE_WAIT can leave: the state as it
was, or with new data acknowledged, a duplicate counted, an answer to what acks
data that was not sent, or a window opened. -/
theorem reached_ackInEstablished {P : Tcb → Prop} {t : Tcb} {th : TcpHdr} {segSeq : TcpSeq}
    {segLen : Nat} (idle : P t)
    (advances : t.inState [.established, .closeWait] = true →
      t.snd.unacknowledged < th.ack ∧ th.ack ≤ t.snd.next → P (t.ackNewData hw th segSeq))
    (repeats : t.inState [.established, .closeWait] = true →
      ¬(t.snd.unacknowledged < th.ack ∧ th.ack ≤ t.snd.next) →
      t.isDuplicateAck th segLen = true → P (t.duplicateAck hw th).1)
    (unsent : P t.output) (opens : P (t.updateWindow th segSeq)) :
    P (reached (t.ackInEstablished hw th segSeq segLen)) := by
  unfold ackInEstablished
  split
  · exact idle
  rename_i here
  rw [Bool.not_eq_true, Bool.not_eq_false'] at here
  split
  · rename_i new
    rw [reached_ok]
    exact advances here new
  rename_i old
  split
  · rename_i duplicate
    exact repeats here old duplicate
  split
  · exact unsent
  split
  · rw [reached_ok]
    exact opens
  · exact idle

/-- The end of a handler that may return early. -/
def ended : Except Tcb Tcb → Tcb
  | .ok t => t
  | .error t => t

theorem ackInSynReceived_past (th : TcpHdr) (past : t.inState [.synReceived] = false) :
    t.ackInSynReceived th = .ok t := by
  unfold ackInSynReceived
  rw [past]
  rfl

/-- What the three steps of `checkAck` keep one after the other, whichever of
them returns, its whole keeps. -/
theorem checkAck_of_steps {P : Tcb → Prop} {th : TcpHdr} {segSeq : TcpSeq} {segLen : Nat}
    (first : P (ended (t.ackInSynReceived th)))
    (middle : ∀ u, t.ackInSynReceived th = .ok u → P u →
      P (reached (u.ackInEstablished hw th segSeq segLen)))
    (last : ∀ u, P u → P (ended (u.ackOfFin th))) :
    P (reached (t.checkAck hw th segSeq segLen)) := by
  unfold checkAck
  cases opened : t.ackInSynReceived th with
  | error u =>
      rw [opened] at first
      exact first
  | ok u =>
      rw [opened] at first
      have middle := middle u opened first
      show P (reached (Except.bind (u.ackInEstablished hw th segSeq segLen) _))
      cases result : u.ackInEstablished hw th segSeq segLen with
      | error v =>
          rw [result] at middle
          exact middle
      | ok v =>
          rw [result] at middle
          have last := last v.1 middle
          show P (reached (Except.bind (v.1.ackOfFin th) _))
          cases final : v.1.ackOfFin th with
          | error w =>
              rw [final] at last
              exact last
          | ok w =>
              rw [final] at last
              exact last

theorem ackInEstablished_standing (th : TcpHdr) (segSeq : TcpSeq) (segLen : Nat) (t : Tcb) :
    (reached (t.ackInEstablished hw th segSeq segLen)).standing = t.standing := by
  refine @reached_ackInEstablished hw (fun u => u.standing = t.standing) t th segSeq segLen rfl
    ?_ ?_ ?_ rfl
  · exact fun _ _ => ackNewData_standing th segSeq t
  · exact fun _ _ _ => standing_of_bearing (duplicateAck_bearing th t)
  · exact standing_of_bearing (output_bearing t)

theorem mergeOutOfOrder_standing (t : Tcb) : t.mergeOutOfOrder.2.standing = t.standing := by
  unfold mergeOutOfOrder
  dsimp only
  split <;> rfl

theorem insertOutOfOrder_bearing (seg : TcpSeq) (p : List Byte) (t : Tcb) :
    (t.insertOutOfOrder seg p).bearing = t.bearing := by
  unfold insertOutOfOrder
  split
  · rfl
  split <;> rfl

theorem shouldSendAck_bearing (n : BitVec 16) (t : Tcb) : (t.shouldSendAck n).2.bearing = t.bearing := by
  unfold shouldSendAck
  dsimp only
  split <;> rfl

theorem segmentText_standing (data : List Byte) (t : Tcb) :
    (t.segmentText data).2.standing = t.standing := by
  unfold segmentText
  split
  · rfl
  dsimp only
  split
  · rw [standing_of_bearing (signalDataReceived_bearing _)]
    exact mergeOutOfOrder_standing _
  · rw [standing_of_bearing (shouldSendAck_bearing _ _),
      standing_of_bearing (signalDataReceived_bearing _)]
    exact mergeOutOfOrder_standing _

theorem outputAfter_bearing (doOutput doOutputData : Bool) (t : Tcb) :
    (t.outputAfter doOutput doOutputData).bearing = t.bearing := by
  unfold outputAfter
  split
  · exact output_bearing _
  split
  · dsimp only
    split
    · rw [output_bearing]
      exact canSend_bearing t
    · exact canSend_bearing t
  · rfl

/-- What is done behind the text: the FIN, and the output at the end. -/
def finish (th : TcpHdr) (segEnd : TcpSeq) (doOutput doOutputData : Bool) (t : Tcb) : Tcb :=
  match t.checkFin th segEnd doOutput with
  | .error t => t
  | .ok (t, doOutput) => t.outputAfter doOutput doOutputData

/-- The rule for the steps behind an acknowledgement: all of them keep what the
text, the FIN and the output at the end keep. -/
theorem afterAck_of_steps {P : Tcb → Prop} {th : TcpHdr} {segSeq : TcpSeq} {data : List Byte}
    (doOutputData : Bool) (before : P t)
    (text : t.inState [.established, .finWait1, .finWait2] = true → P (t.segmentText data).2)
    (fin : ∀ u doOutput, P u → P (reached (u.checkFin th (segSeq + data.length) doOutput)))
    (after : ∀ u doOutput, P u → P (u.outputAfter doOutput doOutputData)) :
    P (t.afterAck th segSeq data doOutputData) := by
  have ending : ∀ (doOutput : Bool) (u : Tcb), P u →
      P (u.finish th (segSeq + data.length) doOutput doOutputData) := by
    intro doOutput u kept
    have checked := fin u doOutput kept
    unfold finish
    split
    · rename_i stopped
      rw [stopped] at checked
      exact checked
    · rename_i goes
      rw [goes] at checked
      exact after _ _ checked
  unfold afterAck
  split
  · exact before
  cases here : t.inState [.established, .finWait1, .finWait2] with
  | true => exact ending _ _ (text here)
  | false => exact ending false t before

/-- So it is for the acknowledgement with the steps behind it. -/
theorem checked_of_steps {P : Tcb → Prop} {th : TcpHdr} {segSeq : TcpSeq} {data : List Byte}
    (acked : P (reached (t.checkAck hw th segSeq data.length)))
    (after : ∀ u doOutputData, P u → P (u.afterAck th segSeq data doOutputData)) :
    P (match t.checkAck hw th segSeq data.length with
      | .error u => u
      | .ok (u, doOutputData) => u.afterAck th segSeq data doOutputData) := by
  split
  · rename_i stopped
    rw [stopped] at acked
    exact acked
  · rename_i goes
    rw [goes] at acked
    exact after _ _ acked

/-- A segment that gets as far as its acknowledgement is not a reset, unless
there is nothing to reset. -/
theorem segmentInOrder_of_ack {P : Tcb → Prop} {th : TcpHdr} {segSeq : TcpSeq} {data : List Byte}
    (failed : P t.connectFailed.doReset) (reset : P t.doReset) (closed : P t.doClosed)
    (syn : P (t.request (.respondWithReset th)).doReset) (dropped : P t)
    (acked : (th.fRst = true →
        t.inState [.synReceived] = false ∧ t.inState [.established, .closeWait] = false) →
      th.fSyn = false → th.fAck = true → P (match t.checkAck hw th segSeq data.length with
        | .error t => t
        | .ok (t, doOutputData) => t.afterAck th segSeq data doOutputData)) :
    P (t.segmentInOrder hw th segSeq data) := by
  unfold segmentInOrder
  split
  · exact failed
  rename_i noRst₁
  split
  · exact reset
  rename_i noRst₂
  split
  · exact closed
  split
  · exact syn
  rename_i noSyn
  split
  · exact dropped
  rename_i ack
  refine acked (fun rst => ?_) (by simpa using noSyn) (by simpa using ack)
  simp only [rst, true_and, inState, decide_eq_true_eq] at noRst₁ noRst₂
  simp only [inState, decide_eq_false_iff_not]
  refine ⟨noRst₁, fun here => noRst₂ ?_⟩
  simp only [List.mem_cons, List.not_mem_nil, or_false] at here ⊢
  rcases here with h | h
  · exact .inl h
  · exact .inr (.inr (.inr h))

theorem takeFin_standing (finSeq : TcpSeq) (t : Tcb) :
    (t.takeFin finSeq).standing = t.standing := by
  unfold takeFin
  rw [standing_of_bearing (output_bearing _), standing_of_bearing (clearDelayedAck_bearing _),
    standing_of_bearing (signalDataReceived_bearing _)]
  rfl

end Tcb

end ActorNet.Tcp
