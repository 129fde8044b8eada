import ActorNet.Tcp.Onward

/-!
# Being polled

A block that wants to send calls `output`, which asks for one poll unless one is
on its way already. `Wire` is the part of a block the interface sees: the poll
and the packets. Each operation leaves it alone, asks for a poll, or builds a
segment; so no block ever waits for two polls at once.
-/

namespace ActorNet.Tcp

open Lib Net

/-- What has to do with the poll of a block. -/
structure Polls where
  pollActive : Bool
  resolving : Nat
  pollTcbs : Nat

/-- What the interface sees of a block. -/
structure Wire extends Polls where
  packetq : List Segment
  queued : List Segment

namespace Tcb

variable {t t' t'' : Tcb} {hw : HwFeatures}

def polls (t : Tcb) : Polls := ⟨t.pollActive, t.resolving, t.pollTcbs⟩

def wire (t : Tcb) : Wire := ⟨t.polls, t.packetq, t.queued⟩

theorem polls_of_wire (same : t'.wire = t.wire) : t'.polls = t.polls :=
  congrArg Wire.toPolls same

/-! ## What is not seen outside -/

@[simp] theorem fail_wire (t : Tcb) (c : Crash) : (t.fail c).wire = t.wire := rfl
@[simp] theorem request_wire (t : Tcb) (r : Request) : (t.request r).wire = t.wire := rfl
@[simp] theorem clearDelayedAck_wire (t : Tcb) : t.clearDelayedAck.wire = t.wire := rfl
@[simp] theorem exitFastRecovery_wire (t : Tcb) : t.exitFastRecovery.wire = t.wire := rfl
@[simp] theorem takeNumbers_wire (t : Tcb) (r : Bool) (len : BitVec 16) :
    (t.takeNumbers r len).wire = t.wire := rfl
@[simp] theorem cleanup_wire (t : Tcb) : t.cleanup.wire = t.wire := rfl
@[simp] theorem doReset_wire (t : Tcb) : t.doReset.wire = t.wire := rfl

@[simp] theorem canSend_wire (t : Tcb) : t.canSend.2.wire = t.wire := by
  unfold canSend
  dsimp only
  split_ifs <;> rfl

@[simp] theorem getTransmitPacket_wire (t : Tcb) : (t.getTransmitPacket hw).2.wire = t.wire := by
  unfold getTransmitPacket
  split
  · rfl
  · exact canSend_wire t

@[simp] theorem rememberSegment_wire (t : Tcb) (p : List Byte) :
    (t.rememberSegment p).wire = t.wire := by
  unfold rememberSegment
  dsimp only
  split <;> rfl

@[simp] theorem checkWindow_wire (t : Tcb) (len : BitVec 16) :
    (t.checkWindow len).wire = t.wire := by
  unfold checkWindow
  split <;> rfl

@[simp] theorem signalDataReceived_wire (t : Tcb) : t.signalDataReceived.wire = t.wire := by
  unfold signalDataReceived
  split <;> rfl

@[simp] theorem signalAllDataAcked_wire (t : Tcb) : t.signalAllDataAcked.wire = t.wire := by
  unfold signalAllDataAcked
  split <;> rfl

@[simp] theorem signalSendAvailable_wire (t : Tcb) : t.signalSendAvailable.wire = t.wire := by
  unfold signalSendAvailable
  split <;> rfl

@[simp] theorem setRetransmitTimer_wire (t : Tcb) : t.setRetransmitTimer.wire = t.wire := by
  unfold setRetransmitTimer
  split
  · exact signalAllDataAcked_wire _
  · rfl

@[simp] theorem updateCwnd_wire (t : Tcb) (n : BitVec 32) : (t.updateCwnd n).wire = t.wire := by
  unfold updateCwnd
  dsimp only
  split
  · rfl
  split <;> rfl

@[simp] theorem wholeSegmentsAcked_wire (segAck : TcpSeq) (segs : List UnackedSegment) (t : Tcb) :
    (wholeSegmentsAcked segAck segs t).2.wire = t.wire := by
  induction segs generalizing t with
  | nil => rfl
  | cons seg rest ih =>
      unfold wholeSegmentsAcked
      split
      · dsimp only
        rw [ih, signalSendAvailable_wire]
        show (updateCwnd _ _).wire = _
        rw [updateCwnd_wire]
        rfl
      · rfl

@[simp] theorem partOfSegmentAcked_wire (segAck : TcpSeq) (t : Tcb) :
    (t.partOfSegmentAcked segAck).2.wire = t.wire := by
  unfold partOfSegmentAcked
  split
  · dsimp only
    rw [updateCwnd_wire]
    split
    · rfl
    · split <;> rfl
  · rfl

@[simp] theorem dataSegmentAcked_wire (segAck : TcpSeq) (t : Tcb) :
    (t.dataSegmentAcked segAck).2.wire = t.wire := by
  unfold dataSegmentAcked
  dsimp only
  rw [partOfSegmentAcked_wire, wholeSegmentsAcked_wire]

@[simp] theorem updateWindowIfNewer_wire (th : TcpHdr) (segSeq : TcpSeq) (t : Tcb) :
    (t.updateWindowIfNewer th segSeq).wire = t.wire := by
  unfold updateWindowIfNewer
  split <;> rfl

@[simp] theorem fullAck_wire (t : Tcb) : t.fullAck.wire = t.wire := by
  unfold fullAck
  dsimp only
  rw [setRetransmitTimer_wire]
  rfl

@[simp] theorem partialAck_wire (n : BitVec 32) (t : Tcb) : (t.partialAck n).wire = t.wire := by
  unfold partialAck
  dsimp only
  split <;> rfl

@[simp] theorem mergeOutOfOrder_wire (t : Tcb) : t.mergeOutOfOrder.2.wire = t.wire := by
  unfold mergeOutOfOrder
  dsimp only
  split <;> rfl

@[simp] theorem insertOutOfOrder_wire (seg : TcpSeq) (p : List Byte) (t : Tcb) :
    (t.insertOutOfOrder seg p).wire = t.wire := by
  unfold insertOutOfOrder
  split
  · rfl
  split <;> rfl

@[simp] theorem shouldSendAck_wire (n : BitVec 16) (t : Tcb) :
    (t.shouldSendAck n).2.wire = t.wire := by
  unfold shouldSendAck
  dsimp only
  split <;> rfl

@[simp] theorem segmentText_wire (data : List Byte) (t : Tcb) :
    (t.segmentText data).2.wire = t.wire := by
  unfold segmentText
  split
  · rfl
  dsimp only
  split
  · rw [signalDataReceived_wire]
    exact mergeOutOfOrder_wire _
  · rw [shouldSendAck_wire, signalDataReceived_wire]
    exact mergeOutOfOrder_wire _

@[simp] theorem abortReader_wire (t : Tcb) : t.abortReader.wire = t.wire := by
  unfold abortReader
  split <;> rfl

@[simp] theorem close_wire (t : Tcb) : t.close.wire = t.wire := by
  unfold close
  split
  · rfl
  split <;> rfl

theorem ackOfFin_wire (th : TcpHdr) (t : Tcb) : (ended (t.ackOfFin th)).wire = t.wire := by
  unfold ackOfFin
  split
  · dsimp only [ended]
    split <;> rfl
  · dsimp only [ended]
    split <;> rfl
  · split <;> rfl
  · rfl

theorem ackInSynReceived_wire (th : TcpHdr) (t : Tcb) :
    (ended (t.ackInSynReceived th)).wire = t.wire := by
  unfold ackInSynReceived
  split
  · split <;> rfl
  · rfl

theorem takeHeader_wire {th : TcpHdr} {p : Impl} (failed : t.takeHeader th p = .error t') :
    t'.wire = t.wire := by
  rcases takeHeader_error failed with rfl | rfl <;> rfl

/-! ## The poll -/

/-- A block that has done nothing about its poll, or has asked for one. -/
def AsksPoll (t t' : Tcb) : Prop := t'.polls = t.polls ∨ t'.polls = t.output.polls

theorem output_polls (t : Tcb) : t.output.polls =
    if t.pollActive then t.polls else ⟨true, t.resolving + 1, t.pollTcbs⟩ := by
  unfold output
  split <;> rfl

theorem output_polls_congr (same : t'.polls = t.polls) : t'.output.polls = t.output.polls := by
  have active : t'.pollActive = t.pollActive := congrArg Polls.pollActive same
  have resolving : t'.resolving = t.resolving := congrArg Polls.resolving same
  have pollTcbs : t'.pollTcbs = t.pollTcbs := congrArg Polls.pollTcbs same
  rw [output_polls, output_polls, same, active, resolving, pollTcbs]

/-- Who is to be polled already does not ask again. -/
theorem output_output_polls (t : Tcb) : t.output.output.polls = t.output.polls := by
  rw [output_polls t.output]
  have active : t.output.pollActive = true := by
    unfold output
    split
    · assumption
    · rfl
  rw [if_pos active]

namespace AsksPoll

theorem of_polls (same : t'.polls = t.polls) : AsksPoll t t' := .inl same

theorem of_wire (same : t'.wire = t.wire) : AsksPoll t t' := .inl (polls_of_wire same)

theorem refl (t : Tcb) : AsksPoll t t := .inl rfl

theorem output (t : Tcb) : AsksPoll t t.output := .inr rfl

theorem trans (first : AsksPoll t t') (second : AsksPoll t' t'') : AsksPoll t t'' := by
  rcases second with same | asked
  · exact first.imp same.trans same.trans
  · rcases first with same' | asked'
    · exact .inr (asked.trans (output_polls_congr same'))
    · right
      rw [asked, output_polls_congr asked', output_output_polls]

/-- What happened before did not touch the poll. -/
theorem since {u : Tcb} (asks : AsksPoll u t') (same : u.polls = t.polls) : AsksPoll t t' :=
  trans (.inl same) asks

/-- To be polled after a step that did no more than `output`. -/
theorem outputOf (first : AsksPoll t t') : AsksPoll t t'.output := first.trans (.output t')

end AsksPoll

@[simp] theorem emit_polls (t : Tcb) (r : Bool) (p : List Byte) : (t.emit r p).polls = t.polls := by
  have built : ∀ (u : Tcb) (s : Segment), (u.queuePacket s).polls = u.polls := fun _ _ => rfl
  unfold emit
  dsimp only
  rw [built, polls_of_wire (checkWindow_wire _ _)]
  split
  · exact polls_of_wire (takeNumbers_wire t _ _)
  · exact polls_of_wire ((rememberSegment_wire _ _).trans (takeNumbers_wire t _ _))

@[simp] theorem outputOne_polls (t : Tcb) (r : Bool) : (t.outputOne hw r).polls = t.polls := by
  unfold outputOne
  split
  · rfl
  split
  · exact emit_polls t true _
  · exact (emit_polls _ false _).trans (polls_of_wire t.getTransmitPacket_wire)

theorem outputUpdateRto_asksPoll (t : Tcb) : AsksPoll t t.outputUpdateRto := .output t

theorem retransmitData_asksPoll (t : Tcb) : AsksPoll t (t.retransmitData hw) := by
  unfold retransmitData
  split
  · exact .refl t
  dsimp only
  split
  · refine AsksPoll.trans (.of_polls ?_) (outputUpdateRto_asksPoll _)
    rw [outputOne_polls]
    rfl
  · exact .of_polls rfl

theorem retransmitFin_asksPoll (t : Tcb) : AsksPoll t (t.retransmitFin hw) := by
  have counted : AsksPoll t t.countFin := .of_polls rfl
  unfold retransmitFin
  split
  · split
    · exact (counted.trans (outputUpdateRto_asksPoll _)).trans (retransmitData_asksPoll _)
    · exact counted.trans (.of_wire (cleanup_wire _))
  · exact retransmitData_asksPoll t

theorem retransmit_asksPoll (t : Tcb) : AsksPoll t (t.retransmit hw) := by
  have counted : AsksPoll t t.countSyn := .of_polls rfl
  unfold retransmit
  split
  · split
    · exact (counted.trans (outputUpdateRto_asksPoll _)).trans (retransmitFin_asksPoll _)
    · exact counted.trans (.of_wire rfl)
  · exact retransmitFin_asksPoll t

theorem fastRetransmit_asksPoll (t : Tcb) : AsksPoll t (t.fastRetransmit hw) := by
  unfold fastRetransmit
  split
  · exact .refl t
  · refine AsksPoll.outputOf (.of_polls ?_)
    rw [outputOne_polls]
    rfl

theorem persist_asksPoll (t : Tcb) : AsksPoll t (t.persist hw) := by
  have built : ∀ u : Tcb, u.polls = t.polls →
      AsksPoll t { { u.outputOne hw false with snd := { (u.outputOne hw false).snd with
        windowProbe := false } }.output with persistArmed := true } := by
    intro u same
    have probed : AsksPoll t { u.outputOne hw false with snd := { (u.outputOne hw false).snd with
        windowProbe := false } } := .of_polls ((outputOne_polls u false).trans same)
    exact probed.outputOf
  exact built _ rfl

theorem send_asksPoll (p : List Byte) (t : Tcb) : AsksPoll t (t.send p) := by
  have waits : ∀ u : Tcb, AsksPoll t u → AsksPoll t u.waitSendAvailable := fun u asks =>
    asks.trans (.of_polls rfl)
  unfold send
  split
  · exact .refl t
  dsimp only
  apply waits
  split
  · exact AsksPoll.outputOf (.of_wire (canSend_wire _))
  · exact .of_wire (canSend_wire _)

theorem shutdownConnect_asksPoll (t : Tcb) : AsksPoll t t.shutdownConnect := by
  unfold shutdownConnect
  split
  · exact .of_wire rfl
  · exact .of_wire ((close_wire _).trans (abortReader_wire t))

theorem closeContinuation_asksPoll (t : Tcb) : AsksPoll t (t.closeContinuation hw) := by
  unfold closeContinuation
  exact AsksPoll.outputOf (.of_polls (outputOne_polls _ false))

theorem popPacket_asksPoll (t : Tcb) : AsksPoll t t.popPacket := by
  unfold popPacket
  split
  · exact .refl t
  split
  · exact .of_wire (fail_wire t _)
  rename_i rest queue
  have popped : AsksPoll t { t with packetq := rest } := .of_polls rfl
  dsimp only
  split
  · exact popped.outputOf
  split
  · split
    · exact (popped.trans (.of_wire (canSend_wire _))).outputOf
    · exact popped.trans (.of_wire (canSend_wire _))
  · exact popped

theorem getPacket_asksPoll (t : Tcb) :
    AsksPoll { t with pollActive := false } (t.getPacket hw) := by
  unfold getPacket
  dsimp only
  split
  · exact AsksPoll.trans (.of_polls (outputOne_polls _ false)) (popPacket_asksPoll _)
  · exact popPacket_asksPoll _

theorem enterSyn_asksPoll (state : TcpState) (t : Tcb) : AsksPoll t (t.enterSyn state) :=
  AsksPoll.outputOf (.of_polls rfl)

/-! ## Segments -/

theorem newDataAcked_asksPoll (th : TcpHdr) (n : BitVec 32) (t : Tcb) :
    AsksPoll t (t.newDataAcked hw th n) := by
  unfold newDataAcked
  split
  · split
    · exact .of_wire (fullAck_wire t)
    · exact (fastRetransmit_asksPoll t).trans (.of_wire (partialAck_wire _ _))
  · exact .of_wire ((setRetransmitTimer_wire _).trans (exitFastRecovery_wire t))

theorem ackNewData_asksPoll (th : TcpHdr) (segSeq : TcpSeq) (t : Tcb) :
    AsksPoll t (t.ackNewData hw th segSeq) := by
  unfold ackNewData
  dsimp only
  refine AsksPoll.trans (.of_wire ?_) (newDataAcked_asksPoll th _ _)
  rw [updateWindowIfNewer_wire, dataSegmentAcked_wire]

theorem thirdDuplicateAck_asksPoll (th : TcpHdr) (t : Tcb) :
    AsksPoll t (t.thirdDuplicateAck hw th) := by
  have recovering : ∀ (u : Tcb) (cwnd : BitVec 32), u.polls = t.polls →
      AsksPoll t { u.fastRetransmit hw with snd := { (u.fastRetransmit hw).snd with cwnd } } := by
    intro u cwnd same
    exact ((fastRetransmit_asksPoll u).since same).trans (.of_polls rfl)
  unfold thirdDuplicateAck
  dsimp only
  split
  · exact recovering _ _ rfl
  · exact .of_polls rfl

theorem duplicateAck_asksPoll (th : TcpHdr) (t : Tcb) : AsksPoll t (t.duplicateAck hw th).1 := by
  unfold duplicateAck
  dsimp only
  split
  · exact .of_polls rfl
  split
  · exact (thirdDuplicateAck_asksPoll th _).since rfl
  split <;> exact .of_polls rfl

theorem ackInEstablished_asksPoll (th : TcpHdr) (segSeq : TcpSeq) (segLen : Nat) (t : Tcb) :
    AsksPoll t (reached (t.ackInEstablished hw th segSeq segLen)) := by
  refine @reached_ackInEstablished hw (AsksPoll t) t th segSeq segLen (.refl t) ?_ ?_ ?_ ?_
  · exact fun _ _ => ackNewData_asksPoll th segSeq t
  · exact fun _ _ _ => duplicateAck_asksPoll th t
  · exact .output t
  · exact .of_polls rfl

theorem checkAck_asksPoll (th : TcpHdr) (segSeq : TcpSeq) (segLen : Nat) (t : Tcb) :
    AsksPoll t (reached (t.checkAck hw th segSeq segLen)) :=
  checkAck_of_steps (.of_wire (ackInSynReceived_wire th t))
    (fun u _ asks => asks.trans (ackInEstablished_asksPoll th segSeq segLen u))
    fun u asks => asks.trans (.of_wire (ackOfFin_wire th u))

theorem takeFin_asksPoll (finSeq : TcpSeq) (t : Tcb) : AsksPoll t (t.takeFin finSeq) := by
  unfold takeFin
  refine AsksPoll.outputOf (.of_wire ?_)
  rw [clearDelayedAck_wire, signalDataReceived_wire]
  rfl

theorem checkFin_asksPoll (th : TcpHdr) (finSeq : TcpSeq) (doOutput : Bool) (t : Tcb) :
    AsksPoll t (reached (t.checkFin th finSeq doOutput)) := by
  have taken := takeFin_asksPoll finSeq t
  unfold checkFin
  split
  · exact .refl t
  split
  · exact .refl t
  split
  · dsimp only
    split <;> exact taken.trans (.of_polls rfl)
  · exact .refl t

theorem outputAfter_asksPoll (doOutput doOutputData : Bool) (t : Tcb) :
    AsksPoll t (t.outputAfter doOutput doOutputData) := by
  unfold outputAfter
  split
  · exact AsksPoll.outputOf (.of_wire (clearDelayedAck_wire t))
  split
  · dsimp only
    split
    · exact AsksPoll.outputOf (.of_wire ((clearDelayedAck_wire _).trans (canSend_wire t)))
    · exact .of_wire (canSend_wire t)
  · exact .refl t

theorem afterAck_asksPoll (th : TcpHdr) (segSeq : TcpSeq) (data : List Byte) (doOutputData : Bool)
    (t : Tcb) : AsksPoll t (t.afterAck th segSeq data doOutputData) := by
  refine afterAck_of_steps doOutputData (.refl t) ?_ ?_ ?_
  · exact fun _ => .of_wire (segmentText_wire data t)
  · exact fun u doOutput asks => asks.trans (checkFin_asksPoll th _ doOutput u)
  · exact fun u doOutput asks => asks.trans (outputAfter_asksPoll doOutput doOutputData u)

theorem segmentInOrder_asksPoll (th : TcpHdr) (segSeq : TcpSeq) (data : List Byte) (t : Tcb) :
    AsksPoll t (t.segmentInOrder hw th segSeq data) := by
  apply segmentInOrder_of_ack
  · exact .of_polls rfl
  · exact .of_polls rfl
  · exact .of_polls rfl
  · exact .of_polls rfl
  · exact .refl t
  · intro _ _ _
    have acked := @checkAck_asksPoll hw th segSeq data.length t
    exact checked_of_steps acked fun u doOutputData asks =>
      asks.trans (afterAck_asksPoll th segSeq data doOutputData u)

theorem inputHandleOtherState_asksPoll (th : TcpHdr) (p : Impl) (t : Tcb) :
    AsksPoll t (t.inputHandleOtherState hw th p) := by
  unfold inputHandleOtherState
  split
  · exact .of_polls rfl
  · exact .output t
  · exact AsksPoll.outputOf (.of_wire (insertOutOfOrder_wire _ _ t))
  · exact segmentInOrder_asksPoll th _ _ t

theorem inputHandleSynSentState_asksPoll (beyond : Nat → Byte) (th : TcpHdr) (p : Impl) (t : Tcb) :
    AsksPoll t (t.inputHandleSynSentState hw beyond th p) := by
  unfold inputHandleSynSentState
  split
  · rename_i failed
    exact .of_wire (takeHeader_wire failed)
  split
  · exact .of_polls rfl
  dsimp only
  split
  · split
    · exact .of_polls rfl
    · exact .refl t
  split
  · unfold synInSynSent
    split
    · exact AsksPoll.outputOf (.of_polls rfl)
    · exact (enterSyn_asksPoll _ _).since rfl
  · exact .refl t

theorem inputHandleListenState_asksPoll (beyond : Nat → Byte) (iss : TcpSeq) (th : TcpHdr)
    (p : Impl) (t : Tcb) : AsksPoll t (t.inputHandleListenState hw beyond iss th p) := by
  have opened : AsksPoll t { t with life := .inTable } := .of_polls rfl
  unfold inputHandleListenState
  dsimp only
  split
  · rename_i failed
    exact opened.trans (.of_wire (takeHeader_wire failed))
  · exact (enterSyn_asksPoll _ _).since rfl

/-! ## One poll at a time -/

/-- The polls on their way, and a block that waits for any knows it. -/
def pending (t : Tcb) : Nat := t.resolving + t.pollTcbs

def PolledOnce (t : Tcb) : Prop := t.pending ≤ if t.pollActive then 1 else 0

theorem PolledOnce.of_polls (once : t.PolledOnce) (same : t'.polls = t.polls) :
    t'.PolledOnce := by
  have active : t'.pollActive = t.pollActive := congrArg Polls.pollActive same
  have resolving : t'.resolving = t.resolving := congrArg Polls.resolving same
  have pollTcbs : t'.pollTcbs = t.pollTcbs := congrArg Polls.pollTcbs same
  unfold PolledOnce pending at *
  rw [active, resolving, pollTcbs]
  exact once

theorem PolledOnce.asks (once : t.PolledOnce) (asks : AsksPoll t t') : t'.PolledOnce := by
  rcases asks with same | asked
  · exact once.of_polls same
  · refine PolledOnce.of_polls ?_ asked
    unfold output
    split
    · exact once
    · rename_i idle
      unfold PolledOnce pending at *
      rw [if_neg idle] at once
      dsimp only
      rw [if_pos rfl]
      omega

/-- A poll that takes place, or whose address is not found, leaves none behind. -/
theorem PolledOnce.settled (once : t.PolledOnce) (some_ : 0 < t.pending) :
    t.pending = 1 ∧ t.pollActive = true := by
  unfold PolledOnce at once
  split at once
  · exact ⟨by omega, by assumption⟩
  · omega

theorem handle_polledOnce (e : TcbEvent) (once : t.PolledOnce) (enabled : t.enabled e = true) :
    (t.handle hw e).PolledOnce := by
  cases e with
  | connect iss =>
      exact once.asks ((enterSyn_asksPoll _ _).since rfl)
  | listen iss beyond th p => exact once.asks (inputHandleListenState_asksPoll beyond iss th p t)
  | segment beyond th p =>
      refine once.asks ?_
      show AsksPoll t (t.inputHandle hw beyond th p)
      unfold inputHandle
      split
      · exact inputHandleSynSentState_asksPoll beyond th p t
      · exact inputHandleOtherState_asksPoll th p t
  | send p => exact once.asks (send_asksPoll p t)
  | waitForData => exact once.of_polls rfl
  | read => exact once.of_polls rfl
  | closeRead => exact once.of_polls (polls_of_wire (abortReader_wire t))
  | closeWrite => exact once.of_polls (polls_of_wire (close_wire t))
  | shutdownConnect => exact once.asks (shutdownConnect_asksPoll t)
  | closeContinuation =>
      exact once.asks ((closeContinuation_asksPoll _).since rfl)
  | delayedAck => exact once.asks (AsksPoll.outputOf (.of_polls rfl))
  | retransmit => exact once.asks ((retransmit_asksPoll _).since rfl)
  | persist =>
      exact once.asks ((persist_asksPoll { t with persistArmed := false }).since rfl)
  | resolved =>
      have ready : 0 < t.resolving := of_decide_eq_true enabled
      show t.resolving - 1 + (t.pollTcbs + 1) ≤ if t.pollActive then 1 else 0
      have same : t.resolving - 1 + (t.pollTcbs + 1) = t.pending := by
        unfold pending
        omega
      rw [same]
      exact once
  | arpQueueFull =>
      have ready : 0 < t.resolving := of_decide_eq_true enabled
      have one := (once.settled (Nat.add_pos_left ready _)).1
      show t.resolving - 1 + t.pollTcbs ≤ 0
      unfold pending at one
      omega
  | arpTimeout =>
      have fewer : PolledOnce { t with resolving := t.resolving - 1 } := by
        refine Nat.le_trans (Nat.add_le_add_right ?_ _) once
        exact Nat.sub_le _ _
      show t.arpTimeout.PolledOnce
      unfold arpTimeout
      dsimp only
      split
      · exact fewer.of_polls rfl
      · exact fewer
  | getPacket =>
      have ready : 0 < t.pollTcbs := of_decide_eq_true enabled
      have one := (once.settled (Nat.add_pos_right _ ready)).1
      have idle : PolledOnce { t with pollTcbs := t.pollTcbs - 1, pollActive := false } := by
        show t.resolving + (t.pollTcbs - 1) ≤ 0
        unfold pending at one
        omega
      exact idle.asks (getPacket_asksPoll { t with pollTcbs := t.pollTcbs - 1 })

theorem new_polledOnce (id : ConnId) (memory : Tcb) : (new id memory).PolledOnce := Nat.le_refl 0

theorem step_polledOnce {e : TcbEvent} (once : t.PolledOnce) (next : step hw t e = some t') :
    t'.PolledOnce := by
  unfold step at next
  split at next
  · rename_i possible
    cases next
    exact (handle_polledOnce e once possible.2).of_polls rfl
  · cases next

end Tcb

end ActorNet.Tcp
