import ActorNet.Tcp.Onward
import ActorNet.Tcp.WindowAssertion

/-!
# Our SYN is acknowledged

A connection becomes synchronized in SYN_SENT by an acknowledgement beyond ISS,
but in SYN_RECEIVED by any from SND.UNA on, and SND.UNA is still ISS there. So
our SYN was acknowledged on every run on which no segment with SEG.ACK = ISS
completes a handshake, and only on those.
-/

namespace ActorNet.Tcp

open Lib Net

namespace Tcb

variable {t t' : Tcb} {hw : HwFeatures}

/-! ## SND.UNA in the handshake -/

/-- Until a connection is synchronized, nothing of ours is acknowledged. -/
structure Unacknowledged (t : Tcb) : Prop where
  begins : t.life = .fresh → t.state = .closed
  handshake : t.inState [.synSent, .synReceived] = true → t.snd.unacknowledged = t.snd.initial

theorem Onward.unacknowledged_of (onward : Onward t t') (before : t.Unacknowledged) :
    t'.Unacknowledged where
  begins := by
    intro fresh
    have closed : t.state = .closed := before.begins (onward.fresh_of fresh)
    rcases onward.state with same | closed' | both
    · rw [same, closed]
    · exact closed'
    · rw [closed_not_synchronized closed] at both
      cases both.1
  handshake := by
    intro here
    have same := onward.handshake_of here
    have apart : t.synchronized = false := by
      unfold inState at here
      unfold Tcb.synchronized inState
      rw [same] at here
      revert here
      cases t.state <;> decide
    have before := before.handshake (by rw [← here]; unfold inState; rw [same])
    rw [onward.unacknowledged apart, before]
    exact (congrArg Agreed.initial onward.agreed).symm

/-- Without an acknowledgement the SYN of the peer does not complete our handshake. -/
theorem synInSynSent_without_ack {th : TcpHdr} (beyond : Nat → Byte) (opts : List Byte)
    (noAck : th.fAck = false) (before : t.snd.unacknowledged = t.snd.initial) :
    t.synInSynSent hw beyond th opts = (t.takeSyn th).enterSyn .synReceived := by
  have kept : (t.takeSyn th).snd.unacknowledged = t.snd.unacknowledged :=
    if_neg (by rw [noAck]; exact Bool.false_ne_true)
  unfold synInSynSent
  rw [kept, before, if_neg (TcpSeq.le_refl _)]

theorem enterSyn_snd (t : Tcb) (state : TcpState) : (t.enterSyn state).snd = t.snd := by
  unfold enterSyn output
  split <;> rfl

theorem Unacknowledged.enterSyn (state : TcpState) (opened : t.life = .inTable)
    (before : t.snd.unacknowledged = t.snd.initial) : (t.enterSyn state).Unacknowledged where
  begins := by
    intro fresh
    rw [enterSyn_life, opened] at fresh
    cases fresh
  handshake := by
    intro _
    rw [enterSyn_snd]
    exact before

theorem Unacknowledged.of_synchronized (opened : t.life = .inTable) (sync : t.synchronized = true) :
    t.Unacknowledged where
  begins := by
    intro fresh
    rw [opened] at fresh
    cases fresh
  handshake := by
    intro here
    have here := of_decide_eq_true here
    have sync := of_decide_eq_true sync
    exfalso
    revert here sync
    cases t.state <;> decide

/-! ## What completes a handshake -/

/-- The loop passes over whole segments only as far as the acknowledgement. -/
theorem wholeSegmentsAcked_le {segAck : TcpSeq} (segs : List UnackedSegment) (t : Tcb)
    (before : t.snd.unacknowledged ≤ segAck) :
    (wholeSegmentsAcked segAck segs t).2.snd.unacknowledged ≤ segAck := by
  induction segs generalizing t with
  | nil => exact before
  | cons seg rest ih =>
      unfold wholeSegmentsAcked
      split
      · rename_i inside
        dsimp only
        apply ih
        rw [show (signalSendAvailable _).snd.unacknowledged = _ from
          congrArg Bearing.unacknowledged (signalSendAvailable_bearing _)]
        show (updateCwnd _ _).snd.unacknowledged ≤ segAck
        rw [show (updateCwnd _ _).snd.unacknowledged = _ from
          congrArg Bearing.unacknowledged (updateCwnd_bearing _ _)]
        exact inside
      · exact before

theorem dataSegmentAcked_unacknowledged {segAck : TcpSeq}
    (before : t.snd.unacknowledged ≤ segAck) :
    (t.dataSegmentAcked segAck).2.snd.unacknowledged = segAck := by
  have whole := wholeSegmentsAcked_le t.snd.data t before
  unfold dataSegmentAcked
  cases result : wholeSegmentsAcked segAck t.snd.data t with
  | mk n t' =>
      rw [result] at whole
      show (t'.partOfSegmentAcked segAck).2.snd.unacknowledged = segAck
      unfold partOfSegmentAcked
      split
      · exact congrArg Bearing.unacknowledged (updateCwnd_bearing _ _)
      · rename_i reached
        by_contra other
        exact reached (TcpSeq.lt_of_le_of_ne whole (Ne.symm other))

theorem ackNewData_unacknowledged (th : TcpHdr) (segSeq : TcpSeq)
    (before : t.snd.unacknowledged ≤ th.ack) :
    (t.ackNewData hw th segSeq).snd.unacknowledged = th.ack := by
  have acked := dataSegmentAcked_unacknowledged before
  unfold ackNewData
  cases result : t.dataSegmentAcked th.ack with
  | mk n t' =>
      rw [result] at acked
      show (newDataAcked hw th n (t'.updateWindowIfNewer th segSeq)).snd.unacknowledged = _
      rw [show (newDataAcked hw th n _).snd.unacknowledged = _ from
        congrArg Bearing.unacknowledged (newDataAcked_bearing th n _)]
      show (t'.updateWindowIfNewer th segSeq).snd.unacknowledged = _
      unfold updateWindowIfNewer
      split <;> exact acked

@[simp] theorem output_snd (t : Tcb) : t.output.snd = t.snd := by
  unfold output
  split <;> rfl

@[simp] theorem signalDataReceived_snd (t : Tcb) : t.signalDataReceived.snd = t.snd := by
  unfold signalDataReceived
  split <;> rfl

theorem mergeOutOfOrder_snd (t : Tcb) : t.mergeOutOfOrder.2.snd = t.snd := by
  unfold mergeOutOfOrder
  dsimp only
  split <;> rfl

theorem shouldSendAck_snd (n : BitVec 16) (t : Tcb) : (t.shouldSendAck n).2.snd = t.snd := by
  unfold shouldSendAck
  dsimp only
  split <;> rfl

theorem segmentText_snd (data : List Byte) (t : Tcb) : (t.segmentText data).2.snd = t.snd := by
  unfold segmentText
  split
  · rfl
  dsimp only
  split
  · rw [signalDataReceived_snd]
    exact mergeOutOfOrder_snd _
  · rw [shouldSendAck_snd, signalDataReceived_snd]
    exact mergeOutOfOrder_snd _

theorem takeFin_snd (finSeq : TcpSeq) (t : Tcb) : (t.takeFin finSeq).snd = t.snd := by
  unfold takeFin
  rw [output_snd]
  exact signalDataReceived_snd _

theorem checkFin_unacknowledged (th : TcpHdr) (finSeq : TcpSeq) (doOutput : Bool) (t : Tcb) :
    (reached (t.checkFin th finSeq doOutput)).snd.unacknowledged = t.snd.unacknowledged := by
  have taken := congrArg Send.unacknowledged (takeFin_snd finSeq t)
  unfold checkFin
  split
  · rfl
  split
  · rfl
  split
  · dsimp only
    split <;> exact taken
  · rfl

theorem outputAfter_unacknowledged (doOutput doOutputData : Bool) (t : Tcb) :
    (t.outputAfter doOutput doOutputData).snd.unacknowledged = t.snd.unacknowledged :=
  congrArg Bearing.unacknowledged (outputAfter_bearing doOutput doOutputData t)

theorem afterAck_unacknowledged (th : TcpHdr) (segSeq : TcpSeq) (data : List Byte)
    (doOutputData : Bool) (t : Tcb) :
    (t.afterAck th segSeq data doOutputData).snd.unacknowledged = t.snd.unacknowledged := by
  refine @afterAck_of_steps t (fun u => u.snd.unacknowledged = t.snd.unacknowledged) th segSeq data
    doOutputData rfl ?_ ?_ ?_
  · exact fun _ => congrArg Send.unacknowledged (segmentText_snd data t)
  · exact fun u doOutput same => (checkFin_unacknowledged th _ doOutput u).trans same
  · exact fun u doOutput same => (outputAfter_unacknowledged doOutput doOutputData u).trans same

/-- In ESTABLISHED an acknowledgement of new data moves SND.UNA to it. -/
theorem segmentInOrder_unacknowledged {th : TcpHdr} (segSeq : TcpSeq) (data : List Byte)
    (here : t.state = .established) (noRst : th.fRst = false) (noSyn : th.fSyn = false)
    (ack : th.fAck = true) (new : t.snd.unacknowledged < th.ack) (sent : th.ack ≤ t.snd.next)
    (before : t.snd.unacknowledged ≤ th.ack) :
    (t.segmentInOrder hw th segSeq data).snd.unacknowledged = th.ack := by
  have acked := @ackNewData_unacknowledged t hw th segSeq before
  have state : (t.ackNewData hw th segSeq).state = .established :=
    (congrArg Standing.state (ackNewData_standing th segSeq t)).trans here
  have checked : t.checkAck hw th segSeq data.length =
      .ok (t.ackNewData hw th segSeq, true) := by
    have first := ackInSynReceived_past th (by unfold inState; rw [here]; rfl)
    have middle : t.ackInEstablished hw th segSeq data.length =
        .ok (t.ackNewData hw th segSeq, true) := by
      have open_ : t.inState [.established, .closeWait] = true := by
        unfold inState
        rw [here]
        rfl
      unfold ackInEstablished
      rw [open_, if_neg (by decide), if_pos ⟨new, sent⟩]
    have last : (t.ackNewData hw th segSeq).ackOfFin th = .ok (t.ackNewData hw th segSeq) := by
      unfold ackOfFin
      rw [state]
    exact checkAck_of_ok first middle last
  unfold segmentInOrder
  simp only [noRst, noSyn, ack, Bool.false_eq_true, false_and, if_false, Bool.not_true, checked]
  rw [afterAck_unacknowledged]
  exact acked

/-! ## Runs -/

/-- Before the handshake is complete an acknowledgement of our SYN arrives, and
SND.UNA moves to it. -/
def AcknowledgesSyn (s : Tcb) (e : TcbEvent) (s' : Tcb) : Prop :=
  s.synchronized = false ∧ ∃ beyond th p, e = .segment beyond th p ∧ th.fAck = true ∧ s.snd.initial < th.ack ∧
    th.ack ≤ s.snd.next ∧ s'.snd.unacknowledged = th.ack ∧ s'.snd.initial = s.snd.initial

def SameIss (s' t : Tcb) : Prop := t.snd.initial = s'.snd.initial

/-- No segment that acknowledges ISS completes a handshake in SYN_RECEIVED. -/
def NoBareAck (t : Tcb) : TcbEvent → Prop
  | .segment _ th p => t.completes th p = true → th.ack ≠ t.snd.initial
  | _ => True

instance (t : Tcb) : (e : TcbEvent) → Decidable (t.NoBareAck e)
  | .segment _ th p => inferInstanceAs (Decidable (t.completes th p = true → th.ack ≠ t.snd.initial))
  | .connect _ | .listen .. | .send _ | .waitForData | .read | .closeRead | .closeWrite
  | .shutdownConnect | .closeContinuation | .delayedAck | .retransmit | .persist | .resolved
  | .arpQueueFull | .arpTimeout | .getPacket => .isTrue trivial

/-- What an event makes of `t` leaves SND.UNA at ISS until a handshake completes,
and if it completes one it acknowledges our SYN. -/
def KeepsSyn (t : Tcb) (e : TcbEvent) (t' : Tcb) : Prop :=
  t'.Unacknowledged ∧
    (t.synchronized = false → t'.synchronized = true → t.AcknowledgesSyn e t')

theorem KeepsSyn.onward {e : TcbEvent} (before : t.Unacknowledged) (onward : Onward t t') :
    t.KeepsSyn e t' := by
  refine ⟨onward.unacknowledged_of before, fun apart sync => ?_⟩
  rw [onward.synchronized_of sync] at apart
  cases apart

theorem KeepsSyn.enterSyn {u : Tcb} {state : TcpState} {e : TcbEvent} (opened : u.life = .inTable)
    (before : u.snd.unacknowledged = u.snd.initial)
    (apart : { u with state }.synchronized = false) : t.KeepsSyn e (u.enterSyn state) := by
  refine ⟨.enterSyn state opened before, fun _ sync => ?_⟩
  have same : (u.enterSyn state).synchronized = { u with state }.synchronized :=
    Onward.synchronized_eq (congrArg (fun b => b.state) (output_bearing _))
  rw [same, apart] at sync
  cases sync

theorem connect_keepsSyn (iss : TcpSeq) : t.KeepsSyn (.connect iss) (t.connect hw iss) :=
  .enterSyn rfl rfl rfl

theorem listen_keepsSyn (beyond : Nat → Byte) (iss : TcpSeq) (th : TcpHdr) (p : Impl)
    (closed : t.state = .closed) :
    t.KeepsSyn (.listen iss beyond th p) (t.inputHandleListenState hw beyond iss th p) := by
  unfold inputHandleListenState
  dsimp only
  split
  · rename_i failed
    have same : ∀ c, ({ t with life := .inTable }.fail c).state = .closed := fun _ => closed
    rcases takeHeader_error failed with rfl | rfl <;>
      exact ⟨⟨fun _ => same _, fun here => absurd here (by simp [inState, same])⟩, fun _ sync =>
        absurd sync (by rw [Onward.closed_not_synchronized (same _)]; decide)⟩
  · exact .enterSyn rfl rfl rfl

theorem synSent_keepsSyn (beyond : Nat → Byte) (th : TcpHdr) (p : Impl)
    (before : t.Unacknowledged) (opened : t.life = .inTable) (here : t.state = .synSent) :
    t.KeepsSyn (.segment beyond th p) (t.inputHandleSynSentState hw beyond th p) := by
  have initial : t.snd.unacknowledged = t.snd.initial :=
    before.handshake (by unfold inState; rw [here]; rfl)
  rcases inputHandleSynSentState_cases beyond th p t with onward | ⟨opts, -, -, -, fits, result⟩
  · exact .onward before onward
  rw [result]
  cases ack : th.fAck with
  | true =>
      obtain ⟨past, sent⟩ := fits ack
      rw [synInSynSent_of_ack beyond opts ack past]
      have same := output_bearing ((t.takeSyn th).initFromOptions hw beyond th opts).doEstablished
      refine ⟨.of_synchronized ?_ ?_, fun apart _ =>
        ⟨apart, beyond, th, p, rfl, ack, past, sent, ?_, ?_⟩⟩
      · exact (congrArg (fun b => b.life) same).trans opened
      · rw [Onward.synchronized_eq (congrArg (fun b => b.state) same)]
        rfl
      · exact (congrArg Bearing.unacknowledged same).trans (if_pos ack)
      · exact congrArg (fun b => b.initial) same
  | false =>
      rw [synInSynSent_without_ack beyond opts ack initial]
      refine .enterSyn opened ?_ rfl
      · show (if th.fAck = true then th.ack else t.snd.unacknowledged) = t.snd.initial
        rw [ack, if_neg Bool.false_ne_true, initial]

/-- In SYN_RECEIVED the acknowledgement that completes the handshake is one of
our SYN, unless it is ISS. -/
theorem synReceived_keepsSyn (beyond : Nat → Byte) (th : TcpHdr) (p : Impl)
    (before : t.Unacknowledged) (opened : t.life = .inTable) (done : t.completes th p = true)
    (other : th.ack ≠ t.snd.initial) :
    t.KeepsSyn (.segment beyond th p) (t.inputHandleOtherState hw th p) := by
  obtain ⟨segSeq, data, completes, result⟩ := @inputHandleOtherState_of_completes t hw th p done
  have established : (t.doEstablished.request .addConnectedTcb).synchronized = true := rfl
  have onward : Onward (t.doEstablished.request .addConnectedTcb)
      ((t.doEstablished.request .addConnectedTcb).segmentInOrder hw th segSeq data) :=
    segmentInOrder_onward th segSeq data rfl
  simp only [completesHandshake, Bool.and_eq_true, Bool.not_eq_true', decide_eq_true_eq]
    at completes
  obtain ⟨⟨⟨⟨⟨here, noRst⟩, noSyn⟩, ack⟩, least⟩, most⟩ := completes
  have initial : t.snd.unacknowledged = t.snd.initial := by
    apply before.handshake
    have here := of_decide_eq_true here
    unfold inState
    revert here
    cases t.state <;> decide
  have past : t.snd.unacknowledged < th.ack := by
    refine TcpSeq.lt_of_le_of_ne least ?_
    rw [initial]
    exact other
  have moved := @segmentInOrder_unacknowledged (t.doEstablished.request .addConnectedTcb) hw th
    segSeq data rfl noRst noSyn ack past most least
  rw [result]
  refine ⟨onward.unacknowledged_of (.of_synchronized opened established), fun apart _ =>
    ⟨apart, beyond, th, p, rfl, ack, initial ▸ past, most, moved, ?_⟩⟩
  exact congrArg Agreed.initial onward.agreed

/-- Every event keeps SND.UNA at ISS until a handshake completes, and one that
completes a handshake acknowledges our SYN. -/
theorem handle_keepsSyn (e : TcbEvent) (before : t.Unacknowledged) (enabled : t.enabled e = true)
    (guarded : t.NoBareAck e) : t.KeepsSyn e (t.handle hw e) := by
  cases idle : t.shakesHands e with
  | false => exact .onward before (handle_onward e idle)
  | true =>
      cases e with
      | connect iss => exact connect_keepsSyn iss
      | listen iss beyond th p =>
          exact listen_keepsSyn beyond iss th p (before.begins (of_decide_eq_true enabled))
      | segment beyond th p =>
          have opened : t.life = .inTable := of_decide_eq_true enabled
          show t.KeepsSyn _ (t.inputHandle hw beyond th p)
          unfold inputHandle
          split
          · rename_i here
            exact synSent_keepsSyn beyond th p before opened here
          · rename_i past
            have done : t.completes th p = true := by
              simpa [shakesHands, inState, past] using idle
            exact synReceived_keepsSyn beyond th p before opened done (guarded done)
      | _ => cases idle

theorem step_keepsSyn {e : TcbEvent} (before : t.Unacknowledged) (guarded : t.NoBareAck e)
    (next : step hw t e = some t') : t.KeepsSyn e t' := by
  unfold step at next
  split at next
  · rename_i possible
    cases next
    obtain ⟨after, acked⟩ := @handle_keepsSyn t hw e before possible.2 guarded
    exact ⟨⟨after.begins, after.handshake⟩, acked⟩
  · cases next

theorem new_unacknowledged (id : ConnId) (memory : Tcb) : (new id memory).Unacknowledged where
  begins := fun _ => rfl
  handshake := by
    intro here
    cases (show false = true from here)

/-- On every run, whatever the peer, the user and the timers do: a synchronized
connection has had its SYN acknowledged, provided no acknowledgement of ISS
completed the handshake. -/
theorem syn_acknowledged (hw : HwFeatures) (id : ConnId) (memory : Tcb) (events : List TcbEvent)
    (t : Tcb) (run : exec (step hw) (new id memory) events = some t)
    (guarded : Along (step hw) NoBareAck (new id memory) events) (sync : t.synchronized = true) :
    Entered (step hw) AcknowledgesSyn SameIss (new id memory) events t := by
  have kept : ∀ (s₀ s : Tcb) (e : TcbEvent) (s' : Tcb), s₀.SameIss s →
      s.Unacknowledged → step hw s e = some s' → s.synchronized = true → s'.synchronized = true →
      s₀.SameIss s' := by
    intro s₀ s e s' same before next inside _
    obtain ⟨u, onward, rfl⟩ := step_onward_of_synchronized before.begins inside next
    exact (congrArg Agreed.initial onward.agreed).trans same
  have outside : ¬(new id memory).synchronized = true := by
    have closed : (new id memory).state = .closed := rfl
    rw [Onward.closed_not_synchronized closed]
    decide
  have same : ∀ s : Tcb, s.SameIss s := fun _ => rfl
  have enters : ∀ (s : Tcb) (e : TcbEvent) (s' : Tcb), s.Unacknowledged → s.NoBareAck e →
      step hw s e = some s' → ¬s.synchronized = true → s'.synchronized = true →
      s.AcknowledgesSyn e s' := by
    intro s e s' before ok next outside inside
    exact (step_keepsSyn before ok next).2 (by simpa using outside) inside
  exact guarded.entered (fun s e s' before ok next => (step_keepsSyn before ok next).1) enters
    same kept (new_unacknowledged id memory) outside run sync

end Tcb

/-! ## A peer that acknowledges nothing -/

/-- A listener takes a SYN, with 100 as ISS, and then an acknowledgement. -/
def acceptedWith (ack : BitVec 32) : List TcbEvent :=
  [.listen ⟨100⟩ (fun _ => 0) peerSyn headerOnly, .resolved, .getPacket,
    .segment (fun _ => 0) (peerSegment 701 ack false 1000) headerOnly]

/-- The acknowledgement of the SYN completes the handshake. -/
theorem syn_acknowledged_accepted :
    ∃ t, exec (Tcb.step ethernet) (Tcb.new exampleId zeroMemory) (acceptedWith 101) = some t ∧
      t.snd.unacknowledged = ⟨101⟩ ∧
      Entered (Tcb.step ethernet) Tcb.AcknowledgesSyn Tcb.SameIss
        (Tcb.new exampleId zeroMemory) (acceptedWith 101) t := by
  have run : exec (Tcb.step ethernet) (Tcb.new exampleId zeroMemory) (acceptedWith 101) = some _ :=
    (Option.some_get (by decide)).symm
  exact ⟨_, run, by decide, Tcb.syn_acknowledged ethernet exampleId zeroMemory _ _ run
    (by decide) (by decide)⟩

/-- So does one of ISS, which leaves SND.UNA where it was. -/
theorem bare_ack_establishes :
    ∃ t, exec (Tcb.step ethernet) (Tcb.new exampleId zeroMemory) (acceptedWith 100) = some t ∧
      t.state = .established ∧ t.snd.unacknowledged = t.snd.initial ∧
      ¬Entered (Tcb.step ethernet) Tcb.AcknowledgesSyn Tcb.SameIss
        (Tcb.new exampleId zeroMemory) (acceptedWith 100) t := by
  have run : exec (Tcb.step ethernet) (Tcb.new exampleId zeroMemory) (acceptedWith 100) = some _ :=
    (Option.some_get (by decide)).symm
  refine ⟨_, run, by decide, by decide, ?_⟩
  rintro ⟨before, e, after, s₁, s₂, parts, run₁, next, ⟨-, beyond, th, p, rfl, -, past, -⟩, -⟩
  match before with
  | [] => simp [acceptedWith] at parts
  | [_] => simp [acceptedWith] at parts
  | [_, _] => simp [acceptedWith] at parts
  | [_, _, _] =>
      simp only [acceptedWith, List.cons_append, List.nil_append, List.cons.injEq,
        TcbEvent.segment.injEq] at parts
      obtain ⟨rfl, rfl, rfl, ⟨rfl, rfl, rfl⟩, -⟩ := parts
      have here : exec (Tcb.step ethernet) (Tcb.new exampleId zeroMemory)
          [.listen ⟨100⟩ (fun _ => 0) peerSyn headerOnly, .resolved, .getPacket] = some _ :=
        (Option.some_get (by decide)).symm
      cases Option.some.inj (run₁.symm.trans here)
      exact absurd past (by decide)
  | _ :: _ :: _ :: _ :: _ => simp [acceptedWith] at parts

end ActorNet.Tcp
