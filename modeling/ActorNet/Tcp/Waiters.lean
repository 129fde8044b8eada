import Mathlib.Data.List.Nodup
import ActorNet.Tcp.Removed
import ActorNet.Tcp.HandshakeParameters

/-!
# Who waits for a connection

There are four promises: of the connection, of data, of the acknowledgement of
all data, and of room in the queue. Every handler `Settles`: it begins no new
wait, and it resolves a promise at most once, and only one that is waited for.
-/

namespace ActorNet.Tcp

open Lib Net

/-- What has to do with the promises. -/
structure Waiting where
  reader : Reader
  allDataAcked : Bool
  sendAvailable : Bool
  connectDone : Option Bool
  resolved : List Promise

namespace Tcb

variable {t t' t'' : Tcb} {hw : HwFeatures}

def waiting (t : Tcb) : Waiting :=
  ⟨t.rcv.reader, t.snd.allDataAckedPromise, t.snd.sendAvailablePromise, t.connectDone, t.resolved⟩

/-! ## What nobody waits for -/

@[simp] theorem fail_waiting (t : Tcb) (c : Crash) : (t.fail c).waiting = t.waiting := rfl
@[simp] theorem request_waiting (t : Tcb) (r : Request) : (t.request r).waiting = t.waiting := rfl
@[simp] theorem clearDelayedAck_waiting (t : Tcb) : t.clearDelayedAck.waiting = t.waiting := rfl
@[simp] theorem takeNumbers_waiting (t : Tcb) (r : Bool) (len : BitVec 16) :
    (t.takeNumbers r len).waiting = t.waiting := rfl
@[simp] theorem queuePacket_waiting (t : Tcb) (s : Segment) :
    (t.queuePacket s).waiting = t.waiting := rfl
@[simp] theorem cleanup_waiting (t : Tcb) : t.cleanup.waiting = t.waiting := rfl
@[simp] theorem doClosed_waiting (t : Tcb) : t.doClosed.waiting = t.waiting := rfl

@[simp] theorem output_waiting (t : Tcb) : t.output.waiting = t.waiting := by
  unfold output
  split <;> rfl

@[simp] theorem canSend_waiting (t : Tcb) : t.canSend.2.waiting = t.waiting := by
  obtain ⟨n, after⟩ := canSend_snd t
  rw [after]
  rfl

@[simp] theorem getTransmitPacket_waiting (t : Tcb) :
    (t.getTransmitPacket hw).2.waiting = t.waiting := by
  unfold getTransmitPacket
  split
  · rfl
  · exact canSend_waiting t

@[simp] theorem rememberSegment_waiting (t : Tcb) (p : List Byte) :
    (t.rememberSegment p).waiting = t.waiting := by
  unfold rememberSegment
  dsimp only
  split <;> rfl

@[simp] theorem checkWindow_waiting (t : Tcb) (len : BitVec 16) :
    (t.checkWindow len).waiting = t.waiting := by
  unfold checkWindow
  split <;> rfl

@[simp] theorem emit_waiting (t : Tcb) (r : Bool) (p : List Byte) :
    (t.emit r p).waiting = t.waiting := by
  cases r <;> simp [emit]

@[simp] theorem outputOne_waiting (t : Tcb) (r : Bool) :
    (t.outputOne hw r).waiting = t.waiting := by
  unfold outputOne
  split
  · rfl
  split
  · exact emit_waiting t true _
  · exact (emit_waiting _ false _).trans t.getTransmitPacket_waiting

@[simp] theorem fastRetransmit_waiting (t : Tcb) : (t.fastRetransmit hw).waiting = t.waiting := by
  unfold fastRetransmit
  split
  · rfl
  · rw [output_waiting, outputOne_waiting]
    rfl

@[simp] theorem outputUpdateRto_waiting (t : Tcb) : t.outputUpdateRto.waiting = t.waiting :=
  output_waiting t

@[simp] theorem persist_waiting (t : Tcb) : (t.persist hw).waiting = t.waiting := by
  unfold persist
  show (output _).waiting = _
  rw [output_waiting]
  show (outputOne hw false _).waiting = _
  rw [outputOne_waiting]
  rfl

@[simp] theorem popPacket_waiting (t : Tcb) : t.popPacket.waiting = t.waiting := by
  unfold popPacket
  split
  · rfl
  split
  · rfl
  · dsimp only
    split
    · exact output_waiting _
    split
    · split
      · rw [output_waiting, canSend_waiting]
        rfl
      · exact canSend_waiting _
    · rfl

@[simp] theorem getPacket_waiting (t : Tcb) : (t.getPacket hw).waiting = t.waiting := by
  unfold getPacket
  rw [popPacket_waiting]
  split
  · exact outputOne_waiting _ false
  · rfl

@[simp] theorem updateCwnd_waiting (t : Tcb) (n : BitVec 32) :
    (t.updateCwnd n).waiting = t.waiting := by
  unfold updateCwnd
  dsimp only
  split
  · rfl
  split <;> rfl

@[simp] theorem partOfSegmentAcked_waiting (segAck : TcpSeq) (t : Tcb) :
    (t.partOfSegmentAcked segAck).2.waiting = t.waiting := by
  unfold partOfSegmentAcked
  split
  · dsimp only
    rw [updateCwnd_waiting]
    split
    · rfl
    · split <;> rfl
  · rfl

@[simp] theorem updateWindowIfNewer_waiting (th : TcpHdr) (segSeq : TcpSeq) (t : Tcb) :
    (t.updateWindowIfNewer th segSeq).waiting = t.waiting := by
  unfold updateWindowIfNewer
  split <;> rfl

@[simp] theorem partialAck_waiting (n : BitVec 32) (t : Tcb) :
    (t.partialAck n).waiting = t.waiting := by
  unfold partialAck
  dsimp only
  split <;> rfl

@[simp] theorem thirdDuplicateAck_waiting (th : TcpHdr) (t : Tcb) :
    (t.thirdDuplicateAck hw th).waiting = t.waiting := by
  unfold thirdDuplicateAck
  dsimp only
  split
  · exact fastRetransmit_waiting _
  · rfl

@[simp] theorem duplicateAck_waiting (th : TcpHdr) (t : Tcb) :
    (t.duplicateAck hw th).1.waiting = t.waiting := by
  unfold duplicateAck
  dsimp only
  split
  · rfl
  split
  · exact thirdDuplicateAck_waiting th _
  split <;> rfl

@[simp] theorem mergeOutOfOrder_waiting (t : Tcb) : t.mergeOutOfOrder.2.waiting = t.waiting := by
  unfold mergeOutOfOrder
  dsimp only
  split <;> rfl

@[simp] theorem insertOutOfOrder_waiting (seg : TcpSeq) (p : List Byte) (t : Tcb) :
    (t.insertOutOfOrder seg p).waiting = t.waiting := by
  unfold insertOutOfOrder
  split
  · rfl
  split <;> rfl

@[simp] theorem shouldSendAck_waiting (n : BitVec 16) (t : Tcb) :
    (t.shouldSendAck n).2.waiting = t.waiting := by
  unfold shouldSendAck
  dsimp only
  split <;> rfl

@[simp] theorem outputAfter_waiting (doOutput doOutputData : Bool) (t : Tcb) :
    (t.outputAfter doOutput doOutputData).waiting = t.waiting := by
  unfold outputAfter
  split
  · exact output_waiting _
  split
  · dsimp only
    split
    · rw [output_waiting]
      exact canSend_waiting t
    · exact canSend_waiting t
  · rfl

theorem enterSyn_waiting (state : TcpState) (t : Tcb) : (t.enterSyn state).waiting = t.waiting :=
  output_waiting _

/-! ## Promises resolved -/

theorem waits_of_waiting (same : t'.waiting = t.waiting) (p : Promise) : t'.waits p = t.waits p := by
  cases p with
  | connect => exact congrArg (fun w => Option.isNone w) (congrArg Waiting.connectDone same)
  | dataReceived =>
      have reader : t'.rcv.reader = t.rcv.reader := congrArg Waiting.reader same
      show decide _ = decide _
      rw [reader]
  | allDataAcked => exact congrArg Waiting.allDataAcked same
  | sendAvailable => exact congrArg Waiting.sendAvailable same

/-- Promises are resolved that are waited for, each of them once, and then they
are not waited for any more. -/
def ResolvesOnce (t t' : Tcb) : Prop :=
  ∃ new, t'.resolved = t.resolved ++ new ∧ new.Nodup ∧
    ∀ p ∈ new, t.waits p = true ∧ t'.waits p = false

/-- And no wait begins. -/
structure Settles (t t' : Tcb) : Prop where
  once : ResolvesOnce t t'
  fewer : ∀ p, t'.waits p = true → t.waits p = true

namespace Settles

theorem of_waiting (same : t'.waiting = t.waiting) : Settles t t' where
  once := by
    refine ⟨[], ?_, List.nodup_nil, fun p mem => by cases mem⟩
    rw [List.append_nil]
    exact congrArg Waiting.resolved same
  fewer := fun p waits => (waits_of_waiting same p) ▸ waits

theorem refl (t : Tcb) : Settles t t := of_waiting rfl

/-- A promise that was resolved is not resolved again, as nobody waits for it. -/
theorem trans (first : Settles t t') (second : Settles t' t'') : Settles t t'' where
  once := by
    obtain ⟨new, log, nodup, once⟩ := first.once
    obtain ⟨new', log', nodup', once'⟩ := second.once
    refine ⟨new ++ new', by rw [log', log, List.append_assoc], ?_, fun p mem => ?_⟩
    · refine List.nodup_append.mpr ⟨nodup, nodup', fun p mem q mem' same => ?_⟩
      subst same
      exact absurd (once' p mem').1 (by rw [(once p mem).2]; exact Bool.false_ne_true)
    · rcases List.mem_append.mp mem with here | there
      · refine ⟨(once p here).1, ?_⟩
        rw [Bool.eq_false_iff]
        intro again
        have before := second.fewer p again
        rw [(once p here).2] at before
        cases before
      · exact ⟨first.fewer p (once' p there).1, (once' p there).2⟩
  fewer := fun p waits => first.fewer p (second.fewer p waits)

theorem since {u : Tcb} (settles : Settles u t') (same : u.waiting = t.waiting) : Settles t t' :=
  trans (of_waiting same) settles

theorem andThen (settles : Settles t t') (same : t''.waiting = t'.waiting) : Settles t t'' :=
  trans settles (of_waiting same)

/-- One promise is resolved, and all others stay. -/
theorem one {p : Promise} (log : t'.resolved = t.resolved ++ [p]) (waited : t.waits p = true)
    (past : t'.waits p = false) (others : ∀ q, q ≠ p → t'.waits q = t.waits q) : Settles t t' where
  once := by
    refine ⟨[p], log, List.nodup_singleton p, fun q mem => ?_⟩
    cases List.mem_singleton.mp mem
    exact ⟨waited, past⟩
  fewer := by
    intro q waits
    by_cases same : q = p
    · rw [same]
      exact waited
    · rwa [others q same] at waits

end Settles

theorem signalDataReceived_settles (t : Tcb) : Settles t t.signalDataReceived := by
  unfold signalDataReceived
  split
  · rename_i here
    refine .one (p := .dataReceived) rfl (decide_eq_true here) rfl fun q other => ?_
    cases q with
    | dataReceived => exact absurd rfl other
    | connect => rfl
    | allDataAcked => rfl
    | sendAvailable => rfl
  · exact .refl t

theorem abortReader_settles (t : Tcb) : Settles t t.abortReader := by
  unfold abortReader
  split
  · rename_i here
    refine .one (p := .dataReceived) rfl (decide_eq_true here) rfl fun q other => ?_
    cases q with
    | dataReceived => exact absurd rfl other
    | connect => rfl
    | allDataAcked => rfl
    | sendAvailable => rfl
  · exact .refl t

theorem signalAllDataAcked_settles (t : Tcb) : Settles t t.signalAllDataAcked := by
  unfold signalAllDataAcked
  split
  · rename_i here
    refine .one (p := .allDataAcked) rfl (Bool.and_eq_true_iff.mp here).1 rfl fun q other => ?_
    cases q with
    | allDataAcked => exact absurd rfl other
    | connect => rfl
    | dataReceived => rfl
    | sendAvailable => rfl
  · exact .refl t

theorem signalSendAvailable_settles (t : Tcb) : Settles t t.signalSendAvailable := by
  unfold signalSendAvailable
  split
  · rename_i here
    refine .one (p := .sendAvailable) rfl (Bool.and_eq_true_iff.mp here).1 rfl fun q other => ?_
    cases q with
    | sendAvailable => exact absurd rfl other
    | connect => rfl
    | dataReceived => rfl
    | allDataAcked => rfl
  · exact .refl t

theorem connectFailed_settles (pending : t.connectDone = none) : Settles t t.connectFailed := by
  refine .one (p := .connect) rfl (by unfold waits; rw [pending]; rfl) rfl fun q other => ?_
  cases q with
  | connect => exact absurd rfl other
  | dataReceived => rfl
  | allDataAcked => rfl
  | sendAvailable => rfl

theorem doEstablished_settles (pending : t.connectDone = none) : Settles t t.doEstablished := by
  refine .one (p := .connect) rfl (by unfold waits; rw [pending]; rfl) rfl fun q other => ?_
  cases q with
  | connect => exact absurd rfl other
  | dataReceived => rfl
  | allDataAcked => rfl
  | sendAvailable => rfl

/-- A reset breaks all promises but that of the connection. -/
theorem doReset_waits (t : Tcb) (p : Promise) (other : p ≠ .connect) :
    t.doReset.waits p = false := by
  cases p with
  | connect => exact absurd rfl other
  | dataReceived =>
      show decide ((if t.rcv.reader = .waiting then Reader.idle else t.rcv.reader) = .waiting) = false
      split
      · rfl
      · exact decide_eq_false (by assumption)
  | allDataAcked => rfl
  | sendAvailable => rfl

theorem doReset_settles (t : Tcb) : Settles t t.doReset where
  once := by
    refine ⟨[Promise.dataReceived, .allDataAcked, .sendAvailable].filter t.waits, rfl, ?_, ?_⟩
    · exact List.Nodup.filter _ (by decide)
    · intro p mem
      obtain ⟨listed, waits⟩ := List.mem_filter.mp mem
      refine ⟨waits, doReset_waits t p ?_⟩
      rintro rfl
      revert listed
      decide
  fewer := by
    intro p waits
    by_cases connect : p = .connect
    · rw [connect] at waits ⊢
      exact waits
    · rw [doReset_waits t p connect] at waits
      cases waits

/-! ## What serving a connection does to its waiters -/

/-- Nobody waits for data that the other side will not send. -/
def Heard (t : Tcb) : Prop := t.foreignWillNotSend = true → t.rcv.reader ≠ .waiting

structure Serves (t t' : Tcb) : Prop where
  settles : Settles t t'
  connectDone : t'.connectDone = t.connectDone
  heard : t.Heard → t'.Heard

namespace Serves

/-- In the same state nobody has to be told. -/
theorem calm (settles : Settles t t') (connectDone : t'.connectDone = t.connectDone)
    (state : t'.state = t.state) : Serves t t' where
  settles := settles
  connectDone := connectDone
  heard := by
    intro heard silent waits
    have before : t.waits .dataReceived = true := settles.fewer .dataReceived (decide_eq_true waits)
    refine heard ?_ (of_decide_eq_true before)
    unfold foreignWillNotSend inState at *
    rwa [state] at silent

theorem of_standing (settles : Settles t t') (same : t'.standing = t.standing) : Serves t t' :=
  calm settles (congrArg Standing.connectDone same) (congrArg Standing.state same)

theorem of_bearing (waiting : t'.waiting = t.waiting) (same : t'.bearing = t.bearing) :
    Serves t t' :=
  of_standing (.of_waiting waiting) (standing_of_bearing same)

theorem refl (t : Tcb) : Serves t t := ⟨.refl t, rfl, fun heard => heard⟩

theorem trans (first : Serves t t') (second : Serves t' t'') : Serves t t'' :=
  ⟨first.settles.trans second.settles, second.connectDone.trans first.connectDone,
    second.heard ∘ first.heard⟩

/-- Whoever does not wait for data may get into any state. -/
theorem told (settles : Settles t t') (connectDone : t'.connectDone = t.connectDone)
    (past : t'.rcv.reader ≠ .waiting) : Serves t t' := ⟨settles, connectDone, fun _ _ => past⟩

end Serves

theorem setRetransmitTimer_settles (t : Tcb) : Settles t t.setRetransmitTimer := by
  unfold setRetransmitTimer
  split
  · exact (signalAllDataAcked_settles { t with retransmitArmed := false }).since rfl
  · exact .of_waiting rfl

theorem wholeSegmentsAcked_settles (segAck : TcpSeq) (segs : List UnackedSegment) (t : Tcb) :
    Settles t (wholeSegmentsAcked segAck segs t).2 := by
  induction segs generalizing t with
  | nil => exact .of_waiting rfl
  | cons seg rest ih =>
      unfold wholeSegmentsAcked
      split
      · refine ((signalSendAvailable_settles _).since ?_).trans (ih _)
        exact updateCwnd_waiting _ _
      · exact .of_waiting rfl

theorem dataSegmentAcked_settles (segAck : TcpSeq) (t : Tcb) :
    Settles t (t.dataSegmentAcked segAck).2 := by
  unfold dataSegmentAcked
  exact (wholeSegmentsAcked_settles segAck _ t).andThen (partOfSegmentAcked_waiting segAck _)

theorem newDataAcked_settles (th : TcpHdr) (n : BitVec 32) (t : Tcb) :
    Settles t (t.newDataAcked hw th n) := by
  unfold newDataAcked
  split
  · split
    · unfold fullAck
      exact (setRetransmitTimer_settles _).since rfl
    · exact .of_waiting ((partialAck_waiting _ _).trans (fastRetransmit_waiting t))
  · exact (setRetransmitTimer_settles _).since rfl

theorem ackNewData_settles (th : TcpHdr) (segSeq : TcpSeq) (t : Tcb) :
    Settles t (t.ackNewData hw th segSeq) := by
  unfold ackNewData
  dsimp only
  refine Settles.trans ?_ (newDataAcked_settles th _ _)
  exact (dataSegmentAcked_settles th.ack t).andThen (updateWindowIfNewer_waiting th segSeq _)

theorem ackInEstablished_serves (th : TcpHdr) (segSeq : TcpSeq) (segLen : Nat) (t : Tcb) :
    Serves t (reached (t.ackInEstablished hw th segSeq segLen)) := by
  refine .of_standing ?_ (ackInEstablished_standing th segSeq segLen t)
  refine @reached_ackInEstablished hw (Settles t) t th segSeq segLen (.refl t) ?_ ?_ ?_ ?_
  · exact fun _ _ => ackNewData_settles th segSeq t
  · exact fun _ _ _ => .of_waiting (duplicateAck_waiting th t)
  · exact .of_waiting (output_waiting t)
  · exact .of_waiting rfl

/-- What the reader is told of is not waited for any more. -/
theorem signalDataReceived_reader (t : Tcb) : t.signalDataReceived.rcv.reader ≠ .waiting := by
  unfold signalDataReceived
  split
  · exact fun waits => by cases waits
  · assumption

theorem segmentText_settles (data : List Byte) (t : Tcb) : Settles t (t.segmentText data).2 := by
  unfold segmentText
  split
  · exact .refl t
  dsimp only
  split
  · exact (signalDataReceived_settles _).since (mergeOutOfOrder_waiting _)
  · refine Settles.andThen ?_ (shouldSendAck_waiting _ _)
    exact (signalDataReceived_settles _).since (mergeOutOfOrder_waiting _)

theorem segmentText_serves (data : List Byte) (t : Tcb) : Serves t (t.segmentText data).2 :=
  .of_standing (segmentText_settles data t) (segmentText_standing data t)

theorem takeFin_serves (finSeq : TcpSeq) (t : Tcb) : Serves t (t.takeFin finSeq) := by
  refine .of_standing ?_ (takeFin_standing finSeq t)
  unfold takeFin
  refine Settles.andThen ?_ ((output_waiting _).trans (clearDelayedAck_waiting _))
  exact (signalDataReceived_settles _).since rfl

theorem takeFin_reader (finSeq : TcpSeq) (t : Tcb) : (t.takeFin finSeq).rcv.reader ≠ .waiting := by
  unfold takeFin
  rw [show (output _).rcv.reader = _ from congrArg Waiting.reader (output_waiting _)]
  exact signalDataReceived_reader _

theorem ackOfFin_serves (th : TcpHdr) (t : Tcb) : Serves t (ended (t.ackOfFin th)) := by
  have quiet : ∀ {u : Tcb}, t.foreignWillNotSend = true → u.waiting = t.waiting → Serves t u := by
    intro u silent same
    refine ⟨.of_waiting same, congrArg Waiting.connectDone same, fun heard _ => ?_⟩
    rw [show u.rcv.reader = t.rcv.reader from congrArg Waiting.reader same]
    exact heard silent
  unfold ackOfFin
  split
  · dsimp only [ended]
    split
    · exact ⟨.of_waiting rfl, rfl, fun _ silent => by cases silent⟩
    · exact .refl t
  · rename_i here
    dsimp only [ended]
    split
    · exact quiet (inState_of_eq here (by decide)) rfl
    · exact .refl t
  · rename_i here
    split
    · exact quiet (inState_of_eq here (by decide)) rfl
    · exact .refl t
  · exact .refl t

theorem checkFin_serves (th : TcpHdr) (finSeq : TcpSeq) (doOutput : Bool) (t : Tcb) :
    Serves t (reached (t.checkFin th finSeq doOutput)) := by
  have taken := takeFin_serves finSeq t
  have told : ∀ {u : Tcb}, u.waiting = (t.takeFin finSeq).waiting → Serves t u := by
    intro u same
    refine .told (taken.settles.andThen same)
      ((congrArg Waiting.connectDone same).trans taken.connectDone) ?_
    rw [show u.rcv.reader = _ from congrArg Waiting.reader same]
    exact takeFin_reader finSeq t
  unfold checkFin
  split
  · exact .refl t
  split
  · exact .refl t
  split
  · dsimp only
    split <;> exact told rfl
  · exact .refl t

theorem afterAck_serves (th : TcpHdr) (segSeq : TcpSeq) (data : List Byte) (doOutputData : Bool)
    (t : Tcb) : Serves t (t.afterAck th segSeq data doOutputData) := by
  refine afterAck_of_steps doOutputData (.refl t) ?_ ?_ ?_
  · exact fun _ => segmentText_serves data t
  · exact fun u doOutput serves => serves.trans (checkFin_serves th _ doOutput u)
  · exact fun u doOutput serves => serves.trans
      (.of_bearing (outputAfter_waiting doOutput doOutputData u)
        (outputAfter_bearing doOutput doOutputData u))

/-- Outside SYN_RECEIVED the acknowledgement serves, and what comes behind it. -/
theorem checked_serves (th : TcpHdr) (segSeq : TcpSeq) (data : List Byte)
    (past : t.inState [.synReceived] = false) :
    Serves t (match t.checkAck hw th segSeq data.length with
      | .error v => v
      | .ok (v, doOutputData) => v.afterAck th segSeq data doOutputData) := by
  have acked : Serves t (reached (t.checkAck hw th segSeq data.length)) := by
    refine checkAck_of_steps ?_
      (fun u _ serves => serves.trans (ackInEstablished_serves th segSeq data.length u))
      fun u serves => serves.trans (ackOfFin_serves th u)
    rw [ackInSynReceived_past th past]
    exact .refl t
  exact checked_of_steps acked fun u doOutputData serves =>
    serves.trans (afterAck_serves th segSeq data doOutputData u)

theorem doReset_serves (t : Tcb) : Serves t t.doReset := by
  refine .told (doReset_settles t) rfl ?_
  exact of_decide_eq_false (doReset_waits t .dataReceived (by decide))

theorem retransmitData_serves (t : Tcb) : Serves t (t.retransmitData hw) := by
  unfold retransmitData
  split
  · exact .refl t
  dsimp only
  split
  · refine .of_bearing ?_ ?_
    · rw [outputUpdateRto_waiting, outputOne_waiting]
      rfl
    · rw [outputUpdateRto_bearing, outputOne_bearing]
      rfl
  · have reset : ∀ u : Tcb, u.waiting = t.waiting → Serves t u.doReset := by
      intro u same
      have serves := doReset_serves u
      exact ⟨serves.settles.since same, serves.connectDone.trans (congrArg Waiting.connectDone same),
        fun _ silent => of_decide_eq_false (doReset_waits u .dataReceived (by decide))⟩
    exact reset _ rfl

theorem retransmitFin_serves (t : Tcb) : Serves t (t.retransmitFin hw) := by
  have counted : Serves t t.countFin.outputUpdateRto :=
    .of_bearing (outputUpdateRto_waiting _) (outputUpdateRto_bearing _)
  unfold retransmitFin
  split
  · split
    · exact counted.trans (retransmitData_serves _)
    · exact .calm (.of_waiting rfl) rfl rfl
  · exact retransmitData_serves t

/-- Behind the SYN that is given up `retransmit` tells nobody. -/
theorem retransmit_serves (tries : t.synNeedsOn = true → t.snd.synRetransmit < maxNrRetransmit) :
    Serves t (t.retransmit hw) := by
  have counted : Serves t t.countSyn.outputUpdateRto :=
    .of_bearing (outputUpdateRto_waiting _) (outputUpdateRto_bearing _)
  unfold retransmit
  split
  · rename_i syn
    rw [if_pos (tries syn)]
    exact counted.trans (retransmitFin_serves _)
  · exact retransmitFin_serves t

theorem closeContinuation_serves (t : Tcb) : Serves t (t.closeContinuation hw) := by
  have entered : ∀ u : Tcb, Serves t u → Serves t (u.outputOne hw false).output := fun u serves =>
    serves.trans (.of_bearing ((output_waiting _).trans (outputOne_waiting _ false))
      ((output_bearing _).trans (outputOne_bearing _ false)))
  unfold closeContinuation
  apply entered
  refine ⟨.of_waiting rfl, rfl, fun heard silent => heard ?_⟩
  revert silent
  cases here : t.state <;> simp [foreignWillNotSend, inState, here]

end Tcb

end ActorNet.Tcp
