import ActorNet.Tcp.Onward
import ActorNet.Tcp.Stack

/-!
# How a connection leaves SYN_RECEIVED

By the acknowledgement that completes the handshake, after which it asks to be
queued for accept; or by being given up, with a reset, a second SYN or too many
attempts, after which it asks to be removed. Nothing else moves it.
-/

namespace ActorNet.Tcp

open Lib Net

namespace Tcb

variable {t t' t'' : Tcb} {hw : HwFeatures}

/-- `retransmit` has made all attempts for what it is to send again. -/
def retransmitGivesUp (t : Tcb) : Bool :=
  t.synNeedsOn && decide (maxNrRetransmit ≤ t.snd.synRetransmit) ||
    t.finNeedsOn && decide (maxNrRetransmit ≤ t.snd.finRetransmit) ||
    t.snd.data.head?.any fun seg => decide (maxNrRetransmit ≤ seg.nrTransmits)

/-- The events by which a block on its own gives its connection up. -/
def givesUp (t : Tcb) : TcbEvent → Bool
  | .retransmit => t.retransmitGivesUp
  | .arpTimeout => t.inState [.synSent]
  | .shutdownConnect => t.synNeedsOn
  | _ => false

/-- A reset or a SYN in SYN_RECEIVED. -/
def resetBy (th : TcpHdr) (p : Impl) (t : Tcb) : Bool :=
  match t.arrival th p with
  | .inOrder .. => t.inState [.synReceived] && (th.fRst || th.fSyn)
  | _ => false

/-- A block that stays where it is: it does not ask to be removed, and if it is
in SYN_RECEIVED it remains there. -/
structure Stays (t t' : Tcb) : Prop where
  state : t.state = .synReceived → t'.state = .synReceived
  removal : .removeFromTcbs ∈ t'.requests → .removeFromTcbs ∈ t.requests

namespace Stays

theorem refl (t : Tcb) : Stays t t := ⟨fun here => here, fun mem => mem⟩

theorem trans (first : Stays t t') (second : Stays t' t'') : Stays t t'' :=
  ⟨second.state ∘ first.state, first.removal ∘ second.removal⟩

theorem of_standing (same : t'.standing = t.standing) : Stays t t' where
  state := (congrArg Standing.state same).trans
  removal := by
    have requests : t'.requests = t.requests := congrArg Standing.requests same
    exact fun mem => requests ▸ mem

theorem of_bearing (same : t'.bearing = t.bearing) : Stays t t' :=
  of_standing (standing_of_bearing same)

end Stays

/-! ## On its own -/

theorem retransmitData_stays (attempts : t.snd.data.head?.any (fun seg =>
    decide (maxNrRetransmit ≤ seg.nrTransmits)) = false) : Stays t (t.retransmitData hw) := by
  unfold retransmitData
  split
  · exact .refl t
  rename_i seg rest flight
  rw [flight] at attempts
  dsimp only
  rw [if_pos (by simpa using attempts)]
  refine .of_bearing ?_
  rw [outputUpdateRto_bearing, outputOne_bearing]
  rfl

theorem outputUpdateRto_keeps (t : Tcb) :
    t.outputUpdateRto.snd = t.snd ∧ t.outputUpdateRto.state = t.state := by
  unfold outputUpdateRto output
  split <;> exact ⟨rfl, rfl⟩

theorem retransmitFin_stays
    (fin : (t.finNeedsOn && decide (maxNrRetransmit ≤ t.snd.finRetransmit)) = false)
    (attempts : t.snd.data.head?.any (fun seg => decide (maxNrRetransmit ≤ seg.nrTransmits)) =
      false) : Stays t (t.retransmitFin hw) := by
  unfold retransmitFin
  split
  · rename_i on
    have few : t.snd.finRetransmit < maxNrRetransmit := by simpa [on] using fin
    rw [if_pos few]
    have counted : Stays t t.countFin.outputUpdateRto :=
      .of_bearing ((outputUpdateRto_bearing _).trans rfl)
    refine counted.trans (retransmitData_stays ?_)
    rw [(outputUpdateRto_keeps _).1]
    exact attempts
  · exact retransmitData_stays attempts

theorem retransmit_stays (tries : t.retransmitGivesUp = false) : Stays t (t.retransmit hw) := by
  simp only [retransmitGivesUp, Bool.or_eq_false_iff] at tries
  obtain ⟨⟨syn, fin⟩, attempts⟩ := tries
  unfold retransmit
  split
  · rename_i on
    have few : t.snd.synRetransmit < maxNrRetransmit := by simpa [on] using syn
    rw [if_pos few]
    have counted : Stays t t.countSyn.outputUpdateRto :=
      .of_bearing ((outputUpdateRto_bearing _).trans rfl)
    obtain ⟨snd, state⟩ := outputUpdateRto_keeps t.countSyn
    refine counted.trans (retransmitFin_stays ?_ ?_)
    · unfold finNeedsOn inState at *
      rw [snd, state]
      exact fin
    · rw [snd]
      exact attempts
  · exact retransmitFin_stays fin attempts

theorem closeContinuation_stays (t : Tcb) : Stays t (t.closeContinuation hw) := by
  have closed : ∀ state : TcpState, (t.state = .synReceived → state = .synReceived) →
      Stays t { t with snd := { t.snd with closed := true }, state } := fun _ moves =>
    ⟨moves, fun mem => mem⟩
  unfold closeContinuation
  refine (closed _ ?_).trans (.of_bearing ((output_bearing _).trans (outputOne_bearing _ false)))
  intro here
  rw [here]

/-- A block that does not give up stays, whatever its user and its timers do. -/
theorem handle_stays (e : TcbEvent) (own : e.own = true) (tries : t.givesUp e = false) :
    Stays t (t.handle hw e) := by
  cases e with
  | connect iss => cases own
  | listen iss beyond th p => cases own
  | segment beyond th p => cases own
  | send p => exact .of_bearing (send_bearing t p)
  | waitForData => exact .of_bearing (waitForData_bearing t)
  | read => exact .of_bearing (read_bearing t)
  | closeRead => exact .of_bearing (abortReader_bearing t)
  | closeWrite => exact .of_bearing (close_bearing t)
  | shutdownConnect =>
      have tries : t.synNeedsOn = false := tries
      show Stays t t.shutdownConnect
      unfold shutdownConnect
      rw [tries]
      exact .of_bearing ((close_bearing _).trans (abortReader_bearing t))
  | closeContinuation =>
      have ready : Stays t { t with closeReady := t.closeReady - 1 } := .of_bearing rfl
      exact ready.trans (closeContinuation_stays _)
  | delayedAck => exact .of_bearing (output_bearing _)
  | retransmit =>
      have fired : Stays t { t with retransmitArmed := false } := .of_bearing rfl
      exact fired.trans (retransmit_stays tries)
  | persist => exact .of_bearing (persist_bearing { t with persistArmed := false })
  | resolved => exact .of_bearing rfl
  | arpQueueFull => exact .of_bearing rfl
  | arpTimeout =>
      have elsewhere : { t with resolving := t.resolving - 1 }.inState [.synSent] = false := tries
      show Stays t t.arpTimeout
      unfold arpTimeout
      dsimp only
      rw [elsewhere]
      exact .of_bearing rfl
  | getPacket => exact .of_bearing (getPacket_bearing { t with pollTcbs := t.pollTcbs - 1 })

/-! ## By a segment -/

theorem segmentInOrder_stays (th : TcpHdr) (segSeq : TcpSeq) (data : List Byte)
    (here : t.state = .synReceived) (idle : t.completesHandshake th = false)
    (noReset : (th.fRst || th.fSyn) = false) : Stays t (t.segmentInOrder hw th segSeq data) := by
  obtain ⟨noRst, noSyn⟩ := Bool.or_eq_false_iff.mp noReset
  have received : t.inState [.synReceived] = true := by
    unfold inState
    rw [here]
    rfl
  unfold segmentInOrder
  simp only [noRst, noSyn, Bool.false_eq_true, false_and, if_false]
  split
  · exact .refl t
  rename_i ack
  have refused : ¬(t.snd.unacknowledged ≤ th.ack ∧ th.ack ≤ t.snd.next) := by
    simpa [completesHandshake, received, noRst, noSyn, (by simpa using ack : th.fAck = true)]
      using idle
  rw [checkAck_in_synReceived th segSeq data.length received, if_neg refused]
  refine ⟨fun _ => here, fun mem => ?_⟩
  rcases List.mem_append.mp mem with before | last
  · exact before
  · cases List.mem_singleton.mp last

theorem inputHandleOtherState_stays (th : TcpHdr) (p : Impl) (here : t.state = .synReceived)
    (idle : t.completes th p = false) (noReset : t.resetBy th p = false) :
    Stays t (t.inputHandleOtherState hw th p) := by
  unfold completes at idle
  unfold resetBy at noReset
  unfold inputHandleOtherState
  cases arrived : t.arrival th p with
  | overrun => exact .of_bearing rfl
  | unacceptable => exact .of_bearing (output_bearing t)
  | outOfOrder segSeq data =>
      exact .of_bearing ((output_bearing _).trans (insertOutOfOrder_bearing _ _ _))
  | inOrder segSeq data =>
      rw [arrived] at idle noReset
      have received : t.inState [.synReceived] = true := by
        unfold inState
        rw [here]
        rfl
      simp only [received, Bool.true_and] at noReset
      exact segmentInOrder_stays th segSeq data here idle noReset

theorem checkFin_requests (th : TcpHdr) (finSeq : TcpSeq) (doOutput : Bool)
    (here : t.state = .established) :
    (reached (t.checkFin th finSeq doOutput)).requests = t.requests := by
  have taken : (t.takeFin finSeq).requests = t.requests :=
    congrArg Standing.requests (takeFin_standing finSeq t)
  have state : (t.takeFin finSeq).state = .established :=
    (congrArg Standing.state (takeFin_standing finSeq t)).trans here
  unfold checkFin
  split
  · rfl
  split
  · rfl
  split
  · simp only [state]
    exact taken
  · rfl

theorem afterAck_requests (th : TcpHdr) (segSeq : TcpSeq) (data : List Byte) (doOutputData : Bool)
    (here : t.state = .established) :
    (t.afterAck th segSeq data doOutputData).requests = t.requests := by
  have open_ : t.inState [.closeWait, .closing, .lastAck, .timeWait] = false ∧
      t.inState [.established, .finWait1, .finWait2] = true := by
    unfold inState
    rw [here]
    decide
  have same := segmentText_standing data t
  have text : (t.segmentText data).2.requests = t.requests := congrArg Standing.requests same
  have state : (t.segmentText data).2.state = .established :=
    (congrArg Standing.state same).trans here
  unfold afterAck
  rw [open_.1, open_.2, if_neg Bool.false_ne_true, if_pos rfl]
  dsimp only
  have checked := checkFin_requests th (segSeq + data.length) (t.segmentText data).1 state
  split
  · rename_i stopped
    rw [stopped] at checked
    exact checked.trans text
  · rename_i goes
    rw [goes] at checked
    refine Eq.trans ?_ (checked.trans text)
    exact congrArg Standing.requests (standing_of_bearing (outputAfter_bearing _ _ _))

/-- A connection just established asks for nothing more in the same event. -/
theorem segmentInOrder_requests (th : TcpHdr) (segSeq : TcpSeq) (data : List Byte)
    (here : t.state = .established) (noRst : th.fRst = false) (noSyn : th.fSyn = false) :
    (t.segmentInOrder hw th segSeq data).requests = t.requests := by
  have first := ackInSynReceived_past th (by unfold inState; rw [here]; rfl)
  have same := @ackInEstablished_standing hw th segSeq data.length t
  unfold segmentInOrder
  simp only [noRst, noSyn, Bool.false_eq_true, false_and, if_false]
  split
  · rfl
  cases middle : t.ackInEstablished hw th segSeq data.length with
  | error u =>
      have stopped : t.checkAck hw th segSeq data.length = .error u :=
        checkAck_of_error first middle
      rw [middle] at same
      simp only [stopped]
      exact congrArg Standing.requests same
  | ok u =>
      rw [middle] at same
      have state : u.1.state = .established := (congrArg Standing.state same).trans here
      have last : u.1.ackOfFin th = .ok u.1 := by
        unfold ackOfFin
        rw [state]
      have checked : t.checkAck hw th segSeq data.length = .ok (u.1, u.2) :=
        checkAck_of_ok first middle last
      simp only [checked]
      exact (afterAck_requests th segSeq data u.2 state).trans (congrArg Standing.requests same)

/-- The segment that completes the handshake asks for that, and for no removal. -/
theorem inputHandleOtherState_completes {th : TcpHdr} {p : Impl} (done : t.completes th p = true) :
    (t.inputHandleOtherState hw th p).id = t.id ∧
      (t.inputHandleOtherState hw th p).requests = t.requests ++ [.addConnectedTcb] := by
  obtain ⟨segSeq, data, completes, result⟩ := @inputHandleOtherState_of_completes t hw th p done
  simp only [completesHandshake, Bool.and_eq_true, Bool.not_eq_true'] at completes
  rw [result]
  refine ⟨(segmentInOrder_onward th segSeq data rfl).id, ?_⟩
  exact segmentInOrder_requests th segSeq data rfl completes.1.1.1.1.2 completes.1.1.1.2

/-! ## Opening -/

theorem enterSyn_asks (state : TcpState) (t : Tcb) : (t.enterSyn state).id = t.id ∧
    (t.enterSyn state).requests = t.requests ∧ (t.enterSyn state).state = state := by
  unfold enterSyn output
  split <;> exact ⟨rfl, rfl, rfl⟩

theorem connect_asks (hw : HwFeatures) (iss : TcpSeq) (t : Tcb) :
    (t.connect hw iss).id = t.id ∧ (t.connect hw iss).requests = t.requests := by
  obtain ⟨id, requests, -⟩ := enterSyn_asks .synSent _
  exact ⟨id, requests⟩

/-- A listener moves the block to SYN_RECEIVED, or the process ends. -/
theorem inputHandleListenState_asks (beyond : Nat → Byte) (iss : TcpSeq) (th : TcpHdr) (p : Impl)
    (t : Tcb) : (t.inputHandleListenState hw beyond iss th p).id = t.id ∧
      (t.inputHandleListenState hw beyond iss th p).requests = t.requests ∧
      ((t.inputHandleListenState hw beyond iss th p).crash = none →
        (t.inputHandleListenState hw beyond iss th p).state = .synReceived) := by
  have ended : ∀ (u : Tcb) (c : Crash), (u.fail c).crash ≠ none := by
    intro u c
    show (u.crash <|> some c) ≠ none
    cases u.crash <;> exact Option.some_ne_none _
  unfold inputHandleListenState
  dsimp only
  split
  · rename_i failed
    rcases takeHeader_error failed with rfl | rfl
    · exact ⟨rfl, rfl, fun going => absurd going (ended _ _)⟩
    · exact ⟨rfl, rfl, fun going => absurd going (ended _ _)⟩
  · obtain ⟨id, requests, state⟩ := enterSyn_asks .synReceived _
    exact ⟨id, requests, fun _ => state⟩

theorem synInSynSent_asks (beyond : Nat → Byte) (th : TcpHdr) (opts : List Byte) (t : Tcb) :
    (t.synInSynSent hw beyond th opts).id = t.id ∧
      (t.synInSynSent hw beyond th opts).requests = t.requests := by
  unfold synInSynSent
  split
  · unfold output
    split <;> exact ⟨rfl, rfl⟩
  · obtain ⟨id, requests, -⟩ := enterSyn_asks .synReceived (t.takeSyn th)
    exact ⟨id, requests⟩

/-- Only the segment that completes a handshake makes a block ask to be queued. -/
theorem inputHandle_asks (beyond : Nat → Byte) (th : TcpHdr) (p : Impl)
    (idle : t.completes th p = false) : (t.inputHandle hw beyond th p).id = t.id ∧
      (.addConnectedTcb ∈ (t.inputHandle hw beyond th p).requests →
        .addConnectedTcb ∈ t.requests) := by
  unfold inputHandle
  split
  · rcases t.inputHandleSynSentState_cases beyond th p with onward | ⟨opts, -, -, -, -, result⟩
    · exact ⟨onward.id, onward.asks⟩
    · obtain ⟨id, requests⟩ := @synInSynSent_asks hw beyond th opts t
      rw [result]
      exact ⟨id, fun mem => requests ▸ mem⟩
  · have onward := @inputHandleOtherState_onward t hw th p idle
    exact ⟨onward.id, onward.asks⟩

end Tcb

end ActorNet.Tcp
