import ActorNet.Tcp.Polling
import ActorNet.Tcp.WindowAssertion

/-!
# After the removal

`cleanup` takes a block out of the table. It does not stop the persist timer,
and it closes neither the user's side nor the poll: a block that is not CLOSED
then still builds what it is asked for. What is asked for is listed in `Quiet`;
a block that is removed without a persist timer and meets no more than that is
`Silenced`.
-/

namespace ActorNet.Tcp

open Lib Net

namespace Tcb

variable {t t' u : Tcb} {hw : HwFeatures}

/-- What `cleanup` leaves: nothing to send, and two timers stopped. -/
structure CleanedUp (t : Tcb) : Prop where
  life : t.life = .removed
  retransmit : t.retransmitArmed = false
  delayedAck : t.delayedAckArmed = false
  data : t.snd.data = []
  unsent : t.snd.unsent = []

/-- `send` does nothing, or there is nobody to call it. -/
def Mute (t : Tcb) : Prop :=
  t.state = .closed ∨ t.snd.closed = true ∨ t.connectDone ≠ some true

theorem CleanedUp.cleanup (t : Tcb) : t.cleanup.CleanedUp := ⟨rfl, rfl, rfl, rfl, rfl⟩
theorem CleanedUp.doReset (t : Tcb) : t.doReset.CleanedUp := ⟨rfl, rfl, rfl, rfl, rfl⟩

/-! ## How a block is removed -/

/-- The states that follow our FIN are entered with the sending side closed. -/
def Shut (t : Tcb) : Prop :=
  t.inState [.finWait1, .finWait2, .closing, .lastAck, .timeWait] = true → t.snd.closed = true

theorem Shut.of_standing (shut : t.Shut) (same : t'.standing = t.standing) : t'.Shut := by
  have state : t'.state = t.state := congrArg Standing.state same
  have closed : t'.snd.closed = t.snd.closed := congrArg Standing.closed same
  unfold Shut inState at *
  rw [state, closed]
  exact shut

theorem Shut.of_bearing (shut : t.Shut) (same : t'.bearing = t.bearing) : t'.Shut :=
  shut.of_standing (standing_of_bearing same)

/-- A block that stays, or was cleaned up with the persist timer as it was. -/
def Removes (t t' : Tcb) : Prop :=
  t'.life = t.life ∨ t'.CleanedUp ∧ t'.Mute ∧ t'.persistArmed = t.persistArmed

theorem Removes.of_bearing (same : t'.bearing = t.bearing) : Removes t t' :=
  .inl (congrArg (fun b => b.life) same)

theorem Removes.doReset (t : Tcb) : Removes t t.doReset := .inr ⟨.doReset t, .inl rfl, rfl⟩

theorem Removes.doClosed (t : Tcb) : Removes t t.doClosed := .inr ⟨.cleanup _, .inl rfl, rfl⟩

theorem Removes.doTimeWait (closed : t.snd.closed = true) : Removes t t.doTimeWait :=
  .inr ⟨.cleanup _, .inr (.inl closed), rfl⟩

theorem Removes.connectFailed (t : Tcb) : Removes t t.connectFailed.cleanup := by
  refine .inr ⟨.cleanup _, .inr (.inr ?_), rfl⟩
  exact fun open_ => by cases open_

theorem Removes.since (removes : Removes u t') (life : u.life = t.life)
    (persist : u.persistArmed = t.persistArmed) : Removes t t' := by
  rcases removes with stays | ⟨cleaned, mute, same⟩
  · exact .inl (stays.trans life)
  · exact .inr ⟨cleaned, mute, same.trans persist⟩

theorem output_persistArmed (t : Tcb) : t.output.persistArmed = t.persistArmed := by
  unfold output
  split <;> rfl

theorem output_life (t : Tcb) : t.output.life = t.life := congrArg (fun b => b.life) t.output_bearing

theorem retransmitData_removes (t : Tcb) : Removes t (t.retransmitData hw) := by
  unfold retransmitData
  split
  · exact .inl rfl
  dsimp only
  split
  · refine .of_bearing ?_
    rw [outputUpdateRto_bearing, outputOne_bearing]
    rfl
  · exact .inr ⟨.doReset _, .inl rfl, rfl⟩

theorem retransmitFin_removes (t : Tcb) : Removes t (t.retransmitFin hw) := by
  unfold retransmitFin
  split
  · rename_i fin
    split
    · exact (retransmitData_removes _).since (output_life _) (output_persistArmed _)
    · refine .inr ⟨.cleanup _, .inr (.inl ?_), rfl⟩
      simp only [finNeedsOn, Bool.and_eq_true] at fin
      exact fin.1.2
  · exact retransmitData_removes t

theorem retransmit_removes (t : Tcb) : Removes t (t.retransmit hw) := by
  unfold retransmit
  split
  · split
    · exact (retransmitFin_removes _).since (output_life _) (output_persistArmed _)
    · exact (Removes.connectFailed t.countSyn).since rfl rfl
  · exact retransmitFin_removes t

/-- In the states before our FIN the checks of an acknowledgement change neither
the state nor the table. -/
theorem checkAck_standing (th : TcpHdr) (segSeq : TcpSeq) (segLen : Nat)
    (here : t.inState [.established, .closeWait] = true) :
    (reached (t.checkAck hw th segSeq segLen)).standing = t.standing := by
  have apart : ∀ v : Tcb, v.standing = t.standing →
      v.state = .established ∨ v.state = .closeWait := by
    intro v same
    rw [show v.state = t.state from congrArg Standing.state same]
    simpa [inState] using here
  refine @checkAck_of_steps t hw (fun u => u.standing = t.standing) th segSeq segLen ?_ ?_ ?_
  · unfold ackInSynReceived inState
    rcases apart t rfl with state | state <;> rw [state] <;> rfl
  · exact fun u _ same => (ackInEstablished_standing th segSeq segLen u).trans same
  · intro u same
    unfold ackOfFin
    rcases apart u same with state | state <;> rw [state] <;> exact same

/-! ## By a segment -/

theorem inState_of_eq {state : TcpState} {states : List TcpState} (here : t.state = state)
    (listed : state ∈ states) : t.inState states = true := by
  unfold inState
  rw [here]
  exact decide_eq_true listed

theorem segmentText_persistArmed (data : List Byte) (t : Tcb) :
    (t.segmentText data).2.persistArmed = t.persistArmed := by
  have merged : ∀ v : Tcb, v.mergeOutOfOrder.2.persistArmed = v.persistArmed := by
    intro v
    unfold mergeOutOfOrder
    dsimp only
    split <;> rfl
  have told : ∀ v : Tcb, v.signalDataReceived.persistArmed = v.persistArmed := by
    intro v
    unfold signalDataReceived
    split <;> rfl
  have acked : ∀ (v : Tcb) (n : BitVec 16), (v.shouldSendAck n).2.persistArmed = v.persistArmed := by
    intro v n
    unfold shouldSendAck
    dsimp only
    split <;> rfl
  unfold segmentText
  split
  · rfl
  dsimp only
  split
  · rw [told]
    exact merged _
  · rw [acked, told]
    exact merged _

theorem takeFin_persistArmed (finSeq : TcpSeq) (t : Tcb) :
    (t.takeFin finSeq).persistArmed = t.persistArmed := by
  unfold takeFin
  rw [output_persistArmed]
  show (signalDataReceived _).persistArmed = _
  unfold signalDataReceived
  split <;> rfl

/-- RCV.NXT behind the text of a segment, with what was out of order before. -/
def textEnd (data : List Byte) (t : Tcb) : TcpSeq :=
  if data.isEmpty then t.rcv.next
  else (takeMergeable (t.rcv.next + data.length) t.rcv.outOfOrder).next

theorem segmentText_next (data : List Byte) (t : Tcb) :
    (t.segmentText data).2.rcv.next = t.textEnd data := by
  have merged : ∀ v : Tcb, v.mergeOutOfOrder.2.rcv.next =
      (takeMergeable v.rcv.next v.rcv.outOfOrder).next := by
    intro v
    unfold mergeOutOfOrder
    rfl
  have told : ∀ v : Tcb, v.signalDataReceived.rcv.next = v.rcv.next := fun v =>
    congrArg Bearing.rcvNext (signalDataReceived_bearing v)
  have acked : ∀ (v : Tcb) (n : BitVec 16), (v.shouldSendAck n).2.rcv.next = v.rcv.next := fun v n =>
    congrArg Bearing.rcvNext (shouldSendAck_bearing n v)
  unfold segmentText textEnd
  split
  · rfl
  dsimp only
  split
  · rw [told]
    exact merged _
  · rw [acked, told]
    exact merged _

/-- Only in FIN_WAIT_2 does the FIN of the peer remove the block. -/
theorem checkFin_cases (th : TcpHdr) (finSeq : TcpSeq) (doOutput : Bool) (t : Tcb) :
    (∃ r, t.checkFin th finSeq doOutput = .ok r ∧ r.1.life = t.life) ∨
      t.checkFin th finSeq doOutput = .error t ∨
      t.state = .finWait2 ∧ th.fFin = true ∧ finSeq = t.rcv.next ∧
        t.checkFin th finSeq doOutput = .error (t.takeFin finSeq).doTimeWait := by
  have same := takeFin_standing finSeq t
  have state : (t.takeFin finSeq).state = t.state := congrArg Standing.state same
  have life : (t.takeFin finSeq).life = t.life := congrArg Standing.life same
  unfold checkFin
  split
  · exact .inl ⟨_, rfl, rfl⟩
  rename_i fin
  split
  · exact .inr (.inl rfl)
  split
  · rename_i next
    dsimp only
    split
    · exact .inl ⟨_, rfl, life⟩
    · exact .inl ⟨_, rfl, life⟩
    · exact .inl ⟨_, rfl, life⟩
    · rename_i here
      exact .inr (.inr ⟨state.symm.trans here, by simpa using fin, next, rfl⟩)
    · exact .inl ⟨_, rfl, life⟩
  · exact .inl ⟨_, rfl, rfl⟩

/-- The text is taken, and the FIN that comes right behind it. -/
theorem afterAck_cases (th : TcpHdr) (segSeq : TcpSeq) (data : List Byte) (doOutputData : Bool)
    (t : Tcb) : (t.afterAck th segSeq data doOutputData).life = t.life ∨
      t.state = .finWait2 ∧ th.fFin = true ∧ segSeq + data.length = t.textEnd data ∧
        t.afterAck th segSeq data doOutputData =
          ((t.segmentText data).2.takeFin (segSeq + data.length)).doTimeWait := by
  have fin : ∀ (doOutput : Bool) (u w : Tcb), u.standing = t.standing →
      u.finish th (segSeq + data.length) doOutput doOutputData = w →
      w.life = t.life ∨ t.state = .finWait2 ∧ th.fFin = true ∧
        segSeq + data.length = u.rcv.next ∧ w = (u.takeFin (segSeq + data.length)).doTimeWait := by
    intro doOutput u w same result
    have life : u.life = t.life := congrArg Standing.life same
    subst result
    rcases checkFin_cases th (segSeq + data.length) doOutput u with ⟨r, ok, stays⟩ | stopped | closes
    · left
      simp only [finish, ok]
      have after := outputAfter_bearing r.2 doOutputData r.1
      exact (congrArg (fun b => b.life) after).trans (stays.trans life)
    · left
      simp only [finish, stopped]
      exact life
    · right
      have state : u.state = t.state := congrArg Standing.state same
      refine ⟨state.symm.trans closes.1, closes.2.1, closes.2.2.1, ?_⟩
      simp only [finish, closes.2.2.2]
  unfold afterAck
  split
  · exact .inl rfl
  cases open_ : t.inState [.established, .finWait1, .finWait2] with
  | true =>
      rw [← segmentText_next]
      exact fin _ _ _ (segmentText_standing data t) rfl
  | false =>
      rcases fin false t _ rfl rfl with stays | ⟨here, -⟩
      · exact .inl stays
      · rw [inState_of_eq here (by decide)] at open_
        cases open_

theorem afterAck_removes (th : TcpHdr) (segSeq : TcpSeq) (data : List Byte) (doOutputData : Bool)
    (shut : t.Shut) : Removes t (t.afterAck th segSeq data doOutputData) := by
  rcases afterAck_cases th segSeq data doOutputData t with stays | ⟨here, -, -, eq⟩
  · exact .inl stays
  · have standing := (takeFin_standing (segSeq + data.length) _).trans (segmentText_standing data t)
    rw [eq]
    refine (Removes.doTimeWait ?_).since (congrArg Standing.life standing)
      ((takeFin_persistArmed _ _).trans (segmentText_persistArmed data t))
    exact (congrArg Standing.closed standing).trans (shut (inState_of_eq here (by decide)))

theorem ackOfFin_removes (th : TcpHdr) (shut : t.Shut) :
    (∃ v, t.ackOfFin th = .ok v ∧ v.life = t.life ∧ v.persistArmed = t.persistArmed ∧ v.Shut) ∨
      ∃ v, t.ackOfFin th = .error v ∧ Removes t v := by
  have closes : ∀ state : TcpState, t.state = state →
      [TcpState.finWait1, .finWait2, .closing, .lastAck, .timeWait].contains state = true →
      t.snd.closed = true := by
    intro state here listed
    refine shut ?_
    unfold inState
    rw [here]
    simpa using listed
  unfold ackOfFin
  split
  · rename_i here
    have closed := closes _ here rfl
    split
    · exact .inl ⟨_, rfl, rfl, rfl, fun _ => closed⟩
    · exact .inl ⟨_, rfl, rfl, rfl, shut⟩
  · rename_i here
    split
    · have closed : t.doLocalFinAcked.snd.closed = true := closes _ here rfl
      exact .inr ⟨_, rfl, (Removes.doTimeWait closed).since rfl rfl⟩
    · exact .inr ⟨_, rfl, .inl rfl⟩
  · split
    · exact .inr ⟨_, rfl, (Removes.doClosed _).since rfl rfl⟩
    · exact .inl ⟨_, rfl, rfl, rfl, shut⟩
  · exact .inl ⟨_, rfl, rfl, rfl, shut⟩

/-- What is taken in ESTABLISHED or CLOSE_WAIT leaves the block in the table. -/
theorem checked_life (th : TcpHdr) (segSeq : TcpSeq) (data : List Byte)
    (here : t.inState [.established, .closeWait] = true) :
    (match t.checkAck hw th segSeq data.length with
      | .error v => v
      | .ok (v, doOutputData) => v.afterAck th segSeq data doOutputData).life = t.life := by
  have same := @checkAck_standing t hw th segSeq data.length here
  split
  · rename_i stopped
    rw [stopped] at same
    exact congrArg Standing.life same
  · rename_i v doOutputData goes
    rw [goes] at same
    rcases afterAck_cases th segSeq data doOutputData v with stays | ⟨last, -⟩
    · exact stays.trans (congrArg Standing.life same)
    · have state : v.state = t.state := congrArg Standing.state same
      unfold inState at here
      rw [← state, last] at here
      exact absurd here (by decide)

/-- A connection ends with the acknowledgement of our FIN, or with what comes
behind it. -/
theorem checked_cases (th : TcpHdr) (segSeq : TcpSeq) (data : List Byte) (t : Tcb) :
    (match t.checkAck hw th segSeq data.length with
      | .error v => v
      | .ok (v, doOutputData) => v.afterAck th segSeq data doOutputData).life = t.life ∨
    (match t.checkAck hw th segSeq data.length with
      | .error v => v
      | .ok (v, doOutputData) => v.afterAck th segSeq data doOutputData) =
      match t.ackOfFin th with
      | .error v => v
      | .ok v => v.afterAck th segSeq data false := by
  cases open_ : t.inState [.established, .closeWait] with
  | true => exact .inl (checked_life th segSeq data open_)
  | false =>
      cases handshake : t.inState [.synReceived] with
      | true =>
          left
          rw [checkAck_in_synReceived th segSeq data.length handshake]
          by_cases completes : t.snd.unacknowledged ≤ th.ack ∧ th.ack ≤ t.snd.next
          · rw [if_pos completes]
            have inside : (t.doEstablished.request .addConnectedTcb).inState
              [.established, .closeWait] = true := rfl
            exact checked_life th segSeq data inside
          · rw [if_neg completes]
            rfl
      | false =>
          have first := ackInSynReceived_past th handshake
          have middle : t.ackInEstablished hw th segSeq data.length = .ok (t, false) := by
            unfold ackInEstablished
            rw [open_]
            rfl
          have whole : t.checkAck hw th segSeq data.length =
              (t.ackOfFin th).bind fun v => .ok (v, false) := by
            unfold checkAck
            rw [first]
            show Except.bind (t.ackInEstablished hw th segSeq data.length) _ = _
            rw [middle]
            rfl
          right
          rw [whole]
          cases t.ackOfFin th <;> rfl

theorem segmentInOrder_removes (th : TcpHdr) (segSeq : TcpSeq) (data : List Byte) (shut : t.Shut) :
    Removes t (t.segmentInOrder hw th segSeq data) := by
  apply segmentInOrder_of_ack
  · exact (Removes.doReset t.connectFailed).since rfl rfl
  · exact .doReset t
  · exact .doClosed t
  · exact (Removes.doReset (t.request _)).since rfl rfl
  · exact .inl rfl
  intro _ _ _
  rcases @checked_cases hw th segSeq data t with stays | eq
  · exact .inl stays
  refine (congrArg (Removes t) eq).mpr ?_
  rcases ackOfFin_removes th shut with ⟨v, ok, life, persist, shut'⟩ | ⟨v, stopped, removes⟩
  · rw [ok]
    exact (afterAck_removes th segSeq data false shut').since life persist
  · rw [stopped]
    exact removes

theorem inputHandleOtherState_removes (th : TcpHdr) (p : Impl) (shut : t.Shut) :
    Removes t (t.inputHandleOtherState hw th p) := by
  unfold inputHandleOtherState
  split
  · exact .inl rfl
  · exact .of_bearing (output_bearing t)
  · exact .of_bearing ((output_bearing _).trans (insertOutOfOrder_bearing _ _ t))
  · exact segmentInOrder_removes th _ _ shut

theorem inputHandleSynSentState_removes (beyond : Nat → Byte) (th : TcpHdr) (p : Impl) (t : Tcb) :
    Removes t (t.inputHandleSynSentState hw beyond th p) := by
  unfold inputHandleSynSentState
  split
  · rename_i failed
    rcases takeHeader_error failed with rfl | rfl <;> exact .inl rfl
  split
  · exact .inl rfl
  dsimp only
  split
  · split
    · exact .doReset t
    · exact .inl rfl
  split
  · exact .inl (synInSynSent_life _ _ _ _)
  · exact .inl rfl

theorem handle_removes (e : TcbEvent) (shut : t.Shut) (inside : t.life ≠ .removed)
    (gone : (t.handle hw e).life = .removed) : (t.handle hw e).CleanedUp ∧ (t.handle hw e).Mute ∧
      (t.handle hw e).persistArmed = t.persistArmed := by
  have removes : Removes t (t.handle hw e) → (t.handle hw e).CleanedUp ∧ (t.handle hw e).Mute ∧
      (t.handle hw e).persistArmed = t.persistArmed := by
    rintro (stays | cleaned)
    · exact absurd (stays.symm.trans gone) inside
    · exact cleaned
  cases e with
  | connect iss =>
      exact absurd ((connect_life hw iss t).symm.trans gone) (by decide)
  | listen iss beyond th p =>
      exact absurd ((inputHandleListenState_life beyond iss th p t).symm.trans gone) (by decide)
  | segment beyond th p =>
      apply removes
      show Removes t (t.inputHandle hw beyond th p)
      unfold inputHandle
      split
      · exact inputHandleSynSentState_removes beyond th p t
      · exact inputHandleOtherState_removes th p shut
  | send p => exact removes (.of_bearing (send_bearing t p))
  | waitForData => exact removes (.of_bearing (waitForData_bearing t))
  | read => exact removes (.of_bearing (read_bearing t))
  | closeRead => exact removes (.of_bearing (abortReader_bearing t))
  | closeWrite => exact removes (.of_bearing (close_bearing t))
  | shutdownConnect =>
      apply removes
      show Removes t t.shutdownConnect
      unfold shutdownConnect
      split
      · exact .connectFailed t
      · exact .of_bearing ((close_bearing _).trans (abortReader_bearing t))
  | closeContinuation =>
      refine removes (.inl ?_)
      show (outputOne hw false _).output.life = t.life
      rw [output_life]
      exact congrArg (fun b => b.life) (outputOne_bearing _ false)
  | delayedAck => exact removes (.of_bearing (output_bearing _))
  | retransmit => exact removes ((retransmit_removes { t with retransmitArmed := false }).since rfl rfl)
  | persist => exact removes (.of_bearing (persist_bearing { t with persistArmed := false }))
  | resolved => exact removes (.inl rfl)
  | arpQueueFull => exact removes (.inl rfl)
  | arpTimeout =>
      apply removes
      show Removes t t.arpTimeout
      unfold arpTimeout
      dsimp only
      split
      · exact (Removes.connectFailed { t with resolving := t.resolving - 1 }).since rfl rfl
      · exact .inl rfl
  | getPacket => exact removes (.of_bearing (getPacket_bearing { t with pollTcbs := t.pollTcbs - 1 }))

/-! ## The sending side is closed before the FIN -/

theorem Shut.elsewhere
    (apart : t.inState [.finWait1, .finWait2, .closing, .lastAck, .timeWait] = false) : t.Shut :=
  fun here => by rw [apart] at here; cases here

/-- From one state behind our FIN to another. -/
theorem Shut.onwards (shut : t.Shut) (closed : t'.snd.closed = t.snd.closed)
    (before : t.inState [.finWait1, .finWait2, .closing, .lastAck, .timeWait] = true) : t'.Shut :=
  fun _ => closed.trans (shut before)

theorem Shut.ackOfFin (th : TcpHdr) (shut : t.Shut) : (ended (t.ackOfFin th)).Shut := by
  unfold Tcb.ackOfFin
  split
  · rename_i here
    dsimp only [ended]
    split
    · exact shut.onwards rfl (inState_of_eq here (by decide))
    · exact shut
  · rename_i here
    dsimp only [ended]
    split
    · exact shut.onwards rfl (inState_of_eq here (by decide))
    · exact shut
  · split
    · exact .elsewhere rfl
    · exact shut
  · exact shut

theorem Shut.checkAck (th : TcpHdr) (segSeq : TcpSeq) (segLen : Nat) (shut : t.Shut) :
    (reached (t.checkAck hw th segSeq segLen)).Shut := by
  refine checkAck_of_steps ?_ ?_ ?_
  · unfold ackInSynReceived
    split
    · split
      · exact .elsewhere rfl
      · exact shut
    · exact shut
  · exact fun u _ shut => shut.of_standing (ackInEstablished_standing th segSeq segLen u)
  · exact fun u shut => shut.ackOfFin th

theorem Shut.checkFin (th : TcpHdr) (finSeq : TcpSeq) (doOutput : Bool) (shut : t.Shut) :
    (reached (t.checkFin th finSeq doOutput)).Shut := by
  have taken : (t.takeFin finSeq).Shut := shut.of_standing (takeFin_standing finSeq t)
  unfold Tcb.checkFin
  split
  · exact shut
  split
  · exact shut
  split
  · dsimp only
    split
    · exact .elsewhere rfl
    · exact .elsewhere rfl
    · rename_i here
      exact taken.onwards rfl (inState_of_eq here (by decide))
    · rename_i here
      exact taken.onwards rfl (inState_of_eq here (by decide))
    · exact taken
  · exact shut

theorem Shut.afterAck (th : TcpHdr) (segSeq : TcpSeq) (data : List Byte) (doOutputData : Bool)
    (shut : t.Shut) : (t.afterAck th segSeq data doOutputData).Shut := by
  refine afterAck_of_steps doOutputData shut ?_ ?_ ?_
  · exact fun _ => shut.of_standing (segmentText_standing data t)
  · exact fun _ doOutput shut => shut.checkFin th _ doOutput
  · exact fun _ doOutput shut => shut.of_bearing (outputAfter_bearing doOutput doOutputData _)

theorem Shut.segmentInOrder (th : TcpHdr) (segSeq : TcpSeq) (data : List Byte) (shut : t.Shut) :
    (t.segmentInOrder hw th segSeq data).Shut := by
  apply segmentInOrder_of_ack
  · exact .elsewhere rfl
  · exact .elsewhere rfl
  · exact .elsewhere rfl
  · exact .elsewhere rfl
  · exact shut
  · intro _ _ _
    have acked := @Shut.checkAck t hw th segSeq data.length shut
    exact checked_of_steps acked fun _ doOutputData shut => shut.afterAck th segSeq data doOutputData

theorem Shut.enterSyn (syn : TcpState) (apart : syn = .synSent ∨ syn = .synReceived) (t : Tcb) :
    (t.enterSyn syn).Shut := by
  refine Shut.of_bearing (.elsewhere ?_) (output_bearing _)
  rcases apart with rfl | rfl <;> rfl

theorem Shut.inputHandleSynSentState (beyond : Nat → Byte) (th : TcpHdr) (p : Impl)
    (shut : t.Shut) : (t.inputHandleSynSentState hw beyond th p).Shut := by
  unfold Tcb.inputHandleSynSentState
  split
  · rename_i failed
    rcases takeHeader_error failed with rfl | rfl <;> exact shut
  split
  · exact shut
  dsimp only
  split
  · split
    · exact .elsewhere rfl
    · exact shut
  split
  · unfold synInSynSent
    split
    · exact Shut.of_bearing (.elsewhere rfl) (output_bearing _)
    · exact .enterSyn _ (.inr rfl) _
  · exact shut

theorem Shut.retransmitData (shut : t.Shut) : (t.retransmitData hw).Shut := by
  unfold Tcb.retransmitData
  split
  · exact shut
  dsimp only
  split
  · refine Shut.of_bearing ?_ ((outputUpdateRto_bearing _).trans (outputOne_bearing _ true))
    exact shut
  · exact .elsewhere rfl

theorem Shut.retransmitFin (shut : t.Shut) : (t.retransmitFin hw).Shut := by
  have counted : t.countFin.Shut := shut
  unfold Tcb.retransmitFin
  split
  · split
    · exact (counted.of_bearing (outputUpdateRto_bearing _)).retransmitData
    · exact shut
  · exact shut.retransmitData

theorem Shut.retransmit (shut : t.Shut) : (t.retransmit hw).Shut := by
  have counted : t.countSyn.Shut := shut
  unfold Tcb.retransmit
  split
  · split
    · exact (counted.of_bearing (outputUpdateRto_bearing _)).retransmitFin
    · exact shut
  · exact shut.retransmitFin

theorem Shut.closed (t : Tcb) (state : TcpState) :
    { t with snd := { t.snd with closed := true }, state }.Shut := fun _ => rfl

theorem Shut.handle (e : TcbEvent) (shut : t.Shut) : (t.handle hw e).Shut := by
  cases e with
  | connect iss => exact .enterSyn _ (.inl rfl) _
  | listen iss beyond th p =>
      show (t.inputHandleListenState hw beyond iss th p).Shut
      unfold inputHandleListenState
      dsimp only
      split
      · rename_i failed
        rcases takeHeader_error failed with rfl | rfl <;> exact shut
      · exact .enterSyn _ (.inr rfl) _
  | segment beyond th p =>
      show (t.inputHandle hw beyond th p).Shut
      unfold inputHandle
      split
      · exact shut.inputHandleSynSentState beyond th p
      · unfold inputHandleOtherState
        split
        · exact shut
        · exact shut.of_bearing (output_bearing t)
        · exact shut.of_bearing ((output_bearing _).trans (insertOutOfOrder_bearing _ _ t))
        · exact shut.segmentInOrder th _ _
  | send p => exact shut.of_bearing (send_bearing t p)
  | waitForData => exact shut
  | read => exact shut
  | closeRead => exact shut.of_bearing (abortReader_bearing t)
  | closeWrite => exact shut.of_bearing (close_bearing t)
  | shutdownConnect =>
      show t.shutdownConnect.Shut
      unfold shutdownConnect
      split
      · exact shut
      · exact shut.of_bearing ((close_bearing _).trans (abortReader_bearing t))
  | closeContinuation =>
      exact (Shut.closed _ _).of_bearing ((output_bearing _).trans (outputOne_bearing _ false))
  | delayedAck =>
      exact shut.of_bearing
        (output_bearing { t with delayedAckArmed := false, nrFullSegReceived := 0 })
  | retransmit => exact Shut.retransmit (t := { t with retransmitArmed := false }) shut
  | persist => exact shut.of_bearing (persist_bearing { t with persistArmed := false })
  | resolved => exact shut
  | arpQueueFull => exact shut
  | arpTimeout =>
      show t.arpTimeout.Shut
      unfold arpTimeout
      dsimp only
      split <;> exact shut
  | getPacket => exact shut.of_bearing (getPacket_bearing { t with pollTcbs := t.pollTcbs - 1 })

/-! ## What a removed block still does -/

/-- `get_packet` goes on to be polled, the queue of packets apart. -/
def goesOn (t : Tcb) : Bool :=
  decide (t.snd.dupacks < 3) && decide (0 < t.canSend.1) && decide (0 < t.snd.window)

/-- What a removed block may meet. An address resolution that is turned down for
lack of room arms the retransmission timer. A `close` that gets to its
continuation builds a segment, unless the block is CLOSED. So does a poll that
finds no packet in the queue; it must not find a SYN or a FIN to send, which
arms the retransmission timer, and not ask for yet another poll. -/
def Quiet (t : Tcb) : TcbEvent → Prop
  | .arpQueueFull => False
  | .closeContinuation => t.state = .closed
  | .getPacket => t.state = .closed ∨
      (t.packetq = [] → t.synNeedsOn = false ∧ t.finNeedsOn = false) ∧
        (t.packetq.length ≤ 1 → t.goesOn = false)
  | _ => True

instance (t : Tcb) : (e : TcbEvent) → Decidable (t.Quiet e)
  | .arpQueueFull => inferInstanceAs (Decidable False)
  | .closeContinuation => inferInstanceAs (Decidable (t.state = .closed))
  | .getPacket => inferInstanceAs (Decidable (t.state = .closed ∨
      (t.packetq = [] → t.synNeedsOn = false ∧ t.finNeedsOn = false) ∧
        (t.packetq.length ≤ 1 → t.goesOn = false)))
  | .connect _ | .listen .. | .segment .. | .send _ | .waitForData | .read | .closeRead
  | .closeWrite | .shutdownConnect | .delayedAck | .retransmit | .persist | .resolved
  | .arpTimeout => .isTrue trivial

/-- No timer is armed, and no more is built than for a poll that was pending. -/
structure Silent (u t : Tcb) : Prop where
  retransmit : t.retransmitArmed = false
  delayedAck : t.delayedAckArmed = false
  persist : t.persistArmed = false
  built : t.queued.length ≤ u.queued.length + if 0 < u.pending then 1 else 0

/-- The segments the polls on their way are going to build. -/
def toBuild (t : Tcb) : Nat := if t.state = .closed ∨ t.packetq ≠ [] then 0 else t.pending

/-- A cleaned block that no timer and no `send` wakes. -/
structure Dormant (t : Tcb) : Prop extends CleanedUp t where
  persist : t.persistArmed = false
  mute : t.Mute

theorem toBuild_le (t : Tcb) : t.toBuild ≤ t.pending := by
  unfold toBuild
  split <;> omega

/-- The invariant since the removal of `u`. -/
structure Silenced (u t : Tcb) : Prop where
  dormant : t.Dormant
  once : t.PolledOnce
  built : t.queued.length + t.toBuild ≤ u.queued.length + u.pending

theorem canSend_fst_congr (same : t'.snd = t.snd) : t'.canSend.1 = t.canSend.1 := by
  unfold canSend flightSize
  rw [same]
  dsimp only
  split_ifs <;> rfl

/-- One segment more, and nothing else that matters here. -/
structure OneMore (t t' : Tcb) : Prop where
  snd : t'.snd = t.snd
  retransmit : t'.retransmitArmed = t.retransmitArmed
  persist : t'.persistArmed = t.persistArmed
  delayedAck : t.delayedAckArmed = false → t'.delayedAckArmed = false
  queues : ∃ s, t'.packetq = t.packetq ++ [s] ∧ t'.queued = t.queued ++ [s]

/-- A segment for nothing but the acknowledgement. -/
theorem emit_nothing (syn : t.synNeedsOn = false) (fin : t.finNeedsOn = false) :
    OneMore t (t.emit false []) := by
  have numbered : (t.takeNumbers false (BitVec.ofNat 16 ([] : List Byte).length)).snd = t.snd := by
    show { t.snd with next := t.snd.next + 0 } = t.snd
    have same : t.snd.next + 0 = t.snd.next := congrArg TcpSeq.mk (BitVec.add_zero t.snd.next.raw)
    rw [same]
  have remembered : (t.takeNumbers false (BitVec.ofNat 16 ([] : List Byte).length)).rememberSegment
      [] = t.takeNumbers false (BitVec.ofNat 16 ([] : List Byte).length) := by
    have none_ : ¬(BitVec.ofNat 16 ([] : List Byte).length ≠ 0 ∨ t.synNeedsOn = true ∨
        t.finNeedsOn = true) := by
      rw [syn, fin]
      decide
    exact if_neg none_
  have stopped : t.delayedAckArmed = false → (t.delayedAckArmed && !t.ackNeedsOn) = false := by
    intro off
    rw [off]
    rfl
  have queued : ∀ (v : Tcb) (len : BitVec 16) (s : Segment), v.snd = t.snd →
      v.retransmitArmed = t.retransmitArmed → v.persistArmed = t.persistArmed →
      (t.delayedAckArmed = false → v.delayedAckArmed = false) → v.packetq = t.packetq →
      v.queued = t.queued → OneMore t ((v.checkWindow len).queuePacket s) := by
    intro v len s snd retransmit persist delayedAck packetq queued
    unfold checkWindow
    split <;> exact ⟨snd, retransmit, persist, delayedAck, s,
      congrArg (fun q => q ++ [s]) packetq, congrArg (fun q => q ++ [s]) queued⟩
  unfold emit
  dsimp only
  rw [if_neg Bool.false_ne_true, remembered]
  exact queued _ _ _ numbered rfl rfl stopped rfl rfl

/-- A cleaned block has nothing to send but what `emit` adds itself. -/
theorem CleanedUp.outputOne (cleaned : t.CleanedUp) :
    t.outputOne hw false = if t.state = .closed then t else t.emit false [] := by
  have nothing : t.getTransmitPacket hw = ([], t) := by
    unfold getTransmitPacket
    rw [cleaned.unsent]
    rfl
  unfold Tcb.outputOne
  rw [if_neg Bool.false_ne_true, nothing]

theorem canSend_snd (t : Tcb) :
    ∃ n, t.canSend.2 = { t with snd := { t.snd with limitedTransfer := n } } := by
  unfold canSend
  dsimp only
  split_ifs <;> exact ⟨_, rfl⟩

theorem stops_of_goesOn (stops : t.goesOn = false) :
    ∃ n, (if t.snd.dupacks < 3 then
      (if 0 < t.canSend.1 ∧ 0 < t.canSend.2.snd.window then t.canSend.2.output else t.canSend.2)
      else t) = { t with snd := { t.snd with limitedTransfer := n } } := by
  obtain ⟨n, after⟩ := canSend_snd t
  split
  · rename_i few
    have idle : ¬(0 < t.canSend.1 ∧ 0 < t.canSend.2.snd.window) := by
      rw [after]
      intro ⟨more, window⟩
      have goes : t.goesOn = true := by
        unfold goesOn
        rw [decide_eq_true few, decide_eq_true more, decide_eq_true window]
        rfl
      rw [stops] at goes
      cases goes
    rw [if_neg idle]
    exact ⟨n, after⟩
  · exact ⟨t.snd.limitedTransfer, rfl⟩

/-- A packet is taken. Another poll is asked for as long as packets are left;
behind the last one only by a block that goes on. -/
theorem popPacket_cons {s : Segment} {rest : List Segment} (open_ : t.state ≠ .closed)
    (queue : t.packetq = s :: rest) (last : rest = [] → t.goesOn = false) :
    rest ≠ [] ∧ t.popPacket = { t with packetq := rest }.output ∨
      rest = [] ∧ ∃ n, t.popPacket =
        { t with packetq := [], snd := { t.snd with limitedTransfer := n } } := by
  have inside : t.inState [.closed] = false := by simpa [inState] using open_
  unfold popPacket
  rw [inside, if_neg Bool.false_ne_true, queue]
  cases rest with
  | cons next rest => exact .inl ⟨List.cons_ne_nil _ _, rfl⟩
  | nil =>
      have most : { t with packetq := [] }.canSend.1 = t.canSend.1 := canSend_fst_congr rfl
      have stops : { t with packetq := [] }.goesOn = false := by
        unfold goesOn at *
        rw [most]
        exact last rfl
      exact .inr ⟨rfl, stops_of_goesOn stops⟩

theorem Dormant.output (dormant : t.Dormant) : t.output.Dormant := by
  unfold Tcb.output
  split
  · exact dormant
  · exact ⟨⟨dormant.life, dormant.retransmit, dormant.delayedAck, dormant.data, dormant.unsent⟩,
      dormant.persist, dormant.mute⟩

/-- Whoever keeps these fields stays dormant. -/
theorem Dormant.of_fields (dormant : t.Dormant) (timers : t'.retransmitArmed = t.retransmitArmed ∧
    t'.delayedAckArmed = t.delayedAckArmed ∧ t'.persistArmed = t.persistArmed)
    (data : t'.snd.data = t.snd.data) (unsent : t'.snd.unsent = t.snd.unsent)
    (same : t'.standing = t.standing) : t'.Dormant where
  life := (congrArg Standing.life same).trans dormant.life
  retransmit := timers.1.trans dormant.retransmit
  delayedAck := timers.2.1.trans dormant.delayedAck
  data := data.trans dormant.data
  unsent := unsent.trans dormant.unsent
  persist := timers.2.2.trans dormant.persist
  mute := by
    have mute := dormant.mute
    unfold Mute at *
    rw [show t'.state = t.state from congrArg Standing.state same,
      show t'.snd.closed = t.snd.closed from congrArg Standing.closed same,
      show t'.connectDone = t.connectDone from congrArg Standing.connectDone same]
    exact mute

theorem Dormant.oneMore (dormant : t.Dormant) (more : OneMore t t')
    (same : t'.standing = t.standing) : t'.Dormant := by
  have delayedAck := more.delayedAck dormant.delayedAck
  exact dormant.of_fields ⟨more.retransmit, delayedAck.trans dormant.delayedAck.symm, more.persist⟩
    (congrArg Send.data more.snd) (congrArg Send.unsent more.snd) same

/-! ## Silence -/

theorem Silenced.silent (silenced : Silenced u t) (once : u.PolledOnce) : Silent u t := by
  refine ⟨silenced.dormant.retransmit, silenced.dormant.delayedAck, silenced.dormant.persist, ?_⟩
  have built := silenced.built
  have bound : u.pending ≤ 1 := by
    unfold PolledOnce at once
    split at once <;> omega
  split <;> omega

/-- The invariant holds on when neither the poll nor the packets are touched. -/
theorem Silenced.calm (silenced : Silenced u t) (dormant : t'.Dormant) (wire : t'.wire = t.wire)
    (state : t'.state = t.state) : Silenced u t' where
  dormant := dormant
  once := silenced.once.of_polls (polls_of_wire wire)
  built := by
    have packetq : t'.packetq = t.packetq := congrArg Wire.packetq wire
    have queued : t'.queued = t.queued := congrArg Wire.queued wire
    have resolving : t'.resolving = t.resolving := congrArg (fun w => w.resolving) wire
    have pollTcbs : t'.pollTcbs = t.pollTcbs := congrArg (fun w => w.pollTcbs) wire
    have built := silenced.built
    unfold toBuild pending at *
    rw [packetq, queued, resolving, pollTcbs, state]
    exact built

/-- A poll that takes place behind the last one builds what was due. -/
theorem popPacket_silenced {s : Segment} {rest : List Segment} (dormant : t.Dormant)
    (open_ : t.state ≠ .closed) (queue : t.packetq = s :: rest)
    (last : rest = [] → t.goesOn = false) (idle : t.pollActive = false) (none_ : t.pending = 0)
    (built : t.queued.length ≤ u.queued.length + u.pending) : Silenced u t.popPacket := by
  rcases popPacket_cons open_ queue last with ⟨more, eq⟩ | ⟨-, n, eq⟩
  · have asked : t.popPacket =
        { t with packetq := rest, pollActive := true, resolving := t.resolving + 1 } := by
      rw [eq]
      exact if_neg (by rw [idle]; exact Bool.false_ne_true)
    have due : t.popPacket.toBuild = 0 := by
      rw [asked]
      exact if_pos (.inr more)
    refine ⟨?_, ?_, ?_⟩
    · rw [asked]
      exact dormant.of_fields ⟨rfl, rfl, rfl⟩ rfl rfl rfl
    · rw [asked]
      unfold pending at none_
      show t.resolving + 1 + t.pollTcbs ≤ 1
      omega
    · rw [due, asked]
      exact built
  · rw [eq]
    refine ⟨dormant.of_fields ⟨rfl, rfl, rfl⟩ rfl rfl rfl, ?_, ?_⟩
    · exact Nat.le_trans (Nat.le_of_eq none_) (Nat.zero_le _)
    · have due : { t with packetq := [], snd := { t.snd with limitedTransfer := n } }.toBuild ≤ 0 :=
        Nat.le_trans (toBuild_le _) (Nat.le_of_eq none_)
      exact Nat.le_trans (Nat.add_le_add_left due _) built

theorem goesOn_congr (same : t'.snd = t.snd) : t'.goesOn = t.goesOn := by
  unfold goesOn
  rw [canSend_fst_congr same, same]

/-- `get_packet` behind its first line. -/
theorem polled_silenced (dormant : t.Dormant) (quiet : t.Quiet .getPacket)
    (idle : t.pollActive = false) (none_ : t.pending = 0)
    (built : t.queued.length + (if t.state = .closed ∨ t.packetq ≠ [] then 0 else 1) ≤
      u.queued.length + u.pending) :
    Silenced u (if t.packetq.isEmpty then t.outputOne hw false else t).popPacket := by
  by_cases closed : t.state = .closed
  · have same : (if t.packetq.isEmpty then t.outputOne hw false else t) = t := by
      have unsent : t.outputOne hw false = t := if_pos closed
      rw [unsent, ite_self]
    have nothing : t.popPacket = t := by
      unfold popPacket inState
      rw [closed]
      rfl
    rw [same, nothing]
    refine ⟨dormant, Nat.le_trans (Nat.le_of_eq none_) (Nat.zero_le _), ?_⟩
    have due := Nat.le_trans (toBuild_le t) (Nat.le_of_eq none_)
    omega
  · have quiet := quiet.resolve_left closed
    cases queue : t.packetq with
    | nil =>
        obtain ⟨syn, fin⟩ := quiet.1 queue
        have stops := quiet.2 (by rw [queue]; exact Nat.zero_le 1)
        have more := emit_nothing syn fin
        have bearing := emit_bearing t false []
        obtain ⟨s, packetq, queued⟩ := more.queues
        have polls := emit_polls t false []
        rw [List.isEmpty_nil, if_pos rfl, dormant.outputOne, if_neg closed]
        refine @popPacket_silenced _ _ s [] ?_ ?_ ?_ ?_ ?_ ?_ ?_
        · exact dormant.oneMore more (standing_of_bearing bearing)
        · rw [show (t.emit false []).state = t.state from congrArg (fun b => b.state) bearing]
          exact closed
        · rw [packetq, queue]
          rfl
        · intro _
          rw [goesOn_congr more.snd]
          exact stops
        · exact (congrArg Polls.pollActive polls).trans idle
        · unfold pending at *
          rw [show (t.emit false []).resolving = t.resolving from congrArg Polls.resolving polls,
            show (t.emit false []).pollTcbs = t.pollTcbs from congrArg Polls.pollTcbs polls]
          exact none_
        · have one : ¬(t.state = .closed ∨ t.packetq ≠ []) := by
            rw [queue]
            exact fun either => either.elim closed fun other => other rfl
          rw [if_neg one] at built
          rw [queued, List.length_append]
          exact built
    | cons s rest =>
        rw [List.isEmpty_cons, if_neg Bool.false_ne_true]
        refine popPacket_silenced dormant closed queue (fun last => ?_) idle none_ ?_
        · refine quiet.2 ?_
          rw [queue, last]
          exact Nat.le_refl 1
        · exact Nat.le_trans (Nat.le_add_right _ _) built

theorem Silenced.getPacket (silenced : Silenced u t) (quiet : t.Quiet .getPacket)
    (ready : 0 < t.pollTcbs) :
    Silenced u ({ t with pollTcbs := t.pollTcbs - 1 }.getPacket hw) := by
  obtain ⟨one, -⟩ := silenced.once.settled (Nat.add_pos_right _ ready)
  have built := silenced.built
  unfold toBuild at built
  rw [one] at built
  have dormant := silenced.dormant
  refine polled_silenced (t := { t with pollTcbs := t.pollTcbs - 1, pollActive := false }) ?_ ?_
    rfl ?_ built
  · exact dormant.of_fields ⟨rfl, rfl, rfl⟩ rfl rfl rfl
  · refine quiet.imp_right fun quiet => ⟨quiet.1, fun short => ?_⟩
    rw [← quiet.2 short]
    exact goesOn_congr rfl
  · show t.resolving + (t.pollTcbs - 1) = 0
    unfold pending at one
    omega

theorem Silenced.abortReader (silenced : Silenced u t) : Silenced u t.abortReader := by
  have dormant := silenced.dormant
  refine silenced.calm ?_ (abortReader_wire t) (congrArg (fun b => b.state) t.abortReader_bearing)
  unfold Tcb.abortReader
  split
  · exact dormant.of_fields ⟨rfl, rfl, rfl⟩ rfl rfl rfl
  · exact dormant

theorem Silenced.close (silenced : Silenced u t) : Silenced u t.close := by
  have dormant := silenced.dormant
  refine silenced.calm ?_ (close_wire t) (congrArg (fun b => b.state) t.close_bearing)
  unfold Tcb.close
  split
  · exact dormant
  split <;> exact dormant.of_fields ⟨rfl, rfl, rfl⟩ rfl rfl rfl

theorem Silenced.connectFailed (silenced : Silenced u t) : Silenced u t.connectFailed.cleanup := by
  refine silenced.calm ⟨.cleanup _, silenced.dormant.persist, .inr (.inr ?_)⟩ rfl rfl
  exact fun open_ => by cases open_

/-- A poll less, or the same number of polls. -/
theorem Silenced.fewer (silenced : Silenced u t) {resolving pollTcbs : Nat}
    (fewer : resolving + pollTcbs ≤ t.pending) :
    Silenced u { t with resolving, pollTcbs } where
  dormant := silenced.dormant.of_fields ⟨rfl, rfl, rfl⟩ rfl rfl rfl
  once := Nat.le_trans fewer silenced.once
  built := by
    have built := silenced.built
    unfold toBuild at *
    show t.queued.length + (if t.state = .closed ∨ t.packetq ≠ [] then 0 else _) ≤ _
    split
    · rename_i silent
      rw [if_pos silent] at built
      exact built
    · rename_i silent
      rw [if_neg silent] at built
      exact Nat.le_trans (Nat.add_le_add_left fewer _) built

/-- In CLOSED the continuation of `close` builds nothing. -/
theorem closeContinuation_closed (closed : t.state = .closed) :
    t.closeContinuation hw =
      { t with snd := { t.snd with closed := true }, state := .closed }.output := by
  have nothing : ∀ v : Tcb, v.state = .closed → v.outputOne hw false = v := fun _ here => if_pos here
  unfold Tcb.closeContinuation
  simp only [closed]
  rw [nothing _ rfl]

/-- A block in CLOSED that is polled builds nothing. -/
theorem Silenced.outputClosed {v : Tcb} (silenced : Silenced u t) (dormant : v.Dormant)
    (closed : v.state = .closed) (polls : v.polls = t.polls) (queued : v.queued = t.queued) :
    Silenced u v.output where
  dormant := dormant.output
  once := silenced.once.asks ((AsksPoll.output v).since polls)
  built := by
    have due : v.output.toBuild = 0 :=
      if_pos (.inl ((congrArg (fun b => b.state) v.output_bearing).trans closed))
    have same : v.output.queued = t.queued := by
      unfold Tcb.output
      split <;> exact queued
    have built := silenced.built
    rw [due, same]
    omega

theorem Silenced.closeContinuation (silenced : Silenced u t) (closed : t.state = .closed) :
    Silenced u ({ t with closeReady := t.closeReady - 1 }.closeContinuation hw) := by
  rw [closeContinuation_closed (t := { t with closeReady := t.closeReady - 1 }) closed]
  exact silenced.outputClosed { silenced.dormant with mute := .inl rfl } rfl rfl rfl

theorem Silenced.handle (e : TcbEvent) (silenced : Silenced u t) (quiet : t.Quiet e)
    (enabled : t.enabled e = true) : Silenced u (t.handle hw e) := by
  have dormant := silenced.dormant
  have off : ∀ {b : Bool}, b = true → b = false → False := by
    rintro b rfl on
    cases on
  have gone : t.life ≠ .fresh ∧ t.life ≠ .inTable := by
    rw [dormant.life]
    decide
  cases e with
  | connect iss => exact absurd (of_decide_eq_true enabled) gone.1
  | listen iss beyond th p => exact absurd (of_decide_eq_true enabled) gone.1
  | segment beyond th p => exact absurd (of_decide_eq_true enabled) gone.2
  | send p =>
      have deaf : (t.snd.closed || t.inState [.closed]) = true := by
        rcases dormant.mute with closed | closed | nobody
        · rw [inState_of_eq closed (by decide), Bool.or_true]
        · rw [closed, Bool.true_or]
        · exact absurd (of_decide_eq_true enabled) nobody
      have same : t.send p = t := if_pos deaf
      show Silenced u (t.send p)
      rw [same]
      exact silenced
  | waitForData => exact silenced.calm (dormant.of_fields ⟨rfl, rfl, rfl⟩ rfl rfl rfl) rfl rfl
  | read => exact silenced.calm (dormant.of_fields ⟨rfl, rfl, rfl⟩ rfl rfl rfl) rfl rfl
  | closeRead => exact silenced.abortReader
  | closeWrite => exact silenced.close
  | shutdownConnect =>
      show Silenced u t.shutdownConnect
      unfold shutdownConnect
      split
      · exact silenced.connectFailed
      · exact silenced.abortReader.close
  | closeContinuation => exact silenced.closeContinuation quiet
  | delayedAck => exact (off enabled dormant.delayedAck).elim
  | retransmit => exact (off enabled dormant.retransmit).elim
  | persist => exact (off enabled dormant.persist).elim
  | resolved =>
      have ready : 0 < t.resolving := of_decide_eq_true enabled
      refine @Silenced.fewer t u silenced (t.resolving - 1) (t.pollTcbs + 1) ?_
      unfold pending
      omega
  | arpQueueFull => exact quiet.elim
  | arpTimeout =>
      have fewer := @Silenced.fewer t u silenced (t.resolving - 1) t.pollTcbs
        (Nat.add_le_add_right (Nat.sub_le _ _) _)
      show Silenced u t.arpTimeout
      unfold arpTimeout
      dsimp only
      split
      · exact fewer.connectFailed
      · exact fewer
  | getPacket => exact silenced.getPacket quiet (of_decide_eq_true enabled)

theorem Silenced.step {e : TcbEvent} (silenced : Silenced u t) (quiet : t.Quiet e)
    (next : step hw t e = some t') : Silenced u t' := by
  unfold Tcb.step at next
  split at next
  · rename_i possible
    cases next
    have after := @Silenced.handle t u hw e silenced quiet possible.2
    exact after.calm { after.dormant with mute := after.dormant.mute } rfl rfl
  · cases next

theorem Shut.step {e : TcbEvent} (shut : t.Shut) (next : step hw t e = some t') : t'.Shut := by
  unfold Tcb.step at next
  split at next
  · cases next
    exact @Shut.handle t hw e shut
  · cases next

/-- A block that is removed without a persist timer begins to be silent. -/
theorem silenced_of_removal {e : TcbEvent} (shut : t.Shut) (once : t.PolledOnce)
    (inside : t.life ≠ .removed) (persist : t.persistArmed = false)
    (next : step hw t e = some u) (gone : u.life = .removed) : Silenced u u := by
  have onceAfter := step_polledOnce once next
  unfold Tcb.step at next
  split at next
  · cases next
    obtain ⟨cleaned, mute, same⟩ := @handle_removes t hw e shut inside gone
    have dormant : (t.handle hw e).Dormant := { cleaned with persist := same.trans persist, mute }
    refine ⟨{ dormant with mute := dormant.mute }, onceAfter, ?_⟩
    exact Nat.add_le_add_left (toBuild_le _) _
  · cases next

/-- Of every run: when the persist timer is not armed as the block is removed,
and the block meets no more than what is `Quiet`, then it is silent. -/
theorem removed_is_silent (hw : HwFeatures) (id : ConnId) (memory : Tcb)
    (before after : List TcbEvent) (e : TcbEvent) (s u t : Tcb)
    (first : exec (step hw) (new id memory) before = some s) (inside : s.life ≠ .removed)
    (removal : step hw s e = some u) (gone : u.life = .removed) (persist : s.persistArmed = false)
    (quiet : Along (step hw) Quiet u after) (last : exec (step hw) u after = some t) :
    Silent u t := by
  have shut : s.Shut :=
    exec_invariant (fun _ _ _ shut next => Shut.step shut next) (.elsewhere rfl) first
  have once : s.PolledOnce :=
    exec_invariant (fun _ _ _ once next => step_polledOnce once next) (new_polledOnce id memory) first
  have begun : Silenced u u := silenced_of_removal shut once inside persist removal gone
  have silenced : Silenced u t :=
    quiet.invariant (fun _ _ _ silenced quiet next => silenced.step quiet next) begun last
  exact silenced.silent begun.once

end Tcb

/-! ## The two ends of a connection -/

/-- A connection is opened, closed by its user, and its FIN is acknowledged. -/
def closedByUser : List TcbEvent :=
  [.connect ⟨100⟩, .resolved, .getPacket,
    .segment (fun _ => 0) (peerSegment 700 101 true 1000) headerOnly, .resolved, .getPacket,
    .closeWrite, .closeContinuation, .resolved, .getPacket,
    .segment (fun _ => 0) (peerSegment 701 102 false 1000) headerOnly]

/-- Data is sent and acknowledged, but the window is closed. -/
def windowClosed : List TcbEvent :=
  [.connect ⟨100⟩, .resolved, .getPacket,
    .segment (fun _ => 0) (peerSegment 700 101 true 1000) headerOnly, .resolved, .getPacket,
    .send [1, 2], .resolved, .getPacket,
    .segment (fun _ => 0) (peerSegment 701 103 false 0) headerOnly]

def peerFin : TcbEvent :=
  .segment (fun _ => 0) { peerSegment 701 102 false 1000 with fFin := true } headerOnly

def peerReset : TcbEvent :=
  .segment (fun _ => 0) { peerSegment 701 103 false 0 with fRst := true } headerOnly

/-- The states before and after the event that removes the block. -/
def beforeFin : Tcb :=
  (exec (Tcb.step ethernet) (Tcb.new exampleId zeroMemory) closedByUser).get (by decide)

def afterFin : Tcb := (Tcb.step ethernet beforeFin peerFin).get (by decide)

/-- The FIN of the peer leads to TIME_WAIT, and the poll that is pending then
builds the last acknowledgement. -/
theorem removed_is_silent_timeWait :
    ∃ t, exec (Tcb.step ethernet) afterFin [.resolved, .getPacket, .closeWrite] = some t ∧
      t.state = .timeWait ∧ t.queued.length = afterFin.queued.length + 1 ∧
      Tcb.Silent afterFin t := by
  have first : exec (Tcb.step ethernet) (Tcb.new exampleId zeroMemory) closedByUser =
      some beforeFin := (Option.some_get (by decide)).symm
  have removal : Tcb.step ethernet beforeFin peerFin = some afterFin :=
    (Option.some_get (by decide)).symm
  have last : exec (Tcb.step ethernet) afterFin [.resolved, .getPacket, .closeWrite] = some _ :=
    (Option.some_get (by decide)).symm
  exact ⟨_, last, by decide, by decide,
    Tcb.removed_is_silent ethernet exampleId zeroMemory closedByUser _ _ _ _ _ first (by decide)
      removal (by decide) (by decide) (by decide) last⟩

/-- The peer closes its window and resets the connection: the persist timer
outlives the removal, and fires again and again. -/
theorem reset_leaves_persist_timer : ∃ s u t,
    exec (Tcb.step ethernet) (Tcb.new exampleId zeroMemory) windowClosed = some s ∧
      s.life = .inTable ∧ Tcb.step ethernet s peerReset = some u ∧ u.life = .removed ∧
      exec (Tcb.step ethernet) u [.persist, .persist] = some t ∧ ¬Tcb.Silent u t := by
  have first : exec (Tcb.step ethernet) (Tcb.new exampleId zeroMemory) windowClosed = some _ :=
    (Option.some_get (by decide)).symm
  refine ⟨_, _, _, first, by decide, (Option.some_get (by decide)).symm, by decide,
    (Option.some_get (by decide)).symm, fun silent => ?_⟩
  have stopped := silent.persist
  revert stopped
  decide

end ActorNet.Tcp
