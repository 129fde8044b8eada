import ActorNet.Tcp.WaitersAnswered

/-!
# Nobody waits for a removed connection

A reset breaks every promise but that of the connection, a failed connection
breaks that one, and all other ends leave behind whoever waits for more than
data. Once removed, a block begins no wait that it does not end itself.
-/

namespace ActorNet.Tcp

open Lib Net

namespace Tcb

variable {t t' : Tcb} {hw : HwFeatures} {e : TcbEvent}

def Deserted (t : Tcb) : Prop := ∀ p, t.waits p = false

theorem Deserted.doReset (known : t.connectDone ≠ none) : t.doReset.Deserted := by
  intro p
  by_cases connect : p = .connect
  · subst connect
    exact Option.isNone_eq_false_iff.mpr (Option.isSome_iff_ne_none.mpr known)
  · exact doReset_waits t p connect

/-- The connection fails, and nobody waits for more than that. -/
theorem Deserted.connectFailed (strangers : ∀ p, p ≠ .connect → t.waits p = false) :
    t.connectFailed.cleanup.Deserted := by
  intro p
  cases p with
  | connect => rfl
  | dataReceived => exact strangers .dataReceived (by decide)
  | allDataAcked => exact strangers .allDataAcked (by decide)
  | sendAvailable => exact strangers .sendAvailable (by decide)

/-- An end without a reset tells the reader, and nobody else. -/
theorem Deserted.slips (answers : Answers e t t') (calm : ∀ p, e.awaits p = false)
    (connected : t.connectDone = some true) (silent : t'.foreignWillNotSend = true)
    (acked : t.snd.allDataAckedPromise = false) (room : t.snd.sendAvailablePromise = false) :
    t'.Deserted := by
  have nobody : ∀ p, t.waits p = false → t'.waits p = false := by
    intro p none_
    rw [Bool.eq_false_iff]
    intro waits
    have before := answers.fewer p (calm p) waits
    rw [none_] at before
    cases before
  intro p
  cases p with
  | connect =>
      show t'.connectDone.isNone = false
      rw [answers.kept connected]
      rfl
  | dataReceived => exact decide_eq_false (answers.attended.heard silent)
  | allDataAcked => exact nobody .allDataAcked acked
  | sendAvailable => exact nobody .sendAvailable room

/-- Behind the handshake a connection that is not CLOSED was established. -/
theorem Attended.connected (attended : t.Attended) (past : t.synNeedsOn = false)
    (open_ : t.state ≠ .closed) : t.connectDone = some true :=
  Decidable.not_not.mp fun other => open_ (attended.opened past other)

theorem Attended.connected_of {states : List TcpState} (attended : t.Attended)
    (here : t.inState states = true)
    (apart : ∀ state ∈ states, state ≠ .synSent ∧ state ≠ .synReceived ∧ state ≠ .closed) :
    t.connectDone = some true := by
  obtain ⟨sent, received, closed⟩ := apart t.state (of_decide_eq_true here)
  refine attended.connected ?_ closed
  simp [synNeedsOn, inState, sent, received]

/-! ## By a segment -/

/-- The FIN of the peer, behind the acknowledgement of ours. -/
theorem finTaken_slips (th : TcpHdr) (segSeq : TcpSeq) (data : List Byte) {v : Tcb}
    (life : v.life = t.life) (textEnd : v.textEnd data = t.textEnd data)
    (behind : v.state = .finWait2 → t.state = .finWait2 ∨ t.state = .finWait1 ∧ t.finAcked th = true) :
    (v.afterAck th segSeq data false).life = t.life ∨
      t.inState [.finWait1, .finWait2, .closing, .lastAck] = true ∧
        (th.fRst = false → th.fSyn = false → th.fAck = true →
          t.slipsAway th segSeq data = true) ∧
        (v.afterAck th segSeq data false).foreignWillNotSend = true := by
  rcases afterAck_cases th segSeq data false v with stays | ⟨here, fin, next, eq⟩
  · exact .inl (stays.trans life)
  right
  rw [eq]
  rw [textEnd] at next
  rcases behind here with state | ⟨state, acked⟩
  · refine ⟨inState_of_eq state (by decide), fun rst syn ack => ?_, rfl⟩
    simp [slipsAway, rst, syn, ack, state, fin, next]
  · refine ⟨inState_of_eq state (by decide), fun rst syn ack => ?_, rfl⟩
    simp [slipsAway, rst, syn, ack, state, fin, next, acked]

/-- An acknowledgement that ends the connection. -/
theorem checked_slips (th : TcpHdr) (segSeq : TcpSeq) (data : List Byte) {w : Tcb}
    (result : (match t.checkAck hw th segSeq data.length with
      | .error v => v
      | .ok (v, doOutputData) => v.afterAck th segSeq data doOutputData) = w) :
    w.life = t.life ∨ t.inState [.finWait1, .finWait2, .closing, .lastAck] = true ∧
      (th.fRst = false → th.fSyn = false → th.fAck = true →
        t.slipsAway th segSeq data = true) ∧ w.foreignWillNotSend = true := by
  rcases @checked_cases hw th segSeq data t with stays | eq
  · exact .inl ((congrArg Tcb.life result).symm.trans stays)
  have reached := result.symm.trans eq
  subst reached
  clear eq result
  unfold ackOfFin
  split
  · rename_i v stopped
    split at stopped
    · cases stopped
    · rename_i here
      cases stopped
      split
      · rename_i acked
        refine .inr ⟨inState_of_eq here (by decide), fun rst syn ack => ?_, rfl⟩
        simp [slipsAway, rst, syn, ack, here, acked]
      · exact .inl rfl
    · rename_i here
      split at stopped
      · rename_i acked
        cases stopped
        refine .inr ⟨inState_of_eq here (by decide), fun rst syn ack => ?_, rfl⟩
        simp [slipsAway, rst, syn, ack, here, acked]
      · cases stopped
    · cases stopped
  · rename_i v goes
    split at goes
    · rename_i here
      cases goes
      split
      · rename_i acked
        exact finTaken_slips th segSeq data rfl rfl fun _ => .inr ⟨here, acked⟩
      · exact finTaken_slips th segSeq data rfl rfl fun later => .inl later
    · cases goes
    · split at goes
      · cases goes
      · cases goes
        exact finTaken_slips th segSeq data rfl rfl fun later => .inl later
    · cases goes
      exact finTaken_slips th segSeq data rfl rfl fun later => .inl later

theorem segmentInOrder_deserted (th : TcpHdr) (segSeq : TcpSeq) (data : List Byte)
    (attended : t.Attended) (inside : t.life = .inTable) (wakes : t.InOrderWakes th segSeq data)
    (gone : (t.segmentInOrder hw th segSeq data).life = .removed) :
    (t.segmentInOrder hw th segSeq data).Deserted := by
  have answers := @segmentInOrder_answers t hw .getPacket th segSeq data attended inside
  have slips : t.slipsAway th segSeq data = true → t.connectDone = some true →
      (t.segmentInOrder hw th segSeq data).foreignWillNotSend = true →
      (t.segmentInOrder hw th segSeq data).Deserted := by
    intro ends connected silent
    obtain ⟨acked, room⟩ := wakes.2 ends
    exact .slips answers (fun _ => rfl) connected silent acked room
  have stays : t.life ≠ .removed := by
    rw [inside]
    decide
  clear answers
  revert gone slips
  unfold segmentInOrder
  split
  · exact fun _ _ => .doReset (Option.some_ne_none false)
  rename_i noHandshake
  split
  · rename_i rst
    intro _ _
    have connected := attended.connected_of rst.2 (by decide)
    exact .doReset (by rw [connected]; exact Option.some_ne_none true)
  rename_i noReset
  split
  · rename_i rst
    intro _ slips
    refine slips ?_ (attended.connected_of rst.2 (by decide)) rfl
    unfold slipsAway
    rw [if_pos rst.1]
    exact rst.2
  rename_i noEnd
  split
  · rename_i syn
    intro _ _
    refine .doReset fun open_ => ?_
    obtain ⟨rst, here⟩ := wakes.1 syn open_
    exact noHandshake ⟨rst, inState_of_eq here (by decide)⟩
  rename_i noSyn
  split
  · exact fun gone => absurd gone stays
  rename_i ack
  intro gone slips
  rcases @checked_slips t hw th segSeq data _ rfl with same | ⟨here, ends, silent⟩
  · exact absurd (same.symm.trans gone) stays
  · refine slips (ends ?_ (by simpa using noSyn) (by simpa using ack)) ?_ silent
    · rw [Bool.eq_false_iff]
      intro rst
      have listed := of_decide_eq_true here
      simp only [List.mem_cons, List.not_mem_nil, or_false] at listed
      rcases listed with state | state | state | state
      · exact noReset ⟨rst, inState_of_eq state (by decide)⟩
      · exact noReset ⟨rst, inState_of_eq state (by decide)⟩
      · exact noEnd ⟨rst, inState_of_eq state (by decide)⟩
      · exact noEnd ⟨rst, inState_of_eq state (by decide)⟩
    · exact attended.connected_of here (by decide)

theorem inputHandleSynSentState_life (beyond : Nat → Byte) (th : TcpHdr) (p : Impl)
    (noReset : t.resetsSynSent th = false) :
    (t.inputHandleSynSentState hw beyond th p).life = t.life := by
  unfold inputHandleSynSentState
  split
  · rename_i failed
    rcases takeHeader_error failed with rfl | rfl <;> rfl
  split
  · rfl
  rename_i fits
  dsimp only
  split
  · rename_i rst
    split
    · rename_i acceptable
      simp only [Bool.and_eq_true, decide_eq_true_eq] at acceptable
      obtain ⟨⟨ack, least⟩, most⟩ := acceptable
      have reset : t.resetsSynSent th = true := by
        unfold resetsSynSent
        rw [rst, ack, decide_eq_true least, decide_eq_true most]
        simpa [ack] using fits
      rw [reset] at noReset
      cases noReset
    · rfl
  split
  · exact synInSynSent_life _ _ _ _
  · rfl

theorem inputHandle_deserted (beyond : Nat → Byte) (th : TcpHdr) (p : Impl)
    (attended : t.Attended) (inside : t.life = .inTable) (wakes : t.Wakes (.segment beyond th p))
    (gone : (t.inputHandle hw beyond th p).life = .removed) :
    (t.inputHandle hw beyond th p).Deserted := by
  have stays : ∀ {u : Tcb}, u.life = t.life → u.life = .removed → u.Deserted := by
    intro u same gone
    rw [same, inside] at gone
    cases gone
  revert gone
  unfold inputHandle
  split
  · rename_i here
    exact stays (inputHandleSynSentState_life beyond th p (wakes.1 here))
  rename_i other
  have wakes := wakes.2 other
  unfold ArrivalWakes at wakes
  unfold inputHandleOtherState
  cases arrives : t.arrival th p with
  | overrun => exact stays rfl
  | unacceptable => exact stays (output_life t)
  | outOfOrder segSeq data =>
      exact stays ((output_life _).trans
        (congrArg (fun b => b.life) (insertOutOfOrder_bearing segSeq data t)))
  | inOrder segSeq data =>
      rw [arrives] at wakes
      exact segmentInOrder_deserted th segSeq data attended inside wakes

/-! ## By `retransmit` -/

/-- Whoever sends a SYN sends no FIN. -/
theorem finNeedsOn_of_syn (syn : t.synNeedsOn = true) : t.finNeedsOn = false := by
  unfold finNeedsOn
  unfold synNeedsOn inState at *
  revert syn
  cases t.state <;> simp

/-- Only data that is given up resets the connection. -/
theorem retransmitData_cases (t : Tcb) : (t.retransmitData hw).life = t.life ∨
    t.snd.data ≠ [] ∧ ∃ u : Tcb, t.retransmitData hw = u.doReset ∧ u.connectDone = t.connectDone := by
  unfold retransmitData
  split
  · exact .inl rfl
  rename_i data
  dsimp only
  split
  · left
    refine (congrArg (fun b => b.life) (outputUpdateRto_bearing _)).trans ?_
    exact congrArg (fun b => b.life) (outputOne_bearing _ true)
  · exact .inr ⟨by rw [data]; exact List.cons_ne_nil _ _, _, rfl, rfl⟩

theorem retransmitData_deserted (known : t.snd.data ≠ [] → t.connectDone ≠ none)
    (inside : t.life ≠ .removed) (gone : (t.retransmitData hw).life = .removed) :
    (t.retransmitData hw).Deserted := by
  rcases @retransmitData_cases hw t with stays | ⟨full, u, eq, same⟩
  · exact absurd (stays.symm.trans gone) inside
  · rw [eq]
    exact .doReset (by rw [same]; exact known full)

/-- A FIN that is given up wakes nobody. -/
theorem retransmitFin_deserted (known : t.snd.data ≠ [] → t.connectDone ≠ none)
    (fin : t.finNeedsOn = true → maxNrRetransmit ≤ t.snd.finRetransmit → t.Deserted)
    (inside : t.life ≠ .removed) (gone : (t.retransmitFin hw).life = .removed) :
    (t.retransmitFin hw).Deserted := by
  unfold retransmitFin at *
  split at gone
  · rename_i here
    rw [if_pos here]
    split at gone
    · rename_i again
      rw [if_pos again]
      have same := outputUpdateRto_bearing t.countFin
      have data : t.countFin.outputUpdateRto.snd = t.countFin.snd := outputUpdateRto_snd _
      refine retransmitData_deserted ?_ ?_ gone
      · rw [data, show t.countFin.outputUpdateRto.connectDone = t.connectDone from
          congrArg (fun b => b.connectDone) same]
        exact known
      · rw [show t.countFin.outputUpdateRto.life = t.life from congrArg (fun b => b.life) same]
        exact inside
    · rename_i most
      rw [if_neg most]
      have same : t.countFin.cleanup.waiting = t.waiting := rfl
      exact fun p => (waits_of_waiting same p).trans (fin here (Nat.not_lt.mp most) p)
  · rename_i other
    rw [if_neg other]
    exact retransmitData_deserted known inside gone

theorem retransmit_deserted (attended : t.Attended)
    (nothing : t.connectDone ≠ some true → t.NothingSent)
    (fin : t.finNeedsOn = true → maxNrRetransmit ≤ t.snd.finRetransmit →
      ∀ p ∈ [Promise.dataReceived, .allDataAcked, .sendAvailable], t.waits p = false)
    (inside : t.life ≠ .removed) (gone : (t.retransmit hw).life = .removed) :
    (t.retransmit hw).Deserted := by
  unfold retransmit at *
  cases syn : t.synNeedsOn with
  | true =>
      have open_ := attended.pending inside syn
      have silent := nothing (attended.handshake syn)
      rw [syn, if_pos rfl] at gone
      rw [if_pos rfl]
      split at gone
      · rename_i again
        rw [if_pos again]
        have same := outputUpdateRto_bearing t.countSyn
        have data : t.countSyn.outputUpdateRto.snd.data = [] :=
          (congrArg Send.data (outputUpdateRto_snd t.countSyn)).trans silent.data
        refine retransmitFin_deserted (fun full => absurd data full) (fun here _ => ?_) ?_ gone
        · have again : t.countSyn.outputUpdateRto.synNeedsOn = true := by
            unfold synNeedsOn inState at *
            rwa [outputUpdateRto_state]
          rw [finNeedsOn_of_syn again] at here
          cases here
        · rw [show t.countSyn.outputUpdateRto.life = t.life from congrArg (fun b => b.life) same]
          exact inside
      · rename_i most
        rw [if_neg most]
        exact .connectFailed (attended.strangers open_)
  | false =>
      rw [syn, if_neg Bool.false_ne_true] at gone
      rw [if_neg Bool.false_ne_true]
      refine retransmitFin_deserted (fun full => ?_) (fun here most => ?_) inside gone
      · intro open_
        refine full (nothing ?_).data
        rw [open_]
        exact fun kept => by cases kept
      · have connected : t.connectDone = some true := by
          unfold finNeedsOn at here
          simp only [Bool.and_eq_true] at here
          exact attended.connected_of here.1.1 (by decide)
        intro p
        cases p with
        | connect =>
            show t.connectDone.isNone = false
            rw [connected]
            rfl
        | dataReceived => exact fin here most _ (by decide)
        | allDataAcked => exact fin here most _ (by decide)
        | sendAvailable => exact fin here most _ (by decide)

/-- The event that removes a block leaves nobody behind. -/
theorem handle_deserted (e : TcbEvent) (attended : t.Attended)
    (nothing : t.connectDone ≠ some true → t.NothingSent) (wakes : t.Wakes e)
    (enabled : t.enabled e = true) (inside : t.life ≠ .removed)
    (gone : (t.handle hw e).life = .removed) : (t.handle hw e).Deserted := by
  have stays : (t.handle hw e).life = t.life → (t.handle hw e).Deserted := fun same =>
    absurd (same.symm.trans gone) inside
  have kept : (t.handle hw e).bearing = t.bearing → (t.handle hw e).Deserted := fun same =>
    stays (congrArg (fun b => b.life) same)
  cases e with
  | connect iss =>
      exact absurd ((connect_life hw iss t).symm.trans gone) (by decide)
  | listen iss beyond th p =>
      exact absurd ((inputHandleListenState_life beyond iss th p t).symm.trans gone) (by decide)
  | segment beyond th p =>
      exact inputHandle_deserted beyond th p attended (of_decide_eq_true enabled) wakes gone
  | send p => exact kept (send_bearing t p)
  | waitForData => exact kept (waitForData_bearing t)
  | read => exact kept (read_bearing t)
  | closeRead => exact kept (abortReader_bearing t)
  | closeWrite => exact kept (close_bearing t)
  | shutdownConnect =>
      revert stays
      show (t.shutdownConnect.life = t.life → t.shutdownConnect.Deserted) → t.shutdownConnect.Deserted
      unfold shutdownConnect
      split
      · rename_i syn
        exact fun _ => .connectFailed (attended.strangers (attended.pending inside syn))
      · intro stays
        have same := (close_bearing _).trans (abortReader_bearing t)
        exact stays (congrArg (fun b => b.life) same)
  | closeContinuation =>
      refine stays ?_
      show (outputOne hw false _).output.life = t.life
      rw [output_life]
      exact congrArg (fun b => b.life) (outputOne_bearing _ false)
  | delayedAck => exact kept (output_bearing _)
  | retransmit =>
      have fired : Serves t { t with retransmitArmed := false } := .of_bearing rfl rfl
      refine retransmit_deserted (attended.serves (.of_bearing rfl) fired)
        (fun open_ => (nothing open_).carry rfl) (fun fin most p mem => ?_) inside gone
      have same : { t with retransmitArmed := false }.waiting = t.waiting := rfl
      exact (waits_of_waiting same p).trans (wakes.2 fin most p mem)
  | persist => exact kept (persist_bearing { t with persistArmed := false })
  | resolved => exact stays rfl
  | arpQueueFull => exact stays rfl
  | arpTimeout =>
      revert stays
      show (t.arpTimeout.life = t.life → t.arpTimeout.Deserted) → t.arpTimeout.Deserted
      unfold arpTimeout
      dsimp only
      split
      · rename_i here
        have here : t.state = .synSent := by simpa [inState] using here
        have syn : t.synNeedsOn = true := inState_of_eq here (by decide)
        have strangers := attended.strangers (attended.pending inside syn)
        refine fun _ => .connectFailed fun p other => ?_
        have same : { t with resolving := t.resolving - 1 }.waiting = t.waiting := rfl
        exact (waits_of_waiting same p).trans (strangers p other)
      · exact fun stays => stays rfl
  | getPacket => exact kept (getPacket_bearing { t with pollTcbs := t.pollTcbs - 1 })

/-! ## After the removal -/

/-- Nothing is sent before the connection is established. -/
def Unspoken (t : Tcb) : Prop := t.connectDone ≠ some true → t.NothingSent

/-- Nothing is left to be acknowledged, so `close` does not wait. -/
theorem close_mute (mute : t.Mute) (unspoken : t.Unspoken) :
    t.close.snd.allDataAckedPromise = t.snd.allDataAckedPromise := by
  unfold close
  split
  · rfl
  rename_i open_
  split
  · rfl
  rename_i full
  rcases mute with closed | closed | nobody
  · rw [inState_of_eq closed (by decide)] at open_
    exact absurd rfl open_
  · rw [closed, Bool.or_true] at open_
    exact absurd rfl open_
  · rw [(unspoken nobody).data, (unspoken nobody).unsentLen] at full
    exact absurd rfl full

theorem send_mute (p : List Byte) (mute : t.Mute) (connected : t.connectDone = some true) :
    t.send p = t := by
  refine if_pos ?_
  rcases mute with closed | closed | nobody
  · rw [inState_of_eq closed (by decide), Bool.or_true]
  · rw [closed, Bool.true_or]
  · exact absurd connected nobody

theorem Mute.of_bearing (mute : t.Mute) (same : t'.bearing = t.bearing) : t'.Mute := by
  have state : t'.state = t.state := congrArg (fun b => b.state) same
  have closed : t'.snd.closed = t.snd.closed := congrArg (fun b => b.closed) same
  have connectDone : t'.connectDone = t.connectDone := congrArg (fun b => b.connectDone) same
  unfold Mute at *
  rw [state, closed, connectDone]
  exact mute

theorem Unspoken.abortReader (unspoken : t.Unspoken) : t.abortReader.Unspoken := by
  intro open_
  refine (unspoken ?_).abortReader
  rwa [← show t.abortReader.connectDone = t.connectDone from
    congrArg (fun b => b.connectDone) (abortReader_bearing t)]

/-- Of a removed block nobody waits on, who waited for nothing before. -/
theorem handle_still_deserted (e : TcbEvent) (attended : t.Attended) (unspoken : t.Unspoken)
    (mute : t.Mute) (deserted : t.Deserted) (gone : t.life = .removed) (wakes : t.Wakes e)
    (enabled : t.enabled e = true) : (t.handle hw e).Deserted := by
  have answers := @handle_answers t hw e attended wakes enabled
  intro p
  rw [Bool.eq_false_iff]
  intro waits
  cases begins : e.awaits p with
  | false =>
      have before := answers.fewer p begins waits
      rw [deserted p] at before
      cases before
  | true =>
      have clash : ∀ {b : Bool}, b = true → b = false → False := by
        rintro b rfl off
        cases off
      cases e with
      | waitForData =>
          cases p with
          | dataReceived =>
              have told : t.waitForData.rcv.reader ≠ .waiting := by
                show (if !t.rcv.data.isEmpty || t.foreignWillNotSend then Reader.ready
                  else .waiting) ≠ .waiting
                rw [wakes gone, Bool.or_true, if_pos rfl]
                exact fun again => by cases again
              exact told (of_decide_eq_true waits)
          | connect => cases begins
          | allDataAcked => cases begins
          | sendAvailable => cases begins
      | send data =>
          have waits : (t.send data).waits p = true := waits
          rw [send_mute data mute (of_decide_eq_true enabled)] at waits
          exact clash waits (deserted p)
      | closeWrite =>
          cases p with
          | allDataAcked => exact clash waits ((close_mute mute unspoken).trans (deserted .allDataAcked))
          | connect => cases begins
          | dataReceived => cases begins
          | sendAvailable => cases begins
      | shutdownConnect =>
          cases p with
          | allDataAcked =>
              have past : t.shutdownConnect = t.abortReader.close := by
                refine if_neg ?_
                rw [wakes gone]
                exact Bool.false_ne_true
              have waits : t.shutdownConnect.waits .allDataAcked = true := waits
              have aborted := mute.of_bearing (abortReader_bearing t)
              rw [past] at waits
              have before := (close_mute aborted unspoken.abortReader).symm.trans waits
              exact clash ((abortReader_settles t).fewer .allDataAcked before) (deserted .allDataAcked)
          | connect => cases begins
          | dataReceived => cases begins
          | sendAvailable => cases begins
      | connect _ | listen _ _ _ _ | segment _ _ _ | read | closeRead | closeContinuation | delayedAck
      | retransmit | persist | resolved | arpQueueFull | arpTimeout | getPacket => cases begins

/-! ## What is mute stays mute -/

theorem retransmitData_closed (t : Tcb) : (t.retransmitData hw).snd.closed = t.snd.closed := by
  unfold retransmitData
  split
  · rfl
  dsimp only
  split
  · rw [outputUpdateRto_snd]
    exact congrArg (fun b => b.closed) (outputOne_bearing _ true)
  · rfl

theorem retransmitFin_closed (t : Tcb) : (t.retransmitFin hw).snd.closed = t.snd.closed := by
  unfold retransmitFin
  split
  · split
    · rw [retransmitData_closed, outputUpdateRto_snd]
      rfl
    · rfl
  · exact retransmitData_closed t

theorem retransmit_closed (t : Tcb) : (t.retransmit hw).snd.closed = t.snd.closed := by
  unfold retransmit
  split
  · split
    · rw [retransmitFin_closed, outputUpdateRto_snd]
      rfl
    · rfl
  · exact retransmitFin_closed t

/-- The user's side is not opened again but with a segment. -/
theorem handle_closed (e : TcbEvent) (inside : t.life = .removed) (enabled : t.enabled e = true)
    (closed : t.snd.closed = true) : (t.handle hw e).snd.closed = true := by
  have kept : (t.handle hw e).bearing = t.bearing → (t.handle hw e).snd.closed = true := fun same =>
    (congrArg (fun b => b.closed) same).trans closed
  have gone : t.life ≠ .fresh ∧ t.life ≠ .inTable := by
    rw [inside]
    decide
  cases e with
  | connect iss => exact absurd (of_decide_eq_true enabled) gone.1
  | listen iss beyond th p => exact absurd (of_decide_eq_true enabled) gone.1
  | segment beyond th p => exact absurd (of_decide_eq_true enabled) gone.2
  | send p => exact kept (send_bearing t p)
  | waitForData => exact kept (waitForData_bearing t)
  | read => exact kept (read_bearing t)
  | closeRead => exact kept (abortReader_bearing t)
  | closeWrite => exact kept (close_bearing t)
  | shutdownConnect =>
      show t.shutdownConnect.snd.closed = true
      unfold shutdownConnect
      split
      · exact closed
      · have same := (close_bearing _).trans (abortReader_bearing t)
        exact (congrArg (fun b => b.closed) same).trans closed
  | closeContinuation =>
      refine (congrArg (fun b => b.closed) (output_bearing _)).trans ?_
      exact congrArg (fun b => b.closed) (outputOne_bearing _ false)
  | delayedAck => exact kept (output_bearing _)
  | retransmit => exact (retransmit_closed { t with retransmitArmed := false }).trans closed
  | persist => exact kept (persist_bearing { t with persistArmed := false })
  | resolved => exact closed
  | arpQueueFull => exact closed
  | arpTimeout =>
      show t.arpTimeout.snd.closed = true
      unfold arpTimeout
      dsimp only
      split <;> exact closed
  | getPacket => exact kept (getPacket_bearing { t with pollTcbs := t.pollTcbs - 1 })

theorem handle_mute (e : TcbEvent) (mute : t.Mute) (gone : t.life = .removed)
    (enabled : t.enabled e = true) : (t.handle hw e).Mute := by
  have idle : t.shakesHands e = false := by
    have outside : t.life ≠ .fresh ∧ t.life ≠ .inTable := by
      rw [gone]
      decide
    cases e with
    | connect iss => exact absurd (of_decide_eq_true enabled) outside.1
    | listen iss beyond th p => exact absurd (of_decide_eq_true enabled) outside.1
    | segment beyond th p => exact absurd (of_decide_eq_true enabled) outside.2
    | send _ | waitForData | read | closeRead | closeWrite | shutdownConnect | closeContinuation
    | delayedAck | retransmit | persist | resolved | arpQueueFull | arpTimeout | getPacket => rfl
  have onward := @handle_onward t hw e idle
  rcases mute with closed | closed | nobody
  · rcases onward.state with same | closed' | both
    · exact .inl (same.trans closed)
    · exact .inl closed'
    · rw [Onward.closed_not_synchronized closed] at both
      cases both.1
  · exact .inr (.inl (handle_closed e gone enabled closed))
  · refine .inr (.inr ?_)
    rcases onward.connectDone with same | failed
    · rwa [same]
    · rw [failed]
      exact fun kept => by cases kept

/-! ## Before the connection is established -/

/-- In CLOSED an acknowledgement is not for us. -/
theorem checked_closed (th : TcpHdr) (segSeq : TcpSeq) (data : List Byte)
    (closed : t.state = .closed) : (match t.checkAck hw th segSeq data.length with
      | .error v => v
      | .ok (v, doOutputData) => v.afterAck th segSeq data doOutputData) = t := by
  have ignored : t.checkAck hw th segSeq data.length = .ok (t, false) := by
    unfold checkAck ackInSynReceived ackInEstablished ackOfFin inState
    simp [closed, bind, Except.bind]
  rw [ignored]
  show t.afterAck th segSeq data false = t
  unfold afterAck checkFin inState
  rw [closed]
  cases th.fFin <;> simp [outputAfter, closed]

theorem segmentInOrder_unspoken (th : TcpHdr) (segSeq : TcpSeq) (data : List Byte)
    (attended : t.Attended) (unspoken : t.Unspoken) (open_ : t.connectDone ≠ some true)
    (other : t.state ≠ .synSent) : (t.segmentInOrder hw th segSeq data).Unspoken := by
  have silent := unspoken open_
  apply segmentInOrder_of_ack
  · exact fun _ => ⟨rfl, rfl, silent.unsentLen, silent.queued⟩
  · exact fun _ => silent.doReset
  · exact fun _ => ⟨rfl, rfl, silent.unsentLen, silent.queued⟩
  · exact fun _ => ⟨rfl, rfl, silent.unsentLen, silent.queued⟩
  · exact fun _ => silent
  intro _ _ _
  cases here : t.inState [.synReceived] with
  | true =>
      rw [checkAck_in_synReceived th segSeq data.length here]
      by_cases completes : t.snd.unacknowledged ≤ th.ack ∧ th.ack ≤ t.snd.next
      · rw [if_pos completes]
        have serves := @checked_serves (t.doEstablished.request .addConnectedTcb) hw th segSeq data rfl
        exact fun open_ => absurd serves.connectDone open_
      · rw [if_neg completes]
        exact fun _ => silent.carry rfl
  | false =>
      have received : t.state ≠ .synReceived := by simpa [inState] using here
      have past : t.synNeedsOn = false := by simp [synNeedsOn, inState, other, received]
      have same := @checked_closed t hw th segSeq data (attended.opened past open_)
      exact (congrArg Unspoken same).mpr unspoken

theorem handle_unspoken (e : TcbEvent) (attended : t.Attended) (unspoken : t.Unspoken)
    (wakes : t.Wakes e) (enabled : t.enabled e = true) : (t.handle hw e).Unspoken := by
  intro open'
  have open_ : t.connectDone ≠ some true := fun kept =>
    open' ((handle_answers e attended wakes enabled).kept kept)
  have silent := unspoken open_
  have unsent : ∀ p, e ≠ .send p := by
    rintro p rfl
    exact open_ (of_decide_eq_true enabled)
  by_cases handshake : ∀ beyond th p, e = .segment beyond th p → t.state = .synSent
  · exact silent.handle e unsent handshake
  · simp only [not_forall] at handshake
    obtain ⟨beyond, th, p, rfl, other⟩ := handshake
    revert open'
    show (t.inputHandle hw beyond th p).Unspoken
    unfold inputHandle
    rw [if_neg other]
    unfold inputHandleOtherState
    split
    · exact fun _ => silent.carry rfl
    · exact fun _ => silent.output
    · rename_i segSeq data _
      refine fun _ => NothingSent.output ?_
      unfold insertOutOfOrder
      split
      · exact silent.carry rfl
      · split <;> exact silent.carry rfl
    · exact segmentInOrder_unspoken th _ _ attended unspoken open_ other

/-! ## Every run -/

structure Answered (t : Tcb) : Prop where
  attended : t.Attended
  unspoken : t.Unspoken
  shut : t.Shut
  left : t.life = .removed → t.Mute ∧ t.Deserted

theorem new_answered (id : ConnId) (memory : Tcb) : (new id memory).Answered where
  attended := {
    begins := fun _ => ⟨rfl, rfl⟩
    handshake := fun syn => by cases syn
    failed := fun failed => by cases failed
    opened := fun _ _ => rfl
    heard := fun _ waits => by cases waits
    strangers := by
      intro _ p other
      cases p with
      | connect => exact absurd rfl other
      | dataReceived => rfl
      | allDataAcked => rfl
      | sendAvailable => rfl }
  unspoken := fun _ => ⟨rfl, rfl, rfl, fun s mem => by cases mem⟩
  shut := .elsewhere rfl
  left := fun gone => by cases gone

theorem Answered.handle (e : TcbEvent) (answered : t.Answered) (wakes : t.Wakes e)
    (enabled : t.enabled e = true) : (t.handle hw e).Answered where
  attended := (handle_answers e answered.attended wakes enabled).attended
  unspoken := handle_unspoken e answered.attended answered.unspoken wakes enabled
  shut := answered.shut.handle e
  left := by
    intro gone
    by_cases before : t.life = .removed
    · obtain ⟨mute, deserted⟩ := answered.left before
      exact ⟨handle_mute e mute before enabled, handle_still_deserted e answered.attended
        answered.unspoken mute deserted before wakes enabled⟩
    · exact ⟨(handle_removes e answered.shut before gone).2.1, handle_deserted e answered.attended
        answered.unspoken wakes enabled before gone⟩

/-- The requests have nothing to do with it. -/
theorem Answered.asked (answered : t.Answered) : { t with requests := [] }.Answered where
  attended := {
    answered.attended with
    strangers := by
      have same : { t with requests := [] }.waiting = t.waiting := rfl
      exact fun open_ p other => (waits_of_waiting same p).trans (answered.attended.strangers open_ p other) }
  unspoken := fun open_ => (answered.unspoken open_).carry rfl
  shut := answered.shut
  left := answered.left

theorem Answered.step {e : TcbEvent} (answered : t.Answered) (wakes : t.Wakes e)
    (next : step hw t e = some t') : t'.Answered ∧ ResolvesOnce t t' := by
  unfold Tcb.step at next
  split at next
  · rename_i possible
    cases next
    have once := (@handle_answers t hw e answered.attended wakes possible.2).once
    exact ⟨(answered.handle e wakes possible.2).asked, once⟩
  · cases next

/-- In a run that leaves nobody behind every promise is resolved once for each
wait, and nobody waits for a connection that was removed. -/
theorem waiters_answered (hw : HwFeatures) (id : ConnId) (memory : Tcb) (events : List TcbEvent)
    (t : Tcb) (wakes : Along (step hw) Wakes (new id memory) events)
    (run : exec (step hw) (new id memory) events = some t) :
    (∀ e t', t.Wakes e → step hw t e = some t' → ResolvesOnce t t') ∧
      (t.life = .removed → ∀ p, t.waits p = false) := by
  have answered : t.Answered :=
    wakes.invariant (fun _ _ _ answered wakes next => (answered.step wakes next).1)
      (new_answered id memory) run
  exact ⟨fun _ _ wakes next => (answered.step wakes next).2, fun gone => (answered.left gone).2⟩

end Tcb

/-! ## Two resets -/

/-- A user waits for data, and for what it sent to be acknowledged. -/
def resetWhileWaiting : List TcbEvent :=
  [.connect ⟨100⟩, .resolved, .getPacket,
    .segment (fun _ => 0) (peerSegment 700 101 true 1000) headerOnly, .waitForData, .send [1, 2],
    .closeWrite, .segment (fun _ => 0) { peerSegment 701 101 false 1000 with fRst := true } headerOnly]

/-- The reset of an established connection wakes both of them. -/
theorem waiters_answered_reset :
    ∃ t, exec (Tcb.step ethernet) (Tcb.new exampleId zeroMemory) resetWhileWaiting = some t ∧
      t.life = .removed ∧ t.resolved = [.connect, .dataReceived, .allDataAcked] ∧
      ∀ p, t.waits p = false := by
  have run : exec (Tcb.step ethernet) (Tcb.new exampleId zeroMemory) resetWhileWaiting = some _ :=
    (Option.some_get (by decide)).symm
  exact ⟨_, run, by decide, by decide,
    (Tcb.waiters_answered ethernet exampleId zeroMemory resetWhileWaiting _ (by decide) run).2
      (by decide)⟩

/-- Our SYN is answered with a reset: the connection is gone, and `connect`
waits for ever. -/
theorem reset_leaves_connect_waiting :
    ∃ t, exec (Tcb.step ethernet) (Tcb.new exampleId zeroMemory) [.connect ⟨100⟩, .resolved,
        .getPacket, .segment (fun _ => 0)
          { peerSegment 0 101 false 0 with fRst := true } headerOnly] = some t ∧
      t.life = .removed ∧ t.waits .connect = true := by
  have run : exec (Tcb.step ethernet) (Tcb.new exampleId zeroMemory) [.connect ⟨100⟩, .resolved,
      .getPacket, .segment (fun _ => 0)
        { peerSegment 0 101 false 0 with fRst := true } headerOnly] = some _ :=
    (Option.some_get (by decide)).symm
  exact ⟨_, run, by decide, by decide⟩

end ActorNet.Tcp
