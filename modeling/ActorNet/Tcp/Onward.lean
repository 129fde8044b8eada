import ActorNet.Tcp.Frames

/-!
# How a connection goes on

Only the handshake makes a connection synchronized, and only the handshake sets
what the two sides agree on in it. Every other event leads `Onward`: the state
stays, or becomes CLOSED, or is one synchronized state after another.
-/

namespace ActorNet.Tcp

open Lib Net

/-- What the handshake settles. -/
structure Agreed where
  initial : TcpSeq
  mss : BitVec 16
  windowScale : Byte
  rcvWindowScale : Byte
  option : TcpOption

def Standing.agreed (s : Standing) : Agreed where
  initial := s.initial
  mss := s.mss
  windowScale := s.windowScale
  rcvWindowScale := s.rcvWindowScale
  option := s.option

namespace Tcb

variable {t t' t'' : Tcb} {hw : HwFeatures}

def agreed (t : Tcb) : Agreed := t.standing.agreed

/-- The states in which both sides know the sequence numbers of the other. -/
def synchronized (t : Tcb) : Bool :=
  t.inState [.established, .finWait1, .finWait2, .closeWait, .closing, .lastAck, .timeWait]

structure Onward (t t' : Tcb) : Prop where
  state : t'.state = t.state ∨ t'.state = .closed ∨
    t.synchronized = true ∧ t'.synchronized = true
  agreed : t'.agreed = t.agreed
  unacknowledged : t.synchronized = false → t'.snd.unacknowledged = t.snd.unacknowledged
  life : t'.life = t.life ∨ t'.life = .removed
  connectDone : t'.connectDone = t.connectDone ∨ t'.connectDone = some false
  id : t'.id = t.id
  asks : .addConnectedTcb ∈ t'.requests → .addConnectedTcb ∈ t.requests
  leaves : .removeFromTcbs ∈ t'.requests → .removeFromTcbs ∈ t.requests ∨ t'.life = .removed
  removal : .removeFromTcbs ∈ t.requests → .removeFromTcbs ∈ t'.requests
  removed : t'.life = t.life ∨ .removeFromTcbs ∈ t'.requests

namespace Onward

theorem asks_more {r : Request} {rs : List Request} (other : r ≠ .addConnectedTcb)
    (mem : .addConnectedTcb ∈ rs ++ [r]) : .addConnectedTcb ∈ rs := by
  rcases List.mem_append.mp mem with before | last
  · exact before
  · exact absurd (List.mem_singleton.mp last).symm other

theorem synchronized_eq (same : t'.state = t.state) : t'.synchronized = t.synchronized := by
  unfold Tcb.synchronized inState
  rw [same]

theorem closed_not_synchronized (closed : t.state = .closed) : t.synchronized = false := by
  unfold Tcb.synchronized inState
  rw [closed]
  decide

/-- Nobody gets synchronized on the way. -/
theorem synchronized_of (onward : Onward t t') (sync : t'.synchronized = true) :
    t.synchronized = true := by
  rcases onward.state with same | closed | both
  · rwa [synchronized_eq same] at sync
  · rw [closed_not_synchronized closed] at sync
    cases sync
  · exact both.1

theorem refl (t : Tcb) : Onward t t :=
  ⟨.inl rfl, rfl, fun _ => rfl, .inl rfl, .inl rfl, rfl, fun mem => mem, .inl, fun mem => mem,
    .inl rfl⟩

theorem trans (first : Onward t t') (second : Onward t' t'') : Onward t t'' where
  state := by
    rcases second.state with same | closed | both
    · rcases first.state with same' | closed' | both'
      · exact .inl (same.trans same')
      · exact .inr (.inl (same.trans closed'))
      · exact .inr (.inr ⟨both'.1, synchronized_eq same ▸ both'.2⟩)
    · exact .inr (.inl closed)
    · exact .inr (.inr ⟨first.synchronized_of both.1, both.2⟩)
  agreed := second.agreed.trans first.agreed
  unacknowledged := by
    intro apart
    have apart' : t'.synchronized = false := by
      rw [Bool.eq_false_iff]
      intro sync
      rw [first.synchronized_of sync] at apart
      cases apart
    exact (second.unacknowledged apart').trans (first.unacknowledged apart)
  life := by
    rcases second.life with same | removed
    · rcases first.life with same' | removed'
      · exact .inl (same.trans same')
      · exact .inr (same.trans removed')
    · exact .inr removed
  connectDone := by
    rcases second.connectDone with same | failed
    · rcases first.connectDone with same' | failed'
      · exact .inl (same.trans same')
      · exact .inr (same.trans failed')
    · exact .inr failed
  id := second.id.trans first.id
  asks := first.asks ∘ second.asks
  leaves := by
    intro mem
    rcases second.leaves mem with before | gone
    · rcases first.leaves before with before' | gone
      · exact .inl before'
      · rcases second.life with same | removed
        · exact .inr (same.trans gone)
        · exact .inr removed
    · exact .inr gone
  removal := second.removal ∘ first.removal
  removed := by
    rcases second.removed with same | mem
    · rcases first.removed with same' | mem
      · exact .inl (same.trans same')
      · exact .inr (second.removal mem)
    · exact .inr mem

theorem fresh_of (onward : Onward t t') (fresh : t'.life = .fresh) : t.life = .fresh := by
  rcases onward.life with same | removed
  · rw [← same, fresh]
  · rw [removed] at fresh
    cases fresh

/-- Whoever is in a handshake was there before. -/
theorem handshake_of (onward : Onward t t')
    (here : t'.inState [.synSent, .synReceived] = true) : t'.state = t.state := by
  have here := of_decide_eq_true here
  rcases onward.state with same | closed | both
  · exact same
  · rw [closed] at here
    exfalso
    revert here
    decide
  · have sync := of_decide_eq_true both.2
    exfalso
    revert here sync
    cases t'.state <;> decide

/-- Nor does anybody get to SYN_RECEIVED. -/
theorem past (onward : Onward t t') (past : t.inState [.synReceived] = false) :
    t'.inState [.synReceived] = false := by
  unfold inState at *
  rcases onward.state with same | closed | both
  · rw [same]
    exact past
  · rw [closed]
    rfl
  · have both := of_decide_eq_true both.2
    revert both
    cases t'.state <;> decide

theorem of_bearing (same : t'.bearing = t.bearing) : Onward t t' where
  state := .inl (congrArg (fun b => b.state) same)
  agreed := congrArg (fun b => b.toStanding.agreed) same
  unacknowledged := fun _ => congrArg Bearing.unacknowledged same
  life := .inl (congrArg (fun b => b.life) same)
  connectDone := .inl (congrArg (fun b => b.connectDone) same)
  id := congrArg (fun b => b.id) same
  asks := by
    have requests : t'.requests = t.requests := congrArg (fun b => b.requests) same
    exact fun mem => requests ▸ mem
  leaves := by
    have requests : t'.requests = t.requests := congrArg (fun b => b.requests) same
    exact fun mem => .inl (requests ▸ mem)
  removal := by
    have requests : t'.requests = t.requests := congrArg (fun b => b.requests) same
    exact fun mem => requests ▸ mem
  removed := .inl (congrArg (fun b => b.life) same)

/-- Between synchronized states SND.UNA may move. -/
theorem of_standing (sync : t.synchronized = true) (same : t'.standing = t.standing) :
    Onward t t' where
  state := .inl (congrArg Standing.state same)
  agreed := congrArg Standing.agreed same
  unacknowledged := fun apart => by rw [sync] at apart; cases apart
  life := .inl (congrArg Standing.life same)
  connectDone := .inl (congrArg Standing.connectDone same)
  id := congrArg Standing.id same
  asks := by
    have requests : t'.requests = t.requests := congrArg Standing.requests same
    exact fun mem => requests ▸ mem
  leaves := by
    have requests : t'.requests = t.requests := congrArg Standing.requests same
    exact fun mem => .inl (requests ▸ mem)
  removal := by
    have requests : t'.requests = t.requests := congrArg Standing.requests same
    exact fun mem => requests ▸ mem
  removed := .inl (congrArg Standing.life same)

theorem enter (t : Tcb) (state : TcpState)
    (both : t.synchronized = true ∧ { t with state }.synchronized = true) :
    Onward t { t with state } where
  state := .inr (.inr both)
  agreed := rfl
  unacknowledged := fun _ => rfl
  life := .inl rfl
  connectDone := .inl rfl
  id := rfl
  asks := fun mem => mem
  leaves := .inl
  removal := fun mem => mem
  removed := .inl rfl

theorem cleanup (t : Tcb) : Onward t t.cleanup :=
  ⟨.inl rfl, rfl, fun _ => rfl, .inr rfl, .inl rfl, rfl, asks_more (by decide),
    fun _ => .inr rfl, List.mem_append_left _, .inr List.mem_concat_self⟩

theorem doReset (t : Tcb) : Onward t t.doReset :=
  ⟨.inr (.inl rfl), rfl, fun _ => rfl, .inr rfl, .inl rfl, rfl, asks_more (by decide),
    fun _ => .inr rfl, List.mem_append_left _, .inr List.mem_concat_self⟩

theorem doClosed (t : Tcb) : Onward t t.doClosed :=
  ⟨.inr (.inl rfl), rfl, fun _ => rfl, .inr rfl, .inl rfl, rfl, asks_more (by decide),
    fun _ => .inr rfl, List.mem_append_left _, .inr List.mem_concat_self⟩

theorem doTimeWait (sync : t.synchronized = true) : Onward t t.doTimeWait :=
  ⟨.inr (.inr ⟨sync, rfl⟩), rfl, fun _ => rfl, .inr rfl, .inl rfl, rfl, asks_more (by decide),
    fun _ => .inr rfl, List.mem_append_left _, .inr List.mem_concat_self⟩

theorem connectFailed (t : Tcb) : Onward t t.connectFailed :=
  ⟨.inl rfl, rfl, fun _ => rfl, .inl rfl, .inr rfl, rfl, fun mem => mem, .inl, fun mem => mem,
    .inl rfl⟩

end Onward

/-! ## Timers and the user -/

theorem outputUpdateRto_bearing (t : Tcb) : t.outputUpdateRto.bearing = t.bearing :=
  output_bearing t

theorem retransmitData_onward (t : Tcb) : Onward t (t.retransmitData hw) := by
  unfold retransmitData
  split
  · exact .refl t
  dsimp only
  split
  · refine .of_bearing ?_
    rw [outputUpdateRto_bearing, outputOne_bearing]
    rfl
  · exact ⟨.inr (.inl rfl), rfl, fun _ => rfl, .inr rfl, .inl rfl, rfl,
      Onward.asks_more (by decide), fun _ => .inr rfl, List.mem_append_left _,
      .inr List.mem_concat_self⟩

theorem retransmitFin_onward (t : Tcb) : Onward t (t.retransmitFin hw) := by
  have counted : Onward t t.countFin := .of_bearing rfl
  unfold retransmitFin
  split
  · split
    · exact (counted.trans (.of_bearing (outputUpdateRto_bearing _))).trans
        (retransmitData_onward _)
    · exact counted.trans (.cleanup _)
  · exact retransmitData_onward t

theorem connectFailed_cleanup_onward (t : Tcb) : Onward t t.connectFailed.cleanup :=
  (Onward.connectFailed t).trans (.cleanup _)

theorem retransmit_onward (t : Tcb) : Onward t (t.retransmit hw) := by
  have counted : Onward t t.countSyn := .of_bearing rfl
  unfold retransmit
  split
  · split
    · exact (counted.trans (.of_bearing (outputUpdateRto_bearing _))).trans
        (retransmitFin_onward _)
    · exact counted.trans (connectFailed_cleanup_onward _)
  · exact retransmitFin_onward t

theorem shutdownConnect_onward (t : Tcb) : Onward t t.shutdownConnect := by
  unfold shutdownConnect
  split
  · exact connectFailed_cleanup_onward t
  · exact .of_bearing (by rw [close_bearing, abortReader_bearing])

theorem closeContinuation_onward (t : Tcb) : Onward t (t.closeContinuation hw) := by
  have closed : ∀ state : TcpState,
      state = t.state ∨ t.synchronized = true ∧ { t with state }.synchronized = true →
      Onward t { t with snd := { t.snd with closed := true }, state } := by
    intro state moves
    rcases moves with rfl | both
    · exact ⟨.inl rfl, rfl, fun _ => rfl, .inl rfl, .inl rfl, rfl, fun mem => mem, .inl,
        fun mem => mem, .inl rfl⟩
    · exact ⟨.inr (.inr both), rfl, fun _ => rfl, .inl rfl, .inl rfl, rfl, fun mem => mem, .inl,
        fun mem => mem, .inl rfl⟩
  unfold closeContinuation
  refine (closed _ ?_).trans (.of_bearing ((output_bearing _).trans (outputOne_bearing _ false)))
  cases here : t.state <;> simp [synchronized, inState, here]

theorem arpTimeout_onward (t : Tcb) : Onward t t.arpTimeout := by
  have resolved : Onward t { t with resolving := t.resolving - 1 } := .of_bearing rfl
  unfold arpTimeout
  dsimp only
  split
  · exact resolved.trans (connectFailed_cleanup_onward _)
  · exact .of_bearing rfl

/-! ## Segments -/

theorem ackInEstablished_onward (th : TcpHdr) (segSeq : TcpSeq) (segLen : Nat) (t : Tcb) :
    Onward t (reached (t.ackInEstablished hw th segSeq segLen)) := by
  cases sync : t.synchronized with
  | true => exact .of_standing sync (ackInEstablished_standing th segSeq segLen t)
  | false =>
      have elsewhere : t.inState [.established, .closeWait] = false := by
        cases here : t.state <;> simp_all [synchronized, inState]
      unfold ackInEstablished
      rw [elsewhere]
      exact .refl t

theorem doLocalFinAcked_onward (sync : t.synchronized = true) : Onward t t.doLocalFinAcked where
  state := .inl rfl
  agreed := rfl
  unacknowledged := fun apart => by rw [sync] at apart; cases apart
  life := .inl rfl
  connectDone := .inl rfl
  id := rfl
  asks := fun mem => mem
  leaves := .inl
  removal := fun mem => mem
  removed := .inl rfl

theorem ackOfFin_onward (th : TcpHdr) (t : Tcb) : Onward t (ended (t.ackOfFin th)) := by
  have sync : ∀ states : List TcpState, t.state ∈ states →
      (∀ s ∈ states, s ∈ [TcpState.established, .finWait1, .finWait2, .closeWait, .closing,
        .lastAck, .timeWait]) → t.synchronized = true := by
    intro states here all
    exact decide_eq_true (all t.state here)
  unfold ackOfFin
  split
  · rename_i here
    have sync := sync [.finWait1] (by simp [here]) (by decide)
    split
    · exact (Onward.enter t .finWait2 ⟨sync, rfl⟩).trans (doLocalFinAcked_onward rfl)
    · exact .refl t
  · rename_i here
    have sync := sync [.closing] (by simp [here]) (by decide)
    split
    · exact (doLocalFinAcked_onward sync).trans (.doTimeWait sync)
    · exact .refl t
  · rename_i here
    have sync := sync [.lastAck] (by simp [here]) (by decide)
    split
    · exact (doLocalFinAcked_onward sync).trans (.doClosed _)
    · exact .refl t
  · exact .refl t

/-- The three steps of `checkAck`, if none of them returns. -/
theorem checkAck_of_ok {th : TcpHdr} {segSeq : TcpSeq} {segLen : Nat} {u v w : Tcb} {b : Bool}
    (first : t.ackInSynReceived th = .ok u)
    (middle : u.ackInEstablished hw th segSeq segLen = .ok (v, b))
    (last : v.ackOfFin th = .ok w) : t.checkAck hw th segSeq segLen = .ok (w, b) := by
  unfold checkAck
  rw [first]
  show Except.bind (u.ackInEstablished hw th segSeq segLen) _ = _
  rw [middle]
  show Except.bind (v.ackOfFin th) _ = _
  rw [last]
  rfl

theorem checkAck_of_error {th : TcpHdr} {segSeq : TcpSeq} {segLen : Nat} {u v : Tcb}
    (first : t.ackInSynReceived th = .ok u)
    (middle : u.ackInEstablished hw th segSeq segLen = .error v) :
    t.checkAck hw th segSeq segLen = .error v := by
  unfold checkAck
  rw [first]
  show Except.bind (u.ackInEstablished hw th segSeq segLen) _ = _
  rw [middle]
  rfl

/-- Outside SYN_RECEIVED no acknowledgement completes a handshake. -/
theorem checkAck_onward (th : TcpHdr) (segSeq : TcpSeq) (segLen : Nat)
    (past : t.inState [.synReceived] = false) :
    Onward t (reached (t.checkAck hw th segSeq segLen)) := by
  refine checkAck_of_steps ?_ ?_ ?_
  · rw [ackInSynReceived_past th past]
    exact .refl t
  · exact fun u _ onward => onward.trans (ackInEstablished_onward th segSeq segLen u)
  · exact fun u onward => onward.trans (ackOfFin_onward th u)

theorem synchronized_of_past (past : t.inState [.synReceived] = false)
    (open_ : t.inState [.closed, .listen, .synSent] = false) : t.synchronized = true := by
  unfold synchronized
  cases here : t.state <;> simp_all [inState]

theorem checkFin_onward (th : TcpHdr) (finSeq : TcpSeq) (doOutput : Bool)
    (past : t.inState [.synReceived] = false) :
    Onward t (reached (t.checkFin th finSeq doOutput)) := by
  unfold checkFin
  split
  · exact .refl t
  split
  · exact .refl t
  rename_i open_
  have sync : t.synchronized = true :=
    synchronized_of_past past (by simpa using open_)
  have taken : Onward t (t.takeFin finSeq) := .of_standing sync (takeFin_standing finSeq t)
  have sync' : (t.takeFin finSeq).synchronized = true := by
    rw [← sync]
    exact Onward.synchronized_eq (congrArg Standing.state (takeFin_standing finSeq t))
  split
  · dsimp only
    split
    · exact taken.trans (.enter _ .closeWait ⟨sync', rfl⟩)
    · exact taken.trans (.enter _ .closeWait ⟨sync', rfl⟩)
    · exact taken.trans (.enter _ .closing ⟨sync', rfl⟩)
    · exact taken.trans (.doTimeWait sync')
    · exact taken
  · exact .refl t

theorem afterAck_onward (th : TcpHdr) (segSeq : TcpSeq) (data : List Byte) (doOutputData : Bool)
    (past : t.inState [.synReceived] = false) :
    Onward t (t.afterAck th segSeq data doOutputData) := by
  refine afterAck_of_steps doOutputData (.refl t) ?_ ?_ ?_
  · intro here
    refine .of_standing (decide_eq_true ?_) (segmentText_standing data t)
    have here := of_decide_eq_true here
    revert here
    cases t.state <;> decide
  · exact fun u doOutput onward => onward.trans (checkFin_onward th _ doOutput (onward.past past))
  · exact fun u doOutput onward => onward.trans (.of_bearing (outputAfter_bearing _ _ _))

theorem respondWithReset_onward (th : TcpHdr) (t : Tcb) :
    Onward t (t.request (.respondWithReset th)) :=
  ⟨.inl rfl, rfl, fun _ => rfl, .inl rfl, .inl rfl, rfl, Onward.asks_more (by simp),
    fun mem => .inl (by simpa [request] using mem), List.mem_append_left _, .inl rfl⟩

/-- An acknowledgement that completes the handshake in SYN_RECEIVED. -/
def completesHandshake (th : TcpHdr) (t : Tcb) : Bool :=
  t.inState [.synReceived] && !th.fRst && !th.fSyn && th.fAck &&
    decide (t.snd.unacknowledged ≤ th.ack) && decide (th.ack ≤ t.snd.next)

/-- The acknowledgement of a segment in SYN_RECEIVED is refused, or it completes
the handshake and is then taken like one in ESTABLISHED. -/
theorem checkAck_in_synReceived (th : TcpHdr) (segSeq : TcpSeq) (segLen : Nat)
    (here : t.inState [.synReceived] = true) :
    t.checkAck hw th segSeq segLen =
      if t.snd.unacknowledged ≤ th.ack ∧ th.ack ≤ t.snd.next then
        (t.doEstablished.request .addConnectedTcb).checkAck hw th segSeq segLen
      else .error (t.request (.respondWithReset th)) := by
  have again : (t.doEstablished.request .addConnectedTcb).ackInSynReceived th =
      .ok (t.doEstablished.request .addConnectedTcb) := rfl
  unfold checkAck
  rw [again]
  unfold ackInSynReceived
  rw [if_pos here]
  split <;> rfl

theorem checked_onward (th : TcpHdr) (segSeq : TcpSeq) (data : List Byte)
    (past : t.inState [.synReceived] = false) :
    Onward t (match t.checkAck hw th segSeq data.length with
      | .error v => v
      | .ok (v, doOutputData) => v.afterAck th segSeq data doOutputData) := by
  have acked := @checkAck_onward t hw th segSeq data.length past
  exact checked_of_steps acked fun _ doOutputData onward =>
    onward.trans (afterAck_onward th segSeq data doOutputData (onward.past past))

theorem segmentInOrder_onward (th : TcpHdr) (segSeq : TcpSeq) (data : List Byte)
    (idle : t.completesHandshake th = false) :
    Onward t (t.segmentInOrder hw th segSeq data) := by
  apply segmentInOrder_of_ack
  · exact (Onward.connectFailed t).trans (.doReset _)
  · exact .doReset t
  · exact .doClosed t
  · exact (respondWithReset_onward _ t).trans (.doReset _)
  · exact .refl t
  · intro rst noSyn ack
    cases here : t.inState [.synReceived] with
    | true =>
        have noRst : th.fRst = false := by
          cases reset : th.fRst with
          | true => rw [(rst reset).1] at here; cases here
          | false => rfl
        have refused : ¬(t.snd.unacknowledged ≤ th.ack ∧ th.ack ≤ t.snd.next) := by
          simpa [completesHandshake, here, noRst, noSyn, ack] using idle
        rw [checkAck_in_synReceived th segSeq data.length here, if_neg refused]
        exact respondWithReset_onward _ t
    | false => exact checked_onward th segSeq data here

/-- A segment that completes the handshake in SYN_RECEIVED. -/
def completes (th : TcpHdr) (p : Impl) (t : Tcb) : Bool :=
  match t.arrival th p with
  | .inOrder .. => t.completesHandshake th
  | _ => false

theorem inputHandleOtherState_onward (th : TcpHdr) (p : Impl) (idle : t.completes th p = false) :
    Onward t (t.inputHandleOtherState hw th p) := by
  unfold completes at idle
  unfold inputHandleOtherState
  cases here : t.arrival th p with
  | overrun => exact .of_bearing rfl
  | unacceptable => exact .of_bearing (output_bearing t)
  | outOfOrder segSeq data =>
      exact .of_bearing ((output_bearing _).trans (insertOutOfOrder_bearing _ _ _))
  | inOrder segSeq data =>
      rw [here] at idle
      exact segmentInOrder_onward th segSeq data idle

/-! ## Events -/

/-- The events that may set what is agreed on: the first of a connection, a
segment in SYN_SENT, and one that completes the handshake in SYN_RECEIVED. -/
def shakesHands (t : Tcb) : TcbEvent → Bool
  | .connect _ | .listen .. => true
  | .segment _ th p => t.inState [.synSent] || t.completes th p
  | _ => false

theorem handle_onward (e : TcbEvent) (idle : t.shakesHands e = false) :
    Onward t (t.handle hw e) := by
  cases e with
  | connect iss => cases idle
  | listen iss beyond th p => cases idle
  | segment beyond th p =>
      have idle : t.inState [.synSent] = false ∧ t.completes th p = false := by
        simpa [shakesHands] using idle
      have other : t.state ≠ .synSent := by simpa [inState] using idle.1
      show Onward t (t.inputHandle hw beyond th p)
      unfold inputHandle
      rw [if_neg other]
      exact inputHandleOtherState_onward th p idle.2
  | send p => exact .of_bearing (send_bearing t p)
  | waitForData => exact .of_bearing (waitForData_bearing t)
  | read => exact .of_bearing (read_bearing t)
  | closeRead => exact .of_bearing (abortReader_bearing t)
  | closeWrite => exact .of_bearing (close_bearing t)
  | shutdownConnect => exact shutdownConnect_onward t
  | closeContinuation =>
      have ready : Onward t { t with closeReady := t.closeReady - 1 } := .of_bearing rfl
      exact ready.trans (closeContinuation_onward _)
  | delayedAck => exact .of_bearing (output_bearing _)
  | retransmit =>
      have fired : Onward t { t with retransmitArmed := false } := .of_bearing rfl
      exact fired.trans (retransmit_onward _)
  | persist => exact .of_bearing (persist_bearing { t with persistArmed := false })
  | resolved => exact .of_bearing rfl
  | arpQueueFull => exact .of_bearing rfl
  | arpTimeout => exact arpTimeout_onward t
  | getPacket => exact .of_bearing (getPacket_bearing { t with pollTcbs := t.pollTcbs - 1 })

theorem step_onward {e : TcbEvent} (idle : t.shakesHands e = false)
    (next : step hw t e = some t') : ∃ u, Onward t u ∧ t' = { u with requests := [] } := by
  unfold step at next
  split at next
  · cases next
    exact ⟨_, handle_onward e idle, rfl⟩
  · cases next

/-- Nothing brings a synchronized connection back into a handshake. -/
theorem step_onward_of_synchronized {e : TcbEvent}
    (begins : t.life = .fresh → t.state = .closed) (sync : t.synchronized = true)
    (next : step hw t e = some t') : ∃ u, Onward t u ∧ t' = { u with requests := [] } := by
  refine step_onward ?_ next
  have notFresh : t.life ≠ .fresh := by
    intro fresh
    rw [Onward.closed_not_synchronized (begins fresh)] at sync
    cases sync
  have enabled : t.enabled e = true := by
    unfold step at next
    split at next
    · rename_i possible
      exact possible.2
    · cases next
  have sync := of_decide_eq_true sync
  cases e with
  | connect iss => exact absurd (of_decide_eq_true enabled) notFresh
  | listen iss beyond th p => exact absurd (of_decide_eq_true enabled) notFresh
  | segment beyond th p =>
      have apart : t.inState [.synSent] = false ∧ t.inState [.synReceived] = false := by
        unfold inState
        revert sync
        cases t.state <;> decide
      show (t.inState [.synSent] || t.completes th p) = false
      rw [apart.1, Bool.false_or]
      unfold completes
      split
      · unfold completesHandshake
        rw [apart.2]
        rfl
      · rfl
  | _ => rfl

/-! ## The handshake -/

theorem enterSyn_life (t : Tcb) (state : TcpState) : (t.enterSyn state).life = t.life :=
  congrArg (fun b => b.life) (output_bearing _)

theorem takeHeader_error {th : TcpHdr} {p : Impl} (failed : t.takeHeader th p = .error t') :
    t' = t.fail .trimFront ∨ t' = t.fail .nullHeader := by
  unfold takeHeader at failed
  split at failed
  · split at failed
    · cases failed
    · cases failed
      exact .inl rfl
  · cases failed
    exact .inr rfl

theorem connect_life (hw : HwFeatures) (iss : TcpSeq) (t : Tcb) :
    (t.connect hw iss).life = .inTable :=
  enterSyn_life _ .synSent

theorem inputHandleListenState_life (beyond : Nat → Byte) (iss : TcpSeq) (th : TcpHdr) (p : Impl)
    (t : Tcb) : (t.inputHandleListenState hw beyond iss th p).life = .inTable := by
  unfold inputHandleListenState
  dsimp only
  split
  · rename_i failed
    rcases takeHeader_error failed with rfl | rfl <;> rfl
  · exact enterSyn_life _ .synReceived

theorem synInSynSent_life (beyond : Nat → Byte) (th : TcpHdr) (opts : List Byte) (t : Tcb) :
    (t.synInSynSent hw beyond th opts).life = t.life := by
  unfold synInSynSent
  split
  · unfold output
    split <;> rfl
  · exact enterSyn_life _ .synReceived

/-- In SYN_SENT a connection goes on, unless a SYN arrives that acknowledges
nothing or our SYN. -/
theorem inputHandleSynSentState_cases (beyond : Nat → Byte) (th : TcpHdr) (p : Impl) (t : Tcb) :
    Onward t (t.inputHandleSynSentState hw beyond th p) ∨
      ∃ opts, t.takeHeader th p = .ok opts ∧ th.fRst = false ∧ th.fSyn = true ∧
        (th.fAck = true → t.snd.initial < th.ack ∧ th.ack ≤ t.snd.next) ∧
        t.inputHandleSynSentState hw beyond th p = t.synInSynSent hw beyond th opts := by
  unfold inputHandleSynSentState
  cases header : t.takeHeader th p with
  | error t' =>
      left
      rcases takeHeader_error header with rfl | rfl <;> exact .of_bearing rfl
  | ok opts =>
      dsimp only
      split
      · exact .inl (respondWithReset_onward _ t)
      rename_i fits
      split
      · split
        · exact .inl (.doReset t)
        · exact .inl (.refl t)
      rename_i noRst
      split
      · rename_i syn
        refine .inr ⟨opts, rfl, by simpa using noRst, syn, fun ack => ?_, rfl⟩
        rw [not_and, not_or] at fits
        exact ⟨Decidable.not_not.mp (fits ack).1, (fits ack).2⟩
      · exact .inl (.refl t)

/-- With an acknowledgement the SYN of the peer completes our handshake. -/
theorem synInSynSent_of_ack {th : TcpHdr} (beyond : Nat → Byte) (opts : List Byte)
    (ack : th.fAck = true) (past : t.snd.initial < th.ack) :
    t.synInSynSent hw beyond th opts =
      ((t.takeSyn th).initFromOptions hw beyond th opts).doEstablished.output := by
  have acked : (t.takeSyn th).snd.unacknowledged = th.ack := if_pos ack
  unfold synInSynSent
  rw [acked, if_pos past]

theorem inputHandleOtherState_of_completes {th : TcpHdr} {p : Impl}
    (done : t.completes th p = true) :
    ∃ segSeq data, t.completesHandshake th = true ∧ t.inputHandleOtherState hw th p =
      (t.doEstablished.request .addConnectedTcb).segmentInOrder hw th segSeq data := by
  unfold completes at done
  unfold inputHandleOtherState
  cases here : t.arrival th p with
  | overrun => rw [here] at done; cases done
  | unacceptable => rw [here] at done; cases done
  | outOfOrder segSeq data => rw [here] at done; cases done
  | inOrder segSeq data =>
      rw [here] at done
      refine ⟨segSeq, data, done, ?_⟩
      simp only [completesHandshake, Bool.and_eq_true, Bool.not_eq_true', decide_eq_true_eq] at done
      obtain ⟨⟨⟨⟨⟨received, noRst⟩, noSyn⟩, ack⟩, least⟩, most⟩ := done
      show t.segmentInOrder hw th segSeq data = _
      unfold segmentInOrder
      simp only [noRst, noSyn, ack, Bool.false_eq_true, false_and, if_false, Bool.not_true]
      rw [checkAck_in_synReceived th segSeq data.length received, if_pos ⟨least, most⟩]

end Tcb

end ActorNet.Tcp
