import ActorNet.Tcp.Waiters

/-!
# Waiters are answered

Each way out of the table wakes its own waiters. A reset wakes all but the one
that waits for the connection; TIME_WAIT, LAST_ACK and a FIN that is given up
wake nobody. `Wakes` is the condition that nobody is left who is not woken; on
runs that meet it each promise is resolved once, and none outlives the removal.
-/

namespace ActorNet.Tcp

open Lib Net

/-- The calls that begin to wait. -/
def TcbEvent.awaits : TcbEvent → Promise → Bool
  | .waitForData, .dataReceived | .send _, .sendAvailable => true
  | .closeWrite, .allDataAcked | .shutdownConnect, .allDataAcked => true
  | _, _ => false

namespace Tcb

variable {t t' : Tcb} {hw : HwFeatures} {e : TcbEvent}

/-! ## The condition -/

/-- A segment that resets a connection in SYN_SENT. -/
def resetsSynSent (th : TcpHdr) (t : Tcb) : Bool :=
  th.fRst && th.fAck && decide (t.snd.unacknowledged ≤ th.ack) && decide (th.ack ≤ t.snd.next) &&
    !decide (th.ack ≤ t.snd.initial ∨ t.snd.next < th.ack)

/-- A segment that ends a connection without a reset: in the states behind both
FINs, or with the FIN of the peer when ours is acknowledged. -/
def slipsAway (th : TcpHdr) (segSeq : TcpSeq) (data : List Byte) (t : Tcb) : Bool :=
  let finTaken := th.fFin && segSeq + data.length == t.textEnd data
  if th.fRst then t.inState [.closing, .lastAck, .timeWait]
  else if th.fSyn || !th.fAck then false
  else match t.state with
    | .closing | .lastAck => t.finAcked th
    | .finWait1 => t.finAcked th && finTaken
    | .finWait2 => finTaken
    | _ => false

/-- What a segment in order must not find. A SYN leaves the promise of the
connection behind as long as it is open; only the reset of SYN_RECEIVED breaks
it. The end of a connection leaves behind those who wait for acknowledgements or
for room. -/
def InOrderWakes (th : TcpHdr) (segSeq : TcpSeq) (data : List Byte) (t : Tcb) : Prop :=
  (th.fSyn = true → t.connectDone = none → th.fRst = true ∧ t.state = .synReceived) ∧
    (t.slipsAway th segSeq data = true →
      t.snd.allDataAckedPromise = false ∧ t.snd.sendAvailablePromise = false)

instance (th : TcpHdr) (segSeq : TcpSeq) (data : List Byte) (t : Tcb) :
    Decidable (t.InOrderWakes th segSeq data) := by
  unfold InOrderWakes
  infer_instance

def ArrivalWakes (th : TcpHdr) (p : Impl) (t : Tcb) : Prop :=
  match t.arrival th p with
  | .inOrder segSeq data => t.InOrderWakes th segSeq data
  | _ => True

instance (th : TcpHdr) (p : Impl) (t : Tcb) : Decidable (t.ArrivalWakes th p) :=
  match here : t.arrival th p with
  | .inOrder segSeq data =>
      decidable_of_iff (t.InOrderWakes th segSeq data) (by rw [ArrivalWakes, here])
  | .overrun | .unacceptable | .outOfOrder _ _ => .isTrue (by rw [ArrivalWakes, here]; trivial)

/-- In SYN_SENT a reset leaves the promise of the connection behind. A FIN that
is given up must not leave anybody behind. And once a connection
is removed, the SYN is not given up again, the address is not looked for in
vain again, `shutdown_connect` does not refuse again, and nobody waits for data
that may still come. -/
def Wakes (t : Tcb) : TcbEvent → Prop
  | .segment _ th p =>
      (t.state = .synSent → t.resetsSynSent th = false) ∧ (t.state ≠ .synSent → t.ArrivalWakes th p)
  | .retransmit =>
      (t.life = .removed → t.synNeedsOn = true → t.snd.synRetransmit < maxNrRetransmit) ∧
        (t.finNeedsOn = true → maxNrRetransmit ≤ t.snd.finRetransmit →
          ∀ p ∈ [Promise.dataReceived, .allDataAcked, .sendAvailable], t.waits p = false)
  | .arpTimeout => t.life = .removed → t.state ≠ .synSent
  | .shutdownConnect => t.life = .removed → t.synNeedsOn = false
  | .waitForData => t.life = .removed → t.foreignWillNotSend = true
  | _ => True

instance (t : Tcb) : (e : TcbEvent) → Decidable (t.Wakes e)
  | .segment _ th p => inferInstanceAs (Decidable ((t.state = .synSent →
      t.resetsSynSent th = false) ∧ (t.state ≠ .synSent → t.ArrivalWakes th p)))
  | .retransmit => inferInstanceAs (Decidable
      ((t.life = .removed → t.synNeedsOn = true → t.snd.synRetransmit < maxNrRetransmit) ∧
        (t.finNeedsOn = true → maxNrRetransmit ≤ t.snd.finRetransmit →
          ∀ p ∈ [Promise.dataReceived, .allDataAcked, .sendAvailable], t.waits p = false)))
  | .arpTimeout => inferInstanceAs (Decidable (t.life = .removed → t.state ≠ .synSent))
  | .shutdownConnect => inferInstanceAs (Decidable (t.life = .removed → t.synNeedsOn = false))
  | .waitForData => inferInstanceAs (Decidable (t.life = .removed → t.foreignWillNotSend = true))
  | .connect _ | .listen .. | .send _ | .read | .closeRead | .closeWrite | .closeContinuation
  | .delayedAck | .persist | .resolved | .arpQueueFull | .getPacket => .isTrue trivial

/-! ## Who can wait in which state -/

/-- The promise of the connection is open exactly in the handshake, and nobody
else waits before it is kept. -/
structure Attended (t : Tcb) : Prop where
  begins : t.life = .fresh → t.connectDone = none ∧ t.state = .closed
  handshake : t.synNeedsOn = true → t.connectDone ≠ some true
  failed : t.connectDone = some false → t.life = .removed
  opened : t.synNeedsOn = false → t.connectDone ≠ some true → t.state = .closed
  heard : t.Heard
  strangers : t.connectDone = none → ∀ p, p ≠ .connect → t.waits p = false

theorem Attended.onward (attended : t.Attended) (onward : Onward t t')
    (connectDone : t'.connectDone = t.connectDone) (heard : t'.Heard)
    (strangers : t.connectDone = none → ∀ p, p ≠ .connect → t'.waits p = false) :
    t'.Attended where
  begins := by
    intro fresh
    obtain ⟨none_, closed⟩ := attended.begins (onward.fresh_of fresh)
    refine ⟨connectDone.trans none_, ?_⟩
    rcases onward.state with same | closed' | both
    · exact same.trans closed
    · exact closed'
    · rw [Onward.closed_not_synchronized closed] at both
      cases both.1
  handshake := by
    intro here
    rw [connectDone]
    refine attended.handshake ?_
    unfold synNeedsOn inState at *
    rwa [onward.handshake_of here] at here
  failed := by
    intro failed
    have gone := attended.failed (connectDone.symm.trans failed)
    exact onward.life.elim (fun same => same.trans gone) fun gone => gone
  opened := by
    intro past open_
    rw [connectDone] at open_
    rcases onward.state with same | closed | both
    · refine same.trans (attended.opened ?_ open_)
      unfold synNeedsOn inState at *
      rwa [same] at past
    · exact closed
    · have sync := of_decide_eq_true both.1
      have past' : t.synNeedsOn = false := by
        unfold synNeedsOn inState
        revert sync
        cases t.state <;> decide
      have closed := attended.opened past' open_
      rw [Onward.closed_not_synchronized closed] at both
      cases both.1
  heard := heard
  strangers := fun open_ => strangers (connectDone.symm.trans open_)

theorem Attended.serves (attended : t.Attended) (onward : Onward t t') (serves : Serves t t') :
    t'.Attended := by
  refine attended.onward onward serves.connectDone (serves.heard attended.heard) ?_
  intro open_ p other
  rw [Bool.eq_false_iff]
  intro waits
  have before := serves.settles.fewer p waits
  rw [attended.strangers open_ p other] at before
  cases before

/-- Whoever refuses the connection removes it. -/
theorem Attended.refused (attended : t.Attended)
    (past : t'.synNeedsOn = true ∨ t'.state = .closed) (connectDone : t'.connectDone = some false)
    (gone : t'.life = .removed) (heard : t.Heard → t'.Heard) : t'.Attended where
  begins := fun fresh => by rw [gone] at fresh; cases fresh
  handshake := fun _ open_ => by rw [connectDone] at open_; cases open_
  failed := fun _ => gone
  opened := fun here _ => past.elim (fun syn => by rw [here] at syn; cases syn) fun closed => closed
  heard := heard attended.heard
  strangers := fun open_ => by rw [connectDone] at open_; cases open_

/-- A connection just established is waited for by nobody. -/
theorem Attended.established (state : t'.state = .established)
    (connectDone : t'.connectDone = some true) (opened : t'.life = .inTable) : t'.Attended where
  begins := fun fresh => by rw [opened] at fresh; cases fresh
  handshake := by
    intro here
    unfold synNeedsOn inState at here
    rw [state] at here
    cases here
  failed := fun failed => by rw [connectDone] at failed; cases failed
  opened := fun _ open_ => absurd connectDone open_
  heard := by
    intro silent
    unfold foreignWillNotSend inState at silent
    rw [state] at silent
    cases silent
  strangers := fun open_ => by rw [connectDone] at open_; cases open_

/-- Until its promise is kept or broken, a connection in the table is open. -/
theorem Attended.pending (attended : t.Attended) (inside : t.life ≠ .removed)
    (here : t.synNeedsOn = true) : t.connectDone = none := by
  cases done : t.connectDone with
  | none => rfl
  | some kept =>
      cases kept with
      | true => exact absurd done (attended.handshake here)
      | false => exact absurd (attended.failed done) inside

/-- A connection that enters the handshake. -/
theorem Attended.opening {u : Tcb} {syn : TcpState} (attended : t.Attended)
    (listed : syn = .synSent ∨ syn = .synReceived) (open_ : t.connectDone = none)
    (waiting : u.waiting = t.waiting) (inside : u.life = .inTable) : (u.enterSyn syn).Attended := by
  have same : (u.enterSyn syn).waiting = t.waiting := (enterSyn_waiting syn u).trans waiting
  have done : (u.enterSyn syn).connectDone = none := (congrArg Waiting.connectDone same).trans open_
  have life : (u.enterSyn syn).life = .inTable := (enterSyn_life u syn).trans inside
  have state : (u.enterSyn syn).state = syn := congrArg (fun b => b.state) (output_bearing _)
  constructor
  · intro fresh
    rw [life] at fresh
    cases fresh
  · intro _ kept
    rw [done] at kept
    cases kept
  · intro failed
    rw [done] at failed
    cases failed
  · intro past
    unfold synNeedsOn inState at past
    rw [state] at past
    rcases listed with rfl | rfl <;> cases past
  · intro silent
    unfold foreignWillNotSend inState at silent
    rw [state] at silent
    rcases listed with rfl | rfl <;> cases silent
  · intro _ p other
    rw [waits_of_waiting same]
    exact attended.strangers open_ p other

/-! ## What an event answers -/

/-- Who waits for data is as it was. -/
theorem heard_of_reader (reader : t'.rcv.reader = t.rcv.reader) (state : t'.state = t.state)
    (heard : t.Heard) : t'.Heard := by
  intro silent
  rw [reader]
  refine heard ?_
  unfold foreignWillNotSend inState at *
  rwa [state] at silent

theorem ResolvesOnce.quiet (log : t'.resolved = t.resolved) : ResolvesOnce t t' :=
  ⟨[], by rw [List.append_nil]; exact log, List.nodup_nil, fun p mem => by cases mem⟩

/-- What an event resolves, and who can wait afterwards. -/
structure Answers (e : TcbEvent) (t t' : Tcb) : Prop where
  once : ResolvesOnce t t'
  fewer : ∀ p, e.awaits p = false → t'.waits p = true → t.waits p = true
  kept : t.connectDone = some true → t'.connectDone = some true
  attended : t'.Attended

namespace Answers

theorem of_serves (attended : t.Attended) (onward : Onward t t') (serves : Serves t t') :
    Answers e t t' where
  once := serves.settles.once
  fewer := fun p _ => serves.settles.fewer p
  kept := serves.connectDone.trans
  attended := attended.serves onward serves

theorem of_bearing (attended : t.Attended) (waiting : t'.waiting = t.waiting)
    (same : t'.bearing = t.bearing) : Answers e t t' :=
  of_serves attended (.of_bearing same) (.of_bearing waiting same)

/-- In the handshake there is no connection to be kept. -/
theorem of_settles (settles : Settles t t') (open_ : t.connectDone = none)
    (attended : t'.Attended) : Answers e t t' where
  once := settles.once
  fewer := fun p _ => settles.fewer p
  kept := fun kept => by rw [open_] at kept; cases kept
  attended := attended

/-- The connection fails in a state that has the same waiters. -/
theorem connectFailed {u : Tcb} (attended : t.Attended) (waiting : u.waiting = t.waiting)
    (state : u.state = t.state) (here : t.synNeedsOn = true) (open_ : t.connectDone = none) :
    Answers e t u.connectFailed.cleanup := by
  have pending : u.connectDone = none := (congrArg Waiting.connectDone waiting).trans open_
  refine .of_settles (((connectFailed_settles pending).since waiting).andThen (cleanup_waiting _))
    open_ (attended.refused (.inl ?_) rfl rfl ?_)
  · have syn : u.synNeedsOn = true := by
      unfold synNeedsOn inState at *
      rwa [state]
    exact syn
  · exact heard_of_reader (congrArg Waiting.reader waiting) state

/-- A wait that begins when the connection is established. -/
theorem begun (attended : t.Attended) (same : t'.bearing = t.bearing)
    (log : t'.resolved = t.resolved) (heard : t.Heard → t'.Heard) (kept : t.connectDone ≠ none)
    (fewer : ∀ p, e.awaits p = false → t'.waits p = true → t.waits p = true) :
    Answers e t t' where
  once := .quiet log
  fewer := fewer
  kept := (congrArg (fun b => b.connectDone) same).trans
  attended := by
    refine attended.onward (.of_bearing same) (congrArg (fun b => b.connectDone) same)
      (heard attended.heard) fun open_ => ?_
    exact absurd open_ kept

end Answers

/-! ## Segments -/

theorem segmentInOrder_serves (th : TcpHdr) (segSeq : TcpSeq) (data : List Byte)
    (past : t.inState [.synReceived] = false) : Serves t (t.segmentInOrder hw th segSeq data) := by
  have reset : ∀ u : Tcb, u.waiting = t.waiting → Serves t u.doReset := by
    intro u same
    have serves := doReset_serves u
    exact ⟨serves.settles.since same, serves.connectDone.trans (congrArg Waiting.connectDone same),
      fun _ _ => of_decide_eq_false (doReset_waits u .dataReceived (by decide))⟩
  unfold segmentInOrder
  split
  · rename_i rst
    rw [past] at rst
    cases rst.2
  split
  · exact doReset_serves t
  split
  · rename_i rst
    refine ⟨.of_waiting (doClosed_waiting t), rfl, fun heard _ => heard ?_⟩
    have here := of_decide_eq_true rst.2
    unfold foreignWillNotSend inState
    revert here
    cases t.state <;> decide
  split
  · exact reset _ rfl
  split
  · exact .refl t
  · exact checked_serves th segSeq data past

/-- In SYN_RECEIVED a segment refuses the connection, establishes it, or changes
nothing for its waiters. -/
theorem segmentInOrder_answers (th : TcpHdr) (segSeq : TcpSeq) (data : List Byte)
    (attended : t.Attended) (inside : t.life = .inTable) :
    Answers e t (t.segmentInOrder hw th segSeq data) := by
  cases past : t.inState [.synReceived] with
  | false =>
      have idle : t.completesHandshake th = false := by
        unfold completesHandshake
        rw [past]
        rfl
      exact .of_serves attended (segmentInOrder_onward th segSeq data idle)
        (segmentInOrder_serves th segSeq data past)
  | true =>
      have here : t.state = .synReceived := by simpa [inState] using past
      have open_ : t.connectDone = none := by
        refine attended.pending (by rw [inside]; decide) ?_
        exact inState_of_eq here (by decide)
      have nobody : t.rcv.reader ≠ .waiting :=
        of_decide_eq_false (attended.strangers open_ .dataReceived (by decide))
      apply segmentInOrder_of_ack
      · refine .of_settles ((connectFailed_settles open_).trans (doReset_settles _)) open_ ?_
        refine attended.refused (.inr rfl) rfl rfl fun _ _ => ?_
        exact of_decide_eq_false (doReset_waits t.connectFailed .dataReceived (by decide))
      · exact .of_serves attended (.doReset t) (doReset_serves t)
      · exact .of_serves attended (.doClosed t)
          (.told (.of_waiting (doClosed_waiting t)) rfl nobody)
      · have asked : Serves t (t.request (.respondWithReset th)) := .calm (.of_waiting rfl) rfl rfl
        exact .of_serves attended ((respondWithReset_onward th t).trans (.doReset _))
          (asked.trans (doReset_serves _))
      · exact .of_serves attended (.refl t) (.refl t)
      · intro _ _ _
        rw [checkAck_in_synReceived th segSeq data.length past]
        by_cases completes : t.snd.unacknowledged ≤ th.ack ∧ th.ack ≤ t.snd.next
        · rw [if_pos completes]
          have established : (t.doEstablished.request .addConnectedTcb).Attended :=
            .established rfl rfl inside
          have done := (doEstablished_settles open_).andThen
            (request_waiting t.doEstablished .addConnectedTcb)
          have serves := @checked_serves (t.doEstablished.request .addConnectedTcb) hw th segSeq
            data rfl
          exact .of_settles (done.trans serves.settles) open_
            (established.serves (checked_onward th segSeq data rfl) serves)
        · rw [if_neg completes]
          exact .of_serves attended (respondWithReset_onward th t) (.calm (.of_waiting rfl) rfl rfl)

theorem inputHandleOtherState_answers (th : TcpHdr) (p : Impl) (attended : t.Attended)
    (inside : t.life = .inTable) : Answers e t (t.inputHandleOtherState hw th p) := by
  unfold inputHandleOtherState
  split
  · exact .of_bearing attended rfl rfl
  · exact .of_bearing attended (output_waiting t) (output_bearing t)
  · exact .of_bearing attended ((output_waiting _).trans (insertOutOfOrder_waiting _ _ t))
      ((output_bearing _).trans (insertOutOfOrder_bearing _ _ t))
  · exact segmentInOrder_answers th _ _ attended inside

theorem inputHandleSynSentState_answers (beyond : Nat → Byte) (th : TcpHdr) (p : Impl)
    (attended : t.Attended) (inside : t.life = .inTable) (here : t.state = .synSent) :
    Answers e t (t.inputHandleSynSentState hw beyond th p) := by
  have open_ : t.connectDone = none := by
    refine attended.pending (by rw [inside]; decide) ?_
    exact inState_of_eq here (by decide)
  unfold inputHandleSynSentState
  split
  · rename_i failed
    rcases takeHeader_error failed with rfl | rfl <;> exact .of_bearing attended rfl rfl
  split
  · exact .of_serves attended (respondWithReset_onward th t) (.calm (.of_waiting rfl) rfl rfl)
  dsimp only
  split
  · split
    · exact .of_serves attended (.doReset t) (doReset_serves t)
    · exact .of_serves attended (.refl t) (.refl t)
  split
  · unfold synInSynSent
    split
    · refine .of_settles ?_ open_ (.established ?_ ?_ ?_)
      · exact ((doEstablished_settles open_).since rfl).andThen (output_waiting _)
      · exact congrArg (fun b => b.state) (output_bearing _)
      · exact congrArg (fun b => b.connectDone) (output_bearing _)
      · exact (output_life _).trans inside
    · refine .of_settles (.of_waiting (enterSyn_waiting _ _)) open_ ?_
      exact attended.opening (.inr rfl) open_ rfl inside
  · exact .of_serves attended (.refl t) (.refl t)

/-! ## The user -/

theorem send_waiting (p : List Byte) (t : Tcb) :
    ∃ sendAvailable, (t.send p).waiting = { t.waiting with sendAvailable } := by
  have waits : ∀ u : Tcb, u.waiting = t.waiting →
      ∃ sendAvailable, u.waitSendAvailable.waiting = { t.waiting with sendAvailable } := by
    intro u same
    exact ⟨_, congrArg (fun w : Waiting => { w with
      sendAvailable := u.waitSendAvailable.snd.sendAvailablePromise }) same⟩
  unfold send
  split
  · exact ⟨_, rfl⟩
  dsimp only
  apply waits
  split
  · rw [output_waiting]
    exact canSend_waiting _
  · exact canSend_waiting _

theorem close_waiting (t : Tcb) :
    ∃ allDataAcked, t.close.waiting = { t.waiting with allDataAcked } := by
  unfold close
  split
  · exact ⟨_, rfl⟩
  split <;> exact ⟨_, rfl⟩

theorem read_settles (t : Tcb) : Settles t t.read.2 where
  once := .quiet rfl
  fewer := by
    intro p waits
    cases p with
    | dataReceived =>
        have waits : (if t.rcv.reader = .waiting then Reader.waiting else .idle) = .waiting :=
          of_decide_eq_true waits
        split at waits
        · exact decide_eq_true (by assumption)
        · cases waits
    | connect => exact waits
    | allDataAcked => exact waits
    | sendAvailable => exact waits

/-- Only the promise of data is broken before the user's side is closed. -/
theorem abortReader_close_resolvesOnce (t : Tcb) : ResolvesOnce t t.abortReader.close := by
  obtain ⟨allDataAcked, waiting⟩ := close_waiting t.abortReader
  have log : t.abortReader.close.resolved = t.abortReader.resolved :=
    congrArg Waiting.resolved waiting
  have reader : t.abortReader.close.rcv.reader = t.abortReader.rcv.reader :=
    congrArg Waiting.reader waiting
  by_cases waits : t.rcv.reader = .waiting
  · have aborted : t.abortReader =
        { t with rcv := { t.rcv with reader := .idle } }.resolve .dataReceived := if_pos waits
    refine ⟨[.dataReceived], ?_, List.nodup_singleton _, fun p mem => ?_⟩
    · rw [log, aborted]
      rfl
    · cases List.mem_singleton.mp mem
      refine ⟨decide_eq_true waits, decide_eq_false ?_⟩
      rw [reader, aborted]
      exact fun again => by cases again
  · have kept : t.abortReader = t := if_neg waits
    exact .quiet (log.trans (congrArg Tcb.resolved kept))

/-! ## Events -/

theorem send_answers (p : List Byte) (attended : t.Attended) (enabled : t.connectDone = some true) :
    Answers (.send p) t (t.send p) := by
  obtain ⟨sendAvailable, waiting⟩ := send_waiting p t
  have same := send_bearing t p
  have reader := congrArg Waiting.reader waiting
  refine .begun attended same (congrArg Waiting.resolved waiting) ?_ (by rw [enabled]; simp) ?_
  · exact heard_of_reader reader (congrArg (fun b => b.state) same)
  · intro p other waits
    cases p with
    | connect => rwa [show (t.send _).waits .connect = t.waits .connect from
        congrArg Option.isNone (congrArg Waiting.connectDone waiting)] at waits
    | dataReceived => exact decide_eq_true (reader.symm.trans (of_decide_eq_true waits))
    | allDataAcked => exact (congrArg Waiting.allDataAcked waiting).symm.trans waits
    | sendAvailable => cases other

theorem waitForData_answers (attended : t.Attended) (enabled : t.connectDone = some true) :
    Answers .waitForData t t.waitForData := by
  refine .begun attended (waitForData_bearing t) rfl ?_ (by rw [enabled]; simp) ?_
  · intro _ silent
    have silent : t.foreignWillNotSend = true := silent
    show (if !t.rcv.data.isEmpty || t.foreignWillNotSend then Reader.ready else .waiting) ≠ .waiting
    rw [silent, Bool.or_true, if_pos rfl]
    exact fun waits => by cases waits
  · intro p other waits
    cases p with
    | connect => exact waits
    | dataReceived => cases other
    | allDataAcked => exact waits
    | sendAvailable => exact waits

theorem close_fewer (t : Tcb) (p : Promise) (other : p ≠ .allDataAcked)
    (waits : t.close.waits p = true) : t.waits p = true := by
  obtain ⟨allDataAcked, waiting⟩ := close_waiting t
  cases p with
  | connect => rwa [show t.close.waits .connect = t.waits .connect from
      congrArg Option.isNone (congrArg Waiting.connectDone waiting)] at waits
  | dataReceived =>
      exact decide_eq_true ((congrArg Waiting.reader waiting).symm.trans (of_decide_eq_true waits))
  | allDataAcked => exact absurd rfl other
  | sendAvailable => exact (congrArg Waiting.sendAvailable waiting).symm.trans waits

theorem close_answers (attended : t.Attended) (enabled : t.connectDone ≠ none) :
    Answers .closeWrite t t.close := by
  obtain ⟨allDataAcked, waiting⟩ := close_waiting t
  have same := close_bearing t
  refine .begun attended same (congrArg Waiting.resolved waiting) ?_ enabled ?_
  · exact heard_of_reader (congrArg Waiting.reader waiting) (congrArg (fun b => b.state) same)
  · rintro p other waits
    refine close_fewer t p ?_ waits
    rintro rfl
    cases other

/-- In CLOSED there is nothing to close. -/
theorem close_closed (closed : t.state = .closed) : t.close = t := by
  refine if_pos ?_
  rw [inState_of_eq closed (by decide)]
  rfl

theorem shutdownConnect_answers (attended : t.Attended)
    (wakes : t.life = .removed → t.synNeedsOn = false) :
    Answers .shutdownConnect t t.shutdownConnect := by
  unfold Tcb.shutdownConnect
  split
  · rename_i here
    refine .connectFailed attended rfl rfl here (attended.pending (fun gone => ?_) here)
    rw [wakes gone] at here
    cases here
  · rename_i past
    have past : t.synNeedsOn = false := by simpa using past
    have serves := Serves.of_standing (abortReader_settles t)
      (standing_of_bearing (abortReader_bearing t))
    have aborted := attended.serves (.of_bearing (abortReader_bearing t)) serves
    refine ⟨abortReader_close_resolvesOnce t, fun p other waits => ?_, fun kept => ?_, ?_⟩
    · refine serves.settles.fewer p (close_fewer _ p ?_ waits)
      rintro rfl
      cases other
    · exact (congrArg (fun b => b.connectDone) (close_bearing _)).trans
        (serves.connectDone.trans kept)
    · cases done : t.abortReader.connectDone with
      | some kept => exact (close_answers aborted (by rw [done]; exact Option.some_ne_none _)).attended
      | none =>
          -- nobody is connected, so the block is CLOSED
          have same : t.abortReader.synNeedsOn = t.synNeedsOn := by
            unfold synNeedsOn inState
            rw [show t.abortReader.state = t.state from
              congrArg (fun b => b.state) (abortReader_bearing t)]
          have closed := aborted.opened (same.trans past) (by rw [done]; exact fun kept => by cases kept)
          rw [close_closed closed]
          exact aborted

theorem listen_answers (beyond : Nat → Byte) (iss : TcpSeq) (th : TcpHdr) (p : Impl)
    (attended : t.Attended) (fresh : t.life = .fresh) :
    Answers (.listen iss beyond th p) t (t.inputHandleListenState hw beyond iss th p) := by
  obtain ⟨open_, closed⟩ := attended.begins fresh
  have failed : ∀ {u : Tcb}, u.waiting = t.waiting → u.state = t.state → u.life = .inTable →
      Answers (.listen iss beyond th p) t u := by
    intro u same state inside
    have done : u.connectDone = none := (congrArg Waiting.connectDone same).trans open_
    refine .of_settles (.of_waiting same) open_ ⟨?_, ?_, ?_, ?_, ?_, ?_⟩
    · exact fun fresh => by rw [inside] at fresh; cases fresh
    · exact fun _ kept => by rw [done] at kept; cases kept
    · exact fun failed => by rw [done] at failed; cases failed
    · exact fun _ _ => state.trans closed
    · exact heard_of_reader (congrArg Waiting.reader same) state attended.heard
    · intro _ p other
      rw [waits_of_waiting same]
      exact attended.strangers open_ p other
  unfold inputHandleListenState
  dsimp only
  split
  · rename_i error
    rcases takeHeader_error error with rfl | rfl <;> exact failed rfl rfl rfl
  · refine .of_settles (.of_waiting (enterSyn_waiting _ _)) open_ ?_
    exact attended.opening (.inr rfl) open_ rfl rfl

theorem retransmit_gives (here : t.synNeedsOn = true)
    (most : maxNrRetransmit ≤ t.snd.synRetransmit) :
    t.retransmit hw = t.countSyn.connectFailed.cleanup := by
  unfold Tcb.retransmit
  rw [if_pos here, if_neg (Nat.not_lt.mpr most)]

theorem retransmit_answers (attended : t.Attended)
    (again : t.life = .removed → t.synNeedsOn = true → t.snd.synRetransmit < maxNrRetransmit) :
    Answers .retransmit t ({ t with retransmitArmed := false }.retransmit hw) := by
  by_cases gives : t.synNeedsOn = true ∧ maxNrRetransmit ≤ t.snd.synRetransmit
  · obtain ⟨here, most⟩ := gives
    have inside : t.life ≠ .removed := by
      intro gone
      exact absurd (again gone here) (Nat.not_lt.mpr most)
    rw [retransmit_gives (t := { t with retransmitArmed := false }) here most]
    exact .connectFailed attended rfl rfl here (attended.pending inside here)
  · have tries : t.synNeedsOn = true → t.snd.synRetransmit < maxNrRetransmit := by
      intro here
      exact Nat.not_le.mp fun most => gives ⟨here, most⟩
    have fired : Serves t { t with retransmitArmed := false } := .of_bearing rfl rfl
    exact .of_serves attended (handle_onward .retransmit rfl)
      (fired.trans (retransmit_serves tries))

theorem arpTimeout_answers (attended : t.Attended)
    (again : t.life = .removed → t.state ≠ .synSent) : Answers .arpTimeout t t.arpTimeout := by
  unfold arpTimeout
  dsimp only
  split
  · rename_i here
    have here : t.state = .synSent := by simpa [inState] using here
    have syn : t.synNeedsOn = true := inState_of_eq here (by decide)
    exact .connectFailed attended rfl rfl syn (attended.pending (fun gone => again gone here) syn)
  · exact .of_bearing attended rfl rfl

/-- What a handler answers, as long as it leaves nobody behind. -/
theorem handle_answers (e : TcbEvent) (attended : t.Attended) (wakes : t.Wakes e)
    (enabled : t.enabled e = true) : Answers e t (t.handle hw e) := by
  cases e with
  | connect iss =>
      have fresh : t.life = .fresh := of_decide_eq_true enabled
      have open_ := (attended.begins fresh).1
      exact .of_settles (.of_waiting (enterSyn_waiting _ _)) open_
        (attended.opening (.inl rfl) open_ rfl rfl)
  | listen iss beyond th p => exact listen_answers beyond iss th p attended (of_decide_eq_true enabled)
  | segment beyond th p =>
      have inside : t.life = .inTable := of_decide_eq_true enabled
      show Answers _ t (t.inputHandle hw beyond th p)
      unfold inputHandle
      split
      · rename_i here
        exact inputHandleSynSentState_answers beyond th p attended inside here
      · exact inputHandleOtherState_answers th p attended inside
  | send p => exact send_answers p attended (of_decide_eq_true enabled)
  | waitForData => exact waitForData_answers attended (of_decide_eq_true enabled)
  | read =>
      exact .of_serves attended (.of_bearing (read_bearing t))
        (.of_standing (read_settles t) (standing_of_bearing (read_bearing t)))
  | closeRead =>
      exact .of_serves attended (.of_bearing (abortReader_bearing t))
        (.of_standing (abortReader_settles t) (standing_of_bearing (abortReader_bearing t)))
  | closeWrite => exact close_answers attended (Option.isSome_iff_ne_none.mp enabled)
  | shutdownConnect => exact shutdownConnect_answers attended wakes
  | closeContinuation =>
      have ready : Serves t { t with closeReady := t.closeReady - 1 } := .of_bearing rfl rfl
      exact .of_serves attended (handle_onward .closeContinuation rfl)
        (ready.trans (closeContinuation_serves _))
  | delayedAck => exact .of_bearing attended (output_waiting _) (output_bearing _)
  | retransmit => exact retransmit_answers attended wakes.1
  | persist =>
      exact .of_bearing attended (persist_waiting { t with persistArmed := false })
        (persist_bearing { t with persistArmed := false })
  | resolved => exact .of_bearing attended rfl rfl
  | arpQueueFull => exact .of_bearing attended rfl rfl
  | arpTimeout => exact arpTimeout_answers attended wakes
  | getPacket =>
      exact .of_bearing attended (getPacket_waiting { t with pollTcbs := t.pollTcbs - 1 })
        (getPacket_bearing { t with pollTcbs := t.pollTcbs - 1 })

end Tcb

end ActorNet.Tcp
