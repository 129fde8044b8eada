import ActorNet.Net.PacketTrims
import ActorNet.Tcp.ReceiveWindow
import ActorNet.Tcp.Removed

/-!
# The accounts of received text

Acknowledgements, timers and the user leave the receive half alone, but for
reading. A segment that is accepted begins inside the window or ends there; its
text is counted and its FIN takes a number. So on every run, up to the cleanup,
what is buffered is counted, the buffer is exceeded by one segment at most, and
the right edge of the window never moves to the left.
-/

namespace ActorNet.Tcp

open Lib Net

/-! ## What leaves the receive half alone -/

/-- How far a connection has come: not opened or closed, without the peer's SYN,
open for text, behind the peer's FIN. -/
def TcpState.stage : TcpState → Nat
  | .closed | .listen => 0
  | .synSent => 1
  | .synReceived | .established | .finWait1 | .finWait2 => 2
  | .closeWait | .closing | .lastAck | .timeWait => 3

namespace Tcb

variable {t t' : Tcb} {hw : HwFeatures}

/-- The receive half, its reader apart. -/
def intake (t : Tcb) : Receive := { t.rcv with reader := .idle }

theorem canSend_rcv (t : Tcb) : t.canSend.2.rcv = t.rcv := by
  unfold canSend
  dsimp only
  split_ifs <;> rfl

theorem output_rcv (t : Tcb) : t.output.rcv = t.rcv := by
  unfold output
  split <;> rfl

theorem getTransmitPacket_rcv (t : Tcb) : (t.getTransmitPacket hw).2.rcv = t.rcv := by
  unfold getTransmitPacket
  split
  · rfl
  · exact canSend_rcv t

theorem emit_rcv (t : Tcb) (r : Bool) (p : List Byte) : (t.emit r p).rcv = t.rcv := by
  have checked : ∀ (u : Tcb) (len : BitVec 16), (u.checkWindow len).rcv = u.rcv := by
    intro u len
    unfold checkWindow
    split <;> rfl
  have remembered : ∀ u : Tcb, (u.rememberSegment p).rcv = u.rcv := by
    intro u
    unfold rememberSegment
    dsimp only
    split <;> rfl
  unfold emit
  show (checkWindow _ _).rcv = _
  rw [checked]
  split
  · rfl
  · exact remembered _

theorem outputOne_rcv (t : Tcb) (r : Bool) : (t.outputOne hw r).rcv = t.rcv := by
  unfold outputOne
  split
  · rfl
  split
  · exact emit_rcv t true _
  · exact (emit_rcv _ false _).trans (getTransmitPacket_rcv t)

theorem fastRetransmit_rcv (t : Tcb) : (t.fastRetransmit hw).rcv = t.rcv := by
  unfold fastRetransmit
  split
  · rfl
  · exact (output_rcv _).trans (outputOne_rcv _ true)

theorem setRetransmitTimer_rcv (t : Tcb) : t.setRetransmitTimer.rcv = t.rcv := by
  have signalled : ∀ u : Tcb, u.signalAllDataAcked.rcv = u.rcv := by
    intro u
    unfold signalAllDataAcked
    split <;> rfl
  unfold setRetransmitTimer
  split
  · exact signalled _
  · rfl

theorem updateCwnd_rcv (n : BitVec 32) (t : Tcb) : (t.updateCwnd n).rcv = t.rcv := by
  unfold updateCwnd
  dsimp only
  split
  · rfl
  split <;> rfl

theorem wholeSegmentsAcked_rcv (segAck : TcpSeq) (segs : List UnackedSegment) (t : Tcb) :
    (wholeSegmentsAcked segAck segs t).2.rcv = t.rcv := by
  have signalled : ∀ u : Tcb, u.signalSendAvailable.rcv = u.rcv := by
    intro u
    unfold signalSendAvailable
    split <;> rfl
  induction segs generalizing t with
  | nil => rfl
  | cons seg rest ih =>
      unfold wholeSegmentsAcked
      split
      · dsimp only
        rw [ih, signalled]
        exact updateCwnd_rcv _ _
      · rfl

theorem partOfSegmentAcked_rcv (segAck : TcpSeq) (t : Tcb) :
    (t.partOfSegmentAcked segAck).2.rcv = t.rcv := by
  unfold partOfSegmentAcked
  split
  · dsimp only
    rw [updateCwnd_rcv]
    split
    · rfl
    · split <;> rfl
  · rfl

theorem newDataAcked_rcv (th : TcpHdr) (n : BitVec 32) (t : Tcb) :
    (t.newDataAcked hw th n).rcv = t.rcv := by
  have partly : ∀ u : Tcb, (u.partialAck n).rcv = u.rcv := by
    intro u
    unfold partialAck
    dsimp only
    split <;> rfl
  unfold newDataAcked
  split
  · split
    · exact setRetransmitTimer_rcv _
    · exact (partly _).trans (fastRetransmit_rcv t)
  · exact setRetransmitTimer_rcv _

theorem ackNewData_rcv (th : TcpHdr) (segSeq : TcpSeq) (t : Tcb) :
    (t.ackNewData hw th segSeq).rcv = t.rcv := by
  have newer : ∀ u : Tcb, (u.updateWindowIfNewer th segSeq).rcv = u.rcv := by
    intro u
    unfold updateWindowIfNewer
    split <;> rfl
  unfold ackNewData dataSegmentAcked
  dsimp only
  rw [newDataAcked_rcv, newer, partOfSegmentAcked_rcv, wholeSegmentsAcked_rcv]

theorem duplicateAck_rcv (th : TcpHdr) (t : Tcb) : (t.duplicateAck hw th).1.rcv = t.rcv := by
  have third : ∀ u : Tcb, (u.thirdDuplicateAck hw th).rcv = u.rcv := by
    intro u
    unfold thirdDuplicateAck
    dsimp only
    split
    · exact fastRetransmit_rcv _
    · rfl
  unfold duplicateAck
  dsimp only
  split
  · rfl
  split
  · exact third _
  split <;> rfl

theorem ackInEstablished_rcv (th : TcpHdr) (segSeq : TcpSeq) (segLen : Nat) (t : Tcb) :
    (reached (t.ackInEstablished hw th segSeq segLen)).rcv = t.rcv := by
  refine @reached_ackInEstablished hw (fun u => u.rcv = t.rcv) t th segSeq segLen rfl ?_ ?_ ?_ rfl
  · exact fun _ _ => ackNewData_rcv th segSeq t
  · exact fun _ _ _ => duplicateAck_rcv th t
  · exact output_rcv t

theorem signalDataReceived_intake (t : Tcb) : t.signalDataReceived.intake = t.intake := by
  unfold signalDataReceived
  split <;> rfl

theorem outputAfter_rcv (doOutput doOutputData : Bool) (t : Tcb) :
    (t.outputAfter doOutput doOutputData).rcv = t.rcv := by
  unfold outputAfter
  split
  · exact output_rcv _
  split
  · dsimp only
    split
    · exact (output_rcv _).trans (canSend_rcv t)
    · exact canSend_rcv t
  · rfl

theorem send_rcv (p : List Byte) (t : Tcb) : (t.send p).rcv = t.rcv := by
  unfold send
  split
  · rfl
  dsimp only
  show (if _ then _ else _ : Tcb).rcv = _
  split
  · exact (output_rcv _).trans (canSend_rcv _)
  · exact canSend_rcv _

theorem popPacket_rcv (t : Tcb) : t.popPacket.rcv = t.rcv := by
  unfold popPacket
  split
  · rfl
  split
  · rfl
  dsimp only
  split
  · exact output_rcv _
  split
  · split
    · exact (output_rcv _).trans (canSend_rcv _)
    · exact canSend_rcv _
  · rfl

theorem getPacket_rcv (t : Tcb) : (t.getPacket hw).rcv = t.rcv := by
  unfold getPacket
  rw [popPacket_rcv]
  split
  · exact outputOne_rcv _ false
  · rfl

theorem close_rcv (t : Tcb) : t.close.rcv = t.rcv := by
  unfold close
  split
  · rfl
  split <;> rfl

theorem abortReader_intake (t : Tcb) : t.abortReader.intake = t.intake := by
  unfold abortReader
  split <;> rfl

/-! ## The accounts of a connection -/

/-- What the accounts depend on. -/
structure Footing where
  intake : Receive
  option : TcpOption
  life : Life
  stage : Nat

def footing (t : Tcb) : Footing := ⟨t.intake, t.option, t.life, t.state.stage⟩

/-- A block that has not been cleaned up: what is buffered is counted, from the
SYN on the window is offered by the count, and what waits lies within reach. -/
structure Received (t : Tcb) : Prop where
  counted : t.intake.Counted
  fresh : t.life = .fresh → t.state.stage = 0
  begun : t.life = .fresh ∨ t.state.stage = 1 →
    t.rcv.data = [] ∧ t.rcv.outOfOrder = [] ∧ t.option.localWinScale.toNat ≤ 7
  offers : 1 ≤ t.state.stage → t.intake.Offers
  waits : t.state.stage = 2 → t.intake.Waits

theorem Received.congr (received : t.Received) (same : t'.footing = t.footing) : t'.Received := by
  have intake : t'.intake = t.intake := congrArg Footing.intake same
  have option : t'.option = t.option := congrArg Footing.option same
  have life : t'.life = t.life := congrArg Footing.life same
  have stage : t'.state.stage = t.state.stage := congrArg Footing.stage same
  have data : t'.rcv.data = t.rcv.data := by
    show t'.intake.data = t.intake.data
    rw [intake]
  have waiting : t'.rcv.outOfOrder = t.rcv.outOfOrder := by
    show t'.intake.outOfOrder = t.intake.outOfOrder
    rw [intake]
  refine ⟨intake ▸ received.counted, ?_, ?_, ?_, ?_⟩
  · rw [life, stage]
    exact received.fresh
  · rw [life, stage, data, waiting, option]
    exact received.begun
  · rw [stage, intake]
    exact received.offers
  · rw [stage, intake]
    exact received.waits

/-- The block is cleaned up, or its accounts hold again, and a right edge has
moved to the right by so much at most. -/
def Accounts (most : Nat) (t t' : Tcb) : Prop :=
  t'.life = .removed ∨ t'.Received ∧
    (2 ≤ t.state.stage → 2 ≤ t'.state.stage ∧ t.intake.EdgeMoves t'.intake most)

namespace Accounts

variable {most : Nat} {u : Tcb}

theorem removed (gone : t'.life = .removed) : Accounts most t t' := .inl gone

theorem of_footing (received : t.Received) (same : t'.footing = t.footing) :
    Accounts most t t' := by
  have intake : t'.intake = t.intake := congrArg Footing.intake same
  have stage : t'.state.stage = t.state.stage := congrArg Footing.stage same
  refine .inr ⟨received.congr same, fun open_ => ⟨stage ▸ open_, 0, Nat.zero_le _, ?_⟩⟩
  rw [intake]
  exact (TcpSeq.place_zero _).symm

theorem since (accounts : Accounts most u t') (same : u.footing = t.footing) :
    Accounts most t t' := by
  have intake : u.intake = t.intake := congrArg Footing.intake same
  have stage : u.state.stage = t.state.stage := congrArg Footing.stage same
  unfold Accounts at *
  rw [← intake, ← stage]
  exact accounts

theorem onward (accounts : Accounts most t u) (same : t'.footing = u.footing) :
    Accounts most t t' := by
  have intake : t'.intake = u.intake := congrArg Footing.intake same
  have life : t'.life = u.life := congrArg Footing.life same
  have stage : t'.state.stage = u.state.stage := congrArg Footing.stage same
  rcases accounts with gone | ⟨received, moves⟩
  · exact .inl (life.trans gone)
  · refine .inr ⟨received.congr same, fun open_ => ?_⟩
    rw [intake, stage]
    exact moves open_

/-- Two steps, of which the second finds the block where the first left it. -/
theorem trans {more : Nat} (first : Accounts most t u) (stays : u.life ≠ .removed)
    (second : u.Received → Accounts more u t') : Accounts (most + more) t t' := by
  rcases first with gone | ⟨received, moves⟩
  · exact absurd gone stays
  rcases second received with gone | ⟨received', moves'⟩
  · exact .inl gone
  refine .inr ⟨received', fun open_ => ?_⟩
  obtain ⟨open', k, small, edge⟩ := moves open_
  obtain ⟨open'', l, small', edge'⟩ := moves' open'
  refine ⟨open'', k + l, Nat.add_le_add small small', ?_⟩
  rw [edge', edge]
  exact TcpSeq.place_add t.intake.rightEdge k l

theorem mono {more : Nat} (accounts : Accounts most t t') (le : most ≤ more) :
    Accounts more t t' := by
  rcases accounts with gone | ⟨received, moves⟩
  · exact .inl gone
  · refine .inr ⟨received, fun open_ => ?_⟩
    obtain ⟨open', k, small, edge⟩ := moves open_
    exact ⟨open', k, small.trans le, edge⟩

end Accounts

theorem footing_of_fields (intake : t'.intake = t.intake) (option : t'.option = t.option)
    (life : t'.life = t.life) (stage : t'.state.stage = t.state.stage) :
    t'.footing = t.footing := by
  unfold footing
  rw [intake, option, life, stage]

theorem footing_of_standing (intake : t'.intake = t.intake) (same : t'.standing = t.standing) :
    t'.footing = t.footing := by
  have state : t'.state = t.state := congrArg Standing.state same
  exact footing_of_fields intake (congrArg Standing.option same) (congrArg Standing.life same)
    (congrArg TcpState.stage state)

theorem footing_of_bearing (intake : t'.intake = t.intake) (same : t'.bearing = t.bearing) :
    t'.footing = t.footing :=
  footing_of_standing intake (standing_of_bearing same)

theorem intake_of_rcv (same : t'.rcv = t.rcv) : t'.intake = t.intake := by
  unfold intake
  rw [same]

theorem output_footing (t : Tcb) : t.output.footing = t.footing :=
  footing_of_bearing (intake_of_rcv (output_rcv t)) (output_bearing t)

theorem outputOne_footing (t : Tcb) (r : Bool) : (t.outputOne hw r).footing = t.footing :=
  footing_of_bearing (intake_of_rcv (outputOne_rcv t r)) (outputOne_bearing t r)

/-! ### Text and FIN -/

theorem segmentText_intake {data : List Byte} (some_ : data ≠ []) (t : Tcb) :
    (t.segmentText data).2.intake = t.intake.takeText data := by
  have acked : ∀ (u : Tcb) (n : BitVec 16), (u.shouldSendAck n).2.intake = u.intake := by
    intro u n
    unfold shouldSendAck
    dsimp only
    split <;> rfl
  have merged : ∀ u : Tcb, u.mergeOutOfOrder.2.rcv = { u.rcv with
      next := (takeMergeable u.rcv.next u.rcv.outOfOrder).next
      data := u.rcv.data ++ (takeMergeable u.rcv.next u.rcv.outOfOrder).pieces
      dataSize := u.rcv.dataSize + BitVec.ofNat 64
        ((takeMergeable u.rcv.next u.rcv.outOfOrder).pieces.map List.length).sum
      outOfOrder := (takeMergeable u.rcv.next u.rcv.outOfOrder).map } := by
    intro u
    unfold mergeOutOfOrder
    dsimp only
    rw [takeMergeable_within, if_pos rfl]
  unfold segmentText
  rw [if_neg (by simpa using some_)]
  dsimp only
  have told : ∀ u : Tcb, { u with rcv := { u.rcv with
      window := u.getModifiedReceiveWindowSize } }.signalDataReceived.intake =
      { u.intake with window := u.rcv.offered } := fun u => signalDataReceived_intake _
  split
  · rw [told, intake, merged]
    rfl
  · rw [acked, told, intake, merged]
    rfl

/-- Text arrives where it is expected, and through an open window. -/
def TextFits (data : List Byte) (t : Tcb) : Prop :=
  data ≠ [] → t.state.stage = 2 → data.length ≤ 65535 ∧ t.rcv.window ≠ 0

theorem segmentText_accounts {data : List Byte} (received : t.Received)
    (fits : t.TextFits data) (here : t.state.stage = 2) :
    Accounts (2 ^ 23) t (t.segmentText data).2 := by
  by_cases none : data = []
  · subst none
    exact .of_footing received rfl
  obtain ⟨short, open_⟩ := fits none here
  have same := segmentText_standing data t
  have life : (t.segmentText data).2.life = t.life := congrArg Standing.life same
  have state : (t.segmentText data).2.state = t.state := congrArg Standing.state same
  obtain ⟨counted, offers, waits, moves⟩ := Receive.takeText_spec received.counted
    (received.offers (by omega)) (received.waits here) short open_
  rw [← segmentText_intake none t] at counted offers waits moves
  refine .inr ⟨⟨counted, ?_, ?_, fun _ => offers, fun _ => waits⟩, fun _ => ⟨?_, moves⟩⟩
  · rw [life, state]
    exact received.fresh
  · rw [life, state]
    rintro (fresh | stage)
    · have zero := received.fresh fresh
      omega
    · omega
  · rw [state]
    omega

theorem takeFin_intake (finSeq : TcpSeq) (t : Tcb) :
    (t.takeFin finSeq).intake = { t.intake with next := finSeq + 1 } := by
  unfold takeFin
  rw [intake_of_rcv (output_rcv _)]
  exact signalDataReceived_intake _

/-- The FIN takes its number and ends the text. -/
theorem fin_accounts {finSeq : TcpSeq} {state : TcpState} (received : t.Received)
    (next : finSeq = t.rcv.next) (open_ : 2 ≤ t.state.stage) (behind : state.stage = 3) :
    Accounts (2 ^ 23) t { t.takeFin finSeq with state } := by
  have life : (t.takeFin finSeq).life = t.life := congrArg Standing.life (takeFin_standing finSeq t)
  have offers := received.offers (by omega)
  have intake : { t.takeFin finSeq with state }.intake = { t.intake with next := finSeq + 1 } :=
    takeFin_intake finSeq t
  have stage : { t.takeFin finSeq with state }.state.stage = 3 := behind
  refine .inr ⟨⟨?_, ?_, ?_, fun _ => ?_, fun text => ?_⟩, fun _ => ⟨?_, ?_⟩⟩
  · rw [intake]
    exact ⟨received.counted.size, received.counted.most⟩
  · intro fresh
    have zero := received.fresh (life.symm.trans fresh)
    omega
  · rintro (fresh | one)
    · have zero := received.fresh (life.symm.trans fresh)
      omega
    · omega
  · rw [intake]
    exact ⟨offers.scale, offers.window⟩
  · omega
  · omega
  · rw [intake]
    exact Receive.fin_moves offers next

theorem checkFin_accounts (th : TcpHdr) (finSeq : TcpSeq) (doOutput : Bool)
    (received : t.Received) :
    Accounts (2 ^ 23) t (reached (t.checkFin th finSeq doOutput)) := by
  have state : (t.takeFin finSeq).state = t.state :=
    congrArg Standing.state (takeFin_standing finSeq t)
  unfold checkFin
  split
  · exact .of_footing received rfl
  split
  · exact .of_footing received rfl
  rename_i begun
  have open_ : 2 ≤ t.state.stage := by
    unfold inState at begun
    revert begun
    cases t.state <;> decide
  split
  · rename_i next
    dsimp only
    split
    · exact fin_accounts received next open_ rfl
    · exact fin_accounts received next open_ rfl
    · exact fin_accounts received next open_ rfl
    · exact .removed rfl
    · rename_i noSyn notEstablished notFin notFin'
      refine @fin_accounts t finSeq (t.takeFin finSeq).state received next open_ ?_
      rw [state] at noSyn notEstablished notFin notFin' ⊢
      revert open_ noSyn notEstablished notFin notFin'
      cases t.state <;> simp [TcpState.stage]
  · exact .of_footing received rfl

theorem afterAck_accounts (th : TcpHdr) (segSeq : TcpSeq) {data : List Byte}
    (doOutputData : Bool) (received : t.Received) (inside : t.life ≠ .removed)
    (fits : t.TextFits data) :
    Accounts (2 ^ 24) t (t.afterAck th segSeq data doOutputData) := by
  have fin : ∀ (doOutput : Bool) (u : Tcb), u.Received →
      Accounts (2 ^ 23) u (u.finish th (segSeq + data.length) doOutput doOutputData) := by
    intro doOutput u received
    have checked := checkFin_accounts th (segSeq + data.length) doOutput received
    unfold finish
    split
    · rename_i stopped
      rw [stopped] at checked
      exact checked
    · rename_i goes
      rw [goes] at checked
      exact checked.onward
        (footing_of_bearing (intake_of_rcv (outputAfter_rcv _ _ _)) (outputAfter_bearing _ _ _))
  unfold afterAck
  split
  · exact .of_footing received rfl
  cases here : t.inState [.established, .finWait1, .finWait2] with
  | false => exact (fin false t received).mono (by decide)
  | true =>
      have stage : t.state.stage = 2 := by
        have here := of_decide_eq_true here
        revert here
        cases t.state <;> decide
      have life : (t.segmentText data).2.life = t.life :=
        congrArg Standing.life (segmentText_standing data t)
      exact (segmentText_accounts received fits stage).trans (life ▸ inside) (fin _ _)

/-! ### Acknowledgements -/

/-- The block is cleaned up, or its accounts are not touched. -/
def Spares (t t' : Tcb) : Prop := t'.life = .removed ∨ t'.footing = t.footing

theorem Spares.trans {u : Tcb} (first : Spares t u) (second : Spares u t') : Spares t t' := by
  rcases second with gone | same
  · exact .inl gone
  rcases first with gone | same'
  · exact .inl ((congrArg Footing.life same).trans gone)
  · exact .inr (same.trans same')

theorem Spares.accounts {most : Nat} (spares : Spares t t') (received : t.Received) :
    Accounts most t t' := by
  rcases spares with gone | same
  · exact .removed gone
  · exact .of_footing received same

theorem ackOfFin_spares (th : TcpHdr) (t : Tcb) : Spares t (ended (t.ackOfFin th)) := by
  unfold ackOfFin
  split
  · rename_i here
    split
    · exact .inr (footing_of_fields rfl rfl rfl (by rw [here]; rfl))
    · exact .inr rfl
  · split
    · exact .inl rfl
    · exact .inr rfl
  · split
    · exact .inl rfl
    · exact .inr rfl
  · exact .inr rfl

theorem checkAck_spares (th : TcpHdr) (segSeq : TcpSeq) (segLen : Nat) (t : Tcb) :
    Spares t (reached (t.checkAck hw th segSeq segLen)) := by
  refine checkAck_of_steps ?_ (fun u _ spares => spares.trans ?_) fun u spares =>
    spares.trans (ackOfFin_spares th u)
  · unfold ackInSynReceived
    split
    · rename_i here
      have state : t.state = .synReceived := by simpa [inState] using here
      split
      · exact .inr (footing_of_fields rfl rfl rfl (by rw [state]; rfl))
      · exact .inr rfl
    · exact .inr rfl
  · exact .inr (footing_of_standing (intake_of_rcv (ackInEstablished_rcv th segSeq segLen u))
      (ackInEstablished_standing th segSeq segLen u))

theorem segmentInOrder_accounts (th : TcpHdr) (segSeq : TcpSeq) {data : List Byte}
    (received : t.Received) (fits : t.TextFits data) :
    Accounts (2 ^ 24) t (t.segmentInOrder hw th segSeq data) := by
  apply segmentInOrder_of_ack
  · exact .removed rfl
  · exact .removed rfl
  · exact .removed rfl
  · exact .removed rfl
  · exact .of_footing received rfl
  intro _ _ _
  have acked := @checkAck_spares hw th segSeq data.length t
  split
  · rename_i stopped
    rw [stopped] at acked
    exact acked.accounts received
  · rename_i u doOutputData goes
    rw [goes] at acked
    have acked : Spares t u := acked
    by_cases gone : u.life = .removed
    · rcases afterAck_cases th segSeq data doOutputData u with stays | ⟨_, _, _, closes⟩
      · exact .removed (stays.trans gone)
      · rw [closes]
        exact .removed rfl
    · have same := acked.resolve_left gone
      have rcv : u.rcv.window = t.rcv.window := by
        show u.intake.window = t.intake.window
        have intake : u.intake = t.intake := congrArg Footing.intake same
        rw [intake]
      have stage : u.state.stage = t.state.stage := congrArg Footing.stage same
      have fits' : u.TextFits data := by
        unfold TextFits
        rw [rcv, stage]
        exact fits
      exact (afterAck_accounts th segSeq doOutputData (received.congr same) gone fits').since same

/-! ### Arrival -/

/-- An acceptable segment begins or ends inside the window. -/
theorem segmentAcceptable_offsets {seq : TcpSeq} {len : Nat}
    (acceptable : t.segmentAcceptable seq len = true) (near : t.rcv.window.toNat ≤ 2 ^ 22) :
    len = 0 ∧ seq = t.rcv.next ∨ (seq - t.rcv.next).toNat < t.rcv.window.toNat ∨
      0 < len ∧ (seq + len - 1 - t.rcv.next).toNat < t.rcv.window.toNat := by
  have inside : ∀ s : TcpSeq,
      (decide (t.rcv.next ≤ s) && decide (s < t.rcv.next + t.rcv.window.toNat)) = true →
        (s - t.rcv.next).toNat < t.rcv.window.toNat := by
    intro s between
    have between := of_decide_eq_true ((Bool.decide_and _ _).trans between)
    exact TcpSeq.offset_lt (by omega) between.1 between.2
  unfold segmentAcceptable at acceptable
  dsimp only at acceptable
  split at acceptable
  · rename_i empty
    split at acceptable
    · exact .inl ⟨empty, eq_of_beq acceptable⟩
    · exact .inr (.inl (inside seq acceptable))
  · split at acceptable
    · cases acceptable
    rcases Bool.or_eq_true_iff.mp acceptable with begins | ends
    · exact .inr (.inl (inside seq begins))
    · exact .inr (.inr ⟨by omega, inside _ ends⟩)

/-- Once its duplicated front is cut off it begins at RCV.NXT, or it begins
behind and reaches no further than a segment can. -/
theorem acceptable_cases {seq : TcpSeq} {len : Nat} (acceptable : t.segmentAcceptable seq len = true)
    (near : t.rcv.window.toNat ≤ 2 ^ 22) (short : len ≤ 65535) :
    seq + t.duplicated seq len = t.rcv.next ∨
      t.duplicated seq len = 0 ∧ ∃ b, 0 < b ∧ seq = t.rcv.next.place b ∧
        b + len ≤ t.rcv.window.toNat + 65534 := by
  have bound := t.rcv.next.raw.isLt
  have bound' := seq.raw.isLt
  have last : (seq + len - 1 - t.rcv.next).toNat =
      (2 ^ 32 - 1 + ((seq - t.rcv.next).toNat + len)) % 2 ^ 32 := by
    have value : (seq + len - 1).raw.toNat =
        (2 ^ 32 - 1 + (seq.raw.toNat + len) % 2 ^ 32) % 2 ^ 32 := by
      show ((seq + len).raw - BitVec.ofNat 32 1).toNat = _
      rw [BitVec.toNat_sub, TcpSeq.toNat_add]
      rfl
    rw [TcpSeq.toNat_sub, TcpSeq.toNat_sub, value]
    omega
  have small := (seq - t.rcv.next).isLt
  have offsets := segmentAcceptable_offsets acceptable near
  unfold duplicated
  by_cases before : seq < t.rcv.next
  · left
    rw [if_pos before]
    have before := (TcpSeq.lt_iff_toNat _ _).mp before
    have distance : (t.rcv.next - seq).toNat = 2 ^ 32 - (seq - t.rcv.next).toNat := by
      rw [TcpSeq.toNat_sub] at before ⊢
      rw [TcpSeq.toNat_sub]
      omega
    have within : (t.rcv.next - seq).toNat ≤ len := by
      rcases offsets with ⟨_, here⟩ | inside | ⟨_, inside⟩
      · rw [here, TcpSeq.toNat_sub] at before
        omega
      · omega
      · omega
    rw [Nat.min_eq_left within]
    exact TcpSeq.place_toNat seq t.rcv.next
  · rw [if_neg before]
    by_cases here : seq = t.rcv.next
    · left
      rw [here]
      exact TcpSeq.place_zero _
    refine .inr ⟨rfl, (seq - t.rcv.next).toNat, ?_, (TcpSeq.place_toNat _ _).symm, ?_⟩
    · refine Nat.pos_of_ne_zero fun zero => here ?_
      rw [← TcpSeq.place_toNat t.rcv.next seq, zero]
      exact TcpSeq.place_zero _
    · have low := mt (TcpSeq.lt_iff_toNat seq t.rcv.next).mpr before
      rcases offsets with ⟨_, same⟩ | inside | ⟨_, inside⟩
      · exact absurd same here
      · omega
      · omega

/-- What arrives in order fits, and what does not lies behind, within reach. -/
theorem arrival_fits {th : TcpHdr} {p : Impl} (loose : p.Loose) (short : p.len ≤ th.length + 65535)
    (near : t.rcv.window.toNat ≤ 2 ^ 22) :
    match t.arrival th p with
    | .inOrder _ data => t.TextFits data
    | .outOfOrder seq data => ∃ b, 0 < b ∧ seq = t.rcv.next.place b ∧
        b + data.length ≤ t.rcv.window.toNat + 65534
    | _ => True := by
  unfold arrival
  cases trimmed : p.trimFront th.length with
  | error fault => trivial
  | ok q =>
      obtain ⟨looseQ, lenQ⟩ := loose.trimFront trimmed
      dsimp only
      by_cases accepted : t.segmentAcceptable th.seq q.len = true
      case neg =>
        rw [if_pos (by simpa using accepted)]
        trivial
      rw [if_neg (by simpa using accepted)]
      have placed := acceptable_cases accepted near (by omega)
      have room := segmentAcceptable_offsets accepted near
      cases cut : q.trimFront (t.duplicated th.seq q.len) with
      | error fault => trivial
      | ok r =>
          obtain ⟨looseR, lenR⟩ := looseQ.trimFront cut
          have length := looseR.length_content
          dsimp only
          by_cases begins : th.seq + t.duplicated th.seq q.len = t.rcv.next
          · rw [if_neg (not_not.mpr begins)]
            intro some_ _
            have positive := List.length_pos_iff.mpr some_
            refine ⟨by omega, fun shut => ?_⟩
            have zero : t.rcv.window.toNat = 0 := congrArg BitVec.toNat shut
            omega
          · rw [if_pos begins]
            obtain ⟨whole, b, behind, seq, reach⟩ := placed.resolve_left begins
            refine ⟨b, behind, ?_, by omega⟩
            rw [whole, seq]
            exact TcpSeq.place_zero _

/-- A segment that is kept for later; before the SYN and behind the FIN it does
not matter which. -/
theorem insertOutOfOrder_accounts {most : Nat} {seq : TcpSeq} {p : List Byte}
    (received : t.Received) (opened : t.life = .inTable) (notFirst : t.state.stage ≠ 1)
    (reach : t.state.stage = 2 → ∃ b, 0 < b ∧ seq = t.rcv.next.place b ∧
      b + p.length ≤ t.rcv.window.toNat + 65534) :
    Accounts most t (t.insertOutOfOrder seq p) := by
  unfold insertOutOfOrder
  split
  · rename_i map merged
    refine .inr ⟨⟨⟨received.counted.size, received.counted.most⟩, received.fresh, ?_,
      fun known => ⟨(received.offers known).scale, (received.offers known).window⟩,
      fun text => ?_⟩, fun open_ => ⟨open_, 0, Nat.zero_le _, (TcpSeq.place_zero _).symm⟩⟩
    · rintro (fresh | first)
      · have fresh : t.life = .fresh := fresh
        rw [opened] at fresh
        cases fresh
      · exact absurd first notFirst
    · have text : t.state.stage = 2 := text
      obtain ⟨b, behind, rfl, inside⟩ := reach text
      obtain ⟨map', merged', waits⟩ :=
        Receive.insert_spec (received.waits text) (received.offers (by omega)) behind inside
      cases merged.symm.trans merged'
      exact waits
  · split
    · exact .of_footing received rfl
    · exact .of_footing received rfl

theorem inputHandleOtherState_accounts {th : TcpHdr} {p : Impl} (loose : p.Loose)
    (short : p.len ≤ th.length + 65535) (received : t.Received) (opened : t.life = .inTable)
    (notSent : t.state ≠ .synSent) :
    Accounts (2 ^ 24) t (t.inputHandleOtherState hw th p) := by
  have notFirst : t.state.stage ≠ 1 := by
    revert notSent
    cases t.state <;> decide
  have fits (text : t.state.stage = 2) :=
    @arrival_fits t th p loose short ((received.offers (by omega)).le.trans (by decide))
  unfold inputHandleOtherState
  revert fits
  cases t.arrival th p with
  | overrun => exact fun _ => .of_footing received rfl
  | unacceptable => exact fun _ => .of_footing received (output_footing t)
  | inOrder segSeq data =>
      intro fits
      exact segmentInOrder_accounts th segSeq received fun some_ text => fits text some_ text
  | outOfOrder segSeq data =>
      intro fits
      exact (insertOutOfOrder_accounts received opened notFirst fits).onward (output_footing _)

/-! ### The handshake -/

theorem parseFrom_scale (beyond : Nat → Byte) (skip : Nat) (o : TcpOption) (opts : List Byte)
    (small : o.localWinScale.toNat ≤ 7) :
    (TcpOption.parseFrom beyond skip o opts).localWinScale.toNat ≤ 7 := by
  fun_induction TcpOption.parseFrom beyond skip o opts <;> simp_all

/-- A block that is opened, or hears the peer's SYN: its window is the default. -/
theorem opened_received (received : t.Received) (before : t.life = .fresh ∨ t.state.stage = 1)
    (life : t'.life = .inTable) (size : t'.rcv.dataSize = t.rcv.dataSize)
    (data : t'.rcv.data = t.rcv.data)
    (waiting : t'.rcv.outOfOrder = t.rcv.outOfOrder) (option : t'.option.localWinScale.toNat ≤ 7)
    (scale : t'.rcv.windowScale.toNat ≤ 7) (window : t'.rcv.window = t'.rcv.default) :
    t'.Received := by
  obtain ⟨noData, nothing, _⟩ := received.begun before
  have zero := received.counted.empty noData
  obtain ⟨counted, offers, waits⟩ := @Receive.opened_spec t'.intake (size.trans zero)
    (data.trans noData) (waiting.trans nothing) scale window
  refine ⟨counted, ?_, ?_, fun _ => offers, fun _ => waits⟩
  · intro fresh
    rw [life] at fresh
    cases fresh
  · exact fun _ => ⟨data.trans noData, waiting.trans nothing, option⟩

theorem connect_received (iss : TcpSeq) (received : t.Received) (fresh : t.life = .fresh) :
    (t.connect hw iss).Received := by
  refine Received.congr ?_ (output_footing _)
  have seven : (7 : Byte).toNat ≤ 7 := by decide
  exact opened_received received (.inl fresh) rfl rfl rfl rfl seven seven rfl

theorem inputHandleListenState_received (beyond : Nat → Byte) (iss : TcpSeq) (th : TcpHdr)
    (p : Impl) (received : t.Received) (fresh : t.life = .fresh) :
    (t.inputHandleListenState hw beyond iss th p).Received := by
  have failed : ∀ c, ({ t with life := .inTable }.fail c).Received := by
    intro c
    have zero := received.fresh fresh
    refine ⟨received.counted, fun _ => zero, ?_, fun known => ?_, fun text => ?_⟩
    · exact fun _ => received.begun (.inl fresh)
    · have known : 1 ≤ t.state.stage := known
      omega
    · have text : t.state.stage = 2 := text
      omega
  unfold inputHandleListenState
  dsimp only
  split
  · rename_i stopped
    rcases takeHeader_error stopped with rfl | rfl
    · exact failed _
    · exact failed _
  · rename_i opts _
    have small := (received.begun (.inl fresh)).2.2
    have scale := parseFrom_scale beyond 0 t.option opts small
    refine Received.congr ?_ (output_footing _)
    exact opened_received received (.inl fresh) rfl rfl rfl rfl scale scale rfl

theorem inputHandleSynSentState_accounts {most : Nat} (beyond : Nat → Byte) (th : TcpHdr)
    (p : Impl) (received : t.Received) (opened : t.life = .inTable) (sent : t.state = .synSent) :
    Accounts most t (t.inputHandleSynSentState hw beyond th p) := by
  have first : t.state.stage = 1 := by rw [sent]; rfl
  have small := (received.begun (.inr first)).2.2
  have offers := received.offers (by omega)
  have accounts : ∀ u : Tcb, u.Received → Accounts most t u := fun u received' =>
    .inr ⟨received', fun open_ => by omega⟩
  unfold inputHandleSynSentState
  split
  · rename_i stopped
    rcases takeHeader_error stopped with rfl | rfl
    · exact .of_footing received rfl
    · exact .of_footing received rfl
  dsimp only
  split
  · exact .of_footing received rfl
  split
  · split
    · exact .removed rfl
    · exact .of_footing received rfl
  split
  · rename_i opts _ _ _ _
    apply accounts
    have scale := parseFrom_scale beyond 0 t.option opts small
    unfold synInSynSent
    split
    · refine Received.congr ?_ (output_footing _)
      exact opened_received received (.inr first) opened rfl rfl rfl scale scale rfl
    · refine Received.congr ?_ (output_footing _)
      refine opened_received received (.inr first) opened rfl rfl rfl small
        offers.scale ?_
      have empty := received.counted.empty (received.begun (.inr first)).1
      exact offers.window.trans (Receive.offered_empty offers.scale empty)
  · exact .of_footing received rfl

/-! ### Timers and the user -/

theorem outputUpdateRto_footing (t : Tcb) : t.outputUpdateRto.footing = t.footing :=
  output_footing t

theorem retransmitData_spares (t : Tcb) : Spares t (t.retransmitData hw) := by
  unfold retransmitData
  split
  · exact .inr rfl
  dsimp only
  split
  · right
    rw [outputUpdateRto_footing, outputOne_footing]
    rfl
  · exact .inl rfl

theorem retransmitFin_spares (t : Tcb) : Spares t (t.retransmitFin hw) := by
  have counted : Spares t t.countFin.outputUpdateRto := .inr (outputUpdateRto_footing _)
  unfold retransmitFin
  split
  · split
    · exact counted.trans (retransmitData_spares _)
    · exact .inl rfl
  · exact retransmitData_spares t

theorem retransmit_spares (t : Tcb) : Spares t (t.retransmit hw) := by
  have counted : Spares t t.countSyn.outputUpdateRto := .inr (outputUpdateRto_footing _)
  unfold retransmit
  split
  · split
    · exact counted.trans (retransmitFin_spares _)
    · exact .inl rfl
  · exact retransmitFin_spares t

theorem shutdownConnect_spares (t : Tcb) : Spares t t.shutdownConnect := by
  unfold shutdownConnect
  split
  · exact .inl rfl
  · refine .inr (footing_of_bearing ?_ (by rw [close_bearing, abortReader_bearing]))
    rw [intake_of_rcv (close_rcv _), abortReader_intake]

theorem closeContinuation_spares (t : Tcb) : Spares t (t.closeContinuation hw) := by
  unfold closeContinuation
  right
  rw [output_footing, outputOne_footing]
  refine footing_of_fields rfl rfl rfl ?_
  dsimp only
  cases t.state <;> rfl

theorem read_accounts (received : t.Received) : Accounts (2 ^ 24) t t.read.2 := by
  have intake : t.read.2.intake = t.intake.emptied := rfl
  refine .inr ⟨⟨⟨rfl, Nat.zero_le _⟩, received.fresh, fun first => ?_, fun known => ?_,
    fun text => ?_⟩, fun open_ => ⟨open_, ?_⟩⟩
  · exact ⟨rfl, (received.begun first).2⟩
  · exact (Receive.emptied_window (received.offers known)).1
  · have stage : t.state.stage = 2 := text
    rw [intake]
    exact Receive.emptied_waits (received.offers (by omega)) (received.waits stage)
  · obtain ⟨k, small, edge⟩ := Receive.emptied_moves (received.offers (by omega))
    exact ⟨k, small.trans (by decide), edge⟩

end Tcb

/-- A segment is a packet, and its text is no longer than 65535 bytes. -/
def TcbEvent.TextBounded : TcbEvent → Prop
  | .segment _ th p => p.Loose ∧ p.len ≤ th.length + 65535
  | _ => True

namespace Tcb

theorem handle_accounts (e : TcbEvent) (received : t.Received) (bounded : e.TextBounded)
    (enabled : t.enabled e = true) : Accounts (2 ^ 24) t (t.handle hw e) := by
  have opening : ∀ u : Tcb, t.life = .fresh → u.Received → Accounts (2 ^ 24) t u := by
    intro u fresh received'
    have zero := received.fresh fresh
    exact .inr ⟨received', fun open_ => by omega⟩
  cases e with
  | connect iss =>
      have fresh := of_decide_eq_true enabled
      exact opening _ fresh (connect_received iss received fresh)
  | listen iss beyond th p =>
      have fresh := of_decide_eq_true enabled
      exact opening _ fresh (inputHandleListenState_received beyond iss th p received fresh)
  | segment beyond th p =>
      have opened := of_decide_eq_true enabled
      obtain ⟨loose, short⟩ := bounded
      show Accounts (2 ^ 24) t (t.inputHandle hw beyond th p)
      unfold inputHandle
      split
      · rename_i sent
        exact inputHandleSynSentState_accounts beyond th p received opened sent
      · rename_i notSent
        exact inputHandleOtherState_accounts loose short received opened notSent
  | send p =>
      exact .of_footing received (footing_of_bearing (intake_of_rcv (send_rcv p t)) (send_bearing t p))
  | waitForData => exact .of_footing received rfl
  | read => exact read_accounts received
  | closeRead =>
      exact .of_footing received (footing_of_bearing (abortReader_intake t) (abortReader_bearing t))
  | closeWrite =>
      exact .of_footing received (footing_of_bearing (intake_of_rcv (close_rcv t)) (close_bearing t))
  | shutdownConnect => exact (shutdownConnect_spares t).accounts received
  | closeContinuation =>
      have ready : Spares t { t with closeReady := t.closeReady - 1 } := .inr rfl
      exact (ready.trans (closeContinuation_spares _)).accounts received
  | delayedAck => exact .of_footing received (output_footing _)
  | retransmit =>
      have fired : Spares t { t with retransmitArmed := false } := .inr rfl
      exact (fired.trans (retransmit_spares _)).accounts received
  | persist =>
      refine .of_footing received ?_
      show (output _).footing = _
      rw [output_footing]
      exact outputOne_footing _ false
  | resolved => exact .of_footing received rfl
  | arpQueueFull => exact .of_footing received rfl
  | arpTimeout =>
      show Accounts (2 ^ 24) t t.arpTimeout
      unfold arpTimeout
      dsimp only
      split
      · exact .removed rfl
      · exact .of_footing received rfl
  | getPacket =>
      exact .of_footing received
        (footing_of_bearing (intake_of_rcv (getPacket_rcv _)) (getPacket_bearing _))

theorem step_accounts {e : TcbEvent} (received : t.Received) (bounded : e.TextBounded)
    (next : step hw t e = some t') : Accounts (2 ^ 24) t t' := by
  unfold step at next
  split at next
  · rename_i possible
    cases next
    exact (handle_accounts e received bounded possible.2).onward rfl
  · cases next

theorem new_received (id : ConnId) (memory : Tcb) : (new id memory).Received where
  counted := ⟨rfl, Nat.zero_le _⟩
  fresh _ := rfl
  begun _ := ⟨rfl, rfl, Nat.zero_le _⟩
  offers known := by cases known
  waits text := by cases text

/-- Nothing brings a block back that has been cleaned up. -/
theorem step_removed {e : TcbEvent} (gone : t.life = .removed) (next : step hw t e = some t') :
    t'.life = .removed := by
  have possible : t.enabled e = true := by
    unfold step at next
    split at next
    · rename_i possible
      exact possible.2
    · cases next
  have idle : t.shakesHands e = false := by
    unfold enabled at possible
    cases e with
    | connect iss => simp [gone] at possible
    | listen iss beyond th p => simp [gone] at possible
    | segment beyond th p => simp [gone] at possible
    | _ => rfl
  obtain ⟨u, onward, rfl⟩ := step_onward idle next
  rcases onward.life with same | removed
  · exact same.trans gone
  · exact removed

/-- On every run whose segments are no longer than 65535 bytes, up to the
cleanup: what is buffered is counted, there is never more of it than the buffer
and one segment, and no step moves the right edge of the window to the left,
once the SYN of the peer has set it. -/
theorem receive_window_accounted (hw : HwFeatures) (id : ConnId) (memory : Tcb)
    (events : List TcbEvent) (t : Tcb) (run : exec (step hw) (new id memory) events = some t)
    (bounded : ∀ e ∈ events, e.TextBounded) (kept : t.life ≠ .removed) :
    t.rcv.dataSize.toNat = (t.rcv.data.map List.length).sum ∧
      t.rcv.dataSize.toNat ≤ maxReceiveBufSize.toNat + 65535 ∧
      ∀ e t', step hw t e = some t' → e.TextBounded → t.ackNeedsOn = true →
        t'.life ≠ .removed → ∃ k, k ≤ 2 ^ 24 ∧ t'.rcv.rightEdge = t.rcv.rightEdge + k := by
  have received : t.life = .removed ∨ t.Received := by
    refine Along.invariant (I := fun s => s.life = .removed ∨ s.Received) ?_
      (.inr (new_received id memory)) (Along.of_mem bounded _) run
    rintro s e s' (gone | received) bounded next
    · exact .inl (step_removed gone next)
    · exact (step_accounts received bounded next).imp_right And.left
  have received := received.resolve_left kept
  refine ⟨received.counted.size, ?_, ?_⟩
  · have size := received.counted.size
    have most := received.counted.most
    have same : t.intake.dataSize = t.rcv.dataSize := rfl
    rw [← same]
    omega
  · intro e t' next bounded known kept'
    have open_ : 2 ≤ t.state.stage := by
      unfold ackNeedsOn inState at known
      revert known
      cases t.state <;> decide
    obtain ⟨_, moves⟩ := (step_accounts received bounded next).resolve_left kept'
    exact (moves open_).2

end Tcb

/-! ## Two segments in the wrong order -/

/-- A segment of the peer with text. -/
def withText (text : List Byte) : Impl :=
  ⟨tcpHdrLen + text.length, [.outside (List.replicate tcpHdrLen 0 ++ text)], defaultNrFrags,
    Impl.newData, internalDataSize⟩

theorem loose_withText (text : List Byte) (short : text.length ≤ 65535) :
    (withText text).Loose where
  data_length := List.length_replicate
  few := show 1 < 2 ^ 16 by decide
  first f mem := by
    cases Option.some.inj mem
    exact .inl trivial
  later f mem := nomatch mem
  len_eq := by
    show _ = (List.replicate tcpHdrLen 0 ++ text).length + 0
    rw [List.length_append, List.length_replicate]
    rfl
  fits := by
    have header : tcpHdrLen = 20 := rfl
    show tcpHdrLen + text.length < 2 ^ 32
    omega

/-- The second segment arrives before the first. -/
def swapped : List TcbEvent :=
  [.connect ⟨100⟩, .resolved, .getPacket,
    .segment (fun _ => 0) (peerSegment 700 101 true 1000) (withText []),
    .segment (fun _ => 0) (peerSegment 703 101 false 1000) (withText [3, 4]),
    .segment (fun _ => 0) (peerSegment 701 101 false 1000) (withText [1, 2])]

theorem swapped_bounded : ∀ e ∈ swapped, e.TextBounded := by
  have segment : ∀ (seq : BitVec 32) (fSyn : Bool) (text : List Byte), text.length ≤ 65535 →
      (TcbEvent.segment (fun _ => 0) (peerSegment seq 101 fSyn 1000) (withText text)).TextBounded :=
    fun _ _ text short => ⟨loose_withText text short, Nat.add_le_add_left short tcpHdrLen⟩
  unfold swapped
  simp only [List.forall_mem_cons, List.not_mem_nil, false_implies, implies_true, and_true]
  exact ⟨trivial, trivial, trivial, segment _ _ _ (by decide), segment _ _ _ (by decide),
    segment _ _ _ (by decide)⟩

/-- The state in which both have arrived. -/
def bothArrived : Tcb :=
  (exec (Tcb.step ethernet) (Tcb.new exampleId zeroMemory) swapped).get (by decide)

/-- Four bytes are buffered, and reading them moves the edge by as much. -/
theorem receive_window_accounted_swapped :
    exec (Tcb.step ethernet) (Tcb.new exampleId zeroMemory) swapped = some bothArrived ∧
      bothArrived.rcv.data = [[1, 2], [3, 4]] ∧
      bothArrived.rcv.dataSize.toNat = (bothArrived.rcv.data.map List.length).sum ∧
      ∃ t' k, Tcb.step ethernet bothArrived .read = some t' ∧ k ≤ 2 ^ 24 ∧
        t'.rcv.rightEdge = bothArrived.rcv.rightEdge + k := by
  have run : exec (Tcb.step ethernet) (Tcb.new exampleId zeroMemory) swapped = some bothArrived :=
    (Option.some_get (by decide)).symm
  have accounted := Tcb.receive_window_accounted ethernet exampleId zeroMemory _ _ run
    swapped_bounded (by decide)
  have next : Tcb.step ethernet bothArrived .read = some _ := (Option.some_get (by decide)).symm
  obtain ⟨k, small, edge⟩ := accounted.2.2 .read _ next trivial (by decide) (by decide)
  exact ⟨run, by decide, accounted.1, _, k, next, small, edge⟩

end ActorNet.Tcp
