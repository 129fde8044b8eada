import ActorNet.Tcp.Frames

/-!
# What a connection can crash on

A crash is followed through the operations for any set of `bad` crashes that
leaves out those of acknowledgements, of the merger and of polling. What is sent
for the first time never fails the assertion of `output_one`, because with a
window of zero `can_send` allows the one byte of a probe at most; what is sent
again has to fit.
-/

namespace ActorNet.Tcp

open Lib Net

namespace Tcb

variable {t : Tcb} {hw : HwFeatures}

/-! ## Operations that cannot crash -/

@[simp] theorem output_crash (t : Tcb) : t.output.crash = t.crash := by
  unfold output
  split <;> rfl

@[simp] theorem canSend_crash (t : Tcb) : t.canSend.2.crash = t.crash := by
  unfold canSend
  dsimp only
  split_ifs <;> rfl

@[simp] theorem getTransmitPacket_crash (t : Tcb) :
    (t.getTransmitPacket hw).2.crash = t.crash := by
  unfold getTransmitPacket
  split
  · rfl
  · exact t.canSend_crash

@[simp] theorem rememberSegment_crash (t : Tcb) (p : List Byte) :
    (t.rememberSegment p).crash = t.crash := by
  unfold rememberSegment
  dsimp only
  split <;> rfl

@[simp] theorem setRetransmitTimer_crash (t : Tcb) : t.setRetransmitTimer.crash = t.crash := by
  unfold setRetransmitTimer signalAllDataAcked
  split
  · split <;> rfl
  · rfl

@[simp] theorem signalDataReceived_crash (t : Tcb) : t.signalDataReceived.crash = t.crash := by
  unfold signalDataReceived
  split <;> rfl

@[simp] theorem abortReader_crash (t : Tcb) : t.abortReader.crash = t.crash := by
  unfold abortReader
  split <;> rfl

@[simp] theorem close_crash (t : Tcb) : t.close.crash = t.crash := by
  unfold close
  split
  · rfl
  split <;> rfl

@[simp] theorem signalSendAvailable_crash (t : Tcb) : t.signalSendAvailable.crash = t.crash := by
  unfold signalSendAvailable
  split <;> rfl

@[simp] theorem waitSendAvailable_crash (t : Tcb) : t.waitSendAvailable.crash = t.crash := rfl

@[simp] theorem send_crash (t : Tcb) (p : List Byte) : (t.send p).crash = t.crash := by
  unfold send
  split
  · rfl
  dsimp only
  rw [waitSendAvailable_crash]
  split
  · rw [output_crash, canSend_crash]
  · exact canSend_crash _

@[simp] theorem fullAck_crash (t : Tcb) : t.fullAck.crash = t.crash := by
  unfold fullAck
  dsimp only
  rw [setRetransmitTimer_crash]
  rfl

@[simp] theorem partialAck_crash (n : BitVec 32) (t : Tcb) : (t.partialAck n).crash = t.crash := by
  unfold partialAck
  dsimp only
  split <;> rfl

@[simp] theorem updateWindowIfNewer_crash (th : TcpHdr) (segSeq : TcpSeq) (t : Tcb) :
    (t.updateWindowIfNewer th segSeq).crash = t.crash := by
  unfold updateWindowIfNewer
  split <;> rfl

@[simp] theorem shouldSendAck_crash (n : BitVec 16) (t : Tcb) :
    (t.shouldSendAck n).2.crash = t.crash := by
  unfold shouldSendAck
  dsimp only
  split <;> rfl

@[simp] theorem outputAfter_crash (doOutput doOutputData : Bool) (t : Tcb) :
    (t.outputAfter doOutput doOutputData).crash = t.crash := by
  unfold outputAfter
  split
  · exact output_crash _
  split
  · dsimp only
    split
    · rw [output_crash]
      exact canSend_crash t
    · exact canSend_crash t
  · rfl

/-! ## The window assertion -/

/-- A closed window lets a probe out, and nothing above one byte. -/
theorem canSend_le_one (shut : t.snd.window = 0) : t.canSend.1.toNat ≤ 1 := by
  unfold canSend
  split
  · exact Nat.le_refl 1
  · exact Nat.zero_le 1

theorem mergeUnsent_length (n : Nat) (p : List Byte) (qs : List (List Byte)) :
    (mergeUnsent n p qs).1.length = p.length + min n qs.flatten.length := by
  induction qs generalizing n p with
  | nil => simp [mergeUnsent]
  | cons q rest ih =>
      rw [List.flatten_cons, List.length_append]
      unfold mergeUnsent
      split
      · rename_i fits
        rw [ih, List.length_append]
        omega
      split
      · rename_i none
        rw [none, Nat.zero_min, Nat.add_zero]
      · rw [List.length_append, List.length_take]
        omega

/-- As much as is asked for, or all there is. -/
theorem takeUnsent_length (n : Nat) (qs : List (List Byte)) :
    (takeUnsent n qs).1.length = min n qs.flatten.length := by
  cases qs with
  | nil => simp [takeUnsent]
  | cons p rest =>
      rw [takeUnsent, List.flatten_cons, List.length_append]
      split
      · rw [List.length_take]
        omega
      · rw [mergeUnsent_length]
        omega

theorem canSend_unsent (t : Tcb) : t.canSend.2.snd.unsent = t.snd.unsent := by
  unfold canSend
  dsimp only
  split_ifs <;> rfl

/-- `can_send` bounds what is taken from the queue. -/
theorem getTransmitPacket_length (t : Tcb) :
    (t.getTransmitPacket hw).1.length ≤ t.canSend.1.toNat := by
  unfold getTransmitPacket
  split
  · exact Nat.zero_le _
  · dsimp only
    rw [takeUnsent_length, toNat_min]
    omega

theorem checkWindow_crash (len : BitVec 16) (fits : t.snd.window = 0 → len ≤ 1) :
    (t.checkWindow len).crash = t.crash := by
  unfold checkWindow
  rw [if_pos]
  by_cases shut : t.snd.window = 0
  · exact .inr ⟨shut, fits shut⟩
  · refine .inl (BitVec.lt_def.mpr (Nat.pos_of_ne_zero fun zero => shut ?_))
    exact BitVec.eq_of_toNat_eq zero

theorem emit_crash (r : Bool) (p : List Byte)
    (fits : t.snd.window = 0 → BitVec.ofNat 16 p.length ≤ 1) : (t.emit r p).crash = t.crash := by
  have window : ∀ t' : Tcb, t'.bearing = t.bearing → t'.crash = t.crash →
      (t'.checkWindow (BitVec.ofNat 16 p.length)).crash = t.crash := by
    intro t' same crash
    rw [checkWindow_crash, crash]
    intro shut
    exact fits ((congrArg Bearing.window same).symm.trans shut)
  unfold emit
  dsimp only
  cases r with
  | true => exact window _ rfl rfl
  | false => exact window _ (rememberSegment_bearing _ p) (rememberSegment_crash _ p)

/-- What is sent for the first time passes the assertion. -/
@[simp] theorem outputOne_first_crash (t : Tcb) : (t.outputOne hw false).crash = t.crash := by
  unfold outputOne
  split
  · rfl
  · rw [if_neg Bool.false_ne_true]
    dsimp only
    rw [emit_crash, getTransmitPacket_crash]
    intro shut
    have window : t.snd.window = 0 :=
      (congrArg Bearing.window t.getTransmitPacket_bearing).symm.trans shut
    have short := Nat.le_trans (@getTransmitPacket_length hw t) (canSend_le_one window)
    rw [BitVec.le_def, BitVec.toNat_ofNat]
    exact Nat.le_trans (Nat.mod_le _ _) short

/-- The first segment in flight may be sent again: the window is open, or it is
one byte at most. -/
def FitsWindow (t : Tcb) : Prop :=
  t.snd.window = 0 → ∀ seg ∈ t.snd.data.head?, BitVec.ofNat 16 seg.p.length ≤ 1

instance (t : Tcb) : Decidable t.FitsWindow :=
  inferInstanceAs (Decidable (_ → ∀ seg ∈ t.snd.data.head?, _))

theorem outputOne_again_crash (fits : t.FitsWindow) :
    (t.outputOne hw true).crash = t.crash := by
  unfold outputOne
  split
  · rfl
  · rw [if_pos rfl]
    apply emit_crash
    intro shut
    have first := fits shut
    cases flight : t.snd.data with
    | nil => exact Nat.zero_le 1
    | cons seg rest =>
        rw [flight] at first
        exact first seg rfl

/-! ## The trims of the out-of-order segments -/

/-- A segment that RCV.NXT lies in is cut inside. -/
theorem takeMergeable_within (next : TcpSeq) (map : PacketMerger.Map TcpSeq) :
    (takeMergeable next map).within = true := by
  induction map generalizing next with
  | nil => rfl
  | cons seg rest ih =>
      obtain ⟨segBeg, p⟩ := seg
      unfold takeMergeable
      dsimp only
      split
      · rename_i inside
        have cut := TcpSeq.sub_le_length_of_lt inside.1 inside.2
        rw [(TcpSeq.sub_toNat inside.1).1] at cut
        simp only [ih, cut, decide_true, Bool.and_self]
      split
      · exact ih next
      · rfl

/-! ## Following the bad crashes -/

/-- The crashes that are followed do not include these. -/
structure Tolerates (bad : Crash → Prop) : Prop where
  trimUnacked : ¬bad .trimUnacked
  mergeError : ¬bad .mergeError
  emptyPacketq : ¬bad .emptyPacketq
  divisionByZero : ¬bad .divisionByZero

/-- No bad crash has happened. -/
def Clear (bad : Crash → Prop) (t : Tcb) : Prop := ∀ c, t.crash = some c → ¬bad c

variable {bad : Crash → Prop}

theorem Clear.fail (clear : Clear bad t) {reason : Crash} (tolerated : ¬bad reason) :
    Clear bad (t.fail reason) := by
  intro c crashed
  unfold Tcb.fail at crashed
  cases before : t.crash with
  | some c' =>
      rw [before] at crashed
      exact clear c (before.trans crashed)
  | none =>
      rw [before] at crashed
      cases crashed
      exact tolerated

theorem Clear.of_crash (clear : Clear bad t) {t' : Tcb} (same : t'.crash = t.crash) :
    Clear bad t' := fun c crashed => clear c (same.symm.trans crashed)

/-! ## Sending again -/

theorem Clear.emitAgain (p : List Byte) (clear : Clear bad t)
    (tolerated : ¬bad .windowAssertion) : Clear bad (t.emit true p) := by
  have checked : ∀ len, Clear bad ((t.takeNumbers true len).checkWindow len) := by
    intro len
    unfold Tcb.checkWindow
    split
    · exact clear
    · exact Clear.fail (show Clear bad (t.takeNumbers true len) from clear) tolerated
  exact checked _

theorem Clear.outputAgain (clear : Clear bad t) (fits : bad .windowAssertion → t.FitsWindow) :
    Clear bad (t.outputOne hw true) := by
  by_cases window : t.FitsWindow
  · exact clear.of_crash (outputOne_again_crash window)
  · unfold Tcb.outputOne
    split
    · exact clear
    · exact clear.emitAgain _ fun isBad => window (fits isBad)

theorem Clear.fastRetransmit (clear : Clear bad t)
    (fits : bad .windowAssertion → t.FitsWindow) : Clear bad (t.fastRetransmit hw) := by
  unfold Tcb.fastRetransmit
  cases flight : t.snd.data with
  | nil => exact clear
  | cons seg rest =>
      have counted : Clear bad { t with snd := { t.snd with
          data := { seg with nrTransmits := seg.nrTransmits + 1 } :: rest } } := clear
      have again := @Clear.outputAgain _ hw bad counted fun isBad shut first found => by
        cases found
        exact fits isBad shut seg (by simp [flight])
      exact again.of_crash (output_crash _)

theorem Clear.newDataAcked (th : TcpHdr) (n : BitVec 32) (clear : Clear bad t)
    (fits : bad .windowAssertion → 3 ≤ t.snd.dupacks → ¬t.snd.recover < th.ack → t.FitsWindow) :
    Clear bad (t.newDataAcked hw th n) := by
  unfold Tcb.newDataAcked
  split
  · rename_i recovering
    split
    · exact clear.of_crash (fullAck_crash t)
    · rename_i partly
      have again := @Clear.fastRetransmit t hw bad clear fun isBad => fits isBad recovering partly
      exact again.of_crash (partialAck_crash n _)
  · exact clear.of_crash (setRetransmitTimer_crash _)

theorem Clear.duplicateAck (th : TcpHdr) (clear : Clear bad t)
    (fits : bad .windowAssertion → t.snd.dupacks + 1 = 3 → t.snd.recover < th.ack - 1 →
      t.FitsWindow) : Clear bad (t.duplicateAck hw th).1 := by
  unfold Tcb.duplicateAck
  dsimp only
  split
  · exact clear
  split
  · rename_i third
    unfold Tcb.thirdDuplicateAck
    dsimp only
    split
    · rename_i recent
      have counted : Clear bad { t with snd := { t.snd with
          dupacks := t.snd.dupacks + 1
          recover := t.snd.next - 1
          ssthresh := max ((t.flightSize - t.snd.limitedTransfer) / 2)
            (2 * t.snd.mss.setWidth 32) } } := clear
      exact counted.fastRetransmit fun isBad => fits isBad third recent
    · exact clear
  split <;> exact clear

/-! ## The text and the FIN -/

theorem Clear.mergeOutOfOrder (clear : Clear bad t) : Clear bad t.mergeOutOfOrder.2 := by
  unfold Tcb.mergeOutOfOrder
  dsimp only
  rw [if_pos (takeMergeable_within t.rcv.next t.rcv.outOfOrder)]
  exact clear

theorem Clear.insertOutOfOrder (seg : TcpSeq) (p : List Byte) (clear : Clear bad t)
    (tolerated : ¬bad .mergeError) : Clear bad (t.insertOutOfOrder seg p) := by
  unfold Tcb.insertOutOfOrder
  split
  · exact clear
  split
  · exact clear.fail tolerated
  · rename_i overrun
    refine absurd (List.all_eq_true.mpr fun trim made => ?_) overrun
    exact decide_eq_true (mergeTrims_within seg p _ trim made)

theorem Clear.segmentText (data : List Byte) (clear : Clear bad t) :
    Clear bad (t.segmentText data).2 := by
  unfold Tcb.segmentText
  split
  · exact clear
  dsimp only
  have text : Clear bad { t with rcv := { t.rcv with
      dataSize := t.rcv.dataSize + BitVec.ofNat 64 data.length
      data := t.rcv.data ++ [data]
      next := t.rcv.next + data.length } } := clear
  have merged := text.mergeOutOfOrder
  split
  · exact merged.of_crash (signalDataReceived_crash _)
  · refine merged.of_crash ((shouldSendAck_crash _ _).trans (signalDataReceived_crash _))

theorem Clear.checkFin (th : TcpHdr) (finSeq : TcpSeq) (doOutput : Bool) (clear : Clear bad t) :
    Clear bad (reached (t.checkFin th finSeq doOutput)) := by
  have taken : Clear bad (t.takeFin finSeq) :=
    clear.of_crash ((output_crash _).trans (signalDataReceived_crash _))
  unfold Tcb.checkFin
  split
  · exact clear
  split
  · exact clear
  split
  · dsimp only
    split <;> exact taken
  · exact clear

theorem Clear.afterAck (th : TcpHdr) (segSeq : TcpSeq) (data : List Byte) (doOutputData : Bool)
    (clear : Clear bad t) : Clear bad (t.afterAck th segSeq data doOutputData) := by
  refine afterAck_of_steps doOutputData clear (fun _ => clear.segmentText data) ?_ ?_
  · exact fun _ doOutput clear => clear.checkFin th _ doOutput
  · exact fun _ _ clear => clear.of_crash (outputAfter_crash _ _ _)

/-! ## Acknowledgements -/

section

variable (tolerates : Tolerates bad)
include tolerates

theorem Clear.updateCwnd (clear : Clear bad t) (n : BitVec 32) : Clear bad (t.updateCwnd n) := by
  unfold Tcb.updateCwnd
  dsimp only
  split
  · exact clear
  split
  · exact clear.fail tolerates.divisionByZero
  · exact clear

theorem Clear.wholeSegmentsAcked (segAck : TcpSeq) (segs : List UnackedSegment)
    (clear : Clear bad t) : Clear bad (Tcb.wholeSegmentsAcked segAck segs t).2 := by
  induction segs generalizing t with
  | nil => exact clear
  | cons seg rest ih =>
      unfold Tcb.wholeSegmentsAcked
      split
      · have advanced : Clear bad { t with snd := { t.snd with
            unacknowledged := t.snd.unacknowledged + seg.p.length } } := clear
        apply ih
        refine Clear.of_crash ?_ (signalSendAvailable_crash _)
        exact advanced.updateCwnd tolerates _
      · exact clear

theorem Clear.partOfSegmentAcked (segAck : TcpSeq) (clear : Clear bad t) :
    Clear bad (t.partOfSegmentAcked segAck).2 := by
  unfold Tcb.partOfSegmentAcked
  split
  · dsimp only
    apply Clear.updateCwnd tolerates
    split
    · exact clear
    · split
      · exact clear.fail tolerates.trimUnacked
      · exact clear
  · exact clear

theorem Clear.dataSegmentAcked (segAck : TcpSeq) (clear : Clear bad t) :
    Clear bad (t.dataSegmentAcked segAck).2 := by
  unfold Tcb.dataSegmentAcked
  exact (clear.wholeSegmentsAcked tolerates segAck t.snd.data).partOfSegmentAcked tolerates segAck

/-- A partial acknowledgement is answered with the first segment in flight. -/
def PartialAckFits (th : TcpHdr) (t : Tcb) : Prop :=
  3 ≤ t.snd.dupacks → ¬t.snd.recover < th.ack → t.FitsWindow

instance (th : TcpHdr) (t : Tcb) : Decidable (t.PartialAckFits th) :=
  inferInstanceAs (Decidable (3 ≤ t.snd.dupacks → ¬t.snd.recover < th.ack → t.FitsWindow))

/-- So is the third duplicate. -/
def FastRetransmitFits (th : TcpHdr) (segSeq : TcpSeq) (segLen : Nat) (t : Tcb) : Prop :=
  t.inState [.established, .closeWait] →
    if t.snd.unacknowledged < th.ack ∧ th.ack ≤ t.snd.next then
      ((t.dataSegmentAcked th.ack).2.updateWindowIfNewer th segSeq).PartialAckFits th
    else t.isDuplicateAck th segLen → t.snd.dupacks + 1 = 3 → t.snd.recover < th.ack - 1 →
      t.FitsWindow

instance (th : TcpHdr) (segSeq : TcpSeq) (segLen : Nat) (t : Tcb) :
    Decidable (t.FastRetransmitFits th segSeq segLen) :=
  inferInstanceAs (Decidable (t.inState [.established, .closeWait] →
    if t.snd.unacknowledged < th.ack ∧ th.ack ≤ t.snd.next then
      ((t.dataSegmentAcked th.ack).2.updateWindowIfNewer th segSeq).PartialAckFits th
    else t.isDuplicateAck th segLen → t.snd.dupacks + 1 = 3 → t.snd.recover < th.ack - 1 →
      t.FitsWindow))

theorem Clear.ackNewData (th : TcpHdr) (segSeq : TcpSeq) (clear : Clear bad t)
    (fits : bad .windowAssertion →
      ((t.dataSegmentAcked th.ack).2.updateWindowIfNewer th segSeq).PartialAckFits th) :
    Clear bad (t.ackNewData hw th segSeq) := by
  have acked : Clear bad ((t.dataSegmentAcked th.ack).2.updateWindowIfNewer th segSeq) :=
    (clear.dataSegmentAcked tolerates th.ack).of_crash (updateWindowIfNewer_crash th segSeq _)
  unfold Tcb.ackNewData
  cases result : t.dataSegmentAcked th.ack with
  | mk n t' =>
      rw [result] at acked fits
      exact acked.newDataAcked th n fits

theorem Clear.ackInEstablished (th : TcpHdr) (segSeq : TcpSeq) (segLen : Nat)
    (clear : Clear bad t)
    (fits : bad .windowAssertion → t.FastRetransmitFits th segSeq segLen) :
    Clear bad (reached (t.ackInEstablished hw th segSeq segLen)) := by
  unfold FastRetransmitFits at fits
  refine @reached_ackInEstablished hw (Clear bad) t th segSeq segLen clear ?_ ?_ ?_ clear
  · intro here advances
    rw [if_pos advances] at fits
    exact clear.ackNewData tolerates th segSeq fun isBad => fits isBad here
  · intro here stays duplicate
    rw [if_neg stays] at fits
    exact clear.duplicateAck th fun isBad => fits isBad here duplicate
  · exact clear.of_crash (output_crash t)

/-- An acknowledgement may complete the handshake first. -/
def SegmentFits (th : TcpHdr) (segSeq : TcpSeq) (segLen : Nat) (t : Tcb) : Prop :=
  match t.ackInSynReceived th with
  | .ok t => t.FastRetransmitFits th segSeq segLen
  | .error _ => True

instance (th : TcpHdr) (segSeq : TcpSeq) (segLen : Nat) (t : Tcb) :
    Decidable (t.SegmentFits th segSeq segLen) :=
  match result : t.ackInSynReceived th with
  | .ok t' => decidable_of_iff (t'.FastRetransmitFits th segSeq segLen) (by rw [SegmentFits, result])
  | .error _ => .isTrue (by rw [SegmentFits, result]; trivial)

theorem Clear.checkAck (th : TcpHdr) (segSeq : TcpSeq) (segLen : Nat) (clear : Clear bad t)
    (fits : bad .windowAssertion → t.SegmentFits th segSeq segLen) :
    Clear bad (reached (t.checkAck hw th segSeq segLen)) := by
  refine checkAck_of_steps ?_ ?_ ?_
  · unfold Tcb.ackInSynReceived
    split
    · split <;> exact clear
    · exact clear
  · intro u opened begun
    unfold SegmentFits at fits
    rw [opened] at fits
    exact begun.ackInEstablished tolerates th segSeq segLen fits
  · intro u clear
    unfold Tcb.ackOfFin
    split
    · split <;> exact clear
    · split <;> exact clear
    · split <;> exact clear
    · exact clear

theorem Clear.segmentInOrder (th : TcpHdr) (segSeq : TcpSeq) (data : List Byte)
    (clear : Clear bad t)
    (fits : bad .windowAssertion → th.fRst = false → th.fSyn = false → th.fAck = true →
      t.SegmentFits th segSeq data.length) : Clear bad (t.segmentInOrder hw th segSeq data) := by
  apply segmentInOrder_of_ack
  · exact clear
  · exact clear
  · exact clear
  · exact clear
  · exact clear
  · intro noRst noSyn ack
    refine checked_of_steps (clear.checkAck tolerates th segSeq data.length fun isBad => ?_)
      fun _ doOutputData clear => clear.afterAck th segSeq data doOutputData
    cases rst : th.fRst with
    | true =>
        -- A reset gets this far in CLOSED, LISTEN and SYN_SENT only.
        obtain ⟨past, outside⟩ := noRst rst
        unfold SegmentFits
        rw [ackInSynReceived_past th past]
        exact fun here => absurd (outside.symm.trans here) Bool.false_ne_true
    | false => exact fits isBad rst noSyn ack

/-- What a segment in order retransmits at once has to fit. -/
def ArrivalFits (th : TcpHdr) (p : Impl) (t : Tcb) : Prop :=
  match t.arrival th p with
  | .inOrder segSeq data =>
      th.fRst = false → th.fSyn = false → th.fAck = true → t.SegmentFits th segSeq data.length
  | _ => True

instance (th : TcpHdr) (p : Impl) (t : Tcb) : Decidable (t.ArrivalFits th p) :=
  match here : t.arrival th p with
  | .inOrder segSeq data =>
      decidable_of_iff (th.fRst = false → th.fSyn = false → th.fAck = true →
        t.SegmentFits th segSeq data.length) (by rw [ArrivalFits, here])
  | .overrun | .unacceptable | .outOfOrder _ _ => .isTrue (by rw [ArrivalFits, here]; trivial)

theorem Clear.inputHandleOtherState (th : TcpHdr) (p : Impl) (clear : Clear bad t)
    (long : bad .trimFront → t.arrival th p ≠ .overrun)
    (fits : bad .windowAssertion → t.ArrivalFits th p) :
    Clear bad (t.inputHandleOtherState hw th p) := by
  unfold ArrivalFits at fits
  unfold Tcb.inputHandleOtherState
  split
  · rename_i overrun
    exact clear.fail fun isBad => long isBad overrun
  · exact clear.of_crash (output_crash t)
  · exact (clear.insertOutOfOrder _ _ tolerates.mergeError).of_crash (output_crash _)
  · rename_i segSeq data inOrder
    rw [inOrder] at fits
    exact clear.segmentInOrder tolerates th segSeq data fits

end

/-! ## The handshake -/

theorem enterSyn_crash (t : Tcb) (state : TcpState) : (t.enterSyn state).crash = t.crash :=
  output_crash _

/-- The header can be read and cut off, unless that is a bad crash. -/
theorem Clear.takeHeader (th : TcpHdr) (p : Impl) (clear : Clear bad t)
    (whole : bad .nullHeader ∨ bad .trimFront → ∃ opts, t.takeHeader th p = .ok opts) :
    ∀ t', t.takeHeader th p = .error t' → Clear bad t' := by
  intro t' failed
  have tolerated : ∀ c, c = .nullHeader ∨ c = .trimFront → ¬bad c := by
    intro c header isBad
    obtain ⟨opts, ok⟩ := whole (by rcases header with rfl | rfl <;> simp [isBad])
    rw [ok] at failed
    cases failed
  unfold Tcb.takeHeader at failed
  split at failed
  · split at failed
    · cases failed
    · cases failed
      exact clear.fail (tolerated _ (.inr rfl))
  · cases failed
    exact clear.fail (tolerated _ (.inl rfl))

theorem Clear.inputHandleListenState (beyond : Nat → Byte) (iss : TcpSeq) (th : TcpHdr) (p : Impl)
    (clear : Clear bad t)
    (whole : bad .nullHeader ∨ bad .trimFront →
      ∃ opts, { t with life := .inTable }.takeHeader th p = .ok opts) :
    Clear bad (t.inputHandleListenState hw beyond iss th p) := by
  have added : Clear bad { t with life := .inTable } := clear
  unfold Tcb.inputHandleListenState
  dsimp only
  split
  · rename_i failed
    exact added.takeHeader th p whole _ failed
  · exact clear.of_crash (enterSyn_crash _ _)

theorem Clear.inputHandleSynSentState (beyond : Nat → Byte) (th : TcpHdr) (p : Impl)
    (clear : Clear bad t)
    (whole : bad .nullHeader ∨ bad .trimFront → ∃ opts, t.takeHeader th p = .ok opts) :
    Clear bad (t.inputHandleSynSentState hw beyond th p) := by
  unfold Tcb.inputHandleSynSentState
  split
  · rename_i failed
    exact clear.takeHeader th p whole _ failed
  · dsimp only
    split
    · exact clear
    split
    · split <;> exact clear
    split
    · unfold Tcb.synInSynSent
      split
      · exact clear.of_crash (output_crash _)
      · exact clear.of_crash (enterSyn_crash (t.takeSyn th) _)
    · exact clear

end Tcb

end ActorNet.Tcp
