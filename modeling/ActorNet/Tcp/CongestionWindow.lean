import ActorNet.Tcp.FlightLimit
import ActorNet.Tcp.HandshakeParameters
import ActorNet.Tcp.SynAcknowledged

/-!
# The congestion window

The window is set by the handshake, grows with what is acknowledged, is inflated
and deflated in fast recovery, and falls to one segment at a timeout. It stays
open on the runs on which no step takes it to zero, which the size the peer
announces, the threshold and the size of an acknowledgement decide; and then
nothing is divided by zero, and no data waits for the congestion window alone.
-/

namespace ActorNet.Tcp

open Lib Net

/-- What paces a sender. Neither sending nor `can_send` changes it. -/
structure Pace where
  mss : BitVec 16
  cwnd : BitVec 32
  ssthresh : BitVec 32
  dupacks : BitVec 16
  recover : TcpSeq

namespace Tcb

variable {t t' : Tcb} {hw : HwFeatures}

def pace (t : Tcb) : Pace :=
  ⟨t.snd.mss, t.snd.cwnd, t.snd.ssthresh, t.snd.dupacks, t.snd.recover⟩

/-! ## What leaves the pace alone -/

theorem pace_of_snd (same : t'.snd = t.snd) : t'.pace = t.pace := by
  unfold pace
  rw [same]

@[simp] theorem output_pace (t : Tcb) : t.output.pace = t.pace := pace_of_snd (output_snd t)

@[simp] theorem canSend_pace (t : Tcb) : t.canSend.2.pace = t.pace := by
  unfold canSend
  dsimp only
  split_ifs <;> rfl

@[simp] theorem getTransmitPacket_pace (t : Tcb) : (t.getTransmitPacket hw).2.pace = t.pace := by
  unfold getTransmitPacket
  split
  · rfl
  · exact t.canSend_pace

@[simp] theorem emit_pace (t : Tcb) (r : Bool) (p : List Byte) : (t.emit r p).pace = t.pace := by
  have checked : ∀ (u : Tcb) (len : BitVec 16), (u.checkWindow len).pace = u.pace := by
    intro u len
    unfold checkWindow
    split <;> rfl
  have remembered : ∀ u : Tcb, (u.rememberSegment p).pace = u.pace := by
    intro u
    unfold rememberSegment
    dsimp only
    split <;> rfl
  cases r with
  | true => exact checked (t.takeNumbers true _) _
  | false => exact (checked _ _).trans (remembered (t.takeNumbers false _))

@[simp] theorem outputOne_pace (t : Tcb) (r : Bool) : (t.outputOne hw r).pace = t.pace := by
  unfold outputOne
  split
  · rfl
  split
  · exact emit_pace t true _
  · exact (emit_pace _ false _).trans t.getTransmitPacket_pace

theorem signalAllDataAcked_pace (t : Tcb) : t.signalAllDataAcked.pace = t.pace := by
  unfold signalAllDataAcked
  split <;> rfl

theorem signalSendAvailable_pace (t : Tcb) : t.signalSendAvailable.pace = t.pace := by
  unfold signalSendAvailable
  split <;> rfl

@[simp] theorem setRetransmitTimer_pace (t : Tcb) : t.setRetransmitTimer.pace = t.pace := by
  unfold setRetransmitTimer
  split
  · exact signalAllDataAcked_pace _
  · rfl

@[simp] theorem fastRetransmit_pace (t : Tcb) : (t.fastRetransmit hw).pace = t.pace := by
  unfold fastRetransmit
  split
  · rfl
  · rw [output_pace, outputOne_pace]
    rfl

theorem updateWindowIfNewer_pace (th : TcpHdr) (segSeq : TcpSeq) (t : Tcb) :
    (t.updateWindowIfNewer th segSeq).pace = t.pace := by
  unfold updateWindowIfNewer
  split <;> rfl

@[simp] theorem popPacket_pace (t : Tcb) : t.popPacket.pace = t.pace := by
  unfold popPacket
  split
  · rfl
  split
  · rfl
  · dsimp only
    split
    · exact output_pace _
    split
    · split
      · rw [output_pace, canSend_pace]
        rfl
      · exact canSend_pace _
    · rfl

@[simp] theorem getPacket_pace (t : Tcb) : (t.getPacket hw).pace = t.pace := by
  unfold getPacket
  rw [popPacket_pace]
  split
  · exact outputOne_pace _ false
  · rfl

@[simp] theorem send_pace (t : Tcb) (p : List Byte) : (t.send p).pace = t.pace := by
  have waits : ∀ u : Tcb, u.waitSendAvailable.pace = u.pace := fun _ => rfl
  unfold send
  split
  · rfl
  dsimp only
  rw [waits]
  split
  · rw [output_pace, canSend_pace]
    rfl
  · exact canSend_pace _

theorem persist_pace (t : Tcb) : (t.persist hw).pace = t.pace := by
  unfold persist
  show (output _).pace = _
  rw [output_pace]
  show (outputOne hw false _).pace = _
  rw [outputOne_pace]
  rfl

theorem abortReader_pace (t : Tcb) : t.abortReader.pace = t.pace := by
  unfold abortReader
  split <;> rfl

theorem close_pace (t : Tcb) : t.close.pace = t.pace := by
  unfold close
  split
  · rfl
  split <;> rfl

theorem shutdownConnect_pace (t : Tcb) : t.shutdownConnect.pace = t.pace := by
  unfold shutdownConnect
  split
  · rfl
  · exact (close_pace _).trans (abortReader_pace t)

theorem closeContinuation_pace (t : Tcb) : (t.closeContinuation hw).pace = t.pace := by
  unfold closeContinuation
  rw [output_pace, outputOne_pace]
  rfl

theorem arpTimeout_pace (t : Tcb) : t.arpTimeout.pace = t.pace := by
  unfold arpTimeout
  dsimp only
  split <;> rfl

theorem insertOutOfOrder_pace (seg : TcpSeq) (p : List Byte) (t : Tcb) :
    (t.insertOutOfOrder seg p).pace = t.pace := by
  unfold insertOutOfOrder
  split
  · rfl
  split <;> rfl

theorem checkFin_pace (th : TcpHdr) (finSeq : TcpSeq) (doOutput : Bool) (t : Tcb) :
    (reached (t.checkFin th finSeq doOutput)).pace = t.pace := by
  have taken := pace_of_snd (takeFin_snd finSeq t)
  unfold checkFin
  split
  · rfl
  split
  · rfl
  split
  · dsimp only
    split <;> exact taken
  · rfl

theorem outputAfter_pace (doOutput doOutputData : Bool) (t : Tcb) :
    (t.outputAfter doOutput doOutputData).pace = t.pace := by
  unfold outputAfter
  split
  · exact output_pace _
  split
  · dsimp only
    split
    · rw [output_pace]
      exact canSend_pace t
    · exact canSend_pace t
  · rfl

theorem afterAck_pace (th : TcpHdr) (segSeq : TcpSeq) (data : List Byte) (doOutputData : Bool)
    (t : Tcb) : (t.afterAck th segSeq data doOutputData).pace = t.pace := by
  refine @afterAck_of_steps t (fun u => u.pace = t.pace) th segSeq data doOutputData rfl ?_ ?_ ?_
  · exact fun _ => pace_of_snd (segmentText_snd data t)
  · exact fun u doOutput same => (checkFin_pace th _ doOutput u).trans same
  · exact fun u doOutput same => (outputAfter_pace doOutput doOutputData u).trans same

theorem ackOfFin_pace (th : TcpHdr) (t : Tcb) : (ended (t.ackOfFin th)).pace = t.pace := by
  unfold ackOfFin
  split
  · split <;> rfl
  · split <;> rfl
  · split <;> rfl
  · rfl

/-! ## Growth -/

/-- No window of the next acknowledgements is above this, but for one byte for
each of them. -/
def ceiling (t : Tcb) : Nat :=
  max t.snd.cwnd.toNat
    (max (t.snd.ssthresh.toNat + t.snd.mss.toNat) (t.snd.mss.toNat * t.snd.mss.toNat))

/-- `n` bytes are acknowledged in `k` steps, which make the window larger. -/
structure Grows (k : Nat) (n : BitVec 32) (t t' : Tcb) : Prop where
  mss : t'.snd.mss = t.snd.mss
  ssthresh : t'.snd.ssthresh = t.snd.ssthresh
  dupacks : t'.snd.dupacks = t.snd.dupacks
  recover : t'.snd.recover = t.snd.recover
  larger : t.snd.cwnd.toNat ≤ t'.snd.cwnd.toNat
  strictly : n ≠ 0 → t.snd.cwnd.toNat < t'.snd.cwnd.toNat
  ceiling : t'.ceiling ≤ t.ceiling + k
  undivided : t'.crash = some .divisionByZero → t.crash = some .divisionByZero

theorem Grows.refl (t : Tcb) : Grows 0 0 t t :=
  ⟨rfl, rfl, rfl, rfl, Nat.le_refl _, fun none => absurd rfl none, Nat.le_refl _,
    fun crashed => crashed⟩

theorem Grows.trans {k l : Nat} {n m : BitVec 32} {u : Tcb} (first : Grows k n t u)
    (second : Grows l m u t') : Grows (k + l) (n + m) t t' where
  mss := second.mss.trans first.mss
  ssthresh := second.ssthresh.trans first.ssthresh
  dupacks := second.dupacks.trans first.dupacks
  recover := second.recover.trans first.recover
  larger := Nat.le_trans first.larger second.larger
  strictly := by
    intro some_
    by_cases none : n = 0
    · have more : m ≠ 0 := fun none' => some_ (by rw [none, none']; rfl)
      exact Nat.lt_of_le_of_lt first.larger (second.strictly more)
    · exact Nat.lt_of_lt_of_le (first.strictly none) second.larger
  ceiling := by
    have := first.ceiling
    have := second.ceiling
    omega
  undivided := first.undivided ∘ second.undivided

theorem Grows.more {k l : Nat} {n : BitVec 32} (grows : Grows k n t t') (le : k ≤ l) :
    Grows l n t t' :=
  { grows with ceiling := Nat.le_trans grows.ceiling (Nat.add_le_add_left le _) }

theorem ceiling_of_pace (pace : t'.pace = t.pace) : t'.ceiling = t.ceiling := by
  have cwnd : t'.snd.cwnd = t.snd.cwnd := congrArg Pace.cwnd pace
  have ssthresh : t'.snd.ssthresh = t.snd.ssthresh := congrArg Pace.ssthresh pace
  have mss : t'.snd.mss = t.snd.mss := congrArg Pace.mss pace
  unfold ceiling
  rw [cwnd, ssthresh, mss]

/-- Only the pace and a division count. -/
theorem Grows.congr {k : Nat} {n : BitVec 32} {u : Tcb} (grows : Grows k n t u)
    (pace : t'.pace = u.pace) (crash : t'.crash = u.crash) : Grows k n t t' := by
  have cwnd : t'.snd.cwnd = u.snd.cwnd := congrArg Pace.cwnd pace
  refine ⟨(congrArg Pace.mss pace).trans grows.mss,
    (congrArg Pace.ssthresh pace).trans grows.ssthresh,
    (congrArg Pace.dupacks pace).trans grows.dupacks,
    (congrArg Pace.recover pace).trans grows.recover, ?_, ?_, ceiling_of_pace pace ▸ grows.ceiling,
    fun divided => grows.undivided (crash.symm.trans divided)⟩
  · rw [cwnd]
    exact grows.larger
  · rw [cwnd]
    exact grows.strictly

theorem Grows.since {k : Nat} {n : BitVec 32} {u : Tcb} (grows : Grows k n u t')
    (pace : u.pace = t.pace)
    (undivided : u.crash = some .divisionByZero → t.crash = some .divisionByZero) :
    Grows k n t t' := by
  have cwnd : u.snd.cwnd = t.snd.cwnd := congrArg Pace.cwnd pace
  refine ⟨grows.mss.trans (congrArg Pace.mss pace),
    grows.ssthresh.trans (congrArg Pace.ssthresh pace),
    grows.dupacks.trans (congrArg Pace.dupacks pace),
    grows.recover.trans (congrArg Pace.recover pace), ?_, ?_, ceiling_of_pace pace ▸ grows.ceiling,
    undivided ∘ grows.undivided⟩
  · rw [← cwnd]
    exact grows.larger
  · rw [← cwnd]
    exact grows.strictly

/-- A window and how often it goes into a square. -/
theorem add_div_le (c s : Nat) (open_ : 0 < c) : c + max 1 (s / c) ≤ max c s + 1 := by
  have product : c * (s / c) ≤ s := Nat.mul_div_le s c
  generalize s / c = q at product ⊢
  obtain ⟨c, rfl⟩ := Nat.exists_eq_add_of_lt open_
  cases q with
  | zero => omega
  | succ q =>
      have expand : (0 + c + 1) * (q + 1) = c * q + c + q + 1 := by ring
      have := Nat.zero_le (c * q)
      omega

theorem ne_zero_iff_toNat {w : Nat} {x : BitVec w} : x ≠ 0 ↔ 0 < x.toNat := by
  rw [Nat.pos_iff_ne_zero, not_iff_not]
  exact (@BitVec.toNat_inj w x 0#w).symm

theorem toNat_smss (mss : BitVec 16) : (mss.setWidth 32).toNat = mss.toNat := by
  rw [BitVec.toNat_setWidth]
  exact Nat.mod_eq_of_lt (by have := mss.isLt; omega)

theorem updateCwnd_grows (n : BitVec 32) (open_ : t.snd.cwnd ≠ 0) (mss : t.snd.mss ≠ 0)
    (room : t.ceiling + 1 < 2 ^ 32) : Grows 1 n t (t.updateCwnd n) := by
  rw [ne_zero_iff_toNat] at mss
  have positive := ne_zero_iff_toNat.mp open_
  unfold updateCwnd
  dsimp only
  by_cases slow : t.snd.cwnd < t.snd.ssthresh
  · -- Slow start: at most one segment more than a window below the threshold.
    rw [if_pos slow]
    have slow : t.snd.cwnd.toNat < t.snd.ssthresh.toNat := slow
    have least : t.snd.ssthresh.toNat + t.snd.mss.toNat ≤ t.ceiling := by
      unfold ceiling
      omega
    have sum : (t.snd.cwnd + min n (t.snd.mss.setWidth 32)).toNat =
        t.snd.cwnd.toNat + min n.toNat t.snd.mss.toNat := by
      rw [BitVec.toNat_add, toNat_min, toNat_smss]
      exact Nat.mod_eq_of_lt (by omega)
    refine ⟨rfl, rfl, rfl, rfl, ?_, ?_, ?_, fun crashed => crashed⟩
    · show _ ≤ (t.snd.cwnd + min n (t.snd.mss.setWidth 32)).toNat
      omega
    · intro some_
      rw [ne_zero_iff_toNat] at some_
      show _ < (t.snd.cwnd + min n (t.snd.mss.setWidth 32)).toNat
      omega
    · show max (t.snd.cwnd + min n (t.snd.mss.setWidth 32)).toNat _ ≤ _
      rw [sum]
      unfold ceiling at *
      dsimp only
      omega
  · rw [if_neg slow, if_neg open_]
    -- Congestion avoidance: the square of a segment divided by the window.
    have square : (t.snd.mss.setWidth 32 * t.snd.mss.setWidth 32).toNat =
        t.snd.mss.toNat * t.snd.mss.toNat := by
      rw [BitVec.toNat_mul, toNat_smss]
      refine Nat.mod_eq_of_lt ?_
      calc t.snd.mss.toNat * t.snd.mss.toNat
        _ ≤ 65535 * 65535 := Nat.mul_le_mul (by have := t.snd.mss.isLt; omega)
            (by have := t.snd.mss.isLt; omega)
        _ < 2 ^ 32 := by decide
    have least : max t.snd.cwnd.toNat (t.snd.mss.toNat * t.snd.mss.toNat) ≤ t.ceiling := by
      unfold ceiling
      omega
    have bound := add_div_le t.snd.cwnd.toNat (t.snd.mss.toNat * t.snd.mss.toNat) positive
    have sum : (t.snd.cwnd + max 1 (t.snd.mss.setWidth 32 * t.snd.mss.setWidth 32 / t.snd.cwnd)).toNat =
        t.snd.cwnd.toNat + max 1 (t.snd.mss.toNat * t.snd.mss.toNat / t.snd.cwnd.toNat) := by
      rw [BitVec.toNat_add, toNat_max, BitVec.toNat_udiv, square]
      exact Nat.mod_eq_of_lt (by
        have one : (1 : BitVec 32).toNat = 1 := rfl
        omega)
    refine ⟨rfl, rfl, rfl, rfl, ?_, fun _ => ?_, ?_, fun crashed => crashed⟩
    · show _ ≤ (t.snd.cwnd + max 1 _).toNat
      omega
    · show _ < (t.snd.cwnd + max 1 _).toNat
      omega
    · show max (t.snd.cwnd + max 1 _).toNat _ ≤ _
      rw [sum]
      unfold ceiling at *
      dsimp only
      omega

theorem wholeSegmentsAcked_grows (segAck : TcpSeq) (segs : List UnackedSegment) (t : Tcb)
    (open_ : t.snd.cwnd ≠ 0) (mss : t.snd.mss ≠ 0) (room : t.ceiling + segs.length < 2 ^ 32) :
    Grows segs.length (wholeSegmentsAcked segAck segs t).1 t
      (wholeSegmentsAcked segAck segs t).2 := by
  induction segs generalizing t with
  | nil => exact (Grows.refl t).congr rfl rfl
  | cons seg rest ih =>
      rw [List.length_cons] at room ⊢
      unfold wholeSegmentsAcked
      split
      · have onward : ∀ u, Grows 1 (BitVec.ofNat 32 seg.p.length) t u →
            Grows (rest.length + 1)
              (BitVec.ofNat 32 seg.p.length + (wholeSegmentsAcked segAck rest u).1) t
              (wholeSegmentsAcked segAck rest u).2 := by
          intro u next
          have wide := Nat.lt_of_lt_of_le (ne_zero_iff_toNat.mp open_) next.larger
          have := next.ceiling
          rw [Nat.add_comm rest.length 1]
          exact next.trans (ih u (ne_zero_iff_toNat.mpr wide) (next.mss ▸ mss) (by omega))
        have first := @updateCwnd_grows { t with snd := { t.snd with
            unacknowledged := t.snd.unacknowledged + seg.p.length } }
          (BitVec.ofNat 32 seg.p.length) open_ mss (show t.ceiling + 1 < 2 ^ 32 by omega)
        refine onward _ (Grows.congr ?_ (signalSendAvailable_pace _) (signalSendAvailable_crash _))
        have grown := @Grows.since t _ _ _ _ first rfl fun crashed => crashed
        exact grown.congr rfl rfl
      · exact ((Grows.refl t).more (Nat.zero_le _)).congr rfl rfl

theorem partOfSegmentAcked_grows (segAck : TcpSeq) (t : Tcb) (open_ : t.snd.cwnd ≠ 0)
    (mss : t.snd.mss ≠ 0) (room : t.ceiling + 1 < 2 ^ 32) :
    Grows 1 (t.partOfSegmentAcked segAck).1 t (t.partOfSegmentAcked segAck).2 := by
  unfold partOfSegmentAcked
  split
  · dsimp only
    -- What is cut off the first segment does not matter to the window.
    have grown : ∀ u : Tcb, u.pace = t.pace →
        (u.crash = some .divisionByZero → t.crash = some .divisionByZero) →
        Grows 1 (segAck - t.snd.unacknowledged) t
          ({ u with snd := { u.snd with unacknowledged := segAck } }.updateCwnd
            (segAck - t.snd.unacknowledged)) := by
      intro u pace undivided
      have cwnd : u.snd.cwnd = t.snd.cwnd := congrArg Pace.cwnd pace
      have size : u.snd.mss = t.snd.mss := congrArg Pace.mss pace
      have grows := @updateCwnd_grows { u with snd := { u.snd with unacknowledged := segAck } }
        (segAck - t.snd.unacknowledged) (cwnd ▸ open_) (size ▸ mss) (ceiling_of_pace pace ▸ room)
      exact @Grows.since t _ _ _ _ grows pace undivided
    apply grown
    · split
      · rfl
      · split <;> rfl
    · split
      · exact fun crashed => crashed
      · split
        · intro crashed
          unfold fail at crashed
          cases before : t.crash with
          | some c =>
              dsimp only at crashed
              rw [before] at crashed
              exact crashed
          | none =>
              dsimp only at crashed
              rw [before] at crashed
              cases crashed
        · exact fun crashed => crashed
  · exact (Grows.refl t).more (Nat.zero_le 1)

theorem dataSegmentAcked_grows (segAck : TcpSeq) (t : Tcb) (open_ : t.snd.cwnd ≠ 0)
    (mss : t.snd.mss ≠ 0) (room : t.ceiling + t.snd.data.length + 1 < 2 ^ 32) :
    Grows (t.snd.data.length + 1) (t.dataSegmentAcked segAck).1 t (t.dataSegmentAcked segAck).2 := by
  have whole := wholeSegmentsAcked_grows segAck t.snd.data t open_ mss (by omega)
  have wide := Nat.lt_of_lt_of_le (ne_zero_iff_toNat.mp open_) whole.larger
  have := whole.ceiling
  have part := partOfSegmentAcked_grows segAck (wholeSegmentsAcked segAck t.snd.data t).2
    (ne_zero_iff_toNat.mpr wide) (whole.mss ▸ mss) (by omega)
  exact whole.trans part

/-! ## How much is acknowledged -/

/-- The loop counts how far it moves SND.UNA, and does not pass the acknowledgement. -/
theorem wholeSegmentsAcked_total (segAck : TcpSeq) (segs : List UnackedSegment) (t : Tcb)
    (before : t.snd.unacknowledged < segAck ∨ t.snd.unacknowledged ≤ segAck) :
    (wholeSegmentsAcked segAck segs t).1 =
        (wholeSegmentsAcked segAck segs t).2.snd.unacknowledged - t.snd.unacknowledged ∧
      ((wholeSegmentsAcked segAck segs t).2.snd.unacknowledged < segAck ∨
        (wholeSegmentsAcked segAck segs t).2.snd.unacknowledged ≤ segAck) := by
  induction segs generalizing t with
  | nil => exact ⟨(BitVec.sub_self _).symm, before⟩
  | cons seg rest ih =>
      unfold wholeSegmentsAcked
      split
      · rename_i inside
        have onward : ∀ u : Tcb, u.snd.unacknowledged = t.snd.unacknowledged + seg.p.length →
            BitVec.ofNat 32 seg.p.length + (wholeSegmentsAcked segAck rest u).1 =
                (wholeSegmentsAcked segAck rest u).2.snd.unacknowledged - t.snd.unacknowledged ∧
              ((wholeSegmentsAcked segAck rest u).2.snd.unacknowledged < segAck ∨
                (wholeSegmentsAcked segAck rest u).2.snd.unacknowledged ≤ segAck) := by
          intro u moved
          obtain ⟨total, ends⟩ := ih u (.inr (moved ▸ inside))
          refine ⟨?_, ends⟩
          rw [total, moved]
          show BitVec.ofNat 32 seg.p.length + (_ - (t.snd.unacknowledged.raw + _)) = _ - _
          grind
        exact onward _ ((congrArg Bearing.unacknowledged (signalSendAvailable_bearing _)).trans
          (congrArg Bearing.unacknowledged (updateCwnd_bearing _ _)))
      · exact ⟨(BitVec.sub_self _).symm, before⟩

/-- All that lies between SND.UNA and the acknowledgement is counted. -/
theorem dataSegmentAcked_total {segAck : TcpSeq} (new : t.snd.unacknowledged < segAck) :
    (t.dataSegmentAcked segAck).1 = segAck - t.snd.unacknowledged := by
  obtain ⟨total, ends⟩ := wholeSegmentsAcked_total segAck t.snd.data t (.inl new)
  unfold dataSegmentAcked
  show (wholeSegmentsAcked segAck t.snd.data t).1 + (partOfSegmentAcked segAck _).1 = _
  generalize (wholeSegmentsAcked segAck t.snd.data t).2 = u at total ends
  rw [total]
  unfold partOfSegmentAcked
  split
  · show u.snd.unacknowledged.raw - t.snd.unacknowledged.raw +
      (segAck.raw - u.snd.unacknowledged.raw) = _ - _
    grind
  · rename_i reached
    have same : segAck = u.snd.unacknowledged := by
      by_contra other
      exact reached (TcpSeq.lt_of_le_of_ne (ends.resolve_left reached) other)
    rw [same]
    exact BitVec.add_zero _

/-- Acknowledgements take segments out of the flight, or parts of them. -/
theorem wholeSegmentsAcked_inFlight (segAck : TcpSeq) (segs : List UnackedSegment) (t : Tcb) :
    (wholeSegmentsAcked segAck segs t).2.inFlight ≤ (segs.map fun seg => seg.p.length).sum := by
  induction segs generalizing t with
  | nil => exact Nat.le_refl 0
  | cons seg rest ih =>
      unfold wholeSegmentsAcked
      split
      · dsimp only
        refine Nat.le_trans (ih _) ?_
        rw [List.map_cons, List.sum_cons]
        omega
      · exact Nat.le_refl _

theorem partOfSegmentAcked_inFlight (segAck : TcpSeq) (t : Tcb) :
    (t.partOfSegmentAcked segAck).2.inFlight ≤ t.inFlight := by
  have same : ∀ (u : Tcb) (n : BitVec 32), (u.updateCwnd n).inFlight = u.inFlight := by
    intro u n
    unfold updateCwnd
    dsimp only
    split
    · rfl
    split <;> rfl
  unfold partOfSegmentAcked
  split
  · dsimp only
    rw [same]
    cases flight : t.snd.data with
    | nil =>
        unfold inFlight
        rw [flight]
    | cons seg rest =>
        unfold inFlight
        rw [flight]
        simp only [List.map_cons, List.sum_cons, List.length_drop]
        omega
  · exact Nat.le_refl _

theorem dataSegmentAcked_inFlight (segAck : TcpSeq) (t : Tcb) :
    (t.dataSegmentAcked segAck).2.inFlight ≤ t.inFlight :=
  Nat.le_trans (partOfSegmentAcked_inFlight segAck _)
    (wholeSegmentsAcked_inFlight segAck t.snd.data t)

/-! ## What an acknowledgement makes of the window -/

theorem newDataAcked_cwnd (th : TcpHdr) (n : BitVec 32) (t : Tcb) :
    (t.newDataAcked hw th n).snd.cwnd =
      if 3 ≤ t.snd.dupacks then
        if t.snd.recover < th.ack then
          min t.snd.ssthresh
            (max t.flightSize (t.snd.mss.setWidth 32) + t.snd.mss.setWidth 32)
        else if t.snd.mss.setWidth 32 ≤ n then t.snd.cwnd - n + t.snd.mss.setWidth 32
        else t.snd.cwnd - n
      else t.snd.cwnd := by
  unfold newDataAcked
  split
  · split
    · exact congrArg Pace.cwnd (setRetransmitTimer_pace _)
    · have cwnd : (t.fastRetransmit hw).snd.cwnd = t.snd.cwnd :=
        congrArg Pace.cwnd (fastRetransmit_pace t)
      have mss : (t.fastRetransmit hw).snd.mss = t.snd.mss :=
        congrArg Pace.mss (fastRetransmit_pace t)
      rw [← cwnd, ← mss]
      unfold partialAck
      dsimp only
      split <;> rfl
  · exact congrArg Pace.cwnd (setRetransmitTimer_pace _)

theorem thirdDuplicateAck_cwnd (th : TcpHdr) (t : Tcb) :
    (t.thirdDuplicateAck hw th).snd.cwnd =
      (if t.snd.recover < th.ack - 1 then
        max ((t.flightSize - t.snd.limitedTransfer) / 2) (2 * t.snd.mss.setWidth 32)
      else t.snd.ssthresh) + 3 * t.snd.mss.setWidth 32 := by
  unfold thirdDuplicateAck
  dsimp only
  split
  · exact congrArg (· + _) (congrArg Pace.ssthresh (fastRetransmit_pace _))
  · rfl

theorem duplicateAck_cwnd (th : TcpHdr) (t : Tcb) :
    (t.duplicateAck hw th).1.snd.cwnd =
      if t.snd.dupacks + 1 = 3 then
        (if t.snd.recover < th.ack - 1 then
          max ((t.flightSize - t.snd.limitedTransfer) / 2) (2 * t.snd.mss.setWidth 32)
        else t.snd.ssthresh) + 3 * t.snd.mss.setWidth 32
      else if 3 < t.snd.dupacks + 1 then t.snd.cwnd + t.snd.mss.setWidth 32
      else t.snd.cwnd := by
  unfold duplicateAck
  dsimp only
  split
  · rename_i early
    have notThird : ¬t.snd.dupacks + 1 = 3 := by
      rcases early with one | two
      · rw [one]
        decide
      · rw [two]
        decide
    have notMore : ¬3 < t.snd.dupacks + 1 := by
      rcases early with one | two
      · rw [one]
        decide
      · rw [two]
        decide
    rw [if_neg notThird, if_neg notMore]
  split
  · exact thirdDuplicateAck_cwnd th _
  split <;> rfl

/-- What a full acknowledgement sets the window to. -/
theorem full_ne_zero {ssthresh flight : BitVec 32} {mss : BitVec 16} (threshold : ssthresh ≠ 0)
    (some_ : mss ≠ 0) (few : flight.toNat + mss.toNat < 2 ^ 32) :
    min ssthresh (max flight (mss.setWidth 32) + mss.setWidth 32) ≠ 0 := by
  have bound := mss.isLt
  have sum : (max flight (mss.setWidth 32) + mss.setWidth 32).toNat =
      max flight.toNat mss.toNat + mss.toNat := by
    rw [BitVec.toNat_add, toNat_max, toNat_smss]
    exact Nat.mod_eq_of_lt (by omega)
  rw [ne_zero_iff_toNat] at threshold some_
  rw [ne_zero_iff_toNat, toNat_min, sum]
  omega

/-- A partial one takes off no more than there is, and less if it adds nothing. -/
theorem partial_ne_zero {cwnd n : BitVec 32} {mss : BitVec 16} (some_ : mss ≠ 0)
    (within : n.toNat < cwnd.toNat ∨ n.toNat ≤ cwnd.toNat ∧ mss.toNat ≤ n.toNat) :
    (if mss.setWidth 32 ≤ n then cwnd - n + mss.setWidth 32 else cwnd - n) ≠ 0 := by
  have le : n.toNat ≤ cwnd.toNat := by omega
  have left : (cwnd - n).toNat = cwnd.toNat - n.toNat := BitVec.toNat_sub_of_le le
  rw [ne_zero_iff_toNat] at some_
  split
  · rename_i whole
    have whole : mss.toNat ≤ n.toNat := toNat_smss mss ▸ BitVec.le_def.mp whole
    have bound := cwnd.isLt
    rw [ne_zero_iff_toNat, BitVec.toNat_add, left, toNat_smss, Nat.mod_eq_of_lt (by omega)]
    omega
  · rename_i less
    have less : ¬mss.toNat ≤ n.toNat := by
      rw [← toNat_smss]
      exact less
    rw [ne_zero_iff_toNat, left]
    omega

/-- The third duplicate sets the threshold to half of what is in flight, or to two
segments, and the window three segments above. -/
theorem third_ne_zero {flight : BitVec 32} {mss : BitVec 16} (some_ : mss ≠ 0) :
    max (flight / 2) (2 * mss.setWidth 32) + 3 * mss.setWidth 32 ≠ 0 := by
  have bound := mss.isLt
  have twice : (2 * mss.setWidth 32).toNat = 2 * mss.toNat := by
    rw [BitVec.toNat_mul, toNat_smss]
    refine Nat.mod_eq_of_lt ?_
    show 2 * mss.toNat < 2 ^ 32
    omega
  have thrice : (3 * mss.setWidth 32).toNat = 3 * mss.toNat := by
    rw [BitVec.toNat_mul, toNat_smss]
    refine Nat.mod_eq_of_lt ?_
    show 3 * mss.toNat < 2 ^ 32
    omega
  have half : (flight / 2).toNat < 2 ^ 31 := by
    have two : (2 : BitVec 32).toNat = 2 := rfl
    have := flight.isLt
    rw [BitVec.toNat_udiv, two]
    omega
  rw [ne_zero_iff_toNat] at some_
  rw [ne_zero_iff_toNat, BitVec.toNat_add, toNat_max, twice, thrice, Nat.mod_eq_of_lt (by omega)]
  omega

/-! ## What an acknowledgement has to meet -/

/-- Of new data: the window has room to grow. One that ends fast recovery finds
a threshold above zero, and one that leaves data of the recovery is no larger
than the window. -/
def NewDataFits (th : TcpHdr) (t : Tcb) : Prop :=
  t.ceiling + t.snd.data.length + 1 < 2 ^ 32 ∧
    (3 ≤ t.snd.dupacks →
      if t.snd.recover < th.ack then
        t.snd.ssthresh ≠ 0 ∧ t.inFlight + t.snd.mss.toNat < 2 ^ 32
      else (th.ack - t.snd.unacknowledged).toNat ≤ t.snd.cwnd.toNat)

/-- A duplicate: what is added to the window does not carry it over to zero. -/
def DuplicateFits (th : TcpHdr) (t : Tcb) : Prop :=
  (t.snd.dupacks + 1 = 3 → ¬t.snd.recover < th.ack - 1 →
    t.snd.ssthresh + 3 * t.snd.mss.setWidth 32 ≠ 0) ∧
  (3 < t.snd.dupacks + 1 → t.snd.cwnd + t.snd.mss.setWidth 32 ≠ 0)

def AckFits (th : TcpHdr) (segLen : Nat) (t : Tcb) : Prop :=
  if t.snd.unacknowledged < th.ack ∧ th.ack ≤ t.snd.next then t.NewDataFits th
  else t.isDuplicateAck th segLen = true → t.DuplicateFits th

instance (th : TcpHdr) (t : Tcb) : Decidable (t.NewDataFits th) := by
  unfold NewDataFits
  infer_instance

instance (th : TcpHdr) (t : Tcb) : Decidable (t.DuplicateFits th) := by
  unfold DuplicateFits
  infer_instance

instance (th : TcpHdr) (segLen : Nat) (t : Tcb) : Decidable (t.AckFits th segLen) := by
  unfold AckFits
  infer_instance

/-- What a partial acknowledgement takes off the window is no more than it has
grown to by then. -/
def DeflatesWithin (th : TcpHdr) (t : Tcb) : Prop :=
  t.snd.unacknowledged < th.ack ∧ th.ack ≤ t.snd.next →
    3 ≤ (t.dataSegmentAcked th.ack).2.snd.dupacks →
    ¬(t.dataSegmentAcked th.ack).2.snd.recover < th.ack →
    (t.dataSegmentAcked th.ack).1 ≤ (t.dataSegmentAcked th.ack).2.snd.cwnd

/-! ## The window stays open -/

/-- The crash that is followed here. -/
abbrev IsDivision (c : Crash) : Prop := c = .divisionByZero

/-- The window of a block that is alive is open, and so is the size of its segments. -/
structure Primed (alive : Prop) (t : Tcb) : Prop where
  cwnd : alive → t.snd.cwnd ≠ 0
  mss : alive → t.snd.mss ≠ 0
  undivided : Clear IsDivision t

variable {alive : Prop}

theorem Primed.of_pace (primed : Primed alive t) (pace : t'.pace = t.pace)
    (undivided : Clear IsDivision t') : Primed alive t' where
  cwnd := by
    rw [show t'.snd.cwnd = t.snd.cwnd from congrArg Pace.cwnd pace]
    exact primed.cwnd
  mss := by
    rw [show t'.snd.mss = t.snd.mss from congrArg Pace.mss pace]
    exact primed.mss
  undivided := undivided

theorem Grows.clear {k : Nat} {n : BitVec 32} (grows : Grows k n t t') (clear : Clear IsDivision t) :
    Clear IsDivision t' := by
  rintro c crashed rfl
  exact clear _ (grows.undivided crashed) rfl

/-- After new data was acknowledged, for the rest of `ackNewData`. -/
theorem ackNewData_grows (th : TcpHdr) (open_ : t.snd.cwnd ≠ 0) (mss : t.snd.mss ≠ 0)
    (fits : t.NewDataFits th) :
    Grows (t.snd.data.length + 1) (t.dataSegmentAcked th.ack).1 t
      (t.dataSegmentAcked th.ack).2 :=
  dataSegmentAcked_grows th.ack t open_ mss fits.1

/-- What fits the window before the acknowledgement fits it afterwards. -/
theorem deflatesWithin_of_fits {th : TcpHdr} (open_ : t.snd.cwnd ≠ 0) (mss : t.snd.mss ≠ 0)
    (fits : t.NewDataFits th) : t.DeflatesWithin th := by
  intro new recovering partly
  have grows := ackNewData_grows th open_ mss fits
  rw [grows.dupacks] at recovering
  rw [grows.recover] at partly
  have small := fits.2 recovering
  rw [if_neg partly, ← dataSegmentAcked_total new.1] at small
  exact BitVec.le_def.mpr (Nat.le_trans small grows.larger)

theorem ackNewData_cwnd_ne_zero {th : TcpHdr} (segSeq : TcpSeq) (open_ : t.snd.cwnd ≠ 0)
    (mss : t.snd.mss ≠ 0) (fits : t.NewDataFits th)
    (new : t.snd.unacknowledged < th.ack ∧ th.ack ≤ t.snd.next) :
    (t.ackNewData hw th segSeq).snd.cwnd ≠ 0 := by
  have grows := ackNewData_grows th open_ mss fits
  have within := deflatesWithin_of_fits open_ mss fits new
  have total := dataSegmentAcked_total new.1
  have fewer := dataSegmentAcked_inFlight th.ack t
  unfold ackNewData
  generalize t.dataSegmentAcked th.ack = acked at grows within total fewer ⊢
  obtain ⟨n, u⟩ := acked
  dsimp only at grows within total fewer
  show (newDataAcked hw th n (u.updateWindowIfNewer th segSeq)).snd.cwnd ≠ 0
  have pace := updateWindowIfNewer_pace th segSeq u
  have flight : (u.updateWindowIfNewer th segSeq).flightSize = u.flightSize := by
    unfold updateWindowIfNewer
    split <;> rfl
  rw [newDataAcked_cwnd, flight,
    show (u.updateWindowIfNewer th segSeq).snd.cwnd = u.snd.cwnd from congrArg Pace.cwnd pace,
    show (u.updateWindowIfNewer th segSeq).snd.mss = t.snd.mss from
      (congrArg Pace.mss pace).trans grows.mss,
    show (u.updateWindowIfNewer th segSeq).snd.ssthresh = t.snd.ssthresh from
      (congrArg Pace.ssthresh pace).trans grows.ssthresh,
    show (u.updateWindowIfNewer th segSeq).snd.dupacks = t.snd.dupacks from
      (congrArg Pace.dupacks pace).trans grows.dupacks,
    show (u.updateWindowIfNewer th segSeq).snd.recover = t.snd.recover from
      (congrArg Pace.recover pace).trans grows.recover]
  rw [grows.dupacks, grows.recover] at within
  split
  · rename_i recovering
    have finds := fits.2 recovering
    split
    · rename_i full
      rw [if_pos full] at finds
      have flight := toNat_flightSize_of_lt (show u.inFlight < 2 ^ 32 by omega)
      exact full_ne_zero finds.1 mss (by omega)
    · rename_i partly
      have some_ : n ≠ 0 := by
        rw [total]
        exact TcpSeq.sub_ne_zero new.1
      rw [if_neg partly, ← total] at finds
      exact partial_ne_zero mss (.inl (Nat.lt_of_le_of_lt finds (grows.strictly some_)))
  · exact ne_zero_iff_toNat.mpr (Nat.lt_of_lt_of_le (ne_zero_iff_toNat.mp open_) grows.larger)

theorem duplicateAck_cwnd_ne_zero {th : TcpHdr} (open_ : t.snd.cwnd ≠ 0) (mss : t.snd.mss ≠ 0)
    (fits : t.DuplicateFits th) : (t.duplicateAck hw th).1.snd.cwnd ≠ 0 := by
  rw [duplicateAck_cwnd]
  split
  · rename_i third
    split
    · exact third_ne_zero mss
    · rename_i stale
      exact fits.1 third stale
  split
  · rename_i more
    exact fits.2 more
  · exact open_

theorem mss_of_standing (same : t'.standing = t.standing) : t'.snd.mss = t.snd.mss :=
  congrArg Standing.mss same

theorem Primed.ackNewData {th : TcpHdr} (segSeq : TcpSeq) (primed : Primed alive t) (live : alive)
    (new : t.snd.unacknowledged < th.ack ∧ th.ack ≤ t.snd.next) (fits : t.NewDataFits th) :
    Primed alive (t.ackNewData hw th segSeq) := by
  have open_ := primed.cwnd live
  have size := primed.mss live
  refine ⟨fun _ => ?_, fun _ => ?_, ?_⟩
  · exact @ackNewData_cwnd_ne_zero t hw th segSeq open_ size fits new
  · rw [mss_of_standing (ackNewData_standing th segSeq t)]
    exact size
  · have acked := (ackNewData_grows th open_ size fits).clear primed.undivided
    have newer := acked.of_crash (updateWindowIfNewer_crash th segSeq _)
    unfold Tcb.ackNewData
    exact newer.newDataAcked th _ fun isBad => by cases isBad

theorem Primed.duplicateAck {th : TcpHdr} (primed : Primed alive t) (fits : t.DuplicateFits th) :
    Primed alive (t.duplicateAck hw th).1 := by
  refine ⟨fun live => ?_, fun live => ?_, ?_⟩
  · exact duplicateAck_cwnd_ne_zero (primed.cwnd live) (primed.mss live) fits
  · rw [mss_of_standing (standing_of_bearing (duplicateAck_bearing th t))]
    exact primed.mss live
  · exact primed.undivided.duplicateAck th fun isBad => by cases isBad

theorem Primed.ackInEstablished (th : TcpHdr) (segSeq : TcpSeq) (segLen : Nat)
    (primed : Primed alive t) (live : t.inState [.established, .closeWait] = true → alive)
    (fits : t.inState [.established, .closeWait] = true → t.AckFits th segLen) :
    Primed alive (reached (t.ackInEstablished hw th segSeq segLen)) := by
  unfold AckFits at fits
  refine @reached_ackInEstablished hw (Primed alive) t th segSeq segLen primed ?_ ?_ ?_ ?_
  · intro here new
    rw [if_pos new] at fits
    exact primed.ackNewData segSeq (live here) new (fits here)
  · intro here old duplicate
    rw [if_neg old] at fits
    exact primed.duplicateAck (fits here duplicate)
  · exact primed.of_pace (output_pace t) (primed.undivided.of_crash (output_crash t))
  · exact primed.of_pace rfl primed.undivided

/-- Where the processing in ESTABLISHED and CLOSE_WAIT finds the block, and the
length of the text behind the acknowledgement. -/
def acknowledging (th : TcpHdr) (p : Impl) (t : Tcb) : Option (Nat × Tcb) :=
  match t.arrival th p with
  | .inOrder _ data =>
      if th.fRst || th.fSyn || !th.fAck then none
      else match t.ackInSynReceived th with
        | .ok u => if u.inState [.established, .closeWait] then some (data.length, u) else none
        | .error _ => none
  | _ => none

/-- Whoever takes an acknowledgement in ESTABLISHED or CLOSE_WAIT has been there
before, or in SYN_RECEIVED. -/
theorem ackInSynReceived_alive {th : TcpHdr} {u : Tcb} (opened : t.ackInSynReceived th = .ok u)
    (here : u.inState [.established, .closeWait] = true) :
    t.ackNeedsOn = true ∧ u.pace = t.pace := by
  have outside : ∀ states : List TcpState, t.inState states = true →
      (∀ s ∈ states, s ∉ [TcpState.closed, .listen, .synSent]) → t.ackNeedsOn = true := by
    intro states there apart
    unfold ackNeedsOn inState
    rw [Bool.not_eq_true', decide_eq_false_iff_not]
    exact apart _ (of_decide_eq_true there)
  unfold ackInSynReceived at opened
  split at opened
  · rename_i handshake
    split at opened
    · cases opened
      exact ⟨outside _ handshake (by decide), rfl⟩
    · cases opened
  · cases opened
    exact ⟨outside _ here (by decide), rfl⟩

theorem acknowledging_pace {th : TcpHdr} {p : Impl} {found : Nat × Tcb}
    (mem : found ∈ t.acknowledging th p) : t.ackNeedsOn = true ∧ found.2.pace = t.pace := by
  unfold acknowledging at mem
  split at mem
  · split at mem
    · cases mem
    split at mem
    · rename_i opened
      split at mem
      · rename_i here
        cases mem
        exact ackInSynReceived_alive opened here
      · cases mem
    · cases mem
  · cases mem

theorem Primed.checkAck (th : TcpHdr) (segSeq : TcpSeq) (segLen : Nat) (primed : Primed alive t)
    (live : t.ackNeedsOn = true → alive)
    (fits : ∀ u, t.ackInSynReceived th = .ok u → u.inState [.established, .closeWait] = true →
      u.AckFits th segLen) : Primed alive (reached (t.checkAck hw th segSeq segLen)) := by
  refine checkAck_of_steps ?_ ?_ ?_
  · unfold ackInSynReceived
    split
    · split
      · exact primed.of_pace rfl primed.undivided
      · exact primed.of_pace rfl primed.undivided
    · exact primed
  · intro u opened begun
    exact begun.ackInEstablished th segSeq segLen
      (fun here => live (ackInSynReceived_alive opened here).1) (fits u opened)
  · exact fun u acked => acked.of_pace (ackOfFin_pace th u) (by
      unfold ackOfFin
      split
      · split <;> exact acked.undivided
      · split <;> exact acked.undivided
      · split <;> exact acked.undivided
      · exact acked.undivided)

theorem Primed.segmentInOrder (th : TcpHdr) (segSeq : TcpSeq) (data : List Byte)
    (primed : Primed alive t) (live : t.ackNeedsOn = true → alive)
    (fits : th.fRst = false → th.fSyn = false → th.fAck = true →
      ∀ u, t.ackInSynReceived th = .ok u → u.inState [.established, .closeWait] = true →
        u.AckFits th data.length) : Primed alive (t.segmentInOrder hw th segSeq data) := by
  apply segmentInOrder_of_ack
  · exact primed.of_pace rfl primed.undivided
  · exact primed.of_pace rfl primed.undivided
  · exact primed.of_pace rfl primed.undivided
  · exact primed.of_pace rfl primed.undivided
  · exact primed
  · intro noRst noSyn ack
    refine checked_of_steps (primed.checkAck th segSeq data.length live ?_) ?_
    · cases rst : th.fRst with
      | true =>
          obtain ⟨past, outside⟩ := noRst rst
          intro u opened here
          cases (ackInSynReceived_past th past).symm.trans opened
          exact absurd (outside.symm.trans here) Bool.false_ne_true
      | false => exact fits rst noSyn ack
    · exact fun u doOutputData acked => acked.of_pace (afterAck_pace th segSeq data doOutputData u)
        (acked.undivided.afterAck th segSeq data doOutputData)

theorem Primed.inputHandleOtherState (th : TcpHdr) (p : Impl) (primed : Primed alive t)
    (live : t.ackNeedsOn = true → alive)
    (fits : ∀ found ∈ t.acknowledging th p, found.2.AckFits th found.1) :
    Primed alive (t.inputHandleOtherState hw th p) := by
  unfold acknowledging at fits
  unfold Tcb.inputHandleOtherState
  split
  · exact primed.of_pace rfl (primed.undivided.fail (by decide))
  · exact primed.of_pace (output_pace t) (primed.undivided.of_crash (output_crash t))
  · exact primed.of_pace ((output_pace _).trans (insertOutOfOrder_pace _ _ t))
      ((primed.undivided.insertOutOfOrder _ _ (by decide)).of_crash (output_crash _))
  · rename_i segSeq data inOrder
    rw [inOrder] at fits
    refine primed.segmentInOrder th segSeq data live fun noRst noSyn ack u opened here => ?_
    refine fits (data.length, u) ?_
    dsimp only
    rw [noRst, noSyn, ack, opened]
    dsimp only
    rw [if_pos here]
    rfl

/-! ## Timers -/

/-- The window is what it was, or one segment, as after a timeout. -/
def Restarts (t t' : Tcb) : Prop :=
  t'.snd.mss = t.snd.mss ∧
    (t'.snd.cwnd = t.snd.cwnd ∨ t'.snd.cwnd = t.snd.mss.setWidth 32)

theorem Restarts.of_pace (same : t'.pace = t.pace) : Restarts t t' :=
  ⟨congrArg Pace.mss same, .inl (congrArg Pace.cwnd same)⟩

theorem Restarts.since {u : Tcb} (restarts : Restarts u t') (same : u.pace = t.pace) :
    Restarts t t' := by
  have cwnd : u.snd.cwnd = t.snd.cwnd := congrArg Pace.cwnd same
  have mss : u.snd.mss = t.snd.mss := congrArg Pace.mss same
  unfold Restarts at *
  rwa [cwnd, mss] at restarts

theorem outputUpdateRto_pace (t : Tcb) : t.outputUpdateRto.pace = t.pace :=
  pace_of_snd (outputUpdateRto_snd t)

theorem retransmitData_restarts (t : Tcb) : Restarts t (t.retransmitData hw) := by
  unfold retransmitData
  split
  · exact .of_pace rfl
  dsimp only
  split
  · have same : ∀ u : Tcb, (u.outputOne hw true).outputUpdateRto.pace = u.pace := fun u =>
      (pace_of_snd (outputUpdateRto_snd _)).trans (outputOne_pace u true)
    exact ⟨congrArg Pace.mss (same _), .inr (congrArg Pace.cwnd (same _))⟩
  · exact ⟨rfl, .inr rfl⟩

theorem retransmitFin_restarts (t : Tcb) : Restarts t (t.retransmitFin hw) := by
  unfold retransmitFin
  split
  · split
    · exact (retransmitData_restarts _).since (outputUpdateRto_pace t.countFin)
    · exact .of_pace rfl
  · exact retransmitData_restarts t

theorem retransmit_restarts (t : Tcb) : Restarts t (t.retransmit hw) := by
  unfold retransmit
  split
  · split
    · exact (retransmitFin_restarts _).since (outputUpdateRto_pace t.countSyn)
    · exact .of_pace rfl
  · exact retransmitFin_restarts t

/-! ## Events -/

/-- The segment size that the options announce is not zero. -/
def announcesSize (beyond : Nat → Byte) (opts : List Byte) (t : Tcb) : Bool :=
  (t.option.parse beyond opts).remoteMss != 0

/-- A SYN in SYN_SENT announces a segment size; one that opens simultaneously
sets neither it nor the window, and finds both above zero. -/
def SynFinds (beyond : Nat → Byte) (th : TcpHdr) (p : Impl) (t : Tcb) : Prop :=
  t.takesSyn th = true →
    if t.snd.initial < (t.takeSyn th).snd.unacknowledged then
      (optionBytes th p).all (t.announcesSize beyond) = true
    else t.snd.cwnd ≠ 0 ∧ t.snd.mss ≠ 0

/-- An acknowledgement fits the window it finds. -/
def SegmentKeeps (th : TcpHdr) (p : Impl) (t : Tcb) : Prop :=
  ∀ found ∈ t.acknowledging th p, found.2.AckFits th found.1

/-- What an event must meet for the window to stay open. -/
def KeepsWindow (t : Tcb) : TcbEvent → Prop
  | .listen _ beyond th p => (optionBytes th p).all (t.announcesSize beyond) = true
  | .segment beyond th p =>
      if t.state = .synSent then t.SynFinds beyond th p else t.SegmentKeeps th p
  | _ => True

/-- What a partial acknowledgement takes off the window is there. -/
def NeverBorrows (t : Tcb) : TcbEvent → Prop
  | .segment _ th p => t.state ≠ .synSent →
      ∀ found ∈ t.acknowledging th p, found.2.DeflatesWithin th
  | _ => True

instance (beyond : Nat → Byte) (th : TcpHdr) (p : Impl) (t : Tcb) :
    Decidable (t.SynFinds beyond th p) := by
  unfold SynFinds
  infer_instance

instance (th : TcpHdr) (p : Impl) (t : Tcb) : Decidable (t.SegmentKeeps th p) := by
  unfold SegmentKeeps
  infer_instance

instance (t : Tcb) : (e : TcbEvent) → Decidable (t.KeepsWindow e)
  | .listen _ beyond th p =>
      inferInstanceAs (Decidable ((optionBytes th p).all (t.announcesSize beyond) = true))
  | .segment beyond th p =>
      inferInstanceAs (Decidable (if t.state = .synSent then t.SynFinds beyond th p
        else t.SegmentKeeps th p))
  | .connect _ | .send _ | .waitForData | .read | .closeRead | .closeWrite | .shutdownConnect
  | .closeContinuation | .delayedAck | .retransmit | .persist | .resolved | .arpQueueFull
  | .arpTimeout | .getPacket => .isTrue trivial

/-- The invariant: whoever has taken the SYN of the peer has an open window. -/
def Usable (t : Tcb) : Prop := Primed (t.ackNeedsOn = true) t

theorem Usable.of_primed (primed : Primed (t.ackNeedsOn = true) t')
    (before : t'.ackNeedsOn = true → t.ackNeedsOn = true) : t'.Usable :=
  ⟨primed.cwnd ∘ before, primed.mss ∘ before, primed.undivided⟩

theorem Usable.of_restarts (usable : t.Usable) (restarts : Restarts t t')
    (before : t'.ackNeedsOn = true → t.ackNeedsOn = true) (clear : Clear IsDivision t') :
    t'.Usable := by
  refine ⟨fun after => ?_, fun after => ?_, clear⟩
  · rcases restarts.2 with same | small
    · rw [same]
      exact usable.cwnd (before after)
    · rw [small, ne_zero_iff_toNat, toNat_smss, ← ne_zero_iff_toNat]
      exact usable.mss (before after)
  · rw [restarts.1]
    exact usable.mss (before after)

/-- The handshake sets the window to some segments. -/
theorem initFromOptions_primed (beyond : Nat → Byte) (th : TcpHdr) (opts : List Byte)
    (announces : t.announcesSize beyond opts = true) (clear : Clear IsDivision t) :
    Primed True (t.initFromOptions hw beyond th opts) := by
  have announces : (t.option.parse beyond opts).remoteMss ≠ 0 := by
    simpa [announcesSize] using announces
  have positive := ne_zero_iff_toNat.mp announces
  refine ⟨fun _ => ?_, fun _ => announces, clear⟩
  have cwnd := initialCwnd (t.option.parse beyond opts).remoteMss
  rw [ne_zero_iff_toNat]
  show 0 < (if 2190 < (t.option.parse beyond opts).remoteMss.setWidth 32 then _
    else _ : BitVec 32).toNat
  rw [cwnd]
  unfold initialSegments
  split
  · omega
  split <;> omega

theorem listen_usable (beyond : Nat → Byte) (iss : TcpSeq) (th : TcpHdr) (p : Impl)
    (usable : t.Usable) (keeps : t.KeepsWindow (.listen iss beyond th p)) :
    (t.inputHandleListenState hw beyond iss th p).Usable := by
  unfold inputHandleListenState
  dsimp only
  split
  · rename_i failed
    rcases takeHeader_error failed with rfl | rfl
    · exact usable.of_pace rfl (usable.undivided.fail (by decide))
    · exact usable.of_pace rfl (usable.undivided.fail (by decide))
  · rename_i opts header
    have announces : t.announcesSize beyond opts = true := by
      have keeps : (optionBytes th p).all (t.announcesSize beyond) = true := keeps
      rwa [optionBytes_of_takeHeader header] at keeps
    have set := @initFromOptions_primed
      ({ t with
        life := .inTable
        rcv := { t.rcv with next := th.seq + 1, initial := th.seq } }.doSetupIsn iss) hw beyond th opts announces usable.undivided
    have entered := set.of_pace (pace_of_snd (enterSyn_snd _ .synReceived))
      (set.undivided.of_crash (enterSyn_crash _ .synReceived))
    exact ⟨fun _ => entered.cwnd trivial, fun _ => entered.mss trivial, entered.undivided⟩

theorem synSent_usable (beyond : Nat → Byte) (th : TcpHdr) (p : Impl) (usable : t.Usable)
    (here : t.state = .synSent) (finds : t.SynFinds beyond th p) :
    (t.inputHandleSynSentState hw beyond th p).Usable := by
  have apart : t.ackNeedsOn = false := by
    unfold ackNeedsOn inState
    rw [here]
    rfl
  rcases inputHandleSynSentState_cases beyond th p t with
    onward | ⟨opts, header, noRst, syn, acked, result⟩
  · have clear := @Clear.inputHandleSynSentState t hw IsDivision beyond th p usable.undivided
      fun isBad => by rcases isBad with h | h <;> cases h
    have outside : (t.inputHandleSynSentState hw beyond th p).ackNeedsOn = true → False := by
      intro after
      rw [ackNeedsOn_of_onward onward after] at apart
      cases apart
    exact ⟨fun after => (outside after).elim, fun after => (outside after).elim, clear⟩
  have finds := finds (takesSyn_of_syn here syn noRst acked)
  rw [result]
  unfold synInSynSent
  split
  · rename_i past
    rw [if_pos past, optionBytes_of_takeHeader header] at finds
    have set := @initFromOptions_primed (t.takeSyn th) hw beyond th opts finds usable.undivided
    have entered : Primed True
        ((t.takeSyn th).initFromOptions hw beyond th opts).doEstablished.output :=
      set.of_pace ((output_pace _).trans rfl) (set.undivided.of_crash (output_crash _))
    exact ⟨fun _ => entered.cwnd trivial, fun _ => entered.mss trivial, entered.undivided⟩
  · rename_i early
    rw [if_neg early] at finds
    have same := enterSyn_snd (t.takeSyn th) .synReceived
    refine ⟨fun _ => ?_, fun _ => ?_, usable.undivided.of_crash (enterSyn_crash (t.takeSyn th) _)⟩
    · rw [same]
      exact finds.1
    · rw [same]
      exact finds.2

theorem inputHandleOtherState_ackNeedsOn (th : TcpHdr) (p : Impl)
    (after : (t.inputHandleOtherState hw th p).ackNeedsOn = true) : t.ackNeedsOn = true := by
  cases done : t.completes th p with
  | false => exact ackNeedsOn_of_onward (inputHandleOtherState_onward th p done) after
  | true =>
      obtain ⟨segSeq, data, completes, -⟩ := @inputHandleOtherState_of_completes t hw th p done
      have here : t.state = .synReceived := by
        simp only [completesHandshake, Bool.and_eq_true] at completes
        simpa [inState] using completes.1.1.1.1.1
      unfold ackNeedsOn inState
      rw [here]
      rfl

/-- What a sender does by itself, its user and its timers. -/
theorem handle_restarts (e : TcbEvent) (idle : t.shakesHands e = false)
    (alone : ∀ beyond th p, e ≠ .segment beyond th p) : Restarts t (t.handle hw e) := by
  cases e with
  | connect iss => cases idle
  | listen iss beyond th p => cases idle
  | segment beyond th p => exact absurd rfl (alone beyond th p)
  | send p => exact .of_pace (send_pace t p)
  | waitForData => exact .of_pace rfl
  | read => exact .of_pace rfl
  | closeRead => exact .of_pace (abortReader_pace t)
  | closeWrite => exact .of_pace (close_pace t)
  | shutdownConnect => exact .of_pace (shutdownConnect_pace t)
  | closeContinuation =>
      exact .of_pace (closeContinuation_pace { t with closeReady := t.closeReady - 1 })
  | delayedAck => exact .of_pace (output_pace _)
  | retransmit => exact (retransmit_restarts { t with retransmitArmed := false }).since rfl
  | persist => exact .of_pace (persist_pace { t with persistArmed := false })
  | resolved => exact .of_pace rfl
  | arpQueueFull => exact .of_pace rfl
  | arpTimeout => exact .of_pace (arpTimeout_pace t)
  | getPacket => exact .of_pace (getPacket_pace { t with pollTcbs := t.pollTcbs - 1 })

theorem handle_usable (e : TcbEvent) (usable : t.Usable) (keeps : t.KeepsWindow e) :
    (t.handle hw e).Usable := by
  by_cases segment : ∃ beyond th p, e = .segment beyond th p
  · obtain ⟨beyond, th, p, rfl⟩ := segment
    have keeps : if t.state = .synSent then t.SynFinds beyond th p else t.SegmentKeeps th p := keeps
    show (t.inputHandle hw beyond th p).Usable
    unfold inputHandle
    split
    · rename_i here
      rw [if_pos here] at keeps
      exact synSent_usable beyond th p usable here keeps
    · rename_i past
      rw [if_neg past] at keeps
      have primed := @Primed.inputHandleOtherState t hw _ th p usable (fun there => there) keeps
      exact .of_primed primed (inputHandleOtherState_ackNeedsOn th p)
  have alone : ∀ beyond th p, e ≠ .segment beyond th p :=
    fun beyond th p same => segment ⟨beyond, th, p, same⟩
  have clear := @Clear.handleAlone t hw IsDivision e alone usable.undivided
    (fun isBad => by cases isBad) ⟨by decide, by decide⟩ (by decide)
  cases idle : t.shakesHands e with
  | false =>
      exact usable.of_restarts (handle_restarts e idle alone)
        (ackNeedsOn_of_onward (handle_onward e idle)) clear
  | true =>
      cases e with
      | connect iss =>
          have state : (t.connect hw iss).state = .synSent :=
            congrArg Standing.state (standing_of_bearing (output_bearing _))
          have outside : (t.connect hw iss).ackNeedsOn = true → False := by
            unfold ackNeedsOn inState
            rw [state]
            decide
          exact ⟨fun after => (outside after).elim, fun after => (outside after).elim, clear⟩
      | listen iss beyond th p => exact listen_usable beyond iss th p usable keeps
      | segment beyond th p => exact absurd rfl (alone beyond th p)
      | _ => cases idle

/-! ## Runs -/

theorem step_usable {e : TcbEvent} (usable : t.Usable) (keeps : t.KeepsWindow e)
    (next : step hw t e = some t') : t'.Usable := by
  unfold step at next
  split at next
  · cases next
    have after := @handle_usable t hw e usable keeps
    exact ⟨after.cwnd, after.mss, after.undivided⟩
  · cases next

theorem new_usable (id : ConnId) (memory : Tcb) : (new id memory).Usable where
  cwnd := fun taken => by cases taken
  mss := fun taken => by cases taken
  undivided := fun _ crashed => by cases crashed

/-- What the congestion window is for. Where it is not open there is nothing to
send, nothing lets it out, or a limited transfer has all in flight it may have. -/
structure WindowUsable (t : Tcb) : Prop where
  nonzero : t.synchronized = true → t.snd.cwnd ≠ 0
  undivided : t.crash ≠ some .divisionByZero
  unblocked : t.synchronized = true → 0 < t.windowRoom →
    (t.snd.dupacks = 1 ∨ t.snd.dupacks = 2 → t.flightSize < t.limitedMost) → 0 < t.canSend.1

theorem ackNeedsOn_of_synchronized (sync : t.synchronized = true) : t.ackNeedsOn = true := by
  have sync := of_decide_eq_true sync
  unfold ackNeedsOn inState
  revert sync
  cases t.state <;> decide

/-- An open window lets out what the peer's window and the queue have. -/
theorem canSend_pos (open_ : t.snd.cwnd ≠ 0) (mss : t.snd.mss ≠ 0) (room : 0 < t.windowRoom)
    (few : t.snd.dupacks = 1 ∨ t.snd.dupacks = 2 → t.flightSize < t.limitedMost) :
    0 < t.canSend.1 := by
  have shut : ¬t.snd.window = 0 := by
    intro shut
    rw [windowRoom_shut shut] at room
    exact absurd room (Nat.lt_irrefl 0)
  have fits : ¬t.snd.window < t.windowUsed := by
    intro overrun
    rw [windowRoom_overrun overrun] at room
    exact absurd room (Nat.lt_irrefl 0)
  have smallest := toNat_smallest fits
  have positive := ne_zero_iff_toNat.mp open_
  have segment := ne_zero_iff_toNat.mp mss
  rw [BitVec.lt_def]
  show 0 < _
  unfold canSend
  by_cases probe : t.snd.windowProbe = true
  · rw [if_pos probe]
    exact Nat.one_pos
  rw [if_neg probe, if_neg shut]
  dsimp only
  rw [if_neg (show ¬t.snd.window < t.snd.next - t.snd.unacknowledged from fits)]
  by_cases limited : t.snd.dupacks = 1 ∨ t.snd.dupacks = 2
  · have within : t.flightSize.toNat < t.limitedMost.toNat := few limited
    rw [if_pos limited, if_pos (show t.flightSize ≤ t.snd.cwnd + 2 * t.snd.mss.setWidth 32 from
      Nat.le_of_lt within)]
    show 0 < (min _ (t.limitedMost - t.flightSize)).toNat
    rw [toNat_min, BitVec.toNat_sub_of_le (Nat.le_of_lt within)]
    show 0 < min (min t.snd.cwnd (min (t.snd.window - t.windowUsed) t.snd.unsentLen)).toNat _
    rw [smallest]
    omega
  rw [if_neg limited]
  by_cases recovering : 3 ≤ t.snd.dupacks
  · rw [if_pos recovering]
    show 0 < (min _ (min t.snd.cwnd (min (t.snd.window - t.windowUsed) t.snd.unsentLen))).toNat
    rw [toNat_min, smallest, toNat_smss]
    omega
  · rw [if_neg recovering]
    show 0 < (min t.snd.cwnd (min (t.snd.window - t.windowUsed) t.snd.unsentLen)).toNat
    rw [smallest]
    omega

theorem Usable.windowUsable (usable : t.Usable) : t.WindowUsable where
  nonzero := fun sync => usable.cwnd (ackNeedsOn_of_synchronized sync)
  undivided := fun crashed => usable.undivided _ crashed rfl
  unblocked := fun sync room few => canSend_pos (usable.cwnd (ackNeedsOn_of_synchronized sync))
    (usable.mss (ackNeedsOn_of_synchronized sync)) room few

/-- What is acknowledged from an open window fits it. -/
theorem neverBorrows_of_keeps {e : TcbEvent} (usable : t.Usable) (keeps : t.KeepsWindow e) :
    t.NeverBorrows e := by
  cases e with
  | segment beyond th p =>
      intro past found mem new
      have keeps : if t.state = .synSent then t.SynFinds beyond th p else t.SegmentKeeps th p := keeps
      rw [if_neg past] at keeps
      obtain ⟨live, pace⟩ := acknowledging_pace mem
      have fits := keeps found mem
      unfold AckFits at fits
      rw [if_pos new] at fits
      have cwnd : found.2.snd.cwnd = t.snd.cwnd := congrArg Pace.cwnd pace
      have mss : found.2.snd.mss = t.snd.mss := congrArg Pace.mss pace
      exact deflatesWithin_of_fits (cwnd ▸ usable.cwnd live) (mss ▸ usable.mss live) fits new
  | _ => trivial

/-- On every run on which each event leaves it open, the congestion window of a
synchronized connection is not zero, nothing is divided by zero, `can_send` is
not held up by the window, and no partial acknowledgement takes off the window
more than there is. -/
theorem congestion_window_usable (hw : HwFeatures) (id : ConnId) (memory : Tcb)
    (events : List TcbEvent) (t : Tcb) (run : exec (step hw) (new id memory) events = some t)
    (keeps : Along (step hw) KeepsWindow (new id memory) events) :
    t.WindowUsable ∧ Along (step hw) NeverBorrows (new id memory) events := by
  have usable := keeps.invariant (fun _ _ _ => step_usable) (new_usable id memory) run
  exact ⟨usable.windowUsable, keeps.also (fun _ _ _ => step_usable)
    (fun _ _ => neverBorrows_of_keeps) (new_usable id memory)⟩

end Tcb

/-! ## A loss behind a SYN -/

def bareAck (ack : BitVec 32) (window : BitVec 16) : TcbEvent :=
  .segment (fun _ => 0) (peerSegment 701 ack false window) headerOnly

/-- The peer opens with some window, and widens it. Two segments are sent, the
first is missed, and in the end both are acknowledged, one after the other. -/
def lossBehindSyn (window : BitVec 16) : List TcbEvent :=
  [.connect ⟨100⟩, .resolved, .getPacket,
    .segment (fun _ => 0) (peerSegment 700 101 true window) headerOnly, .resolved, .getPacket,
    bareAck 101 1000, .send [1, 2], .resolved, .getPacket, .send [3, 4], .resolved, .getPacket,
    bareAck 101 1000, bareAck 101 1000, bareAck 101 1000, bareAck 103 1000, bareAck 105 1000]

/-- Behind a SYN with a window the loss is made good. -/
theorem congestion_window_usable_loss :
    ∃ t, exec (Tcb.step ethernet) (Tcb.new exampleId zeroMemory) (lossBehindSyn 1000) = some t ∧
      t.state = .established ∧ t.snd.cwnd = 1287 ∧ t.WindowUsable := by
  have run : exec (Tcb.step ethernet) (Tcb.new exampleId zeroMemory) (lossBehindSyn 1000) = some _ :=
    (Option.some_get (by decide)).symm
  exact ⟨_, run, by decide, by decide,
    (Tcb.congestion_window_usable ethernet exampleId zeroMemory _ _ run (by decide)).1⟩

/-- A peer that announces segments of no size. -/
def sizeOfZero : Impl :=
  ⟨24, [.outside (List.replicate tcpHdrLen 0 ++ [2, 4, 0, 0])], defaultNrFrags, Impl.newData,
    internalDataSize⟩

def openedWithZero : List TcbEvent :=
  [.connect ⟨100⟩, .resolved, .getPacket,
    .segment (fun _ => 0) { peerSegment 700 101 true 1000 with dataOffset := 6 } sizeOfZero,
    .send [1, 2]]

/-- Segments of no size close the window, and what is sent stays in the queue;
behind a SYN without a window the end of fast recovery closes it, and the next
acknowledgement divides by it. -/
theorem congestion_window_closes :
    (∃ t, exec (Tcb.step ethernet) (Tcb.new exampleId zeroMemory) openedWithZero = some t ∧
      t.state = .established ∧ t.snd.cwnd = 0 ∧ 0 < t.windowRoom ∧ t.canSend.1 = 0) ∧
    ∃ t, exec (Tcb.step ethernet) (Tcb.new exampleId zeroMemory) (lossBehindSyn 0) = some t ∧
      t.crash = some .divisionByZero := by
  have opened : exec (Tcb.step ethernet) (Tcb.new exampleId zeroMemory) openedWithZero = some _ :=
    (Option.some_get (by decide)).symm
  have lost : exec (Tcb.step ethernet) (Tcb.new exampleId zeroMemory) (lossBehindSyn 0) = some _ :=
    (Option.some_get (by decide)).symm
  exact ⟨⟨_, opened, by decide, by decide, by decide, by decide⟩, _, lost, by decide⟩

end ActorNet.Tcp
