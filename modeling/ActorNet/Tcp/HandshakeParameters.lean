import ActorNet.Tcp.Onward
import ActorNet.Tcp.WindowAssertion

/-!
# The parameters of the handshake

The first SYN of the peer settles the window, the segment size, the congestion
window and the window scales, where its options are read. A SYN that opens
simultaneously is not read, its shift is not looked at, and the scale a
connecting side offered stays when the peer does not offer one.
-/

namespace ActorNet.Tcp

open Lib Net

namespace TcpOption

/-- How the options read from a SYN over the defaults compare with those read
over what the block holds already, whose own scale was `offered`. -/
structure Follows (offered : Byte) (o o' : TcpOption) : Prop where
  remoteMss : o'.remoteMss = o.remoteMss
  remoteWinScale : o'.remoteWinScale = o.remoteWinScale
  mss : o.mssReceived = false → o.remoteMss = 536
  winScale : o.winScaleReceived = false → o.remoteWinScale = 0
  localWinScale : o'.localWinScale = if o.winScaleReceived then 7 else offered

theorem Follows.parseFrom {offered : Byte} (beyond : Nat → Byte) (skip : Nat) (opts : List Byte)
    {o o' : TcpOption} (follows : Follows offered o o') :
    Follows offered (parseFrom beyond skip o opts) (parseFrom beyond skip o' opts) := by
  induction opts generalizing skip o o' with
  | nil => cases skip <;> exact follows
  | cons kind rest ih =>
      cases skip with
      | succ skip => exact ih skip follows
      | zero =>
          unfold TcpOption.parseFrom
          dsimp only
          split
          · exact follows
          split
          · exact ih 3 { follows with remoteMss := rfl, mss := fun absent => by cases absent }
          split
          · refine ih 2 { follows with remoteWinScale := rfl, winScale := ?_, localWinScale := rfl }
            intro absent
            cases absent
          split
          · exact ih 1 { follows with }
          split
          · exact ih 0 follows
          split
          · exact follows
          split
          · exact follows
          · exact ih _ follows

/-- The options of a SYN, with the defaults where one is absent. -/
def ofSyn (beyond : Nat → Byte) (opts : List Byte) : TcpOption :=
  ({ localMss := 0 } : TcpOption).parse beyond opts

theorem ofSyn_follows (beyond : Nat → Byte) (opts : List Byte) {offered : Byte} {o : TcpOption}
    (before : o = { localMss := o.localMss, localWinScale := offered }) :
    Follows offered (ofSyn beyond opts) (o.parse beyond opts) := by
  apply Follows.parseFrom
  rw [before]
  exact ⟨rfl, rfl, fun _ => rfl, fun _ => rfl, rfl⟩

end TcpOption

namespace Tcb

variable {t t' : Tcb} {hw : HwFeatures}

/-! ## What a SYN sets -/

/-- The multiple of the segment size that may be in flight at first. -/
def initialSegments (mss : Nat) : Nat :=
  if 2190 < mss then 2 else if 1095 < mss then 3 else 4

/-- Everything the handshake has to settle is as the SYN `th` with the options
`o` has it, and no data has been sent before. -/
structure SetFromSyn (th : TcpHdr) (o : TcpOption) (t : Tcb) : Prop where
  mss : t.snd.mss = o.remoteMss
  windowScale : t.snd.windowScale = o.remoteWinScale
  defaultMss : o.mssReceived = false → t.snd.mss = 536
  bothScales : if o.winScaleReceived then t.rcv.windowScale = 7
    else t.snd.windowScale = 0 ∧ t.rcv.windowScale = 0
  smallScales : t.snd.windowScale.toNat ≤ 14 ∧ t.rcv.windowScale.toNat ≤ 14
  window : t.snd.window.toNat = th.window.toNat * 2 ^ t.snd.windowScale.toNat
  ssthresh : t.snd.ssthresh = t.snd.window
  cwnd : t.snd.cwnd.toNat = initialSegments o.remoteMss.toNat * o.remoteMss.toNat
  lastWindow : t.snd.wl1 = th.seq ∧ t.snd.wl2 = th.ack
  silent : ∀ s ∈ t.queued, s.data = []

/-- A window that is shifted by 14 at most still fits. -/
theorem toNat_scaled (window : BitVec 16) {shift : Byte} (small : shift.toNat ≤ 14) :
    (window.setWidth 32 <<< shift.toNat).toNat = window.toNat * 2 ^ shift.toNat := by
  have bound : window.toNat * 2 ^ shift.toNat < 2 ^ 32 :=
    calc window.toNat * 2 ^ shift.toNat
      _ < 2 ^ 16 * 2 ^ shift.toNat :=
          Nat.mul_lt_mul_of_pos_right window.isLt (Nat.two_pow_pos _)
      _ ≤ 2 ^ 16 * 2 ^ 14 := Nat.mul_le_mul_left _ (Nat.pow_le_pow_right (by decide) small)
      _ < 2 ^ 32 := by decide
  have wide : (window.setWidth 32).toNat = window.toNat := by
    rw [BitVec.toNat_setWidth]
    exact Nat.mod_eq_of_lt (by have := window.isLt; omega)
  rw [BitVec.toNat_shiftLeft, wide, Nat.shiftLeft_eq, Nat.mod_eq_of_lt bound]

theorem initialCwnd (mss : BitVec 16) :
    (if 2190 < mss.setWidth 32 then 2 * mss.setWidth 32
      else if 1095 < mss.setWidth 32 ∧ mss.setWidth 32 ≤ 2190 then 3 * mss.setWidth 32
      else 4 * mss.setWidth 32 : BitVec 32).toNat = initialSegments mss.toNat * mss.toNat := by
  have wide : (mss.setWidth 32).toNat = mss.toNat := by
    rw [BitVec.toNat_setWidth]
    exact Nat.mod_eq_of_lt (by have := mss.isLt; omega)
  have bound := mss.isLt
  have large : (2190 : BitVec 32).toNat = 2190 := rfl
  have medium : (1095 : BitVec 32).toNat = 1095 := rfl
  unfold initialSegments
  simp only [BitVec.lt_def, BitVec.le_def, wide, large, medium]
  split
  · rw [BitVec.toNat_mul, wide]
    exact Nat.mod_eq_of_lt (by simp; omega)
  split
  · rename_i between
    rw [if_pos between.1, BitVec.toNat_mul, wide]
    exact Nat.mod_eq_of_lt (by simp; omega)
  · rw [if_neg (by omega), BitVec.toNat_mul, wide]
    exact Nat.mod_eq_of_lt (by simp; omega)

theorem initFromOptions_set (beyond : Nat → Byte) (th : TcpHdr) (opts : List Byte)
    {offered : Byte} (before : t.option = { localMss := t.option.localMss, localWinScale := offered })
    (answered : offered = 0 ∨ (TcpOption.ofSyn beyond opts).winScaleReceived = true)
    (small : (TcpOption.ofSyn beyond opts).remoteWinScale.toNat ≤ 14)
    (silent : ∀ s ∈ t.queued, s.data = []) :
    SetFromSyn th (TcpOption.ofSyn beyond opts) (t.initFromOptions hw beyond th opts) := by
  have follows := TcpOption.ofSyn_follows beyond opts before
  have shift : (t.initFromOptions hw beyond th opts).snd.windowScale =
      (TcpOption.ofSyn beyond opts).remoteWinScale := follows.remoteWinScale
  have own : (t.initFromOptions hw beyond th opts).rcv.windowScale =
      if (TcpOption.ofSyn beyond opts).winScaleReceived then 7 else 0 := by
    refine follows.localWinScale.trans ?_
    rcases answered with rfl | received
    · rfl
    · rw [received, if_pos rfl, if_pos rfl]
  have mss : (t.initFromOptions hw beyond th opts).snd.mss =
      (TcpOption.ofSyn beyond opts).remoteMss := follows.remoteMss
  refine ⟨mss, shift, fun absent => mss.trans (follows.mss absent), ?_, ?_, ?_, rfl, ?_,
    ⟨rfl, rfl⟩, silent⟩
  · cases received : (TcpOption.ofSyn beyond opts).winScaleReceived with
    | true =>
        rw [received] at own
        exact own
    | false =>
        rw [received] at own
        exact ⟨shift.trans (follows.winScale received), own⟩
  · refine ⟨by rw [shift]; exact small, ?_⟩
    rw [own]
    split <;> decide
  · rw [← shift] at small
    exact toNat_scaled th.window small
  · exact (initialCwnd _).trans (by rw [follows.remoteMss])

theorem SetFromSyn.output {th : TcpHdr} {o : TcpOption} (set : SetFromSyn th o t) :
    SetFromSyn th o t.output := by
  unfold Tcb.output
  split
  · exact set
  · exact { set with }

/-! ## Before the handshake -/

/-- Nothing to send, nothing in flight, and nothing but bare segments was sent. -/
structure NothingSent (t : Tcb) : Prop where
  unsent : t.snd.unsent = []
  data : t.snd.data = []
  unsentLen : t.snd.unsentLen = 0
  queued : ∀ s ∈ t.queued, s.data = []

/-- Only the queues count. -/
theorem NothingSent.carry (silent : t.NothingSent)
    (same : (t'.snd.unsent, t'.snd.data, t'.snd.unsentLen, t'.queued) =
      (t.snd.unsent, t.snd.data, t.snd.unsentLen, t.queued)) : t'.NothingSent := by
  simp only [Prod.mk.injEq] at same
  obtain ⟨unsent, data, unsentLen, queued⟩ := same
  exact ⟨unsent.trans silent.unsent, data.trans silent.data, unsentLen.trans silent.unsentLen,
    queued ▸ silent.queued⟩

theorem NothingSent.output (silent : t.NothingSent) : t.output.NothingSent := by
  unfold Tcb.output
  split
  · exact silent
  · exact silent.carry rfl

theorem NothingSent.emit (silent : t.NothingSent) : (t.emit false []).NothingSent := by
  have remembered : ∀ t : Tcb, t.NothingSent → (t.rememberSegment []).NothingSent := by
    intro t silent
    unfold Tcb.rememberSegment
    dsimp only
    split
    · exact silent.carry rfl
    · exact silent
  have checked : ∀ (t : Tcb) (len : BitVec 16), t.NothingSent → (t.checkWindow len).NothingSent := by
    intro t len silent
    unfold Tcb.checkWindow
    split
    · exact silent
    · exact silent.carry rfl
  have queued : ∀ (t : Tcb) (s : Segment), s.data = [] → t.NothingSent →
      (t.queuePacket s).NothingSent := by
    intro t s bare silent
    refine ⟨silent.unsent, silent.data, silent.unsentLen, fun s' mem => ?_⟩
    rcases List.mem_append.mp mem with old | new
    · exact silent.queued s' old
    · rw [List.mem_singleton.mp new]
      exact bare
  have numbered : (t.takeNumbers false (BitVec.ofNat 16 ([] : List Byte).length)).NothingSent :=
    silent.carry rfl
  exact queued _ _ rfl (checked _ _ (remembered _ numbered))

theorem NothingSent.outputOne (silent : t.NothingSent) : (t.outputOne hw false).NothingSent := by
  unfold Tcb.outputOne
  split
  · exact silent
  · have idle : t.getTransmitPacket hw = ([], t) := by
      unfold Tcb.getTransmitPacket
      rw [silent.unsent]
      rfl
    rw [if_neg Bool.false_ne_true, idle]
    exact silent.emit

theorem NothingSent.canSend (silent : t.NothingSent) : t.canSend.2.NothingSent := by
  unfold Tcb.canSend
  dsimp only
  split_ifs <;> first | exact silent | exact silent.carry rfl

theorem NothingSent.cleanup (silent : t.NothingSent) : t.cleanup.NothingSent :=
  ⟨rfl, rfl, silent.unsentLen, silent.queued⟩

theorem NothingSent.retransmitFin (silent : t.NothingSent) :
    (t.retransmitFin hw).NothingSent := by
  have data : ∀ t : Tcb, t.NothingSent → (t.retransmitData hw).NothingSent := by
    intro t silent
    unfold Tcb.retransmitData
    rw [silent.data]
    exact silent
  have counted : t.countFin.NothingSent := silent.carry rfl
  unfold Tcb.retransmitFin
  split
  · split
    · have updated := counted.output
      exact data _ (updated.carry rfl)
    · exact counted.cleanup
  · exact data t silent

theorem NothingSent.retransmit (silent : t.NothingSent) : (t.retransmit hw).NothingSent := by
  have counted : t.countSyn.NothingSent := silent.carry rfl
  unfold Tcb.retransmit
  split
  · split
    · have updated := counted.output
      exact NothingSent.retransmitFin (updated.carry rfl)
    · exact ⟨rfl, rfl, silent.unsentLen, silent.queued⟩
  · exact silent.retransmitFin

theorem NothingSent.popPacket (silent : t.NothingSent) : t.popPacket.NothingSent := by
  unfold Tcb.popPacket
  split
  · exact silent
  split
  · exact silent.carry rfl
  · have popped : ∀ rest, { t with packetq := rest }.NothingSent := fun _ =>
      silent.carry rfl
    dsimp only
    split
    · exact (popped _).output
    split
    · split
      · exact (popped _).canSend.output
      · exact (popped _).canSend
    · exact popped _

theorem NothingSent.close (silent : t.NothingSent) : t.close.NothingSent := by
  unfold Tcb.close
  split
  · exact silent
  split <;> exact silent.carry rfl

theorem NothingSent.abortReader (silent : t.NothingSent) : t.abortReader.NothingSent := by
  unfold Tcb.abortReader
  split
  · exact silent.carry rfl
  · exact silent

theorem NothingSent.doReset (silent : t.NothingSent) : t.doReset.NothingSent :=
  ⟨rfl, rfl, silent.unsentLen, silent.queued⟩

theorem NothingSent.inputHandleSynSentState (beyond : Nat → Byte) (th : TcpHdr) (p : Impl)
    (silent : t.NothingSent) : (t.inputHandleSynSentState hw beyond th p).NothingSent := by
  have parsed : ∀ opts,
      ((t.takeSyn th).initFromOptions hw beyond th opts).doEstablished.NothingSent := fun _ =>
    silent.carry rfl
  have taken : ∀ state, { t.takeSyn th with state }.NothingSent := fun _ =>
    silent.carry rfl
  unfold Tcb.inputHandleSynSentState
  split
  · rename_i failed
    rcases takeHeader_error failed with rfl | rfl <;>
      exact silent.carry rfl
  · dsimp only
    split
    · exact silent.carry rfl
    split
    · split
      · exact silent.doReset
      · exact silent
    split
    · unfold synInSynSent
      split
      · exact (parsed _).output
      · exact (taken _).output
    · exact silent

/-- Until data is given to `send`, nothing but bare segments goes out. -/
theorem NothingSent.handle (e : TcbEvent) (silent : t.NothingSent) (noData : ∀ p, e ≠ .send p)
    (handshake : ∀ beyond th p, e = .segment beyond th p → t.state = .synSent) :
    (t.handle hw e).NothingSent := by
  cases e with
  | connect iss => exact NothingSent.output (silent.carry rfl)
  | listen iss beyond th p =>
      show (t.inputHandleListenState hw beyond iss th p).NothingSent
      unfold Tcb.inputHandleListenState
      dsimp only
      split
      · rename_i failed
        rcases takeHeader_error failed with rfl | rfl <;>
          exact silent.carry rfl
      · exact NothingSent.output (silent.carry rfl)
  | segment beyond th p =>
      show (t.inputHandle hw beyond th p).NothingSent
      unfold Tcb.inputHandle
      rw [if_pos (handshake beyond th p rfl)]
      exact silent.inputHandleSynSentState beyond th p
  | send p => exact absurd rfl (noData p)
  | waitForData => exact silent.carry rfl
  | read => exact silent.carry rfl
  | closeRead => exact silent.abortReader
  | closeWrite => exact silent.close
  | shutdownConnect =>
      show t.shutdownConnect.NothingSent
      unfold Tcb.shutdownConnect
      split
      · exact ⟨rfl, rfl, silent.unsentLen, silent.queued⟩
      · exact silent.abortReader.close
  | closeContinuation =>
      show (Tcb.closeContinuation hw { t with closeReady := t.closeReady - 1 }).NothingSent
      unfold Tcb.closeContinuation
      apply NothingSent.output
      apply NothingSent.outputOne
      exact silent.carry rfl
  | delayedAck => exact NothingSent.output (silent.carry rfl)
  | retransmit => exact NothingSent.retransmit (silent.carry rfl)
  | persist =>
      have probed : ∀ u : Tcb, u.NothingSent →
          NothingSent { u with snd := { u.snd with windowProbe := false } } := fun _ silent =>
        silent.carry rfl
      have probing : ∀ u : Tcb, u.NothingSent → NothingSent { u with snd := { u.snd with
          windowProbe := true, zeroWindowProbingOut := u.snd.zeroWindowProbingOut + 1 } } :=
        fun _ silent => silent.carry rfl
      have fired : NothingSent { t with persistArmed := false } :=
        silent.carry rfl
      have asked := (probed _ (@NothingSent.outputOne _ hw (probing _ fired))).output
      exact asked.carry rfl
  | resolved => exact silent.carry rfl
  | arpQueueFull => exact silent.carry rfl
  | arpTimeout =>
      show t.arpTimeout.NothingSent
      unfold Tcb.arpTimeout
      dsimp only
      split
      · exact ⟨rfl, rfl, silent.unsentLen, silent.queued⟩
      · exact silent.carry rfl
  | getPacket =>
      have polled : ∀ t : Tcb, t.NothingSent → (t.getPacket hw).NothingSent := by
        intro t silent
        have inactive : { t with pollActive := false }.NothingSent :=
          silent.carry rfl
        unfold Tcb.getPacket
        apply NothingSent.popPacket
        split
        · exact inactive.outputOne
        · exact inactive
      exact polled _ (silent.carry rfl)

/-! ## Steps -/

/-- The bytes of the options behind a header, where `get_header` finds them. -/
def optionBytes (th : TcpHdr) (p : Impl) : Option (List Byte) :=
  match p.getHeader 0 th.length with
  | .ok (_, some header) => some (header.drop tcpHdrLen)
  | _ => none

theorem optionBytes_of_takeHeader {th : TcpHdr} {p : Impl} {opts : List Byte}
    (ok : t.takeHeader th p = .ok opts) : optionBytes th p = some opts := by
  unfold takeHeader at ok
  split at ok
  · rename_i found
    split at ok
    · cases ok
      unfold optionBytes
      rw [found]
    · cases ok
  · cases ok

/-- This step takes the SYN of the peer, and sets everything from it. -/
def SetsParameters (_ : Tcb) (e : TcbEvent) (t' : Tcb) : Prop :=
  ∃ beyond th p opts, ((∃ iss, e = .listen iss beyond th p) ∨
      e = .segment beyond th p ∧ th.fSyn = true) ∧
    optionBytes th p = some opts ∧ SetFromSyn th (TcpOption.ofSyn beyond opts) t'

def SameAgreed (t' t : Tcb) : Prop := t.agreed = t'.agreed

/-- The SYN bit of a segment gets to be looked at in SYN_SENT. -/
def takesSyn (th : TcpHdr) (t : Tcb) : Bool :=
  t.inState [.synSent] && th.fSyn && !th.fRst &&
    (!th.fAck || decide (t.snd.initial < th.ack) && decide (th.ack ≤ t.snd.next))

theorem takesSyn_of_syn {th : TcpHdr} (here : t.state = .synSent) (syn : th.fSyn = true)
    (noRst : th.fRst = false)
    (acked : th.fAck = true → t.snd.initial < th.ack ∧ th.ack ≤ t.snd.next) :
    t.takesSyn th = true := by
  have fine : (!th.fAck || decide (t.snd.initial < th.ack) && decide (th.ack ≤ t.snd.next)) =
      true := by
    cases ack : th.fAck with
    | true => simp [acked ack]
    | false => rfl
  unfold takesSyn inState
  rw [here, syn, noRst, fine]
  rfl

def smallShift (beyond : Nat → Byte) (opts : List Byte) : Bool :=
  decide ((TcpOption.ofSyn beyond opts).remoteWinScale.toNat ≤ 14)

/-- A SYN shifts by 14 at most, and in SYN_SENT it comes with an acknowledgement
and with a window scale. -/
def SynFits (t : Tcb) : TcbEvent → Prop
  | .listen _ beyond th p => (optionBytes th p).all (smallShift beyond) = true
  | .segment beyond th p => t.takesSyn th = true → th.fAck = true ∧
      (optionBytes th p).all (fun opts =>
        (TcpOption.ofSyn beyond opts).winScaleReceived && smallShift beyond opts) = true
  | _ => True

instance (t : Tcb) : (e : TcbEvent) → Decidable (t.SynFits e)
  | .listen _ beyond th p =>
      inferInstanceAs (Decidable ((optionBytes th p).all (smallShift beyond) = true))
  | .segment beyond th p =>
      inferInstanceAs (Decidable (t.takesSyn th = true → th.fAck = true ∧
        (optionBytes th p).all (fun opts =>
          (TcpOption.ofSyn beyond opts).winScaleReceived && smallShift beyond opts) = true))
  | .connect _ | .send _ | .waitForData | .read | .closeRead | .closeWrite | .shutdownConnect
  | .closeContinuation | .delayedAck | .retransmit | .persist | .resolved | .arpQueueFull
  | .arpTimeout | .getPacket => .isTrue trivial

/-- What holds of a block until it has taken the SYN of its peer, and of the
scale of its own window ever after. -/
structure Prepared (t : Tcb) : Prop where
  begins : t.life = .fresh → t.state = .closed
  fresh : t.life = .fresh → t.option = { localMss := t.option.localMss }
  offered : t.state = .synSent →
    t.option = { localMss := t.option.localMss, localWinScale := 7 }
  silent : t.life = .fresh ∨ t.state = .synSent → t.NothingSent ∧ t.connectDone ≠ some true
  scale : t.state ≠ .closed ∨ t.connectDone = some true → t.rcv.windowScale.toNat ≤ 14

theorem Prepared.onward (before : t.Prepared) (onward : Onward t t')
    (silent : t.life = .fresh ∨ t.state = .synSent → t'.NothingSent) : t'.Prepared := by
  have sent : t'.state = .synSent → t.state = .synSent := by
    intro here
    rw [← onward.handshake_of (by unfold inState; rw [here]; rfl)]
    exact here
  have early : t'.life = .fresh ∨ t'.state = .synSent → t.life = .fresh ∨ t.state = .synSent :=
    Or.imp onward.fresh_of sent
  have option : t'.option = t.option := congrArg Agreed.option onward.agreed
  refine ⟨?_, ?_, ?_, ?_, ?_⟩
  · intro fresh
    have closed := before.begins (onward.fresh_of fresh)
    rcases onward.state with same | closed' | both
    · rw [same, closed]
    · exact closed'
    · rw [Onward.closed_not_synchronized closed] at both
      cases both.1
  · intro fresh
    rw [option]
    exact before.fresh (onward.fresh_of fresh)
  · intro here
    rw [option]
    exact before.offered (sent here)
  · intro here
    refine ⟨silent (early here), ?_⟩
    rcases onward.connectDone with same | failed
    · rw [same]
      exact (before.silent (early here)).2
    · rw [failed]
      decide
  · intro used
    rw [show t'.rcv.windowScale = _ from congrArg Agreed.rcvWindowScale onward.agreed]
    apply before.scale
    rcases used with open_ | done
    · left
      rcases onward.state with same | closed | both
      · rwa [← same]
      · exact absurd closed open_
      · intro closed
        rw [Onward.closed_not_synchronized closed] at both
        cases both.1
    · right
      rcases onward.connectDone with same | failed
      · rw [← same, done]
      · rw [failed] at done
        cases done

/-- A block that has taken the SYN of its peer. -/
theorem Prepared.taken (opened : t.life = .inTable) (past : t.state ≠ .synSent)
    (small : t.rcv.windowScale.toNat ≤ 14) : t.Prepared where
  begins := fun fresh => by rw [opened] at fresh; cases fresh
  fresh := fun fresh => by rw [opened] at fresh; cases fresh
  offered := fun here => absurd here past
  silent := by
    rintro (fresh | here)
    · rw [opened] at fresh
      cases fresh
    · exact absurd here past
  scale := fun _ => small

theorem new_prepared (id : ConnId) (memory : Tcb) : (new id memory).Prepared where
  begins := fun _ => rfl
  fresh := fun _ => rfl
  offered := fun here => by cases here
  silent := fun _ => ⟨⟨rfl, rfl, rfl, fun s mem => by cases mem⟩, fun done => by cases done⟩
  scale := by
    rintro (open_ | done)
    · exact absurd rfl open_
    · cases done

/-- What an event makes of `t` is prepared, and once a SYN had to be taken for
it everything was set from that SYN. -/
def KeepsParameters (t : Tcb) (e : TcbEvent) (t' : Tcb) : Prop :=
  t'.Prepared ∧ (t.ackNeedsOn = false → t'.ackNeedsOn = true → t.SetsParameters e t')

theorem ackNeedsOn_of_onward (onward : Onward t t') (after : t'.ackNeedsOn = true) :
    t.ackNeedsOn = true := by
  unfold ackNeedsOn inState at *
  rcases onward.state with same | closed | both
  · rwa [← same]
  · rw [closed] at after
    cases after
  · have sync := of_decide_eq_true both.1
    revert sync
    cases t.state <;> decide

theorem KeepsParameters.onward {e : TcbEvent} (before : t.Prepared) (onward : Onward t t')
    (silent : t.life = .fresh ∨ t.state = .synSent → t'.NothingSent) : t.KeepsParameters e t' := by
  refine ⟨before.onward onward silent, fun outside inside => ?_⟩
  rw [ackNeedsOn_of_onward onward inside] at outside
  cases outside

theorem connect_keepsParameters (iss : TcpSeq) (before : t.Prepared) (fresh : t.life = .fresh) :
    t.KeepsParameters (.connect iss) (t.connect hw iss) := by
  have silent := before.silent (.inl fresh)
  have nothing := @NothingSent.handle t hw (.connect iss) silent.1 (by simp) (by simp)
  have same : (t.connect hw iss).standing = _ := standing_of_bearing (output_bearing _)
  have state : (t.connect hw iss).state = .synSent := congrArg Standing.state same
  have life : (t.connect hw iss).life = .inTable := congrArg Standing.life same
  refine ⟨⟨?_, ?_, ?_, ?_, ?_⟩, fun _ inside => ?_⟩
  · intro still
    rw [life] at still
    cases still
  · intro still
    rw [life] at still
    cases still
  · intro _
    have option : (t.connect hw iss).option =
        { t.option with localWinScale := 7, localMss := localMss hw } := congrArg Standing.option same
    rw [option, before.fresh fresh]
  · intro _
    refine ⟨nothing, ?_⟩
    rw [show (t.connect hw iss).connectDone = t.connectDone from congrArg Standing.connectDone same]
    exact silent.2
  · intro _
    rw [show (t.connect hw iss).rcv.windowScale = 7 from congrArg Standing.rcvWindowScale same]
    decide
  · unfold ackNeedsOn inState at inside
    rw [state] at inside
    cases inside

theorem listen_keepsParameters (beyond : Nat → Byte) (iss : TcpSeq) (th : TcpHdr) (p : Impl)
    (before : t.Prepared) (fresh : t.life = .fresh)
    (fits : (optionBytes th p).all (smallShift beyond) = true) :
    t.KeepsParameters (.listen iss beyond th p) (t.inputHandleListenState hw beyond iss th p) := by
  have closed := before.begins fresh
  have silent := before.silent (.inl fresh)
  unfold inputHandleListenState
  dsimp only
  split
  · rename_i failed
    have crashed : ∀ c, t.KeepsParameters (.listen iss beyond th p)
        ({ t with life := .inTable }.fail c) := by
      intro c
      refine ⟨⟨fun _ => closed, ?_, ?_, ?_, ?_⟩, fun _ inside => ?_⟩
      · intro still
        cases still
      · intro here
        exact absurd (closed.symm.trans here) (by decide)
      · rintro (still | here)
        · cases still
        · exact absurd (closed.symm.trans here) (by decide)
      · rintro (open_ | done)
        · exact absurd closed open_
        · exact absurd done silent.2
      · have here : ({ t with life := .inTable }.fail c).state = .closed := closed
        unfold ackNeedsOn inState at inside
        rw [here] at inside
        cases inside
    rcases takeHeader_error failed with rfl | rfl <;> exact crashed _
  · rename_i opts header
    have found := optionBytes_of_takeHeader header
    rw [found] at fits
    have option : t.option = { localMss := t.option.localMss, localWinScale := 0 } :=
      before.fresh fresh
    have set := @initFromOptions_set
      ({ t with life := .inTable, rcv := { t.rcv with next := th.seq + 1, initial := th.seq } }.doSetupIsn
        iss) hw beyond th opts 0 option (.inl rfl) (of_decide_eq_true fits) silent.1.queued
    have entered : ∀ u : Tcb, u.life = .inTable →
        SetFromSyn th (TcpOption.ofSyn beyond opts) u →
        t.KeepsParameters (.listen iss beyond th p) (u.enterSyn .synReceived) := by
      intro u opened set
      have received : SetFromSyn th (TcpOption.ofSyn beyond opts)
          { u with state := .synReceived } := { set with }
      have same := output_bearing { u with state := .synReceived }
      refine ⟨.taken ((congrArg (fun b => b.life) same).trans opened) ?_ received.output.smallScales.2,
        fun _ _ => ⟨beyond, th, p, opts, .inl ⟨iss, rfl⟩, found, received.output⟩⟩
      rw [show (u.enterSyn .synReceived).state = .synReceived from
        congrArg (fun b => b.state) same]
      decide
    exact entered _ rfl set

theorem synSent_keepsParameters (beyond : Nat → Byte) (th : TcpHdr) (p : Impl)
    (before : t.Prepared) (opened : t.life = .inTable) (here : t.state = .synSent)
    (fits : t.SynFits (.segment beyond th p)) :
    t.KeepsParameters (.segment beyond th p) (t.inputHandleSynSentState hw beyond th p) := by
  have silent := before.silent (.inr here)
  rcases inputHandleSynSentState_cases beyond th p t with
    onward | ⟨opts, header, noRst, syn, acked, result⟩
  · exact .onward before onward fun _ => silent.1.inputHandleSynSentState beyond th p
  have found := optionBytes_of_takeHeader header
  obtain ⟨ack, fits⟩ := fits (takesSyn_of_syn here syn noRst acked)
  rw [found] at fits
  have fits := Bool.and_eq_true_iff.mp fits
  have set := @initFromOptions_set (t.takeSyn th) hw beyond th opts 7 (before.offered here)
    (.inr fits.1) (of_decide_eq_true fits.2) silent.1.queued
  have established : SetFromSyn th (TcpOption.ofSyn beyond opts)
      ((t.takeSyn th).initFromOptions hw beyond th opts).doEstablished := { set with }
  have same := output_bearing ((t.takeSyn th).initFromOptions hw beyond th opts).doEstablished
  rw [result, synInSynSent_of_ack beyond opts ack (acked ack).1]
  refine ⟨.taken ((congrArg (fun b => b.life) same).trans opened) ?_ established.output.smallScales.2,
    fun _ _ => ⟨beyond, th, p, opts, .inr ⟨rfl, syn⟩, found, established.output⟩⟩
  rw [show Tcb.state (output _) = .established from congrArg (fun b => b.state) same]
  decide

theorem synReceived_keepsParameters (beyond : Nat → Byte) (th : TcpHdr) (p : Impl)
    (before : t.Prepared) (opened : t.life = .inTable) (done : t.completes th p = true) :
    t.KeepsParameters (.segment beyond th p) (t.inputHandleOtherState hw th p) ∧
      t.SameAgreed (t.inputHandleOtherState hw th p) := by
  obtain ⟨segSeq, data, completes, result⟩ := @inputHandleOtherState_of_completes t hw th p done
  have here : t.state = .synReceived := by
    simp only [completesHandshake, Bool.and_eq_true] at completes
    simpa [inState] using completes.1.1.1.1.1
  have established : (t.doEstablished.request .addConnectedTcb).Prepared := by
    refine .taken opened (fun sent => by cases sent) (before.scale (.inl ?_))
    rw [here]
    decide
  have onward : Onward (t.doEstablished.request .addConnectedTcb)
      ((t.doEstablished.request .addConnectedTcb).segmentInOrder hw th segSeq data) :=
    segmentInOrder_onward th segSeq data rfl
  rw [result]
  refine ⟨⟨established.onward onward ?_, fun outside _ => ?_⟩, onward.agreed⟩
  · rintro (fresh | sent)
    · exact absurd (opened.symm.trans fresh) (by decide)
    · cases sent
  · unfold ackNeedsOn inState at outside
    rw [here] at outside
    cases outside

/-- One event, from a block that is prepared. -/
theorem handle_keepsParameters (e : TcbEvent) (before : t.Prepared) (enabled : t.enabled e = true)
    (fits : t.SynFits e) : t.KeepsParameters e (t.handle hw e) := by
  cases idle : t.shakesHands e with
  | false =>
      refine .onward before (handle_onward e idle) fun early => ?_
      have silent := before.silent early
      refine silent.1.handle e ?_ ?_
      · rintro p rfl
        exact silent.2 (of_decide_eq_true enabled)
      · rintro beyond th p rfl
        have opened : t.life = .inTable := of_decide_eq_true enabled
        rcases early with fresh | here
        · rw [opened] at fresh
          cases fresh
        · exact here
  | true =>
      cases e with
      | connect iss => exact connect_keepsParameters iss before (of_decide_eq_true enabled)
      | listen iss beyond th p =>
          exact listen_keepsParameters beyond iss th p before (of_decide_eq_true enabled) fits
      | segment beyond th p =>
          have opened : t.life = .inTable := of_decide_eq_true enabled
          show t.KeepsParameters _ (t.inputHandle hw beyond th p)
          unfold inputHandle
          split
          · rename_i here
            exact synSent_keepsParameters beyond th p before opened here fits
          · rename_i past
            have done : t.completes th p = true := by
              simpa [shakesHands, inState, past] using idle
            exact (synReceived_keepsParameters beyond th p before opened done).1
      | _ => cases idle

/-! ## Runs -/

theorem step_keepsParameters {e : TcbEvent} (before : t.Prepared) (fits : t.SynFits e)
    (next : step hw t e = some t') : t.KeepsParameters e t' := by
  unfold step at next
  split at next
  · rename_i possible
    cases next
    obtain ⟨after, set⟩ := @handle_keepsParameters t hw e before possible.2 fits
    refine ⟨⟨after.begins, after.fresh, after.offered, ?_, after.scale⟩, fun outside inside => ?_⟩
    · intro early
      obtain ⟨nothing, notDone⟩ := after.silent early
      exact ⟨nothing.carry rfl, notDone⟩
    · obtain ⟨beyond, th, p, opts, taken, found, set⟩ := set outside inside
      exact ⟨beyond, th, p, opts, taken, found, { set with }⟩
  · cases next

/-- Nothing agreed on changes after the SYN of the peer was taken. -/
theorem step_sameAgreed {e : TcbEvent} (before : t.Prepared) (inside : t.ackNeedsOn = true)
    (next : step hw t e = some t') : t.SameAgreed t' := by
  cases idle : t.shakesHands e with
  | false =>
      obtain ⟨u, onward, rfl⟩ := step_onward idle next
      exact onward.agreed
  | true =>
      have open_ : t.state ∉ [.closed, .listen, .synSent] := by
        unfold ackNeedsOn inState at inside
        simpa using inside
      have notFresh : t.life ≠ .fresh := by
        intro fresh
        exact open_ (by rw [before.begins fresh]; decide)
      unfold step at next
      split at next
      · rename_i possible
        cases next
        have enabled := possible.2
        cases e with
        | connect iss => exact absurd (of_decide_eq_true enabled) notFresh
        | listen iss beyond th p => exact absurd (of_decide_eq_true enabled) notFresh
        | segment beyond th p =>
            have past : t.state ≠ .synSent := by
              intro here
              exact open_ (by rw [here]; decide)
            have done : t.completes th p = true := by
              simpa [shakesHands, inState, past] using idle
            have same : (t.handle hw (.segment beyond th p)).agreed = t.agreed := by
              show (t.inputHandle hw beyond th p).agreed = t.agreed
              unfold inputHandle
              rw [if_neg past]
              exact (synReceived_keepsParameters beyond th p before (of_decide_eq_true enabled)
                done).2
            exact same
        | _ => cases idle
      · cases next

/-- On every run, whatever the peer, the user and the timers do: a connection
past SYN_SENT took the SYN of its peer in one step, which set everything from
it before any data went out, and what was agreed on then still stands; and the
scale of its own window is small wherever it is used. Every SYN has to fit. -/
theorem parameters_set (hw : HwFeatures) (id : ConnId) (memory : Tcb) (events : List TcbEvent)
    (t : Tcb) (run : exec (step hw) (new id memory) events = some t)
    (fits : Along (step hw) SynFits (new id memory) events) :
    (t.ackNeedsOn = true →
      Entered (step hw) SetsParameters SameAgreed (new id memory) events t) ∧
    (t.state ≠ .closed ∨ t.connectDone = some true → t.rcv.windowScale.toNat ≤ 14) := by
  have preserved : ∀ (s : Tcb) (e : TcbEvent) (s' : Tcb), s.Prepared → s.SynFits e →
      step hw s e = some s' → s'.Prepared := fun _ _ _ before fits next =>
    (step_keepsParameters before fits next).1
  have enters : ∀ (s : Tcb) (e : TcbEvent) (s' : Tcb), s.Prepared → s.SynFits e →
      step hw s e = some s' → ¬s.ackNeedsOn = true → s'.ackNeedsOn = true →
      s.SetsParameters e s' := by
    intro s e s' before fits next outside inside
    exact (step_keepsParameters before fits next).2 (by simpa using outside) inside
  have same : ∀ s : Tcb, s.SameAgreed s := fun _ => rfl
  have keeps : ∀ (s₀ s : Tcb) (e : TcbEvent) (s' : Tcb), s₀.SameAgreed s → s.Prepared →
      step hw s e = some s' → s.ackNeedsOn = true → s'.ackNeedsOn = true → s₀.SameAgreed s' := by
    intro s₀ s e s' agreed before next inside _
    exact (step_sameAgreed before inside next).trans agreed
  have outside : ¬(new id memory).ackNeedsOn = true := by
    show ¬false = true
    decide
  exact ⟨fun inside => fits.entered preserved enters same keeps (new_prepared id memory) outside
    run inside, (fits.invariant preserved (new_prepared id memory) run).scale⟩

end Tcb

/-! ## Two ways to open -/

/-- A header with options that offer segments of 1460 bytes and a shift of 7. -/
def headerWithOptions : Impl :=
  ⟨28, [.outside (List.replicate tcpHdrLen 0 ++ [2, 4, 0x05, 0xb4, 1, 3, 3, 7])], defaultNrFrags,
    Impl.newData, internalDataSize⟩

def activeOpen : List TcbEvent :=
  [.connect ⟨100⟩, .resolved, .getPacket,
    .segment (fun _ => 0) { peerSegment 700 101 true 1000 with dataOffset := 7 } headerWithOptions]

/-- The SYN,ACK of the peer sets everything. -/
theorem parameters_set_active :
    ∃ t, exec (Tcb.step ethernet) (Tcb.new exampleId zeroMemory) activeOpen = some t ∧
      t.state = .established ∧ t.snd.mss = 1460 ∧ t.snd.windowScale = 7 ∧
      Entered (Tcb.step ethernet) Tcb.SetsParameters Tcb.SameAgreed (Tcb.new exampleId zeroMemory)
        activeOpen t := by
  have run : exec (Tcb.step ethernet) (Tcb.new exampleId zeroMemory) activeOpen = some _ :=
    (Option.some_get (by decide)).symm
  exact ⟨_, run, by decide, by decide, by decide,
    (Tcb.parameters_set ethernet exampleId zeroMemory _ _ run (by decide)).1 (by decide)⟩

/-- Both sides send a SYN, and then the peer acknowledges ours. -/
def simultaneousOpen : List TcbEvent :=
  [.connect ⟨100⟩, .segment (fun _ => 0) peerSyn headerOnly,
    .segment (fun _ => 0) (peerSegment 701 101 false 1000) headerOnly]

/-- The options of the peer's SYN are not read: the segment size and the
congestion window are what memory held. -/
theorem simultaneous_open_sets_nothing :
    ∃ t, exec (Tcb.step ethernet) (Tcb.new exampleId zeroMemory) simultaneousOpen = some t ∧
      t.state = .established ∧ t.snd.mss = 0 ∧ t.snd.cwnd = 0 ∧
      ¬Entered (Tcb.step ethernet) Tcb.SetsParameters Tcb.SameAgreed
        (Tcb.new exampleId zeroMemory) simultaneousOpen t := by
  have run : exec (Tcb.step ethernet) (Tcb.new exampleId zeroMemory) simultaneousOpen = some _ :=
    (Option.some_get (by decide)).symm
  refine ⟨_, run, by decide, by decide, by decide, ?_⟩
  rintro ⟨before, e, after, s₁, s₂, parts, -, -, ⟨beyond, th, p, opts, syn, found, set⟩, kept⟩
  have mem : e ∈ simultaneousOpen := by
    rw [parts]
    simp
  have bare : beyond = (fun _ => 0) ∧ opts = [] := by
    simp only [simultaneousOpen, List.mem_cons, List.not_mem_nil, or_false] at mem
    rcases syn with ⟨iss, rfl⟩ | ⟨rfl, syn⟩
    · simp at mem
    · simp only [reduceCtorEq, false_or, TcbEvent.segment.injEq] at mem
      rcases mem with ⟨rfl, rfl, rfl⟩ | ⟨rfl, rfl, rfl⟩
      · exact ⟨rfl, Option.some.inj (found.symm.trans (by decide))⟩
      · cases syn
  obtain ⟨rfl, rfl⟩ := bare
  have unset : s₂.snd.mss = 0 := congrArg Agreed.mss kept.symm
  exact absurd (unset.symm.trans (set.defaultMss (by decide))) (by decide)

end ActorNet.Tcp
