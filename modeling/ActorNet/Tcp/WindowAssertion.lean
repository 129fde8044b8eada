import ActorNet.Tcp.Crashes

/-!
# The window assertion of `output_one`

A peer may close its window while data is in flight. What `output_one` then
sends for the first time is a probe of one byte at most, but a segment that is
sent again keeps its length: the assertion holds on every run on which no longer
segment is sent again through a closed window, and fails on the others.
-/

namespace ActorNet.Tcp

open Lib Net

namespace Tcb

variable {t : Tcb} {hw : HwFeatures} {bad : Crash → Prop}

/-- There is an attempt left for the first segment in flight. -/
def attemptLeft (t : Tcb) : Bool :=
  t.snd.data.head?.any fun seg => decide (seg.nrTransmits < maxNrRetransmit)

/-- `retransmit` gets as far as sending the first segment in flight again. -/
def retransmitsData (t : Tcb) : Bool :=
  !(t.synNeedsOn && decide (maxNrRetransmit ≤ t.snd.synRetransmit)) &&
    !(t.finNeedsOn && decide (maxNrRetransmit ≤ t.snd.finRetransmit)) && t.attemptLeft

/-- A segment sent again in this event is one byte at most or finds the window
open. -/
def RetransmitFits (t : Tcb) : TcbEvent → Prop
  | .retransmit => t.retransmitsData = true → t.FitsWindow
  | .segment _ th p => t.state ≠ .synSent → t.ArrivalFits th p
  | _ => True

instance (t : Tcb) : (e : TcbEvent) → Decidable (t.RetransmitFits e)
  | .retransmit => inferInstanceAs (Decidable (t.retransmitsData = true → t.FitsWindow))
  | .segment _ th p => inferInstanceAs (Decidable (t.state ≠ .synSent → t.ArrivalFits th p))
  | .connect _ | .listen .. | .send _ | .waitForData | .read | .closeRead | .closeWrite
  | .shutdownConnect | .closeContinuation | .delayedAck | .persist | .resolved | .arpQueueFull
  | .arpTimeout | .getPacket => .isTrue trivial

/-! ## The retransmission timer -/

theorem outputUpdateRto_snd (t : Tcb) : t.outputUpdateRto.snd = t.snd := by
  show t.output.snd = t.snd
  unfold output
  split <;> rfl

theorem outputUpdateRto_state (t : Tcb) : t.outputUpdateRto.state = t.state :=
  congrArg (fun b => b.state) (output_bearing t)

theorem outputUpdateRto_crash (t : Tcb) : t.outputUpdateRto.crash = t.crash := output_crash t

theorem Clear.retransmitData (clear : Clear bad t)
    (fits : bad .windowAssertion → t.attemptLeft = true → t.FitsWindow) :
    Clear bad (t.retransmitData hw) := by
  unfold Tcb.retransmitData
  cases flight : t.snd.data with
  | nil => exact clear
  | cons seg rest =>
      dsimp only
      split
      · rename_i attempt
        refine Clear.of_crash (Clear.outputAgain ?_ ?_) (outputUpdateRto_crash _)
        · exact clear
        · intro isBad shut first found
          cases found
          exact fits isBad (by simp [attemptLeft, flight, attempt]) shut seg (by simp [flight])
      · exact clear

theorem Clear.retransmitFin (clear : Clear bad t)
    (fits : bad .windowAssertion →
      (t.finNeedsOn && decide (maxNrRetransmit ≤ t.snd.finRetransmit)) = false →
      t.attemptLeft = true → t.FitsWindow) : Clear bad (t.retransmitFin hw) := by
  unfold Tcb.retransmitFin
  split
  · rename_i fin
    split
    · rename_i tries
      have counted : Clear bad t.countFin.outputUpdateRto :=
        clear.of_crash (outputUpdateRto_crash _)
      refine counted.retransmitData fun isBad => ?_
      unfold attemptLeft FitsWindow at *
      rw [outputUpdateRto_snd]
      exact fits isBad (by simp [fin, tries])
    · exact clear
  · rename_i noFin
    exact clear.retransmitData fun isBad => fits isBad (by simp [noFin])

theorem Clear.retransmit (clear : Clear bad t)
    (fits : bad .windowAssertion → t.retransmitsData = true → t.FitsWindow) :
    Clear bad (t.retransmit hw) := by
  unfold Tcb.retransmit
  split
  · rename_i syn
    split
    · rename_i tries
      have counted : Clear bad t.countSyn.outputUpdateRto :=
        clear.of_crash (outputUpdateRto_crash _)
      refine counted.retransmitFin fun isBad => ?_
      unfold retransmitsData attemptLeft FitsWindow finNeedsOn inState at *
      rw [outputUpdateRto_snd, outputUpdateRto_state]
      intro fin attempt
      exact fits isBad (by
        rw [Bool.and_eq_true, Bool.and_eq_true]
        exact ⟨⟨by simp [tries], by rw [Bool.not_eq_true']; exact fin⟩, attempt⟩)
    · exact clear
  · rename_i noSyn
    refine clear.retransmitFin fun isBad fin attempt => fits isBad ?_
    unfold retransmitsData
    rw [Bool.and_eq_true, Bool.and_eq_true]
    exact ⟨⟨by simp [noSyn], by rw [Bool.not_eq_true']; exact fin⟩, attempt⟩

theorem Clear.getPacket (clear : Clear bad t) (tolerated : ¬bad .emptyPacketq) :
    Clear bad (t.getPacket hw) := by
  have pop : ∀ t : Tcb, Clear bad t → Clear bad t.popPacket := by
    intro t clear
    unfold Tcb.popPacket
    split
    · exact clear
    split
    · exact clear.fail tolerated
    · dsimp only
      split
      · exact clear.of_crash (output_crash _)
      split
      · split
        · exact clear.of_crash ((output_crash _).trans (canSend_crash _))
        · exact clear.of_crash (canSend_crash _)
      · exact clear
  unfold Tcb.getPacket
  apply pop
  split
  · exact clear.of_crash (outputOne_first_crash _)
  · exact clear

/-! ## Runs -/

/-- Every event but the segments of a connection that is open. -/
theorem Clear.handleAlone (e : TcbEvent) (alone : ∀ beyond th p, e ≠ .segment beyond th p)
    (clear : Clear bad t)
    (fits : bad .windowAssertion → e = .retransmit → t.retransmitsData = true → t.FitsWindow)
    (header : ¬bad .nullHeader ∧ ¬bad .trimFront) (polled : ¬bad .emptyPacketq) :
    Clear bad (t.handle hw e) := by
  cases e with
  | connect iss => exact clear.of_crash (output_crash _)
  | listen iss beyond th p =>
      exact clear.inputHandleListenState beyond iss th p fun isBad =>
        absurd isBad (not_or.mpr header)
  | segment beyond th p => exact absurd rfl (alone beyond th p)
  | send p => exact clear.of_crash (send_crash t p)
  | waitForData => exact clear
  | read => exact clear
  | closeRead => exact clear.of_crash (abortReader_crash t)
  | closeWrite => exact clear.of_crash (close_crash t)
  | shutdownConnect =>
      show Clear bad t.shutdownConnect
      unfold Tcb.shutdownConnect
      split
      · exact clear
      · exact clear.of_crash ((close_crash _).trans (abortReader_crash t))
  | closeContinuation =>
      show Clear bad (closeContinuation hw { t with closeReady := t.closeReady - 1 })
      unfold Tcb.closeContinuation
      exact clear.of_crash ((output_crash _).trans (outputOne_first_crash _))
  | delayedAck => exact clear.of_crash (output_crash _)
  | retransmit =>
      have fired : Clear bad { t with retransmitArmed := false } := clear
      exact fired.retransmit fun isBad => fits isBad rfl
  | persist =>
      exact clear.of_crash ((output_crash _).trans (outputOne_first_crash _))
  | resolved => exact clear
  | arpQueueFull => exact clear
  | arpTimeout =>
      show Clear bad t.arpTimeout
      unfold Tcb.arpTimeout
      dsimp only
      split <;> exact clear
  | getPacket =>
      have taken : Clear bad { t with pollTcbs := t.pollTcbs - 1 } := clear
      exact taken.getPacket polled

theorem Clear.handle (tolerates : Tolerates bad) (e : TcbEvent) (clear : Clear bad t)
    (fits : bad .windowAssertion → t.RetransmitFits e) (header : ¬bad .nullHeader ∧ ¬bad .trimFront) :
    Clear bad (t.handle hw e) := by
  by_cases segment : ∃ beyond th p, e = .segment beyond th p
  · obtain ⟨beyond, th, p, rfl⟩ := segment
    show Clear bad (t.inputHandle hw beyond th p)
    unfold Tcb.inputHandle
    split
    · exact clear.inputHandleSynSentState beyond th p fun isBad =>
        absurd isBad (not_or.mpr header)
    · rename_i other
      exact clear.inputHandleOtherState tolerates th p (fun isBad => absurd isBad header.2)
        fun isBad => fits isBad other
  · refine clear.handleAlone e (fun beyond th p same => segment ⟨beyond, th, p, same⟩) ?_ header
      tolerates.emptyPacketq
    rintro isBad rfl
    exact fits isBad

/-- The crash that is followed here. -/
abbrev IsWindowAssertion (c : Crash) : Prop := c = .windowAssertion

theorem step_clear {t' : Tcb} {e : TcbEvent} (clear : Clear IsWindowAssertion t)
    (fits : t.RetransmitFits e) (next : step hw t e = some t') : Clear IsWindowAssertion t' := by
  have tolerates : Tolerates IsWindowAssertion :=
    ⟨by decide, by decide, by decide, by decide⟩
  unfold step at next
  split at next
  · cases next
    exact clear.handle tolerates e (fun _ => fits) ⟨by decide, by decide⟩
  · cases next

/-- On every run of a connection, whatever its peer, its user and its timers do,
the assertion holds, provided no segment above one byte is sent again through a
closed window. -/
theorem window_assertion_holds (hw : HwFeatures) (id : ConnId) (memory : Tcb)
    (events : List TcbEvent) (t : Tcb) (run : exec (step hw) (new id memory) events = some t)
    (fits : Along (step hw) RetransmitFits (new id memory) events) :
    t.crash ≠ some .windowAssertion := by
  have clear : Clear IsWindowAssertion t :=
    fits.invariant (fun _ _ _ => step_clear) (fun _ crashed => by cases crashed) run
  exact fun crashed => clear _ crashed rfl

end Tcb

/-! ## A peer that closes its window -/

/-- A device of Ethernet size, a connection over memory that is zero, and what a
segment of the peer looks like that has a header and no more. -/
def ethernet : HwFeatures := ⟨true, false, 1500, 65521⟩

def exampleId : ConnId := ⟨0x0a000001, 0x0a000002, 50000, 80⟩

def zeroMemory : Tcb :=
  { id := exampleId
    snd := {
      unacknowledged := ⟨0⟩, next := ⟨0⟩, window := 0, windowScale := 0, mss := 0
      wl1 := ⟨0⟩, wl2 := ⟨0⟩, initial := ⟨0⟩, cwnd := 0, ssthresh := 0, recover := ⟨0⟩ }
    rcv := { next := ⟨0⟩, window := 0, windowScale := 0, mss := 0, initial := ⟨0⟩ }
    option := { localMss := 0 } }

def headerOnly : Impl :=
  ⟨tcpHdrLen, [.outside (List.replicate tcpHdrLen 0)], defaultNrFrags, Impl.newData,
    internalDataSize⟩

def peerSegment (seq ack : BitVec 32) (fSyn : Bool) (window : BitVec 16) : TcpHdr :=
  { srcPort := 80, dstPort := 50000, seq := ⟨seq⟩, ack := ⟨ack⟩, dataOffset := 5
    fFin := false, fSyn, fRst := false, fAck := true, window }

def peerSyn : TcpHdr :=
  { srcPort := 80, dstPort := 50000, seq := ⟨700⟩, ack := ⟨0⟩, dataOffset := 5
    fFin := false, fSyn := true, fRst := false, fAck := false, window := 1000 }

/-- Two segments of two bytes each are in flight, the first is acknowledged with
some window, and the timer of the second fires. -/
def twoSegments (window : BitVec 16) : List TcbEvent :=
  [.connect ⟨100⟩, .resolved, .getPacket,
    .segment (fun _ => 0) (peerSegment 700 101 true 1000) headerOnly, .resolved, .getPacket,
    .send [1, 2], .resolved, .getPacket, .send [3, 4], .resolved, .getPacket,
    .segment (fun _ => 0) (peerSegment 701 103 false window) headerOnly, .retransmit]

/-- A retransmission through an open window. -/
theorem window_assertion_holds_open :
    ∃ t, exec (Tcb.step ethernet) (Tcb.new exampleId zeroMemory) (twoSegments 1000) = some t ∧
      t.queued.length = 5 ∧ t.crash ≠ some .windowAssertion := by
  have run : exec (Tcb.step ethernet) (Tcb.new exampleId zeroMemory) (twoSegments 1000) = some _ :=
    (Option.some_get (by decide)).symm
  exact ⟨_, run, by decide, Tcb.window_assertion_holds ethernet exampleId zeroMemory _ _ run
    (by decide)⟩

/-- The peer closes its window, and the retransmission timer ends the process. -/
theorem retransmission_fails_assertion :
    ∃ t, exec (Tcb.step ethernet) (Tcb.new exampleId zeroMemory) (twoSegments 0) = some t ∧
      t.crash = some .windowAssertion := by
  have run : exec (Tcb.step ethernet) (Tcb.new exampleId zeroMemory) (twoSegments 0) = some _ :=
    (Option.some_get (by decide)).symm
  exact ⟨_, run, by decide⟩

end ActorNet.Tcp
