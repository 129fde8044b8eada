import ActorNet.Tcp.WindowAssertion

/-!
# The congestion window and the data in flight

`can_send` takes the smallest of the congestion window, the room in the peer's
window and the queue. Only the limited transfer after one or two duplicate
acknowledgements takes off what is in flight already; before the first one, each
packet is held to the whole congestion window by itself.
-/

namespace ActorNet.Tcp

open Lib Net

namespace Tcb

variable {t : Tcb} {hw : HwFeatures}

/-! ## What `can_send` allows -/

/-- The bytes sent and not yet acknowledged, by their numbers. -/
def windowUsed (t : Tcb) : BitVec 32 := t.snd.next - t.snd.unacknowledged

/-- What the peer's window lets out of the queue. -/
def windowRoom (t : Tcb) : Nat :=
  min (t.snd.window.toNat - t.windowUsed.toNat) t.snd.unsentLen.toNat

/-- The payload of the segments in flight. -/
def inFlight (t : Tcb) : Nat := (t.snd.data.map fun seg => seg.p.length).sum

/-- The limit of a limited transfer: two segments above the congestion window. -/
def limitedMost (t : Tcb) : BitVec 32 := t.snd.cwnd + 2 * t.snd.mss.setWidth 32

theorem toNat_flightSize (t : Tcb) : t.flightSize.toNat = t.inFlight % 2 ^ 32 :=
  BitVec.toNat_ofNat ..

theorem toNat_flightSize_of_lt (few : t.inFlight < 2 ^ 32) : t.flightSize.toNat = t.inFlight := by
  rw [toNat_flightSize, Nat.mod_eq_of_lt few]

/-- The smallest of the three, if the window is not overrun. -/
theorem toNat_smallest (fits : ¬t.snd.window < t.windowUsed) :
    (min t.snd.cwnd (min (t.snd.window - t.windowUsed) t.snd.unsentLen)).toNat =
      min t.snd.cwnd.toNat t.windowRoom := by
  have le : t.windowUsed.toNat ≤ t.snd.window.toNat := Nat.not_lt.mp fits
  rw [toNat_min, toNat_min, BitVec.toNat_sub_of_le le]
  rfl

theorem windowRoom_overrun (overrun : t.snd.window < t.windowUsed) : t.windowRoom = 0 := by
  have lt : t.snd.window.toNat < t.windowUsed.toNat := overrun
  unfold windowRoom
  omega

theorem windowRoom_shut (shut : t.snd.window = 0) : t.windowRoom = 0 := by
  unfold windowRoom
  rw [shut]
  show min (0 - _) _ = 0
  omega

/-- Outside a probe and a limited transfer. -/
theorem toNat_canSend (noProbe : t.snd.windowProbe = false) (calm : t.snd.dupacks = 0) :
    t.canSend.1.toNat = min t.snd.cwnd.toNat t.windowRoom := by
  have notLimited : ¬(t.snd.dupacks = 1 ∨ t.snd.dupacks = 2) := by
    rw [calm]
    decide
  have notMore : ¬3 ≤ t.snd.dupacks := by
    rw [calm]
    decide
  unfold canSend
  rw [if_neg (by simp [noProbe])]
  split
  · rename_i shut
    rw [windowRoom_shut shut, Nat.min_zero]
    rfl
  dsimp only
  split
  · rename_i overrun
    rw [windowRoom_overrun overrun, Nat.min_zero]
    rfl
  rename_i fits
  exact toNat_smallest fits

/-- In a limited transfer. -/
theorem toNat_canSend_limited (noProbe : t.snd.windowProbe = false)
    (limited : t.snd.dupacks = 1 ∨ t.snd.dupacks = 2) :
    t.canSend.1.toNat = min (min t.snd.cwnd.toNat t.windowRoom)
      (t.limitedMost.toNat - t.flightSize.toNat) := by
  unfold canSend
  rw [if_neg (by simp [noProbe])]
  split
  · rename_i shut
    rw [windowRoom_shut shut, Nat.min_zero, Nat.zero_min]
    rfl
  dsimp only
  split
  · rename_i overrun
    rw [windowRoom_overrun overrun, Nat.min_zero, Nat.zero_min]
    rfl
  rename_i fits
  dsimp only
  split
  · rename_i inside
    have le : t.flightSize.toNat ≤ t.limitedMost.toNat := inside
    show (min _ (t.limitedMost - t.flightSize)).toNat = _
    rw [toNat_min, BitVec.toNat_sub_of_le le]
    exact congrArg (min · _) (toNat_smallest fits)
  · rename_i beyond
    have lt : t.limitedMost.toNat < t.flightSize.toNat := Nat.not_le.mp beyond
    have none : t.limitedMost.toNat - t.flightSize.toNat = 0 := by omega
    rw [none, Nat.min_zero]
    rfl

/-! ## What `get_transmit_packet` takes -/

theorem canSend_maxPayload (t : Tcb) : t.canSend.2.maxPayload hw = t.maxPayload hw := by
  have mss : t.canSend.2.snd.mss = t.snd.mss := congrArg (fun b => b.mss) t.canSend_bearing
  unfold maxPayload
  rw [mss]

/-- What a packet can hold of the queue. -/
def packetRoom (hw : HwFeatures) (t : Tcb) : Nat :=
  min (t.maxPayload hw).toNat t.snd.unsent.flatten.length

theorem getTransmitPacket_length_eq (t : Tcb) :
    (t.getTransmitPacket hw).1.length = min t.canSend.1.toNat (t.packetRoom hw) := by
  unfold getTransmitPacket packetRoom
  split
  · rename_i empty
    rw [List.isEmpty_iff.mp empty]
    simp
  · dsimp only
    rw [takeUnsent_length, toNat_min, canSend_maxPayload, canSend_unsent]
    omega

/-! ## Transmissions -/

/-- The state `close` comes to before it has a segment built. -/
def finishing (t : Tcb) : Tcb :=
  { t with
    closeReady := t.closeReady - 1
    snd := { t.snd with closed := true }
    state := match t.state with
      | .closeWait => .lastAck
      | .established => .finWait1
      | state => state }

/-- The state in which an event has `get_transmit_packet` called outside a probe
of the window: by a poll that finds no packet waiting, and by `close`. -/
def transmits (t : Tcb) : TcbEvent → Option Tcb
  | .getPacket =>
      if t.packetq.isEmpty ∧ t.state ≠ .closed then
        some { t with pollTcbs := t.pollTcbs - 1, pollActive := false }
      else none
  | .closeContinuation => if t.finishing.state ≠ .closed then some t.finishing else none
  | _ => none

/-- What is taken goes out in flight within the congestion window, and within two
segments more in a limited transfer. -/
def WithinCwnd (hw : HwFeatures) (u : Tcb) : Prop :=
  let p := (u.getTransmitPacket hw).1
  p ≠ [] →
    (u.snd.dupacks = 0 → u.inFlight + p.length ≤ u.snd.cwnd.toNat) ∧
    (u.snd.dupacks = 1 ∨ u.snd.dupacks = 2 →
      u.inFlight + p.length ≤ u.snd.cwnd.toNat + 2 * u.snd.mss.toNat)

instance (hw : HwFeatures) (u : Tcb) : Decidable (u.WithinCwnd hw) := by
  unfold WithinCwnd
  infer_instance

/-- Every transmission of an event is within the congestion window. -/
def LimitsFlight (hw : HwFeatures) (t : Tcb) (e : TcbEvent) : Prop :=
  ∀ u ∈ t.transmits e, u.snd.windowProbe = false → u.WithinCwnd hw

/-- What window, queue and packet let out, the congestion window apart. -/
def letOut (hw : HwFeatures) (u : Tcb) : Nat := min u.windowRoom (u.packetRoom hw)

/-- Before the first duplicate acknowledgement: nothing is in flight, or nothing
can go out, or what goes out fits beside what is in flight. -/
def FitsBeside (hw : HwFeatures) (u : Tcb) : Prop :=
  u.snd.dupacks = 0 → u.inFlight = 0 ∨ u.snd.cwnd = 0 ∨ u.letOut hw = 0 ∨
    u.inFlight + u.letOut hw ≤ u.snd.cwnd.toNat

/-- Every transmission of an event leaves room for what is in flight. -/
def CountsFlight (hw : HwFeatures) (t : Tcb) (e : TcbEvent) : Prop :=
  ∀ u ∈ t.transmits e, u.snd.windowProbe = false → u.FitsBeside hw

/-- `flight_size` does not overflow in a limited transfer. -/
def FewInFlight (t : Tcb) (e : TcbEvent) : Prop :=
  ∀ u ∈ t.transmits e, u.snd.dupacks = 1 ∨ u.snd.dupacks = 2 → u.inFlight < 2 ^ 32

instance (hw : HwFeatures) (t : Tcb) (e : TcbEvent) : Decidable (t.LimitsFlight hw e) := by
  unfold LimitsFlight
  infer_instance

instance (hw : HwFeatures) (u : Tcb) : Decidable (u.FitsBeside hw) := by
  unfold FitsBeside
  infer_instance

instance (hw : HwFeatures) (t : Tcb) (e : TcbEvent) : Decidable (t.CountsFlight hw e) := by
  unfold CountsFlight
  infer_instance

instance (t : Tcb) (e : TcbEvent) : Decidable (t.FewInFlight e) := by
  unfold FewInFlight
  infer_instance

/-- A limited transfer takes off what is in flight. -/
theorem limited_within (noProbe : t.snd.windowProbe = false)
    (limited : t.snd.dupacks = 1 ∨ t.snd.dupacks = 2) (few : t.inFlight < 2 ^ 32)
    (some_ : (t.getTransmitPacket hw).1 ≠ []) :
    t.inFlight + (t.getTransmitPacket hw).1.length ≤ t.snd.cwnd.toNat + 2 * t.snd.mss.toNat := by
  have positive := List.length_pos_iff.mpr some_
  have taken := @getTransmitPacket_length hw t
  have allowed := toNat_canSend_limited noProbe limited
  have flight := toNat_flightSize_of_lt few
  have most : t.limitedMost.toNat ≤ t.snd.cwnd.toNat + 2 * t.snd.mss.toNat := by
    unfold limitedMost
    have mss := t.snd.mss.isLt
    rw [BitVec.toNat_add, BitVec.toNat_mul, BitVec.toNat_setWidth]
    show _ % 2 ^ 32 ≤ _
    have two : (2 : BitVec 32).toNat = 2 := rfl
    rw [two]
    omega
  omega

/-- One transmission, before the first duplicate acknowledgement. -/
theorem calm_within_iff (noProbe : t.snd.windowProbe = false) (calm : t.snd.dupacks = 0) :
    ((t.getTransmitPacket hw).1 ≠ [] →
      t.inFlight + (t.getTransmitPacket hw).1.length ≤ t.snd.cwnd.toNat) ↔ t.FitsBeside hw := by
  have taken : (t.getTransmitPacket hw).1.length = min t.snd.cwnd.toNat (t.letOut hw) := by
    rw [getTransmitPacket_length_eq, toNat_canSend noProbe calm, letOut, Nat.min_assoc]
  have zero : t.snd.cwnd = 0 ↔ t.snd.cwnd.toNat = 0 := (@BitVec.toNat_inj 32 _ 0#32).symm
  unfold FitsBeside
  rw [← List.length_pos_iff, taken, zero]
  constructor
  · intro within _
    omega
  · intro fits some_
    have fits := fits calm
    omega

theorem withinCwnd_iff (noProbe : t.snd.windowProbe = false)
    (few : t.snd.dupacks = 1 ∨ t.snd.dupacks = 2 → t.inFlight < 2 ^ 32) :
    t.WithinCwnd hw ↔ t.FitsBeside hw := by
  unfold WithinCwnd
  dsimp only
  constructor
  · intro within calm
    exact (calm_within_iff noProbe calm).mp (fun some_ => (within some_).1 calm) calm
  · intro fits some_
    refine ⟨fun calm => (calm_within_iff noProbe calm).mpr fits some_, fun limited => ?_⟩
    exact limited_within noProbe limited (few limited) some_

/-- On every run the flight is limited exactly when, before the first duplicate
acknowledgement, each transmission leaves room for what is in flight already. -/
theorem flight_limited_iff (hw : HwFeatures) (id : ConnId) (memory : Tcb)
    (events : List TcbEvent) (t : Tcb) (run : exec (step hw) (new id memory) events = some t)
    (few : Along (step hw) FewInFlight (new id memory) events) :
    Along (step hw) (LimitsFlight hw) (new id memory) events ↔
      Along (step hw) (CountsFlight hw) (new id memory) events := by
  refine few.congr run fun s e few => ?_
  constructor
  · intro limits u call noProbe
    exact (withinCwnd_iff noProbe (few u call)).mp (limits u call noProbe)
  · intro counts u call noProbe
    exact (withinCwnd_iff noProbe (few u call)).mpr (counts u call noProbe)

end Tcb

/-! ## A poll after a poll -/

/-- A peer that takes segments of ten bytes. -/
def tinySegments : Impl :=
  ⟨24, [.outside (List.replicate tcpHdrLen 0 ++ [2, 4, 0, 10])], defaultNrFrags, Impl.newData,
    internalDataSize⟩

/-- A congestion window of forty bytes, and so many bytes to send in polls of
their own. -/
def tinyPolls (bytes polls : Nat) : List TcbEvent :=
  [.connect ⟨100⟩, .resolved, .getPacket,
    .segment (fun _ => 0) { peerSegment 700 101 true 1000 with dataOffset := 6 } tinySegments,
    .resolved, .getPacket, .send (List.replicate bytes 0)] ++
  (List.replicate polls [.resolved, .getPacket]).flatten

/-- Forty bytes in four polls fit. -/
theorem flight_limited_forty :
    ∃ t, exec (Tcb.step ethernet) (Tcb.new exampleId zeroMemory) (tinyPolls 40 4) = some t ∧
      t.inFlight = 40 ∧ Along (Tcb.step ethernet) (Tcb.LimitsFlight ethernet)
        (Tcb.new exampleId zeroMemory) (tinyPolls 40 4) := by
  have run : exec (Tcb.step ethernet) (Tcb.new exampleId zeroMemory) (tinyPolls 40 4) = some _ :=
    (Option.some_get (by decide)).symm
  exact ⟨_, run, by decide,
    (Tcb.flight_limited_iff ethernet exampleId zeroMemory _ _ run (by decide)).mpr (by decide)⟩

/-- Of sixty bytes the fifth and the sixth segment go out above the window. -/
theorem flight_above_cwnd :
    ∃ t, exec (Tcb.step ethernet) (Tcb.new exampleId zeroMemory) (tinyPolls 60 6) = some t ∧
      t.snd.cwnd = 40 ∧ t.snd.dupacks = 0 ∧ t.inFlight = 60 ∧
      ¬Along (Tcb.step ethernet) (Tcb.LimitsFlight ethernet) (Tcb.new exampleId zeroMemory)
        (tinyPolls 60 6) := by
  have run : exec (Tcb.step ethernet) (Tcb.new exampleId zeroMemory) (tinyPolls 60 6) = some _ :=
    (Option.some_get (by decide)).symm
  exact ⟨_, run, by decide, by decide, by decide, by decide⟩

end ActorNet.Tcp
