import ActorNet.Net.Ipv4RoundTrip

/-!
# Fragments of several payloads

`ipv4::send` writes 0 into the identification of every packet, so that the
fragments of all payloads of a protocol between two hosts share an entry of
`_frags`. A datagram is one of the payloads as long as no fragment of another
payload comes in while those of one are kept (`Alone`).
-/

namespace ActorNet.Net

open Lib Lib.Slices

/-- A packet that is sent for a payload comes in, or the entry is dropped, by the
timer or for its memory. -/
inductive Arrival
  | packet (p pkt : List Byte)
  | expire
  deriving DecidableEq, Repr

/-- The receive path, and the payloads that fragments kept in the entry are of. -/
structure Mixing where
  state : ReceiveState
  pending : List (List Byte)

def Mixing.start : Mixing := ⟨Receiver.init, []⟩

/-- One event; packets that were not sent do not come in. -/
def arrive (s : Sender) (r : Receiver) (protoNum : IpProtocolNum) (w : Mixing) :
    Arrival → Option Mixing
  | .packet p pkt =>
      if pkt ∈ (s.send r.hostAddress protoNum p).getD [] then
        (r.step w.state pkt).map fun st =>
          ⟨st, if (st.frags (fragId s r protoNum)).isSome then p :: w.pending else []⟩
      else none
  | .expire => some
      ⟨{ w.state with frags := Function.update w.state.frags (fragId s r protoNum) none }, []⟩

/-- The room for payload is a multiple of eight, and what is kept is of the
payload the packet is of. -/
def Alone (s : Sender) (w : Mixing) : Arrival → Prop
  | .packet p _ => 8 ∣ s.mtu - ipv4HdrLenMin ∧ ∀ q ∈ w.pending, q = p
  | .expire => True

instance (s : Sender) (w : Mixing) : ∀ e, Decidable (Alone s w e)
  | .packet _ _ => inferInstanceAs (Decidable (_ ∧ _))
  | .expire => .isTrue trivial

/-- What is handed on is one of the payloads that packets came in of. -/
def Isolated (s : Sender) (r : Receiver) (protoNum : IpProtocolNum) (es : List Arrival)
    (handed : List Handed) : Prop :=
  ∀ out ∈ handed, ∃ p pkt, Arrival.packet p pkt ∈ es ∧
    r.Delivers protoNum p s.hostAddress r.hostAddress out

variable {s : Sender} {r : Receiver} {protoNum : IpProtocolNum} {w w' : Mixing}

/-- What is kept is of one payload, and what was handed on are payloads. -/
structure Sorted (s : Sender) (r : Receiver) (protoNum : IpProtocolNum) (es : List Arrival)
    (w : Mixing) : Prop where
  kept : ∀ p, (∀ q ∈ w.pending, q = p) → ∃ seen m,
    Holds s r protoNum p (fun b d => Slice p b d ∧ d ≠ []) seen (kept s r protoNum w.state) m
  handed : Isolated s r protoNum es w.state.handed

theorem sorted_start : Sorted s r protoNum [] Mixing.start :=
  ⟨fun _ _ => ⟨[], [], .empty⟩, List.forall_mem_nil _⟩

theorem Isolated.more {es : List Arrival} {handed : List Handed}
    (isolated : Isolated s r protoNum es handed) (e : Arrival) :
    Isolated s r protoNum (es ++ [e]) handed := by
  intro out mem
  obtain ⟨p, pkt, came, delivers⟩ := isolated out mem
  exact ⟨p, pkt, List.mem_append_left _ came, delivers⟩

/-- An entry that is gone is that of any payload. -/
theorem holds_of_none {st : ReceiveState} (none_ : (st.frags (fragId s r protoNum)) = none)
    (p : List Byte) : ∃ seen m, Holds s r protoNum p (fun b d => Slice p b d ∧ d ≠ []) seen
      (kept s r protoNum st) m := by
  refine ⟨[], [], ?_⟩
  rw [Net.kept, none_]
  exact .empty

theorem Sorted.packet (offload : r.rxCsumOffload = true) {es : List Arrival}
    (sorted : Sorted s r protoNum es w) {p pkt : List Byte} (path : Path s r protoNum p)
    (alone : Alone s w (.packet p pkt)) (next : arrive s r protoNum w (.packet p pkt) = some w') :
    Sorted s r protoNum (es ++ [.packet p pkt]) w' := by
  obtain ⟨pkts, sent, mem⟩ := path.send
  obtain ⟨eight, only⟩ := alone
  obtain ⟨seen, m, holds⟩ := sorted.kept p only
  simp only [arrive, sent, Option.getD_some, Option.ite_none_right_eq_some,
    Option.map_eq_some_iff] at next
  obtain ⟨came, st, run, rfl⟩ := next
  obtain ⟨k, sent_k, rfl⟩ := (mem pkt).mp came
  obtain ⟨st', run', ⟨same, incomplete, m', holds'⟩ | ⟨out, d, handed, delivers, assembled,
    fresh⟩⟩ := step_fragment path offload (pieces_slice p).nonempty path.short holds sent_k.2
      sent_k.1 (path.slice eight sent_k)
  · obtain rfl : st = st' := Option.some.inj (run.symm.trans run')
    refine ⟨fun q all => ?_, ?_⟩
    · by_cases there : (st.frags (fragId s r protoNum)).isSome
      · obtain rfl : p = q := all p (by rw [if_pos there]; exact List.mem_cons_self)
        exact ⟨_, m', holds'⟩
      · exact holds_of_none (by simpa using there) q
    · rw [same]
      exact sorted.handed.more _
  · obtain rfl : st = st' := Option.some.inj (run.symm.trans run')
    refine ⟨fun q _ => ⟨[], [], fresh ▸ .empty⟩, ?_⟩
    rw [handed]
    refine List.forall_mem_cons.mpr ⟨?_, sorted.handed.more _⟩
    obtain rfl : d = p := (assembled.eq_payload path eight).1
    exact ⟨d, _, List.mem_append_right _ (List.mem_singleton.mpr rfl), delivers⟩

theorem Sorted.expire {es : List Arrival} (sorted : Sorted s r protoNum es w)
    (next : arrive s r protoNum w .expire = some w') :
    Sorted s r protoNum (es ++ [.expire]) w' := by
  obtain rfl := Option.some.inj next
  exact ⟨fun p _ => holds_of_none (by simp) p, sorted.handed.more _⟩

/-- A receiver that checks the checksum itself hands nothing on. -/
theorem nothing_of_no_offload (offload : r.rxCsumOffload = false) {es : List Arrival}
    (run : exec (arrive s r protoNum) Mixing.start es = some w) : w.state.handed = [] := by
  refine exec_invariant (I := fun w => w.state.handed = []) (fun w e w' empty next => ?_) rfl run
  cases e with
  | expire =>
      obtain rfl := Option.some.inj next
      exact empty
  | packet p pkt =>
      simp only [arrive, Option.ite_none_right_eq_some, Option.map_eq_some_iff] at next
      obtain ⟨_, st, run, rfl⟩ := next
      rw [step_of_no_offload offload] at run
      obtain rfl := Option.some.inj run
      exact empty

/-- Payloads in fragments, from one host to another: in every run in which no
fragment comes in while those of another payload are kept, what is handed on is
one of the payloads. -/
theorem payloads_isolated {es : List Arrival}
    (paths : ∀ p pkt, Arrival.packet p pkt ∈ es → Path s r protoNum p)
    (alone : Along (arrive s r protoNum) (Alone s) Mixing.start es)
    (run : exec (arrive s r protoNum) Mixing.start es = some w) :
    Isolated s r protoNum es w.state.handed := by
  cases offload : r.rxCsumOffload with
  | false =>
      rw [nothing_of_no_offload offload run]
      exact List.forall_mem_nil _
  | true =>
      have sent : ∀ e ∈ es, ∀ p pkt, e = .packet p pkt → Path s r protoNum p := by
        rintro _ mem p pkt rfl
        exact paths p pkt mem
      have sorted := Along.history (I := Sorted s r protoNum) (fun past w e w' sorted ok next => ?_)
        sorted_start (alone.and (Along.of_mem sent _)) run
      · exact sorted.handed
      · cases e with
        | packet p pkt => exact sorted.packet offload (ok.2 p pkt rfl) ok.1 next
        | expire => exact sorted.expire next

/-! ## Payloads of nine bytes, in fragments of eight bytes and one -/

/-- Host 1, on a link that takes 8 bytes of payload in a packet. -/
def hostOne : Sender := ⟨28, false, false, none, 1⟩

/-- Host 2, which has one cpu. -/
def oneCpu : Receiver := ⟨true, 2, none, 0, fun _ => 0⟩

/-- The fragment of nine such bytes that is sent for an offset. -/
def nineBytes (b : Byte) (k : Nat) : Arrival :=
  .packet (List.replicate 9 b) (hostOne.fragment 2 .udp (List.replicate 9 b) k)

theorem path_nineBytes (b : Byte) : Path hostOne oneCpu .udp (List.replicate 9 b) := by
  refine ⟨by decide, by decide, by decide, by decide, ?_, ?_, rfl⟩
  · rw [List.length_replicate]
    decide
  · simp only [Sender.needsFrag, List.length_replicate]
    decide

theorem payloads_isolated_nineBytes : ∃ w,
    exec (arrive hostOne oneCpu .udp) Mixing.start [nineBytes 7 8, nineBytes 7 0] = some w ∧
      w.state.handed ≠ [] ∧
      Isolated hostOne oneCpu .udp [nineBytes 7 8, nineBytes 7 0] w.state.handed := by
  have run : (exec (arrive hostOne oneCpu .udp) Mixing.start [nineBytes 7 8, nineBytes 7 0]).map
      (fun w => w.state.handed) = some [.received .udp (List.replicate 9 7) 1 2] := by
    decide +kernel
  obtain ⟨w, run, handed⟩ := Option.map_eq_some_iff.mp run
  refine ⟨w, run, by rw [handed]; exact List.cons_ne_nil _ _,
    payloads_isolated ?_ (by decide +kernel) run⟩
  intro p pkt mem
  have same : p = List.replicate 9 7 := by
    simp only [nineBytes, List.mem_cons, Arrival.packet.injEq, List.not_mem_nil, or_false] at mem
    rcases mem with mem | mem
    · exact mem.1
    · exact mem.1
  subst same
  exact path_nineBytes 7

/-- The first fragment of one payload and the last of another make a datagram. -/
theorem payloads_mixed : ∃ w,
    exec (arrive hostOne oneCpu .udp) Mixing.start [nineBytes 0 0, nineBytes 1 8] = some w ∧
      w.state.handed = [.received .udp (List.replicate 8 0 ++ [1]) 1 2] ∧
      ¬Isolated hostOne oneCpu .udp [nineBytes 0 0, nineBytes 1 8] w.state.handed := by
  have run : (exec (arrive hostOne oneCpu .udp) Mixing.start [nineBytes 0 0, nineBytes 1 8]).map
      (fun w => w.state.handed) = some [.received .udp (List.replicate 8 0 ++ [1]) 1 2] := by
    decide +kernel
  obtain ⟨w, run, handed⟩ := Option.map_eq_some_iff.mp run
  refine ⟨w, run, handed, fun isolated => ?_⟩
  obtain ⟨p, pkt, mem, _, same, _⟩ := isolated _ (handed ▸ List.mem_cons_self)
  simp only [nineBytes, List.mem_cons, Arrival.packet.injEq, List.not_mem_nil, or_false] at mem
  rcases mem with ⟨rfl, _⟩ | ⟨rfl, _⟩
  · exact absurd same (by decide)
  · exact absurd same (by decide)

end ActorNet.Net
