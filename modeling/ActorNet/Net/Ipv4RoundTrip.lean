import ActorNet.Lib.Run
import ActorNet.Net.Ipv4Fragments

/-!
# Fragments that arrive in any order make up the datagram

What the receive path makes of the fragments of a payload when they arrive in
any order and any number of times. The receiver reads the fragment offset in
units of eight bytes, and the sender may cut anywhere: the two agree when the
room for payload is a multiple of eight. The receiver also has to leave the
header checksum to the device (`fragments_round_trip_iff`).
-/

namespace ActorNet.Net

open Lib Lib.Slices

theorem l4_value (protoNum : IpProtocolNum) : l4 protoNum.value = some protoNum := by
  cases protoNum <;> rfl

/-- The header and the payload of a packet of a header without options. -/
theorem Wire.parts {pkt d : List Byte} {h : IpHdr} (wire : Wire pkt h d) :
    pkt.take (h.ihl * 4) = h.hton ∧ PacketMerger.trimFront (h.ihl * 4) pkt = some d := by
  have start : h.ihl * 4 = h.hton.length := by rw [wire.ihl, h.length_hton]; rfl
  have inside : h.hton.length ≤ (h.hton ++ d).length := by
    rw [List.length_append]
    exact Nat.le_add_right _ _
  rw [wire.shape, start]
  exact ⟨List.take_left, by rw [PacketMerger.trimFront, if_pos inside, List.drop_left]⟩

namespace Receiver

/-- What the protocol gets from a packet that is handed on, here or on another
cpu. -/
def Delivers (r : Receiver) (protoNum : IpProtocolNum) (p : List Byte) (src dst : Nat) :
    Handed → Prop
  | .received protoNum' p' src' dst' => protoNum' = protoNum ∧ p' = p ∧ src' = src ∧ dst' = dst
  | .forwarded cpu pkt => ∀ st,
      { r with shard := cpu }.handleReceivedPacket true st pkt =
        some { st with handed := .received protoNum p src dst :: st.handed }

/-- Only one payload is delivered. -/
theorem Delivers.unique {r : Receiver} {protoNum : IpProtocolNum} {p q : List Byte}
    {src dst : Nat} {out : Handed} (first : r.Delivers protoNum p src dst out)
    (second : r.Delivers protoNum q src dst out) : p = q := by
  cases out with
  | received protoNum' p' src' dst' => exact first.2.1.symm.trans second.2.1
  | forwarded cpu pkt =>
      have same := (first init).symm.trans (second init)
      simpa [init] using same

/-- A packet of a header without options, past the checks at the door. -/
theorem handle_wire (r : Receiver) {pkt d : List Byte} {h : IpHdr} (wire : Wire pkt h d) {reassembled : Bool}
    (unchecked : r.rxCsumOffload = true ∨ reassembled = true)
    (small : h.offset + (ipv4HdrLenMin + d.length) ≤ ipPacketLenMax)
    (filter : r.packetFilter = none) (own : h.dstIp = r.hostAddress) (st : ReceiveState) :
    r.handleReceivedPacket reassembled st pkt =
      if h.mf ∨ h.offset ≠ 0 then r.handleFrag st h pkt
      else match l4 h.ipProto with
        | none => some st
        | some protoNum =>
            some { st with handed := .received protoNum d h.srcIp h.dstIp :: st.handed } := by
  have length : pkt.length = h.len := by
    rw [wire.shape, List.length_append, h.length_hton, wire.len]
  have long : ¬pkt.length < ipv4HdrLenMin := by rw [length, wire.len]; omega
  have header : IpHdr.ntoh pkt = h := by rw [wire.shape, IpHdr.ntoh_hton h wire.fits]
  have whole : pkt.take h.len = pkt := List.take_of_length_le length.le
  have skip : ¬(¬r.rxCsumOffload = true ∧ ¬reassembled = true ∧
      ipv4ChecksumOk (pkt.take ipv4HdrLenMin) ≠ some true) := by
    rcases unchecked with offload | again
    · exact fun bad => bad.1 offload
    · exact fun bad => bad.2.1 again
  rw [handleReceivedPacket, if_neg long, if_neg skip]
  simp only [header, length, lt_irrefl, if_false, whole, filter, Option.any_none,
    Bool.false_eq_true, own, ne_eq, not_true, wire.parts.2]
  rw [if_neg (by rw [wire.len]; omega)]
  split
  · rfl
  · cases l4 h.ipProto <;> rfl

end Receiver

/-! ## One datagram being put together -/

/-- A payload on its way in fragments, between two hosts. -/
structure Path (s : Sender) (r : Receiver) (protoNum : IpProtocolNum) (p : List Byte) :
    Prop where
  src : s.hostAddress < 2 ^ 32
  dst : r.hostAddress < 2 ^ 32
  mtu : 28 ≤ s.mtu
  mtu_fits : s.mtu < 2 ^ 16
  short : p.length ≤ 65515
  needsFrag : s.needsFrag p protoNum = true
  filter : r.packetFilter = none

/-- The offset a fragment says it has. -/
def toldOffset (k : Nat) : Nat := 8 * (k / 8)

/-- The id of the datagram. -/
def fragId (s : Sender) (r : Receiver) (protoNum : IpProtocolNum) : FragId :=
  ⟨s.hostAddress, r.hostAddress, 0, protoNum.value⟩

/-- What is kept of a datagram of which the fragments sent for the offsets `seen`
have arrived. -/
structure Holds (s : Sender) (r : Receiver) (protoNum : IpProtocolNum) (p : List Byte)
    (P : Nat → List Byte → Prop) (seen : List Nat) (f : Frag) (m : PacketMerger.Map Nat) :
    Prop where
  sent : ∀ k ∈ seen, s.room ∣ k ∧ k < p.length
  data : f.data = PacketMerger.placed (BitVec.ofNat 32) m
  gapped : Gapped m
  each : Each P m
  covers : ∀ j, Covers m j ↔
    ∃ k ∈ seen, toldOffset k ≤ j ∧ j < toldOffset k + (s.piece p k).length
  last : f.lastFragReceived = true ↔ ∃ k ∈ seen, p.length ≤ k + s.room
  header : 0 ∈ seen → ∃ h, s.FragmentHdr r.hostAddress protoNum p 0 h ∧ f.header = h.hton

section Path

variable {s : Sender} {r : Receiver} {protoNum : IpProtocolNum} {p : List Byte}
variable {P : Nat → List Byte → Prop} {size : Nat} {seen : List Nat} {f : Frag}
variable {m : PacketMerger.Map Nat}

theorem Path.room (path : Path s r protoNum p) : 8 ≤ s.room := by
  have := path.mtu
  simp only [Sender.room, ipv4HdrLenMin]
  omega

theorem Path.long (path : Path s r protoNum p) : s.room < p.length := by
  have long := path.needsFrag
  have := path.mtu
  unfold Sender.needsFrag at long
  split at long
  · exact nomatch long
  · simp only [Sender.room, ipv4HdrLenMin] at *
    omega

theorem Holds.empty : Holds s r protoNum p P [] .empty [] := by
  refine ⟨List.forall_mem_nil _, rfl, .nil, List.forall_mem_nil _, by simp, ?_, by simp⟩
  simp [Frag.empty]

/-- A fragment more. -/
theorem Holds.merge (path : Path s r protoNum p) (pieces : Pieces P size) (fits : size < 2 ^ 32)
    (holds : Holds s r protoNum p P seen f m) {k : Nat} {h : IpHdr}
    (hdr : s.FragmentHdr r.hostAddress protoNum p k h) (inside : k < p.length)
    (aligned : s.room ∣ k) (piece : P (toldOffset k) (s.piece p k)) :
    ∃ f' m', (if h.mf then f else { f with lastFragReceived := true }).merge h h.offset
        (s.fragment r.hostAddress protoNum p k) = some f' ∧
      Holds s r protoNum p P (k :: seen) f' m' := by
  obtain ⟨m', run, gapped, each, covers⟩ := PacketMerger.merge_spec PacketMerger.window_uint32
    pieces fits holds.gapped holds.each piece
  obtain ⟨header, payload⟩ := hdr.wire.parts
  rw [← holds.data] at run
  have offset : h.offset = toldOffset k := hdr.offset
  refine ⟨⟨if toldOffset k = 0 then h.hton else f.header, PacketMerger.placed (BitVec.ofNat 32) m',
    if h.mf then f.lastFragReceived else true⟩, m', ?_,
    List.forall_mem_cons.mpr ⟨⟨aligned, inside⟩, holds.sent⟩, rfl, gapped, each, fun j => ?_, ?_,
    ?_⟩
  · cases mf : h.mf <;>
      simp only [Frag.merge, header, payload, offset, run, Bool.false_eq_true, if_true, if_false,
        Option.bind_eq_bind, Option.bind_some]
  · rw [covers, holds.covers, or_comm]
    simp
  · have mf := hdr.mf
    cases more : h.mf with
    | true =>
        rw [more] at mf
        have := of_decide_eq_true mf.symm
        simp only [if_true, holds.last, List.mem_cons, exists_eq_or_imp]
        exact ⟨.inr, fun covered => covered.resolve_left (by omega)⟩
    | false =>
        rw [more] at mf
        have := of_decide_eq_false mf.symm
        simp only [Bool.false_eq_true, if_false, true_iff]
        exact ⟨k, List.mem_cons_self, by omega⟩
  · intro first
    by_cases zero : toldOffset k = 0
    · have room := path.room
      have : k = 0 := by
        refine (eq_of_dvd_of_lt (Nat.dvd_zero s.room) aligned (Nat.zero_le k) ?_).symm
        simp only [toldOffset] at zero
        omega
      subst this
      exact ⟨h, hdr, by simp only [if_pos zero]⟩
    · rcases List.mem_cons.mp first with rfl | old
      · exact absurd rfl zero
      · simpa only [if_neg zero] using holds.header old

/-- A datagram is complete when one segment is left and it begins at offset 0. -/
theorem Holds.complete (holds : Holds s r protoNum p P seen f m) (pieces : Pieces P size)
    (fits : size < 2 ^ 32) (complete : f.isComplete = true) :
    ∃ d, m = [(0, d)] ∧ f.lastFragReceived = true := by
  unfold Frag.isComplete at complete
  rw [holds.data] at complete
  match m, holds.each with
  | [], _ => exact nomatch complete
  | _ :: _ :: _, _ => exact nomatch complete
  | [(b, d)], each =>
      have inside := pieces.inside b d each.head
      simp only [PacketMerger.placed, List.map_cons, List.map_nil, Bool.and_eq_true,
        beq_iff_eq] at complete
      have zero : b = 0 := by
        have := congrArg BitVec.toNat complete.2
        simpa [Nat.mod_eq_of_lt (show b < 4294967296 by omega)] using this
      exact ⟨d, by rw [zero], complete.1⟩

/-- Conversely. -/
theorem Holds.isComplete (holds : Holds s r protoNum p P seen f m) {d : List Byte}
    (single : m = [(0, d)]) (last : f.lastFragReceived = true) : f.isComplete = true := by
  subst single
  simp [Frag.isComplete, holds.data, PacketMerger.placed, last]

/-- A whole datagram for another cpu, with its header, is a packet of the
payload that is not a fragment. -/
theorem assembled_wire {h : IpHdr} (hdr : s.FragmentHdr r.hostAddress protoNum p 0 h)
    {d : List Byte} (short : d.length ≤ 65515) {f : Frag} (header : f.header = h.hton)
    {b : BitVec 32} (data : f.data = [(b, d)]) :
    Wire f.getAssembledPacket { h with len := ipv4HdrLenMin + d.length, frag := 0 } d := by
  have fits := hdr.wire.fits
  have small : ipv4HdrLenMin + d.length < 2 ^ 16 := by
    simp only [ipv4HdrLenMin]
    omega
  refine ⟨?_, { fits with len := small, frag := Nat.two_pow_pos 16 }, hdr.wire.ihl, rfl⟩
  let front := toBytesBE 1 (h.ihl + 16 * h.ver) ++ toBytesBE 1 (h.dscp + 64 * h.ecn)
  let back := toBytesBE 1 h.ttl ++ (toBytesBE 1 h.ipProto ++ (toBytesBE 2 h.csum ++
    (toBytesBE 4 h.srcIp ++ (toBytesBE 4 h.dstIp ++ d))))
  have shape (len frag : Nat) : ({ h with len := len, frag := frag } : IpHdr).hton ++ d =
      front ++ (toBytesBE 2 len ++ (toBytesBE 2 h.id ++ (toBytesBE 2 frag ++ back))) := by
    simp only [IpHdr.hton_append, front, back, List.append_assoc]
  have length : front.length = 2 := rfl
  have two (x : Nat) : (toBytesBE 2 x).length = 2 := length_toBytesBE 2 x
  have whole : (h.hton ++ d).length = ipv4HdrLenMin + d.length := by
    rw [List.length_append, h.length_hton]
  have pkt : h.hton ++ d =
      front ++ (toBytesBE 2 h.len ++ (toBytesBE 2 h.id ++ (toBytesBE 2 h.frag ++ back))) :=
    shape h.len h.frag
  have id : ((h.hton ++ d).drop 4).take 2 = toBytesBE 2 h.id := by
    rw [pkt, show 4 = 2 + 2 from rfl, ← List.drop_drop, List.drop_left' length,
      List.drop_left' (two _), List.take_left' (two _)]
  have rest : (h.hton ++ d).drop 8 = back := by
    rw [pkt, show 8 = 2 + 2 + 2 + 2 from rfl, ← List.drop_drop, ← List.drop_drop,
      ← List.drop_drop, List.drop_left' length, List.drop_left' (two _), List.drop_left' (two _),
      List.drop_left' (two _)]
  have start : (h.hton ++ d).take 2 = front := by rw [pkt, List.take_left' length]
  simp only [Frag.getAssembledPacket, header, data, List.head?_cons, Option.map_some,
    Option.getD_some]
  rw [shape (ipv4HdrLenMin + d.length) 0, start, whole, id, rest]
  simp only [List.append_assoc]

/-- Handing on a datagram that is complete delivers it. -/
theorem handOn_delivers (path : Path s r protoNum p) {h₀ h : IpHdr}
    (hdr₀ : s.FragmentHdr r.hostAddress protoNum p 0 h₀) {k : Nat}
    (hdr : s.FragmentHdr r.hostAddress protoNum p k h) {d : List Byte}
    (short : d.length ≤ 65515) (header : f.header = h₀.hton) {b : BitVec 32}
    (data : f.data = [(b, d)]) :
    ∃ out, r.handOn h f = [out] ∧
      r.Delivers protoNum d s.hostAddress r.hostAddress out := by
  simp only [Receiver.handOn, hdr.ipProto, l4_value, data, List.head?_cons, Option.map_some,
    Option.getD_some]
  generalize r.hash2cpu _ = cpu
  split
  · exact ⟨_, rfl, rfl, rfl, hdr.srcIp, hdr.dstIp⟩
  · refine ⟨_, rfl, fun st => ?_⟩
    have wire := assembled_wire hdr₀ short header data
    have whole : ({ h₀ with len := ipv4HdrLenMin + d.length, frag := 0 } : IpHdr).offset = 0 := rfl
    have unfragmented : ({ h₀ with len := ipv4HdrLenMin + d.length, frag := 0 } : IpHdr).mf =
        false := Nat.zero_testBit _
    rw [Receiver.handle_wire { r with shard := cpu } wire (.inr rfl)
      (by rw [whole, ipv4HdrLenMin, ipPacketLenMax]; omega) path.filter hdr₀.dstIp st, whole,
      unfragmented]
    simp only [hdr₀.ipProto, l4_value, hdr₀.srcIp, hdr₀.dstIp]
    rfl

/-- The receive path as a system: packets come in. -/
def Receiver.step (r : Receiver) (st : ReceiveState) (pkt : List Byte) : Option ReceiveState :=
  r.handleReceivedPacket false st pkt

/-- What is kept of the datagram in a state. -/
def kept (s : Sender) (r : Receiver) (protoNum : IpProtocolNum) (st : ReceiveState) : Frag :=
  (st.frags (fragId s r protoNum)).getD .empty

/-- A payload put together from the fragments sent for the offsets `done`. -/
structure Assembled (s : Sender) (p : List Byte) (P : Nat → List Byte → Prop)
    (done : List Nat) (d : List Byte) : Prop where
  sent : ∀ k ∈ done, s.room ∣ k ∧ k < p.length
  piece : P 0 d
  last : ∃ k ∈ done, p.length ≤ k + s.room
  covers : ∀ j, j < d.length ↔
    ∃ k ∈ done, toldOffset k ≤ j ∧ j < toldOffset k + (s.piece p k).length

/-- A fragment is kept with the others, or completes the datagram, which is then
handed on and forgotten. -/
theorem step_fragment (path : Path s r protoNum p) (offload : r.rxCsumOffload = true)
    (pieces : Pieces P size) (fits : size ≤ 65515) {st : ReceiveState}
    (holds : Holds s r protoNum p P seen (kept s r protoNum st) m) {k : Nat}
    (inside : k < p.length) (aligned : s.room ∣ k) (piece : P (toldOffset k) (s.piece p k)) :
    ∃ st', r.step st (s.fragment r.hostAddress protoNum p k) = some st' ∧
      ((st'.handed = st.handed ∧ (kept s r protoNum st').isComplete = false ∧
          ∃ m', Holds s r protoNum p P (k :: seen) (kept s r protoNum st') m') ∨
        ∃ out d, st'.handed = out :: st.handed ∧
          r.Delivers protoNum d s.hostAddress r.hostAddress out ∧
          Assembled s p P (k :: seen) d ∧ kept s r protoNum st' = .empty) := by
  obtain ⟨h, hdr⟩ := Sender.fragment_hdr path.src path.dst path.short inside
  obtain ⟨f', m', run, holds'⟩ := holds.merge path pieces (by omega) hdr inside aligned piece
  have long := path.long
  have room := path.room
  have short := path.short
  have offset : h.offset = 8 * (k / 8) := hdr.offset
  have length := s.length_piece p k
  have fragment : h.mf = true ∨ h.offset ≠ 0 := by
    by_cases more : k + s.room < p.length
    · exact .inl (hdr.mf.trans (decide_eq_true more))
    · have : s.room ≤ k := Nat.le_of_dvd (by omega) aligned
      exact .inr (by omega)
  have door := @Receiver.handle_wire r _ _ _ hdr.wire false (.inl offload)
    (by rw [offset, length, ipv4HdrLenMin, ipPacketLenMax]; omega) path.filter hdr.dstIp st
  rw [if_pos fragment] at door
  have id : (⟨h.srcIp, h.dstIp, h.id, h.ipProto⟩ : FragId) = fragId s r protoNum := by
    rw [hdr.srcIp, hdr.dstIp, hdr.id, hdr.ipProto]
    rfl
  simp only [kept] at run
  rw [Receiver.step, door]
  simp only [Receiver.handleFrag, id, run, Option.bind_eq_bind, Option.bind_some]
  cases complete : f'.isComplete with
  | false =>
      refine ⟨_, rfl, .inl ⟨rfl, ?_, m', ?_⟩⟩
      · simp [kept, complete]
      · simpa [kept] using holds'
  | true =>
      obtain ⟨d, single, last⟩ := holds'.complete pieces (by omega) complete
      have covered (j : Nat) : j < d.length ↔ ∃ k' ∈ k :: seen,
          toldOffset k' ≤ j ∧ j < toldOffset k' + (s.piece p k').length := by
        rw [← holds'.covers, single, covers_cons]
        simp
      have piece₀ : P 0 d := by
        have each := holds'.each
        rw [single] at each
        exact each.head
      have within := pieces.inside 0 d piece₀
      -- the fragment that just came is not empty, so the datagram begins with a byte
      have some_byte := (covered (toldOffset k)).mpr ⟨k, List.mem_cons_self, le_rfl, by omega⟩
      obtain ⟨k₀, seen₀, low, _⟩ := (covered 0).mp (by omega)
      have first : 0 ∈ k :: seen := by
        have zero : 0 = k₀ := by
          refine eq_of_dvd_of_lt (Nat.dvd_zero s.room) (holds'.sent k₀ seen₀).1 (Nat.zero_le _) ?_
          simp only [toldOffset] at low
          omega
        rwa [← zero] at seen₀
      obtain ⟨h₀, hdr₀, header⟩ := holds'.header first
      have data : f'.data = [(BitVec.ofNat 32 0, d)] := by
        rw [holds'.data, single]
        rfl
      obtain ⟨out, handed, delivers⟩ := handOn_delivers path hdr₀ hdr (by omega) header data
      refine ⟨_, rfl, .inr ⟨out, d, by rw [handed]; rfl, delivers,
        ⟨holds'.sent, piece₀, ?_, covered⟩, ?_⟩⟩
      · exact holds'.last.mp last
      · simp [kept]

/-! ## Runs -/

/-- The fragments sent for the offsets `arrived` have arrived: those that no
payload was made of are kept, and what was handed on is made of fragments that
have arrived. -/
structure Progress (s : Sender) (r : Receiver) (protoNum : IpProtocolNum) (p : List Byte)
    (P : Nat → List Byte → Prop) (arrived : List Nat) (st : ReceiveState) : Prop where
  incomplete : (kept s r protoNum st).isComplete = false
  holds : ∃ seen m, Holds s r protoNum p P seen (kept s r protoNum st) m ∧
    (st.handed = [] → ∀ k ∈ arrived, k ∈ seen) ∧ ∀ k ∈ seen, k ∈ arrived
  handed : ∀ out ∈ st.handed, ∃ d done,
    r.Delivers protoNum d s.hostAddress r.hostAddress out ∧ Assembled s p P done d ∧
      ∀ k ∈ done, k ∈ arrived

theorem Progress.init : Progress s r protoNum p P [] Receiver.init :=
  ⟨rfl, ⟨[], [], .empty, by simp, by simp⟩, by simp [Receiver.init]⟩

/-- One fragment more. -/
theorem Progress.step (path : Path s r protoNum p) (offload : r.rxCsumOffload = true)
    (pieces : Pieces P size) (fits : size ≤ 65515) {arrived : List Nat} {st : ReceiveState}
    (progress : Progress s r protoNum p P arrived st) {k : Nat} (inside : k < p.length)
    (aligned : s.room ∣ k) (piece : P (toldOffset k) (s.piece p k)) :
    ∃ st', r.step st (s.fragment r.hostAddress protoNum p k) = some st' ∧
      Progress s r protoNum p P (k :: arrived) st' := by
  obtain ⟨seen, m, holds, all, old⟩ := progress.holds
  have older : ∀ j ∈ k :: seen, j ∈ k :: arrived := fun j mem =>
    List.mem_cons.mpr ((List.mem_cons.mp mem).imp id (old j))
  have earlier (out : Handed) (mem : out ∈ st.handed) : ∃ d done,
      r.Delivers protoNum d s.hostAddress r.hostAddress out ∧ Assembled s p P done d ∧
        ∀ j ∈ done, j ∈ k :: arrived := by
    obtain ⟨d, done, delivers, assembled, sent⟩ := progress.handed out mem
    exact ⟨d, done, delivers, assembled, fun j mem => List.mem_cons_of_mem _ (sent j mem)⟩
  obtain ⟨st', run, ⟨same, incomplete, m', holds'⟩ | ⟨out, d, handed, delivers, assembled,
    fresh⟩⟩ := step_fragment path offload pieces fits holds inside aligned piece
  · refine ⟨st', run, incomplete, ⟨k :: seen, m', holds', fun none j mem => ?_, older⟩, ?_⟩
    · exact List.mem_cons.mpr ((List.mem_cons.mp mem).imp id (all (same ▸ none) j))
    · rw [same]
      exact earlier
  · refine ⟨st', run, by rw [fresh]; rfl, ⟨[], [], fresh ▸ .empty, ?_, by simp⟩, ?_⟩
    · rw [handed]
      exact fun bad => absurd bad (List.cons_ne_nil _ _)
    · rw [handed]
      exact List.forall_mem_cons.mpr ⟨⟨d, k :: seen, delivers, assembled, older⟩, earlier⟩

/-- The offsets fragments are sent for. -/
def Sent (s : Sender) (p : List Byte) (k : Nat) : Prop := s.room ∣ k ∧ k < p.length

theorem Progress.run (path : Path s r protoNum p) (offload : r.rxCsumOffload = true)
    (pieces : Pieces P size) (fits : size ≤ 65515)
    (each : ∀ k, Sent s p k → P (toldOffset k) (s.piece p k)) {ks arrived : List Nat}
    {st : ReceiveState} (progress : Progress s r protoNum p P arrived st)
    (sent : ∀ k ∈ ks, Sent s p k) :
    ∃ st', exec r.step st (ks.map (s.fragment r.hostAddress protoNum p)) = some st' ∧
      Progress s r protoNum p P (ks.reverse ++ arrived) st' := by
  induction ks generalizing st arrived with
  | nil => exact ⟨st, rfl, progress⟩
  | cons k ks ih =>
      obtain ⟨first, rest⟩ := List.forall_mem_cons.mp sent
      obtain ⟨st₁, run, progress₁⟩ := progress.step path offload pieces fits first.2 first.1
        (each k first)
      obtain ⟨st', run', progress'⟩ := ih progress₁ rest
      refine ⟨st', exec_cons.mpr ⟨st₁, run, run'⟩, ?_⟩
      simpa using progress'

/-- The fragments lead to the payload: whatever arrives of them, in any order and
any number of times, what is handed on is the payload, and it is handed on if
and only if all of them have arrived. -/
def RoundTrips (s : Sender) (r : Receiver) (protoNum : IpProtocolNum) (p : List Byte)
    (pkts : List (List Byte)) : Prop :=
  ∀ arrived : List (List Byte), (∀ pkt ∈ arrived, pkt ∈ pkts) →
    ∃ st, exec r.step Receiver.init arrived = some st ∧
      (∀ out ∈ st.handed, r.Delivers protoNum p s.hostAddress r.hostAddress out) ∧
      (st.handed ≠ [] ↔ ∀ pkt ∈ pkts, pkt ∈ arrived)

/-- What arrives are fragments that were sent for some offsets. -/
theorem exists_offsets {pkts arrived : List (List Byte)}
    (sent : ∀ pkt, pkt ∈ pkts ↔ ∃ k, Sent s p k ∧ pkt = s.fragment r.hostAddress protoNum p k)
    (among : ∀ pkt ∈ arrived, pkt ∈ pkts) :
    ∃ ks : List Nat, arrived = ks.map (s.fragment r.hostAddress protoNum p) ∧
      ∀ k ∈ ks, Sent s p k := by
  induction arrived with
  | nil => exact ⟨[], rfl, List.forall_mem_nil _⟩
  | cons pkt arrived ih =>
      obtain ⟨first, rest⟩ := List.forall_mem_cons.mp among
      obtain ⟨k, sent_k, rfl⟩ := (sent pkt).mp first
      obtain ⟨ks, rfl, sents⟩ := ih rest
      exact ⟨k :: ks, rfl, List.forall_mem_cons.mpr ⟨sent_k, sents⟩⟩

/-- What is sent for a payload on its way in fragments. -/
theorem Path.send (path : Path s r protoNum p) : ∃ pkts,
    s.send r.hostAddress protoNum p = some pkts ∧
      ∀ pkt, pkt ∈ pkts ↔ ∃ k, Sent s p k ∧ pkt = s.fragment r.hostAddress protoNum p k := by
  have room := path.room
  have short := path.short
  have small : p.length % 2 ^ 16 = p.length - 0 := by omega
  obtain ⟨pkts, run, mem⟩ := s.sendFrags_spec r.hostAddress protoNum p (by omega) path.mtu_fits
    (by omega) (Nat.dvd_zero s.room) (Nat.zero_le _) (show p.length - 0 ≤ p.length by omega)
  refine ⟨pkts, by rw [Sender.send, if_pos path.needsFrag, small, run], fun pkt => ?_⟩
  simp only [mem, Sent, Nat.zero_le, true_and, and_assoc]

/-! ## Rooms that are multiples of eight -/

theorem toldOffset_eq (eight : 8 ∣ s.room) {k : Nat} (aligned : s.room ∣ k) :
    toldOffset k = k :=
  Nat.mul_div_cancel' (eight.trans aligned)

/-- A fragment says it has the bytes from its offset on. -/
theorem Path.slice (path : Path s r protoNum p) (eight : 8 ∣ s.room) {k : Nat}
    (sent : Sent s p k) : Slice p (toldOffset k) (s.piece p k) ∧ s.piece p k ≠ [] := by
  have inside := sent.2
  have room := path.room
  rw [toldOffset_eq eight sent.1]
  refine ⟨slice_of_le p (by omega), List.ne_nil_of_length_pos ?_⟩
  rw [s.length_piece p k]
  omega

/-- A datagram whose fragments are slices of the payload is the payload, and all
its fragments are there. -/
theorem Assembled.eq_payload (path : Path s r protoNum p) (eight : 8 ∣ s.room)
    {done : List Nat} {d : List Byte}
    (assembled : Assembled s p (fun b d => Slice p b d ∧ d ≠ []) done d) :
    d = p ∧ ∀ k, Sent s p k → k ∈ done := by
  have room := path.room
  have long := path.long
  have told (k : Nat) (mem : k ∈ done) : toldOffset k = k :=
    toldOffset_eq eight (assembled.sent k mem).1
  obtain ⟨k₁, mem₁, last⟩ := assembled.last
  have inside := (assembled.sent k₁ mem₁).2
  have length₁ := s.length_piece p k₁
  have to_end := (assembled.covers (p.length - 1)).mpr
    ⟨k₁, mem₁, by rw [told k₁ mem₁]; omega, by rw [told k₁ mem₁]; omega⟩
  have slice := assembled.piece.1
  have within := slice.inside
  have whole : d.length = p.length := by omega
  refine ⟨?_, fun k sent => ?_⟩
  · rw [slice.eq_take, whole, List.take_length]
  · obtain ⟨k', mem, low, high⟩ := (assembled.covers k).mp (by rw [whole]; exact sent.2)
    have length := s.length_piece p k'
    rw [told k' mem] at low high
    rwa [← eq_of_dvd_of_lt (assembled.sent k' mem).1 sent.1 low (by omega)]

/-- When all fragments are kept, they are complete. -/
theorem Holds.all_complete (path : Path s r protoNum p) (eight : 8 ∣ s.room)
    (holds : Holds s r protoNum p (fun b d => Slice p b d ∧ d ≠ []) seen f m)
    (all : ∀ k, Sent s p k → k ∈ seen) : f.isComplete = true := by
  have room := path.room
  have long := path.long
  have nonempty : p ≠ [] := List.ne_nil_of_length_pos (by omega)
  have start (j : Nat) : s.room ∣ j / s.room * s.room ∧ j / s.room * s.room ≤ j ∧
      j < j / s.room * s.room + s.room :=
    ⟨Nat.dvd_mul_left _ _, Nat.div_mul_le_self _ _, Nat.lt_div_mul_add (by omega)⟩
  have covered (j : Nat) : Covers m j ↔ Covers [(0, p)] j := by
    rw [holds.covers, covers_cons]
    simp only [covers_nil, or_false, Nat.zero_le, true_and, Nat.zero_add]
    constructor
    · rintro ⟨k, mem, low, high⟩
      have := s.length_piece p k
      have := (holds.sent k mem).2
      rw [toldOffset_eq eight (holds.sent k mem).1] at high
      omega
    · intro within
      obtain ⟨aligned, low, high⟩ := start j
      have := s.length_piece p (j / s.room * s.room)
      refine ⟨j / s.room * s.room, all _ ⟨aligned, by omega⟩, ?_, ?_⟩
      · rw [toldOffset_eq eight aligned]
        exact low
      · rw [toldOffset_eq eight aligned]
        omega
  have single : m = [(0, p)] :=
    holds.gapped.ext (List.pairwise_singleton _ _) (fun x mem => (holds.each x mem).1)
      (Each.cons (by simpa using Slice.take p le_rfl) (List.forall_mem_nil _))
      (fun x mem => (holds.each x mem).2) (by simpa using nonempty) covered
  refine holds.isComplete single (holds.last.mpr ?_)
  obtain ⟨aligned, low, high⟩ := start (p.length - 1)
  exact ⟨_, all _ ⟨aligned, by omega⟩, by omega⟩

theorem roundTrips_of_eight (path : Path s r protoNum p) (offload : r.rxCsumOffload = true)
    (eight : 8 ∣ s.room) {pkts : List (List Byte)}
    (sent : ∀ pkt, pkt ∈ pkts ↔ ∃ k, Sent s p k ∧ pkt = s.fragment r.hostAddress protoNum p k) :
    RoundTrips s r protoNum p pkts := by
  have pieces := (pieces_slice p).nonempty
  intro arrived among
  obtain ⟨ks, rfl, sents⟩ := exists_offsets sent among
  obtain ⟨st, run, progress⟩ := Progress.run path offload pieces path.short
    (fun _ => path.slice eight) .init sents
  rw [List.append_nil] at progress
  refine ⟨st, run, fun out mem => ?_, fun some pkt mem => ?_, fun all none => ?_⟩
  · obtain ⟨d, done, delivers, assembled, _⟩ := progress.handed out mem
    rwa [← (assembled.eq_payload path eight).1]
  · obtain ⟨out, mem_out⟩ := List.exists_mem_of_ne_nil _ some
    obtain ⟨d, done, _, assembled, old⟩ := progress.handed out mem_out
    obtain ⟨k, sent_k, rfl⟩ := (sent pkt).mp mem
    have := old k ((assembled.eq_payload path eight).2 k sent_k)
    exact List.mem_map_of_mem (List.mem_reverse.mp this)
  · obtain ⟨seen, m, holds, kept_all, _⟩ := progress.holds
    have complete := holds.all_complete path eight fun k sent_k => by
      obtain ⟨k', mem, same⟩ := List.mem_map.mp (all _ ((sent _).mpr ⟨k, sent_k, rfl⟩))
      obtain ⟨h, hdr⟩ := Sender.fragment_hdr path.src path.dst path.short sent_k.2
      obtain ⟨h', hdr'⟩ := Sender.fragment_hdr path.src path.dst path.short (sents k' mem).2
      have header : h' = h := by
        rw [← IpHdr.ntoh_hton h' hdr'.wire.fits (s.piece p k'), ← hdr'.wire.shape, same,
          hdr.wire.shape, IpHdr.ntoh_hton h hdr.wire.fits]
      have told : toldOffset k' = toldOffset k := by
        rw [← show h.offset = toldOffset k from hdr.offset, ← header]
        exact hdr'.offset.symm
      rw [toldOffset_eq eight (sents k' mem).1, toldOffset_eq eight sent_k.1] at told
      rw [← told]
      exact kept_all none k' (List.mem_reverse.mpr mem)
    rw [progress.incomplete] at complete
    exact nomatch complete

/-! ## Other rooms -/

/-- A datagram of the length of the payload has every fragment at its place. -/
theorem Assembled.toldOffset_eq (path : Path s r protoNum p) {done : List Nat} {d : List Byte}
    (assembled : Assembled s p P done d) (length : d.length = p.length) (n : Nat) :
    ∀ k, Sent s p k → p.length - k ≤ n → toldOffset k = k := by
  have room := path.room
  induction n with
  | zero =>
      intro k sent near
      have := sent.2
      omega
  | succ n ih =>
      intro k sent near
      have inside := sent.2
      -- the last byte of this fragment can only come from this fragment
      obtain ⟨k', mem, low, high⟩ := (assembled.covers (min (k + s.room) p.length - 1)).mp
        (by omega)
      obtain ⟨aligned', inside'⟩ := assembled.sent k' mem
      have length' := s.length_piece p k'
      have below : toldOffset k ≤ k := Nat.mul_div_le k 8
      have below' : toldOffset k' ≤ k' := Nat.mul_div_le k' 8
      have same : k' = k := by
        rcases Nat.lt_or_ge k k' with later | earlier
        · have told := ih k' ⟨aligned', inside'⟩ (by omega)
          exact (eq_of_dvd_of_lt sent.1 aligned' (Nat.le_of_lt later) (by omega)).symm
        · exact eq_of_dvd_of_lt aligned' sent.1 earlier (by omega)
      subst same
      omega

theorem eight_of_roundTrips (path : Path s r protoNum p) (offload : r.rxCsumOffload = true)
    {pkts : List (List Byte)}
    (sent : ∀ pkt, pkt ∈ pkts ↔ ∃ k, Sent s p k ∧ pkt = s.fragment r.hostAddress protoNum p k)
    (trips : RoundTrips s r protoNum p pkts) : 8 ∣ s.room := by
  have each (k : Nat) (sent : Sent s p k) :
      toldOffset k + (s.piece p k).length ≤ p.length := by
    have inside := sent.2
    have below : toldOffset k ≤ k := Nat.mul_div_le k 8
    rw [s.length_piece p k]
    omega
  obtain ⟨ks, rfl, sents⟩ := exists_offsets sent fun _ mem => mem
  obtain ⟨st, run, progress⟩ := Progress.run path offload (pieces_length p.length) path.short each
    .init sents
  obtain ⟨st', run', delivered, all⟩ := trips _ fun _ mem => mem
  obtain rfl : st' = st := Option.some.inj (run'.symm.trans run)
  obtain ⟨out, mem⟩ := List.exists_mem_of_ne_nil _ (all.mpr fun _ mem => mem)
  obtain ⟨d, done, delivers, assembled, _⟩ := progress.handed out mem
  obtain rfl : d = p := delivers.unique (delivered out mem)
  have room : toldOffset s.room = s.room :=
    assembled.toldOffset_eq path rfl _ s.room ⟨Nat.dvd_refl _, path.long⟩ le_rfl
  exact ⟨s.room / 8, room.symm⟩

/-- Without the device, the checksum of no header is found to be right. -/
theorem step_of_no_offload (offload : r.rxCsumOffload = false) (st : ReceiveState)
    (pkt : List Byte) : r.step st pkt = some st := by
  unfold Receiver.step Receiver.handleReceivedPacket
  split
  · rfl
  · have rejected : ipv4ChecksumOk (pkt.take ipv4HdrLenMin) ≠ some true := by
      simp [ipv4ChecksumOk, Checksummer.get_eq]
    rw [if_pos ⟨by simp [offload], Bool.false_ne_true, rejected⟩]

end Path

/-- The fragments of a payload lead to the payload, whatever the order they
arrive in and however often each does, exactly when the receiver leaves the
header checksum to the device and the room for payload in a packet is a multiple
of eight. -/
theorem fragments_round_trip_iff {s : Sender} {r : Receiver} {protoNum : IpProtocolNum}
    {p : List Byte} (path : Path s r protoNum p) :
    ∃ pkts, s.send r.hostAddress protoNum p = some pkts ∧
      (RoundTrips s r protoNum p pkts ↔
        r.rxCsumOffload = true ∧ 8 ∣ s.mtu - ipv4HdrLenMin) := by
  obtain ⟨pkts, run, sent⟩ := path.send
  refine ⟨pkts, run, fun trips => ?_, ?_⟩
  · have offload : r.rxCsumOffload = true := by
      by_contra checked
      have unchanged (arrived : List (List Byte)) :
          exec r.step Receiver.init arrived = some Receiver.init := by
        induction arrived with
        | nil => rfl
        | cons pkt arrived ih =>
            exact exec_cons.mpr ⟨_, step_of_no_offload (by simpa using checked) _ _, ih⟩
      obtain ⟨st, run, _, all⟩ := trips pkts fun _ mem => mem
      obtain rfl : Receiver.init = st := Option.some.inj ((unchanged pkts).symm.trans run)
      exact all.mpr (fun _ mem => mem) rfl
    exact ⟨offload, eight_of_roundTrips path offload sent trips⟩
  · rintro ⟨offload, eight⟩
    exact roundTrips_of_eight path offload eight sent

theorem fragments_round_trip_iff_tiny :
    ∃ pkts, Sender.send ⟨28, false, false, none, 1⟩ 2 .udp (List.replicate 9 7#8) = some pkts ∧
      (RoundTrips ⟨28, false, false, none, 1⟩ ⟨true, 2, none, 0, fun _ => 1⟩ .udp
          (List.replicate 9 7#8) pkts ↔ true = true ∧ 8 ∣ 28 - ipv4HdrLenMin) :=
  @fragments_round_trip_iff ⟨28, false, false, none, 1⟩ ⟨true, 2, none, 0, fun _ => 1⟩ .udp
    (List.replicate 9 7#8)
    ⟨by decide, by decide, by decide, by decide, by decide, by decide, rfl⟩

/-- Room for ten bytes: the eleventh is sent with offset 10, is taken to have
offset 8, and is dropped as a byte that is there already. -/
theorem fragments_lose_a_byte :
    let s : Sender := ⟨30, false, false, none, 1⟩
    let r : Receiver := ⟨true, 2, none, 0, fun _ => 0⟩
    let p := [0#8, 1#8, 2#8, 3#8, 4#8, 5#8, 6#8, 7#8, 8#8, 9#8, 10#8]
    ∃ pkts, s.send 2 .udp p = some pkts ∧
      (exec r.step Receiver.init pkts).map ReceiveState.handed =
        some [.received .udp (p.take 10) 1 2] ∧ ¬RoundTrips s r .udp p pkts := by
  intro s r p
  let pkts := (s.send 2 .udp p).getD []
  have handed : (exec r.step Receiver.init pkts).map ReceiveState.handed =
      some [.received .udp (p.take 10) 1 2] := by decide +kernel
  refine ⟨pkts, by decide +kernel, handed, fun trips => ?_⟩
  obtain ⟨st, run, delivered, _⟩ := trips pkts fun _ mem => mem
  rw [run, Option.map_some, Option.some.injEq] at handed
  have wrong := delivered (.received .udp (p.take 10) 1 2) (by rw [handed]; exact List.mem_cons_self)
  exact absurd wrong.2.1 (by decide)

end ActorNet.Net
