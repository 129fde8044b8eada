import ActorNet.Net.Ipv4

/-!
# The fragments `ipv4::send` cuts a payload into

A header is read back from the bytes it was written to, and the loop of
`ipv4::send` makes one packet for every multiple of the room that a packet has
for payload. `FragmentHdr` is what such a packet says about itself: its offset
is rounded down to a multiple of eight.
-/

namespace ActorNet.Net

open Lib Lib.Slices

/-! ## The header on the wire -/

namespace IpHdr

/-- Every field fits its bits. -/
structure Fits (h : IpHdr) : Prop where
  ihl : h.ihl < 16
  ver : h.ver < 16
  dscp : h.dscp < 64
  ecn : h.ecn < 4
  len : h.len < 2 ^ 16
  id : h.id < 2 ^ 16
  frag : h.frag < 2 ^ 16
  ttl : h.ttl < 2 ^ 8
  ipProto : h.ipProto < 2 ^ 8
  csum : h.csum < 2 ^ 16
  srcIp : h.srcIp < 2 ^ 32
  dstIp : h.dstIp < 2 ^ 32

theorem length_hton (h : IpHdr) : h.hton.length = ipv4HdrLenMin := by
  simp [hton, ipv4HdrLenMin]

theorem field_skip (x : Nat) (rest : List Byte) {m at_ : Nat} (behind : m ≤ at_) (n : Nat) :
    field (toBytesBE m x ++ rest) at_ n = field rest (at_ - m) n := by
  have size : (toBytesBE m x).length = m := length_toBytesBE m x
  rw [field, field, List.drop_append, size, List.drop_of_length_le (by rw [size]; exact behind),
    List.nil_append]

/-- A field is read back from where it was written. -/
theorem field_here {n x : Nat} (fits : x < 256 ^ n) (rest : List Byte) :
    field (toBytesBE n x ++ rest) 0 n = x := by
  have size : (toBytesBE n x).length = n := length_toBytesBE n x
  rw [field, List.drop_zero, List.take_append_of_le_length size.ge,
    List.take_of_length_le size.le, ofBytesBE_toBytesBE_of_lt fits]

/-- The header as the sequence of its fields. -/
theorem hton_append (h : IpHdr) (rest : List Byte) : h.hton ++ rest =
    toBytesBE 1 (h.ihl + 16 * h.ver) ++ (toBytesBE 1 (h.dscp + 64 * h.ecn) ++
      (toBytesBE 2 h.len ++ (toBytesBE 2 h.id ++ (toBytesBE 2 h.frag ++ (toBytesBE 1 h.ttl ++
        (toBytesBE 1 h.ipProto ++ (toBytesBE 2 h.csum ++ (toBytesBE 4 h.srcIp ++
          (toBytesBE 4 h.dstIp ++ rest))))))))) := by
  have one (x : Nat) : toBytesBE 1 x = [BitVec.ofNat 8 x] := rfl
  simp only [hton, one, List.append_assoc, List.cons_append, List.nil_append]

theorem ntoh_hton (h : IpHdr) (fits : h.Fits) (rest : List Byte) : ntoh (h.hton ++ rest) = h := by
  have first : h.ihl + 16 * h.ver < 256 ^ 1 := by
    have := fits.ihl
    have := fits.ver
    omega
  have second : h.dscp + 64 * h.ecn < 256 ^ 1 := by
    have := fits.dscp
    have := fits.ecn
    omega
  have len : h.len < 256 ^ 2 := fits.len
  have id : h.id < 256 ^ 2 := fits.id
  have frag : h.frag < 256 ^ 2 := fits.frag
  have ttl : h.ttl < 256 ^ 1 := fits.ttl
  have ipProto : h.ipProto < 256 ^ 1 := fits.ipProto
  have csum : h.csum < 256 ^ 2 := fits.csum
  have srcIp : h.srcIp < 256 ^ 4 := fits.srcIp
  have dstIp : h.dstIp < 256 ^ 4 := fits.dstIp
  have bits : (h.ihl + 16 * h.ver) % 16 = h.ihl ∧ (h.ihl + 16 * h.ver) / 16 = h.ver := by
    have := fits.ihl
    omega
  have bits' : (h.dscp + 64 * h.ecn) % 64 = h.dscp ∧ (h.dscp + 64 * h.ecn) / 64 = h.ecn := by
    have := fits.dscp
    omega
  simp (disch := first | assumption | omega) only [ntoh, hton_append, field_skip, field_here,
    Nat.reduceSub, bits.1, bits.2, bits'.1, bits'.2]

/-- Overwriting the checksum field of a header. -/
theorem writeNboChecksum_hton (h : IpHdr) (rest : List Byte) (csum : BitVec 16) :
    writeNboChecksum (h.hton ++ rest) 10 csum =
      ({ h with csum := ofBytesBE (toBytesLE 2 csum.toNat) } : IpHdr).hton ++ rest := by
  let front := toBytesBE 1 (h.ihl + 16 * h.ver) ++ toBytesBE 1 (h.dscp + 64 * h.ecn) ++
    toBytesBE 2 h.len ++ toBytesBE 2 h.id ++ toBytesBE 2 h.frag ++ toBytesBE 1 h.ttl ++
    toBytesBE 1 h.ipProto
  let back := toBytesBE 4 h.srcIp ++ toBytesBE 4 h.dstIp ++ rest
  have shape (c : Nat) : ({ h with csum := c } : IpHdr).hton ++ rest =
      front ++ (toBytesBE 2 c ++ back) := by
    simp only [hton_append, front, back, List.append_assoc]
  have length : front.length = 10 := by
    simp only [front, List.length_append, length_toBytesBE]
  have csumLength (c : Nat) : (toBytesBE 2 c).length = 2 := length_toBytesBE 2 c
  have written : toBytesBE 2 (ofBytesBE (toBytesLE 2 csum.toNat)) = toBytesLE 2 csum.toNat :=
    toBytesBE_ofBytesBE (toBytesLE 2 csum.toNat)
  have tail : (front ++ (toBytesBE 2 h.csum ++ back)).drop (front.length + 2) = back := by
    rw [← List.drop_drop, List.drop_left, List.drop_left' (csumLength h.csum)]
  have here := shape h.csum
  rw [shape (ofBytesBE (toBytesLE 2 csum.toNat)), written, writeNboChecksum, here, ← length,
    List.take_left, tail, List.append_assoc]

end IpHdr

/-! ## The fragments of a payload -/

/-- A packet of a header without options and of a payload. -/
structure Wire (pkt : List Byte) (h : IpHdr) (payload : List Byte) : Prop where
  shape : pkt = h.hton ++ payload
  fits : h.Fits
  ihl : h.ihl = ipv4HdrLenMin / 4
  len : h.len = ipv4HdrLenMin + payload.length

/-- Two multiples that are less than one multiple apart are the same. -/
theorem eq_of_dvd_of_lt {c k l : Nat} (left : c ∣ k) (right : c ∣ l) (ordered : k ≤ l)
    (near : l < k + c) : k = l := by
  have := Nat.eq_zero_of_dvd_of_lt (Nat.dvd_sub right left) (by omega)
  omega

namespace Sender

variable (s : Sender) (to_ : Nat) (protoNum : IpProtocolNum) (p : List Byte)

/-- The payload that fits one packet. -/
def room : Nat := s.mtu - ipv4HdrLenMin

/-- The part of the payload that is sent at an offset. -/
def piece (k : Nat) : List Byte := (p.drop k).take (min s.room (p.length - k))

/-- The packet that is sent for an offset. -/
def fragment (k : Nat) : List Byte :=
  s.sendPkt to_ protoNum true (s.piece p k) (p.length - k - min s.room (p.length - k)) k

/-- The loop sends a packet for every multiple of the room. -/
theorem sendFrags_spec (room : 0 < s.room) (mtu : s.mtu < 2 ^ 16) (short : p.length < 2 ^ 16)
    {turns offset : Nat} (aligned : s.room ∣ offset) (inside : offset ≤ p.length)
    (enough : p.length - offset ≤ turns) :
    ∃ pkts, s.sendFrags to_ protoNum p turns offset (p.length - offset) = some pkts ∧
      ∀ pkt, pkt ∈ pkts ↔ ∃ k, s.room ∣ k ∧ offset ≤ k ∧ k < p.length ∧
        pkt = s.fragment to_ protoNum p k := by
  induction turns generalizing offset with
  | zero =>
      obtain rfl : offset = p.length := by omega
      exact ⟨[], by simp [sendFrags], by simp; omega⟩
  | succ turns ih =>
      rcases Nat.eq_or_lt_of_le inside with rfl | more
      · exact ⟨[], by simp [sendFrags], by simp; omega⟩
      obtain ⟨remaining, left⟩ : ∃ r, p.length - offset = r + 1 := ⟨p.length - offset - 1, by omega⟩
      have whole : (s.mtu - ipv4HdrLenMin) % 2 ^ 16 = s.room := by
        rw [Nat.mod_eq_of_lt (by omega)]
        rfl
      have next : (offset + min s.room (remaining + 1)) % 2 ^ 16 =
          offset + min s.room (remaining + 1) := Nat.mod_eq_of_lt (by omega)
      have here : s.sendPkt to_ protoNum true
          ((p.drop offset).take (min s.room (remaining + 1)))
          (remaining + 1 - min s.room (remaining + 1)) offset =
            s.fragment to_ protoNum p offset := by
        rw [← left]
        rfl
      rw [left]
      simp only [sendFrags, whole, next, here]
      by_cases last : remaining + 1 ≤ s.room
      · rw [Nat.min_eq_right last, Nat.sub_self]
        refine ⟨[s.fragment to_ protoNum p offset], by rw [sendFrags]; rfl, fun pkt => ?_⟩
        rw [List.mem_singleton]
        constructor
        · rintro rfl
          exact ⟨offset, aligned, le_rfl, more, rfl⟩
        · rintro ⟨k, aligned', low, high, rfl⟩
          rw [eq_of_dvd_of_lt aligned aligned' low (by omega)]
      · have cut : min s.room (remaining + 1) = s.room := by omega
        have rest : remaining + 1 - s.room = p.length - (offset + s.room) := by omega
        obtain ⟨pkts, run, mem⟩ := @ih (offset + s.room) (Nat.dvd_add_self_right.mpr aligned)
          (by omega) (by omega)
        refine ⟨s.fragment to_ protoNum p offset :: pkts, by rw [cut, rest, run]; rfl,
          fun pkt => ?_⟩
        rw [List.mem_cons, mem]
        constructor
        · rintro (rfl | ⟨k, aligned', low, high, rfl⟩)
          · exact ⟨offset, aligned, le_rfl, more, rfl⟩
          · exact ⟨k, aligned', by omega, high, rfl⟩
        · rintro ⟨k, aligned', low, high, rfl⟩
          by_cases first : k < offset + s.room
          · exact .inl (by rw [eq_of_dvd_of_lt aligned aligned' low first])
          · exact .inr ⟨k, aligned', by omega, high, rfl⟩

theorem length_piece (k : Nat) : (s.piece p k).length = min s.room (p.length - k) := by
  rw [piece, List.length_take, List.length_drop]
  omega

/-- The two numbers in the `frag` field: whether fragments follow, and the
offset in units of eight bytes. -/
theorem frag_field {mf offset : Nat} (bit : mf < 2) (small : offset < 2 ^ 16) :
    (mf <<< IpHdr.mfBit ||| offset / 8) % 2 ^ 16 = mf * 2 ^ 13 + offset / 8 := by
  have low : offset / 8 < 2 ^ IpHdr.mfBit := by
    simp only [IpHdr.mfBit]
    omega
  rw [← Nat.shiftLeft_add_eq_or_of_lt low, Nat.shiftLeft_eq, Nat.mod_eq_of_lt]
  · rfl
  · simp only [IpHdr.mfBit]
    omega

variable {s to_ protoNum p}

/-- What a fragment says about itself. -/
structure FragmentHdr (s : Sender) (to_ : Nat) (protoNum : IpProtocolNum) (p : List Byte)
    (k : Nat) (h : IpHdr) : Prop where
  wire : Wire (s.fragment to_ protoNum p k) h (s.piece p k)
  srcIp : h.srcIp = s.hostAddress
  dstIp : h.dstIp = to_
  id : h.id = 0
  ipProto : h.ipProto = protoNum.value
  offset : h.offset = 8 * (k / 8)
  mf : h.mf = decide (k + s.room < p.length)

theorem fragment_hdr (host : s.hostAddress < 2 ^ 32) (dst : to_ < 2 ^ 32)
    (short : p.length ≤ 65515) {k : Nat} (inside : k < p.length) :
    ∃ h, FragmentHdr s to_ protoNum p k h := by
  have proto : protoNum.value < 2 ^ 8 := by cases protoNum <;> decide
  let more := if p.length - k - min s.room (p.length - k) > 0 then 1 else 0
  have bit : more < 2 := by
    simp only [more]
    split <;> omega
  have field := frag_field bit (show k < 2 ^ 16 by omega)
  have length := s.length_piece p k
  have len : (ipv4HdrLenMin + (s.piece p k).length) % 2 ^ 16 =
      ipv4HdrLenMin + (s.piece p k).length := by
    rw [length]
    simp only [ipv4HdrLenMin]
    omega
  let iph : IpHdr := ⟨ipv4HdrLenMin / 4, 4, 0, 0, (ipv4HdrLenMin + (s.piece p k).length) % 2 ^ 16,
    0, (more <<< IpHdr.mfBit ||| k / 8) % 2 ^ 16, 64, protoNum.value, 0, s.hostAddress, to_⟩
  have frag : iph.frag = more * 2 ^ 13 + k / 8 := field
  -- whether the device sums or the code
  obtain ⟨csum, sent⟩ : ∃ csum, s.fragment to_ protoNum p k =
      writeNboChecksum (iph.hton ++ s.piece p k) 10 csum := ⟨_, rfl⟩
  have fits : ({ iph with csum := ofBytesBE (toBytesLE 2 csum.toNat) } : IpHdr).Fits := by
    refine ⟨?_, ?_, ?_, ?_, ?_, ?_, ?_, ?_, proto, @ofBytesBE_lt _ 2 (length_toBytesLE _ _),
      host, dst⟩
    all_goals simp only [iph, ipv4HdrLenMin]
    all_goals omega
  refine ⟨{ iph with csum := ofBytesBE (toBytesLE 2 csum.toNat) },
    ⟨sent.trans (IpHdr.writeNboChecksum_hton iph _ csum), fits, rfl, len⟩, rfl, rfl, rfl, rfl,
    ?_, ?_⟩
  · show (iph.frag <<< 3) % 2 ^ 16 = 8 * (k / 8)
    rw [frag, Nat.shiftLeft_eq]
    omega
  · show iph.frag.testBit 13 = decide (k + s.room < p.length)
    have high : (more * 2 ^ 13 + k / 8) / 2 ^ 13 % 2 = more := by omega
    rw [frag, Nat.testBit_eq_decide_div_mod_eq, high]
    simp only [more]
    split
    · rename_i left
      exact decide_eq_decide.mpr ⟨fun _ => by omega, fun _ => rfl⟩
    · rename_i left
      exact decide_eq_decide.mpr ⟨fun bad => absurd bad Nat.zero_ne_one, fun _ => by omega⟩

end Sender

end ActorNet.Net
