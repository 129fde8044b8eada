import ActorNet.Net.Ipv4
import ActorNet.Net.PacketPointers

/-!
# What UDP and ICMP do with a packet

`ipv4_udp::received` and `icmp::received`, on packets as lists of fragments. The
one uses the pointer to its header without a look at it. The other reads the
whole packet from such a pointer on, for the checksum of the reply, although the
pointer leads into one fragment only.
-/

namespace ActorNet.Net

open Lib Lib.Guarded Impl

/-! ## UDP -/

/-- `sizeof(udp_hdr)`. -/
def udpHdrSize : Nat := 8

/-- `native_datagram`. -/
structure NativeDatagram where
  src : Nat × Nat
  dst : Nat × Nat
  p : Impl
  deriving DecidableEq, Repr

/-- The constructor of `native_datagram`. -/
def nativeDatagram (src dst : Nat) (p : Impl) : Except Fault NativeDatagram := do
  let (p, hdr) ← p.getHeader 0 udpHdrSize
  match hdr with
  | none => .error .outOfBounds -- `ntoh(*hdr)`
  | some hdr => do
      let p ← p.trimFront udpHdrSize
      .ok ⟨(src, IpHdr.field hdr 0 2), (dst, IpHdr.field hdr 2 2), p⟩

/-- `ipv4_udp::default_queue_size`. -/
def defaultQueueSize : Nat := 1024

/-- `_channels`: the queue of each port, the oldest datagram first. -/
structure Udp where
  channels : Nat → Option (List NativeDatagram)

/-- `ipv4_udp::received`. A queue that is full takes no datagram. -/
def Udp.received (u : Udp) (p : Impl) (src dst : Nat) : Except Fault Udp :=
  (nativeDatagram src dst p).map fun dgram =>
    match u.channels dgram.dst.2 with
    | none => u
    | some queue =>
        if queue.length < defaultQueueSize then
          ⟨Function.update u.channels dgram.dst.2 (some (queue ++ [dgram]))⟩
        else u

/-! ## ICMP -/

/-- `sizeof(icmp_hdr)`. -/
def icmpHdrSize : Nat := 8

/-- `msg_type::echo_request`. -/
def echoRequest : Byte := 8

/-- `msg_type::echo_reply`. -/
def echoReply : Byte := 0

/-- The units left in `_queue_space`, and the replies that are to be sent, the
last first. -/
structure Icmp where
  queueSpace : Nat
  replies : List (Nat × Impl)
  deriving DecidableEq, Repr

/-- `icmp::received`. -/
def Icmp.received (s : Icmp) (p : Impl) (src : Nat) : Except Fault Icmp := do
  let (p, hdr) ← p.getHeader 0 icmpHdrSize
  match hdr, findFrag 0 p.frags with
  | some hdr, some (i, o) =>
      if hdr.head? ≠ some echoRequest then .ok s
      else do
        let p ← p.store (i, o) [echoReply, 0, 0, 0] -- the type, the code and the checksum
        let bytes ← p.load (i, o) p.len
        match ipChecksum bytes with
        | none => .error .outOfBounds
        | some csum => do
            let p ← p.store (i, o + 2) (toBytesLE 2 csum.toNat)
            .ok (if p.len ≤ s.queueSpace then
              ⟨s.queueSpace - p.len, (src, p) :: s.replies⟩ else s)
  | _, _ => .ok s

/-! ## What they are for -/

/-- A message that is answered. -/
def IsEchoRequest (bytes : List Byte) : Prop :=
  icmpHdrSize ≤ bytes.length ∧ bytes.head? = some echoRequest

instance (bytes : List Byte) : Decidable (IsEchoRequest bytes) := inferInstanceAs (Decidable (_ ∧ _))

/-- The reply to a message, before its checksum is known. -/
def unsummedReply (bytes : List Byte) : List Byte := overwrite bytes 0 [echoReply, 0, 0, 0]

/-- The reply waits to be sent, if there is room for it; its checksum is that of
all its bytes. -/
def Answered (s s' : Icmp) (src : Nat) (bytes : List Byte) : Prop :=
  if bytes.length ≤ s.queueSpace then ∃ q csum, ipChecksum (unsummedReply bytes) = some csum ∧
    q.content = writeNboChecksum (unsummedReply bytes) 2 csum ∧
    s' = ⟨s.queueSpace - bytes.length, (src, q) :: s.replies⟩
  else s' = s

variable {p : Impl}

/-- A datagram is made just of a packet with a whole header. -/
theorem nativeDatagram_completes (loose : p.Loose) (src dst : Nat) :
    CompletesIff (udpHdrSize ≤ p.len) (nativeDatagram src dst p) fun dgram =>
      dgram.src = (src, IpHdr.field p.content 0 2) ∧
        dgram.dst = (dst, IpHdr.field p.content 2 2) ∧
        dgram.p.content = p.content.drop udpHdrSize := by
  by_cases inside : udpHdrSize ≤ p.len
  · obtain ⟨q, _, run, _, pointed⟩ :=
      loose.getHeader_ok (show 0 + udpHdrSize ≤ p.len by omega) (by decide)
    obtain ⟨q', trimmed, content⟩ := pointed.loose.trimFront_ok (pointed.len ▸ inside)
    rw [List.drop_zero] at run
    have port {at_ : Nat} (small : at_ + 2 ≤ udpHdrSize) :
        IpHdr.field (p.content.take udpHdrSize) at_ 2 = IpHdr.field p.content at_ 2 := by
      rw [IpHdr.field, IpHdr.field, List.drop_take, List.take_take, Nat.min_eq_left (by omega)]
    refine .of_ok (a := ⟨(src, IpHdr.field p.content 0 2), (dst, IpHdr.field p.content 2 2), q'⟩)
      inside ?_ ⟨rfl, rfl, by rw [content, pointed.content]⟩
    simp only [nativeDatagram, run, trimmed, bind, Except.bind, port (show 0 + 2 ≤ _ by decide),
      port (show 2 + 2 ≤ _ by decide)]
  · apply CompletesIff.of_error inside
    have run : p.getHeader 0 udpHdrSize = .ok (p, none) := by
      rw [getHeader, if_pos (by omega)]
    simp only [nativeDatagram, run, bind, Except.bind]
    rfl

theorem ipChecksum_some (bytes : List Byte) : ∃ csum, ipChecksum bytes = some csum := ⟨_, rfl⟩

/-- A message that is no echo request changes nothing, and nothing is read
beyond its header. -/
theorem received_other (loose : p.Loose) (other : ¬IsEchoRequest p.content) (s : Icmp)
    (src : Nat) : s.received p src = .ok s := by
  by_cases inside : icmpHdrSize ≤ p.len
  · obtain ⟨q, _, run, found, _⟩ :=
      loose.getHeader_ok (show 0 + icmpHdrSize ≤ p.len by omega) (by decide)
    have type_ : (p.content.take icmpHdrSize).head? ≠ some echoRequest := by
      intro same
      refine other ⟨loose.length_content ▸ inside, ?_⟩
      rwa [List.head?_take, if_neg (by decide)] at same
    simp only [Icmp.received, run, found, bind, Except.bind, List.drop_zero]
    rw [if_pos type_]
  · have run : p.getHeader 0 icmpHdrSize = .ok (p, none) := by
      rw [getHeader, if_pos (by omega)]
    simp only [Icmp.received, run, bind, Except.bind]

/-- An echo request is answered just if the fragments its header lies in hold
the whole of it. -/
theorem received_echoRequest (loose : p.Loose) (request : IsEchoRequest p.content) (s : Icmp)
    (src : Nat) : CompletesIff (p.len ≤ reach icmpHdrSize p.frags) (s.received p src) fun s' =>
      Answered s s' src p.content := by
  have length := loose.length_content
  obtain ⟨long, type_⟩ := request
  obtain ⟨q, ⟨i, o⟩, run, found, pointed⟩ :=
    loose.getHeader_ok (show 0 + icmpHdrSize ≤ p.len by omega) (by decide)
  obtain ⟨f, here, room, size⟩ := pointed.fragment
  have place := pointed.place
  obtain rfl : o = 0 := by
    dsimp only at place
    omega
  have nothing : total (p.frags.take i) = 0 := by
    have before := pointed.before
    dsimp only at place before
    omega
  have size : f.size = reach icmpHdrSize p.frags := by
    rw [size, Nat.zero_add, reach_drop (by decide) nothing]
  have eight : 8 ≤ f.size := by
    have : icmpHdrSize = 8 := rfl
    dsimp only at room
    omega
  obtain ⟨q₁, stored, loose₁, len₁, sizes₁, content₁⟩ :=
    pointed.loose.store_ok here (show 0 < f.size by omega)
      (show 0 + [echoReply, 0, 0, 0].length ≤ f.size from (show 4 ≤ f.size by omega))
  obtain ⟨place₁, f₁, here₁, size₁⟩ := place_of_sizes sizes₁ here
  have content₁ : q₁.content = unsummedReply p.content := by
    rw [content₁, pointed.content, pointed.place]
    rfl
  have kept : (p.content.take icmpHdrSize).head? = some echoRequest := by
    rwa [List.head?_take, if_neg (by decide)]
  have start : s.received p src = (q₁.load (i, 0) q₁.len).bind fun bytes =>
      match ipChecksum bytes with
      | none => .error .outOfBounds
      | some csum => (q₁.store (i, 0 + 2) (toBytesLE 2 csum.toNat)).bind fun p =>
          .ok (if p.len ≤ s.queueSpace then
            ⟨s.queueSpace - p.len, (src, p) :: s.replies⟩ else s) := by
    simp only [Icmp.received, run, found, bind, Except.bind, List.drop_zero]
    rw [if_neg (by rw [kept]; exact fun bad => bad rfl)]
    rw [stored]
  rw [start]
  -- what is read is the whole reply, and the checksum goes into its header
  refine ((loose₁.load_completes here₁).bind_ok fun bytes read => ?_).congr ?_
  · have whole : bytes = unsummedReply p.content := by
      have size_ := loose₁.length_content
      rw [read, place₁, place, List.drop_zero, ← content₁, ← size_, List.take_length]
    obtain ⟨csum, summed⟩ := ipChecksum_some (unsummedReply p.content)
    have two : (toBytesLE 2 csum.toNat).length = 2 := length_toBytesLE 2 csum.toNat
    obtain ⟨q₂, stored₂, _, len₂, _, content₂⟩ := loose₁.store_ok here₁ (show 0 + 2 < f₁.size by omega)
      (show 0 + 2 + (toBytesLE 2 csum.toNat).length ≤ f₁.size by omega)
    refine ⟨_, by rw [whole, summed]; dsimp only; rw [stored₂]; rfl, ?_⟩
    rw [len₂, len₁, pointed.len, Answered, length]
    by_cases space : p.len ≤ s.queueSpace
    · rw [if_pos space, if_pos space]
      refine ⟨q₂, csum, summed, ?_, rfl⟩
      have at_ : total (q.frags.take i) + (0 + 2) = 2 := by
        dsimp only at place
        omega
      rw [content₂, content₁, place₁, at_, overwrite, two]
      rfl
    · rw [if_neg space, if_neg space]
  · rw [size₁, size, len₁, pointed.len, Nat.zero_add]

/-- Whatever the layer below hands up: UDP is safe on a packet with a whole header
and on no other, and ICMP answers an echo request with the checksum of all its
bytes just if the fragments that hold the header hold the whole of it. -/
theorem l4_input_safe_iff (loose : p.Loose) (u : Udp) (s : Icmp) (src dst : Nat) :
    ((∃ u', u.received p src dst = .ok u') ↔ udpHdrSize ≤ p.len) ∧
    ((∃ s', s.received p src = .ok s' ∧
        (IsEchoRequest p.content → Answered s s' src p.content)) ↔
      (IsEchoRequest p.content → p.len ≤ reach icmpHdrSize p.frags)) := by
  constructor
  · rw [← (nativeDatagram_completes loose src dst).iff, Udp.received]
    cases nativeDatagram src dst p with
    | ok dgram => exact ⟨fun _ => ⟨dgram, rfl⟩, fun _ => ⟨_, rfl⟩⟩
    | error e => exact ⟨fun ⟨_, bad⟩ => (nomatch bad), fun ⟨_, bad⟩ => (nomatch bad)⟩
  · by_cases request : IsEchoRequest p.content
    · have answered := received_echoRequest loose request s src
      constructor
      · rintro ⟨s', run, _⟩ _
        exact answered.iff.mp ⟨s', run⟩
      · intro whole
        obtain ⟨s', run⟩ := answered.iff.mpr (whole request)
        exact ⟨s', run, fun _ => answered.result run⟩
    · exact ⟨fun _ bad => absurd bad request,
        fun _ => ⟨s, received_other loose request s src, fun bad => absurd bad request⟩⟩

/-! ## Packets of one fragment and of two -/

/-- An echo request without data. -/
def ping : List Byte := [echoRequest, 0, 0, 0, 0, 0, 0, 0]

/-- `icmp` as it starts. -/
def idleIcmp : Icmp := ⟨212992, []⟩

theorem l4_input_safe_ping : ∃ p, ofFragments [ping] = .ok p ∧
    (∃ u', (Udp.mk fun _ => none).received p 1 2 = .ok u') ∧
    ∃ s', idleIcmp.received p 1 = .ok s' ∧ Answered idleIcmp s' 1 ping := by
  obtain ⟨p, made⟩ : ∃ p, ofFragments [ping] = .ok p := ⟨_, rfl⟩
  have spec := ofFragments_spec (show [ping].flatten.length < 2 ^ 32 by decide)
  rw [made] at spec
  obtain ⟨wf, content⟩ := spec
  have len : p.len = 8 := by
    rw [← wf.length_content, content]
    decide
  have both := l4_input_safe_iff wf.loose ⟨fun _ => none⟩ idleIcmp 1 2
  rw [content, len] at both
  obtain ⟨s', run, answered⟩ := both.2.mpr fun _ => by
    cases made
    decide
  exact ⟨p, made, both.1.mpr le_rfl, s', run, answered (by decide)⟩

/-- A datagram without a byte, and an echo request in two fragments. -/
theorem l4_input_faults : ∃ p p', ofFragments [] = .ok p ∧
    (∀ u : Udp, u.received p 1 2 = .error .outOfBounds) ∧
    ofFragments [ping, [1]] = .ok p' ∧ IsEchoRequest p'.content ∧
    idleIcmp.received p' 1 = .error .outOfBounds :=
  ⟨_, _, rfl, fun _ => rfl, rfl, by decide, by decide +kernel⟩

end ActorNet.Net
