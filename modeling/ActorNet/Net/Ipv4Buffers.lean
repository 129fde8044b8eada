import ActorNet.Net.Ipv4Reassembly
import ActorNet.Net.PacketTrims
import ActorNet.Tcp.Steering

/-!
# The IPv4 input path on packets in buffers

`ipv4::forward` and `ipv4::handle_received_packet` again, on packets as lists of
fragments: each header pointer and each trim is that of `net::packet`, and a
pointer that is null when it is used, like a trim beyond the length, is a fault.
What a packet is put together with is kept as the byte strings it holds. Where no
fault happens the outcome is that on byte strings (`handleReceived_eq`).
-/

namespace ActorNet.Net

open Lib Lib.Guarded Impl

namespace Buffers

/-- `forward` of a protocol, at an offset. -/
def l4Forward (protoNum : IpProtocolNum) (p : Impl) (off : Nat) :
    Except Fault (Impl × List Byte) :=
  match protoNum with
  | .tcp => (p.getHeader off Tcp.tcpHdrLen).map fun (p, th) => (p, (th.map (List.take 4)).getD [])
  | .udp => (p.getHeader off Tcp.udpHdrLen).map fun (p, uh) => (p, (uh.map (List.take 4)).getD [])
  | .icmp => .ok (p, [])

/-- `ipv4::forward`: the packet, and the hash data. -/
def forward (p : Impl) (off : Nat) : Except Fault (Impl × List Byte) := do
  let (p, iph) ← p.getHeader off ipv4HdrLenMin
  match iph with
  | none => .error .outOfBounds -- the pointer is used without a look at it
  | some iph =>
      let h := IpHdr.ntoh iph
      let addresses := (iph.drop 12).take 4 ++ (iph.drop 16).take 4
      match l4 h.ipProto with
      | none => .ok (p, addresses)
      | some protoNum =>
          if h.mf = false ∧ h.offset = 0 then
            (l4Forward protoNum p (off + ipv4HdrLenMin)).map fun (p, ports) =>
              (p, addresses ++ ports)
          else .ok (p, addresses)

/-- `ipv4::frag::merge`. -/
def merge (f : Frag) (h : IpHdr) (offset : Nat) (p : Impl) : Except Fault Frag := do
  let ipHdrLen := h.ihl * 4
  let (p, header) ← if offset = 0 then
      (p.share 0 ipHdrLen).map fun (p, header) => (p, header.content)
    else .ok (p, f.header)
  let p ← p.trimFront ipHdrLen
  match PacketMerger.merge (BitVec.ofNat 32 offset) p.content f.data with
  | some data => .ok { f with header := header, data := data }
  | none => .error .assertion

/-- `ipv4::frag::get_assembled_packet`: the pointer to the IP header is null when
what is put together is shorter than one, and is used without a look at it. -/
def getAssembledPacket (f : Frag) : Except Fault (List Byte) :=
  if f.header.length + f.ipData.length < ipv4HdrLenMin then .error .outOfBounds
  else .ok f.getAssembledPacket

/-- The cpu a datagram that is complete goes to. -/
def cpuId (r : Receiver) (h : IpHdr) (protoNum : IpProtocolNum) (f : Frag) : Nat :=
  r.hash2cpu (toBytesBE 4 h.srcIp ++ toBytesBE 4 h.dstIp ++ Receiver.l4Forward protoNum f.ipData)

/-- Handing on a datagram that is complete. -/
def handOn (r : Receiver) (h : IpHdr) (f : Frag) : Except Fault (List Handed) :=
  match l4 h.ipProto with
  | none => .ok []
  | some protoNum =>
      if cpuId r h protoNum f = r.shard then .ok [.received protoNum f.ipData h.srcIp h.dstIp]
      else (getAssembledPacket f).map fun pkt => [.forwarded (cpuId r h protoNum f) pkt]

/-- The part of `handle_received_packet` for a fragment. -/
def handleFrag (r : Receiver) (s : ReceiveState) (h : IpHdr) (p : Impl) :
    Except Fault ReceiveState := do
  let frag := (s.frags h.fragId).getD .empty
  let frag := if h.mf then frag else { frag with lastFragReceived := true }
  let frag ← merge frag h h.offset p
  if frag.isComplete then do
    let handed ← handOn r h frag
    .ok ⟨Function.update s.frags h.fragId none, handed ++ s.handed⟩
  else .ok { s with frags := Function.update s.frags h.fragId (some frag) }

/-- The part of `handle_received_packet` for what is sent to this host. -/
def handleOwn (r : Receiver) (s : ReceiveState) (h : IpHdr) (p : Impl) :
    Except Fault ReceiveState :=
  if h.Fragmented then handleFrag r s h p
  else match l4 h.ipProto with
    | none => .ok s
    | some protoNum => (p.trimFront (h.ihl * 4)).map fun p =>
        { s with handed := .received protoNum p.content h.srcIp h.dstIp :: s.handed }

/-- The part of `handle_received_packet` behind the first trim. -/
def handleTrimmed (r : Receiver) (s : ReceiveState) (h : IpHdr) (p : Impl) :
    Except Fault ReceiveState :=
  if ipPacketLenMax < h.offset + p.len then .ok s
  else if r.packetFilter.any fun handle => handle p.content h then .ok s
  else if h.dstIp ≠ r.hostAddress then .ok s
  else handleOwn r s h p

/-- `ipv4::handle_received_packet`. -/
def handleReceived (r : Receiver) (reassembled : Bool) (s : ReceiveState) (p : Impl) :
    Except Fault ReceiveState := do
  let (p, iph) ← p.getHeader 0 ipv4HdrLenMin
  match iph with
  | none => .ok s
  | some iph =>
      if ¬r.rxCsumOffload ∧ ¬reassembled ∧ ipv4ChecksumOk iph ≠ some true then .ok s
      else
        let h := IpHdr.ntoh iph
        if p.len < h.len then .ok s
        else if p.len = h.len then handleTrimmed r s h p
        else (p.trimBack (p.len - h.len)).bind fun p => handleTrimmed r s h p

/-! ## What they do to the bytes -/

variable {r : Receiver} {reassembled : Bool} {s : ReceiveState} {p : Impl} {h : IpHdr} {f : Frag}

theorem l4Forward_ok (wf : p.WF) (protoNum : IpProtocolNum) (off : Nat) :
    ∃ q, l4Forward protoNum p off =
      .ok (q, Receiver.l4Forward protoNum (p.content.drop off)) := by
  have read {size : Nat} (room : 4 ≤ size) : ∃ q, (p.getHeader off size).map (fun (p, x) =>
      (p, (x.map (List.take 4)).getD [])) = .ok (q,
        if size ≤ (p.content.drop off).length then (p.content.drop off).take 4 else []) := by
    obtain ⟨q, run, -⟩ := wf.getHeader_ok off size
    refine ⟨q, ?_⟩
    rw [run, List.length_drop, wf.length_content]
    by_cases inside : off + size ≤ p.len
    · have there : size ≤ p.len - off := by omega
      rw [if_pos ⟨inside, by omega⟩, if_pos there]
      simp [Except.map, List.take_take, room]
    · have missing : ¬size ≤ p.len - off := by omega
      rw [if_neg (fun both => inside both.1), if_neg missing]
      rfl
  cases protoNum with
  | tcp => exact read (by decide)
  | udp => exact read (by decide)
  | icmp => exact ⟨p, rfl⟩

/-- `forward` needs a whole IP header behind the offset, and nothing else. -/
theorem forward_completes (wf : p.WF) (off : Nat) :
    CompletesIff (off + ipv4HdrLenMin ≤ p.len) (forward p off) fun q =>
      q.2 = Tcp.ipv4Forward p.content off := by
  obtain ⟨p', run, wf', content⟩ := wf.getHeader_ok off ipv4HdrLenMin
  by_cases inside : off + ipv4HdrLenMin ≤ p.len
  · have start : off < p.len := by
      have : 0 < ipv4HdrLenMin := by decide
      omega
    rw [if_pos ⟨inside, start⟩] at run
    have address (k : Nat) (small : k + 4 ≤ ipv4HdrLenMin) :
        (((p.content.drop off).take ipv4HdrLenMin).drop k).take 4 =
          ((p.content.drop off).drop k).take 4 := by
      rw [List.drop_take, List.take_take, Nat.min_eq_left (by omega)]
    obtain ⟨q, forwarded⟩ : ∃ q, forward p off = .ok (q, Tcp.ipv4Forward p.content off) := by
      simp only [forward, run, bind, Except.bind, ntoh_take, Tcp.ipv4Forward,
        address 12 (by decide), address 16 (by decide)]
      cases l4 (IpHdr.ntoh (p.content.drop off)).ipProto with
      | none => exact ⟨p', by rw [List.append_nil]⟩
      | some protoNum =>
          dsimp only
          by_cases atomic : (IpHdr.ntoh (p.content.drop off)).mf = false ∧
              (IpHdr.ntoh (p.content.drop off)).offset = 0
          · obtain ⟨q, ports⟩ := l4Forward_ok wf' protoNum (off + ipv4HdrLenMin)
            rw [if_pos atomic, if_pos atomic, ports, content]
            exact ⟨q, rfl⟩
          · rw [if_neg atomic, if_neg atomic, List.append_nil]
            exact ⟨p', rfl⟩
    exact .of_ok inside forwarded rfl
  · rw [if_neg (fun both => inside both.1)] at run
    apply CompletesIff.of_error inside
    simp only [forward, run, bind, Except.bind]
    rfl

/-- A fragment is merged just if the header it tells of lies inside of it. -/
theorem merge_completes (loose : p.Loose) (offset : Nat)
    (joins : h.ihl * 4 ≤ p.len → ∃ f', f.merge h offset p.content = some f') :
    CompletesIff (h.ihl * 4 ≤ p.len) (merge f h offset p) fun f' =>
      f.merge h offset p.content = some f' := by
  -- behind the header that is kept: the trim, and the merger of the payload
  have rest (q : Impl) (header : List Byte) (loose' : q.Loose) (content : q.content = p.content)
      (len : q.len = p.len)
      (kept : header = if offset = 0 then p.content.take (h.ihl * 4) else f.header) :
      CompletesIff (h.ihl * 4 ≤ p.len) (do
        let p ← q.trimFront (h.ihl * 4)
        match PacketMerger.merge (BitVec.ofNat 32 offset) p.content f.data with
        | some data => .ok { f with header := header, data := data }
        | none => .error .assertion) fun f' => f.merge h offset p.content = some f' := by
    by_cases inside : h.ihl * 4 ≤ p.len
    · obtain ⟨q', trimmed, payload⟩ := loose'.trimFront_ok (len ▸ inside)
      obtain ⟨f', merged⟩ := joins inside
      have there : h.ihl * 4 ≤ p.content.length := loose.length_content ▸ inside
      refine .of_ok (a := f') inside ?_ merged
      simp only [Frag.merge, PacketMerger.trimFront, if_pos there, Option.bind_eq_bind,
        Option.bind_some, Option.bind_eq_some_iff, Option.some.injEq] at merged
      obtain ⟨data, merged, rfl⟩ := merged
      simp only [trimmed, bind, Except.bind, payload, content, merged, kept]
    · apply CompletesIff.of_error inside
      rw [trimFront_error (len ▸ Nat.lt_of_not_le inside)]
      rfl
  by_cases first : offset = 0
  · by_cases inside : h.ihl * 4 ≤ p.len
    · obtain ⟨q, m, shared, loose', content, len, header⟩ := loose.share_ok inside
      have rest := rest q m.content loose' content len (by rw [if_pos first, header])
      simpa only [merge, if_pos first, shared, Except.map, bind, Except.bind] using rest
    · cases shared : p.share 0 (h.ihl * 4) with
      | error e =>
          apply CompletesIff.of_error inside
          simp only [merge, if_pos first, shared, Except.map, bind, Except.bind]
          rfl
      | ok both =>
          obtain ⟨q, m⟩ := both
          apply CompletesIff.of_error inside
          have len := share_len shared
          simp only [merge, if_pos first, shared, Except.map, bind, Except.bind,
            trimFront_error (len ▸ Nat.lt_of_not_le inside)]
          rfl
  · have rest := rest p f.header loose rfl rfl (by rw [if_neg first])
    simpa only [merge, if_neg first, bind, Except.bind] using rest

/-! ## Handing on -/

/-- If these fragments complete a datagram that another cpu is to get, then it
has the bytes of an IP header, with those of the header that is kept. -/
def Redispatchable (r : Receiver) (h : IpHdr) (pieces : List Piece) : Prop :=
  ∀ protoNum d, l4 h.ipProto = some protoNum → (∃ x ∈ pieces, x.mf = false) →
    joined pieces = some [(0, d)] →
    r.hash2cpu (toBytesBE 4 h.srcIp ++ toBytesBE 4 h.dstIp ++ Receiver.l4Forward protoNum d) ≠
      r.shard →
    ipv4HdrLenMin ≤ (headerOf pieces).length + d.length

variable {pieces : List Piece} {m : PacketMerger.Map Nat} {w : Reception}

/-- What there is to ask of fragments that are complete. -/
theorem redispatchable_iff (gathered : Gathered pieces f m) (complete : f.isComplete = true)
    {protoNum : IpProtocolNum} (proto : l4 h.ipProto = some protoNum) :
    Redispatchable r h pieces ↔
      (cpuId r h protoNum f ≠ r.shard → ipv4HdrLenMin ≤ f.header.length + f.ipData.length) := by
  obtain ⟨d, rfl, data, ended⟩ := gathered.complete complete
  have ipData : f.ipData = d := by
    rw [Frag.ipData, data]
    rfl
  rw [cpuId, ipData, gathered.header]
  constructor
  · intro all
    exact all protoNum d proto ended gathered.made
  · intro one protoNum' d' proto' _ made
    obtain rfl : protoNum = protoNum' := Option.some.inj (proto.symm.trans proto')
    have same := gathered.made.symm.trans made
    simp only [Option.some.injEq, List.cons.injEq, Prod.mk.injEq, true_and, and_true] at same
    subst same
    exact one

/-- Fragments that do not complete a datagram, or one of no protocol that is
known, ask for nothing. -/
theorem redispatchable_of_incomplete (gathered : Gathered pieces f m)
    (open_ : f.isComplete ≠ true) : Redispatchable r h pieces := by
  intro protoNum d _ ended made
  rw [gathered.made] at made
  exact absurd (gathered.isComplete_iff.mpr ⟨ended, d, Option.some.inj made⟩) open_

theorem handOn_completes (gathered : Gathered pieces f m) (complete : f.isComplete = true) :
    CompletesIff (Redispatchable r h pieces) (handOn r h f) fun out => out = r.handOn h f := by
  cases proto : l4 h.ipProto with
  | none =>
      refine .of_ok (a := []) ?_ ?_ ?_
      · intro protoNum d known
        rw [proto] at known
        cases known
      · simp only [handOn, proto]
      · simp only [Receiver.handOn, proto]
  | some protoNum =>
      refine CompletesIff.congr ?_ (redispatchable_iff gathered complete proto).symm
      have bytes : (f.data.head?.map Prod.snd).getD [] = f.ipData := rfl
      by_cases here : cpuId r h protoNum f = r.shard
      · refine .of_ok (fun other => absurd here other)
          (by simp only [handOn, proto, if_pos here]; rfl) ?_
        simp only [Receiver.handOn, proto, bytes]
        rw [if_pos (by exact here)]
      · by_cases long : ipv4HdrLenMin ≤ f.header.length + f.ipData.length
        · refine .of_ok (fun _ => long) (by
            simp only [handOn, proto, if_neg here, getAssembledPacket,
              if_neg (Nat.not_lt.mpr long), Except.map]; rfl) ?_
          simp only [Receiver.handOn, proto, bytes]
          rw [if_neg (by exact here)]
          rfl
        · refine .of_error (fun all => long (all here)) (by
            simp only [handOn, proto, if_neg here, getAssembledPacket,
              if_pos (Nat.lt_of_not_le long), Except.map]; rfl)

/-- A fragment completes just if its header lies inside of it and what it may
complete can be redispatched. -/
theorem handleFrag_completes (sound : w.Sound) (loose : p.Loose)
    (small : h.offset + p.content.length ≤ ipPacketLenMax) :
    CompletesIff
      (h.ihl * 4 ≤ p.content.length ∧
        Redispatchable r h (h.piece p.content :: w.seen h.fragId))
      (handleFrag r w.state h p) fun s => r.handleFrag w.state h p.content = some s := by
  obtain ⟨m, gathered⟩ := sound h.fragId
  rw [loose.length_content]
  refine (merge_completes loose h.offset ?_).bind fun f' merged => ?_
  · intro inside
    obtain ⟨f', _, merged, _⟩ := gathered.merge (loose.length_content ▸ inside) small
    exact ⟨f', merged⟩
  · obtain ⟨f'', m', merged', gathered'⟩ := gathered.merge (Frag.merge_within merged) small
    obtain rfl : f' = f'' := Option.some.inj (merged.symm.trans merged')
    by_cases complete : f'.isComplete = true
    · rw [if_pos complete]
      have handed := handOn_completes (r := r) (h := h) gathered' complete
      refine handed.bind_ok fun out same => ⟨_, rfl, ?_⟩
      rw [Receiver.handleFrag_eq merged, if_pos complete, same]
    · rw [if_neg complete]
      refine .of_ok (redispatchable_of_incomplete gathered' complete) rfl ?_
      rw [Receiver.handleFrag_eq merged, if_neg complete]

/-! ## The whole path -/

/-- What is behind the door: the packet without what follows the IP datagram. -/
theorem handleReceived_door (wf : p.WF) (r : Receiver) (reassembled : Bool) (s : ReceiveState) :
    match r.accepted reassembled p.content with
    | none => handleReceived r reassembled s p = .ok s
    | some (h, q) => ∃ p' : Impl, p'.Loose ∧ p'.content = q ∧
        handleReceived r reassembled s p = handleOwn r s h p' := by
  obtain ⟨p₁, run, wf₁, content⟩ := wf.getHeader_ok 0 ipv4HdrLenMin
  have size : p.content.length = p.len := wf.length_content
  have size₁ : p₁.len = p.len := by rw [← wf₁.length_content, content, size]
  rw [List.drop_zero, Nat.zero_add] at run
  unfold Receiver.accepted
  by_cases short : p.content.length < ipv4HdrLenMin
  · rw [if_neg (fun both => by omega)] at run
    rw [if_pos short]
    simp only [handleReceived, run, bind, Except.bind]
  · have positive : 0 < ipv4HdrLenMin := by decide
    rw [if_pos ⟨by omega, by omega⟩] at run
    rw [if_neg short]
    by_cases wrong : ¬r.rxCsumOffload ∧ ¬reassembled ∧
        ipv4ChecksumOk (p.content.take ipv4HdrLenMin) ≠ some true
    · rw [if_pos wrong]
      simp only [handleReceived, run, bind, Except.bind]
      rw [if_pos wrong]
    · rw [if_neg wrong]
      dsimp only
      have received : handleReceived r reassembled s p =
          if p₁.len < (IpHdr.ntoh p.content).len then .ok s
          else if p₁.len = (IpHdr.ntoh p.content).len then
            handleTrimmed r s (IpHdr.ntoh p.content) p₁
          else (p₁.trimBack (p₁.len - (IpHdr.ntoh p.content).len)).bind fun p' =>
            handleTrimmed r s (IpHdr.ntoh p.content) p' := by
        simp only [handleReceived, run, bind, Except.bind]
        rw [if_neg wrong, ntoh_take]
      generalize IpHdr.ntoh p.content = h at received ⊢
      rw [received, size₁, size]
      by_cases cut : p.len < h.len
      · rw [if_pos cut, if_pos cut]
      · rw [if_neg cut, if_neg cut]
        -- with the bytes behind the datagram cut off
        obtain ⟨p₂, loose, bytes, trimmed⟩ : ∃ p₂ : Impl, p₂.Loose ∧
            p₂.content = p.content.take h.len ∧
            (if p.len = h.len then handleTrimmed r s h p₁
              else (p₁.trimBack (p.len - h.len)).bind fun p => handleTrimmed r s h p) =
                handleTrimmed r s h p₂ := by
          by_cases whole : p.len = h.len
          · refine ⟨p₁, wf₁.loose, ?_, if_pos whole⟩
            rw [content, ← whole, ← size, List.take_length]
          · obtain ⟨p₂, cutBack, loose, bytes⟩ := wf₁.loose.trimBack_ok (n := p.len - h.len) (by omega)
            refine ⟨p₂, loose, ?_, ?_⟩
            · rw [bytes, content, size₁, Nat.sub_sub_self (by omega)]
            · rw [if_neg whole, cutBack]
              rfl
        have length : p₂.len = h.len := by
          rw [← loose.length_content, bytes, List.length_take]
          omega
        rw [trimmed]
        unfold handleTrimmed
        rw [length, bytes]
        by_cases large : ipPacketLenMax < h.offset + h.len
        · rw [if_pos large, if_pos large]
        rw [if_neg large, if_neg large]
        by_cases filtered : r.packetFilter.any fun handle => handle (p.content.take h.len) h
        · rw [if_pos filtered, if_pos filtered]
        rw [if_neg filtered, if_neg filtered]
        by_cases other : h.dstIp ≠ r.hostAddress
        · rw [if_pos other, if_pos other]
        · rw [if_neg other, if_neg other]
          exact ⟨p₂, loose, bytes, rfl⟩

/-- What a packet that gets past the door has to be like, beside the fragments
that have come before it. -/
structure Acceptable (r : Receiver) (h : IpHdr) (q : List Byte) (seen : List Piece) : Prop where
  inside : h.Fragmented ∨ (l4 h.ipProto).isSome → h.ihl * 4 ≤ q.length
  redispatchable : h.Fragmented → Redispatchable r h (h.piece q :: seen)

/-- Such packets are handled without a fault, and no others; and what becomes of
their bytes is what becomes of byte strings. -/
theorem handleReceived_completes (sound : w.Sound) (wf : p.WF) (r : Receiver)
    (reassembled : Bool) :
    CompletesIff (∀ h q, r.accepted reassembled p.content = some (h, q) →
        Acceptable r h q (w.seen h.fragId)) (handleReceived r reassembled w.state p) fun s =>
      r.handleReceivedPacket reassembled w.state p.content = some s := by
  have door := handleReceived_door wf r reassembled w.state
  simp only [Receiver.handleReceivedPacket_eq]
  cases accepted : r.accepted reassembled p.content with
  | none =>
      rw [accepted] at door
      exact .of_ok (by simp) door rfl
  | some x =>
      obtain ⟨h, q⟩ := x
      rw [accepted] at door
      obtain ⟨p', loose, rfl, handled⟩ := door
      have small := (Receiver.accepted_some accepted).2.1
      rw [handled]
      have whole : (∀ h' q', some (h, p'.content) = some (h', q') →
          Acceptable r h' q' (w.seen h'.fragId)) ↔
            Acceptable r h p'.content (w.seen h.fragId) := by
        constructor
        · exact fun all => all h p'.content rfl
        · rintro one _ _ ⟨⟩
          exact one
      refine CompletesIff.congr ?_ whole.symm
      unfold handleOwn
      by_cases fragmented : h.Fragmented
      · simp only [if_pos fragmented]
        refine (handleFrag_completes sound loose small).congr ⟨?_, ?_⟩
        · rintro ⟨inside, redispatchable⟩
          exact ⟨fun _ => inside, fun _ => redispatchable⟩
        · exact fun ok => ⟨ok.inside (.inl fragmented), ok.redispatchable fragmented⟩
      · simp only [if_neg fragmented]
        cases proto : l4 h.ipProto with
        | none =>
            refine .of_ok ⟨fun reached => ?_, fun bad => absurd bad fragmented⟩ rfl rfl
            rcases reached with bad | known
            · exact absurd bad fragmented
            · rw [proto] at known
              cases known
        | some protoNum =>
            have length : p'.content.length = p'.len := loose.length_content
            refine CompletesIff.congr
              ((loose.trimFront_completes (h.ihl * 4)).map fun inside q bytes => ?_) ⟨?_, ?_⟩
            · rw [PacketMerger.trimFront, if_pos (length.symm ▸ inside), bytes]
              rfl
            · exact fun inside => ⟨fun _ => length ▸ inside, fun bad => absurd bad fragmented⟩
            · exact fun ok => length ▸ ok.inside (.inr (by rw [proto]; rfl))

/-- In every state that fragments lead to: `forward` is safe on a frame with a
whole IP header behind the offset and on no other, and the receive path on a
packet that is acceptable and on no other. -/
theorem input_safe_iff {r : Receiver} {es : List Input} {w : Reception}
    (run : exec r.observe Reception.start es = some w) {p : Impl} (wf : p.WF) (off : Nat)
    (reassembled : Bool) :
    ((∃ q, forward p off = .ok q) ↔ off + ipv4HdrLenMin ≤ p.len) ∧
    ((∃ s, handleReceived r reassembled w.state p = .ok s) ↔
      ∀ h q, r.accepted reassembled p.content = some (h, q) →
        Acceptable r h q (w.seen h.fragId)) :=
  ⟨(forward_completes wf off).iff,
    (handleReceived_completes (Reception.sound_of_run run) wf r reassembled).iff⟩

/-! ## Datagrams from host 1 to host 2 -/

/-- A datagram of 28 bytes that tells of a header of this many words. -/
def datagramOf (ihl : Nat) : List Byte :=
  IpHdr.hton ⟨ihl, 4, 0, 0, 28, 7, 0, 64, 17, 0, 1, 2⟩ ++ List.replicate 8 1

/-- Host 2, which has one cpu and a device that looks at the checksum. -/
def singleCpu : Receiver := ⟨true, 2, none, 0, fun _ => 0⟩

theorem input_safe_datagram : ∃ p, ofBytes (datagramOf 5) = .ok p ∧
    (∃ q, forward p 0 = .ok q) ∧ ∃ s, handleReceived singleCpu false Receiver.init p = .ok s := by
  obtain ⟨p, made⟩ : ∃ p, ofBytes (datagramOf 5) = .ok p := ⟨_, rfl⟩
  have spec := ofBytes_spec (show (datagramOf 5).length < 2 ^ 32 by decide)
  rw [made] at spec
  obtain ⟨wf, content⟩ := spec
  have len : p.len = 28 := by
    rw [← wf.length_content, content]
    decide
  have started : exec singleCpu.observe Reception.start [] = some Reception.start := rfl
  have both := input_safe_iff started wf 0 false
  refine ⟨p, made, both.1.mpr (by rw [len]; decide), both.2.mpr ?_⟩
  have accepted : singleCpu.accepted false (datagramOf 5) =
      some (IpHdr.ntoh (datagramOf 5), datagramOf 5) := by decide +kernel
  rw [content, accepted]
  rintro h q ⟨⟩
  have whole : ¬(IpHdr.ntoh (datagramOf 5)).Fragmented := by decide +kernel
  exact ⟨fun _ => by decide +kernel, fun bad => absurd bad whole⟩

/-- A frame without a byte of a header, and a header of 60 bytes in a datagram of
28. -/
theorem input_faults : ∃ p p', ofBytes [] = .ok p ∧ forward p 0 = .error .outOfBounds ∧
    ofBytes (datagramOf 15) = .ok p' ∧
    ¬∃ s, handleReceived singleCpu false Receiver.init p' = .ok s := by
  obtain ⟨p', made⟩ : ∃ p', ofBytes (datagramOf 15) = .ok p' := ⟨_, rfl⟩
  have stopped : ((ofBytes (datagramOf 15)).bind
      (handleReceived singleCpu false Receiver.init)).isOk = false := by decide +kernel
  rw [made] at stopped
  refine ⟨_, p', rfl, rfl, made, ?_⟩
  rintro ⟨s, handled⟩
  have ok : (handleReceived singleCpu false Receiver.init p').isOk = true := by
    rw [handled]
    rfl
  exact Bool.false_ne_true (stopped.symm.trans ok)

end Buffers

end ActorNet.Net
