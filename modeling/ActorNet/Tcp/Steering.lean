import ActorNet.Lib.Toeplitz
import ActorNet.Net.AssembledHeader
import ActorNet.Tcp.Tcb

/-!
# Which cpu a datagram goes to

A frame is sent on by the Toeplitz hash of what `forward` takes from it, unless
the device has a hash of its own; a datagram put together from fragments by that
of its payload, and where that leads to another cpu, once more there, as a frame
with the header that was kept; and a connection picks its port by that of its
name. `forward` looks for the ports right behind a header of 20 bytes, whatever
`ihl` says.
-/

namespace ActorNet.Tcp

open Lib Net

/-- `sizeof(eth_hdr)`. -/
def ethHdrLen : Nat := 14

def udpHdrLen : Nat := 8

/-- `l4connid::hash`. -/
def ConnId.hash (rssKey : List Byte) (id : ConnId) : BitVec 32 :=
  toeplitzHash rssKey (toBytesBE 4 id.foreignIp.toNat ++ toBytesBE 4 id.localIp.toNat ++
    toBytesBE 2 id.foreignPort.toNat ++ toBytesBE 2 id.localPort.toNat)

/-- `ipv4::forward`, for a frame with an IP header at the offset: the hash data. -/
def ipv4Forward (frame : List Byte) (off : Nat) : List Byte :=
  let iph := frame.drop off
  let h := IpHdr.ntoh iph
  (iph.drop 12).take 4 ++ (iph.drop 16).take 4 ++
    match l4 h.ipProto with
    | none => []
    | some protoNum =>
        if h.mf = false ∧ h.offset = 0 then
          Receiver.l4Forward protoNum (frame.drop (off + ipv4HdrLenMin))
        else []

/-- `default_rsskey_40bytes`, the key of a device that says nothing else. -/
def defaultRsskey40bytes : List Byte :=
  [0xd1, 0x81, 0xc6, 0x2c, 0xf7, 0xf4, 0xdb, 0x5b, 0x19, 0x83, 0xa2, 0xfc, 0x94, 0x3e,
    0x1a, 0xdb, 0xd9, 0x38, 0x9e, 0x6b, 0xd1, 0x03, 0x9c, 0x2c, 0xa7, 0x44, 0x99, 0xad,
    0x59, 0x3d, 0x56, 0xd9, 0xf3, 0x25, 0x3c, 0x06, 0x2a, 0xdc, 0x1f, 0xfc]

/-- The hash by which `dispatch_packet` sends a frame on. -/
def dispatchHash (rssKey : List Byte) (rssHash : Option (BitVec 32)) (frame : List Byte) :
    BitVec 32 :=
  rssHash.getD (toeplitzHash rssKey (ipv4Forward frame ethHdrLen))

/-- The tables of a device; `swReta` is that of the queue of a cpu. -/
structure Redirection where
  hwQueuesCount : Nat
  rssTableBits : Nat
  swReta : Nat → Option (List Nat)

namespace Redirection

/-- `forward_dst`. -/
def forwardDst (dev : Redirection) (srcCpuid : Nat) (hash : BitVec 32) : Nat :=
  match dev.swReta srcCpuid with
  | none => srcCpuid
  | some reta => reta.getD ((hash >>> dev.rssTableBits).toNat % reta.length) 0

/-- `hash2cpu`. -/
def hash2cpu (dev : Redirection) (hash : BitVec 32) : Nat :=
  dev.forwardDst (hash.toNat % dev.hwQueuesCount) hash

/-- The cpu where `dispatch_packet` has an IPv4 frame handled: the one it is on, or
another one, where it is dispatched again. -/
def dispatchPacket (dev : Redirection) (rssKey : List Byte) (rssHash : Option (BitVec 32))
    (srcCpuid : Nat) (frame : List Byte) : Nat :=
  dev.forwardDst srcCpuid (dispatchHash rssKey rssHash frame)

/-- The receive path on a cpu of the device. -/
def receiver (dev : Redirection) (rssKey : List Byte) (r : Receiver) (cpuid : Nat) : Receiver :=
  { r with shard := cpuid, hash2cpu := fun data => dev.hash2cpu (toeplitzHash rssKey data) }

end Redirection

/-- The connection of a datagram, by its payload and its addresses: what
`tcp::received` looks up, and the same of a UDP datagram. -/
def connIdOf (protoNum : IpProtocolNum) (p : List Byte) (src dst : Nat) : Option ConnId :=
  match protoNum with
  | .tcp =>
      if p.length < tcpHdrLen then none
      else
        let h := TcpHdr.read (p.take tcpHdrLen)
        some ⟨BitVec.ofNat 32 dst, BitVec.ofNat 32 src, h.dstPort, h.srcPort⟩
  | .udp =>
      if p.length < udpHdrLen then none
      else some ⟨BitVec.ofNat 32 dst, BitVec.ofNat 32 src, BitVec.ofNat 16 (IpHdr.field p 2 2),
        BitVec.ofNat 16 (IpHdr.field p 0 2)⟩
  | .icmp => none

/-- A datagram that comes in is handed to its protocol, which looks a connection
up for its payload. -/
def LooksUp (r : Receiver) (reassembled : Bool) (d : List Byte) (protoNum : IpProtocolNum)
    (p : List Byte) (id : ConnId) : Prop :=
  ∃ s s' src dst, r.handleReceivedPacket reassembled s d = some s' ∧
    s'.handed = .received protoNum p src dst :: s.handed ∧ connIdOf protoNum p src dst = some id

/-- Under every key a frame has the hash of a connection, and every device has it
handled where that leads. A frame that was put together has no hash of a device. -/
def Steered (frame : List Byte) (id : ConnId) : Prop :=
  ∀ key : List Byte, 4 ≤ key.length → dispatchHash key none frame = id.hash key ∧
    ∀ (dev : Redirection) (cpu : Nat),
      dev.dispatchPacket key none cpu frame = dev.forwardDst cpu (id.hash key)

/-- What `forward` takes for the ports, with the zeros that do not change a
hash, are the ports. -/
def portsInFront (frame : List Byte) (protoNum : IpProtocolNum) (p : List Byte) : Bool :=
  (Receiver.l4Forward protoNum (frame.drop (ethHdrLen + ipv4HdrLenMin))).rightpad 4 0 == p.take 4

/-! ## Names and bytes -/

theorem toBytesBE_field {bytes : List Byte} {at_ size : Nat} (inside : at_ + size ≤ bytes.length) :
    toBytesBE size (IpHdr.field bytes at_ size) = (bytes.drop at_).take size := by
  have length : ((bytes.drop at_).take size).length = size := by
    rw [List.length_take, List.length_drop]
    omega
  have whole := toBytesBE_ofBytesBE ((bytes.drop at_).take size)
  rw [length] at whole
  exact whole

theorem toBytesBE_ofNat {w n x : Nat} (width : w = 8 * n) (bs : List Byte)
    (length : bs.length = n) (same : x = ofBytesBE bs) :
    toBytesBE n (BitVec.ofNat w x).toNat = bs := by
  have small := ofBytesBE_lt length
  rw [same, BitVec.toNat_ofNat, width, Nat.mod_eq_of_lt small, ← length]
  exact toBytesBE_ofBytesBE bs

/-- The ports of both protocols are the first four bytes. -/
theorem connIdOf_ports {protoNum : IpProtocolNum} {p : List Byte} {src dst : Nat} {id : ConnId}
    (found : connIdOf protoNum p src dst = some id) : 8 ≤ p.length ∧
      id.foreignIp = BitVec.ofNat 32 src ∧ id.localIp = BitVec.ofNat 32 dst ∧
      id.foreignPort = BitVec.ofNat 16 (ofBytesBE (p.take 2)) ∧
      id.localPort = BitVec.ofNat 16 (ofBytesBE ((p.drop 2).take 2)) := by
  unfold connIdOf at found
  cases protoNum with
  | icmp => cases found
  | tcp =>
      dsimp only at found
      split at found
      · cases found
      · rename_i long
        unfold tcpHdrLen at *
        cases found
        refine ⟨by omega, rfl, rfl, ?_, ?_⟩
        · show TcpHdr.field 16 (p.take 20) 0 = _
          unfold TcpHdr.field
          rw [List.drop_zero, List.take_take]
          rfl
        · show TcpHdr.field 16 (p.take 20) 2 = _
          unfold TcpHdr.field
          rw [List.drop_take, List.take_take]
          rfl
  | udp =>
      dsimp only at found
      split at found
      · cases found
      · rename_i long
        unfold udpHdrLen at *
        cases found
        exact ⟨by omega, rfl, rfl, rfl, rfl⟩

/-- The name of a connection hashes to the addresses and the ports as they are
in the datagram. -/
theorem connIdOf_hash {protoNum : IpProtocolNum} {p srcBytes dstBytes : List Byte} {id : ConnId}
    (src : srcBytes.length = 4) (dst : dstBytes.length = 4)
    (found : connIdOf protoNum p (ofBytesBE srcBytes) (ofBytesBE dstBytes) = some id)
    (key : List Byte) :
    id.hash key = toeplitzHash key (srcBytes ++ dstBytes ++ p.take 4) := by
  obtain ⟨long, foreignIp, localIp, foreignPort, localPort⟩ := connIdOf_ports found
  have first : (p.take 2).length = 2 := by rw [List.length_take]; omega
  have second : ((p.drop 2).take 2).length = 2 := by rw [List.length_take, List.length_drop]; omega
  have ports : p.take 2 ++ (p.drop 2).take 2 = p.take 4 := List.take_add.symm
  unfold ConnId.hash
  rw [foreignIp, localIp, foreignPort, localPort, toBytesBE_ofNat rfl srcBytes src rfl,
    toBytesBE_ofNat rfl dstBytes dst rfl, toBytesBE_ofNat rfl _ first rfl,
    toBytesBE_ofNat rfl _ second rfl, List.append_assoc (srcBytes ++ dstBytes), ports]

theorem toBytesBE_append_inj {w n : Nat} {x y : BitVec w} {rest rest' : List Byte}
    (width : 2 ^ w = 256 ^ n) (equal : toBytesBE n x.toNat ++ rest = toBytesBE n y.toNat ++ rest') :
    x = y ∧ rest = rest' := by
  obtain ⟨front, behind⟩ := List.append_inj equal (by simp only [length_toBytesBE])
  have number := congrArg ofBytesBE front
  rw [ofBytesBE_toBytesBE_of_lt (width ▸ x.isLt), ofBytesBE_toBytesBE_of_lt (width ▸ y.isLt)]
    at number
  exact ⟨BitVec.eq_of_toNat_eq number, behind⟩

/-- Two connections with one hash under every key are the same. -/
theorem ConnId.hash_inj {a b : ConnId}
    (same : ∀ key : List Byte, 4 ≤ key.length → a.hash key = b.hash key) : a = b := by
  have short : ∀ x : ConnId, (toBytesBE 4 x.foreignIp.toNat ++ toBytesBE 4 x.localIp.toNat ++
      toBytesBE 2 x.foreignPort.toNat ++ toBytesBE 2 x.localPort.toNat).length = 12 := by
    intro x
    simp only [List.length_append, length_toBytesBE]
  have bits := (Toeplitz.toeplitzHash_eq_iff (n := 12) (short a).le (short b).le).mp
    fun key length => same key (by omega)
  have bytes := Toeplitz.eq_of_bitAt ((short a).trans (short b).symm) bits
  simp only [List.append_assoc] at bytes
  -- the bytes are equal, and each field has its own place in them
  obtain ⟨foreignIp, bytes⟩ := toBytesBE_append_inj (n := 4) rfl bytes
  obtain ⟨localIp, bytes⟩ := toBytesBE_append_inj (n := 4) rfl bytes
  obtain ⟨foreignPort, bytes⟩ := toBytesBE_append_inj (n := 2) rfl bytes
  rw [← List.append_nil (toBytesBE 2 a.localPort.toNat),
    ← List.append_nil (toBytesBE 2 b.localPort.toNat)] at bytes
  obtain ⟨localPort, -⟩ := toBytesBE_append_inj (n := 2) rfl bytes
  cases a
  cases b
  simp_all

/-! ## Agreement -/

/-- A datagram that is not a fragment and is handed to its protocol. -/
theorem handled_whole {r : Receiver} {reassembled : Bool} {s s' : ReceiveState} {d : List Byte}
    {protoNum : IpProtocolNum} {p : List Byte} {src dst : Nat}
    (whole : (IpHdr.ntoh d).mf = false ∧ (IpHdr.ntoh d).offset = 0)
    (received : r.handleReceivedPacket reassembled s d = some s')
    (handed : s'.handed = .received protoNum p src dst :: s.handed) :
    ipv4HdrLenMin ≤ d.length ∧ l4 (IpHdr.ntoh d).ipProto = some protoNum ∧
      p = (d.take (IpHdr.ntoh d).len).drop ((IpHdr.ntoh d).ihl * 4) ∧
      src = (IpHdr.ntoh d).srcIp ∧ dst = (IpHdr.ntoh d).dstIp := by
  have dropped : s' ≠ s := by
    rintro rfl
    exact List.cons_ne_self _ _ handed.symm
  have stays : some s ≠ some s' := fun same => dropped (Option.some.inj same).symm
  unfold Receiver.handleReceivedPacket at received
  split at received
  · exact absurd received stays
  rename_i long
  split at received
  · exact absurd received stays
  dsimp only at received
  split at received
  · exact absurd received stays
  split at received
  · exact absurd received stays
  split at received
  · exact absurd received stays
  split at received
  · exact absurd received stays
  rw [if_neg (by simp [whole.1, whole.2])] at received
  split at received
  · exact absurd received stays
  · rename_i protoNum' proto
    obtain ⟨p', trimmed, result⟩ := Option.map_eq_some_iff.mp received
    unfold PacketMerger.trimFront at trimmed
    split at trimmed
    · cases trimmed
      subst result
      obtain ⟨same, -⟩ := List.cons.inj handed
      cases same
      exact ⟨by omega, proto, rfl, rfl, rfl⟩
    · cases trimmed

/-- On the addresses of the header of a datagram. -/
theorem ipv4Forward_whole {frame : List Byte} {protoNum : IpProtocolNum}
    (whole : (IpHdr.ntoh (frame.drop ethHdrLen)).mf = false ∧
      (IpHdr.ntoh (frame.drop ethHdrLen)).offset = 0)
    (proto : l4 (IpHdr.ntoh (frame.drop ethHdrLen)).ipProto = some protoNum) :
    ipv4Forward frame ethHdrLen =
      ((frame.drop ethHdrLen).drop 12).take 4 ++ ((frame.drop ethHdrLen).drop 16).take 4 ++
        Receiver.l4Forward protoNum (frame.drop (ethHdrLen + ipv4HdrLenMin)) := by
  unfold ipv4Forward
  simp only [proto, whole, and_self, if_true]

theorem l4Forward_length (protoNum : IpProtocolNum) (p : List Byte) :
    (Receiver.l4Forward protoNum p).length ≤ 4 := by
  unfold Receiver.l4Forward
  cases protoNum with
  | icmp => exact Nat.zero_le _
  | tcp =>
      dsimp only
      split
      · exact List.length_take_le ..
      · exact Nat.zero_le _
  | udp =>
      dsimp only
      split
      · exact List.length_take_le ..
      · exact Nat.zero_le _

/-- Hash data with fewer bytes for the ports agrees with the ports under every
key exactly when it does so with zeros behind it. -/
theorem hash_ports_iff {addresses forwarded ports : List Byte} (addressed : addresses.length = 8)
    (short : forwarded.length ≤ 4) (four : ports.length = 4) :
    (∀ key : List Byte, 4 ≤ key.length →
      toeplitzHash key (addresses ++ forwarded) = toeplitzHash key (addresses ++ ports)) ↔
      forwarded.rightpad 4 0 = ports := by
  have padded : addresses ++ forwarded.rightpad 4 0 =
      addresses ++ forwarded ++ List.replicate (4 - forwarded.length) 0 :=
    (List.append_assoc ..).symm
  have bits : ∀ k, bitAt (addresses ++ forwarded.rightpad 4 0) k =
      bitAt (addresses ++ forwarded) k := by
    intro k
    rw [padded]
    exact Toeplitz.bitAt_append_zeros ..
  have lengths : (addresses ++ forwarded.rightpad 4 0).length = (addresses ++ ports).length := by
    rw [padded]
    simp only [List.length_append, List.length_replicate, four]
    omega
  constructor
  · intro same
    have enough : ∀ bs : List Byte, bs.length ≤ 4 → (addresses ++ bs).length ≤ 40 := by
      intro bs small
      rw [List.length_append]
      omega
    have all := (Toeplitz.toeplitzHash_eq_iff (enough _ short) (enough _ four.le)).mp
      fun key length => same key (by omega)
    have equal := Toeplitz.eq_of_bitAt lengths fun k => (bits k).trans (all k)
    exact List.append_cancel_left equal
  · intro same key _
    rw [← same]
    exact Toeplitz.toeplitzHash_congr key fun k => (bits k).symm

theorem whole_steered {frame : List Byte} {r : Receiver} {reassembled : Bool}
    {s s' : ReceiveState} {protoNum : IpProtocolNum} {p : List Byte} {src dst : Nat} {id : ConnId}
    (whole : (IpHdr.ntoh (frame.drop ethHdrLen)).mf = false ∧
      (IpHdr.ntoh (frame.drop ethHdrLen)).offset = 0)
    (received : r.handleReceivedPacket reassembled s (frame.drop ethHdrLen) = some s')
    (handed : s'.handed = .received protoNum p src dst :: s.handed)
    (found : connIdOf protoNum p src dst = some id) :
    (∀ key : List Byte, 4 ≤ key.length → dispatchHash key none frame = id.hash key) ↔
      portsInFront frame protoNum p = true := by
  obtain ⟨long, proto, -, rfl, rfl⟩ := handled_whole whole received handed
  have length : ∀ at_, at_ + 4 ≤ 20 →
      (((frame.drop ethHdrLen).drop at_).take 4).length = 4 := by
    intro at_ inside
    rw [List.length_take, List.length_drop]
    unfold ipv4HdrLenMin at long
    omega
  have source := length 12 (by omega)
  have target := length 16 (by omega)
  have ports : (p.take 4).length = 4 := by
    have four := (connIdOf_ports found).1
    rw [List.length_take]
    omega
  have addressed : (((frame.drop ethHdrLen).drop 12).take 4 ++
      ((frame.drop ethHdrLen).drop 16).take 4).length = 8 := by
    rw [List.length_append, source, target]
  have conn : ∀ key, id.hash key = toeplitzHash key (((frame.drop ethHdrLen).drop 12).take 4 ++
      ((frame.drop ethHdrLen).drop 16).take 4 ++ p.take 4) :=
    connIdOf_hash source target found
  have soft : ∀ key, dispatchHash key none frame = toeplitzHash key
      (((frame.drop ethHdrLen).drop 12).take 4 ++ ((frame.drop ethHdrLen).drop 16).take 4 ++
        Receiver.l4Forward protoNum (frame.drop (ethHdrLen + ipv4HdrLenMin))) := by
    intro key
    unfold dispatchHash
    rw [ipv4Forward_whole whole proto]
    rfl
  unfold portsInFront
  rw [beq_iff_eq, ← hash_ports_iff addressed (l4Forward_length ..) ports]
  simp only [soft, conn]

/-- The header of a protocol that names a connection is there for `forward`. -/
theorem l4Forward_of_connId {protoNum : IpProtocolNum} {p q : List Byte} {src dst : Nat}
    {id : ConnId} (found : connIdOf protoNum p src dst = some id) (longer : p.length ≤ q.length) :
    Receiver.l4Forward protoNum q = q.take 4 := by
  unfold connIdOf tcpHdrLen udpHdrLen at found
  unfold Receiver.l4Forward
  cases protoNum with
  | icmp => cases found
  | tcp =>
      dsimp only at found ⊢
      split at found
      · cases found
      · exact if_pos (by omega)
  | udp =>
      dsimp only at found ⊢
      split at found
      · cases found
      · exact if_pos (by omega)

/-- A header without options has the ports behind it. -/
theorem portsInFront_of_ihl {frame : List Byte} {r : Receiver} {reassembled : Bool}
    {s s' : ReceiveState} {protoNum : IpProtocolNum} {p : List Byte} {src dst : Nat} {id : ConnId}
    (whole : (IpHdr.ntoh (frame.drop ethHdrLen)).mf = false ∧
      (IpHdr.ntoh (frame.drop ethHdrLen)).offset = 0)
    (received : r.handleReceivedPacket reassembled s (frame.drop ethHdrLen) = some s')
    (handed : s'.handed = .received protoNum p src dst :: s.handed)
    (found : connIdOf protoNum p src dst = some id)
    (plain : (IpHdr.ntoh (frame.drop ethHdrLen)).ihl = 5) :
    portsInFront frame protoNum p = true := by
  obtain ⟨-, -, payload, -, -⟩ := handled_whole whole received handed
  rw [plain, List.drop_take] at payload
  have behind : (frame.drop ethHdrLen).drop (5 * 4) =
      frame.drop (ethHdrLen + ipv4HdrLenMin) := List.drop_drop
  rw [behind] at payload
  -- the payload is a prefix of what lies behind the header
  have within : p.length ≤ (frame.drop (ethHdrLen + ipv4HdrLenMin)).length := by
    rw [payload]
    exact List.length_take_le' ..
  have same : (frame.drop (ethHdrLen + ipv4HdrLenMin)).take 4 = p.take 4 := by
    have four := (connIdOf_ports found).1
    have bound : p.length ≤ (IpHdr.ntoh (frame.drop ethHdrLen)).len - 5 * 4 := by
      rw [payload]
      exact List.length_take_le ..
    rw [payload, List.take_take, Nat.min_eq_left (by omega)]
  unfold portsInFront
  rw [beq_iff_eq, ← same, l4Forward_of_connId found within]
  have length : ((frame.drop (ethHdrLen + ipv4HdrLenMin)).take 4).length = 4 := by
    have four := (connIdOf_ports found).1
    rw [List.length_take]
    omega
  unfold List.rightpad
  rw [length]
  exact List.append_nil _

/-- What is put together from fragments goes to the cpu of its connection. -/
theorem handOn_steered {q : Receiver} {d : List Byte} {frag : Frag} {protoNum : IpProtocolNum}
    {id : ConnId} {key : List Byte} {dev : Redirection} (long : ipv4HdrLenMin ≤ d.length)
    (proto : l4 (IpHdr.ntoh d).ipProto = some protoNum)
    (table : q.hash2cpu = fun data => dev.hash2cpu (toeplitzHash key data))
    (found : connIdOf protoNum ((frag.data.head?.map Prod.snd).getD []) (IpHdr.ntoh d).srcIp
      (IpHdr.ntoh d).dstIp = some id) :
    q.handOn (IpHdr.ntoh d) frag = if dev.hash2cpu (id.hash key) = q.shard then
      [.received protoNum ((frag.data.head?.map Prod.snd).getD []) (IpHdr.ntoh d).srcIp
        (IpHdr.ntoh d).dstIp]
      else [.forwarded (dev.hash2cpu (id.hash key)) frag.getAssembledPacket] := by
  have field : ∀ at_, at_ + 4 ≤ 20 → toBytesBE 4 (IpHdr.field d at_ 4) = (d.drop at_).take 4 ∧
      ((d.drop at_).take 4).length = 4 := by
    intro at_ inside
    unfold ipv4HdrLenMin at long
    refine ⟨toBytesBE_field (by omega), ?_⟩
    rw [List.length_take, List.length_drop]
    omega
  obtain ⟨source, sourceLength⟩ := field 12 (by omega)
  obtain ⟨target, targetLength⟩ := field 16 (by omega)
  have conn := connIdOf_hash sourceLength targetLength found key
  have data : q.hash2cpu (toBytesBE 4 (IpHdr.ntoh d).srcIp ++ toBytesBE 4 (IpHdr.ntoh d).dstIp ++
      Receiver.l4Forward protoNum ((frag.data.head?.map Prod.snd).getD [])) =
      dev.hash2cpu (id.hash key) := by
    rw [table, conn, l4Forward_of_connId found (Nat.le_refl _)]
    show dev.hash2cpu (toeplitzHash key (toBytesBE 4 (IpHdr.field d 12 4) ++
      toBytesBE 4 (IpHdr.field d 16 4) ++ _)) = _
    rw [source, target]
  unfold Receiver.handOn
  rw [proto]
  dsimp only
  rw [data]

/-- Where a datagram that was put together comes in on another cpu, the connection
that is looked up is the one by whose hash it was sent, if its header has the
length of an IP header. -/
theorem assembled_looksUp {r₁ r₂ : Receiver} {w : Reception} {h : IpHdr} {q : List Byte} {f : Frag}
    {protoNum₁ protoNum₂ : IpProtocolNum} {p : List Byte} {id₁ id₂ : ConnId}
    (completes : Completes r₁ w h q f)
    (found : connIdOf protoNum₁ f.ipData h.srcIp h.dstIp = some id₁)
    (looksUp : LooksUp r₂ true f.getAssembledPacket protoNum₂ p id₂)
    (long : ipv4HdrLenMin ≤ f.header.length) : id₁ = id₂ := by
  obtain ⟨s, s', src, dst, received, handed, found'⟩ := looksUp
  have eight := (connIdOf_ports found).1
  have whole := assembled_whole (f := f) (by rw [List.length_append]; omega)
  obtain ⟨-, -, payload, rfl, rfl⟩ := handled_whole whole received handed
  obtain ⟨said, length⟩ := completes.headerUnder long
  obtain ⟨ihl, -, srcIp, dstIp, data⟩ := assembled_header long
  have src : h.srcIp = (IpHdr.ntoh f.header).srcIp := congrArg FragId.srcIp said.symm
  have dst : h.dstIp = (IpHdr.ntoh f.header).dstIp := congrArg FragId.dstIp said.symm
  rw [ihl, ← length, List.drop_take, data] at payload
  rw [srcIp, dstIp, ← src, ← dst] at found'
  obtain ⟨four', foreignIp', localIp', foreignPort', localPort'⟩ := connIdOf_ports found'
  obtain ⟨-, foreignIp, localIp, foreignPort, localPort⟩ := connIdOf_ports found
  -- what is left of the data begins with the ports
  have bound : p.length ≤ (IpHdr.ntoh f.getAssembledPacket).len - f.header.length := by
    rw [payload]
    exact List.length_take_le ..
  have first : p.take 2 = f.ipData.take 2 := by
    rw [payload, List.take_take, Nat.min_eq_left (by omega)]
  have second : (p.drop 2).take 2 = (f.ipData.drop 2).take 2 := by
    rw [payload, List.drop_take, List.take_take, Nat.min_eq_left (by omega)]
  rw [first] at foreignPort'
  rw [second] at localPort'
  cases id₁
  cases id₂
  simp_all

/-- Its header has its ports behind it when it has no options. -/
theorem assembled_portsInFront {r₁ r₂ : Receiver} {w : Reception} {h : IpHdr} {q : List Byte}
    {f : Frag} {protoNum : IpProtocolNum} {p eth : List Byte} {id : ConnId}
    (completes : Completes r₁ w h q f) (ethernet : eth.length = ethHdrLen)
    (looksUp : LooksUp r₂ true f.getAssembledPacket protoNum p id)
    (plain : f.header.length = ipv4HdrLenMin) :
    portsInFront (eth ++ f.getAssembledPacket) protoNum p = true := by
  have behind : (eth ++ f.getAssembledPacket).drop ethHdrLen = f.getAssembledPacket :=
    List.drop_left' ethernet
  have long : ipv4HdrLenMin ≤ f.header.length := plain.ge
  have fields : 8 ≤ (f.header ++ f.ipData).length := by
    unfold ipv4HdrLenMin at long
    rw [List.length_append]
    omega
  obtain ⟨s, s', src, dst, received, handed, found⟩ := looksUp
  obtain ⟨-, length⟩ := completes.headerUnder long
  have ihl := (assembled_header long).1
  unfold ipv4HdrLenMin at plain
  rw [← behind] at received ihl
  exact portsInFront_of_ihl (by rw [behind]; exact assembled_whole fields) received handed found
    (by omega)

theorem steered_iff {frame : List Byte} {r : Receiver} {reassembled : Bool}
    {protoNum : IpProtocolNum} {p : List Byte} {id : ConnId}
    (whole : (IpHdr.ntoh (frame.drop ethHdrLen)).mf = false ∧
      (IpHdr.ntoh (frame.drop ethHdrLen)).offset = 0)
    (looksUp : LooksUp r reassembled (frame.drop ethHdrLen) protoNum p id) :
    Steered frame id ↔ portsInFront frame protoNum p = true := by
  obtain ⟨s, s', src, dst, received, handed, found⟩ := looksUp
  rw [← whole_steered whole received handed found]
  constructor
  · exact fun steered key long => (steered key long).1
  · intro same key long
    refine ⟨same key long, fun dev cpu => ?_⟩
    unfold Redirection.dispatchPacket
    rw [same key long]

/-- A frame whose datagram is whole and is handed to its protocol has, under
every key, the hash of its connection, and goes to the same cpu, if and only if
the bytes behind the first 20 of its header are its ports, which they are when
there are no options. A datagram that is put together from fragments is handed to
its protocol where it is put together, if the hash of the connection leads there;
otherwise that hash sends it to another cpu, where it is dispatched as a frame with
the header that was kept, and that goes by the hash of the connection it is handed
to if and only if, once more, that header has the ports in front. -/
theorem steering_agrees (frame : List Byte) (r : Receiver) (reassembled : Bool)
    (protoNum : IpProtocolNum) (p : List Byte) (id : ConnId)
    (whole : (IpHdr.ntoh (frame.drop ethHdrLen)).mf = false ∧
      (IpHdr.ntoh (frame.drop ethHdrLen)).offset = 0)
    (looksUp : LooksUp r reassembled (frame.drop ethHdrLen) protoNum p id) :
    (Steered frame id ↔ portsInFront frame protoNum p = true) ∧
    ((IpHdr.ntoh (frame.drop ethHdrLen)).ihl = 5 → portsInFront frame protoNum p = true) ∧
    ∀ (r₁ : Receiver) (w : Reception) (h : IpHdr) (q : List Byte) (f : Frag)
      (protoNum₁ : IpProtocolNum) (id₁ : ConnId), Completes r₁ w h q f →
      l4 h.ipProto = some protoNum₁ →
      connIdOf protoNum₁ f.ipData h.srcIp h.dstIp = some id₁ →
      (∀ (dev : Redirection) (key : List Byte) (cpu : Nat),
        (dev.receiver key r₁ cpu).handOn h f = if dev.hash2cpu (id₁.hash key) = cpu then
          [.received protoNum₁ f.ipData h.srcIp h.dstIp]
          else [.forwarded (dev.hash2cpu (id₁.hash key)) f.getAssembledPacket]) ∧
      ∀ (eth : List Byte) (r₂ : Receiver) (protoNum₂ : IpProtocolNum) (p₂ : List Byte)
        (id₂ : ConnId), eth.length = ethHdrLen →
        LooksUp r₂ true f.getAssembledPacket protoNum₂ p₂ id₂ →
        ((∀ key : List Byte, 4 ≤ key.length → id₁.hash key = id₂.hash key) ∧
          Steered (eth ++ f.getAssembledPacket) id₂ ↔
          id₁ = id₂ ∧ portsInFront (eth ++ f.getAssembledPacket) protoNum₂ p₂ = true) ∧
        (ipv4HdrLenMin ≤ f.header.length → id₁ = id₂) ∧
        (f.header.length = ipv4HdrLenMin →
          portsInFront (eth ++ f.getAssembledPacket) protoNum₂ p₂ = true) := by
  refine ⟨steered_iff whole looksUp, ?_, ?_⟩
  · obtain ⟨s, s', src, dst, received, handed, found⟩ := looksUp
    exact portsInFront_of_ihl whole received handed found
  intro r₁ w h q f protoNum₁ id₁ completes proto found
  refine ⟨?_, ?_⟩
  · intro dev key cpu
    obtain ⟨_, _, accepted⟩ := completes.accepted
    obtain ⟨long, rfl, -⟩ := Receiver.accepted_header accepted
    exact handOn_steered long proto rfl found
  · intro eth r₂ protoNum₂ p₂ id₂ ethernet looksUp₂
    have behind : (eth ++ f.getAssembledPacket).drop ethHdrLen = f.getAssembledPacket :=
      List.drop_left' ethernet
    have fields : 8 ≤ (f.header ++ f.ipData).length := by
      have := (connIdOf_ports found).1
      rw [List.length_append]
      omega
    have steered : Steered (eth ++ f.getAssembledPacket) id₂ ↔ _ :=
      steered_iff (by rw [behind]; exact assembled_whole fields) (by rw [behind]; exact looksUp₂)
    refine ⟨?_, assembled_looksUp completes found looksUp₂,
      assembled_portsInFront completes ethernet looksUp₂⟩
    rw [steered]
    refine and_congr_left fun _ => ⟨ConnId.hash_inj, ?_⟩
    rintro rfl key _
    rfl

/-! ## A datagram with options -/

/-- An interface whose device checks the checksums. -/
def plainReceiver : Receiver := ⟨true, 0x0a000001, none, 0, fun _ => 0⟩

/-- A frame with a SYN from port 50000 to port 80, behind a header with the given
options, that is one whole datagram. -/
def synFrame (ihl len : Byte) (options : List Byte) : List Byte :=
  List.replicate 14 0 ++ [64 + ihl, 0, 0, len, 0, 0, 0, 0, 64, 6, 0, 0, 10, 0, 0, 2, 10, 0, 0, 1] ++
    options ++ [195, 80, 0, 80, 0, 0, 2, 188, 0, 0, 0, 0, 80, 2, 3, 232, 0, 0, 0, 0]

def synId : ConnId := ⟨0x0a000001, 0x0a000002, 80, 50000⟩

theorem synFrame_looksUp : LooksUp plainReceiver false ((synFrame 5 40 []).drop ethHdrLen) .tcp
    ((synFrame 5 40 []).drop 34) synId :=
  ⟨Receiver.init, _, 0x0a000002, 0x0a000001, (Option.some_get (by decide)).symm, by decide,
    by decide⟩

/-- Without options the frame goes with its connection. -/
theorem steering_agrees_plain :
    dispatchHash defaultRsskey40bytes none (synFrame 5 40 []) =
      synId.hash defaultRsskey40bytes := by
  have agrees := steering_agrees (synFrame 5 40 []) plainReceiver false .tcp
    ((synFrame 5 40 []).drop 34) synId (by decide) synFrame_looksUp
  exact ((agrees.1.mpr (agrees.2.1 (by decide))) _ (by decide)).1

/-- A first fragment of a datagram from port 5008 to port 53, with four bytes of
options. -/
def firstWithOptions : List Byte :=
  IpHdr.hton ⟨6, 4, 0, 0, 32, 7, 0x2000, 64, 17, 0, 1, 2⟩ ++ [1, 1, 1, 0] ++
    [19, 144, 0, 53, 0, 16, 0, 0]

def queryId : ConnId := ⟨2, 1, 53, 5008⟩

/-- One queue, on cpu 0, which shares its packets with cpu 1. -/
def twoCpus : Redirection :=
  ⟨1, 0, fun cpu => if cpu = 0 then some (List.replicate 64 0 ++ List.replicate 64 1) else none⟩

/-- What cpu 1 hands on once the second fragment has come. -/
def handedOn : Option (List Handed) :=
  (exec (twoCpus.receiver defaultRsskey40bytes hostTwo 1).observe Reception.start
    [.packet false firstWithOptions, .packet false (eightBytes 1 2)]).map fun w => w.state.handed

/-- Four bytes of options, none of them a port: with the default key the frame
has another hash than its connection. And a datagram that cpu 1 puts together for
a connection of cpu 0 comes back to cpu 1, which handles it. -/
theorem options_misdirect :
    (∃ s, plainReceiver.handleReceivedPacket false Receiver.init
      ((synFrame 6 44 [1, 1, 1, 0]).drop ethHdrLen) = some s ∧
      s.handed = [.received .tcp ((synFrame 6 44 [1, 1, 1, 0]).drop 38) 0x0a000002 0x0a000001] ∧
      connIdOf .tcp ((synFrame 6 44 [1, 1, 1, 0]).drop 38) 0x0a000002 0x0a000001 = some synId ∧
      dispatchHash defaultRsskey40bytes none (synFrame 6 44 [1, 1, 1, 0]) ≠
        synId.hash defaultRsskey40bytes) ∧
    ∃ pkt, handedOn = some [.forwarded 0 pkt] ∧
      connIdOf .udp (pkt.drop 24) 1 2 = some queryId ∧
      twoCpus.hash2cpu (queryId.hash defaultRsskey40bytes) = 0 ∧
      ∀ cpu, twoCpus.dispatchPacket defaultRsskey40bytes none cpu (List.replicate 14 0 ++ pkt) =
        if cpu = 0 then 1 else cpu := by
  refine ⟨?_, ?_⟩
  · have received : plainReceiver.handleReceivedPacket false Receiver.init
        ((synFrame 6 44 [1, 1, 1, 0]).drop ethHdrLen) = some _ := (Option.some_get (by decide)).symm
    exact ⟨_, received, by decide, by decide, by decide⟩
  · refine ⟨firstWithOptions.take 2 ++ [0, 40, 0, 7, 0, 0] ++ firstWithOptions.drop 8 ++
      List.replicate 8 2, by decide +kernel, by decide +kernel, by decide +kernel, fun cpu => ?_⟩
    by_cases first : cpu = 0
    · subst first
      decide +kernel
    · unfold Redirection.dispatchPacket Redirection.forwardDst twoCpus
      simp only [if_neg first]

end ActorNet.Tcp
