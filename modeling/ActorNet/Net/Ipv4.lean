import Mathlib.Logic.Function.Basic
import ActorNet.Net.Checksum
import ActorNet.Net.PacketMerger

/-!
# IPv4 datagrams: sending in fragments and putting them together again

`ipv4::send` on one side, `ipv4::handle_received_packet` and `ipv4::frag` on the
other. A packet is the byte string it holds. Time-outs and the limit on the
memory of fragments are left out: no datagram that is being put together is
dropped.
-/

namespace ActorNet.Net

open Lib

/-- `ipv4_hdr_len_min`, which is `sizeof(ip_hdr)`. -/
def ipv4HdrLenMin : Nat := 20

/-- `ip_packet_len_max`. -/
def ipPacketLenMax : Nat := 65535

/-- `ip_protocol_num`, as far as `ipv4` registers a protocol for it. -/
inductive IpProtocolNum
  | icmp
  | tcp
  | udp
  deriving DecidableEq, Repr

def IpProtocolNum.value : IpProtocolNum → Nat
  | icmp => 1
  | tcp => 6
  | udp => 17

/-- `_l4`. -/
def l4 (ipProto : Nat) : Option IpProtocolNum :=
  if ipProto = IpProtocolNum.icmp.value then some .icmp
  else if ipProto = IpProtocolNum.tcp.value then some .tcp
  else if ipProto = IpProtocolNum.udp.value then some .udp
  else none

/-- `ip_hdr`, in host order. -/
structure IpHdr where
  ihl : Nat
  ver : Nat
  dscp : Nat
  ecn : Nat
  len : Nat
  id : Nat
  frag : Nat
  ttl : Nat
  ipProto : Nat
  csum : Nat
  srcIp : Nat
  dstIp : Nat
  deriving DecidableEq, Repr

namespace IpHdr

/-- `frag_bits::mf`. -/
def mfBit : Nat := 13

def mf (h : IpHdr) : Bool := h.frag.testBit mfBit

/-- The fragment offset in bytes, in a `uint16_t`. -/
def offset (h : IpHdr) : Nat := (h.frag <<< 3) % 2 ^ 16

/-- `hton`, and the header in memory. -/
def hton (h : IpHdr) : List Byte :=
  [BitVec.ofNat 8 (h.ihl + 16 * h.ver), BitVec.ofNat 8 (h.dscp + 64 * h.ecn)] ++
    toBytesBE 2 h.len ++ toBytesBE 2 h.id ++ toBytesBE 2 h.frag ++
    [BitVec.ofNat 8 h.ttl, BitVec.ofNat 8 h.ipProto] ++ toBytesBE 2 h.csum ++
    toBytesBE 4 h.srcIp ++ toBytesBE 4 h.dstIp

/-- The bytes of a header from an offset on, in network order. -/
def field (bytes : List Byte) (at_ size : Nat) : Nat := ofBytesBE ((bytes.drop at_).take size)

/-- `ntoh` of the header that a byte string begins with. -/
def ntoh (bytes : List Byte) : IpHdr where
  ihl := field bytes 0 1 % 16
  ver := field bytes 0 1 / 16
  dscp := field bytes 1 1 % 64
  ecn := field bytes 1 1 / 64
  len := field bytes 2 2
  id := field bytes 4 2
  frag := field bytes 6 2
  ttl := field bytes 8 1
  ipProto := field bytes 9 1
  csum := field bytes 10 2
  srcIp := field bytes 12 4
  dstIp := field bytes 16 4

end IpHdr

/-! ## Sending -/

/-- What `ipv4::send` reads of the device and of the interface. A device that
computes the checksum itself puts it into the header of a packet it is given. -/
structure Sender where
  mtu : Nat
  txTso : Bool
  txUfo : Bool
  txCsumIpOffload : Option (List Byte → BitVec 16)
  hostAddress : Nat

namespace Sender

/-- `ipv4::needs_frag`. -/
def needsFrag (s : Sender) (p : List Byte) (protoNum : IpProtocolNum) : Bool :=
  if p.length + ipv4HdrLenMin ≤ s.mtu then false
  else if protoNum = .tcp ∧ s.txTso ∨ protoNum = .udp ∧ s.txUfo then false
  else true

/-- `send_pkt`: the packet with its header, as the device puts it on the wire. -/
def sendPkt (s : Sender) (to_ : Nat) (protoNum : IpProtocolNum) (needsFrag : Bool)
    (pkt : List Byte) (remaining offset : Nat) : List Byte :=
  let mf := if remaining > 0 then 1 else 0
  let iph : IpHdr := {
    ihl := ipv4HdrLenMin / 4
    ver := 4
    dscp := 0
    ecn := 0
    len := (ipv4HdrLenMin + pkt.length) % 2 ^ 16
    id := 0
    frag := if needsFrag then (mf <<< IpHdr.mfBit ||| offset / 8) % 2 ^ 16 else 0
    ttl := 64
    ipProto := protoNum.value
    csum := 0
    srcIp := s.hostAddress
    dstIp := to_ }
  let csum := match s.txCsumIpOffload with
    | some device => device (iph.hton ++ pkt)
    | none => (Checksummer.fresh.sum iph.hton).elim 0 Checksummer.get
  writeNboChecksum (iph.hton ++ pkt) 10 csum

/-- The loop of `ipv4::send`, with a bound on its turns. -/
def sendFrags (s : Sender) (to_ : Nat) (protoNum : IpProtocolNum) (p : List Byte) :
    Nat → Nat → Nat → Option (List (List Byte))
  | _, _, 0 => some []
  | 0, _, _ + 1 => none
  | turns + 1, offset, remaining + 1 =>
      let canSend := min ((s.mtu - ipv4HdrLenMin) % 2 ^ 16) (remaining + 1)
      let left := remaining + 1 - canSend
      let pkt := s.sendPkt to_ protoNum true ((p.drop offset).take canSend) left offset
      (s.sendFrags to_ protoNum p turns ((offset + canSend) % 2 ^ 16) left).map (pkt :: ·)

/-- `ipv4::send`: the packets for the device. The loop sends at least a byte in
every turn when the header leaves room for one. -/
def send (s : Sender) (to_ : Nat) (protoNum : IpProtocolNum) (p : List Byte) :
    Option (List (List Byte)) :=
  if s.needsFrag p protoNum then s.sendFrags to_ protoNum p p.length 0 (p.length % 2 ^ 16)
  else some [s.sendPkt to_ protoNum false p 0 0]

end Sender

/-! ## Receiving -/

/-- `ipv4::frag`. -/
structure Frag where
  header : List Byte
  data : PacketMerger.Map (BitVec 32)
  lastFragReceived : Bool

/-- `ipv4_frag_id`. -/
structure FragId where
  srcIp : Nat
  dstIp : Nat
  identification : Nat
  protocol : Nat
  deriving DecidableEq, Repr

namespace Frag

def empty : Frag := ⟨[], [], false⟩

/-- `ipv4::frag::merge`; `none` is a failed assertion. -/
def merge (f : Frag) (h : IpHdr) (offset : Nat) (p : List Byte) : Option Frag := do
  let ipHdrLen := h.ihl * 4
  let header := if offset = 0 then p.take ipHdrLen else f.header
  let payload ← PacketMerger.trimFront ipHdrLen p
  let data ← PacketMerger.merge (BitVec.ofNat 32 offset) payload f.data
  some { f with header := header, data := data }

/-- `ipv4::frag::is_complete`. -/
def isComplete (f : Frag) : Bool :=
  match f.data with
  | [(offset, _)] => f.lastFragReceived && offset == 0
  | _ => false

/-- `ipv4::frag::get_assembled_packet`, without the Ethernet header that is put
in front for the way to the other cpu and taken off there. -/
def getAssembledPacket (f : Frag) : List Byte :=
  let pkt := f.header ++ (f.data.head?.map Prod.snd).getD []
  pkt.take 2 ++ toBytesBE 2 pkt.length ++ (pkt.drop 4).take 2 ++ toBytesBE 2 0 ++ pkt.drop 8

end Frag

/-- What the receive path reads of the device and of the interface. `hash2cpu`
is the hash function and the device's table together. -/
structure Receiver where
  rxCsumOffload : Bool
  hostAddress : Nat
  packetFilter : Option (List Byte → IpHdr → Bool)
  shard : Nat
  hash2cpu : List Byte → Nat

/-- What the receive path hands on: a packet to its protocol, or a whole datagram
to the cpu its connection is on, where `interface::forward` has it dispatched once
more, like a frame (`Redirection.dispatchPacket`). -/
inductive Handed
  | received (protoNum : IpProtocolNum) (p : List Byte) (src dst : Nat)
  | forwarded (cpu : Nat) (pkt : List Byte)
  deriving DecidableEq, Repr

/-- `_frags`, and what was handed on, the last first. -/
structure ReceiveState where
  frags : FragId → Option Frag
  handed : List Handed

namespace Receiver

def init : ReceiveState := ⟨fun _ => none, []⟩

/-- `forward` of the protocol: the bytes of the ports. -/
def l4Forward (protoNum : IpProtocolNum) (p : List Byte) : List Byte :=
  match protoNum with
  | .tcp => if 20 ≤ p.length then p.take 4 else []
  | .udp => if 8 ≤ p.length then p.take 4 else []
  | .icmp => []

/-- Handing on a datagram that is complete. -/
def handOn (r : Receiver) (h : IpHdr) (frag : Frag) : List Handed :=
  match l4 h.ipProto with
  | none => []
  | some protoNum =>
      let ipData := (frag.data.head?.map Prod.snd).getD []
      let hashData := toBytesBE 4 h.srcIp ++ toBytesBE 4 h.dstIp ++ l4Forward protoNum ipData
      let cpuId := r.hash2cpu hashData
      if cpuId = r.shard then [.received protoNum ipData h.srcIp h.dstIp]
      else [.forwarded cpuId frag.getAssembledPacket]

/-- The part of `handle_received_packet` for a fragment. -/
def handleFrag (r : Receiver) (s : ReceiveState) (h : IpHdr) (p : List Byte) :
    Option ReceiveState := do
  let fragId : FragId := ⟨h.srcIp, h.dstIp, h.id, h.ipProto⟩
  let frag := (s.frags fragId).getD .empty
  let frag := if h.mf then frag else { frag with lastFragReceived := true }
  let frag ← frag.merge h h.offset p
  if frag.isComplete then
    some ⟨Function.update s.frags fragId none, r.handOn h frag ++ s.handed⟩
  else some { s with frags := Function.update s.frags fragId (some frag) }

/-- `ipv4::handle_received_packet`; `none` is a failed assertion. -/
def handleReceivedPacket (r : Receiver) (reassembled : Bool) (s : ReceiveState)
    (p : List Byte) : Option ReceiveState :=
  if p.length < ipv4HdrLenMin then some s
  else if ¬r.rxCsumOffload ∧ ¬reassembled ∧
      ipv4ChecksumOk (p.take ipv4HdrLenMin) ≠ some true then some s
  else
    let h := IpHdr.ntoh p
    if p.length < h.len then some s
    else
      let p := p.take h.len
      if ipPacketLenMax < h.offset + p.length then some s
      else if r.packetFilter.any fun handle => handle p h then some s
      else if h.dstIp ≠ r.hostAddress then some s
      else if h.mf ∨ h.offset ≠ 0 then r.handleFrag s h p
      else match l4 h.ipProto with
        | none => some s
        | some protoNum => (PacketMerger.trimFront (h.ihl * 4) p).map fun p =>
            { s with handed := .received protoNum p h.srcIp h.dstIp :: s.handed }

end Receiver

end ActorNet.Net
