import Mathlib.Algebra.GroupWithZero.Nat
import ActorNet.Net.Packet

/-!
# Clusters of mbufs

Before a packet is sent through DPDK it is translated to a cluster, a chain of mbufs
that the network card reads. With the hugetlbfs backend an mbuf is pointed at the
memory of the packet, which the last mbuf of the cluster keeps until the card is done
with it; without, the packet is copied into the buffers of the mbufs.

The mbufs come from the factory of the queue and are few. A translation that does not
find enough of them gives back what it had taken.
-/

namespace ActorNet.Net.Dpdk

open Lib

/-- `inline_mbuf_data_size`. -/
def inlineMbufDataSize : Nat := 2048

/-- `max_frag_len` of `set_one_data_buf`. -/
def maxFragLen : Nat := 15 * 1024

/-- `max_frags`. -/
def maxFrags : Nat := 32 + 1

/-- `i40e_max_xmit_segment_frags`. -/
def i40eMaxXmitSegmentFrags : Nat := 8

/-- `vmxnet3_max_xmit_segment_frags`. -/
def vmxnet3MaxXmitSegmentFrags : Nat := 16

/-- `sizeof(struct ether_hdr)`. -/
def etherHdrSize : Nat := 14

/-! ## Packets -/

inductive IpProtocolNum
  | tcp
  | udp
  | other
  deriving DecidableEq, Repr

/-- `offload_info`, as far as `set_cluster_offload_info` reads it. -/
structure OffloadInfo where
  protocol : IpProtocolNum := .other
  ipHdrLen : Nat := 20
  tcpHdrLen : Nat := 20
  needsIpCsum : Bool := false
  tsoSegSize : Nat := 0
  deriving DecidableEq, Repr

/-- A fragment, with the places in it whose physical address is known. -/
structure Frag where
  bytes : List Byte
  iova : Nat → Bool

namespace Frag

def size (f : Frag) : Nat := f.bytes.length

/-- `base += n; size -= n`. -/
def drop (f : Frag) (n : Nat) : Frag := ⟨f.bytes.drop n, fun at' => f.iova (n + at')⟩

end Frag

/-- A packet with the memory `linearize` would find for it, and a name for all the
memory that lives as long as the packet. -/
structure Packet where
  id : Nat
  frags : List Frag
  linear : Nat → Bool
  offload : OffloadInfo

namespace Packet

def content (p : Packet) : List Byte := p.frags.flatMap Frag.bytes

def len (p : Packet) : Nat := p.content.length

def nrFrags (p : Packet) : Nat := p.frags.length

/-- The fragments behind the first `desired` bytes. -/
def behind : Nat → List Frag → List Frag
  | _, [] => []
  | desired, f :: fs => if desired = 0 then f :: fs else behind (desired - f.size) fs

/-- `linearize(0, len())`. -/
def linearize (p : Packet) : Packet :=
  { p with frags := ⟨p.content, p.linear⟩ :: behind p.len p.frags }

end Packet

/-! ## Buffers and their factory -/

/-- `tx_buf`: an mbuf of the pool, the bytes it holds out for sending, whose memory
they are in when it is not the buffer of the mbuf, and `_is_zc` and `_p`. -/
structure TxBuf where
  mbuf : Nat
  data : List Byte
  addr : Option Nat
  isZc : Bool
  p : Option Nat
  deriving DecidableEq, Repr

namespace TxBuf

/-- `reset_zc`. -/
def resetZc (b : TxBuf) : TxBuf :=
  if b.p.isSome then { b with p := none, addr := none, isZc := false }
  else if !b.isZc then b
  else { b with addr := none, isZc := false }

/-- `rte_pktmbuf_reset`. -/
def reset (b : TxBuf) : TxBuf := { b with data := [] }

/-- `set_zc_info`. -/
def setZcInfo (b : TxBuf) (owner : Nat) (data : List Byte) : TxBuf :=
  { b with data := data, addr := some owner, isZc := true }

/-- The `reset_zc` that the factory only does with the hugetlbfs backend. -/
def restore (hugetlbfs : Bool) (b : TxBuf) : TxBuf := if hugetlbfs then b.resetZc else b

/-- The mbuf has its own buffer and keeps no packet. -/
structure Pristine (b : TxBuf) : Prop where
  own : b.addr = none
  inlined : b.isZc = false
  empty : b.p = none

/-- The factory gets the mbuf back as it was. -/
def Restorable (hugetlbfs : Bool) (b : TxBuf) : Prop := (b.restore hugetlbfs).Pristine

end TxBuf

/-- `tx_buf_factory`: `_ring`, the back first, and the mbufs that the card is done
with and has put back into `_pool`. -/
structure TxBufFactory where
  ring : List TxBuf
  pool : List TxBuf
  deriving DecidableEq, Repr

namespace TxBufFactory

/-- `get_one_completed`. -/
def getOneCompleted (f : TxBufFactory) : Option (TxBuf × TxBufFactory) :=
  match f.pool with
  | [] => none
  | b :: pool => some (b.reset, { f with pool := pool })

/-- `get`. -/
def get (hugetlbfs : Bool) (f : TxBufFactory) : Option (TxBuf × TxBufFactory) :=
  match f.getOneCompleted with
  | some (b, f) => some (b.restore hugetlbfs, f)
  | none =>
      match f.ring with
      | [] => none
      | b :: ring => some (b, { f with ring := ring })

/-- `put`. -/
def put (hugetlbfs : Bool) (b : TxBuf) (f : TxBufFactory) : TxBufFactory :=
  { f with ring := b.restore hugetlbfs :: f.ring }

/-- `gc`, with a `gc_count` of one. -/
def gc (hugetlbfs : Bool) (f : TxBufFactory) : Bool × TxBufFactory :=
  match f.getOneCompleted with
  | none => (false, f)
  | some (b, f) => (true, f.put hugetlbfs b)

/-- The free mbufs. -/
def mbufs (f : TxBufFactory) : List Nat := (f.ring ++ f.pool).map TxBuf.mbuf

end TxBufFactory

/-- `_stats.tx`, as far as the sending of packets changes it. -/
structure TxStats where
  linearized : BitVec 64 := 0
  nrFrags : BitVec 64 := 0
  bytes : BitVec 64 := 0
  copyFrags : BitVec 64 := 0
  copyBytes : BitVec 64 := 0
  deriving DecidableEq, Repr

namespace TxStats

def updateCopyStats (s : TxStats) (nrFrags bytes : Nat) : TxStats :=
  { s with
    copyFrags := s.copyFrags + BitVec.ofNat 64 nrFrags
    copyBytes := s.copyBytes + BitVec.ofNat 64 bytes }

def updateFragsStats (s : TxStats) (nrFrags bytes : Nat) : TxStats :=
  { s with
    nrFrags := s.nrFrags + BitVec.ofNat 64 nrFrags
    bytes := s.bytes + BitVec.ofNat 64 bytes }

end TxStats

/-- What the translation of packets changes in the queue. -/
structure Tx where
  factory : TxBufFactory
  stats : TxStats
  deriving DecidableEq, Repr

namespace Tx

variable (hugetlbfs : Bool)

/-- `get_tx_buf`. -/
def getTxBuf (s : Tx) : Option (TxBuf × Tx) :=
  (s.factory.get hugetlbfs).map fun (b, f) => (b, { s with factory := f })

/-- `recycle`, of the buffers of a chain. -/
def recycle (s : Tx) (chain : List TxBuf) : Tx :=
  { s with factory := chain.foldl (fun f b => f.put hugetlbfs b.reset) s.factory }

end Tx

/-! ## One fragment -/

variable (hugetlbfs : Bool)

/-- `copy_one_data_buf`. -/
def copyOneDataBuf (frag : Frag) (s : Tx) : Option (TxBuf × Tx) :=
  (s.getTxBuf hugetlbfs).map fun (b, s) =>
    let data := frag.bytes.take inlineMbufDataSize
    ({ b with data := data }, { s with stats := s.stats.updateCopyStats 1 data.length })

/-- `set_one_data_buf`. -/
def setOneDataBuf (owner : Nat) (frag : Frag) (s : Tx) : Option (TxBuf × Tx) :=
  if frag.iova 0 then
    (s.getTxBuf hugetlbfs).map fun (b, s) => (b.setZcInfo owner (frag.bytes.take maxFragLen), s)
  else copyOneDataBuf hugetlbfs frag s

/-- The loop of `do_one_frag`: the chain so far and the bytes that are left to set. -/
def doOneFragLoop (doOneBuf : Frag → Tx → Option (TxBuf × Tx)) :
    Nat → List TxBuf → Frag → Tx → Option (List TxBuf) × Tx
  | 0, chain, _, s => (some chain, s)
  | fuel + 1, chain, left, s =>
      if left.size = 0 then (some chain, s)
      else
        match doOneBuf left s with
        | none => (none, s.recycle hugetlbfs chain)
        | some (b, s) => doOneFragLoop doOneBuf fuel (chain ++ [b]) (left.drop b.data.length) s

/-- `do_one_frag`. Each buffer takes a byte at least, so that there are no more rounds
than bytes. -/
def doOneFrag (doOneBuf : Frag → Tx → Option (TxBuf × Tx)) (frag : Frag) (s : Tx) :
    Except Fault (Option (List TxBuf) × Tx) :=
  if frag.size = 0 then .error .assertion
  else .ok (doOneFragLoop hugetlbfs doOneBuf frag.size [] frag s)

/-- `translate_one_frag`. -/
def translateOneFrag (owner : Nat) (frag : Frag) (s : Tx) :
    Except Fault (Option (List TxBuf) × Tx) :=
  doOneFrag hugetlbfs (setOneDataBuf hugetlbfs owner) frag s

/-! ## Clusters -/

/-- The fields of the head that say what the card is to do, with `PKT_TX_IP_CKSUM`,
`PKT_TX_TCP_CKSUM`, `PKT_TX_TCP_SEG` and `PKT_TX_UDP_CKSUM` of `ol_flags`. -/
structure TxOffload where
  ipCksum : Bool := false
  tcpCksum : Bool := false
  tcpSeg : Bool := false
  udpCksum : Bool := false
  l2Len : Nat := 0
  l3Len : Nat := 0
  l4Len : Nat := 0
  tsoSegsz : Nat := 0
  deriving DecidableEq, Repr

/-- A cluster: its buffers, and the head's `pkt_len`, `nb_segs` and offload fields. -/
structure Cluster where
  segs : List TxBuf
  pktLen : Nat
  nbSegs : Nat
  offload : TxOffload
  deriving DecidableEq, Repr

/-- What the card sends. -/
def Cluster.bytes (c : Cluster) : List Byte := c.segs.flatMap TxBuf.data

/-- `dpdk_device`, as far as the translation asks it. -/
structure DpdkDevice where
  txCsumL4Offload : Bool
  isI40eDevice : Bool
  isVmxnet3Device : Bool
  deriving DecidableEq, Repr

/-- `set_cluster_offload_info`. -/
def setClusterOffloadInfo (dev : DpdkDevice) (oi : OffloadInfo) : Except Fault TxOffload :=
  let o : TxOffload :=
    if oi.needsIpCsum then { ipCksum := true, l2Len := etherHdrSize, l3Len := oi.ipHdrLen } else {}
  if dev.txCsumL4Offload then
    match oi.protocol with
    | .tcp =>
        let o := { o with tcpCksum := true, l2Len := etherHdrSize, l3Len := oi.ipHdrLen }
        if oi.tsoSegSize = 0 then .ok o
        else if oi.needsIpCsum then
          .ok { o with tcpSeg := true, l4Len := oi.tcpHdrLen, tsoSegsz := oi.tsoSegSize }
        else .error .assertion
    | .udp => .ok { o with udpCksum := true, l2Len := etherHdrSize, l3Len := oi.ipHdrLen }
    | .other => .ok o
  else .ok o

/-! ### The limit of the 40G cards -/

/-- The loop over the segments with headers: those behind, `cur_payload_len` and
`hdr_frags`. -/
def headerLoop (headersSize : Nat) : List Nat → Nat → Nat → List Nat × Nat × Nat
  | [], len, hdrFrags => ([], len, hdrFrags)
  | l :: ls, len, hdrFrags =>
      if len < headersSize then headerLoop headersSize ls (len + l) (hdrFrags + 1)
      else (l :: ls, len, hdrFrags)

/-- The loop over the segments of one window: those behind and `cur_seg_size`, or
nothing when they are too many. -/
def windowLoop (maxWinSize mss : Nat) : List Nat → Nat → Nat → Option (List Nat × Nat)
  | [], size, _ => some ([], size)
  | l :: ls, size, frags =>
      if size < mss then
        if maxWinSize < frags + 1 then none else windowLoop maxWinSize mss ls (size + l) (frags + 1)
      else some (l :: ls, size)

/-- The loop over the windows, with `prev_frag_data`. -/
def windowsLoop (maxWinSize mss : Nat) : Nat → List Nat → Nat → Bool
  | 0, _, _ => false
  | _ + 1, [], _ => false
  | fuel + 1, l :: ls, prev =>
      match windowLoop maxWinSize mss (l :: ls) prev (if prev = 0 then 0 else 1) with
      | none => true
      | some (ls, size) => windowsLoop maxWinSize mss fuel ls (size - mss)

/-- `i40e_should_linearize`. The subtraction is one of `unsigned` values. -/
def i40eShouldLinearize (head : Cluster) : Bool :=
  if !head.offload.tcpSeg then decide (i40eMaxXmitSegmentFrags < head.nbSegs)
  else
    let headersSize := head.offload.l2Len + head.offload.l3Len + head.offload.l4Len
    let lens := head.segs.map fun b => b.data.length
    let (ls, len, hdrFrags) := headerLoop headersSize lens 0 0
    let maxWinSize := (i40eMaxXmitSegmentFrags + 2 ^ 32 - hdrFrags) % 2 ^ 32
    if head.nbSegs ≤ maxWinSize then false
    else windowsLoop maxWinSize head.offload.tsoSegsz (lens.sum + 1) ls (len - headersSize)

/-! ### Without copying -/

/-- `translate_one_frag` for each fragment. The first finds no cluster that would have
to be given back. -/
def translateFrags (owner : Nat) :
    List Frag → List TxBuf → Tx → Except Fault (Option (List TxBuf) × Tx)
  | [], chain, s => .ok (some chain, s)
  | f :: fs, chain, s => do
      match ← translateOneFrag hugetlbfs owner f s with
      | (none, s) => .ok (none, s.recycle hugetlbfs chain)
      | (some h, s) => translateFrags owner fs (chain ++ h) s

/-- `set_packet` of the last segment. -/
def setPacket (owner : Nat) : List TxBuf → List TxBuf
  | [] => []
  | [b] => [{ b with p := some owner }]
  | b :: c :: bs => b :: setPacket owner (c :: bs)

/-- `++qp._stats.tx.linearized`. -/
def Tx.countLinearized (s : Tx) : Tx :=
  { s with stats := { s.stats with linearized := s.stats.linearized + 1 } }

/-- The check for the limits of the hardware. -/
def mustLinearize (dev : DpdkDevice) (p : Packet) (head : Cluster) : Bool :=
  decide (maxFrags < head.nbSegs) ||
  (decide (1 < p.nrFrags) && dev.isI40eDevice && i40eShouldLinearize head) ||
  (decide (vmxnet3MaxXmitSegmentFrags < p.nrFrags) && dev.isVmxnet3Device)

/-- What comes of a packet: its cluster, if there is one, and the packet as it then is. -/
structure Translated where
  cluster : Option Cluster
  packet : Packet
  tx : Tx

/-- From `build_mbuf_cluster` on. There is nothing when the rounds run out. -/
def buildMbufCluster (dev : DpdkDevice) :
    Nat → Packet → Tx → Option (Except Fault Translated)
  | 0, _, _ => none
  | rounds + 1, p, s =>
      if p.frags = [] then some (.error .outOfBounds)
      else
        match translateFrags hugetlbfs p.id p.frags [] s with
        | .error e => some (.error e)
        | .ok (none, s) => some (.ok ⟨none, p, s⟩)
        | .ok (some chain, s) =>
            match setClusterOffloadInfo dev p.offload with
            | .error e => some (.error e)
            | .ok offload =>
                let head : Cluster := ⟨chain, p.len, chain.length, offload⟩
                if mustLinearize dev p head then
                  buildMbufCluster dev rounds p.linearize
                    (s.recycle hugetlbfs head.segs).countLinearized
                else some (.ok ⟨some { head with segs := setPacket p.id chain }, p, s⟩)

/-- `from_packet_zc`. -/
def fromPacketZc (dev : DpdkDevice) (rounds : Nat) (p : Packet) (s : Tx) :
    Option (Except Fault Translated) :=
  if maxFrags < p.nrFrags then
    buildMbufCluster hugetlbfs dev rounds p.linearize s.countLinearized
  else buildMbufCluster hugetlbfs dev rounds p s

/-! ### With copying -/

/-- The allocation of the buffers of a cluster. -/
def allocateChain : Nat → List TxBuf → Tx → Option (List TxBuf) × Tx
  | 0, chain, s => (some chain, s)
  | n + 1, chain, s =>
      match s.getTxBuf hugetlbfs with
      | none => (none, s.recycle hugetlbfs chain)
      | some (b, s) => allocateChain n (chain ++ [b]) s

/-- `copy_packet_to_cluster`: what is left of each fragment, what the current segment
holds already, and the segments from it on. -/
def copyPacketToCluster : Nat → List (List Byte) → List Byte → List TxBuf →
    Except Fault (List TxBuf)
  | fuel + 1, frag :: frags, filled, seg :: segs =>
      let toCopy := min frag.length (inlineMbufDataSize - filled.length)
      let filled := filled ++ frag.take toCopy
      let frag := frag.drop toCopy
      if frag = [] ∧ frags = [] then .ok ({ seg with data := filled } :: segs)
      else
        let left := if frag = [] then frags else frag :: frags
        if inlineMbufDataSize ≤ filled.length then
          if segs = [] then .error .assertion
          else do .ok ({ seg with data := filled } :: (← copyPacketToCluster fuel left [] segs))
        else copyPacketToCluster fuel left filled (seg :: segs)
  | _, _, _, _ => .error .outOfBounds

/-- `from_packet_copy`. -/
def fromPacketCopy (dev : DpdkDevice) (p : Packet) (s : Tx) : Except Fault Translated :=
  if p.len = 0 then .ok ⟨none, p, s⟩
  else do
    let nsegs := (p.len + (inlineMbufDataSize - 1)) / inlineMbufDataSize
    match allocateChain hugetlbfs nsegs [] s with
    | (none, s) => .ok ⟨none, p, s⟩
    | (some chain, s) => do
        let rounds := p.nrFrags + nsegs
        let chain ← copyPacketToCluster rounds (p.frags.map Frag.bytes) [] chain
        let offload ← setClusterOffloadInfo dev p.offload
        .ok ⟨some ⟨chain, p.len, nsegs, offload⟩, p, s⟩

/-- What `send` hands to `_send`: `from_packet_zc` with the hugetlbfs backend, else
`from_packet_copy`. -/
def packetToTxBuf (dev : DpdkDevice) (rounds : Nat) (p : Packet) (s : Tx) :
    Option (Except Fault Translated) :=
  if hugetlbfs then fromPacketZc hugetlbfs dev rounds p s
  else some (fromPacketCopy hugetlbfs dev p s)

end ActorNet.Net.Dpdk
