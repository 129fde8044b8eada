import ActorNet.Tcp.Seq

/-!
# TCP headers and options
-/

namespace ActorNet.Tcp

open Lib

/-- `tcp_hdr::len`. -/
def tcpHdrLen : Nat := 20

/-- `ip_hdr_len_min` of IPv4. -/
def ipHdrLenMin : Nat := 20

/-- `tcp_hdr`, without the fields nothing reads. -/
structure TcpHdr where
  srcPort : BitVec 16
  dstPort : BitVec 16
  seq : TcpSeq
  ack : TcpSeq
  dataOffset : Nat
  fFin : Bool
  fSyn : Bool
  fRst : Bool
  fAck : Bool
  window : BitVec 16
  deriving DecidableEq, Repr

namespace TcpHdr

/-- `read_be`. -/
def field (w : Nat) (bytes : List Byte) (at_ : Nat) : BitVec w :=
  BitVec.ofNat w (ofBytesBE ((bytes.drop at_).take (w / 8)))

/-- `tcp_hdr::read`. -/
def read (bytes : List Byte) : TcpHdr :=
  let flags := (field 8 bytes 13).toNat
  { srcPort := field 16 bytes 0
    dstPort := field 16 bytes 2
    seq := ⟨field 32 bytes 4⟩
    ack := ⟨field 32 bytes 8⟩
    dataOffset := (field 8 bytes 12).toNat >>> 4
    fFin := flags.testBit 0
    fSyn := flags.testBit 1
    fRst := flags.testBit 2
    fAck := flags.testBit 4
    window := field 16 bytes 14 }

/-- The bytes a header claims to occupy. -/
def length (th : TcpHdr) : Nat := th.dataOffset * 4

end TcpHdr

/-- `tcp_option`. -/
structure TcpOption where
  mssReceived : Bool := false
  winScaleReceived : Bool := false
  sackReceived : Bool := false
  remoteMss : BitVec 16 := 536
  localMss : BitVec 16
  remoteWinScale : Byte := 0
  localWinScale : Byte := 0
  deriving DecidableEq, Repr

namespace TcpOption

/-- `align_up(size, tcp_option::align)`. -/
def alignUp (size : Nat) : Nat := (size + 3) / 4 * 4

/-- The loop of `parse`, with so many bytes to pass over before the next option.
The bytes of an option that lie behind `end` are whatever memory holds there. -/
def parseFrom (beyond : Nat → Byte) : Nat → TcpOption → List Byte → TcpOption
  | _, o, [] => o
  | skip + 1, o, _ :: rest => parseFrom beyond skip o rest
  | 0, o, kind :: rest =>
      let at_ (i : Nat) : Byte := rest.getD (i - 1) (beyond (i - 1 - rest.length))
      let len := (at_ 1).toNat
      if kind ≠ 1 ∧ kind ≠ 0 ∧ rest.length + 1 < len then o
      else if kind = 2 then
        parseFrom beyond 3 { o with mssReceived := true, remoteMss := at_ 2 ++ at_ 3 } rest
      else if kind = 3 then
        parseFrom beyond 2
          { o with winScaleReceived := true, remoteWinScale := at_ 2, localWinScale := 7 } rest
      else if kind = 4 then parseFrom beyond 1 { o with sackReceived := true } rest
      else if kind = 1 then parseFrom beyond 0 o rest
      else if kind = 0 then o
      else if len = 0 then o
      else parseFrom beyond (len - 1) o rest

/-- `tcp_option::parse`. -/
def parse (beyond : Nat → Byte) (o : TcpOption) (opts : List Byte) : TcpOption :=
  parseFrom beyond 0 o opts

/-- `tcp_option::get_size`. -/
def getSize (o : TcpOption) (synOn ackOn : Bool) : Nat :=
  let mss := if synOn && (o.mssReceived || !ackOn) then 4 else 0
  let winScale := if synOn && (o.winScaleReceived || !ackOn) then 3 else 0
  if 0 < mss + winScale then alignUp (mss + winScale + 1) else 0

/-- `tcp_option::fill`. -/
def fill (o : TcpOption) (synOn ackOn : Bool) : List Byte :=
  let mss := if synOn && (o.mssReceived || !ackOn) then [2, 4] ++ toBytesBE 2 o.localMss.toNat else []
  let winScale := if synOn && (o.winScaleReceived || !ackOn) then [3, 3, o.localWinScale] else []
  let size := mss.length + winScale.length
  if 0 < size then mss ++ winScale ++ List.replicate (alignUp (size + 1) - 1 - size) 1 ++ [0]
  else []

end TcpOption

end ActorNet.Tcp
