import ActorNet.Lib.Run
import ActorNet.Net.Ipv4

/-!
# The DHCP client

`dhcp::impl`: one run of discover and request, with a timer that repeats the
discover and one for the whole. Replies come through a filter on the datagrams
of every cpu; those of other cpus are processed on cpu 0 some time later. A
packet is the byte string it holds, an armed timer can fire at any moment, and
the numbers that are drawn come with the events.
-/

namespace ActorNet.Net

open Lib

namespace Dhcp

/-- `state`. -/
inductive State
  | none | discover | request | done | fail
  deriving DecidableEq, Repr

/-- `opt_type`, as far as it is sent or read. -/
inductive OptType
  | subnetMask | router | domainNameServers | interfaceMtu | broadcastAddress
  | requestedAddress | leaseTime | messageType | dhcpServer | parameterRequestList
  | renewalTime | rebindingTime | end_
  deriving DecidableEq, Repr

def OptType.value : OptType → Byte
  | subnetMask => 1
  | router => 3
  | domainNameServers => 6
  | interfaceMtu => 26
  | broadcastAddress => 28
  | requestedAddress => 50
  | leaseTime => 51
  | messageType => 53
  | dhcpServer => 54
  | parameterRequestList => 55
  | renewalTime => 58
  | rebindingTime => 59
  | end_ => 255

/-- The options that `parse_options` reads. -/
def OptType.ofByte (b : Byte) : Option OptType :=
  [subnetMask, router, broadcastAddress, dhcpServer, domainNameServers, messageType,
    interfaceMtu, leaseTime, renewalTime, rebindingTime].find? fun o => o.value == b

/-- `msg_type`, as far as it is sent or read. -/
inductive MsgType
  | discover | offer | request | ack | nak
  deriving DecidableEq, Repr

def MsgType.value : MsgType → Byte
  | discover => 1
  | offer => 2
  | request => 3
  | ack => 5
  | nak => 6

/-- The part of `lease` that its constructor leaves unset, in seconds. -/
structure LeaseTimes where
  leaseTime : BitVec 32
  renewTime : BitVec 32
  rebindTime : BitVec 32
  deriving DecidableEq, Repr

/-- `lease`. -/
structure Lease extends LeaseTimes where
  ip : BitVec 32 := 0
  netmask : BitVec 32 := 0
  broadcast : BitVec 32 := 0
  gateway : BitVec 32 := 0
  dhcpServer : BitVec 32 := 0
  nameServers : List (BitVec 32) := []
  mtu : BitVec 16 := 0
  deriving DecidableEq, Repr

/-- `ip_info`. -/
structure IpInfo extends Lease where
  type : Byte := 0
  deriving DecidableEq, Repr

/-! ## Options -/

/-- `get_header`: the bytes of a header, if the packet has them. -/
def getHeader (off size : Nat) (p : List Byte) : Option (List Byte) :=
  if off + size ≤ p.length then some ((p.drop off).take size) else .none

namespace IpInfo

/-- `set`, of an address. -/
def setIp (type : OptType) (ip : BitVec 32) (info : IpInfo) : IpInfo :=
  match type with
  | .subnetMask => { info with netmask := ip }
  | .router => { info with gateway := ip }
  | .broadcastAddress => { info with broadcast := ip }
  | .dhcpServer => { info with dhcpServer := ip }
  | .domainNameServers => { info with nameServers := info.nameServers ++ [ip] }
  | _ => info

/-- `set`, of a time. -/
def setTime (type : OptType) (s : BitVec 32) (info : IpInfo) : IpInfo :=
  match type with
  | .leaseTime => { info with leaseTime := s }
  | .renewalTime => { info with renewTime := s }
  | .rebindingTime => { info with rebindTime := s }
  | _ => info

/-- The `switch` of `parse_options`: what the option says that `opt` begins
with, whatever length it claims. -/
def takeOption (type : Byte) (opt : List Byte) (info : IpInfo) : IpInfo :=
  match OptType.ofByte type with
  | some .messageType =>
      match getHeader 0 3 opt with
      | some to_ => { info with type := BitVec.ofNat 8 (IpHdr.field to_ 2 1) }
      | .none => info
  | some .interfaceMtu =>
      match getHeader 0 4 opt with
      | some mo => { info with mtu := BitVec.ofNat 16 (IpHdr.field mo 2 2) }
      | .none => info
  | some type =>
      match getHeader 0 6 opt with
      | some o => (info.setIp type (BitVec.ofNat 32 (IpHdr.field o 2 4))).setTime type
          (BitVec.ofNat 32 (IpHdr.field o 2 4))
      | .none => info
  | .none => info

/-- The loop of `parse_options`, and how many bytes it has yet to step over. -/
def parseOptions : Nat → List Byte → IpInfo → IpInfo
  | _, [], info => info
  | skip + 1, _ :: rest, info => parseOptions skip rest info
  | 0, type :: rest, info =>
      if type = OptType.end_.value then info
      else match rest with
        | [] => info
        | len :: _ => parseOptions (1 + len.toNat) rest (info.takeOption type (type :: rest))

end IpInfo

/-! ## Messages -/

/-- `discover` and `request`, as far as they differ from each other. -/
structure Message where
  type : MsgType
  xid : BitVec 32
  chaddr : List Byte
  dhcpServer : Option (BitVec 32)
  requestedIp : BitVec 32
  deriving DecidableEq, Repr

/-- `requested_options`. -/
def requestedOptions : List OptType :=
  [.subnetMask, .router, .domainNameServers, .interfaceMtu, .broadcastAddress]

/-- `options_magic`. -/
def optionsMagic : List Byte := [0x63, 0x82, 0x53, 0x63]

def clientPort : Nat := 68

/-- `ip_option`. -/
def ipOption (type : OptType) (ip : BitVec 32) : List Byte :=
  [type.value, 4] ++ toBytesBE 4 ip.toNat

/-- The message in memory: `dhcp_payload`, and the options. -/
def Message.bytes (m : Message) : List Byte :=
  [1, 1, 6, 0] ++ toBytesBE 4 m.xid.toNat ++ List.replicate 20 0 ++ m.chaddr.take 16 ++
    List.replicate (16 - m.chaddr.length) 0 ++ List.replicate 192 0 ++ optionsMagic ++
    [OptType.messageType.value, 1, m.type.value] ++
    (m.dhcpServer.map (ipOption .dhcpServer)).getD [] ++
    ipOption .requestedAddress m.requestedIp ++
    [OptType.parameterRequestList.value, 5] ++ requestedOptions.map OptType.value ++
    [OptType.end_.value]

/-- A packet of the filter, with its `dhcp_payload` and where its options are. -/
structure Accepted where
  p : List Byte
  dhp : List Byte
  optOff : Nat
  deriving DecidableEq, Repr

def udpHdrLen : Nat := 8

/-- `sizeof(dhcp_payload)`, which is that of `dhcp_packet_base`. -/
def dhcpPayloadLen : Nat := 240

/-- The packets that `handle` takes. -/
def accepts (iph : IpHdr) (p : List Byte) : Option Accepted :=
  if p.length < dhcpPayloadLen then .none
  else
    let ipl := iph.ihl * 4
    let optOff := ipl + udpHdrLen + dhcpPayloadLen
    match getHeader ipl udpHdrLen p, getHeader (ipl + udpHdrLen) dhcpPayloadLen p with
    | some udp, some dhp =>
        if iph.ipProto ≠ IpProtocolNum.udp.value ∨ IpHdr.field udp 2 2 ≠ clientPort ∨
          iph.len < optOff + 1 ∨ (dhp.drop 236).take 4 ≠ optionsMagic then .none
        else some ⟨p, dhp, optOff⟩
    | _, _ => .none

/-- What `process_packet` reads: the header's transaction id, and the lease. -/
structure Reply where
  xid : BitVec 32
  info : IpInfo
  deriving DecidableEq, Repr

/-- Reading a packet, with what `memory` holds for the times. -/
def Accepted.reply (memory : LeaseTimes) (a : Accepted) : Reply where
  xid := BitVec.ofNat 32 (IpHdr.field a.dhp 4 4)
  info :=
    let info : IpInfo :=
      { toLeaseTimes := memory, ip := BitVec.ofNat 32 (IpHdr.field a.dhp 16 4) }
    info.parseOptions 0 (a.p.drop a.optOff)

end Dhcp

open Dhcp in
/-- `dhcp::impl`. -/
structure Dhcp where
  state : State := .none
  xid : BitVec 32 := 0
  timerArmed : Bool := false
  retryTimerArmed : Bool := false
  /-- Packets on their way to cpu 0. -/
  submitted : List Accepted := []
  sent : List Message := []
  /-- The values given to `_result`; the promise takes one. -/
  result : List (Option Lease) := []
  deriving DecidableEq, Repr

namespace Dhcp

/-- `send_discover`, with the transaction id it draws. -/
def sendDiscover (mac : List Byte) (ip xid : BitVec 32) (d : Dhcp) : Dhcp :=
  { d with
    xid
    state := .discover
    sent := d.sent ++ [⟨.discover, xid, mac, .none, ip⟩] }

/-- `send_request`. -/
def sendRequest (mac : List Byte) (info : Lease) (d : Dhcp) : Dhcp :=
  { d with
    state := .request
    sent := d.sent ++ [⟨.request, d.xid, mac, some info.dhcpServer, info.ip⟩] }

/-- `process_packet`, with the transaction id it may draw. -/
def processPacket (mac : List Byte) (xid : BitVec 32) (r : Reply) (d : Dhcp) : Dhcp :=
  let d := { d with retryTimerArmed := false }
  match d.state with
  | .discover => if r.info.type ≠ MsgType.offer.value then d else d.sendRequest mac r.info.toLease
  | .request =>
      if r.info.type = MsgType.nak.value then { d with state := .none }.sendDiscover mac 0 xid
      else if r.info.type ≠ MsgType.ack.value then d
      else { d with state := .done, result := d.result ++ [some r.info.toLease] }
  | _ => d

/-- `run`, for a lease to renew; a time-out of zero is none. -/
def run (mac : List Byte) (l : Lease) (timeout : Nat) (xid : BitVec 32) : Dhcp :=
  { ({} : Dhcp).sendDiscover mac l.ip xid with
    timerArmed := timeout != 0
    retryTimerArmed := true }

/-- The callback of the overall timer. -/
def timeout (d : Dhcp) : Dhcp :=
  { d with
    timerArmed := false
    state := .fail
    retryTimerArmed := false
    result := d.result ++ [.none] }

end Dhcp

inductive DhcpEvent
  | handle (shard : Nat) (iph : IpHdr) (p : List Byte) (xid : BitVec 32)
      (memory : Dhcp.LeaseTimes)
  | process (k : Nat) (xid : BitVec 32) (memory : Dhcp.LeaseTimes)
  | retry (xid : BitVec 32)
  | timeout
  deriving DecidableEq

/-- The client: its hardware address, and the lease it wants again. -/
structure DhcpHost where
  mac : List Byte
  lease : Dhcp.Lease

namespace Dhcp

/-- The reply that an event has processed. -/
def processed (d : Dhcp) : DhcpEvent → Option Reply
  | .handle shard iph p _ memory =>
      if d.state = .none ∨ shard ≠ 0 then .none else (accepts iph p).map (Accepted.reply memory)
  | .process k _ memory => (d.submitted[k]?).map (Accepted.reply memory)
  | _ => .none

/-- `handle`, on some cpu. -/
def handle (host : DhcpHost) (shard : Nat) (iph : IpHdr) (p : List Byte) (xid : BitVec 32)
    (memory : LeaseTimes) (d : Dhcp) : Dhcp :=
  if d.state = .none then d
  else match accepts iph p with
    | .none => d
    | some a =>
        if shard = 0 then d.processPacket host.mac xid (a.reply memory)
        else { d with submitted := d.submitted ++ [a] }

def enabled (d : Dhcp) : DhcpEvent → Bool
  | .handle .. => true
  | .process k _ _ => decide (k < d.submitted.length)
  | .retry _ => d.retryTimerArmed
  | .timeout => d.timerArmed

def step (host : DhcpHost) (d : Dhcp) (e : DhcpEvent) : Option Dhcp :=
  if d.enabled e then
    some (match e with
      | .handle shard iph p xid memory => d.handle host shard iph p xid memory
      | .process k xid memory =>
          match d.submitted[k]? with
          | .none => d
          | some a => { d with submitted := d.submitted.eraseIdx k }.processPacket host.mac xid
              (a.reply memory)
      | .retry xid => d.sendDiscover host.mac host.lease.ip xid
      | .timeout => d.timeout)
  else .none

end Dhcp

end ActorNet.Net
