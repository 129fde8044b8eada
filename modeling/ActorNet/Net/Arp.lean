import Mathlib.Logic.Function.Basic
import ActorNet.Lib.Bytes
import ActorNet.Lib.Run

/-!
# Address resolution

`arp_for`, for any two kinds of addresses: the table, the resolutions in
progress with their waiters, and the timer of each resolution. A waiter is a
promise, named by its place in the list of all that were made; what it was
resolved with is kept, so that it can be counted.
-/

namespace ActorNet.Net

open Lib

variable {L2 L3 : Type}

/-- `arp_for::arp_hdr`. -/
structure ArpHdr (L2 L3 : Type) where
  htype : BitVec 16
  ptype : BitVec 16
  hlen : Byte
  plen : Byte
  oper : BitVec 16
  senderHwaddr : L2
  senderPaddr : L3
  targetHwaddr : L2
  targetPaddr : L3
  deriving DecidableEq, Repr

/-- `op_request` and `op_reply`. -/
def opRequest : BitVec 16 := 1

def opReply : BitVec 16 := 2

/-- What `arp_for` knows of its two protocols, and the address of the device. -/
structure ArpHost (L2 L3 : Type) where
  l2self : L2
  l2Broadcast : L2
  l3Broadcast : L3
  arpHardwareType : BitVec 16
  arpProtocolType : BitVec 16
  l2Size : Byte
  l3Size : Byte

/-- `resolution`; its timer is periodic. -/
structure Resolution where
  waiters : List Nat := []
  timerArmed : Bool := true
  deriving DecidableEq, Repr

/-- How a waiter is resolved: with an address, or with `arp_timeout_error`. -/
inductive Outcome (L2 : Type)
  | value (hwaddr : L2)
  | timeoutError
  deriving DecidableEq, Repr

/-- What `lookup` returns: a value, `arp_queue_full_error`, or a waiter. -/
inductive Answer (L2 : Type)
  | ready (hwaddr : L2)
  | queueFullError
  | waits (w : Nat)
  deriving DecidableEq, Repr

/-- `max_waiters`. -/
def maxWaiters : Nat := 512

/-- `arp_for`. -/
structure ArpFor (L2 L3 : Type) where
  l3self : L3
  table : L3 → Option L2
  inProgress : L3 → Option Resolution := fun _ => none
  /-- Packets for the interface, with the address they are for. -/
  packetq : List (L2 × ArpHdr L2 L3) := []
  /-- What each waiter asked for, in the order of their promises. -/
  asked : List L3 := []
  resolved : List (Nat × Outcome L2) := []

namespace ArpFor

variable [DecidableEq L3]

/-- The constructor: there is no own address yet. -/
def new (host : ArpHost L2 L3) : ArpFor L2 L3 where
  l3self := host.l3Broadcast
  table := Function.update (fun _ => none) host.l3Broadcast (some host.l2Broadcast)

/-- `set_self_addr`. -/
def setSelfAddr (host : ArpHost L2 L3) (addr : L3) (a : ArpFor L2 L3) : ArpFor L2 L3 :=
  { a with
    table := Function.update (Function.update a.table a.l3self none) addr (some host.l2self)
    l3self := addr }

/-- `make_query_packet`. -/
def makeQueryPacket (host : ArpHost L2 L3) (paddr : L3) (a : ArpFor L2 L3) : ArpHdr L2 L3 where
  htype := host.arpHardwareType
  ptype := host.arpProtocolType
  hlen := host.l2Size
  plen := host.l3Size
  oper := opRequest
  senderHwaddr := host.l2self
  senderPaddr := a.l3self
  targetHwaddr := host.l2Broadcast
  targetPaddr := paddr

def send (dst : L2) (p : ArpHdr L2 L3) (a : ArpFor L2 L3) : ArpFor L2 L3 :=
  { a with packetq := a.packetq ++ [(dst, p)] }

/-- `send_query`. -/
def sendQuery (host : ArpHost L2 L3) (paddr : L3) (a : ArpFor L2 L3) : ArpFor L2 L3 :=
  a.send host.l2Broadcast (a.makeQueryPacket host paddr)

/-- The resolution of an address, with its timer, at the first request for it. -/
def startResolution (host : ArpHost L2 L3) (paddr : L3) (a : ArpFor L2 L3) :
    Resolution × ArpFor L2 L3 :=
  match a.inProgress paddr with
  | some res => (res, a)
  | none =>
      ({}, { a with inProgress := Function.update a.inProgress paddr (some {}) }.sendQuery host paddr)

/-- `lookup`. -/
def lookup (host : ArpHost L2 L3) (paddr : L3) (a : ArpFor L2 L3) : Answer L2 × ArpFor L2 L3 :=
  match a.table paddr with
  | some hwaddr => (.ready hwaddr, a)
  | none =>
      let (res, a) := a.startResolution host paddr
      if maxWaiters ≤ res.waiters.length then (.queueFullError, a)
      else
        let w := a.asked.length
        (.waits w, { a with
          inProgress := Function.update a.inProgress paddr
            (some { res with waiters := res.waiters ++ [w] })
          asked := a.asked ++ [paddr] })

/-- All waiters of a resolution get the same. -/
def resolve (res : Resolution) (outcome : Outcome L2) (a : ArpFor L2 L3) : ArpFor L2 L3 :=
  { a with resolved := a.resolved ++ res.waiters.map (·, outcome) }

/-- The callback of the timer of a resolution. -/
def timeout (host : ArpHost L2 L3) (paddr : L3) (a : ArpFor L2 L3) : ArpFor L2 L3 :=
  match a.inProgress paddr with
  | none => a
  | some res =>
      let a := (a.sendQuery host paddr).resolve res .timeoutError
      { a with inProgress := Function.update a.inProgress paddr (some { res with waiters := [] }) }

/-- `learn`. -/
def learn (hwaddr : L2) (paddr : L3) (a : ArpFor L2 L3) : ArpFor L2 L3 :=
  let a := { a with table := Function.update a.table paddr (some hwaddr) }
  match a.inProgress paddr with
  | none => a
  | some res =>
      let a := a.resolve res (.value hwaddr)
      { a with inProgress := Function.update a.inProgress paddr none }

/-- `handle_request`. -/
def handleRequest (host : ArpHost L2 L3) (ah : ArpHdr L2 L3) (a : ArpFor L2 L3) : ArpFor L2 L3 :=
  if ah.targetPaddr = a.l3self ∧ a.l3self ≠ host.l3Broadcast then
    a.send ah.senderHwaddr { ah with
      oper := opReply
      targetHwaddr := ah.senderHwaddr
      targetPaddr := ah.senderPaddr
      senderHwaddr := host.l2self
      senderPaddr := a.l3self }
  else a

/-- `received`, for a packet that is long enough. What a reply says is learned
by every cpu in the background: as an event of its own. -/
def received (host : ArpHost L2 L3) (h : ArpHdr L2 L3) (a : ArpFor L2 L3) :
    Option (L2 × L3) × ArpFor L2 L3 :=
  if h.hlen ≠ host.l2Size ∨ h.plen ≠ host.l3Size then (none, a)
  else if h.oper = opRequest then (none, a.handleRequest host h)
  else if h.oper = opReply then (some (h.senderHwaddr, h.senderPaddr), a)
  else (none, a)

end ArpFor

inductive ArpEvent (L2 L3 : Type)
  | setSelfAddr (addr : L3)
  | learn (hwaddr : L2) (paddr : L3)
  | lookup (paddr : L3)
  | timeout (paddr : L3)
  | received (h : ArpHdr L2 L3)
  deriving DecidableEq

namespace ArpFor

variable [DecidableEq L3] (host : ArpHost L2 L3)

/-- A timer fires while it is armed; everything else can happen at any time. -/
def enabled (a : ArpFor L2 L3) : ArpEvent L2 L3 → Bool
  | .timeout paddr => (a.inProgress paddr).any Resolution.timerArmed
  | _ => true

def handle (a : ArpFor L2 L3) : ArpEvent L2 L3 → ArpFor L2 L3
  | .setSelfAddr addr => a.setSelfAddr host addr
  | .learn hwaddr paddr => a.learn hwaddr paddr
  | .lookup paddr => (a.lookup host paddr).2
  | .timeout paddr => a.timeout host paddr
  | .received h => (a.received host h).2

def step (a : ArpFor L2 L3) (e : ArpEvent L2 L3) : Option (ArpFor L2 L3) :=
  if a.enabled e then some (a.handle host e) else none

end ArpFor

end ActorNet.Net
