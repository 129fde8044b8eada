import Mathlib.Algebra.Order.BigOperators.Group.List
import Mathlib.Data.List.Perm.Basic
import ActorNet.Net.ArpResolution
import ActorNet.Net.UdpIcmp
import ActorNet.Tcp.Stack

/-!
# The space of the reply queues

The resets of `tcp` and the replies of `icmp` belong to no connection, and each of
the two has its own `_queue_space` for them. Units are taken as a reply is made,
and come back as the queued reply is handed down. In between the address of the
next hop is looked up, and the reply is part of the continuation of that lookup.
Nothing gives the units back of a continuation that is dropped.
-/

namespace ActorNet.Tcp

open Lib Lib.Guarded Net

variable {L2 P : Type}

/-! ## One queue -/

/-- `l4packet`, without the number of the protocol. -/
structure L4Packet (P L2 : Type) where
  to_ : BitVec 32
  p : P
  eDst : L2
  deriving DecidableEq

/-- The future of a lookup: it has its value, or it is that of a waiter. -/
inductive Lookup (L2 : Type)
  | ready (hwaddr : L2)
  | waits (w : Nat)
  deriving DecidableEq

/-- The continuation of a lookup. -/
structure Continuation (P L2 : Type) where
  dst : Lookup L2
  to_ : BitVec 32
  p : P
  deriving DecidableEq

/-- `_queue_space`, the replies whose lookup goes on, and `_packetq`. -/
structure ReplyQueue (P L2 : Type) where
  queueSpace : Nat := 212992
  waiting : List (Continuation P L2) := []
  packetq : List (L4Packet P L2) := []
  deriving DecidableEq

namespace ReplyQueue

/-- `try_wait`, of a semaphore that nobody waits for. -/
def tryWait (n : Nat) (q : ReplyQueue P L2) : Option (ReplyQueue P L2) :=
  if n ≤ q.queueSpace then some { q with queueSpace := q.queueSpace - n } else none

def signal (n : Nat) (q : ReplyQueue P L2) : ReplyQueue P L2 :=
  { q with queueSpace := q.queueSpace + n }

/-- What the continuation does with the address. -/
def emplace (to_ : BitVec 32) (p : P) (eDst : L2) (q : ReplyQueue P L2) : ReplyQueue P L2 :=
  { q with packetq := q.packetq ++ [⟨to_, p, eDst⟩] }

/-- `get_l2_dst_address(..).then`. A continuation runs at once if the address is
there, unless its task is preempted; that of a lookup that failed is dropped. -/
def andThen (answer : Answer L2) (preempted : Bool) (to_ : BitVec 32) (p : P)
    (q : ReplyQueue P L2) : ReplyQueue P L2 :=
  match answer with
  | .queueFullError => q
  | .ready hwaddr =>
      if preempted then { q with waiting := q.waiting ++ [⟨.ready hwaddr, to_, p⟩] }
      else q.emplace to_ p hwaddr
  | .waits w => { q with waiting := q.waiting ++ [⟨.waits w, to_, p⟩] }

/-- The turn of the continuation `i`, with the outcome of its lookup. -/
def settle (i : Nat) (c : Continuation P L2) (outcome : Outcome L2) (q : ReplyQueue P L2) :
    ReplyQueue P L2 :=
  let q := { q with waiting := q.waiting.eraseIdx i }
  match outcome with
  | .value hwaddr => q.emplace c.to_ c.p hwaddr
  | .timeoutError => q

/-- The oldest packet is handed down. -/
def popFront (len : P → Nat) (q : ReplyQueue P L2) : ReplyQueue P L2 :=
  match q.packetq with
  | [] => q
  | l4p :: rest => { q with packetq := rest }.signal (len l4p.p)

/-- The free units and the lengths of all replies on their way. -/
def units (len : P → Nat) (q : ReplyQueue P L2) : Nat :=
  q.queueSpace + (q.waiting.map fun c => len c.p).sum + (q.packetq.map fun l4p => len l4p.p).sum

/-- No reply is on its way. -/
def Idle (q : ReplyQueue P L2) : Prop := q.waiting = [] ∧ q.packetq = []

end ReplyQueue

/-! ## The two protocols above one table of addresses -/

/-- What the replies need of `ipv4`, `tcp` and `icmp`. The blocks of `_poll_tcbs`
are named by numbers. -/
structure Replies (L2 : Type) where
  hostAddress : BitVec 32 := 0
  gwAddress : BitVec 32 := 0
  netmask : BitVec 32 := 0
  arp : ArpFor L2 (BitVec 32)
  tcp : ReplyQueue TcpHdr L2 := {}
  icmp : ReplyQueue Impl L2 := {}
  tcbPolled : BitVec 32 := 0
  pollTcbs : List Nat := []

namespace Replies

variable (host : ArpHost L2 (BitVec 32))

def start : Replies L2 where
  arp := ArpFor.new host

/-- `in_my_netmask`. -/
def inMyNetmask (a : BitVec 32) (s : Replies L2) : Bool :=
  decide ((a ^^^ s.hostAddress) &&& s.netmask = 0)

/-- Who is asked for: the host itself, or the gateway. -/
def nextHop (to_ : BitVec 32) (s : Replies L2) : BitVec 32 :=
  if s.inMyNetmask to_ then to_ else s.gwAddress

/-- `get_l2_dst_address`. -/
def getL2DstAddress (to_ : BitVec 32) (s : Replies L2) : Answer L2 × Replies L2 :=
  let (answer, arp) := s.arp.lookup host (s.nextHop to_)
  (answer, { s with arp })

/-- `send_packet_without_tcb`, of a packet that is just a header. -/
def sendPacketWithoutTcb (preempted : Bool) (to_ : BitVec 32) (p : TcpHdr) (s : Replies L2) :
    Replies L2 :=
  match s.tcp.tryWait tcpHdrLen with
  | none => s
  | some tcp =>
      let (answer, s) := s.getL2DstAddress host to_
      { s with tcp := tcp.andThen answer preempted to_ p }

/-- `respond_with_reset`. -/
def respondWithReset (preempted : Bool) (rth : TcpHdr) (foreignIp : BitVec 32)
    (s : Replies L2) : Replies L2 :=
  if rth.fRst then s
  else s.sendPacketWithoutTcb host preempted foreignIp (resetHeader rth)

/-- `icmp::received`: its reply, if there is one, and the units it has left. -/
def icmpReceived (preempted : Bool) (p : Impl) (src : BitVec 32) (s : Replies L2) :
    Except Fault (Replies L2) :=
  ((Icmp.mk s.icmp.queueSpace []).received p src.toNat).map fun answered =>
    match answered.replies with
    | [] => s
    | (_, reply) :: _ =>
        let icmp := { s.icmp with queueSpace := answered.queueSpace }
        let (answer, s) := s.getL2DstAddress host src
        { s with icmp := icmp.andThen answer preempted src reply }

/-- The loop of the packet provider over the blocks that are polled: it stops at
one that has a packet. -/
def pollLoop (hasPacket : Nat → Bool) : Nat → BitVec 32 → List Nat → BitVec 32 × List Nat
  | c + 1, polled, b :: rest =>
      if hasPacket b then (polled + 1, rest) else pollLoop hasPacket c (polled + 1) rest
  | _, polled, tcbs => (polled, tcbs)

/-- The packet provider of `tcp`. -/
def provideTcp (hasPacket : Nat → Bool) (s : Replies L2) : Replies L2 :=
  let c := s.pollTcbs.length
  if s.tcp.packetq ≠ [] ∧ (s.tcbPolled % 128 = 0 ∨ c = 0) then
    { s with tcp := s.tcp.popFront fun _ => tcpHdrLen }
  else
    let (tcbPolled, pollTcbs) := pollLoop hasPacket c s.tcbPolled s.pollTcbs
    { s with tcbPolled, pollTcbs }

/-- The packet provider of `icmp`. -/
def provideIcmp (s : Replies L2) : Replies L2 := { s with icmp := s.icmp.popFront Impl.len }

/-- What the future of a lookup is resolved with, if it is. -/
def outcome (dst : Lookup L2) (s : Replies L2) : Option (Outcome L2) :=
  match dst with
  | .ready hwaddr => some (.value hwaddr)
  | .waits w => (s.arp.outcomes w).head?

/-- The turn of a continuation of `tcp`. -/
def settleTcp (i : Nat) (s : Replies L2) : Option (Replies L2) :=
  (s.tcp.waiting[i]?).bind fun c =>
    (s.outcome c.dst).map fun outcome => { s with tcp := s.tcp.settle i c outcome }

/-- The turn of a continuation of `icmp`. -/
def settleIcmp (i : Nat) (s : Replies L2) : Option (Replies L2) :=
  (s.icmp.waiting[i]?).bind fun c =>
    (s.outcome c.dst).map fun outcome => { s with icmp := s.icmp.settle i c outcome }

end Replies

/-- What happens. Others look up addresses as well, and blocks ask to be polled. -/
inductive ReplyEvent (L2 : Type)
  | setHostAddress (ip : BitVec 32)
  | setGwAddress (ip : BitVec 32)
  | setNetmaskAddress (ip : BitVec 32)
  | arp (e : ArpEvent L2 (BitVec 32))
  | reset (rth : TcpHdr) (foreignIp : BitVec 32) (preempted : Bool)
  | echo (p : Impl) (src : BitVec 32) (preempted : Bool)
  | settleTcp (i : Nat)
  | settleIcmp (i : Nat)
  | pollTcb (b : Nat)
  | provideTcp (hasPacket : Nat → Bool)
  | provideIcmp

namespace Replies

variable (host : ArpHost L2 (BitVec 32))

/-- One event; a packet whose bytes cannot be read has no outcome. -/
def step (s : Replies L2) : ReplyEvent L2 → Option (Replies L2)
  | .setHostAddress ip =>
      some { s with hostAddress := ip, arp := s.arp.setSelfAddr host ip }
  | .setGwAddress ip => some { s with gwAddress := ip }
  | .setNetmaskAddress ip => some { s with netmask := ip }
  | .arp e => (s.arp.step host e).map fun arp => { s with arp }
  | .reset rth foreignIp preempted => some (s.respondWithReset host preempted rth foreignIp)
  | .echo p src preempted => (s.icmpReceived host preempted p src).toOption
  | .settleTcp i => s.settleTcp i
  | .settleIcmp i => s.settleIcmp i
  | .pollTcb b => some { s with pollTcbs := s.pollTcbs ++ [b] }
  | .provideTcp hasPacket => some (s.provideTcp hasPacket)
  | .provideIcmp => some s.provideIcmp

/-! ## What is conserved, and when -/

/-- The units of both queues are all there. -/
def Conserved (s : Replies L2) : Prop :=
  s.tcp.units (fun _ => tcpHdrLen) = 212992 ∧ s.icmp.units Impl.len = 212992

/-- Whoever has no reply on its way has its full space. -/
def FreeWhenIdle (s : Replies L2) : Prop :=
  (s.tcp.Idle → s.tcp.queueSpace = 212992) ∧ (s.icmp.Idle → s.icmp.queueSpace = 212992)

/-- The next hop is not known, and no more waiters are taken for it. -/
def Refused (to_ : BitVec 32) (s : Replies L2) : Prop :=
  s.arp.table (s.nextHop to_) = none ∧
    maxWaiters ≤ (s.arp.waiters (s.nextHop to_)).length

/-- The header says that this is an echo request. -/
def Requests (p : Impl) : Prop :=
  ∃ q hdr, p.getHeader 0 icmpHdrSize = .ok (q, some hdr) ∧ hdr.head? = some echoRequest

/-- No lookup of a reply fails in this step: it is not refused, and it does not
time out. -/
def Resolves (s : Replies L2) : ReplyEvent L2 → Prop
  | .reset rth foreignIp _ =>
      rth.fRst = false → tcpHdrLen ≤ s.tcp.queueSpace → ¬s.Refused foreignIp
  | .echo p src _ => Requests p → p.len ≤ s.icmp.queueSpace → ¬s.Refused src
  | .settleTcp i => ∀ c ∈ s.tcp.waiting[i]?, s.outcome c.dst ≠ some .timeoutError
  | .settleIcmp i => ∀ c ∈ s.icmp.waiting[i]?, s.outcome c.dst ≠ some .timeoutError
  | _ => True

end Replies

/-! ## What becomes of the units of one queue -/

namespace ReplyQueue

variable {len : P → Nat} {q q' : ReplyQueue P L2} {n i : Nat} {to_ : BitVec 32} {p : P}

theorem sum_eraseIdx {α : Type} (f : α → Nat) {xs : List α} {i : Nat} {x : α}
    (here : xs[i]? = some x) : f x + ((xs.eraseIdx i).map f).sum = (xs.map f).sum := by
  obtain ⟨inside, rfl⟩ := List.getElem?_eq_some_iff.mp here
  have moved := (List.getElem_cons_eraseIdx_perm inside).map f
  rw [← moved.sum_eq, List.map_cons, List.sum_cons]

theorem units_emplace (eDst : L2) : (q.emplace to_ p eDst).units len = q.units len + len p := by
  show q.queueSpace + (q.waiting.map fun c => len c.p).sum +
    ((q.packetq ++ [L4Packet.mk to_ p eDst]).map fun l4p => len l4p.p).sum = _
  rw [List.map_append, List.sum_append, List.map_singleton, List.sum_singleton, ← Nat.add_assoc]
  rfl

theorem units_wait (c : Continuation P L2) :
    ({ q with waiting := q.waiting ++ [c] } : ReplyQueue P L2).units len =
      q.units len + len c.p := by
  show q.queueSpace + ((q.waiting ++ [c]).map fun c => len c.p).sum +
    (q.packetq.map fun l4p => len l4p.p).sum = _
  rw [List.map_append, List.sum_append, List.map_singleton, List.sum_singleton, units]
  omega

/-- A reply is counted unless its lookup is refused. -/
theorem units_andThen_iff (long : 0 < len p) (answer : Answer L2) (preempted : Bool) :
    (q.andThen answer preempted to_ p).units len = q.units len + len p ↔
      answer ≠ .queueFullError := by
  cases answer with
  | queueFullError =>
      -- the units were taken, and no reply stands for them
      refine ⟨fun same => ?_, fun bad => absurd rfl bad⟩
      have same : q.units len = q.units len + len p := same
      omega
  | waits w => exact ⟨fun _ bad => (nomatch bad), fun _ => units_wait _⟩
  | ready hwaddr =>
      refine ⟨fun _ bad => (nomatch bad), fun _ => ?_⟩
      cases preempted with
      | true => exact units_wait _
      | false => exact units_emplace hwaddr

/-- The reply of a lookup that timed out is counted no more. -/
theorem units_settle_iff {c : Continuation P L2} (here : q.waiting[i]? = some c)
    (long : 0 < len c.p) (outcome : Outcome L2) :
    (q.settle i c outcome).units len = q.units len ↔ outcome ≠ .timeoutError := by
  have out := sum_eraseIdx (fun c => len c.p) here
  have erased : ({ q with waiting := q.waiting.eraseIdx i } : ReplyQueue P L2).units len +
      len c.p = q.units len := by
    show q.queueSpace + ((q.waiting.eraseIdx i).map fun c => len c.p).sum +
      (q.packetq.map fun l4p => len l4p.p).sum + len c.p = q.queueSpace + _ + _
    omega
  cases outcome with
  | timeoutError =>
      -- the continuation is dropped, and its reply with it
      refine ⟨fun same => ?_, fun bad => absurd rfl bad⟩
      have same : ({ q with waiting := q.waiting.eraseIdx i } : ReplyQueue P L2).units len =
        q.units len := same
      omega
  | value hwaddr =>
      refine ⟨fun _ bad => (nomatch bad), fun _ => ?_⟩
      rw [← erased]
      exact units_emplace hwaddr

theorem units_popFront (q : ReplyQueue P L2) : (q.popFront len).units len = q.units len := by
  obtain ⟨space, waiting, packetq⟩ := q
  cases packetq with
  | nil => rfl
  | cons l4p rest =>
      show space + len l4p.p + (waiting.map fun c => len c.p).sum +
          (rest.map fun l4p => len l4p.p).sum =
        space + (waiting.map fun c => len c.p).sum + ((l4p :: rest).map fun l4p => len l4p.p).sum
      rw [List.map_cons, List.sum_cons]
      omega

theorem mem_waiting_andThen {answer : Answer L2} {preempted : Bool} {c : Continuation P L2}
    (mem : c ∈ (q.andThen answer preempted to_ p).waiting) : c ∈ q.waiting ∨ c.p = p := by
  have added {c' : Continuation P L2} (mem : c ∈ q.waiting ++ [c']) :
      c ∈ q.waiting ∨ c.p = c'.p := by
    rcases List.mem_append.mp mem with before | new
    · exact .inl before
    · exact .inr (List.mem_singleton.mp new ▸ rfl)
  cases answer with
  | queueFullError => exact .inl mem
  | waits w => exact added mem
  | ready hwaddr =>
      cases preempted with
      | true => exact added mem
      | false => exact .inl mem

theorem mem_waiting_settle {c c' : Continuation P L2} {outcome : Outcome L2}
    (mem : c' ∈ (q.settle i c outcome).waiting) : c' ∈ q.waiting := by
  cases outcome with
  | value hwaddr => exact List.mem_of_mem_eraseIdx mem
  | timeoutError => exact List.mem_of_mem_eraseIdx mem

theorem waiting_popFront (q : ReplyQueue P L2) : (q.popFront len).waiting = q.waiting := by
  unfold popFront
  split <;> rfl

end ReplyQueue

/-! ## The reply to an echo request -/

section Echo

variable {p q : Impl}

theorem linearize_len (p : Impl) (atFrag size : Nat) :
    Ensures (fun _ => False) (p.linearize atFrag size) fun q => q.len = p.len := by
  have unused : p.unuseInternalData.len = p.len := by
    unfold Impl.unuseInternalData
    split
    · split <;> rfl
    · rfl
  unfold Impl.linearize
  refine .bind (P := fun _ => True) ?_ fun nr _ => unused
  cases Impl.countFrags size (p.unuseInternalData.frags.drop atFrag) with
  | ok nr => trivial
  | error e => exact id

theorem store_len (p : Impl) (at_ : Nat × Nat) (bytes : List Byte) :
    Ensures (fun _ => False) (p.store at_ bytes) fun q => q.len = p.len := by
  unfold Impl.store
  cases p.frags[at_.1]? with
  | none => exact id
  | some f =>
      cases f with
      | inData base size =>
          by_cases room : at_.2 + bytes.length ≤ size
          · dsimp only
            rw [if_pos room]
            refine .bind (P := fun _ => True) ?_ fun data _ => rfl
            cases Impl.writeData p.data (base + at_.2) bytes with
            | ok data => trivial
            | error e => exact id
          · dsimp only
            rw [if_neg room]
            exact id
      | outside old =>
          dsimp only
          split
          · rfl
          · exact id

/-- A header that is there lies in a fragment. -/
theorem getHeader_len (p : Impl) (offset size : Nat) :
    Ensures (fun _ => False) (p.getHeader offset size) fun r =>
      r.1.len = p.len ∧ (r.2.isSome → offset + size ≤ p.len ∧ ∃ f ∈ r.1.frags, size ≤ f.size) := by
  unfold Impl.getHeader
  split
  · exact ⟨rfl, by simp⟩
  · rename_i inside
    cases Impl.findFrag offset p.frags with
    | none => exact ⟨rfl, by simp⟩
    | some place =>
        obtain ⟨i, o⟩ := place
        have onward (q : Impl) (same : q.len = p.len) :
            Ensures (fun _ => False) (q.readAt i o size) fun r => r.1.len = p.len ∧
              (r.2.isSome → offset + size ≤ p.len ∧ ∃ f ∈ r.1.frags, size ≤ f.size) := by
          unfold Impl.readAt
          cases there : q.frags[i]? with
          | none => exact id
          | some f =>
              dsimp only
              split
              · exact ⟨same, fun _ => ⟨by omega, f, List.mem_of_getElem? there, by omega⟩⟩
              · exact id
        dsimp only
        split
        · exact .bind (linearize_len p i (o + size)) onward
        · exact onward p rfl

theorem findFrag_of_mem {frags : List Fragment} {f : Fragment} (mem : f ∈ frags)
    (long : 0 < f.size) : (Impl.findFrag 0 frags).isSome := by
  have inside : f.size ≤ Impl.total frags := List.le_sum_of_mem (List.mem_map_of_mem mem)
  have spec := @Impl.findFrag_spec frags 0
  cases found : Impl.findFrag 0 frags with
  | some place => rfl
  | none =>
      rw [found] at spec
      have empty : Impl.total frags ≤ 0 := spec
      omega

/-- A reply is as long as its request, and takes as many units. -/
theorem received_reply (s : Icmp) (p : Impl) (src : Nat) :
    Ensures (fun _ => False) (s.received p src) fun s' =>
      (∃ reply : Impl, Replies.Requests p ∧ reply.len = p.len ∧ 0 < p.len ∧
        p.len ≤ s.queueSpace ∧ s' = ⟨s.queueSpace - p.len, (src, reply) :: s.replies⟩) ∨
      (¬(Replies.Requests p ∧ p.len ≤ s.queueSpace) ∧ s' = s) := by
  have header : Ensures (fun _ => False) (p.getHeader 0 icmpHdrSize) fun r =>
      p.getHeader 0 icmpHdrSize = .ok r ∧ r.1.len = p.len ∧
        (r.2.isSome → 0 + icmpHdrSize ≤ p.len ∧ ∃ f ∈ r.1.frags, icmpHdrSize ≤ f.size) := by
    have spec := getHeader_len p 0 icmpHdrSize
    cases run : p.getHeader 0 icmpHdrSize with
    | error e =>
        rw [run] at spec
        exact spec
    | ok r =>
        rw [run] at spec
        exact ⟨rfl, spec⟩
  unfold Icmp.received
  refine header.bind ?_
  rintro ⟨q, hdr⟩ ⟨run, same, inside⟩
  have requests {hdr' : List Byte} : Replies.Requests p → hdr = some hdr' →
      hdr'.head? = some echoRequest := by
    rintro ⟨q', hdr'', run', type_⟩ rfl
    cases run.symm.trans run'
    exact type_
  cases hdr with
  | none =>
      refine .inr ⟨?_, rfl⟩
      rintro ⟨⟨q', hdr'', run', -⟩, -⟩
      cases run.symm.trans run'
  | some hdr =>
      -- a header was read, so the place where it is written is found too
      obtain ⟨long, f, mem, size⟩ := inside rfl
      obtain ⟨place, found⟩ := Option.isSome_iff_exists.mp
        (findFrag_of_mem mem (Nat.lt_of_lt_of_le (by decide) size))
      obtain ⟨i, o⟩ := place
      dsimp only
      rw [found]
      dsimp only
      by_cases other : hdr.head? ≠ some echoRequest
      · rw [if_pos other]
        exact .inr ⟨fun both => other (requests both.1 rfl), rfl⟩
      · rw [if_neg other]
        have type_ : hdr.head? = some echoRequest := not_not.mp other
        refine .bind (store_len q (i, o) _) fun q₁ same₁ => ?_
        refine .bind (P := fun _ => True) ?_ fun bytes _ => ?_
        · cases q₁.load (i, o) q₁.len with
          | ok bytes => trivial
          | error e => exact id
        · obtain ⟨csum, summed⟩ := ipChecksum_some bytes
          rw [summed]
          refine .bind (store_len q₁ (i, o + 2) _) fun q₂ same₂ => ?_
          -- neither the type nor the checksum that is stored changes the length
          have length : q₂.len = p.len := same₂.trans (same₁.trans same)
          rw [length]
          by_cases room : p.len ≤ s.queueSpace
          · rw [if_pos room]
            exact .inl ⟨q₂, ⟨q, hdr, run, type_⟩, length,
              Nat.lt_of_lt_of_le (by decide) long, room, rfl⟩
          · rw [if_neg room]
            exact .inr ⟨fun both => room both.2, rfl⟩

end Echo

/-! ## The lookup -/

theorem lookup_refused_iff (host : ArpHost L2 (BitVec 32)) (a : ArpFor L2 (BitVec 32))
    (paddr : BitVec 32) :
    (a.lookup host paddr).1 = .queueFullError ↔
      a.table paddr = none ∧ maxWaiters ≤ (a.waiters paddr).length := by
  unfold ArpFor.lookup
  cases a.table paddr with
  | some hwaddr => exact ⟨fun bad => (nomatch bad), fun both => (nomatch both.1)⟩
  | none =>
      rw [← ArpFor.startResolution_waiters]
      dsimp only
      split
      · rename_i full
        exact ⟨fun _ => ⟨rfl, full⟩, fun _ => rfl⟩
      · rename_i room
        exact ⟨fun bad => (nomatch bad), fun both => absurd both.2 room⟩

/-! ## One step, and a run -/

namespace Replies

variable {host : ArpHost L2 (BitVec 32)} {s s' : Replies L2} {e : ReplyEvent L2}

/-- The units are there, and there is something in every reply that waits. -/
structure Sound (s : Replies L2) : Prop where
  conserved : s.Conserved
  filled : ∀ c ∈ s.icmp.waiting, 0 < c.p.len

theorem refused_iff (to_ : BitVec 32) :
    (s.getL2DstAddress host to_).1 = .queueFullError ↔ s.Refused to_ :=
  lookup_refused_iff host s.arp (s.nextHop to_)

/-- The units that `try_wait` took are those of the reply. -/
theorem units_reply_iff {P : Type} {len : P → Nat} {q : ReplyQueue P L2} {p : P}
    (room : len p ≤ q.queueSpace) (long : 0 < len p) (preempted : Bool) (to_ : BitVec 32) :
    ((({ q with queueSpace := q.queueSpace - len p }).andThen (s.getL2DstAddress host to_).1
      preempted to_ p).units len = q.units len) ↔ ¬s.Refused to_ := by
  have taken : ({ q with queueSpace := q.queueSpace - len p } : ReplyQueue P L2).units len +
      len p = q.units len := by
    show q.queueSpace - len p + (q.waiting.map fun c => len c.p).sum +
        (q.packetq.map fun l4p => len l4p.p).sum + len p =
      q.queueSpace + (q.waiting.map fun c => len c.p).sum +
        (q.packetq.map fun l4p => len l4p.p).sum
    omega
  rw [← taken, ReplyQueue.units_andThen_iff long, Ne, refused_iff]

theorem conserved_of_tcp (conserved : s.Conserved) (same : s'.icmp = s.icmp) :
    s'.Conserved ↔ s'.tcp.units (fun _ => tcpHdrLen) = s.tcp.units fun _ => tcpHdrLen := by
  rw [Conserved, same, conserved.1]
  exact and_iff_left conserved.2

theorem conserved_of_icmp (conserved : s.Conserved) (same : s'.tcp = s.tcp) :
    s'.Conserved ↔ s'.icmp.units Impl.len = s.icmp.units Impl.len := by
  rw [Conserved, same, conserved.2]
  exact and_iff_right conserved.1

theorem sendPacketWithoutTcb_eq (room : tcpHdrLen ≤ s.tcp.queueSpace) (preempted : Bool)
    (to_ : BitVec 32) (p : TcpHdr) :
    s.sendPacketWithoutTcb host preempted to_ p = { (s.getL2DstAddress host to_).2 with
      tcp := ({ s.tcp with queueSpace := s.tcp.queueSpace - tcpHdrLen }).andThen
        (s.getL2DstAddress host to_).1 preempted to_ p } := by
  unfold sendPacketWithoutTcb ReplyQueue.tryWait
  rw [if_pos room]

theorem respondWithReset_conserved_iff (conserved : s.Conserved) (preempted : Bool)
    (rth : TcpHdr) (foreignIp : BitVec 32) :
    (s.respondWithReset host preempted rth foreignIp).Conserved ↔
      s.Resolves (.reset rth foreignIp preempted) := by
  unfold respondWithReset
  by_cases rst : rth.fRst = true
  · rw [if_pos rst]
    exact ⟨fun _ off => absurd (rst.symm.trans off) (by decide), fun _ => conserved⟩
  · rw [if_neg rst]
    by_cases room : tcpHdrLen ≤ s.tcp.queueSpace
    · rw [sendPacketWithoutTcb_eq room]
      refine (conserved_of_tcp conserved ?_).trans ?_
      · rfl
      refine (@units_reply_iff L2 host s TcpHdr (fun _ => tcpHdrLen) s.tcp (resetHeader rth)
        room (by decide) preempted foreignIp).trans ?_
      exact ⟨fun known _ _ => known, fun resolves =>
        resolves (Bool.eq_false_of_not_eq_true rst) room⟩
    · unfold sendPacketWithoutTcb ReplyQueue.tryWait
      rw [if_neg room]
      exact ⟨fun _ _ fits => absurd fits room, fun _ => conserved⟩

/-- What `icmp::received` leads to. -/
theorem icmpReceived_cases {preempted : Bool} {p : Impl} {src : BitVec 32}
    (run : s.icmpReceived host preempted p src = .ok s') :
    (∃ reply : Impl, Requests p ∧ reply.len = p.len ∧ 0 < p.len ∧ p.len ≤ s.icmp.queueSpace ∧
      s' = { (s.getL2DstAddress host src).2 with
        icmp := ({ s.icmp with queueSpace := s.icmp.queueSpace - p.len }).andThen
          (s.getL2DstAddress host src).1 preempted src reply }) ∨
    (¬(Requests p ∧ p.len ≤ s.icmp.queueSpace) ∧ s' = s) := by
  have spec := received_reply ⟨s.icmp.queueSpace, []⟩ p src.toNat
  unfold icmpReceived at run
  cases answered : (Icmp.mk s.icmp.queueSpace []).received p src.toNat with
  | error e =>
      rw [answered] at run
      exact nomatch run
  | ok after =>
      rw [answered] at run spec
      cases run
      rcases spec with ⟨reply, request, length, long, room, rfl⟩ | ⟨none_, rfl⟩
      · exact .inl ⟨reply, request, length, long, room, rfl⟩
      · exact .inr ⟨none_, rfl⟩

theorem icmpReceived_conserved_iff (conserved : s.Conserved) {preempted : Bool} {p : Impl}
    {src : BitVec 32} (run : s.icmpReceived host preempted p src = .ok s') :
    s'.Conserved ↔ s.Resolves (.echo p src preempted) := by
  rcases icmpReceived_cases run with ⟨reply, request, length, long, room, rfl⟩ | ⟨none_, rfl⟩
  · refine (conserved_of_icmp conserved ?_).trans ?_
    · rfl
    · rw [← length] at long room ⊢
      refine (units_reply_iff room long preempted src).trans ?_
      exact ⟨fun known _ _ => known, fun resolves => resolves request (length ▸ room)⟩
  · exact ⟨fun _ request room => absurd ⟨request, room⟩ none_, fun _ => conserved⟩

/-- A continuation gets its address, or nothing for good. -/
theorem outcome_iff {P : Type} {q : ReplyQueue P L2} {i : Nat} {c : Continuation P L2}
    (here : q.waiting[i]? = some c) {outcome : Outcome L2}
    (known : s.outcome c.dst = some outcome) :
    outcome ≠ .timeoutError ↔ ∀ c ∈ q.waiting[i]?, s.outcome c.dst ≠ some .timeoutError := by
  constructor
  · intro answered c' there
    cases here.symm.trans there
    rw [known]
    exact fun bad => answered (Option.some.inj bad)
  · intro all bad
    exact all c here (bad ▸ known)

theorem provideTcp_conserved (conserved : s.Conserved) (hasPacket : Nat → Bool) :
    (s.provideTcp hasPacket).Conserved := by
  unfold provideTcp
  dsimp only
  split
  · exact ⟨(ReplyQueue.units_popFront s.tcp).trans conserved.1, conserved.2⟩
  · exact conserved

theorem icmpReceived_of_echo {p : Impl} {src : BitVec 32} {preempted : Bool}
    (next : s.step host (.echo p src preempted) = some s') :
    s.icmpReceived host preempted p src = .ok s' := by
  have next : (s.icmpReceived host preempted p src).toOption = some s' := next
  cases received : s.icmpReceived host preempted p src with
  | ok after =>
      rw [received] at next
      exact congrArg _ (Option.some.inj next)
  | error e =>
      rw [received] at next
      exact nomatch next

theorem step_conserved_iff (sound : s.Sound) (next : s.step host e = some s') :
    s'.Conserved ↔ s.Resolves e := by
  have kept (conserved : s'.Conserved) (resolves : s.Resolves e) :
      s'.Conserved ↔ s.Resolves e := iff_of_true conserved resolves
  cases e with
  | setHostAddress ip => cases next; exact kept sound.conserved trivial
  | setGwAddress ip => cases next; exact kept sound.conserved trivial
  | setNetmaskAddress ip => cases next; exact kept sound.conserved trivial
  | arp e =>
      obtain ⟨arp, -, rfl⟩ := Option.map_eq_some_iff.mp next
      exact kept sound.conserved trivial
  | reset rth foreignIp preempted =>
      cases next
      exact respondWithReset_conserved_iff sound.conserved preempted rth foreignIp
  | echo p src preempted =>
      exact icmpReceived_conserved_iff sound.conserved (icmpReceived_of_echo next)
  | settleTcp i =>
      obtain ⟨c, here, settled⟩ := Option.bind_eq_some_iff.mp next
      obtain ⟨outcome, known, rfl⟩ := Option.map_eq_some_iff.mp settled
      refine (conserved_of_tcp sound.conserved ?_).trans ?_
      · rfl
      -- a reset is a header, so its units are missed
      · exact (ReplyQueue.units_settle_iff here (by decide) outcome).trans (outcome_iff here known)
  | settleIcmp i =>
      obtain ⟨c, here, settled⟩ := Option.bind_eq_some_iff.mp next
      obtain ⟨outcome, known, rfl⟩ := Option.map_eq_some_iff.mp settled
      refine (conserved_of_icmp sound.conserved ?_).trans ?_
      · rfl
      -- so are those of an echo reply, of which none is empty
      · have long := sound.filled c (List.mem_of_getElem? here)
        exact (ReplyQueue.units_settle_iff here long outcome).trans (outcome_iff here known)
  | pollTcb b => cases next; exact kept sound.conserved trivial
  | provideTcp hasPacket =>
      cases next
      exact kept (provideTcp_conserved sound.conserved hasPacket) trivial
  | provideIcmp =>
      cases next
      exact kept ⟨sound.conserved.1, (ReplyQueue.units_popFront s.icmp).trans sound.conserved.2⟩
        trivial

theorem step_filled (filled : ∀ c ∈ s.icmp.waiting, 0 < c.p.len)
    (next : s.step host e = some s') : ∀ c ∈ s'.icmp.waiting, 0 < c.p.len := by
  cases e with
  | setHostAddress ip => cases next; exact filled
  | setGwAddress ip => cases next; exact filled
  | setNetmaskAddress ip => cases next; exact filled
  | arp e =>
      obtain ⟨arp, -, rfl⟩ := Option.map_eq_some_iff.mp next
      exact filled
  | reset rth foreignIp preempted =>
      cases next
      have same : (s.respondWithReset host preempted rth foreignIp).icmp = s.icmp := by
        unfold respondWithReset sendPacketWithoutTcb
        split
        · rfl
        · split <;> rfl
      rw [same]
      exact filled
  | echo p src preempted =>
      rcases icmpReceived_cases (icmpReceived_of_echo next) with
        ⟨reply, -, length, long, -, rfl⟩ | ⟨-, rfl⟩
      · intro c mem
        rcases ReplyQueue.mem_waiting_andThen mem with before | new
        · exact filled c before
        · rw [new, length]
          exact long
      · exact filled
  | settleTcp i =>
      obtain ⟨c, -, settled⟩ := Option.bind_eq_some_iff.mp next
      obtain ⟨outcome, -, rfl⟩ := Option.map_eq_some_iff.mp settled
      exact filled
  | settleIcmp i =>
      obtain ⟨c, -, settled⟩ := Option.bind_eq_some_iff.mp next
      obtain ⟨outcome, -, rfl⟩ := Option.map_eq_some_iff.mp settled
      exact fun c' mem => filled c' (ReplyQueue.mem_waiting_settle mem)
  | pollTcb b => cases next; exact filled
  | provideTcp hasPacket =>
      cases next
      unfold provideTcp
      dsimp only
      split <;> exact filled
  | provideIcmp =>
      cases next
      show ∀ c ∈ (s.icmp.popFront Impl.len).waiting, _
      rw [ReplyQueue.waiting_popFront]
      exact filled

/-- Units that are all there are free when nothing is on its way. -/
theorem Conserved.free (conserved : s.Conserved) : s.FreeWhenIdle := by
  obtain ⟨tcp, icmp⟩ := conserved
  unfold ReplyQueue.units at tcp icmp
  constructor
  · intro idle
    rw [idle.1, idle.2] at tcp
    exact tcp
  · intro idle
    rw [idle.1, idle.2] at icmp
    exact icmp

/-- The space of the replies is conserved exactly in the runs in which no lookup of
a reply fails. -/
theorem reply_space_conserved_iff {es : List (ReplyEvent L2)}
    (run : exec (step host) (start host) es = some s) :
    Always (step host) (fun s => s.Conserved ∧ s.FreeWhenIdle) (start host) es ↔
      Along (step host) Resolves (start host) es := by
  have begun : (start host).Sound := ⟨⟨rfl, rfl⟩, fun _ mem => absurd mem List.not_mem_nil⟩
  -- `Sound` carries the units through a step, and every step that fails shows after it
  refine Along.iff_always (I := Sound) (fun s sound => ?_) (fun s e s' sound resolves next => ?_)
    (fun s e s' sound next holds => ?_) begun run
  · exact ⟨sound.conserved, sound.conserved.free⟩
  · exact ⟨(step_conserved_iff sound next).mpr resolves, step_filled sound.filled next⟩
  · exact (step_conserved_iff sound next).mp holds.1

/-! ## A host that does not answer, and one that does -/

/-- Addresses of a link layer that are numbers. -/
def plainHost : ArpHost Nat (BitVec 32) where
  l2self := 1
  l2Broadcast := 0
  l3Broadcast := 0xffffffff
  arpHardwareType := 1
  arpProtocolType := 0x800
  l2Size := 6
  l3Size := 4

/-- A SYN for a port that nobody listens on. -/
def strayingSyn : TcpHdr where
  srcPort := 1000
  dstPort := 80
  seq := ⟨7⟩
  ack := ⟨0⟩
  dataOffset := 5
  fFin := false
  fSyn := true
  fRst := false
  fAck := false
  window := 0

/-- An echo request without data, in one fragment. -/
def pinged : Impl :=
  ⟨8, [.outside ping], defaultNrFrags, Impl.newData, internalDataSize⟩

/-- The address of neither sender can be resolved. -/
def unanswered : List (ReplyEvent Nat) :=
  [.reset strayingSyn 9 false, .echo pinged 9 false, .arp (.timeout 9), .settleTcp 0, .settleIcmp 0]

/-- The address of the sender is learnt in time. -/
def answered : List (ReplyEvent Nat) :=
  [.reset strayingSyn 9 false, .echo pinged 9 true, .arp (.learn 5 9), .settleTcp 0, .settleIcmp 0,
    .provideTcp fun _ => false, .provideIcmp]

theorem reply_space_leaks : ∃ s, exec (step plainHost) (start plainHost) unanswered = some s ∧
    s.tcp.Idle ∧ s.tcp.queueSpace = 212972 ∧ s.icmp.Idle ∧ s.icmp.queueSpace = 212984 ∧
    ¬s.Conserved :=
  ⟨_, rfl, ⟨rfl, rfl⟩, rfl, ⟨rfl, rfl⟩, rfl, fun bad => absurd bad.1 (by decide)⟩

theorem reply_space_conserved_answered :
    Always (step plainHost) (fun s => s.Conserved ∧ s.FreeWhenIdle) (start plainHost) answered := by
  refine (reply_space_conserved_iff rfl).mpr ?_
  refine ⟨fun _ _ full => absurd full.2 (by decide), fun s next => ?_⟩
  cases next
  refine ⟨fun _ _ full => absurd full.2 (by decide), fun s next => ?_⟩
  cases next
  refine ⟨trivial, fun s next => ?_⟩
  cases next
  refine ⟨fun c here => ?_, fun s next => ?_⟩
  · cases here
    decide
  cases next
  refine ⟨fun c here => ?_, fun s next => ?_⟩
  · cases here
    decide
  cases next
  exact ⟨trivial, fun _ _ => ⟨trivial, fun _ _ => trivial⟩⟩

end Replies

end ActorNet.Tcp
