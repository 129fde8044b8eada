import Mathlib.Logic.Function.Basic
import ActorNet.Lib.Links
import ActorNet.Lib.Run
import ActorNet.Net.Packet

/-!
# A virtio ring

The driver's side of a ring, `vring`, and the device at its other side. A posted
chain of buffers takes descriptors off the free list and links them by the same
`_next` that links the free list; the index of the first, its head, goes to the
device through the ring of available heads and comes back through the ring of
used ones, in any order. Indices of both rings are 16 bits and wrap.

Type and completion of the chains are parameters, as in the source. What is
written into the notification registers has no effect on the ring and is left
out. Steps that fail an assertion are `none`.
-/

namespace ActorNet.Virtio

open Lib

/-- `vring::desc`. -/
structure Desc where
  paddr : BitVec 64
  len : BitVec 32
  hasNext : Bool
  writeable : Bool
  indirect : Bool
  next : BitVec 16
  deriving DecidableEq, Repr

/-- `buffer`. -/
structure Buffer where
  addr : BitVec 64
  len : BitVec 32
  writeable : Bool
  deriving DecidableEq, Repr

/-- What a used chain comes back with: `used_elem::_len`, and `num_buffers` of the
header that the device puts at the begin of a packet it received. -/
structure Written where
  len : BitVec 32
  numBuffers : BitVec 16
  deriving DecidableEq, Repr

/-- `used_elem`. -/
structure UsedElem where
  id : BitVec 32
  written : Written
  deriving DecidableEq, Repr

/-- The `BufferChain` of a ring and its `Completion`, a functor with a state. The
completion signals the semaphore for the descriptors of the chain, or holds them
back for later; on a failed assertion it is `none`. -/
structure Completion (β σ : Type) where
  buffers : β → List Buffer
  complete : σ → β → Written → Option (σ × Nat)
  held : σ → Nat
  conserves : ∀ {c c' bc w n}, complete c bc w = some (c', n) →
    held c' + n = held c + (buffers bc).length

variable {β σ : Type}

/-- `vring`; a chain that was moved from is `none`, and so is the index -1. -/
structure Vring (β : Type) where
  size : Nat
  descs : Nat → Desc
  bufferChains : Nat → Option β
  availRing : Nat → BitVec 16
  availIdx : BitVec 16
  availHead : BitVec 16
  usedElements : Nat → UsedElem
  usedIdx : BitVec 16
  usedTail : BitVec 16
  availableDescriptors : Nat
  freeHead : Option Nat
  freeLast : Option Nat

namespace Vring

def masked (r : Vring β) (idx : BitVec 16) : Nat := idx.toNat &&& (r.size - 1)

def setDesc (r : Vring β) (i : Nat) (d : Desc) : Vring β :=
  { r with descs := Function.update r.descs i d }

/-- `allocate_desc`. -/
def allocateDesc (r : Vring β) : Option (Nat × Vring β) :=
  match r.freeHead with
  | none => none
  | some desc =>
      if r.freeLast = some desc then some (desc, { r with freeLast := none, freeHead := none })
      else some (desc, { r with freeHead := some (r.descs desc).next.toNat })

/-- The memory of the rings is zero before `setup`. -/
def setup (size : Nat) : Vring β where
  size := size
  descs i :=
    if i < size then ⟨0, 0, false, false, false, BitVec.ofNat 16 (i + 1)⟩
    else ⟨0, 0, false, false, false, 0⟩
  bufferChains _ := none
  availRing _ := 0
  availIdx := 0
  availHead := 0
  usedElements _ := ⟨0, 0, 0⟩
  usedIdx := 0
  usedTail := 0
  availableDescriptors := size
  freeHead := some 0
  freeLast := some (size - 1)

/-- `prev->_flags.has_next = true; prev->_next = desc_idx`. -/
def linkTo (r : Vring β) (prev idx : Nat) : Vring β :=
  r.setDesc prev { r.descs prev with hasNext := true, next := BitVec.ofNat 16 idx }

/-- The fields of a new descriptor; its link stays as it was. -/
def describe (r : Vring β) (idx : Nat) (b : Buffer) : Vring β :=
  r.setDesc idx ⟨b.addr, b.len, false, b.writeable, false, (r.descs idx).next⟩

/-- The loop of `post` over the buffers of a chain, behind the first. -/
def postBuffers : List Buffer → (prev : Nat) → Vring β → Option (Vring β)
  | [], _, r => some r
  | b :: bs, prev, r => do
      let (idx, r) ← r.allocateDesc
      postBuffers bs idx ((r.linkTo prev idx).describe idx b)

/-- The descriptors for a chain. The first is linked to the pseudo head, whose
`_next`, zero at first, becomes `desc_head`. -/
def postDescs (bufs : List Buffer) (r : Vring β) : Option (BitVec 16 × Vring β) :=
  match bufs with
  | [] => some (0, r)
  | b :: bs => do
      let (idx, r) ← r.allocateDesc
      let r ← postBuffers bs idx (r.describe idx b)
      some (BitVec.ofNat 16 idx, r)

/-- The turn of `post` for one chain, with the head it gets. -/
def postChain (c : Completion β σ) (r : Vring β) (bc : β) : Option (Nat × Vring β) := do
  let (head, r) ← postDescs (c.buffers bc) r
  some (head.toNat, { r with
    bufferChains := Function.update r.bufferChains head.toNat (some bc)
    availRing := Function.update r.availRing (r.masked r.availHead) head
    availHead := r.availHead + 1 })

/-- `post`, with the heads of the chains. -/
def post (c : Completion β σ) : List β → Vring β → Option (List Nat × Vring β)
  | [], r => some ([], { r with availIdx := r.availHead })
  | bc :: bcs, r => do
      let (head, r) ← r.postChain c bc
      let (heads, r) ← post c bcs r
      some (head :: heads, r)

/-- The walk of `do_complete` to the end of a chain; no chain is longer than the
ring. -/
def chainEnd (r : Vring β) : Nat → Nat → Option Nat
  | 0, _ => none
  | fuel + 1, id =>
      let d := r.descs id
      if d.hasNext then r.chainEnd fuel d.next.toNat else some id

/-- A chain goes back to the end of the free list. -/
def splice (r : Vring β) (id : Nat) : Option (Vring β) :=
  let r := match r.freeLast with
    | some last => r.setDesc last { r.descs last with next := BitVec.ofNat 16 id }
    | none => { r with freeHead := some id }
  (r.chainEnd r.size id).map fun last => { r with freeLast := some last }

/-- The turn of `do_complete` for one used element, with what was delivered. -/
def completeOne (c : Completion β σ) (r : Vring β) (s : σ) :
    Option ((Nat × β × Written) × Vring β × σ) := do
  let ue := r.usedElements (r.masked r.usedTail)
  let id := ue.id.toNat
  let bc ← r.bufferChains id
  let (s, n) ← c.complete s bc ue.written
  let r ← { r with
    usedTail := r.usedTail + 1
    bufferChains := Function.update r.bufferChains id none
    availableDescriptors := r.availableDescriptors + n }.splice id
  some ((id, bc, ue.written), r, s)

/-- The loop of `do_complete` over the used elements. -/
def completeAll (c : Completion β σ) : Nat → Vring β → σ →
    Option (List (Nat × β × Written) × Vring β × σ)
  | 0, r, s => some ([], r, s)
  | n + 1, r, s => do
      let (d, r, s) ← r.completeOne c s
      let (ds, r, s) ← completeAll c n r s
      some (d :: ds, r, s)

/-- `do_complete`; the tail moves up to the head, around 2^16. -/
def doComplete (c : Completion β σ) (r : Vring β) (s : σ) :
    Option (List (Nat × β × Written) × Vring β × σ) :=
  completeAll c (r.usedIdx - r.usedTail).toNat r s

end Vring

/-! ## The ring with its users -/

/-- What happens to the chain under a head. -/
inductive Event (β : Type) where
  | posted (head : Nat) (bc : β)
  | returned (head : Nat) (w : Written)
  | delivered (head : Nat) (bc : β) (w : Written)
  deriving DecidableEq, Repr

/-- The ring and the state of its completion, the units that were taken from the
semaphore for chains not yet posted, and the device: its index in the ring of
available heads, and the heads it has taken from there and not returned. The
log only records. -/
structure Sys (β σ : Type) where
  ring : Vring β
  completion : σ
  waited : Nat
  deviceIdx : BitVec 16
  taken : List Nat
  log : List (Event β)

inductive Action (β : Type) where
  /-- `wait`, or a `try_wait` that succeeds, on the available descriptors. -/
  | wait (n : Nat)
  | post (bcs : List β)
  /-- The device takes the next available head. -/
  | take
  /-- The device returns a head. -/
  | giveBack (head : Nat) (w : Written)
  /-- `do_complete`. -/
  | poll
  deriving DecidableEq, Repr

/-- A semaphore gives no more than it has; posting is guarded by it, with chains
that are not empty; the device takes what is there, and returns what it took. -/
def Sys.Admissible (c : Completion β σ) (s : Sys β σ) : Action β → Prop
  | .wait n => n ≤ s.ring.availableDescriptors
  | .post bcs => (∀ bc ∈ bcs, c.buffers bc ≠ []) ∧
      (bcs.map fun bc => (c.buffers bc).length).sum ≤ s.waited
  | .take => s.deviceIdx ≠ s.ring.availIdx
  | .giveBack head _ => head ∈ s.taken
  | .poll => True

def Sys.step (c : Completion β σ) (s : Sys β σ) : Action β → Option (Sys β σ)
  | .wait n => some { s with
      ring := { s.ring with availableDescriptors := s.ring.availableDescriptors - n }
      waited := s.waited + n }
  | .post bcs => do
      let (heads, ring) ← s.ring.post c bcs
      some { s with
        ring := ring
        waited := s.waited - (bcs.map fun bc => (c.buffers bc).length).sum
        log := s.log ++ (heads.zip bcs).map fun (head, bc) => .posted head bc }
  | .take => some { s with
      deviceIdx := s.deviceIdx + 1
      taken := s.taken ++ [(s.ring.availRing (s.ring.masked s.deviceIdx)).toNat] }
  | .giveBack head w => some { s with
      ring := { s.ring with
        usedElements := Function.update s.ring.usedElements (s.ring.masked s.ring.usedIdx)
          ⟨BitVec.ofNat 32 head, w⟩
        usedIdx := s.ring.usedIdx + 1 }
      taken := s.taken.erase head
      log := s.log ++ [.returned head w] }
  | .poll => do
      let (delivered, ring, completion) ← s.ring.doComplete c s.completion
      some { s with
        ring := ring
        completion := completion
        log := s.log ++ delivered.map fun (head, bc, w) => .delivered head bc w }

instance (c : Completion β σ) (s : Sys β σ) : ∀ a, Decidable (s.Admissible c a)
  | .wait n => inferInstanceAs (Decidable (n ≤ s.ring.availableDescriptors))
  | .post bcs => inferInstanceAs (Decidable ((∀ bc ∈ bcs, c.buffers bc ≠ []) ∧
      (bcs.map fun bc => (c.buffers bc).length).sum ≤ s.waited))
  | .take => inferInstanceAs (Decidable (s.deviceIdx ≠ s.ring.availIdx))
  | .giveBack head _ => inferInstanceAs (Decidable (head ∈ s.taken))
  | .poll => .isTrue trivial

/-- After `setup`, with the completion in a state in which it holds nothing. -/
def Sys.start (size : Nat) (completion : σ) : Sys β σ :=
  ⟨Vring.setup size, completion, 0, 0, [], []⟩

/-! ## The two queues of `qp` -/

/-- `txq::fragment_to_buffer`, for the addresses that `virt_to_phys` gives. -/
def fragmentToBuffer (virtToPhys : Net.Fragment → BitVec 64) (f : Net.Fragment) : Buffer :=
  ⟨virtToPhys f, BitVec.ofNat 32 f.size, false⟩

/-- `txq::packet_as_buffer_chain` and `txq::complete`. -/
def txq (virtToPhys : Net.Fragment → BitVec 64) : Completion Net.Impl Unit where
  buffers p := p.frags.map (fragmentToBuffer virtToPhys)
  complete _ p _ := some ((), p.frags.length)
  held _ := 0
  conserves done := by
    cases done
    rw [List.length_map]

/-- The loop of `txq::post`: the packets that get a header and a place in the
ring, and those that are left in the queue. -/
def txqTake (vhdr : Net.Impl → List Byte) :
    List Net.Impl → (current : Nat) → Except Net.Fault (List Net.Impl × List Net.Impl)
  | [], _ => .ok ([], [])
  | p :: pb, current =>
      if p.frags.length + 1 ≤ current then do
        let q ← p.prepend (vhdr p)
        if q.frags.length ≤ current then do
          let (packets, left) ← txqTake vhdr pb (current - q.frags.length)
          .ok (q :: packets, left)
        else .error .assertion
      else .ok ([], p :: pb)

/-- What `txq::post` asks of the ring. -/
def txqPost (packets : List Net.Impl) : List (Action Net.Impl) :=
  (packets.map fun q => .wait q.frags.length) ++ [.post packets]

/-- The members of `rxq` that change, and the packets it has received. -/
structure Rxq where
  remainingBuffers : Nat
  fragments : List (BitVec 64 × BitVec 64)
  received : List (List (BitVec 64 × BitVec 64))
  deriving DecidableEq, Repr

/-- `rxq::complete_buffer`, with the number it signals. -/
def Rxq.completeBuffer (headerLen : BitVec 64) (q : Rxq) (b : Buffer) (w : Written) :
    Option (Rxq × Nat) :=
  let first := q.remainingBuffers = 0
  if first ∧ w.numBuffers = 0 then none
  else
    let len := w.len.setWidth 64
    let frag := if first then (b.addr + headerLen, len - headerLen) else (b.addr, len)
    let fragments := (if first then [] else q.fragments) ++ [frag]
    let remaining := (if first then w.numBuffers.toNat else q.remainingBuffers) - 1
    if remaining = 0 then some (⟨0, fragments, q.received ++ [fragments]⟩, fragments.length)
    else some (⟨remaining, fragments, q.received⟩, 0)

/-- `rxq::single_buffer` and `rxq::complete`. The buffers of a packet that is not
whole are held back. -/
def rxq (headerLen : BitVec 64) : Completion Buffer Rxq where
  buffers b := [b]
  complete := Rxq.completeBuffer headerLen
  held q := if q.remainingBuffers = 0 then 0 else q.fragments.length
  conserves {q q' b w n} done := by
    unfold Rxq.completeBuffer at done
    by_cases first : q.remainingBuffers = 0
    · simp only [first, true_and, if_true] at done ⊢
      split at done
      · cases done
      · split at done
        · cases done
          rfl
        · rename_i more
          cases done
          rw [if_neg more]
          rfl
    · simp only [first, false_and, if_false] at done ⊢
      split at done
      · cases done
        simp
      · rename_i more
        cases done
        rw [if_neg more]
        simp

/-- What `rxq::prepare_buffers` asks of the ring once its `wait(1)` is through:
all that is there besides, and a buffer for each. -/
def prepareBuffers (current : Nat) (makeBufferChain : Nat → Buffer) : List (Action Buffer) :=
  [.wait current, .post ((List.range (1 + current)).map makeBufferChain)]

end ActorNet.Virtio
