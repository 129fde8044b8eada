import ActorNet.Lib.Weights
import ActorNet.Net.ReassemblyComplete

/-!
# The memory of fragments

`ipv4` keeps three things about the datagrams it puts together: the map `_frags`,
the list `_frags_age` of its keys and the counter `_frag_mem` of its memory. The
limit on the memory, the timer, a fragment and a datagram that is complete each
change all three, and the timer is armed as long as there is something to drop.
-/

namespace ActorNet.Net

open Lib

/-- `sizeof(packet::impl)`, which the compiler settles. -/
structure ImplSize where
  bytes : Nat
  positive : 0 < bytes
  small : bytes ≤ 2 ^ 30

/-- `_frag_timeout`, in milliseconds. -/
def fragTimeout : Nat := 30 * 1000

/-- `_frag_low_thresh`. -/
def fragLowThresh : BitVec 32 := BitVec.ofNat 32 (3 * 1024 * 1024)

/-- `_frag_high_thresh`. -/
def fragHighThresh : BitVec 32 := BitVec.ofNat 32 (4 * 1024 * 1024)

/-- `packet::memory`, of a packet of so many bytes. -/
def packetMemory (unit : ImplSize) (len : Nat) : BitVec 32 := BitVec.ofNat 32 (len + unit.bytes)

/-- What a datagram that is being put together takes up: `mem_size`, as
`ipv4::frag::merge` adds it up. -/
def Frag.memSize (unit : ImplSize) (f : Frag) : BitVec 32 :=
  f.data.foldl (fun size x => size + packetMemory unit x.2.length)
    (packetMemory unit f.header.length)

/-- `ipv4::frag`, with its time and its size. -/
structure FragEntry where
  frag : Frag
  rxTime : Nat
  memSize : BitVec 32

def FragEntry.new : FragEntry := ⟨.empty, 0, 0⟩

/-- `ipv4::frag::merge`. What it returns is the difference of the two sizes. -/
def FragEntry.merge (unit : ImplSize) (e : FragEntry) (h : IpHdr) (offset : Nat)
    (p : List Byte) : Option FragEntry :=
  (e.frag.merge h offset p).map fun f => { e with frag := f, memSize := f.memSize unit }

/-- `_frags`, `_frags_age` with the oldest first, `_frag_mem`, the time
`_frag_timer` is armed for, and what was handed on, the last first. -/
structure FragTable where
  frags : AList fun _ : FragId => FragEntry
  age : List FragId
  mem : BitVec 32
  timer : Option Nat
  handed : List Handed

namespace FragTable

/-- `_frags[frag_id]`, which makes the entry that is not there. -/
def entry (a : FragTable) (id : FragId) : FragTable × FragEntry :=
  match a.frags.lookup id with
  | some e => (a, e)
  | none => ({ a with frags := a.frags.insert id .new }, .new)

/-- `ipv4::frag_drop`. -/
def fragDrop (a : FragTable) (id : FragId) (droppedSize : BitVec 32) : FragTable :=
  { a with frags := a.frags.erase id, mem := a.mem - droppedSize }

/-- `ipv4::frag_arm`. -/
def fragArm (a : FragTable) (now : Nat) : FragTable := { a with timer := some (now + fragTimeout) }

/-- The loop of `ipv4::frag_limit_mem`, over `_frags_age`. -/
def dropOldest : List FragId → BitVec 32 → FragTable → FragTable
  | [], _, a => { a with age := [] }
  | id :: age, drop, a =>
      if drop = 0 then { a with age := id :: age }
      else
        let (a, frag) := a.entry id
        let droppedSize := frag.memSize
        dropOldest age (drop - if droppedSize < drop then droppedSize else drop)
          (a.fragDrop id droppedSize)

/-- `ipv4::frag_limit_mem`. -/
def fragLimitMem (a : FragTable) : FragTable :=
  if a.mem ≤ fragHighThresh then a else dropOldest a.age (a.mem - fragLowThresh) a

/-- The loop of `ipv4::frag_timeout`, over `_frags_age`. -/
def dropExpired (now : Nat) : List FragId → FragTable → FragTable
  | [], a => { a with age := [] }
  | id :: age, a =>
      let (a, frag) := a.entry id
      if frag.rxTime + fragTimeout < now then dropExpired now age (a.fragDrop id frag.memSize)
      else { a with age := id :: age }

/-- `ipv4::frag_timeout`. -/
def fragExpire (a : FragTable) (now : Nat) : FragTable :=
  if a.frags.entries.isEmpty then a
  else
    let a := dropExpired now a.age a
    if a.frags.entries.isEmpty then { a with mem := 0 } else a.fragArm now

/-- The part of `handle_received_packet` for a fragment, from `frag.merge` on. -/
def mergeFrag (unit : ImplSize) (r : Receiver) (a : FragTable) (now : Nat) (h : IpHdr)
    (p : List Byte) (e : FragEntry) : Option FragTable :=
  (e.merge unit h h.offset p).map fun e' =>
    let a := { a with mem := a.mem + (e'.memSize - e.memSize) }
    if e'.frag.isComplete then
      let droppedSize := e'.memSize
      let a := { a with handed := r.handOn h e'.frag ++ a.handed }
      let a := a.fragDrop h.fragId droppedSize
      { a with age := a.age.filter (· ≠ h.fragId) }
    else
      let a := { a with frags := a.frags.insert h.fragId e' }
      if a.timer.isSome then a else a.fragArm now

/-- The part of `handle_received_packet` for a fragment. -/
def handleFrag (unit : ImplSize) (r : Receiver) (a : FragTable) (now : Nat) (h : IpHdr)
    (p : List Byte) : Option FragTable :=
  let a := a.fragLimitMem
  let (a, e) := a.entry h.fragId
  let e := if h.mf then e else { e with frag := { e.frag with lastFragReceived := true } }
  if e.memSize = 0 then
    { a with age := a.age ++ [h.fragId] }.mergeFrag unit r now h p { e with rxTime := now }
  else a.mergeFrag unit r now h p e

/-- `ipv4::handle_received_packet`, behind the checks at the door. -/
def handleReceivedPacket (unit : ImplSize) (r : Receiver) (a : FragTable) (now : Nat)
    (reassembled : Bool) (p : List Byte) : Option FragTable :=
  match r.accepted reassembled p with
  | none => some a
  | some (h, q) =>
      if h.Fragmented then a.handleFrag unit r now h q
      else match l4 h.ipProto with
        | none => some a
        | some protoNum => (PacketMerger.trimFront (h.ihl * 4) q).map fun q =>
            { a with handed := .received protoNum q h.srcIp h.dstIp :: a.handed }

/-- Nothing is being put together. -/
def empty : FragTable := ⟨∅, [], 0, none, []⟩

/-- A packet comes in, or the timer expires. -/
inductive Event
  | packet (now : Nat) (reassembled : Bool) (p : List Byte)
  | timer (now : Nat)
  deriving DecidableEq, Repr

/-- One event. The timer expires no earlier than it is armed for, and is not armed
when its callback runs. -/
def step (unit : ImplSize) (r : Receiver) (a : FragTable) : Event → Option FragTable
  | .packet now reassembled p => a.handleReceivedPacket unit r now reassembled p
  | .timer now =>
      if a.timer.any (· ≤ now) then some ({ a with timer := none }.fragExpire now) else none

variable {unit : ImplSize} {r : Receiver} {a a' : FragTable} {id : FragId} {age : List FragId}

theorem entry_some {e : FragEntry} (found : a.frags.lookup id = some e) : a.entry id = (a, e) := by
  unfold entry
  rw [found]

theorem entry_none (absent : a.frags.lookup id = none) :
    a.entry id = ({ a with frags := a.frags.insert id .new }, .new) := by
  unfold entry
  rw [absent]

/-! ## Books -/

/-- The counter is the sum of the sizes, and the keys are listed once each. -/
structure Books (age : List FragId) (a : FragTable) : Prop where
  mem : a.mem.toNat = weigh (fun e => e.memSize.toNat) a.frags
  nodup : age.Nodup
  keys : ∀ id, id ∈ age ↔ id ∈ a.frags

/-- Dropping the oldest. -/
theorem Books.drop (books : Books (id :: age) a) : ∃ e, a.entry id = (a, e) ∧
    a.frags.lookup id = some e ∧ Books age (a.fragDrop id e.memSize) ∧
      (a.fragDrop id e.memSize).mem.toNat + e.memSize.toNat = a.mem.toNat := by
  have there := AList.lookup_isSome.mpr ((books.keys id).mp List.mem_cons_self)
  obtain ⟨e, found⟩ := Option.isSome_iff_exists.mp there
  obtain ⟨fresh, nodup⟩ := List.nodup_cons.mp books.nodup
  have rest := @weigh_erase _ _ (fun e => e.memSize.toNat) _ _ _ _ found
  have mem := books.mem
  have less : (a.mem - e.memSize).toNat = weigh (fun e => e.memSize.toNat) (a.frags.erase id) := by
    rw [BitVec.toNat_sub_of_le]
    · omega
    · rw [BitVec.le_def]
      omega
  refine ⟨e, entry_some found, found, ⟨less, nodup, fun id' => ?_⟩, ?_⟩
  · show _ ↔ id' ∈ a.frags.erase id
    rw [AList.mem_erase, ← books.keys id', List.mem_cons]
    constructor
    · exact fun mem => ⟨fun same => fresh (same ▸ mem), .inr mem⟩
    · exact fun ⟨other, mem⟩ => mem.resolve_left other
  · show (a.mem - e.memSize).toNat + e.memSize.toNat = _
    omega

/-- `a'` is `a` without some of the oldest. -/
structure Sheds (age : List FragId) (a a' : FragTable) : Prop where
  books : Books a'.age a'
  suffix : a'.age <:+ age
  kept : ∀ id e, a'.frags.lookup id = some e → a.frags.lookup id = some e
  less : a'.mem.toNat ≤ a.mem.toNat
  timer : a'.timer = a.timer
  handed : a'.handed = a.handed

theorem Books.sheds (books : Books age a) : Sheds age a { a with age := age } :=
  ⟨⟨books.mem, books.nodup, books.keys⟩, List.suffix_rfl, fun _ _ found => found, le_rfl, rfl, rfl⟩

theorem Sheds.more {size : BitVec 32} (sheds : Sheds age (a.fragDrop id size) a')
    (less : (a.fragDrop id size).mem.toNat ≤ a.mem.toNat) : Sheds (id :: age) a a' := by
  refine ⟨sheds.books, sheds.suffix.trans (List.suffix_cons id age), fun id' e found => ?_,
    sheds.less.trans less, sheds.timer, sheds.handed⟩
  have found := sheds.kept id' e found
  by_cases same : id' = id
  · subst same
    rw [fragDrop, AList.lookup_erase] at found
    cases found
  · rwa [fragDrop, AList.lookup_erase_ne same] at found

/-- The loop of the limit drops what it is to drop, or everything. -/
theorem dropOldest_sheds (drop : BitVec 32) (books : Books age a) :
    Sheds age a (dropOldest age drop a) ∧
      ((dropOldest age drop a).mem.toNat + drop.toNat ≤ a.mem.toNat ∨
        (dropOldest age drop a).age = []) := by
  induction age generalizing drop a with
  | nil => exact ⟨books.sheds, .inr rfl⟩
  | cons id age ih =>
      by_cases done : drop = 0
      · rw [dropOldest, if_pos done]
        refine ⟨books.sheds, .inl ?_⟩
        rw [done]
        exact Nat.le_refl _
      · obtain ⟨e, entry, _, books', less⟩ := books.drop
        rw [dropOldest, if_neg done, entry]
        dsimp only
        obtain ⟨sheds, enough⟩ :=
          ih (drop - if e.memSize < drop then e.memSize else drop) books'
        refine ⟨sheds.more (by omega), enough.imp_left fun enough => ?_⟩
        have left : (drop - if e.memSize < drop then e.memSize else drop).toNat =
            drop.toNat - e.memSize.toNat := by
          split
          · rename_i smaller
            rw [BitVec.toNat_sub_of_le (BitVec.le_of_lt smaller)]
          · rename_i larger
            rw [BitVec.sub_self]
            rw [BitVec.not_lt, BitVec.le_def] at larger
            exact (Nat.sub_eq_zero_of_le larger).symm
        rw [left] at enough
        omega

/-- Nothing listed, nothing counted. -/
theorem Books.nothing (books : Books [] a) : a.frags = ∅ ∧ a.mem.toNat = 0 := by
  have empty : a.frags = ∅ :=
    eq_empty_of_no_key fun id mem => List.not_mem_nil ((books.keys id).mpr mem)
  exact ⟨empty, by rw [books.mem, empty]; rfl⟩

theorem fragLimitMem_spec (books : Books a.age a) :
    Sheds a.age a a.fragLimitMem ∧ a.fragLimitMem.mem ≤ fragHighThresh := by
  unfold fragLimitMem
  by_cases within : a.mem ≤ fragHighThresh
  · rw [if_pos within]
    exact ⟨books.sheds, within⟩
  · rw [if_neg within]
    obtain ⟨sheds, enough⟩ := dropOldest_sheds (a.mem - fragLowThresh) books
    refine ⟨sheds, ?_⟩
    have low : fragLowThresh.toNat = 3145728 := rfl
    have high : fragHighThresh.toNat = 4194304 := rfl
    rw [BitVec.le_def] at within ⊢
    rcases enough with enough | nothing
    · rw [BitVec.toNat_sub_of_le (by rw [BitVec.le_def]; omega)] at enough
      omega
    · have books' := sheds.books
      rw [nothing] at books'
      rw [books'.nothing.2]
      exact Nat.zero_le _

theorem dropExpired_sheds (now : Nat) (books : Books age a) :
    Sheds age a (dropExpired now age a) := by
  induction age generalizing a with
  | nil => exact books.sheds
  | cons id age ih =>
      obtain ⟨e, entry, _, books', less⟩ := books.drop
      rw [dropExpired, entry]
      dsimp only
      split
      · exact (ih books').more (by omega)
      · exact books.sheds

/-! ## Sizes -/

/-- What a datagram that is being put together takes up, as a number. -/
def memory (unit : ImplSize) (f : Frag) : Nat :=
  f.header.length + unit.bytes + PacketMerger.weight unit.bytes f.data

theorem memSize_eq (unit : ImplSize) (f : Frag) :
    f.memSize unit = BitVec.ofNat 32 (memory unit f) := by
  have sum (m : PacketMerger.Map (BitVec 32)) (n : Nat) :
      m.foldl (fun size x => size + packetMemory unit x.2.length) (BitVec.ofNat 32 n) =
        BitVec.ofNat 32 (n + PacketMerger.weight unit.bytes m) := by
    induction m generalizing n with
    | nil => rfl
    | cons x m ih =>
        rw [List.foldl_cons, packetMemory, ← BitVec.ofNat_add, ih, PacketMerger.weight_cons,
          Nat.add_assoc]
  exact sum f.data _

/-- A fragment more. -/
theorem merge_memory {f f' : Frag} {h : IpHdr} {offset : Nat} {p : List Byte}
    (merged : f.merge h offset p = some f') :
    memory unit f' ≤ memory unit f + p.length + unit.bytes := by
  have within := Frag.merge_within merged
  simp only [Frag.merge, PacketMerger.trimFront, if_pos within, Option.bind_eq_bind,
    Option.bind_some, Option.bind_eq_some_iff, Option.some.injEq] at merged
  obtain ⟨data, merged, rfl⟩ := merged
  have heavier := PacketMerger.merge_weight unit.bytes merged
  rw [List.length_drop] at heavier
  have header : (if offset = 0 then p.take (h.ihl * 4) else f.header).length ≤
      f.header.length + h.ihl * 4 := by
    split
    · rw [List.length_take]
      omega
    · omega
  simp only [memory]
  omega

/-! ## What the accounts leave to the receive path -/

/-- The receive path without the accounts. -/
def forget (a : FragTable) : ReceiveState :=
  ⟨fun id => (a.frags.lookup id).map FragEntry.frag, a.handed⟩

theorem lookup_insert_forget (m : AList fun _ : FragId => FragEntry) (id : FragId)
    (e : FragEntry) : (fun id' => ((m.insert id e).lookup id').map FragEntry.frag) =
      Function.update (fun id' => (m.lookup id').map FragEntry.frag) id (some e.frag) := by
  funext id'
  by_cases same : id' = id
  · rw [same, AList.lookup_insert, Function.update_self]
    rfl
  · rw [AList.lookup_insert_ne same, Function.update_of_ne same]

theorem lookup_erase_forget (m : AList fun _ : FragId => FragEntry) (id : FragId) :
    (fun id' => ((m.erase id).lookup id').map FragEntry.frag) =
      Function.update (fun id' => (m.lookup id').map FragEntry.frag) id none := by
  funext id'
  by_cases same : id' = id
  · rw [same, AList.lookup_erase, Function.update_self]
    rfl
  · rw [AList.lookup_erase_ne same, Function.update_of_ne same]

theorem mergeFrag_forget (now : Nat) (h : IpHdr) (p : List Byte) (e : FragEntry) :
    (a.mergeFrag unit r now h p e).map forget = (e.frag.merge h h.offset p).map fun f' =>
      if f'.isComplete then
        ⟨Function.update a.forget.frags h.fragId none, r.handOn h f' ++ a.handed⟩
      else ⟨Function.update a.forget.frags h.fragId (some f'), a.handed⟩ := by
  unfold mergeFrag FragEntry.merge
  rw [Option.map_map, Option.map_map]
  congr 1
  funext f'
  by_cases complete : f'.isComplete
  · simp only [Function.comp_apply, complete, if_true, forget, fragDrop, lookup_erase_forget]
  · simp only [Function.comp_apply, complete]
    by_cases armed : a.timer.isSome <;>
      simp only [Bool.false_eq_true, if_false, armed, if_true, forget, fragArm,
        lookup_insert_forget]

/-- Merged into an entry that is marked already. -/
theorem handleFrag_map {s : ReceiveState} {h : IpHdr} {f : Frag} (p : List Byte)
    (marked : f = (let f := (s.frags h.fragId).getD .empty
      if h.mf then f else { f with lastFragReceived := true })) :
    r.handleFrag s h p = (f.merge h h.offset p).map fun f' =>
      if f'.isComplete then ⟨Function.update s.frags h.fragId none, r.handOn h f' ++ s.handed⟩
      else ⟨Function.update s.frags h.fragId (some f'), s.handed⟩ := by
  cases merged : f.merge h h.offset p with
  | none =>
      rw [marked] at merged
      exact Option.bind_eq_none_iff.mpr fun f' merged' => nomatch merged.symm.trans merged'
  | some f' =>
      rw [marked] at merged
      rw [Receiver.handleFrag_eq merged]
      rfl

/-- Behind the limit it is the receive path. -/
theorem handleFrag_forget (now : Nat) (h : IpHdr) (p : List Byte) :
    (a.handleFrag unit r now h p).map forget = r.handleFrag a.fragLimitMem.forget h p := by
  unfold handleFrag
  dsimp only
  cases here : a.fragLimitMem.frags.lookup h.fragId with
  | some e =>
      have found : a.fragLimitMem.forget.frags h.fragId = some e.frag :=
        congrArg (Option.map FragEntry.frag) here
      rw [entry_some here]
      dsimp only
      generalize marked : (if h.mf then e else _) = e'
      have same : e'.frag = (let f := (a.fragLimitMem.forget.frags h.fragId).getD .empty
          if h.mf then f else { f with lastFragReceived := true }) := by
        rw [found, ← marked]
        cases h.mf <;> rfl
      by_cases fresh : e'.memSize = 0
      · rw [if_pos fresh, mergeFrag_forget]
        exact (handleFrag_map p same).symm
      · rw [if_neg fresh, mergeFrag_forget]
        exact (handleFrag_map p same).symm
  | none =>
      have absent : a.fragLimitMem.forget.frags h.fragId = none :=
        congrArg (Option.map FragEntry.frag) here
      rw [entry_none here]
      dsimp only
      generalize marked : (if h.mf then FragEntry.new else _) = e'
      have same : e'.frag = (let f := (a.fragLimitMem.forget.frags h.fragId).getD .empty
          if h.mf then f else { f with lastFragReceived := true }) := by
        rw [absent, ← marked]
        cases h.mf <;> rfl
      by_cases fresh : e'.memSize = 0
      · rw [if_pos fresh, mergeFrag_forget, handleFrag_map p same]
        simp only [forget, lookup_insert_forget, Function.update_idem]
      · rw [if_neg fresh, mergeFrag_forget, handleFrag_map p same]
        simp only [forget, lookup_insert_forget, Function.update_idem]

/-- Entries go to make room before a fragment, and only then. -/
def roomFor (r : Receiver) (a : FragTable) (reassembled : Bool) (p : List Byte) : FragTable :=
  if (r.accepted reassembled p).any fun x => x.1.Fragmented then a.fragLimitMem else a

theorem handleReceivedPacket_forget (now : Nat) (reassembled : Bool) (p : List Byte) :
    (a.handleReceivedPacket unit r now reassembled p).map forget =
      r.handleReceivedPacket reassembled (a.roomFor r reassembled p).forget p := by
  rw [Receiver.handleReceivedPacket_eq]
  unfold handleReceivedPacket roomFor
  cases door : r.accepted reassembled p with
  | none => rfl
  | some x =>
      obtain ⟨h, q⟩ := x
      dsimp only
      by_cases fragmented : h.Fragmented
      · rw [if_pos fragmented, if_pos fragmented, handleFrag_forget, if_pos]
        exact decide_eq_true fragmented
      · rw [if_neg fragmented, if_neg fragmented, if_neg]
        · cases l4 h.ipProto with
          | none => rfl
          | some protoNum =>
              dsimp only
              rw [Option.map_map]
              rfl
        · exact fun any => fragmented (of_decide_eq_true any)

/-! ## The invariant -/

/-- A table beside a count of the events, and the event that made each entry. -/
structure Dated where
  table : FragTable
  ticks : Nat
  born : FragId → Nat

def Dated.start : Dated := ⟨empty, 0, fun _ => 0⟩

/-- The entry that a packet makes, if it makes one. -/
def makes (r : Receiver) (a : FragTable) : Event → Option FragId
  | .packet _ reassembled p => (r.accepted reassembled p).bind fun (h, _) =>
      if h.Fragmented ∧ (a.fragLimitMem.frags.lookup h.fragId).isNone then some h.fragId else none
  | .timer _ => none

def Dated.step (unit : ImplSize) (r : Receiver) (w : Dated) (e : Event) : Option Dated :=
  (w.table.step unit r e).map fun a =>
    ⟨a, w.ticks + 1, match makes r w.table e with
      | some id => Function.update w.born id w.ticks
      | none => w.born⟩

/-- The most there is between two events: the high threshold and one fragment
more, with a header of its own. -/
def memLimit (unit : ImplSize) : Nat := 4 * 1024 * 1024 + ipPacketLenMax + 2 * unit.bytes

/-- The accounts are in order. -/
structure Accounted (unit : ImplSize) (w : Dated) : Prop where
  /-- `_frag_mem` is the sum of the sizes, and `_frags_age` lists the keys once each. -/
  books : Books w.table.age w.table
  /-- Each size is what its entry takes up. -/
  sizes : ∀ id e, w.table.frags.lookup id = some e → e.memSize.toNat = memory unit e.frag
  bound : w.table.mem.toNat ≤ memLimit unit
  /-- The keys are in the order in which the entries were made. -/
  order : w.table.age.Pairwise fun id id' => w.born id < w.born id'
  past : ∀ id ∈ w.table.age, w.born id < w.ticks
  armed : ∀ id ∈ w.table.frags, w.table.timer.isSome

theorem accounted_start (unit : ImplSize) : Accounted unit Dated.start := by
  refine ⟨⟨rfl, List.nodup_nil, fun id => ?_⟩, fun id e found => ?_, Nat.zero_le _,
    List.Pairwise.nil, fun id mem => absurd mem List.not_mem_nil, fun id mem => ?_⟩
  · exact ⟨fun mem => absurd mem List.not_mem_nil, fun mem => absurd mem (AList.notMem_empty id)⟩
  · cases found
  · exact absurd mem (AList.notMem_empty id)

variable {w : Dated}

/-- What is left of the entries is in order. -/
theorem Accounted.shed (accounted : Accounted unit w) (books : Books a'.age a')
    (older : a'.age.Sublist w.table.age)
    (kept : ∀ id e, a'.frags.lookup id = some e → w.table.frags.lookup id = some e)
    (less : a'.mem.toNat ≤ w.table.mem.toNat) (armed : ∀ id ∈ a'.frags, a'.timer.isSome) :
    Accounted unit ⟨a', w.ticks + 1, w.born⟩ where
  books := books
  sizes id e found := accounted.sizes id e (kept id e found)
  bound := less.trans accounted.bound
  order := accounted.order.sublist older
  past id mem := Nat.lt_succ_of_lt (accounted.past id (older.subset mem))
  armed := armed

/-- The timer. -/
theorem Accounted.expire (accounted : Accounted unit w) (now : Nat) :
    Accounted unit ⟨{ w.table with timer := none }.fragExpire now, w.ticks + 1, w.born⟩ := by
  have books : Books w.table.age { w.table with timer := none } :=
    ⟨accounted.books.mem, accounted.books.nodup, accounted.books.keys⟩
  unfold fragExpire
  by_cases nothing : w.table.frags.entries.isEmpty
  · rw [if_pos nothing]
    refine accounted.shed books (List.Sublist.refl _) (fun _ _ found => found) le_rfl ?_
    intro id mem
    have keys : id ∈ w.table.frags.entries.keys := mem
    rw [List.isEmpty_iff.mp nothing] at keys
    exact absurd keys List.not_mem_nil
  · rw [if_neg nothing]
    have sheds := dropExpired_sheds now books
    dsimp only
    by_cases all : (dropExpired now w.table.age { w.table with timer := none }).frags.entries.isEmpty
    · rw [if_pos all]
      have empty : (dropExpired now w.table.age { w.table with timer := none }).frags = ∅ :=
        AList.ext (List.isEmpty_iff.mp all)
      refine accounted.shed ⟨?_, sheds.books.nodup, sheds.books.keys⟩ sheds.suffix.sublist
        sheds.kept (Nat.zero_le _) ?_
      · show (0 : BitVec 32).toNat = _
        rw [empty]
        rfl
      · intro id mem
        change id ∈ (dropExpired now w.table.age { w.table with timer := none }).frags at mem
        rw [empty] at mem
        exact absurd mem (AList.notMem_empty id)
    · rw [if_neg all]
      exact accounted.shed ⟨sheds.books.mem, sheds.books.nodup, sheds.books.keys⟩
        sheds.suffix.sublist sheds.kept sheds.less fun _ _ => rfl

/-- The entry of a fragment is there, below the limit, and listed. -/
structure Opened (unit : ImplSize) (w : Dated) (id : FragId) (a : FragTable) (e : FragEntry)
    (born : FragId → Nat) : Prop where
  mem : a.mem.toNat = e.memSize.toNat + weigh (fun e => e.memSize.toNat) (a.frags.erase id)
  within : a.mem.toNat ≤ fragHighThresh.toNat
  size : memory unit e.frag ≤ e.memSize.toNat + unit.bytes
  others : ∀ id' e, id' ≠ id → a.frags.lookup id' = some e → w.table.frags.lookup id' = some e
  nodup : a.age.Nodup
  keys : ∀ id', id' ∈ a.age ↔ id' = id ∨ id' ∈ a.frags
  order : a.age.Pairwise fun id id' => born id < born id'
  past : ∀ id ∈ a.age, born id < w.ticks + 1
  timer : a.timer = w.table.timer

/-- What becomes of the fragment and its entry. -/
theorem Opened.finish {e e' : FragEntry} {born : FragId → Nat} (accounted : Accounted unit w)
    (opened : Opened unit w id a e born) {h : IpHdr} {p : List Byte}
    (small : p.length ≤ ipPacketLenMax) (merged : e.merge unit h h.offset p = some e') :
    (∀ handed, Accounted unit ⟨{
        frags := a.frags.erase id
        age := a.age.filter (· ≠ id)
        mem := a.mem + (e'.memSize - e.memSize) - e'.memSize
        timer := a.timer
        handed := handed }, w.ticks + 1, born⟩) ∧
    ∀ timer : Option Nat, timer.isSome → Accounted unit ⟨{
        frags := a.frags.insert id e'
        age := a.age
        mem := a.mem + (e'.memSize - e.memSize)
        timer := timer
        handed := a.handed }, w.ticks + 1, born⟩ := by
  obtain ⟨f', inner, rfl⟩ := Option.map_eq_some_iff.mp merged
  have heavier := @merge_memory unit _ _ _ _ _ inner
  have unit_small := unit.small
  have high : fragHighThresh.toNat = 4194304 := rfl
  have most : ipPacketLenMax = 65535 := rfl
  have mem := opened.mem
  have within := opened.within
  have size := opened.size
  have exact_ : (f'.memSize unit).toNat = memory unit f' := by
    rw [memSize_eq, BitVec.toNat_ofNat]
    exact Nat.mod_eq_of_lt (by omega)
  have rest := weigh_insert (f := fun e : FragEntry => e.memSize.toNat) (s := a.frags) (a := id)
    (b := { e with frag := f', memSize := f'.memSize unit })
  have sum : (a.mem + (f'.memSize unit - e.memSize)).toNat =
      memory unit f' + weigh (fun e => e.memSize.toNat) (a.frags.erase id) := by
    simp only [BitVec.toNat_add, BitVec.toNat_sub, exact_]
    omega
  have left : (a.mem + (f'.memSize unit - e.memSize) - f'.memSize unit).toNat =
      weigh (fun e => e.memSize.toNat) (a.frags.erase id) := by
    rw [BitVec.toNat_sub_of_le (by rw [BitVec.le_def]; omega)]
    omega
  constructor
  · intro handed
    refine ⟨⟨left, opened.nodup.filter _, fun id' => ?_⟩, fun id' e found => ?_, ?_,
      opened.order.sublist List.filter_sublist,
      fun id' mem => opened.past id' (List.mem_filter.mp mem).1, fun id' mem => ?_⟩
    · show _ ↔ id' ∈ a.frags.erase id
      rw [AList.mem_erase, List.mem_filter, opened.keys id', decide_eq_true_eq]
      constructor
      · exact fun ⟨mem, other⟩ => ⟨other, mem.resolve_left other⟩
      · exact fun ⟨other, mem⟩ => ⟨.inr mem, other⟩
    · change (a.frags.erase id).lookup id' = some e at found
      by_cases same : id' = id
      · rw [same, AList.lookup_erase] at found
        cases found
      · rw [AList.lookup_erase_ne same] at found
        exact accounted.sizes id' e (opened.others id' e same found)
    · show _ ≤ memLimit unit
      rw [left, memLimit]
      omega
    · obtain ⟨other, mem⟩ := AList.mem_erase.mp mem
      obtain ⟨e, found⟩ := Option.isSome_iff_exists.mp (AList.lookup_isSome.mpr mem)
      have before := opened.others id' e other found
      show a.timer.isSome
      rw [opened.timer]
      exact accounted.armed id' (AList.lookup_isSome.mp (by rw [before]; rfl))
  · intro timer armed
    refine ⟨⟨?_, opened.nodup, fun id' => ?_⟩, fun id' e found => ?_, ?_, opened.order,
      opened.past, fun _ _ => armed⟩
    · show (a.mem + (f'.memSize unit - e.memSize)).toNat = weigh _ (a.frags.insert id _)
      rw [sum, rest, exact_]
    · show _ ↔ id' ∈ a.frags.insert id _
      rw [AList.mem_insert, opened.keys id']
    · change (a.frags.insert id _).lookup id' = some e at found
      by_cases same : id' = id
      · subst same
        rw [AList.lookup_insert] at found
        obtain rfl := Option.some.inj found
        exact exact_
      · rw [AList.lookup_insert_ne same] at found
        exact accounted.sizes id' e (opened.others id' e same found)
    · show (a.mem + (f'.memSize unit - e.memSize)).toNat ≤ memLimit unit
      rw [sum, memLimit]
      omega

/-- The limit is kept before the entry of a fragment is looked for. -/
theorem Accounted.limited (accounted : Accounted unit w) :
    Sheds w.table.age w.table w.table.fragLimitMem ∧
      w.table.fragLimitMem.mem.toNat ≤ fragHighThresh.toNat := by
  obtain ⟨sheds, within⟩ := fragLimitMem_spec accounted.books
  exact ⟨sheds, BitVec.le_def.mp within⟩

/-- An entry that was there. -/
theorem Accounted.found (accounted : Accounted unit w) {e : FragEntry}
    (found : w.table.fragLimitMem.frags.lookup id = some e) :
    Opened unit w id w.table.fragLimitMem e w.born ∧ e.memSize ≠ 0 := by
  obtain ⟨sheds, within⟩ := accounted.limited
  have size := accounted.sizes id e (sheds.kept id e found)
  have rest := weigh_erase (f := fun e : FragEntry => e.memSize.toNat) found
  have key : id ∈ w.table.fragLimitMem.frags := AList.lookup_isSome.mp (by rw [found]; rfl)
  refine ⟨⟨by rw [sheds.books.mem, rest], within, by omega, fun id' e _ found => sheds.kept id' e found,
    sheds.books.nodup, fun id' => ?_, accounted.order.sublist sheds.suffix.sublist,
    fun id' mem => Nat.lt_succ_of_lt (accounted.past id' (sheds.suffix.subset mem)), sheds.timer⟩,
    fun none_ => ?_⟩
  · rw [sheds.books.keys id']
    exact ⟨.inr, fun mem => mem.elim (fun same => same ▸ key) fun old => old⟩
  · rw [none_] at size
    have positive := unit.positive
    have zero : (0 : BitVec 32).toNat = 0 := rfl
    rw [zero, memory] at size
    omega

/-- An entry that is made. -/
theorem Accounted.made (accounted : Accounted unit w)
    (absent : w.table.fragLimitMem.frags.lookup id = none) (e : FragEntry) (size : e.memSize = 0)
    (little : memory unit e.frag ≤ unit.bytes) (fresh : FragEntry) :
    Opened unit w id { w.table.fragLimitMem with
      frags := w.table.fragLimitMem.frags.insert id fresh
      age := w.table.fragLimitMem.age ++ [id] } e (Function.update w.born id w.ticks) := by
  obtain ⟨sheds, within⟩ := accounted.limited
  have none_ : id ∉ w.table.fragLimitMem.frags := AList.lookup_eq_none.mp absent
  have unlisted : id ∉ w.table.fragLimitMem.age := fun mem => none_ ((sheds.books.keys id).mp mem)
  have erased : (w.table.fragLimitMem.frags.insert id fresh).erase id =
      w.table.fragLimitMem.frags := by
    apply AList.ext
    show List.kerase id (w.table.fragLimitMem.frags.insert id fresh).entries = _
    rw [AList.entries_insert_of_notMem none_]
    exact List.kerase_cons_eq rfl
  have older (id' : FragId) (mem : id' ∈ w.table.fragLimitMem.age) :
      Function.update w.born id w.ticks id' = w.born id' ∧ w.born id' < w.ticks := by
    refine ⟨Function.update_of_ne ?_ _ _, accounted.past id' (sheds.suffix.subset mem)⟩
    rintro rfl
    exact unlisted mem
  have zero : (0 : BitVec 32).toNat = 0 := rfl
  refine ⟨?_, within, ?_, fun id' e' other found => ?_, ?_, fun id' => ?_, ?_, fun id' mem => ?_,
    sheds.timer⟩
  · show w.table.fragLimitMem.mem.toNat = _
    rw [size, zero, erased, Nat.zero_add]
    exact sheds.books.mem
  · rw [size, zero, Nat.zero_add]
    exact little
  · change (w.table.fragLimitMem.frags.insert id fresh).lookup id' = some e' at found
    rw [AList.lookup_insert_ne other] at found
    exact sheds.kept id' e' found
  · exact List.nodup_append.mpr ⟨sheds.books.nodup, List.nodup_singleton id, fun x mem y single => by
      obtain rfl := List.mem_singleton.mp single
      exact fun same => unlisted (same ▸ mem)⟩
  · show id' ∈ w.table.fragLimitMem.age ++ [id] ↔ id' = id ∨ id' ∈ w.table.fragLimitMem.frags.insert id fresh
    rw [List.mem_append, List.mem_singleton, AList.mem_insert, sheds.books.keys id']
    exact ⟨fun either => either.elim (fun old => .inr (.inr old)) .inl,
      fun either => either.elim .inr fun either => either.elim .inr .inl⟩
  · refine List.pairwise_append.mpr ⟨?_, List.pairwise_singleton _ _, fun x mem y single => ?_⟩
    · refine (accounted.order.sublist sheds.suffix.sublist).imp_of_mem fun {x y} memx memy less => ?_
      rw [(older x memx).1, (older y memy).1]
      exact less
    · obtain rfl := List.mem_singleton.mp single
      rw [(older x mem).1, Function.update_self]
      exact (older x mem).2
  · rcases List.mem_append.mp mem with old | single
    · rw [(older id' old).1]
      exact Nat.lt_succ_of_lt (older id' old).2
    · obtain rfl := List.mem_singleton.mp single
      rw [Function.update_self]
      exact Nat.lt_succ_self _

/-- That the last fragment has come is no matter of memory. -/
theorem Opened.flag {e : FragEntry} {born : FragId → Nat} (opened : Opened unit w id a e born)
    (mf : Bool) : Opened unit w id a
      (if mf then e else { e with frag := { e.frag with lastFragReceived := true } }) born := by
  cases mf
  · exact ⟨opened.mem, opened.within, opened.size, opened.others, opened.nodup, opened.keys,
      opened.order, opened.past, opened.timer⟩
  · exact opened

/-- A fragment, once its entry is there. -/
theorem Opened.merge {e : FragEntry} {born : FragId → Nat} (accounted : Accounted unit w)
    {h : IpHdr} (opened : Opened unit w h.fragId a e born) {p : List Byte} {now : Nat}
    (small : p.length ≤ ipPacketLenMax)
    (ran : a.mergeFrag unit r now h p e = some a') : Accounted unit ⟨a', w.ticks + 1, born⟩ := by
  obtain ⟨e', merged, rfl⟩ := Option.map_eq_some_iff.mp ran
  obtain ⟨completed, kept⟩ := opened.finish accounted small merged
  dsimp only
  by_cases complete : e'.frag.isComplete
  · rw [if_pos complete]
    exact completed _
  · rw [if_neg complete]
    by_cases armed : a.timer.isSome
    · rw [if_pos armed]
      exact kept a.timer armed
    · rw [if_neg armed]
      exact kept (some (now + fragTimeout)) rfl

/-- A fragment for an entry that is there. -/
theorem Accounted.more (accounted : Accounted unit w) {h : IpHdr} {p : List Byte} {now : Nat}
    (small : p.length ≤ ipPacketLenMax) {e : FragEntry}
    (here : w.table.fragLimitMem.frags.lookup h.fragId = some e)
    (handled : w.table.handleFrag unit r now h p = some a') :
    Accounted unit ⟨a', w.ticks + 1, w.born⟩ := by
  obtain ⟨opened, sized⟩ := accounted.found here
  have same : (if h.mf then e
      else { e with frag := { e.frag with lastFragReceived := true } }).memSize = e.memSize := by
    cases h.mf <;> rfl
  unfold handleFrag at handled
  dsimp only at handled
  rw [entry_some here] at handled
  dsimp only at handled
  rw [same, if_neg sized] at handled
  exact (opened.flag h.mf).merge accounted small handled

/-- A fragment whose entry is made. -/
theorem Accounted.first (accounted : Accounted unit w) {h : IpHdr} {p : List Byte} {now : Nat}
    (small : p.length ≤ ipPacketLenMax)
    (absent : w.table.fragLimitMem.frags.lookup h.fragId = none)
    (handled : w.table.handleFrag unit r now h p = some a') :
    Accounted unit ⟨a', w.ticks + 1, Function.update w.born h.fragId w.ticks⟩ := by
  have same : (if h.mf then FragEntry.new
      else { FragEntry.new with frag := { FragEntry.new.frag with lastFragReceived := true }
        }).memSize = 0 := by
    cases h.mf <;> rfl
  unfold handleFrag at handled
  dsimp only at handled
  rw [entry_none absent] at handled
  dsimp only at handled
  rw [same, if_pos rfl] at handled
  refine Opened.merge accounted ?_ small handled
  apply accounted.made absent
  · rfl
  · cases h.mf <;> exact Nat.le_of_eq (Nat.zero_add _)

/-- One event. -/
theorem Accounted.step (accounted : Accounted unit w) {e : Event} {w' : Dated}
    (next : Dated.step unit r w e = some w') : Accounted unit w' := by
  obtain ⟨a', ran, rfl⟩ := Option.map_eq_some_iff.mp next
  cases e with
  | timer now =>
      change (if w.table.timer.any (· ≤ now) then _ else none) = some a' at ran
      obtain ⟨_, ran⟩ := Option.ite_none_right_eq_some.mp ran
      obtain rfl := Option.some.inj ran
      exact accounted.expire now
  | packet now reassembled p =>
      change w.table.handleReceivedPacket unit r now reassembled p = some a' at ran
      unfold handleReceivedPacket at ran
      cases door : r.accepted reassembled p with
      | none =>
          rw [door] at ran
          obtain rfl := Option.some.inj ran
          have nothing : makes r w.table (.packet now reassembled p) = none := by
            rw [makes, door]
            rfl
          rw [nothing]
          exact accounted.shed accounted.books (List.Sublist.refl _) (fun _ _ found => found)
            le_rfl accounted.armed
      | some x =>
          obtain ⟨h, q⟩ := x
          have small := (Receiver.accepted_some door).2.1
          rw [door] at ran
          have made : makes r w.table (.packet now reassembled p) =
              if h.Fragmented ∧ (w.table.fragLimitMem.frags.lookup h.fragId).isNone then
                some h.fragId else none := by
            rw [makes, door]
            rfl
          rw [made]
          by_cases fragmented : h.Fragmented
          · simp only [if_pos fragmented] at ran
            cases here : w.table.fragLimitMem.frags.lookup h.fragId with
            | none =>
                rw [if_pos ⟨fragmented, rfl⟩]
                exact accounted.first (by omega) here ran
            | some e =>
                rw [if_neg fun both => nomatch both.2]
                exact accounted.more (by omega) here ran
          · simp only [if_neg fragmented] at ran
            rw [if_neg fun both => fragmented both.1]
            -- Only what is handed on changes.
            have same : ∃ handed, a' = { w.table with handed := handed } := by
              split at ran
              · exact ⟨_, (Option.some.inj ran).symm⟩
              · obtain ⟨_, _, rfl⟩ := Option.map_eq_some_iff.mp ran
                exact ⟨_, rfl⟩
            obtain ⟨handed, rfl⟩ := same
            have books := accounted.books
            exact accounted.shed ⟨books.mem, books.nodup, books.keys⟩ (List.Sublist.refl _)
              (fun _ _ found => found) le_rfl accounted.armed

/-- The accounts are in order in every state that can be reached, and the limit is
kept from there. -/
theorem fragments_accounted {es : List Event}
    (run : exec (Dated.step unit r) .start es = some w) :
    Accounted unit w ∧ w.table.fragLimitMem.mem ≤ fragHighThresh := by
  have accounted : Accounted unit w :=
    exec_invariant (fun _ _ _ holds next => holds.step next) (accounted_start unit) run
  exact ⟨accounted, (fragLimitMem_spec accounted.books).2⟩

/-- Half a datagram comes, the timer expires, and the other half comes. -/
theorem fragments_accounted_halves : ∃ w, exec (Dated.step ⟨64, by decide, by decide⟩ hostTwo) .start
    [.packet 0 false (eightBytes 1 2), .timer 40000, .packet 40001 false (eightBytes 0x2000 1)] =
      some w ∧ Accounted ⟨64, by decide, by decide⟩ w ∧
        w.table.fragLimitMem.mem ≤ fragHighThresh := by
  have runs : (exec (Dated.step ⟨64, by decide, by decide⟩ hostTwo) .start
      [.packet 0 false (eightBytes 1 2), .timer 40000,
        .packet 40001 false (eightBytes 0x2000 1)]).isSome := by decide +kernel
  obtain ⟨w, run⟩ := Option.isSome_iff_exists.mp runs
  exact ⟨w, run, fragments_accounted run⟩

end FragTable

end ActorNet.Net
