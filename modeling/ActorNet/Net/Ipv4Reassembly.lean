import ActorNet.Lib.Run
import ActorNet.Net.Ipv4

/-!
# What the fragments of a datagram leave behind

Fragments of any offsets, lengths and flags, as they may come from anybody. What
`ipv4::frag` keeps of the fragments under one id is described by those fragments
alone (`Gathered`): its segments are made of their bytes, reach over each of
them, and its flag and header are theirs. `Receiver.observe` is the receive path
beside a record of the fragments that each entry of `_frags` has taken in; the
time-out of an entry and the limit on the memory are events of their own.
-/

namespace ActorNet.Net

open Lib Lib.Slices

/-! ## Fragments -/

/-- What a fragment brings. -/
structure Piece where
  offset : Nat
  mf : Bool
  header : List Byte
  payload : List Byte
  deriving DecidableEq, Repr

/-- Where the fragment ends in the datagram. -/
def Piece.fin (x : Piece) : Nat := x.offset + x.payload.length

/-- What a packet of this header brings as a fragment. -/
def IpHdr.piece (h : IpHdr) (p : List Byte) : Piece :=
  ⟨h.offset, h.mf, p.take (h.ihl * 4), p.drop (h.ihl * 4)⟩

/-- The id that the fragments of a datagram share. -/
def IpHdr.fragId (h : IpHdr) : FragId := ⟨h.srcIp, h.dstIp, h.id, h.ipProto⟩

/-- A packet that has to be put together with others. -/
def IpHdr.Fragmented (h : IpHdr) : Prop := h.mf = true ∨ h.offset ≠ 0

instance (h : IpHdr) : Decidable h.Fragmented := inferInstanceAs (Decidable (_ ∨ _))

/-- The header that is kept: that of the fragment for offset 0 that came last. -/
def headerOf (seen : List Piece) : List Byte :=
  ((seen.find? (·.offset == 0)).map Piece.header).getD []

/-- The segments that fragments make, the last of which came last. -/
def joined : List Piece → Option (PacketMerger.Map Nat)
  | [] => some []
  | x :: seen => (joined seen).bind (PacketMerger.merge x.offset x.payload)

/-- Bytes that each come from a fragment that has them at that offset. -/
def MadeOf (seen : List Piece) (b : Nat) (d : List Byte) : Prop :=
  b + d.length ≤ ipPacketLenMax ∧ ∀ j c, d[j]? = some c →
    ∃ x ∈ seen, x.offset ≤ b + j ∧ x.payload[b + j - x.offset]? = some c

theorem pieces_madeOf (seen : List Piece) : Pieces (MadeOf seen) ipPacketLenMax where
  inside _ _ made := made.1
  join b d b' d' first second ordered touch longer := by
    refine ⟨by rw [length_join touch longer]; have := second.1; omega, fun j c here => ?_⟩
    rcases Nat.lt_or_ge j d.length with front | back
    · rw [List.getElem?_append_left front] at here
      exact first.2 j c here
    · rw [List.getElem?_append_right back, List.getElem?_drop] at here
      have place : b' + (b + d.length - b' + (j - d.length)) = b + j := by omega
      simpa only [place] using second.2 _ c here

theorem MadeOf.more {seen : List Piece} {b : Nat} {d : List Byte} (made : MadeOf seen b d)
    (x : Piece) : MadeOf (x :: seen) b d := by
  refine ⟨made.1, fun j c here => ?_⟩
  obtain ⟨y, mem, found⟩ := made.2 j c here
  exact ⟨y, List.mem_cons_of_mem _ mem, found⟩

theorem madeOf_self {x : Piece} (seen : List Piece) (small : x.fin ≤ ipPacketLenMax) :
    MadeOf (x :: seen) x.offset x.payload := by
  refine ⟨small, fun j c here => ⟨x, List.mem_cons_self, Nat.le_add_right _ _, ?_⟩⟩
  rwa [Nat.add_sub_cancel_left]

/-! ## One entry -/

/-- A fragment that is merged has the header it tells of. -/
theorem Frag.merge_within {f f' : Frag} {h : IpHdr} {offset : Nat} {p : List Byte}
    (merged : f.merge h offset p = some f') : h.ihl * 4 ≤ p.length := by
  obtain ⟨payload, trimmed, _⟩ := Option.bind_eq_some_iff.mp merged
  unfold PacketMerger.trimFront at trimmed
  split at trimmed
  · assumption
  · cases trimmed

/-- What an entry keeps of the fragments `seen`, the last first. -/
structure Gathered (seen : List Piece) (f : Frag) (m : PacketMerger.Map Nat) : Prop where
  data : f.data = PacketMerger.placed (BitVec.ofNat 32) m
  made : joined seen = some m
  gapped : Gapped m
  each : Each (MadeOf seen) m
  reaches : ∀ x ∈ seen, PacketMerger.Reaches m (x.offset, x.payload)
  last : f.lastFragReceived = true ↔ ∃ x ∈ seen, x.mf = false
  header : f.header = headerOf seen

theorem gathered_empty : Gathered [] .empty [] := by
  refine ⟨rfl, rfl, .nil, List.forall_mem_nil _, List.forall_mem_nil _, ?_, rfl⟩
  simp [Frag.empty]

/-- One fragment more. It has to be as long as its header says that the header
is, and to end where a datagram may. -/
theorem Gathered.merge {seen : List Piece} {f : Frag} {m : PacketMerger.Map Nat}
    (gathered : Gathered seen f m) {h : IpHdr} {p : List Byte} (within : h.ihl * 4 ≤ p.length)
    (small : h.offset + p.length ≤ ipPacketLenMax) :
    ∃ f' m', (if h.mf then f else { f with lastFragReceived := true }).merge h h.offset p =
        some f' ∧ Gathered (h.piece p :: seen) f' m' := by
  have fin : (h.piece p).fin ≤ ipPacketLenMax := by
    simp only [Piece.fin, IpHdr.piece, List.length_drop]
    omega
  have pieces := pieces_madeOf (h.piece p :: seen)
  have fits : ipPacketLenMax < 2 ^ 32 := by decide
  have each : Each (MadeOf (h.piece p :: seen)) m := fun x mem => (gathered.each x mem).more _
  have new := madeOf_self seen fin
  obtain ⟨m', run, gapped', each', _⟩ :=
    PacketMerger.merge_nat_spec pieces gathered.gapped each new
  obtain ⟨here, kept⟩ := PacketMerger.merge_keeps pieces gathered.gapped each new run
  have merged : PacketMerger.merge (BitVec.ofNat 32 h.offset) (p.drop (h.ihl * 4)) f.data =
      some (PacketMerger.placed (BitVec.ofNat 32) m') := by
    rw [gathered.data]
    have placed := PacketMerger.merge_placed PacketMerger.window_uint32 pieces fits
      gathered.gapped each new
    rw [run] at placed
    exact placed
  refine ⟨⟨if h.offset = 0 then p.take (h.ihl * 4) else f.header,
    PacketMerger.placed (BitVec.ofNat 32) m', if h.mf then f.lastFragReceived else true⟩, m', ?_,
    rfl, by rw [joined, gathered.made]; exact run, gapped', each', ?_, ?_, ?_⟩
  · cases mf : h.mf <;>
      simp only [Frag.merge, PacketMerger.trimFront, within, merged, Bool.false_eq_true, if_true,
        if_false, Option.bind_eq_bind, Option.bind_some]
  · intro x mem
    rcases List.mem_cons.mp mem with rfl | old
    · exact here
    · obtain ⟨y, mem', low, high⟩ := gathered.reaches x old
      exact (kept y mem').trans low high
  · cases mf : h.mf with
    | true => simp [IpHdr.piece, mf, gathered.last]
    | false => simp [IpHdr.piece, mf]
  · by_cases first : h.offset = 0
    · simp [headerOf, IpHdr.piece, first]
    · simpa [headerOf, IpHdr.piece, first] using gathered.header

/-- An entry is complete when one segment is left and it begins at offset 0. -/
theorem Gathered.complete {seen : List Piece} {f : Frag} {m : PacketMerger.Map Nat}
    (gathered : Gathered seen f m) (complete : f.isComplete = true) :
    ∃ d, m = [(0, d)] ∧ f.data = [(0, d)] ∧ ∃ x ∈ seen, x.mf = false := by
  unfold Frag.isComplete at complete
  rw [gathered.data] at complete
  match m, gathered.each, gathered.data with
  | [], _, _ => exact nomatch complete
  | _ :: _ :: _, _, _ => exact nomatch complete
  | [(b, d)], each, data =>
      have inside := (pieces_madeOf seen).inside b d each.head
      simp only [PacketMerger.placed, List.map_cons, List.map_nil, Bool.and_eq_true,
        beq_iff_eq] at complete
      have zero : b = 0 := by
        have := congrArg BitVec.toNat complete.2
        have small : b < 4294967296 := lt_of_le_of_lt (Nat.le_add_right _ _)
          (lt_of_le_of_lt inside (by decide))
        simpa [Nat.mod_eq_of_lt small] using this
      subst zero
      exact ⟨d, rfl, data, gathered.last.mp complete.1⟩

theorem Gathered.isComplete_iff {seen : List Piece} {f : Frag} {m : PacketMerger.Map Nat}
    (gathered : Gathered seen f m) : f.isComplete = true ↔
      (∃ x ∈ seen, x.mf = false) ∧ ∃ d, m = [(0, d)] := by
  constructor
  · intro complete
    obtain ⟨d, single, _, ended⟩ := gathered.complete complete
    exact ⟨ended, d, single⟩
  · rintro ⟨ended, d, rfl⟩
    have last := gathered.last.mpr ended
    unfold Frag.isComplete
    rw [gathered.data, last]
    rfl

/-! ## The receive path -/

namespace Receiver

/-- What gets past the checks at the door: the header, and the packet without
what is behind the IP datagram. -/
def accepted (r : Receiver) (reassembled : Bool) (p : List Byte) : Option (IpHdr × List Byte) :=
  if p.length < ipv4HdrLenMin then none
  else if ¬r.rxCsumOffload ∧ ¬reassembled ∧
      ipv4ChecksumOk (p.take ipv4HdrLenMin) ≠ some true then none
  else
    let h := IpHdr.ntoh p
    if p.length < h.len then none
    else if ipPacketLenMax < h.offset + h.len then none
    else if r.packetFilter.any fun handle => handle (p.take h.len) h then none
    else if h.dstIp ≠ r.hostAddress then none
    else some (h, p.take h.len)

variable {r : Receiver} {reassembled : Bool} {p q : List Byte} {h : IpHdr}

theorem accepted_some (accepted : r.accepted reassembled p = some (h, q)) :
    q.length = h.len ∧ h.offset + q.length ≤ ipPacketLenMax ∧ h.dstIp = r.hostAddress := by
  simp only [Receiver.accepted, Option.ite_none_left_eq_some, Option.some.injEq,
    Prod.mk.injEq] at accepted
  obtain ⟨_, _, long, small, _, own, rfl, rfl⟩ := accepted
  have length : (p.take (IpHdr.ntoh p).len).length = (IpHdr.ntoh p).len := by
    rw [List.length_take]
    omega
  exact ⟨length, by omega, not_not.mp own⟩

/-- Behind the door there are fragments and whole datagrams. -/
theorem handleReceivedPacket_eq (r : Receiver) (reassembled : Bool) (s : ReceiveState)
    (p : List Byte) : r.handleReceivedPacket reassembled s p =
      match r.accepted reassembled p with
      | none => some s
      | some (h, q) =>
          if h.Fragmented then r.handleFrag s h q
          else match l4 h.ipProto with
            | none => some s
            | some protoNum => (PacketMerger.trimFront (h.ihl * 4) q).map fun q =>
                { s with handed := .received protoNum q h.srcIp h.dstIp :: s.handed } := by
  unfold handleReceivedPacket accepted
  by_cases short : p.length < ipv4HdrLenMin
  · rw [if_pos short, if_pos short]
  rw [if_neg short, if_neg short]
  by_cases wrong : ¬r.rxCsumOffload ∧ ¬reassembled ∧
      ipv4ChecksumOk (p.take ipv4HdrLenMin) ≠ some true
  · rw [if_pos wrong, if_pos wrong]
  rw [if_neg wrong, if_neg wrong]
  dsimp only
  by_cases cut : p.length < (IpHdr.ntoh p).len
  · rw [if_pos cut, if_pos cut]
  have length : (p.take (IpHdr.ntoh p).len).length = (IpHdr.ntoh p).len := by
    rw [List.length_take]
    omega
  rw [if_neg cut, if_neg cut, length]
  split
  · rfl
  split
  · rfl
  split
  · rfl
  · rfl

/-- A fragment that can be merged is kept with the others, or completes the
datagram, which is handed on and forgotten. -/
theorem handleFrag_eq {s : ReceiveState} {f' : Frag}
    (merged : (let f := (s.frags h.fragId).getD .empty
      if h.mf then f else { f with lastFragReceived := true }).merge h h.offset p = some f') :
    r.handleFrag s h p = some (
      if f'.isComplete then ⟨Function.update s.frags h.fragId none, r.handOn h f' ++ s.handed⟩
      else { s with frags := Function.update s.frags h.fragId (some f') }) := by
  refine (Option.bind_eq_some_iff.mpr ⟨f', merged, ?_⟩)
  by_cases complete : f'.isComplete
  · rw [if_pos complete, if_pos complete]
    rfl
  · rw [if_neg complete, if_neg complete]
    rfl

/-- What becomes of a fragment. -/
theorem handleFrag_some {s s' : ReceiveState} (handled : r.handleFrag s h p = some s') :
    h.ihl * 4 ≤ p.length ∧ ∃ f',
      (let f := (s.frags h.fragId).getD .empty
        if h.mf then f else { f with lastFragReceived := true }).merge h h.offset p = some f' ∧
      if f'.isComplete then
        s' = ⟨Function.update s.frags h.fragId none, r.handOn h f' ++ s.handed⟩
      else s' = { s with frags := Function.update s.frags h.fragId (some f') } := by
  obtain ⟨f', merged, _⟩ := Option.bind_eq_some_iff.mp handled
  refine ⟨Frag.merge_within merged, f', merged, ?_⟩
  have result := Option.some.inj ((handleFrag_eq merged).symm.trans handled)
  by_cases complete : f'.isComplete
  · rw [if_pos complete] at result ⊢
    exact result.symm
  · rw [if_neg complete] at result ⊢
    exact result.symm

end Receiver

/-! ## Runs -/

/-- A packet comes in, or an entry of `_frags` is dropped, by the timer or for
its memory. -/
inductive Input
  | packet (reassembled : Bool) (p : List Byte)
  | expire (id : FragId)
  deriving DecidableEq, Repr

/-- The receive path, and for every id the fragments its entry has taken in, the
last first. -/
structure Reception where
  state : ReceiveState
  seen : FragId → List Piece

namespace Reception

def start : Reception := ⟨Receiver.init, fun _ => []⟩

/-- What is recorded of a packet once it is handled. -/
def record (w : Reception) (s : ReceiveState) : Option (IpHdr × List Byte) → Reception
  | none => ⟨s, w.seen⟩
  | some (h, q) =>
      if h.Fragmented then
        ⟨s, Function.update w.seen h.fragId
          (if (s.frags h.fragId).isSome then h.piece q :: w.seen h.fragId else [])⟩
      else ⟨s, w.seen⟩

/-- Every entry is what its fragments make of it. -/
def Sound (w : Reception) : Prop :=
  ∀ id, ∃ m, Gathered (w.seen id) ((w.state.frags id).getD .empty) m

end Reception

/-- One event of the receive path; `none` is a failed assertion. -/
def Receiver.observe (r : Receiver) (w : Reception) : Input → Option Reception
  | .packet reassembled p =>
      (r.handleReceivedPacket reassembled w.state p).map fun s =>
        w.record s (r.accepted reassembled p)
  | .expire id => some
      ⟨{ w.state with frags := Function.update w.state.frags id none },
        Function.update w.seen id []⟩

namespace Reception

variable {r : Receiver} {w w' : Reception}

theorem sound_start : start.Sound := fun _ => ⟨[], gathered_empty⟩

/-- What holds at one id and was sound at the others is sound. -/
theorem Sound.update (sound : w.Sound) {id : FragId} {f : Option Frag} {handed : List Handed}
    {pieces : List Piece} (here : ∃ m, Gathered pieces (f.getD .empty) m) :
    (⟨⟨Function.update w.state.frags id f, handed⟩,
      Function.update w.seen id pieces⟩ : Reception).Sound := by
  intro id'
  by_cases same : id' = id
  · subst same
    simpa using here
  · simpa [same] using sound id'

/-- A fragment: what is recorded of it is what the entry makes of it. -/
theorem Sound.fragment (sound : w.Sound) {h : IpHdr} {q : List Byte} {s : ReceiveState}
    (small : h.offset + q.length ≤ ipPacketLenMax) (fragmented : h.Fragmented)
    (handled : r.handleFrag w.state h q = some s) : (w.record s (some (h, q))).Sound := by
  obtain ⟨within, f', merged, result⟩ := Receiver.handleFrag_some handled
  obtain ⟨m, gathered⟩ := sound h.fragId
  obtain ⟨f'', m', merged', gathered'⟩ := gathered.merge within small
  obtain rfl : f' = f'' := Option.some.inj (merged.symm.trans merged')
  simp only [record, if_pos fragmented]
  by_cases complete : f'.isComplete
  · rw [if_pos complete] at result
    subst result
    simpa using sound.update ⟨[], gathered_empty⟩
  · rw [if_neg complete] at result
    subst result
    simpa using sound.update (f := some f') ⟨m', gathered'⟩

theorem Sound.observe (sound : w.Sound) {e : Input} (next : r.observe w e = some w') :
    w'.Sound := by
  cases e with
  | expire id =>
      obtain rfl := Option.some.inj next
      exact sound.update ⟨[], gathered_empty⟩
  | packet reassembled p =>
      obtain ⟨s, handled, rfl⟩ := Option.map_eq_some_iff.mp next
      rw [Receiver.handleReceivedPacket_eq] at handled
      cases door : r.accepted reassembled p with
      | none =>
          rw [door] at handled
          obtain rfl := Option.some.inj handled
          exact sound
      | some x =>
          obtain ⟨h, q⟩ := x
          rw [door] at handled
          by_cases fragmented : h.Fragmented
          · simp only [if_pos fragmented] at handled
            exact sound.fragment (Receiver.accepted_some door).2.1 fragmented handled
          · simp only [if_neg fragmented] at handled
            have frags : s.frags = w.state.frags := by
              split at handled
              · exact (Option.some.inj handled) ▸ rfl
              · obtain ⟨_, _, rfl⟩ := Option.map_eq_some_iff.mp handled
                rfl
            simpa only [record, if_neg fragmented, Sound, frags] using sound

/-- In every state that can be reached the entries are what their fragments make
of them. -/
theorem sound_of_run {es : List Input} (run : exec r.observe start es = some w) : w.Sound :=
  exec_invariant (fun _ _ _ sound next => sound.observe next) sound_start run

end Reception

end ActorNet.Net
