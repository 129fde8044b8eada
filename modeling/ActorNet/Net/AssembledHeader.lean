import ActorNet.Net.ReassemblyComplete

/-!
# The header of a datagram that was put together

An entry keeps the header of the fragment for offset 0, options and all, and
`get_assembled_packet` writes a length and an offset of 0 into it. Where it has
the 20 bytes of an IP header, it says the same of the datagram as the fragment
that completes it. Where that datagram goes to another cpu it comes in there as a
packet of its own.
-/

namespace ActorNet.Net

open Lib

/-- After a run a fragment comes in that completes its datagram. -/
structure Completes (r : Receiver) (w : Reception) (h : IpHdr) (q : List Byte) (f : Frag) :
    Prop where
  reached : ∃ es, exec r.observe Reception.start es = some w
  accepted : ∃ reassembled p, r.accepted reassembled p = some (h, q)
  fragmented : h.Fragmented
  merged : (let f := (w.state.frags h.fragId).getD .empty
    if h.mf then f else { f with lastFragReceived := true }).merge h h.offset q = some f
  complete : f.isComplete = true

/-- A header that is kept under an id is one of its packets' and as long as it
says, unless it is too short for an IP header. -/
def HeaderUnder (id : FragId) (header : List Byte) : Prop :=
  ipv4HdrLenMin ≤ header.length →
    (IpHdr.ntoh header).fragId = id ∧ header.length = (IpHdr.ntoh header).ihl * 4

variable {r : Receiver} {w w' : Reception} {h : IpHdr} {p q : List Byte} {f f' : Frag}

/-! ## What a header says -/

/-- Only the bytes of a header count for what it says. -/
theorem ntoh_take (bytes : List Byte) : IpHdr.ntoh (bytes.take ipv4HdrLenMin) = IpHdr.ntoh bytes := by
  have same {at_ size : Nat} (inside : at_ + size ≤ ipv4HdrLenMin) :
      IpHdr.field (bytes.take ipv4HdrLenMin) at_ size = IpHdr.field bytes at_ size := by
    rw [IpHdr.field, IpHdr.field, List.drop_take, List.take_take, Nat.min_eq_left (by omega)]
  unfold IpHdr.ntoh
  simp only [same (show 0 + 1 ≤ ipv4HdrLenMin by decide), same (show 1 + 1 ≤ ipv4HdrLenMin by decide),
    same (show 2 + 2 ≤ ipv4HdrLenMin by decide), same (show 4 + 2 ≤ ipv4HdrLenMin by decide),
    same (show 6 + 2 ≤ ipv4HdrLenMin by decide), same (show 8 + 1 ≤ ipv4HdrLenMin by decide),
    same (show 9 + 1 ≤ ipv4HdrLenMin by decide), same (show 10 + 2 ≤ ipv4HdrLenMin by decide),
    same (show 12 + 4 ≤ ipv4HdrLenMin by decide), same (show 16 + 4 ≤ ipv4HdrLenMin by decide)]

theorem ntoh_prefix {header : List Byte} (rest : List Byte) (long : ipv4HdrLenMin ≤ header.length) :
    IpHdr.ntoh (header ++ rest) = IpHdr.ntoh header := by
  rw [← ntoh_take (header ++ rest), ← ntoh_take header, List.take_append_of_le_length long]

theorem Receiver.accepted_header {reassembled : Bool}
    (accepted : r.accepted reassembled p = some (h, q)) :
    ipv4HdrLenMin ≤ p.length ∧ h = IpHdr.ntoh p ∧ q = p.take h.len := by
  simp only [Receiver.accepted, Option.ite_none_left_eq_some, Option.some.injEq,
    Prod.mk.injEq] at accepted
  obtain ⟨long, _, _, _, _, _, rfl, rfl⟩ := accepted
  exact ⟨by omega, rfl, rfl⟩

/-! ## The header that is kept -/

theorem HeaderUnder.merge (kept : HeaderUnder h.fragId f.header) {reassembled : Bool}
    (accepted : r.accepted reassembled p = some (h, q))
    (merged : (if h.mf then f else { f with lastFragReceived := true }).merge h h.offset q =
      some f') : HeaderUnder h.fragId f'.header := by
  have within := Frag.merge_within merged
  obtain ⟨_, _, merged⟩ := Option.bind_eq_some_iff.mp merged
  obtain ⟨_, _, result⟩ := Option.bind_eq_some_iff.mp merged
  obtain rfl := Option.some.inj result
  have header : (if h.mf then f else { f with lastFragReceived := true }).header = f.header := by
    cases h.mf <;> rfl
  show HeaderUnder h.fragId (if h.offset = 0 then q.take (h.ihl * 4) else _)
  rw [header]
  split
  · intro long
    obtain ⟨_, said, rfl⟩ := Receiver.accepted_header accepted
    rw [List.take_take, List.length_take] at long
    rw [List.length_take] at within
    have same : IpHdr.ntoh ((p.take h.len).take (h.ihl * 4)) = h := by
      rw [List.take_take, ← ntoh_take, List.take_take, Nat.min_eq_left (by omega), ntoh_take]
      exact said.symm
    rw [same, List.length_take, List.length_take]
    exact ⟨rfl, by omega⟩
  · exact kept

/-- A packet leaves the entries as they are, or is a fragment that goes into its
own. -/
theorem Receiver.handled_frags {reassembled : Bool} {s s' : ReceiveState}
    (handled : r.handleReceivedPacket reassembled s p = some s') :
    s'.frags = s.frags ∨ ∃ h q f', r.accepted reassembled p = some (h, q) ∧
      (let f := (s.frags h.fragId).getD .empty
        if h.mf then f else { f with lastFragReceived := true }).merge h h.offset q = some f' ∧
      ∃ x, (x = none ∨ x = some f') ∧ s'.frags = Function.update s.frags h.fragId x := by
  rw [handleReceivedPacket_eq] at handled
  cases door : r.accepted reassembled p with
  | none =>
      rw [door] at handled
      exact .inl (congrArg ReceiveState.frags (Option.some.inj handled)).symm
  | some x =>
      obtain ⟨h, q⟩ := x
      rw [door] at handled
      dsimp only at handled
      split at handled
      · obtain ⟨_, f', merged, result⟩ := handleFrag_some handled
        refine .inr ⟨h, q, f', rfl, merged, ?_⟩
        split at result
        · exact ⟨none, .inl rfl, congrArg ReceiveState.frags result⟩
        · exact ⟨some f', .inr rfl, congrArg ReceiveState.frags result⟩
      · split at handled
        · exact .inl (congrArg ReceiveState.frags (Option.some.inj handled)).symm
        · obtain ⟨_, _, rfl⟩ := Option.map_eq_some_iff.mp handled
          exact .inl rfl

theorem headerUnder_empty (id : FragId) : HeaderUnder id Frag.empty.header :=
  fun long => nomatch long

theorem headerUnder_observe {e : Input}
    (kept : ∀ id, HeaderUnder id ((w.state.frags id).getD .empty).header)
    (next : r.observe w e = some w') :
    ∀ id, HeaderUnder id ((w'.state.frags id).getD .empty).header := by
  have update : ∀ id x, HeaderUnder id (x.getD .empty).header → ∀ id',
      HeaderUnder id' ((Function.update w.state.frags id x id').getD .empty).header := by
    intro id x here id'
    by_cases same : id' = id
    · subst same
      rwa [Function.update_self]
    · rw [Function.update_of_ne same]
      exact kept id'
  cases e with
  | expire id =>
      obtain rfl := Option.some.inj next
      exact update id none (headerUnder_empty id)
  | packet reassembled p =>
      obtain ⟨s, handled, rfl⟩ := Option.map_eq_some_iff.mp next
      have state : (w.record s (r.accepted reassembled p)).state = s := by
        unfold Reception.record
        split
        · rfl
        · split <;> rfl
      rw [state]
      obtain same | ⟨h, q, f', door, merged, x, entry, result⟩ := Receiver.handled_frags handled
      · rw [same]
        exact kept
      · rw [result]
        apply update
        obtain rfl | rfl := entry
        · exact headerUnder_empty _
        · exact (kept h.fragId).merge door merged

/-- The header of a datagram that is complete says what its last fragment does. -/
theorem Completes.headerUnder (completes : Completes r w h q f) :
    HeaderUnder h.fragId f.header := by
  obtain ⟨es, run⟩ := completes.reached
  obtain ⟨reassembled, p, accepted⟩ := completes.accepted
  have kept := exec_invariant
    (I := fun w => ∀ id, HeaderUnder id ((w.state.frags id).getD .empty).header)
    (fun _ _ _ kept next => headerUnder_observe kept next) headerUnder_empty run
  exact (kept h.fragId).merge accepted completes.merged

/-! ## The packet for another cpu -/

/-- It is a whole datagram. -/
theorem assembled_whole (fields : 8 ≤ (f.header ++ f.ipData).length) :
    (IpHdr.ntoh f.getAssembledPacket).mf = false ∧
      (IpHdr.ntoh f.getAssembledPacket).offset = 0 := by
  have frag : (IpHdr.ntoh f.getAssembledPacket).frag = 0 := by
    show IpHdr.field f.getAssembledPacket 6 2 = 0
    rw [IpHdr.field, (assembled_fields fields).offset]
    rfl
  unfold IpHdr.mf IpHdr.offset
  rw [frag]
  exact ⟨rfl, rfl⟩

/-- Of the header that is kept it has the length, the protocol and the addresses,
and the data is behind it. -/
theorem assembled_header (long : ipv4HdrLenMin ≤ f.header.length) :
    (IpHdr.ntoh f.getAssembledPacket).ihl = (IpHdr.ntoh f.header).ihl ∧
      (IpHdr.ntoh f.getAssembledPacket).ipProto = (IpHdr.ntoh f.header).ipProto ∧
      (IpHdr.ntoh f.getAssembledPacket).srcIp = (IpHdr.ntoh f.header).srcIp ∧
      (IpHdr.ntoh f.getAssembledPacket).dstIp = (IpHdr.ntoh f.header).dstIp ∧
      f.getAssembledPacket.drop f.header.length = f.ipData := by
  unfold ipv4HdrLenMin at long
  have same := assembled_fields (f := f) (by rw [List.length_append]; omega)
  have drop : ∀ at_, 8 ≤ at_ →
      f.getAssembledPacket.drop at_ = (f.header ++ f.ipData).drop at_ := by
    intro at_ past
    rw [← Nat.add_sub_of_le past, ← List.drop_drop, same.behind, List.drop_drop]
  have field : ∀ at_ size, 8 ≤ at_ → IpHdr.field f.getAssembledPacket at_ size =
      IpHdr.field (f.header ++ f.ipData) at_ size := by
    intro at_ size past
    rw [IpHdr.field, IpHdr.field, drop at_ past]
  have start : IpHdr.field f.getAssembledPacket 0 1 = IpHdr.field (f.header ++ f.ipData) 0 1 := by
    have one : ∀ l : List Byte, (l.drop 0).take 1 = (l.take 2).take 1 := by
      intro l
      rw [List.take_take]
      rfl
    rw [IpHdr.field, IpHdr.field, one, one, same.start]
  rw [← ntoh_prefix f.ipData long]
  refine ⟨congrArg (· % 16) start, field 9 1 (by omega), field 12 4 (by omega),
    field 16 4 (by omega), ?_⟩
  rw [drop _ (by omega), List.drop_left]

end ActorNet.Net
