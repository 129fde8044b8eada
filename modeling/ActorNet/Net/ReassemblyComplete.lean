import ActorNet.Net.Ipv4Reassembly

/-!
# When a datagram that is handed on is the whole datagram

`is_complete` looks for the flag of a last fragment, a single segment and its
begin. Where that segment ends is not compared with where the last fragment did:
a fragment that reaches behind it makes the datagram longer, and two last
fragments may end in two places. The length written for another cpu is a
`uint16_t`, and the header in front may have options.
-/

namespace ActorNet.Net

open Lib Lib.Slices

/-- The data of a datagram that is complete. -/
def Frag.ipData (f : Frag) : List Byte := (f.data.head?.map Prod.snd).getD []

/-! ## The property -/

/-- `d` is a datagram of `fin` bytes: the fragments without more-fragments end
there, all bytes before have been received, and `d` has as many and those. -/
structure Exactly (pieces : List Piece) (fin : Nat) (d : List Byte) : Prop where
  ended : ∃ x ∈ pieces, x.mf = false
  ends : ∀ x ∈ pieces, x.mf = false → x.fin = fin
  received : ∀ k, k < fin → ∃ x ∈ pieces, x.offset ≤ k ∧ k < x.fin
  length : d.length = fin
  bytes : ∀ k c, d[k]? = some c → ∃ x ∈ pieces, x.offset ≤ k ∧ x.payload[k - x.offset]? = some c

/-- The total length that the header in front of a packet tells. -/
def totalLength (pkt : List Byte) : Nat := IpHdr.field pkt 2 2

/-- What is handed on is the datagram; for another cpu, behind the header that is
kept, which has the fields that are written and tells the true length. -/
def Whole (pieces : List Piece) : Handed → Prop
  | .received _ d _ _ => ∃ fin, Exactly pieces fin d
  | .forwarded _ pkt => ∃ fin, Exactly pieces fin (pkt.drop (headerOf pieces).length) ∧
      8 ≤ (headerOf pieces).length ∧ pkt.length = (headerOf pieces).length + fin ∧
      totalLength pkt = pkt.length

/-- No fragment ends behind one without more-fragments; and where the datagram
goes to another cpu, its header has the fields that are written, and both
together are no longer than a `uint16_t` tells. -/
def FitTogether (pieces : List Piece) (forwarded : Bool) : Prop :=
  (∀ x ∈ pieces, x.mf = false → ∀ y ∈ pieces, y.fin ≤ x.fin) ∧
  (forwarded = true → 8 ≤ (headerOf pieces).length ∧
    ∀ x ∈ pieces, x.mf = false → (headerOf pieces).length + x.fin < 2 ^ 16)

instance (pieces : List Piece) (forwarded : Bool) : Decidable (FitTogether pieces forwarded) :=
  inferInstanceAs (Decidable (_ ∧ _))

def Handed.isForwarded : Handed → Bool
  | .received .. => false
  | .forwarded .. => true

/-! ## The datagram -/

variable {pieces : List Piece} {d : List Byte}

/-- A segment is as long as the furthest fragment reaches. -/
theorem exactly_iff (made : MadeOf pieces 0 d)
    (reaches : ∀ x ∈ pieces, PacketMerger.Reaches [(0, d)] (x.offset, x.payload))
    (ended : ∃ x ∈ pieces, x.mf = false) :
    (∃ fin, Exactly pieces fin d) ↔
      ∀ x ∈ pieces, x.mf = false → ∀ y ∈ pieces, y.fin ≤ x.fin := by
  have inside : ∀ y ∈ pieces, y.fin ≤ d.length := by
    intro y mem
    obtain ⟨z, single, _, high⟩ := reaches y mem
    obtain rfl := List.mem_singleton.mp single
    simpa [Piece.fin] using high
  have bytes : ∀ k c, d[k]? = some c →
      ∃ x ∈ pieces, x.offset ≤ k ∧ x.payload[k - x.offset]? = some c := by
    simpa using made.2
  have received : ∀ k, k < d.length → ∃ x ∈ pieces, x.offset ≤ k ∧ k < x.fin := by
    intro k short
    obtain ⟨x, mem, low, found⟩ := bytes k d[k] (List.getElem?_eq_getElem short)
    obtain ⟨high, _⟩ := List.getElem?_eq_some_iff.mp found
    exact ⟨x, mem, low, by rw [Piece.fin]; omega⟩
  constructor
  · rintro ⟨fin, exactly⟩ x mem last y mem'
    rw [exactly.ends x mem last, ← exactly.length]
    exact inside y mem'
  · intro behind
    obtain ⟨x, mem, last⟩ := ended
    have reach : d.length = x.fin := by
      refine le_antisymm ?_ (inside x mem)
      by_contra longer
      obtain ⟨y, mem', _, high⟩ := received (d.length - 1) (by omega)
      have := behind x mem last y mem'
      omega
    refine ⟨x.fin, ⟨x, mem, last⟩, fun y mem' last' => ?_, ?_, reach, bytes⟩
    · exact le_antisymm (behind x mem last y mem') (behind y mem' last' x mem)
    · rwa [← reach]

/-- What the packet for another cpu is: in the header and the data the total
length and the offset are written. -/
structure AssembledFrom (front pkt : List Byte) : Prop where
  start : pkt.take 2 = front.take 2
  total : (pkt.drop 2).take 2 = toBytesBE 2 front.length
  offset : (pkt.drop 6).take 2 = toBytesBE 2 0
  behind : pkt.drop 8 = front.drop 8
  length : pkt.length = front.length

theorem assembled_fields {f : Frag} (fields : 8 ≤ (f.header ++ f.ipData).length) :
    AssembledFrom (f.header ++ f.ipData) f.getAssembledPacket := by
  have two (n : Nat) : (toBytesBE 2 n).length = 2 := length_toBytesBE 2 n
  have front : ((f.header ++ f.ipData).take 2).length = 2 := by
    rw [List.length_take]
    omega
  have middle : (((f.header ++ f.ipData).drop 4).take 2).length = 2 := by
    rw [List.length_take, List.length_drop]
    omega
  have shape : f.getAssembledPacket = (f.header ++ f.ipData).take 2 ++
      (toBytesBE 2 (f.header ++ f.ipData).length ++ (((f.header ++ f.ipData).drop 4).take 2 ++
        (toBytesBE 2 0 ++ (f.header ++ f.ipData).drop 8))) := by
    unfold Frag.getAssembledPacket Frag.ipData
    simp only [List.append_assoc]
  have behind : f.getAssembledPacket.drop 6 = toBytesBE 2 0 ++ (f.header ++ f.ipData).drop 8 := by
    rw [shape, show 6 = 2 + 2 + 2 from rfl, ← List.drop_drop, ← List.drop_drop,
      List.drop_left' front, List.drop_left' (two _), List.drop_left' middle]
  refine ⟨?_, ?_, ?_, ?_, ?_⟩
  · rw [shape, List.take_left' front]
  · rw [shape, List.drop_left' front, List.take_left' (two _)]
  · rw [behind, List.take_left' (two _)]
  · rw [show 8 = 6 + 2 from rfl, ← List.drop_drop, behind, List.drop_left' (two _)]
  · rw [shape]
    simp only [List.length_append, front, two, middle, List.length_drop] at fields ⊢
    omega

/-- What is written lies in the header. -/
theorem assembled_parts {f : Frag} {b : BitVec 32} (data : f.data = [(b, d)])
    (fields : 8 ≤ f.header.length) :
    f.getAssembledPacket.drop f.header.length = d ∧
      f.getAssembledPacket.length = f.header.length + d.length ∧
      totalLength f.getAssembledPacket = (f.header.length + d.length) % 2 ^ 16 := by
  have payload : f.ipData = d := by
    rw [Frag.ipData, data]
    rfl
  have same := assembled_fields (f := f) (by rw [List.length_append]; omega)
  rw [payload] at same
  refine ⟨?_, ?_, ?_⟩
  · rw [← Nat.add_sub_of_le fields, ← List.drop_drop, same.behind, List.drop_drop,
      Nat.add_sub_of_le fields, List.drop_left]
  · rw [same.length, List.length_append]
  · rw [totalLength, IpHdr.field, same.total, List.length_append, ofBytesBE, toBytesBE,
      List.reverse_reverse, ofBytesLE_toBytesLE]
    rfl

/-! ## What is handed on -/

/-- A datagram that is handed on is the one its fragments are of just if they
fit together. -/
theorem whole_iff {r : Receiver} {h : IpHdr} {f : Frag} {m : PacketMerger.Map Nat}
    (gathered : Gathered pieces f m) (complete : f.isComplete = true) {out : Handed}
    (handed : r.handOn h f = [out]) :
    Whole pieces out ↔ FitTogether pieces out.isForwarded := by
  obtain ⟨d, rfl, data, ended⟩ := gathered.complete complete
  have ends := exactly_iff gathered.each.head gathered.reaches ended
  unfold Receiver.handOn at handed
  split at handed
  · cases handed
  · simp only [data, List.head?_cons, Option.map_some, Option.getD_some] at handed
    split at handed
    · obtain rfl := (List.cons.inj handed).1
      simp only [Whole, FitTogether, Handed.isForwarded, ends, Bool.false_eq_true, false_imp_iff,
        and_true]
    · obtain rfl := (List.cons.inj handed).1
      simp only [Whole, FitTogether, Handed.isForwarded, true_imp_iff]
      rw [← gathered.header]
      constructor
      · rintro ⟨fin, exactly, fields, length, told⟩
        obtain ⟨payload, _, total⟩ := assembled_parts data fields
        rw [payload] at exactly
        have shorter : totalLength f.getAssembledPacket < 2 ^ 16 := by
          rw [total]
          exact Nat.mod_lt _ (Nat.two_pow_pos 16)
        refine ⟨ends.mp ⟨fin, exactly⟩, fields, fun x mem last => ?_⟩
        rw [exactly.ends x mem last, ← length, ← told]
        exact shorter
      · rintro ⟨behind, fields, short⟩
        obtain ⟨payload, length, total⟩ := assembled_parts data fields
        obtain ⟨fin, exactly⟩ := ends.mpr behind
        obtain ⟨x, mem, last⟩ := exactly.ended
        have small := short x mem last
        rw [exactly.ends x mem last, ← exactly.length] at small
        refine ⟨fin, by rwa [payload], fields, by rw [length, exactly.length], ?_⟩
        rw [total, Nat.mod_eq_of_lt small, length]

/-- A fragment of 8 bytes. -/
def eightBytes (frag : Nat) (b : Byte) : List Byte :=
  IpHdr.hton ⟨5, 4, 0, 0, 28, 7, frag, 64, 17, 0, 1, 2⟩ ++ List.replicate 8 b

/-- The receiver on host 2, all of whose connections are on its own cpu. -/
def hostTwo : Receiver := ⟨true, 2, none, 0, fun _ => 0⟩

/-- The fragment with the first 8 bytes, which comes last. -/
def firstHalf : Piece := ⟨0, true, (eightBytes 0x2000 1).take 20, List.replicate 8 1⟩

/-- After a run: the fragments of the datagram that have come, what has been
handed on, and what has been handed on when the first 8 bytes come as well. -/
def beforeFirstHalf (es : List Input) :
    Option (List Piece × List Handed × Option (List Handed)) :=
  (exec hostTwo.observe Reception.start es).map fun w =>
    (w.seen ⟨1, 2, 7, 17⟩, w.state.handed, (hostTwo.handleReceivedPacket false w.state
      (eightBytes 0x2000 1)).map ReceiveState.handed)

theorem beforeFirstHalf_some {es : List Input} {seen : List Piece} {old new : List Handed}
    (result : beforeFirstHalf es = some (seen, old, some new)) :
    ∃ w s, exec hostTwo.observe Reception.start es = some w ∧ w.seen ⟨1, 2, 7, 17⟩ = seen ∧
      w.state.handed = old ∧
      hostTwo.handleReceivedPacket false w.state (eightBytes 0x2000 1) = some s ∧
      s.handed = new := by
  obtain ⟨w, ran, result⟩ := Option.map_eq_some_iff.mp result
  simp only [Prod.mk.injEq] at result
  obtain ⟨same, before, handled⟩ := result
  obtain ⟨s, handled, after⟩ := Option.map_eq_some_iff.mp handled
  exact ⟨w, s, ran, same, before, handled, after⟩

end ActorNet.Net
