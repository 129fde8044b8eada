import ActorNet.Tcp.Reassembly

/-!
# The receive window

The receive half of a connection by itself. What is buffered is counted, and the
window is what the count leaves of the buffer, but no more than the default. The
segments that are kept until the gap before them closes reach no further behind
the right edge than a segment is long, so together they fill the buffer by no
more than the last of them. The right edge stays where it is while the buffer
fills, and moves to the right when it is read.
-/

namespace ActorNet.Tcp

open Lib Lib.Slices Net PacketMerger

namespace Receive

variable {r : Receive}

/-- The bytes that wait to be read. -/
def buffered (r : Receive) : Nat := (r.data.map List.length).sum

/-- `get_default_receive_window_size` and `get_modified_receive_window_size`. -/
def default (r : Receive) : BitVec 32 := 29200#32 <<< r.windowScale.toNat

def offered (r : Receive) : BitVec 32 :=
  let left : BitVec 32 :=
    if maxReceiveBufSize < r.dataSize then 0
    else (maxReceiveBufSize - r.dataSize).setWidth 32
  min left r.default

/-- The first number behind the window. -/
def rightEdge (r : Receive) : TcpSeq := r.next + r.window.toNat

/-- What is buffered is counted, and there is room for one segment more than the
buffer is to hold. -/
structure Counted (r : Receive) : Prop where
  size : r.dataSize.toNat = r.buffered
  most : r.buffered ≤ maxReceiveBufSize.toNat + 65534

/-- The window is what the count leaves of the buffer. -/
structure Offers (r : Receive) : Prop where
  scale : r.windowScale.toNat ≤ 7
  window : r.window = r.offered

/-- How far behind RCV.NXT a segment may reach. -/
def reach (r : Receive) : Nat := r.window.toNat + 65534

/-- The pieces of segments that reach no further. -/
def Within (size b : Nat) (d : List Byte) : Prop := b + d.length ≤ size

/-- The segments that wait for a gap to close. -/
def Waits (r : Receive) : Prop :=
  ∃ m : Map Nat, r.outOfOrder = placed r.next.place m ∧ Gapped m ∧
    Each (Tcb.Behind (Within r.reach) 0) m

theorem toNat_default (scale : r.windowScale.toNat ≤ 7) :
    r.default.toNat = 29200 * 2 ^ r.windowScale.toNat := by
  have power : 2 ^ r.windowScale.toNat ≤ 2 ^ 7 := Nat.pow_le_pow_right (by decide) scale
  have value : (29200#32).toNat = 29200 := rfl
  unfold default
  rw [BitVec.toNat_shiftLeft, value, Nat.shiftLeft_eq]
  exact Nat.mod_eq_of_lt (by omega)

theorem default_le (scale : r.windowScale.toNat ≤ 7) : r.default.toNat ≤ 3737600 := by
  have power : 2 ^ r.windowScale.toNat ≤ 2 ^ 7 := Nat.pow_le_pow_right (by decide) scale
  rw [toNat_default scale]
  omega

/-- The window, as a number. -/
theorem toNat_offered (r : Receive) :
    r.offered.toNat = min (3737600 - r.dataSize.toNat) r.default.toNat := by
  have value : maxReceiveBufSize.toNat = 3737600 := rfl
  unfold offered
  rw [toNat_min]
  congr 1
  split
  · rename_i beyond
    have beyond : maxReceiveBufSize.toNat < r.dataSize.toNat := beyond
    show 0 = _
    omega
  · rename_i fits
    have fits : r.dataSize.toNat ≤ maxReceiveBufSize.toNat := Nat.not_lt.mp fits
    rw [BitVec.toNat_setWidth, BitVec.toNat_sub_of_le fits, value]
    exact Nat.mod_eq_of_lt (by omega)

/-- An empty buffer leaves the default. -/
theorem offered_empty (scale : r.windowScale.toNat ≤ 7) (size : r.dataSize = 0) :
    r.offered = r.default := by
  have limit := default_le scale
  apply BitVec.eq_of_toNat_eq
  rw [toNat_offered, size]
  show min (3737600 - 0) _ = _
  omega

theorem Offers.le (offers : r.Offers) : r.window.toNat ≤ 3737600 := by
  have most := default_le offers.scale
  rw [offers.window, toNat_offered]
  omega

theorem Counted.empty (counted : r.Counted) (nothing : r.data = []) : r.dataSize = 0 := by
  apply BitVec.eq_of_toNat_eq
  rw [counted.size, buffered, nothing]
  rfl

/-! ## Text -/

/-- The text of a segment joins the buffer, with what waited for it. -/
def takeText (data : List Byte) (r : Receive) : Receive :=
  let m := Tcb.takeMergeable (r.next + data.length) r.outOfOrder
  let r := { r with
    next := m.next
    data := r.data ++ [data] ++ m.pieces
    dataSize := r.dataSize + BitVec.ofNat 64 data.length +
      BitVec.ofNat 64 (m.pieces.map List.length).sum
    outOfOrder := m.map }
  { r with window := r.offered }

/-- `read`. -/
def emptied (r : Receive) : Receive := { r with dataSize := 0, data := [], window := r.default }

/-- The same pieces, by their distance to a later number. -/
theorem placed_later (first : TcpSeq) {P : Nat → List Byte → Prop} {n : Nat} {m : Map Nat}
    (behind : Each (Tcb.Behind P n) m) :
    placed (first.place n).place (m.map fun x => (x.1 - n, x.2)) = placed first.place m := by
  unfold placed
  rw [List.map_map]
  apply List.map_congr_left
  intro x mem
  have later : n < x.1 := (behind x mem).2
  have same : (first.place n).place (x.1 - n) = first.place x.1 := by
    show first.place n + (x.1 - n) = _
    rw [TcpSeq.place_add, show n + (x.1 - n) = x.1 by omega]
  show ((first.place n).place (x.1 - n), x.2) = _
  rw [same]

theorem gapped_later {P : Nat → List Byte → Prop} {n : Nat} {m : Map Nat} (gapped : Gapped m)
    (behind : Each (Tcb.Behind P n) m) : Gapped (m.map fun x => (x.1 - n, x.2)) := by
  unfold Gapped
  rw [List.pairwise_map]
  refine List.Pairwise.imp_of_mem ?_ gapped
  intro x y left right apart
  have first : n < x.1 := (behind x left).2
  have second : n < y.1 := (behind y right).2
  show x.1 - n + x.2.length < y.1 - n
  omega

/-- What the loop takes ends where a piece ends, or where it began. -/
theorem takenPieces_bounded {P : Nat → List Byte → Prop} {n n' size : Nat} {m m' : Map Nat}
    {ds : List (List Byte)} (taken : Tcb.TakenPieces P n m n' ds m') (pieces : Pieces P size)
    (each : Each P m) (inside : n ≤ size) : n' ≤ size := by
  by_cases grown : n' ≤ n
  · omega
  have covered := (taken.covers (n' - 1)).mp (.inl (by omega))
  rcases covered with before | ⟨x, mem, _, high⟩
  · omega
  · have end_ := pieces.inside _ _ (each x mem)
    omega

theorem within_cut {size : Nat} (b : Nat) (d : List Byte) (k : Nat) (within : Within size b d)
    (short : k ≤ d.length) : Within size (b + k) (d.drop k) := by
  unfold Within at *
  rw [List.length_drop]
  omega

/-- How a step moves the right edge: to the right, by no more than this. -/
def EdgeMoves (r r' : Receive) (most : Nat) : Prop :=
  ∃ k, k ≤ most ∧ r'.rightEdge = r.rightEdge + k

/-- The edge of a window that begins later. -/
theorem edge_moves {r r' : Receive} {n most : Nat} (next : r'.next = r.next.place n)
    (right : r.window.toNat ≤ n + r'.window.toNat) (near : n + r'.window.toNat ≤ most) :
    EdgeMoves r r' most := by
  refine ⟨n + r'.window.toNat - r.window.toNat, by omega, ?_⟩
  show r'.next + r'.window.toNat = r.next.place r.window.toNat + _
  rw [next, TcpSeq.place_add, TcpSeq.place_add]
  congr 1
  omega

/-- Text that begins at RCV.NXT, in an open window: all of it is counted, and
the right edge does not move back. -/
theorem takeText_spec (counted : r.Counted) (offers : r.Offers) (waits : r.Waits)
    {data : List Byte} (short : data.length ≤ 65535) (open_ : r.window ≠ 0) :
    (r.takeText data).Counted ∧ (r.takeText data).Offers ∧ (r.takeText data).Waits ∧
      EdgeMoves r (r.takeText data) (2 ^ 23) := by
  obtain ⟨m, map, gapped, each⟩ := waits
  have size := counted.size
  have value : maxReceiveBufSize.toNat = 3737600 := rfl
  have window := toNat_offered r
  rw [← offers.window, size] at window
  have positive : r.window.toNat ≠ 0 := fun zero => open_ (BitVec.eq_of_toNat_eq zero)
  have limit := offers.le
  have each' : Each (Within r.reach) m := fun x mem => (each x mem).1
  have fits : data.length ≤ r.reach := by
    unfold reach
    omega
  obtain ⟨n', ds, m', run, taken⟩ := @Tcb.takeMergeable_pieces r.next _ _
    (pieces_length r.reach) (show r.reach < 2 ^ 31 by unfold reach; omega) within_cut _ _ fits
    gapped each'
  have bounded : n' ≤ r.window.toNat + 65534 :=
    takenPieces_bounded taken (pieces_length r.reach) each' fits
  have total : n' = data.length + (ds.map List.length).sum := by
    rw [← List.length_flatten]
    exact taken.next
  have merged : Tcb.takeMergeable (r.next + data.length) r.outOfOrder =
      ⟨r.next.place n', ds, placed r.next.place m', true⟩ := map ▸ run
  have size' : (r.takeText data).dataSize.toNat = r.buffered + n' := by
    unfold takeText
    rw [merged]
    show (r.dataSize + BitVec.ofNat 64 data.length +
      BitVec.ofNat 64 (ds.map List.length).sum).toNat = _
    rw [BitVec.toNat_add, BitVec.toNat_add, BitVec.toNat_ofNat, BitVec.toNat_ofNat, size]
    omega
  have buffered' : (r.takeText data).buffered = r.buffered + n' := by
    unfold takeText buffered
    rw [merged]
    simp only [List.map_append, List.sum_append, List.map_cons, List.map_nil, List.sum_cons,
      List.sum_nil]
    omega
  have scale' : (r.takeText data).windowScale = r.windowScale := rfl
  have next' : (r.takeText data).next = r.next.place n' := by
    unfold takeText
    rw [merged]
  have window' : (r.takeText data).window.toNat =
      min (3737600 - (r.buffered + n')) r.default.toNat := by
    have value := toNat_offered (r.takeText data)
    rw [size'] at value
    exact value
  have room := default_le offers.scale
  refine ⟨⟨by rw [size', buffered'], by rw [buffered']; omega⟩, ⟨offers.scale, rfl⟩, ?_,
    edge_moves next' (by omega) (by omega)⟩
  refine ⟨m'.map fun x => (x.1 - n', x.2), ?_, gapped_later taken.gapped taken.behind, ?_⟩
  · rw [next', placed_later r.next taken.behind]
    unfold takeText
    rw [merged]
  · intro x mem
    obtain ⟨y, mem', rfl⟩ := List.mem_map.mp mem
    obtain ⟨inside, later⟩ := taken.behind y mem'
    have inside : y.1 + y.2.length ≤ r.window.toNat + 65534 := inside
    refine ⟨?_, show 0 < y.1 - n' by omega⟩
    show y.1 - n' + y.2.length ≤ (r.takeText data).window.toNat + 65534
    omega

/-! ## The other steps -/

theorem emptied_window (offers : r.Offers) :
    r.emptied.Offers ∧ r.window.toNat ≤ r.emptied.window.toNat := by
  have before := toNat_offered r
  rw [← offers.window] at before
  refine ⟨⟨offers.scale, (@offered_empty r.emptied offers.scale rfl).symm⟩, ?_⟩
  show _ ≤ r.default.toNat
  omega

theorem emptied_waits (offers : r.Offers) (waits : r.Waits) : r.emptied.Waits := by
  have grown := (emptied_window offers).2
  obtain ⟨m, map, gapped, each⟩ := waits
  refine ⟨m, map, gapped, fun x mem => ⟨?_, (each x mem).2⟩⟩
  have inside : x.1 + x.2.length ≤ r.window.toNat + 65534 := (each x mem).1
  show x.1 + x.2.length ≤ r.emptied.window.toNat + 65534
  omega

theorem emptied_moves (offers : r.Offers) : EdgeMoves r r.emptied (2 ^ 23) := by
  obtain ⟨_, grown⟩ := emptied_window offers
  have limit := default_le offers.scale
  refine edge_moves (TcpSeq.place_zero r.next).symm (by omega) ?_
  show 0 + r.default.toNat ≤ _
  omega

/-- A half that the peer's SYN has opened. -/
theorem opened_spec (size : r.dataSize = 0) (data : r.data = []) (waiting : r.outOfOrder = [])
    (scale : r.windowScale.toNat ≤ 7) (window : r.window = r.default) :
    r.Counted ∧ r.Offers ∧ r.Waits := by
  refine ⟨⟨?_, ?_⟩, ⟨scale, window.trans (offered_empty scale size).symm⟩, [], waiting, .nil,
    List.forall_mem_nil _⟩
  · rw [size, buffered, data]
    rfl
  · rw [buffered, data]
    exact Nat.zero_le _

/-- A segment that begins behind RCV.NXT and reaches no further than the others. -/
theorem insert_spec (waits : r.Waits) (offers : r.Offers) {b : Nat} {p : List Byte}
    (behind : 0 < b) (inside : b + p.length ≤ r.reach) :
    ∃ map, merge (r.next.place b) p r.outOfOrder = some map ∧ { r with outOfOrder := map }.Waits := by
  obtain ⟨m, map, gapped, each⟩ := waits
  have limit := offers.le
  have pieces := @Tcb.pieces_behind _ _ (pieces_length r.reach) 0
  obtain ⟨m', run, gapped', each', _⟩ := @merge_spec TcpSeq _ _ _ _ b p m _
    (TcpSeq.window_place r.next) pieces (show r.reach < 2 ^ 31 by unfold reach; omega) gapped each
    ⟨inside, behind⟩
  refine ⟨placed r.next.place m', ?_, m', rfl, gapped', each'⟩
  rw [map]
  exact run

/-- The FIN takes a number. -/
theorem fin_moves (offers : r.Offers) {next : TcpSeq} (fin : next = r.next) :
    EdgeMoves r { r with next := next + 1 } (2 ^ 23) := by
  have limit := offers.le
  refine edge_moves (n := 1) (by rw [fin]; rfl) ?_ ?_
  · show r.window.toNat ≤ 1 + r.window.toNat
    omega
  · show 1 + r.window.toNat ≤ _
    omega

end Receive

end ActorNet.Tcp
