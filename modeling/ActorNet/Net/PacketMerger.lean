import Mathlib.Tactic.SplitIfs
import ActorNet.Lib.Bytes
import ActorNet.Lib.Run
import ActorNet.Lib.Slices

/-!
# The packet merger

`packet_merger` keeps the segments that arrived out of order, keyed by their
offset, and joins what touches. Offsets are natural numbers, `uint32_t` or TCP
sequence numbers; a `Window` places the offsets of one stream in such a type. In
a window `merge` takes the union of the offsets, keeps the segments gapped and
neither fails an assertion nor aborts (`merge_spec`).
-/

namespace ActorNet.Net

open Lib Lib.Slices

/-- What `packet_merger` needs of its offsets. -/
class Offset (ω : Type) where
  add : ω → Nat → ω
  /-- A difference, as the `size_t` that `trim_front` takes. -/
  sub : ω → ω → Nat
  lt : ω → ω → Bool

namespace Offset

variable {ω : Type} [Offset ω]

def le (a b : ω) : Bool := !lt b a

instance : Offset Nat := ⟨(· + ·), (· - ·), fun a b => decide (a < b)⟩

/-- `uint32_t`. -/
instance : Offset (BitVec 32) where
  add a n := a + BitVec.ofNat 32 n
  sub a b := (a - b).toNat
  lt := BitVec.ult

end Offset

namespace PacketMerger

open Offset

variable {ω : Type} [Offset ω]

/-- `std::map<Offset, packet>`, in the order of its keys. -/
abbrev Map (ω : Type) := List (ω × List Byte)

/-- `packet::trim_front`; `none` is its assertion. -/
def trimFront (howMuch : Nat) (p : List Byte) : Option (List Byte) :=
  if howMuch ≤ p.length then some (p.drop howMuch) else none

/-- How the first loop of `merge` ends: the data is there already, it was
appended to an old segment, or a packet is left to insert. -/
inductive Found (ω : Type)
  | present
  | appended (map : Map ω)
  | insert (map : Map ω) (p : List Byte)

/-- A segment the loop has passed stays in the map. -/
def Found.keep (seg : ω × List Byte) : Found ω → Found ω
  | present => present
  | appended map => appended (seg :: map)
  | insert map p => insert (seg :: map) p

/-- The first loop of `merge`. -/
def find (beg : ω) (p : List Byte) : Map ω → Option (Found ω)
  | [] => some (.insert [] p)
  | (segBeg, seg) :: rest =>
      let fin := add beg p.length
      let segEnd := add segBeg seg.length
      if le segBeg beg && le fin segEnd then some .present
      else if le beg segBeg && le segEnd fin then some (.insert rest p)
      else if lt beg segBeg && le segBeg fin && le fin segEnd then
        (trimFront (sub fin segBeg) seg).map fun tail => .insert rest (p ++ tail)
      else if le segBeg beg && le beg segEnd && lt segEnd fin then
        (trimFront (sub segEnd beg) p).map fun tail => .appended ((segBeg, seg ++ tail) :: rest)
      else (find beg p rest).map (Found.keep (segBeg, seg))

/-- `map.emplace`, which leaves the map alone when the key is present. -/
def emplace (beg : ω) (p : List Byte) : Map ω → Map ω
  | [] => [(beg, p)]
  | seg :: rest =>
      if lt beg seg.1 then (beg, p) :: seg :: rest
      else if lt seg.1 beg then seg :: emplace beg p rest
      else seg :: rest

/-- The second loop of `merge`, at the segment `seg`; `none` is `abort`. -/
def mergeAdjacent (segBeg : ω) (seg : List Byte) : Map ω → Option (Map ω)
  | [] => some [(segBeg, seg)]
  | (beg, p) :: rest =>
      let segEnd := add segBeg seg.length
      let fin := add beg p.length
      if le segBeg beg && le beg segEnd && lt segEnd fin then
        (trimFront (sub segEnd beg) p).bind fun tail => mergeAdjacent segBeg (seg ++ tail) rest
      else if le fin segEnd then mergeAdjacent segBeg seg rest
      else if lt segEnd beg then (mergeAdjacent beg p rest).map ((segBeg, seg) :: ·)
      else none

def mergeAll : Map ω → Option (Map ω)
  | [] => some []
  | (segBeg, seg) :: rest => mergeAdjacent segBeg seg rest

/-- `packet_merger::merge`. -/
def merge (offset : ω) (p : List Byte) (map : Map ω) : Option (Map ω) :=
  match find offset p map with
  | none => none
  | some .present => some map
  | some (.appended map) => mergeAll map
  | some (.insert map p) => mergeAll (emplace offset p map)

/-! ## How much there is -/

/-- The bytes of the segments, with `unit` for each segment. -/
def weight (unit : Nat) (m : Map ω) : Nat := (m.map fun x => x.2.length + unit).sum

omit [Offset ω] in
theorem weight_cons (unit : Nat) (x : ω × List Byte) (m : Map ω) :
    weight unit (x :: m) = x.2.length + unit + weight unit m := rfl

theorem length_trimFront {n : Nat} {p q : List Byte} (trimmed : trimFront n p = some q) :
    q.length ≤ p.length := by
  unfold trimFront at trimmed
  split at trimmed
  · obtain rfl := Option.some.inj trimmed
    rw [List.length_drop]
    exact Nat.sub_le _ _
  · cases trimmed

/-- What the first loop leaves weighs no more than the segments and the packet. -/
def Found.Weighs (unit : Nat) (p : List Byte) (m : Map ω) : Found ω → Prop
  | present => True
  | appended m' => weight unit m' ≤ weight unit m + p.length
  | insert m' p' => weight unit m' + p'.length ≤ weight unit m + p.length

theorem find_weighs (unit : Nat) {beg : ω} {p : List Byte} {m : Map ω} {found : Found ω}
    (run : find beg p m = some found) : found.Weighs unit p m := by
  induction m generalizing found with
  | nil =>
      obtain rfl := Option.some.inj run
      exact le_rfl
  | cons x rest ih =>
      obtain ⟨segBeg, seg⟩ := x
      unfold find at run
      dsimp only at run
      split at run
      · obtain rfl := Option.some.inj run
        trivial
      split at run
      · obtain rfl := Option.some.inj run
        simp only [Found.Weighs, weight_cons]
        omega
      split at run
      · obtain ⟨tail, trimmed, rfl⟩ := Option.map_eq_some_iff.mp run
        have := length_trimFront trimmed
        simp only [Found.Weighs, weight_cons, List.length_append]
        omega
      split at run
      · obtain ⟨tail, trimmed, rfl⟩ := Option.map_eq_some_iff.mp run
        have := length_trimFront trimmed
        simp only [Found.Weighs, weight_cons, List.length_append]
        omega
      · obtain ⟨later, search, rfl⟩ := Option.map_eq_some_iff.mp run
        have weighs := ih search
        cases later with
        | present => trivial
        | appended m' =>
            simp only [Found.Weighs, Found.keep, weight_cons] at weighs ⊢
            omega
        | insert m' p' =>
            simp only [Found.Weighs, Found.keep, weight_cons] at weighs ⊢
            omega

theorem emplace_weight (unit : Nat) (beg : ω) (p : List Byte) (m : Map ω) :
    weight unit (emplace beg p m) ≤ weight unit m + (p.length + unit) := by
  induction m with
  | nil => exact Nat.le_of_eq (Nat.add_comm _ _)
  | cons x rest ih =>
      unfold emplace
      split
      · simp only [weight_cons]
        omega
      split
      · simp only [weight_cons] at ih ⊢
        omega
      · exact Nat.le_add_right _ _

theorem mergeAdjacent_weight (unit : Nat) {segBeg : ω} {seg : List Byte} {m m' : Map ω}
    (run : mergeAdjacent segBeg seg m = some m') :
    weight unit m' ≤ weight unit ((segBeg, seg) :: m) := by
  induction m generalizing segBeg seg m' with
  | nil =>
      obtain rfl := Option.some.inj run
      exact le_rfl
  | cons x rest ih =>
      obtain ⟨beg, p⟩ := x
      unfold mergeAdjacent at run
      dsimp only at run
      split at run
      · obtain ⟨tail, trimmed, run⟩ := Option.bind_eq_some_iff.mp run
        have := length_trimFront trimmed
        have weighs := ih run
        simp only [weight_cons, List.length_append] at weighs ⊢
        omega
      split at run
      · have weighs := ih run
        simp only [weight_cons] at weighs ⊢
        omega
      split at run
      · obtain ⟨later, onward, rfl⟩ := Option.map_eq_some_iff.mp run
        have weighs := ih onward
        simp only [weight_cons] at weighs ⊢
        omega
      · cases run

theorem mergeAll_weight (unit : Nat) {m m' : Map ω} (run : mergeAll m = some m') :
    weight unit m' ≤ weight unit m := by
  cases m with
  | nil =>
      obtain rfl := Option.some.inj run
      exact le_rfl
  | cons x rest => exact mergeAdjacent_weight unit run

/-- A packet more makes the segments heavier by no more than itself. -/
theorem merge_weight (unit : Nat) {beg : ω} {p : List Byte} {m m' : Map ω}
    (run : merge beg p m = some m') : weight unit m' ≤ weight unit m + (p.length + unit) := by
  unfold merge at run
  cases search : find beg p m with
  | none =>
      rw [search] at run
      cases run
  | some found =>
      have weighs := find_weighs unit search
      rw [search] at run
      cases found with
      | present =>
          obtain rfl := Option.some.inj run
          exact Nat.le_add_right _ _
      | appended m₁ =>
          have merged := mergeAll_weight unit run
          simp only [Found.Weighs] at weighs
          omega
      | insert m₁ p' =>
          have merged := mergeAll_weight unit run
          have placed := emplace_weight unit beg p' m₁
          simp only [Found.Weighs] at weighs
          omega

/-! ## Offsets of one stream -/

/-- `place` puts the offsets below `size` into `ω`, in order. -/
structure Window (place : Nat → ω) (size : Nat) : Prop where
  add : ∀ k n, k + n < size → add (place k) n = place (k + n)
  sub : ∀ k l, k ≤ l → l < size → sub (place l) (place k) = l - k
  lt : ∀ k l, k < size → l < size → lt (place k) (place l) = decide (k < l)

theorem Window.le {place : Nat → ω} {size : Nat} (window : Window place size) {k l : Nat}
    (left : k < size) (right : l < size) : le (place k) (place l) = decide (k ≤ l) := by
  rw [Offset.le, window.lt l k right left, ← decide_not]
  exact decide_eq_decide.mpr Nat.not_lt

theorem window_nat (size : Nat) : Window (id : Nat → Nat) size :=
  ⟨fun _ _ _ => rfl, fun _ _ _ _ => rfl, fun _ _ _ _ => rfl⟩

/-- `uint32_t` holds the offsets below 2^32. -/
theorem window_uint32 : Window (BitVec.ofNat 32) (2 ^ 32) where
  add k n _ := (BitVec.ofNat_add k n).symm
  sub k l ordered inside := by
    show (BitVec.ofNat 32 l - BitVec.ofNat 32 k).toNat = l - k
    rw [BitVec.toNat_sub, BitVec.toNat_ofNat, BitVec.toNat_ofNat]
    omega
  lt k l left right := by
    show BitVec.ult _ _ = _
    rw [BitVec.ult, BitVec.toNat_ofNat, BitVec.toNat_ofNat, Nat.mod_eq_of_lt left,
      Nat.mod_eq_of_lt right]

/-- A map of natural offsets, in another type of offsets. -/
def placed (place : Nat → ω) (m : Map Nat) : Map ω := m.map fun x => (place x.1, x.2)

def Found.placed (place : Nat → ω) : Found Nat → Found ω
  | present => present
  | appended map => appended (PacketMerger.placed place map)
  | insert map p => insert (PacketMerger.placed place map) p

/-! ## Natural offsets -/

section Nat

variable {P : Nat → List Byte → Prop} {size : Nat} {b : Nat} {p : List Byte} {m : Map Nat}

@[simp] theorem add_nat (k n : Nat) : Offset.add k n = k + n := rfl
@[simp] theorem sub_nat (k l : Nat) : Offset.sub k l = k - l := rfl
@[simp] theorem lt_nat (k l : Nat) : Offset.lt k l = decide (k < l) := rfl
@[simp] theorem le_nat (k l : Nat) : Offset.le k l = decide (k ≤ l) :=
  (window_nat (max k l + 1)).le (by omega) (by omega)

/-- What the first loop of `merge` does to a map of slices. -/
def Found.Spec (P : Nat → List Byte → Prop) (b : Nat) (p : List Byte) (m : Map Nat) : Found Nat → Prop
  | present => ∀ k, b ≤ k → k < b + p.length → Covers m k
  | appended m' => Increasing m' ∧ Each P m' ∧ (∀ x ∈ m', ∃ y ∈ m, y.1 = x.1) ∧
      ∀ k, Covers m' k ↔ Covers m k ∨ b ≤ k ∧ k < b + p.length
  | insert m' p' => Increasing m' ∧ Each P m' ∧ P b p' ∧
      (∀ x ∈ m', x.1 ≠ b ∧ ∃ y ∈ m, y.1 = x.1) ∧
      ∀ k, Covers m' k ∨ b ≤ k ∧ k < b + p'.length ↔ Covers m k ∨ b ≤ k ∧ k < b + p.length

/-- The first loop may pass a segment that begins elsewhere. -/
theorem Found.Spec.keep {x : Nat × List Byte} {found : Found Nat} (spec : found.Spec P b p m)
    (increasing : Increasing (x :: m)) (slice : P x.1 x.2) (elsewhere : x.1 ≠ b) :
    (found.keep x).Spec P b p (x :: m) := by
  have later := (List.pairwise_cons.mp increasing).1
  have keys {m' : Map Nat} (old : ∀ y ∈ m', ∃ z ∈ m, z.1 = y.1) :
      (∀ y ∈ m', x.1 < y.1) ∧ ∀ y ∈ x :: m', ∃ z ∈ x :: m, z.1 = y.1 := by
    constructor
    · intro y mem
      obtain ⟨z, mem', same⟩ := old y mem
      exact same ▸ later z mem'
    · intro y mem
      rcases List.mem_cons.mp mem with rfl | mem
      · exact ⟨y, List.mem_cons_self, rfl⟩
      · obtain ⟨z, mem', same⟩ := old y mem
        exact ⟨z, List.mem_cons_of_mem _ mem', same⟩
  cases found with
  | present => exact fun k low high => covers_cons.mpr (.inr (spec k low high))
  | appended m' =>
      obtain ⟨increasing', sliced, old, cover⟩ := spec
      obtain ⟨above, old'⟩ := keys old
      refine ⟨List.pairwise_cons.mpr ⟨above, increasing'⟩, sliced.cons slice, old', fun k => ?_⟩
      rw [covers_cons, covers_cons, cover, or_assoc]
  | insert m' p' =>
      obtain ⟨increasing', sliced, slice', old, cover⟩ := spec
      obtain ⟨above, old'⟩ := keys fun y mem => (old y mem).2
      refine ⟨List.pairwise_cons.mpr ⟨above, increasing'⟩, sliced.cons slice, slice',
        fun y mem => ⟨?_, old' y mem⟩, fun k => ?_⟩
      · rcases List.mem_cons.mp mem with rfl | mem
        · exact elsewhere
        · exact (old y mem).1
      · rw [covers_cons, covers_cons, or_assoc, cover, or_assoc]

/-- The first loop keeps the union of the offsets. -/
theorem find_spec (pieces : Pieces P size) (increasing : Increasing m) (sliced : Each P m) (slice : P b p) :
    ∃ found, find b p m = some found ∧ found.Spec P b p m := by
  induction m with
  | nil => exact ⟨_, rfl, .nil, sliced, slice, by simp, fun k => Iff.rfl⟩
  | cons x rest ih =>
      obtain ⟨segBeg, seg⟩ := x
      have head : P segBeg seg := sliced.head
      have cover (k : Nat) : Covers ((segBeg, seg) :: rest) k ↔
          segBeg ≤ k ∧ k < segBeg + seg.length ∨ Covers rest k := covers_cons
      obtain ⟨later, increasing'⟩ := List.pairwise_cons.mp increasing
      have key (y : Nat × List Byte) (mem : y ∈ rest) : ∃ z ∈ (segBeg, seg) :: rest, z.1 = y.1 :=
        ⟨y, List.mem_cons_of_mem _ mem, rfl⟩
      simp only [find, add_nat, le_nat, lt_nat, sub_nat, Bool.and_eq_true, decide_eq_true_eq]
      split
      · rename_i inside
        exact ⟨_, rfl, fun k low high => (cover k).mpr (.inl (by omega))⟩
      split
      · rename_i around
        refine ⟨_, rfl, increasing', sliced.tail, slice, fun y mem => ⟨?_, key y mem⟩, fun k => ?_⟩
        · have : segBeg < y.1 := later y mem
          omega
        · rw [cover]
          by_cases old : Covers rest k
          · simp only [old, true_or, or_true]
          · simp only [old, or_false, false_or]
            omega
      split
      · rename_i front
        have short : b + p.length - segBeg ≤ seg.length := by omega
        have joined := pieces.join _ _ _ _ slice head (by omega) (by omega) (by omega)
        have length := @length_join Byte p seg b segBeg (by omega) (by omega)
        simp only [trimFront, if_pos short, Option.map_some]
        refine ⟨_, rfl, increasing', sliced.tail, joined, fun y mem => ⟨?_, key y mem⟩,
          fun k => ?_⟩
        · have : segBeg < y.1 := later y mem
          omega
        · rw [cover, length]
          by_cases old : Covers rest k
          · simp only [old, true_or, or_true]
          · simp only [old, or_false, false_or]
            omega
      split
      · rename_i back
        have short : segBeg + seg.length - b ≤ p.length := by omega
        have joined := pieces.join _ _ _ _ head slice (by omega) (by omega) (by omega)
        have length := @length_join Byte seg p segBeg b (by omega) (by omega)
        simp only [trimFront, if_pos short, Option.map_some]
        refine ⟨_, rfl, List.pairwise_cons.mpr ⟨later, increasing'⟩, sliced.tail.cons joined,
          ?_, fun k => ?_⟩
        · intro y mem
          rcases List.mem_cons.mp mem with rfl | old
          · exact ⟨_, List.mem_cons_self, rfl⟩
          · exact key y old
        · simp only [cover, covers_cons, length]
          by_cases old : Covers rest k
          · simp only [old, true_or, or_true]
          · simp only [old, or_false]
            omega
      · obtain ⟨found, run, spec⟩ := ih increasing' sliced.tail
        exact ⟨_, by rw [run]; rfl, spec.keep increasing head (by omega)⟩

theorem mem_emplace {x : Nat × List Byte} (fresh : ∀ y ∈ m, y.1 ≠ b) :
    x ∈ emplace b p m ↔ x = (b, p) ∨ x ∈ m := by
  induction m with
  | nil => simp [emplace]
  | cons y m ih =>
      have here := fresh y List.mem_cons_self
      simp only [emplace, lt_nat, decide_eq_true_eq]
      split
      · rw [List.mem_cons]
      · rw [if_pos (by omega), List.mem_cons, List.mem_cons,
          ih fun z mem => fresh z (List.mem_cons_of_mem _ mem)]
        exact or_left_comm

/-- `emplace` adds a segment of a new key. -/
theorem emplace_spec (fresh : ∀ y ∈ m, y.1 ≠ b) (increasing : Increasing m) :
    Increasing (emplace b p m) ∧
      ∀ k, Covers (emplace b p m) k ↔ Covers m k ∨ b ≤ k ∧ k < b + p.length := by
  constructor
  · induction m with
    | nil => exact List.pairwise_singleton _ _
    | cons y m ih =>
        have here := fresh y List.mem_cons_self
        have fresh' : ∀ z ∈ m, z.1 ≠ b := fun z mem => fresh z (List.mem_cons_of_mem _ mem)
        obtain ⟨later, increasing'⟩ := List.pairwise_cons.mp increasing
        simp only [emplace, lt_nat, decide_eq_true_eq]
        split
        · rename_i before
          refine List.pairwise_cons.mpr ⟨fun z mem => ?_, increasing⟩
          rcases List.mem_cons.mp mem with rfl | mem
          · exact before
          · exact before.trans (later z mem)
        · rw [if_pos (by omega)]
          refine List.pairwise_cons.mpr ⟨fun z mem => ?_, ih fresh' increasing'⟩
          rcases (mem_emplace fresh').mp mem with rfl | mem
          · show y.1 < b
            omega
          · exact later z mem
  · intro k
    simp only [Covers, mem_emplace fresh, or_and_right, exists_or, exists_eq_left]
    exact or_comm

/-- The second loop joins what touches. -/
theorem mergeAdjacent_spec (pieces : Pieces P size) {segBeg : Nat} {seg : List Byte} (slice : P segBeg seg)
    (sliced : Each P m) (increasing : Increasing m) (later : ∀ x ∈ m, segBeg ≤ x.1) :
    ∃ m', mergeAdjacent segBeg seg m = some m' ∧ Gapped m' ∧ Each P m' ∧
      (∀ x ∈ m', segBeg ≤ x.1) ∧
      ∀ k, Covers m' k ↔ Covers m k ∨ segBeg ≤ k ∧ k < segBeg + seg.length := by
  induction m generalizing segBeg seg with
  | nil => exact ⟨_, rfl, List.pairwise_singleton _ _, sliced.cons slice, by simp,
      fun k => by simp⟩
  | cons x rest ih =>
      obtain ⟨beg, p⟩ := x
      have head : P beg p := sliced.head
      have ordered : segBeg ≤ beg := later _ List.mem_cons_self
      obtain ⟨above, increasing'⟩ := List.pairwise_cons.mp increasing
      have later' : ∀ x ∈ rest, segBeg ≤ x.1 := fun x mem => later x (List.mem_cons_of_mem _ mem)
      have cover (k : Nat) : Covers ((beg, p) :: rest) k ↔
          beg ≤ k ∧ k < beg + p.length ∨ Covers rest k := covers_cons
      simp only [mergeAdjacent, add_nat, le_nat, lt_nat, sub_nat, Bool.and_eq_true,
        decide_eq_true_eq]
      split
      · rename_i touch
        have short : segBeg + seg.length - beg ≤ p.length := by omega
        have joined := pieces.join _ _ _ _ slice head (by omega) (by omega) (by omega)
        have length := @length_join Byte seg p segBeg beg (by omega) (by omega)
        obtain ⟨m', run, gapped, sliced', low, cover'⟩ := ih joined sliced.tail increasing' later'
        refine ⟨m', by rw [trimFront, if_pos short]; exact run, gapped, sliced', low, fun k => ?_⟩
        rw [cover', cover, length]
        by_cases old : Covers rest k
        · simp only [old, true_or, or_true]
        · simp only [old, or_false, false_or]
          omega
      split
      · rename_i inside
        obtain ⟨m', run, gapped, sliced', low, cover'⟩ := ih slice sliced.tail increasing' later'
        refine ⟨m', run, gapped, sliced', low, fun k => ?_⟩
        rw [cover', cover]
        by_cases old : Covers rest k
        · simp only [old, true_or, or_true]
        · simp only [old, or_false, false_or]
          omega
      · rename_i apart notInside
        rw [if_pos (by omega)]
        obtain ⟨m', run, gapped, sliced', low, cover'⟩ := ih head sliced.tail increasing'
          fun y mem => Nat.le_of_lt (above y mem)
        refine ⟨(segBeg, seg) :: m', by rw [run]; rfl, ?_, sliced'.cons slice, ?_, fun k => ?_⟩
        · refine List.pairwise_cons.mpr ⟨fun y mem => ?_, gapped⟩
          have := low y mem
          show segBeg + seg.length < y.1
          omega
        · intro y mem
          rcases List.mem_cons.mp mem with rfl | mem
          · exact le_rfl
          · exact ordered.trans (low y mem)
        · rw [covers_cons, cover', cover]
          by_cases old : Covers rest k
          · simp only [old, true_or, or_true]
          · simp only [old, or_false, false_or]
            omega

theorem mergeAll_spec (pieces : Pieces P size) (sliced : Each P m) (increasing : Increasing m) :
    ∃ m', mergeAll m = some m' ∧ Gapped m' ∧ Each P m' ∧ ∀ k, Covers m' k ↔ Covers m k := by
  cases m with
  | nil => exact ⟨[], rfl, .nil, sliced, fun k => Iff.rfl⟩
  | cons x rest =>
      obtain ⟨above, increasing'⟩ := List.pairwise_cons.mp increasing
      obtain ⟨m', run, gapped, sliced', _, cover⟩ := mergeAdjacent_spec pieces sliced.head sliced.tail
        increasing' fun y mem => Nat.le_of_lt (above y mem)
      exact ⟨m', run, gapped, sliced', fun k => by rw [cover, covers_cons, or_comm]⟩

/-- `merge` keeps the segments gapped slices of the stream, and adds the offsets
of the new one to what they cover. -/
theorem merge_nat_spec (pieces : Pieces P size) (gapped : Gapped m) (sliced : Each P m) (slice : P b p) :
    ∃ m', merge b p m = some m' ∧ Gapped m' ∧ Each P m' ∧
      ∀ k, Covers m' k ↔ Covers m k ∨ b ≤ k ∧ k < b + p.length := by
  obtain ⟨found, run, spec⟩ := find_spec pieces gapped.increasing sliced slice
  rw [merge, run]
  cases found with
  | present =>
      refine ⟨m, rfl, gapped, sliced, fun k => ⟨.inl, ?_⟩⟩
      rintro (old | ⟨low, high⟩)
      · exact old
      · exact spec k low high
  | appended m₁ =>
      obtain ⟨increasing, sliced', _, cover⟩ := spec
      obtain ⟨m', run', gapped', sliced'', cover'⟩ := mergeAll_spec pieces sliced' increasing
      exact ⟨m', run', gapped', sliced'', fun k => by rw [cover', cover]⟩
  | insert m₁ p' =>
      obtain ⟨increasing, sliced', slice', fresh, cover⟩ := spec
      have new : ∀ y ∈ m₁, y.1 ≠ b := fun y mem => (fresh y mem).1
      obtain ⟨increasing', cover₁⟩ := @emplace_spec b p' m₁ new increasing
      have sliced₁ : Each P (emplace b p' m₁) := by
        intro x mem
        rcases (mem_emplace new).mp mem with rfl | mem
        · exact slice'
        · exact sliced' x mem
      obtain ⟨m', run', gapped', sliced'', cover'⟩ := mergeAll_spec pieces sliced₁ increasing'
      exact ⟨m', run', gapped', sliced'', fun k => by rw [cover', cover₁, cover]⟩

/-! ### No segment is lost -/

/-- A segment of the map reaches over `x`, from its begin to its end. -/
def Reaches (m : Map Nat) (x : Nat × List Byte) : Prop :=
  ∃ y ∈ m, y.1 ≤ x.1 ∧ x.1 + x.2.length ≤ y.1 + y.2.length

theorem Reaches.head {x y : Nat × List Byte} (low : y.1 ≤ x.1)
    (high : x.1 + x.2.length ≤ y.1 + y.2.length) : Reaches (y :: m) x :=
  ⟨y, List.mem_cons_self, low, high⟩

theorem Reaches.tail {x y : Nat × List Byte} (reaches : Reaches m x) : Reaches (y :: m) x := by
  obtain ⟨z, mem, low, high⟩ := reaches
  exact ⟨z, List.mem_cons_of_mem _ mem, low, high⟩

/-- What reaches over a segment reaches over what that one reaches over. -/
theorem Reaches.trans {x y : Nat × List Byte} (reaches : Reaches m y) (low : y.1 ≤ x.1)
    (high : x.1 + x.2.length ≤ y.1 + y.2.length) : Reaches m x := by
  obtain ⟨z, mem, low', high'⟩ := reaches
  exact ⟨z, mem, low'.trans low, high.trans high'⟩

theorem reaches_of_mem {x : Nat × List Byte} (mem : x ∈ m) : Reaches m x :=
  ⟨x, mem, le_rfl, le_rfl⟩

/-- What the first loop does to the segments. -/
def Found.Keeps (b : Nat) (p : List Byte) (m : Map Nat) : Found Nat → Prop
  | present => Reaches m (b, p)
  | appended m' => Reaches m' (b, p) ∧ ∀ x ∈ m, Reaches m' x
  | insert m' p' => p.length ≤ p'.length ∧
      ∀ x ∈ m, Reaches m' x ∨ b ≤ x.1 ∧ x.1 + x.2.length ≤ b + p'.length

theorem find_keeps {found : Found Nat} (run : find b p m = some found) : found.Keeps b p m := by
  induction m generalizing found with
  | nil =>
      obtain rfl := Option.some.inj run
      exact ⟨le_rfl, by simp⟩
  | cons x rest ih =>
      obtain ⟨segBeg, seg⟩ := x
      simp only [find, add_nat, le_nat, lt_nat, sub_nat, Bool.and_eq_true, decide_eq_true_eq]
        at run
      split at run
      · obtain rfl := Option.some.inj run
        exact .head (by omega) (by dsimp only; omega)
      split at run
      · obtain rfl := Option.some.inj run
        refine ⟨le_rfl, fun y mem => ?_⟩
        rcases List.mem_cons.mp mem with rfl | later
        · exact .inr (by dsimp only; omega)
        · exact .inl (reaches_of_mem later)
      split at run
      · obtain ⟨tail, trimmed, rfl⟩ := Option.map_eq_some_iff.mp run
        unfold trimFront at trimmed
        split at trimmed
        · obtain rfl := Option.some.inj trimmed
          refine ⟨by simp, fun y mem => ?_⟩
          rcases List.mem_cons.mp mem with rfl | later
          · refine .inr ?_
            simp only [List.length_append, List.length_drop]
            omega
          · exact .inl (reaches_of_mem later)
        · cases trimmed
      split at run
      · obtain ⟨tail, trimmed, rfl⟩ := Option.map_eq_some_iff.mp run
        unfold trimFront at trimmed
        split at trimmed
        · obtain rfl := Option.some.inj trimmed
          refine ⟨.head (by omega) ?_, fun y mem => ?_⟩
          · simp only [List.length_append, List.length_drop]
            omega
          · rcases List.mem_cons.mp mem with rfl | later
            · exact .head le_rfl (by simp)
            · exact .tail (reaches_of_mem later)
        · cases trimmed
      · obtain ⟨later, run', rfl⟩ := Option.map_eq_some_iff.mp run
        have kept := ih run'
        cases later with
        | present => exact .tail kept
        | appended m' =>
            refine ⟨.tail kept.1, fun y mem => ?_⟩
            rcases List.mem_cons.mp mem with rfl | old
            · exact .head le_rfl le_rfl
            · exact .tail (kept.2 y old)
        | insert m' p' =>
            refine ⟨kept.1, fun y mem => ?_⟩
            rcases List.mem_cons.mp mem with rfl | old
            · exact .inl (.head le_rfl le_rfl)
            · exact (kept.2 y old).imp .tail id

theorem mergeAdjacent_keeps {segBeg : Nat} {seg : List Byte} {m' : Map Nat}
    (later : ∀ x ∈ m, segBeg ≤ x.1) (increasing : Increasing m)
    (run : mergeAdjacent segBeg seg m = some m') :
    Reaches m' (segBeg, seg) ∧ ∀ x ∈ m, Reaches m' x := by
  induction m generalizing segBeg seg m' with
  | nil =>
      obtain rfl := Option.some.inj run
      exact ⟨.head le_rfl le_rfl, by simp⟩
  | cons x rest ih =>
      obtain ⟨beg, p⟩ := x
      obtain ⟨above, increasing'⟩ := List.pairwise_cons.mp increasing
      have ordered : segBeg ≤ beg := later _ List.mem_cons_self
      have later' : ∀ x ∈ rest, segBeg ≤ x.1 := fun x mem => later x (List.mem_cons_of_mem _ mem)
      simp only [mergeAdjacent, add_nat, le_nat, lt_nat, sub_nat, Bool.and_eq_true,
        decide_eq_true_eq] at run
      split at run
      · obtain ⟨tail, trimmed, run'⟩ := Option.bind_eq_some_iff.mp run
        unfold trimFront at trimmed
        split at trimmed
        · obtain rfl := Option.some.inj trimmed
          obtain ⟨joined, rest_kept⟩ := ih later' increasing' run'
          refine ⟨joined.trans le_rfl (by simp), fun y mem => ?_⟩
          rcases List.mem_cons.mp mem with rfl | old
          · refine joined.trans ordered ?_
            simp only [List.length_append, List.length_drop]
            omega
          · exact rest_kept y old
        · cases trimmed
      split at run
      · obtain ⟨here, rest_kept⟩ := ih later' increasing' run
        refine ⟨here, fun y mem => ?_⟩
        rcases List.mem_cons.mp mem with rfl | old
        · exact here.trans ordered (by assumption)
        · exact rest_kept y old
      · split at run
        · obtain ⟨m₁, run', rfl⟩ := Option.map_eq_some_iff.mp run
          obtain ⟨here, rest_kept⟩ := ih (fun y mem => Nat.le_of_lt (above y mem)) increasing' run'
          refine ⟨.head le_rfl le_rfl, fun y mem => ?_⟩
          rcases List.mem_cons.mp mem with rfl | old
          · exact .tail here
          · exact .tail (rest_kept y old)
        · cases run

theorem mergeAll_keeps {m' : Map Nat} (increasing : Increasing m) (run : mergeAll m = some m') :
    ∀ x ∈ m, Reaches m' x := by
  cases m with
  | nil => exact List.forall_mem_nil _
  | cons x rest =>
      obtain ⟨above, increasing'⟩ := List.pairwise_cons.mp increasing
      obtain ⟨first, kept⟩ :=
        mergeAdjacent_keeps (fun y mem => Nat.le_of_lt (above y mem)) increasing' run
      exact List.forall_mem_cons.mpr ⟨first, kept⟩

/-- After `merge` some segment reaches over the packet, and over each that was
there before; empty ones are no exception. -/
theorem merge_keeps (pieces : Pieces P size) (gapped : Gapped m) (sliced : Each P m)
    (slice : P b p) {m' : Map Nat} (run : merge b p m = some m') :
    Reaches m' (b, p) ∧ ∀ x ∈ m, Reaches m' x := by
  obtain ⟨found, search, spec⟩ := find_spec pieces gapped.increasing sliced slice
  have kept := find_keeps search
  rw [merge, search] at run
  cases found with
  | present =>
      obtain rfl := Option.some.inj run
      exact ⟨kept, fun x mem => reaches_of_mem mem⟩
  | appended m₁ =>
      have reach_over (x : Nat × List Byte) (reaches : Reaches m₁ x) : Reaches m' x := by
        obtain ⟨y, mem, low, high⟩ := reaches
        exact (mergeAll_keeps spec.1 run y mem).trans low high
      exact ⟨reach_over _ kept.1, fun x mem => reach_over x (kept.2 x mem)⟩
  | insert m₁ p' =>
      obtain ⟨increasing, _, _, fresh, _⟩ := spec
      have new : ∀ y ∈ m₁, y.1 ≠ b := fun y mem => (fresh y mem).1
      have all := mergeAll_keeps (@emplace_spec b p' m₁ new increasing).1 run
      have here : Reaches m' (b, p') := all _ ((mem_emplace new).mpr (.inl rfl))
      refine ⟨here.trans le_rfl (Nat.add_le_add_left kept.1 b), fun x mem => ?_⟩
      rcases kept.2 x mem with ⟨y, old, low, high⟩ | ⟨low, high⟩
      · exact (all y ((mem_emplace new).mpr (.inr old))).trans low high
      · exact here.trans low high

end Nat

/-! ## Offsets in a window -/

section Window

variable {P : Nat → List Byte → Prop} {size limit b : Nat} {p : List Byte} {m : Map Nat}
variable {place : Nat → ω}

theorem find_placed (window : Window place limit) (pieces : Pieces P size) (fits : size < limit)
    (sliced : Each P m) (slice : P b p) :
    find (place b) p (placed place m) = (find b p m).map (Found.placed place) := by
  have inside := pieces.inside _ _ slice
  induction m with
  | nil => rfl
  | cons x rest ih =>
      obtain ⟨segBeg, seg⟩ := x
      have inside' := pieces.inside segBeg seg sliced.head
      have ih := ih sliced.tail
      simp only [placed] at ih
      simp only [placed, List.map_cons, find, add_nat, le_nat, lt_nat, sub_nat]
      rw [window.add _ _ (by omega), window.add _ _ (by omega), window.le (by omega) (by omega),
        window.le (by omega) (by omega), window.le (by omega) (by omega),
        window.le (by omega) (by omega), window.lt _ _ (by omega) (by omega),
        window.le (by omega) (by omega), window.le (by omega) (by omega),
        window.lt _ _ (by omega) (by omega), ih]
      simp only [Bool.and_eq_true, decide_eq_true_eq]
      split_ifs with inside around front back
      · rfl
      · rfl
      · rw [window.sub _ _ (by omega) (by omega), Option.map_map]
        rfl
      · rw [window.sub _ _ (by omega) (by omega), Option.map_map]
        rfl
      · rw [Option.map_map, Option.map_map]
        congr 1
        funext found
        cases found <;> rfl

theorem emplace_placed (window : Window place limit) (below : b < limit)
    (fits : ∀ x ∈ m, x.1 < limit) :
    emplace (place b) p (placed place m) = placed place (emplace b p m) := by
  induction m with
  | nil => rfl
  | cons x rest ih =>
      have inside := fits x List.mem_cons_self
      have ih := ih fun y mem => fits y (List.mem_cons_of_mem _ mem)
      simp only [placed] at ih
      simp only [placed, List.map_cons, emplace, lt_nat, window.lt _ _ below inside,
        window.lt _ _ inside below, ih]
      split_ifs <;> rfl

theorem mergeAdjacent_placed (window : Window place limit) (pieces : Pieces P size) (fits : size < limit)
    {segBeg : Nat} {seg : List Byte} (slice : P segBeg seg) (sliced : Each P m) :
    mergeAdjacent (place segBeg) seg (placed place m) =
      (mergeAdjacent segBeg seg m).map (placed place) := by
  induction m generalizing segBeg seg with
  | nil => rfl
  | cons x rest ih =>
      obtain ⟨beg, p⟩ := x
      have head : P beg p := sliced.head
      have inside := pieces.inside _ _ slice
      have inside' := pieces.inside _ _ head
      simp only [placed] at ih
      simp only [placed, List.map_cons, mergeAdjacent, add_nat, le_nat, lt_nat, sub_nat]
      rw [window.add _ _ (by omega), window.add _ _ (by omega), window.le (by omega) (by omega),
        window.le (by omega) (by omega), window.lt _ _ (by omega) (by omega),
        window.le (by omega) (by omega), window.lt _ _ (by omega) (by omega),
        ih slice sliced.tail, ih head sliced.tail]
      simp only [Bool.and_eq_true, decide_eq_true_eq]
      split_ifs with touch contained apart
      · have short : segBeg + seg.length - beg ≤ p.length := by omega
        rw [window.sub _ _ (by omega) (by omega), trimFront, if_pos short, Option.bind_some,
          Option.bind_some,
          ih (pieces.join _ _ _ _ slice head (by omega) (by omega) (by omega)) sliced.tail]
      · rfl
      · rw [Option.map_map, Option.map_map]
        rfl
      · rfl

theorem mergeAll_placed (window : Window place limit) (pieces : Pieces P size) (fits : size < limit)
    (sliced : Each P m) :
    mergeAll (placed place m) = (mergeAll m).map (placed place) := by
  cases m with
  | nil => rfl
  | cons x rest => exact mergeAdjacent_placed window pieces fits sliced.head sliced.tail

/-- `merge` on offsets in a window does what it does on natural numbers. -/
theorem merge_placed (window : Window place limit) (pieces : Pieces P size) (fits : size < limit)
    (gapped : Gapped m) (sliced : Each P m) (slice : P b p) :
    merge (place b) p (placed place m) = (merge b p m).map (placed place) := by
  obtain ⟨found, search, found_spec⟩ := find_spec pieces gapped.increasing sliced slice
  rw [merge, merge, search, find_placed window pieces fits sliced slice, search]
  cases found with
  | present => rfl
  | appended m₁ => exact mergeAll_placed window pieces fits found_spec.2.1
  | insert m₁ p' =>
      obtain ⟨increasing, sliced', slice', fresh, _⟩ := found_spec
      have inside := pieces.inside _ _ slice'
      have new : ∀ y ∈ m₁, y.1 ≠ b := fun y mem => (fresh y mem).1
      have sliced₁ : Each P (emplace b p' m₁) := by
        intro x mem
        rcases (mem_emplace new).mp mem with rfl | mem
        · exact slice'
        · exact sliced' x mem
      have keys : ∀ x ∈ m₁, x.1 < limit := fun x mem => by
        have := pieces.inside _ _ (sliced' x mem)
        omega
      simp only [Option.map_some, Found.placed]
      rw [emplace_placed window (by omega) keys, mergeAll_placed window pieces fits sliced₁]

/-- `merge` on offsets in a window: no assertion fails, nothing aborts, and the
segments stay gapped slices that cover what was merged. -/
theorem merge_spec (window : Window place limit) (pieces : Pieces P size) (fits : size < limit)
    (gapped : Gapped m) (sliced : Each P m) (slice : P b p) :
    ∃ m', merge (place b) p (placed place m) = some (placed place m') ∧ Gapped m' ∧
      Each P m' ∧ ∀ k, Covers m' k ↔ Covers m k ∨ b ≤ k ∧ k < b + p.length := by
  obtain ⟨m', run, spec⟩ := merge_nat_spec pieces gapped sliced slice
  exact ⟨m', by rw [merge_placed window pieces fits gapped sliced slice, run]; rfl, spec⟩

theorem Window.injective (window : Window place limit) {k l : Nat} (left : k < limit)
    (right : l < limit) (same : place k = place l) : k = l := by
  have irrefl : Offset.lt (place l) (place l) = false := by
    rw [window.lt l l right right]
    exact decide_eq_false (Nat.lt_irrefl l)
  rcases Nat.lt_trichotomy k l with less | equal | greater
  · have := window.lt k l left right
    rw [same, irrefl, decide_eq_true less] at this
    exact nomatch this
  · exact equal
  · have := window.lt l k right left
    rw [same, irrefl, decide_eq_true greater] at this
    exact nomatch this

/-- The packet that the first loop leaves to insert has a key of its own. -/
theorem find_fresh (window : Window place limit) (pieces : Pieces P size) (fits : size < limit)
    (increasing : Increasing m) (sliced : Each P m) (slice : P b p) {map : Map ω}
    {p' : List Byte} (found : find (place b) p (placed place m) = some (.insert map p')) :
    ∀ x ∈ map, x.1 ≠ place b := by
  have inside := pieces.inside b p slice
  obtain ⟨result, run, spec⟩ := find_spec pieces increasing sliced slice
  rw [find_placed window pieces fits sliced slice, run, Option.map_some] at found
  cases result with
  | present => simp [Found.placed] at found
  | appended m₁ => simp [Found.placed] at found
  | insert m₁ p₁ =>
      obtain ⟨_, sliced', _, fresh, _⟩ := spec
      simp only [Found.placed, Option.some.injEq, Found.insert.injEq] at found
      intro x mem same
      rw [← found.1, placed] at mem
      obtain ⟨y, mem', rfl⟩ := List.mem_map.mp mem
      have below := pieces.inside _ _ (sliced' y mem')
      exact (fresh y mem').1 (window.injective (by omega) (by omega) same)

/-- Merging slices of a stream, in any order and with any overlap: nothing
aborts, the keys increase, the nonempty segments are the maximal runs of the
offsets that were merged, and a further packet is never dropped for its key. -/
theorem merges_keep_runs (window : Window place limit) {S : List Byte}
    (fits : S.length < limit) {calls : List (Nat × List Byte)} (slices : Each (Slice S) calls) :
    ∃ m : Map Nat,
      exec (fun map x => merge (place x.1) x.2 map) [] calls = some (placed place m) ∧
      (placed place m).Pairwise (fun x y => Offset.lt x.1 y.1 = true) ∧
      Gapped m ∧
      (∀ b d, d ≠ [] → ((b, d) ∈ m ↔ MaximalRun S (Covers calls) b d)) ∧
      (∀ k, Covers m k ↔ Covers calls k) ∧
      ∀ b p, Slice S b p → ∀ map p', find (place b) p (placed place m) = some (.insert map p') →
        ∀ x ∈ map, x.1 ≠ place b := by
  have pieces := pieces_slice S
  have runs (calls : List (Nat × List Byte)) (m₀ : Map Nat) (gapped : Gapped m₀)
      (each : Each (Slice S) m₀) (slices : Each (Slice S) calls) :
      ∃ m : Map Nat, exec (fun map x => merge (place x.1) x.2 map) (placed place m₀) calls =
          some (placed place m) ∧ Gapped m ∧ Each (Slice S) m ∧
        ∀ k, Covers m k ↔ Covers m₀ k ∨ Covers calls k := by
    induction calls generalizing m₀ with
    | nil => exact ⟨m₀, rfl, gapped, each, by simp⟩
    | cons x calls ih =>
        obtain ⟨m₁, run, gapped₁, each₁, covers₁⟩ :=
          merge_spec window pieces fits gapped each slices.head
        obtain ⟨m, run', gapped', each', covers'⟩ := ih m₁ gapped₁ each₁ slices.tail
        refine ⟨m, exec_cons.mpr ⟨_, run, run'⟩, gapped', each', fun k => ?_⟩
        rw [covers', covers₁, covers_cons, or_assoc]
  obtain ⟨m, run, gapped, each, covers⟩ :=
    runs calls [] .nil (List.forall_mem_nil _) slices
  have covers (k : Nat) : Covers m k ↔ Covers calls k := by simpa using covers k
  have below (x : Nat × List Byte) (mem : x ∈ m) : x.1 < limit := by
    have := (each x mem).inside
    omega
  refine ⟨m, run, ?_, gapped, fun b d nonempty => gapped.mem_iff_maximalRun each covers nonempty,
    covers, fun b p slice map p' found => find_fresh window pieces fits gapped.increasing each
      slice found⟩
  rw [placed, List.pairwise_map]
  refine gapped.increasing.imp_of_mem fun {x y} left right less => ?_
  rw [window.lt _ _ (below x left) (below y right)]
  exact decide_eq_true less

theorem merges_keep_runs_uint32 : ∃ m : Map Nat,
    exec (fun map x => merge (BitVec.ofNat 32 x.1) x.2 map) []
      [(4, [5#8, 6#8]), (0, [1#8, 2#8]), (1, [2#8, 3#8, 4#8])] =
        some (placed (BitVec.ofNat 32) m) ∧
    (0, [1#8, 2#8, 3#8, 4#8, 5#8, 6#8]) ∈ m := by
  have slices : Each (Slice [1#8, 2#8, 3#8, 4#8, 5#8, 6#8])
      [(4, [5#8, 6#8]), (0, [1#8, 2#8]), (1, [2#8, 3#8, 4#8])] := by
    intro x mem
    simp only [List.mem_cons, List.not_mem_nil, or_false] at mem
    rcases mem with rfl | rfl | rfl <;> exact ⟨by decide, rfl⟩
  obtain ⟨m, run, _, _, runs, _⟩ := merges_keep_runs window_uint32 (by decide) slices
  refine ⟨m, run, (runs _ _ (by decide)).mpr ⟨⟨by decide, rfl⟩, by decide, ?_, .inl rfl, ?_⟩⟩
  · intro k _ high
    simp only [covers_cons, covers_nil, List.length_cons, List.length_nil] at high ⊢
    omega
  · simp [covers_cons]

end Window

end PacketMerger

end ActorNet.Net
