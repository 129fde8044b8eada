import Mathlib.Data.List.Pairwise
import Mathlib.Order.Nat

/-!
# Slices of a stream

Pieces of one stream, each kept with its offset. `Slice S b d` says that `d` is
what the stream `S` holds from offset `b` on. Slices that touch can be joined;
`Pieces` names the predicates that joining keeps. A list of pieces is `Gapped`
when they are in order and no two touch: such a list of nonempty slices is
determined by the offsets it covers (`Gapped.ext`).
-/

namespace ActorNet.Lib.Slices

variable {β : Type} {S d d' : List β} {b b' k : Nat}

/-- `d` is the part of the stream that begins at offset `b`. -/
structure Slice (S : List β) (b : Nat) (d : List β) : Prop where
  inside : b + d.length ≤ S.length
  bytes : d = (S.drop b).take d.length

/-- The slice of a stream between two offsets. -/
theorem slice_of_le (S : List β) {b n : Nat} (inside : b + n ≤ S.length) :
    Slice S b ((S.drop b).take n) := by
  have length : ((S.drop b).take n).length = n := by
    rw [List.length_take, List.length_drop]
    omega
  exact ⟨by rw [length]; exact inside, by rw [length]⟩

/-- What comes before an offset is a slice at the begin. -/
theorem Slice.take (S : List β) {n : Nat} (inside : n ≤ S.length) : Slice S 0 (S.take n) := by
  have slice := @slice_of_le β S 0 n (by omega)
  rwa [List.drop_zero] at slice

/-- Slices of one offset and length are the same. -/
theorem Slice.eq (first : Slice S b d) (second : Slice S b d') (length : d.length = d'.length) :
    d = d' := by
  rw [first.bytes, second.bytes, length]

/-- A slice at the begin is a prefix. -/
theorem Slice.eq_take (slice : Slice S 0 d) : d = S.take d.length := by
  simpa using slice.bytes

theorem Slice.drop (slice : Slice S b d) {n : Nat} (within : n ≤ d.length) :
    Slice S (b + n) (d.drop n) := by
  have inside := slice.inside
  refine ⟨by rw [List.length_drop]; omega, ?_⟩
  have cut : d.drop n = (((S.drop b).take d.length).drop n) := by rw [← slice.bytes]
  rw [cut, List.drop_take, List.drop_drop]
  congr 1
  simp only [List.length_take, List.length_drop]
  omega

/-- Joining two slices that touch. -/
theorem Slice.append (first : Slice S b d) (second : Slice S (b + d.length) d') :
    Slice S b (d ++ d') := by
  have inside := second.inside
  refine ⟨by rw [List.length_append]; omega, ?_⟩
  rw [List.length_append, List.take_add, List.drop_drop, ← first.bytes, ← second.bytes]

/-- Joining two slices that overlap, with the front of the second cut off. -/
theorem Slice.join (first : Slice S b d) (second : Slice S b' d')
    (touch : b' ≤ b + d.length) (longer : b + d.length ≤ b' + d'.length) :
    Slice S b (d ++ d'.drop (b + d.length - b')) := by
  have cut := second.drop (show b + d.length - b' ≤ d'.length by omega)
  have offset : b' + (b + d.length - b') = b + d.length := by omega
  rw [offset] at cut
  exact first.append cut

/-- The length of pieces that are joined. -/
theorem length_join (touch : b' ≤ b + d.length)
    (longer : b + d.length ≤ b' + d'.length) :
    (d ++ d'.drop (b + d.length - b')).length = b' + d'.length - b := by
  rw [List.length_append, List.length_drop]
  omega

/-- A predicate on pieces below `size` that joining keeps. -/
structure Pieces (P : Nat → List β → Prop) (size : Nat) : Prop where
  inside : ∀ b d, P b d → b + d.length ≤ size
  join : ∀ b d b' d', P b d → P b' d' → b ≤ b' → b' ≤ b + d.length →
    b + d.length ≤ b' + d'.length → P b (d ++ d'.drop (b + d.length - b'))

theorem pieces_slice (S : List β) : Pieces (Slice S) S.length :=
  ⟨fun _ _ slice => slice.inside, fun _ _ _ _ first second _ => first.join second⟩

/-- Pieces of any bytes. -/
theorem pieces_length (size : Nat) :
    Pieces (fun b (d : List β) => b + d.length ≤ size) size := by
  refine ⟨fun _ _ => id, fun b d b' d' _ inside _ touch longer => ?_⟩
  rw [length_join touch longer]
  omega

theorem Pieces.nonempty {P : Nat → List β → Prop} {size : Nat} (pieces : Pieces P size) :
    Pieces (fun b d => P b d ∧ d ≠ []) size :=
  ⟨fun b d piece => pieces.inside b d piece.1, fun b d b' d' first second ordered touch longer =>
    ⟨pieces.join b d b' d' first.1 second.1 ordered touch longer,
      List.append_ne_nil_of_left_ne_nil first.2 _⟩⟩

/-! ## Lists of pieces -/

/-- Every piece has a property. -/
def Each (P : Nat → List β → Prop) (m : List (Nat × List β)) : Prop := ∀ x ∈ m, P x.1 x.2

/-- An offset lies in one of the pieces. -/
def Covers (m : List (Nat × List β)) (k : Nat) : Prop :=
  ∃ x ∈ m, x.1 ≤ k ∧ k < x.1 + x.2.length

/-- The pieces are in order, and no two touch. -/
def Gapped (m : List (Nat × List β)) : Prop :=
  m.Pairwise fun x y => x.1 + x.2.length < y.1

/-- The offsets of the pieces increase. -/
def Increasing (m : List (Nat × List β)) : Prop := m.Pairwise fun x y => x.1 < y.1

variable {m m' : List (Nat × List β)} {x : Nat × List β}

theorem Gapped.increasing (gapped : Gapped m) : Increasing m :=
  List.Pairwise.imp (fun less => Nat.lt_of_le_of_lt (Nat.le_add_right _ _) less) gapped

@[simp] theorem covers_nil : ¬Covers ([] : List (Nat × List β)) k := by simp [Covers]

@[simp] theorem covers_cons :
    Covers (x :: m) k ↔ x.1 ≤ k ∧ k < x.1 + x.2.length ∨ Covers m k := by
  simp [Covers]

theorem Each.cons {P : Nat → List β → Prop} (head : P x.1 x.2) (tail : Each P m) :
    Each P (x :: m) :=
  List.forall_mem_cons.mpr ⟨head, tail⟩

theorem Each.head {P : Nat → List β → Prop} (each : Each P (x :: m)) : P x.1 x.2 :=
  each x List.mem_cons_self

theorem Each.tail {P : Nat → List β → Prop} (each : Each P (x :: m)) : Each P m :=
  fun y mem => each y (List.mem_cons_of_mem _ mem)

/-- No piece behind the first of a gapped list touches it. -/
theorem Gapped.not_covers (gapped : Gapped (x :: m)) {j : Nat}
    (before : j ≤ x.1 + x.2.length) : ¬Covers m j := by
  rintro ⟨y, mem, low, _⟩
  have := (List.pairwise_cons.mp gapped).1 y mem
  omega

/-- A longest slice whose offsets are all in a set: neither the offset before it
nor the one behind it is. -/
structure MaximalRun (S : List β) (U : Nat → Prop) (b : Nat) (d : List β) : Prop where
  slice : Slice S b d
  nonempty : d ≠ []
  covered : ∀ k, b ≤ k → k < b + d.length → U k
  before : b = 0 ∨ ¬U (b - 1)
  behind : ¬U (b + d.length)

/-- Pieces of a gapped list that hold offsets one apart are the same. -/
theorem Gapped.eq_of_near (gapped : Gapped m) {x y : Nat × List β} (left : x ∈ m) (right : y ∈ m)
    {j k : Nat} (inside : x.1 ≤ j ∧ j < x.1 + x.2.length)
    (inside' : y.1 ≤ k ∧ k < y.1 + y.2.length) (near : k = j ∨ k = j + 1) : x = y := by
  induction m with
  | nil => exact nomatch left
  | cons z m ih =>
      obtain ⟨apart, gapped'⟩ := List.pairwise_cons.mp gapped
      rcases List.mem_cons.mp left with first | later
      · rcases List.mem_cons.mp right with first' | later'
        · rw [first, first']
        · have := apart y later'
          rw [first] at inside
          omega
      · rcases List.mem_cons.mp right with first' | later'
        · have := apart x later
          rw [first'] at inside'
          omega
        · exact ih gapped' later later'

/-- The nonempty pieces of a gapped list of slices are the maximal runs of the
offsets that the list covers. -/
theorem Gapped.mem_iff_maximalRun {U : Nat → Prop} (gapped : Gapped m) (each : Each (Slice S) m)
    (covers : ∀ k, Covers m k ↔ U k) (nonempty : d ≠ []) :
    (b, d) ∈ m ↔ MaximalRun S U b d := by
  have positive := List.length_pos_iff.mpr nonempty
  constructor
  · intro mem
    have here (k : Nat) (low : b ≤ k) (high : k < b + d.length) : U k :=
      (covers k).mp ⟨(b, d), mem, low, high⟩
    refine ⟨each _ mem, nonempty, here, ?_, ?_⟩
    · rcases Nat.eq_zero_or_pos b with zero | more
      · exact .inl zero
      · refine .inr fun covered => ?_
        obtain ⟨y, mem', inside⟩ := (covers _).mpr covered
        have near : b = b - 1 ∨ b = b - 1 + 1 := by omega
        obtain rfl := gapped.eq_of_near mem' mem inside ⟨le_rfl, by simpa using positive⟩ near
        have : b ≤ b - 1 := inside.1
        omega
    · intro covered
      obtain ⟨y, mem', inside⟩ := (covers _).mpr covered
      have near : b + d.length = b + d.length - 1 ∨ b + d.length = b + d.length - 1 + 1 := by omega
      have last : b ≤ b + d.length - 1 ∧ b + d.length - 1 < b + d.length := by omega
      obtain rfl := gapped.eq_of_near mem mem' last inside near
      exact Nat.lt_irrefl _ inside.2
  · intro run
    obtain ⟨x, mem, inside⟩ := (covers b).mpr (run.covered b le_rfl (by omega))
    -- it cannot begin before the run, nor end elsewhere
    have start : x.1 = b := by
      rcases run.before with zero | uncovered
      · omega
      · by_contra other
        exact uncovered ((covers _).mp ⟨x, mem, by omega, by omega⟩)
    have reach : x.2.length = d.length := by
      rcases Nat.lt_trichotomy x.2.length d.length with shorter | same | longer
      · obtain ⟨y, mem', inside'⟩ := (covers (x.1 + x.2.length)).mpr
          (run.covered _ (by omega) (by omega))
        have near : x.1 + x.2.length = x.1 + x.2.length - 1 ∨
          x.1 + x.2.length = x.1 + x.2.length - 1 + 1 := by omega
        obtain rfl := gapped.eq_of_near mem mem' (by omega) inside' near
        omega
      · exact same
      · exact absurd ((covers _).mp ⟨x, mem, by omega, by omega⟩) run.behind
    have bytes : x.2 = d := (each x mem).eq (start ▸ run.slice) reach
    rwa [show (b, d) = x from Prod.ext start.symm bytes.symm]

/-- The first piece of a gapped list of nonempty pieces ends where the offsets
that are covered from its begin on do. -/
theorem Gapped.head_eq {y : Nat × List β} (gapped : Gapped (x :: m)) (gapped' : Gapped (y :: m'))
    (nonempty : x.2 ≠ []) (nonempty' : y.2 ≠ [])
    (same : ∀ k, Covers (x :: m) k ↔ Covers (y :: m') k) :
    x.1 = y.1 ∧ x.2.length = y.2.length := by
  have positive := List.length_pos_iff.mpr nonempty
  have positive' := List.length_pos_iff.mpr nonempty'
  have least {z w : Nat × List β} {n n' : List (Nat × List β)} (gapped : Gapped (w :: n'))
      (positive : 0 < z.2.length)
      (same : ∀ k, Covers (z :: n) k ↔ Covers (w :: n') k) : w.1 ≤ z.1 := by
    have covered := (same z.1).mp (covers_cons.mpr (.inl ⟨le_rfl, by omega⟩))
    rcases covers_cons.mp covered with here | ⟨v, mem, low, _⟩
    · exact here.1
    · have := (List.pairwise_cons.mp gapped).1 v mem
      omega
  have start : x.1 = y.1 :=
    le_antisymm (least gapped positive' fun k => (same k).symm) (least gapped' positive same)
  have longest {z w : Nat × List β} {n n' : List (Nat × List β)} (gapped : Gapped (z :: n))
      (start : z.1 = w.1) (positive : 0 < w.2.length)
      (same : ∀ k, Covers (z :: n) k ↔ Covers (w :: n') k) : w.2.length ≤ z.2.length := by
    by_contra more
    have covered := (same (z.1 + z.2.length)).mpr (covers_cons.mpr (.inl (by omega)))
    rcases covers_cons.mp covered with here | later
    · omega
    · exact gapped.not_covers le_rfl later
  exact ⟨start, le_antisymm (longest gapped' start.symm positive fun k => (same k).symm)
    (longest gapped start positive' same)⟩

/-- Gapped lists of nonempty slices that cover the same offsets are the same. -/
theorem Gapped.ext (gapped : Gapped m) (gapped' : Gapped m') (sliced : Each (Slice S) m)
    (sliced' : Each (Slice S) m') (nonempty : ∀ x ∈ m, x.2 ≠ []) (nonempty' : ∀ x ∈ m', x.2 ≠ [])
    (same : ∀ k, Covers m k ↔ Covers m' k) : m = m' := by
  have covered {x : Nat × List β} {m : List (Nat × List β)} (nonempty : x.2 ≠ []) :
      Covers (x :: m) x.1 := by
    have := List.length_pos_iff.mpr nonempty
    exact covers_cons.mpr (.inl (by omega))
  induction m generalizing m' with
  | nil =>
      cases m' with
      | nil => rfl
      | cons y m' =>
          exact absurd ((same y.1).mpr (covered (nonempty' y List.mem_cons_self))) covers_nil
  | cons x m ih =>
      cases m' with
      | nil => exact absurd ((same x.1).mp (covered (nonempty x List.mem_cons_self))) covers_nil
      | cons y m' =>
          obtain ⟨start, length⟩ := gapped.head_eq gapped' (nonempty x List.mem_cons_self)
            (nonempty' y List.mem_cons_self) same
          have bytes : x.2 = y.2 := sliced.head.eq (start ▸ sliced'.head) length
          obtain rfl : x = y := Prod.ext start bytes
          have tail (k : Nat) : Covers m k ↔ Covers m' k := by
            by_cases inside : k ≤ x.1 + x.2.length
            · exact ⟨fun c => absurd c (gapped.not_covers inside),
                fun c => absurd c (gapped'.not_covers inside)⟩
            · have := same k
              simp only [covers_cons] at this
              constructor
              · intro c
                exact (this.mp (.inr c)).resolve_left (by omega)
              · intro c
                exact (this.mpr (.inr c)).resolve_left (by omega)
          rw [ih (List.pairwise_cons.mp gapped).2 (List.pairwise_cons.mp gapped').2 sliced.tail
            sliced'.tail (fun z mem => nonempty z (List.mem_cons_of_mem _ mem))
            (fun z mem => nonempty' z (List.mem_cons_of_mem _ mem)) tail]

end ActorNet.Lib.Slices
