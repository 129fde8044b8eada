import ActorNet.Lib.Spans
import ActorNet.Net.DpdkClusters

/-!
# Too many fragments in a window

The 40G cards take eight fragments for each segment that they cut from a packet, those
of the headers, which go with every segment, among them. `i40e_should_linearize` walks
over the segments of a cluster once, window for window, and carries what a window
leaves of its last segment into the next.
-/

namespace ActorNet.Net.Dpdk

open Lib

variable {headersSize maxWinSize mss size frags prev fuel : Nat} {ls : List Nat}

/-- The segments that are left, the first of them what a window left over. -/
def pieces (prev : Nat) (ls : List Nat) : List Nat := if prev = 0 then ls else prev :: ls

theorem pos_pieces (pos : ∀ l ∈ ls, 0 < l) : ∀ l ∈ pieces prev ls, 0 < l := by
  unfold pieces
  split
  · exact pos
  · exact List.forall_mem_cons.mpr ⟨by omega, pos⟩

/-- A loop that has got as far as it wants stops. -/
theorem headerLoop_stop (n : Nat) (far : headersSize ≤ size) :
    headerLoop headersSize ls size n = (ls, size, n) := by
  cases ls with
  | nil => rfl
  | cons l ls => rw [headerLoop, if_neg (by omega)]

/-- The header loop counts what the headers touch and stops behind them. -/
theorem headerLoop_spec (pos : ∀ l ∈ ls, 0 < l) (size n : Nat) (near : size ≤ headersSize) :
    let r := headerLoop headersSize ls size n
    r.2.2 = n + touched 0 (headersSize - size) ls ∧
      pieces (r.2.1 - headersSize) r.1 = dropped (headersSize - size) ls ∧
      r.1.length + touched 0 (headersSize - size) ls = ls.length ∧ ∀ l ∈ r.1, 0 < l := by
  induction ls generalizing size n with
  | nil => simp [headerLoop, pieces, dropped, Nat.sub_eq_zero_of_le near]
  | cons l ls ih =>
      obtain ⟨here, there⟩ := List.forall_mem_cons.mp pos
      rw [touched_cons there, dropped, Nat.zero_sub]
      rcases near.lt_or_eq with more | rfl
      · rw [headerLoop, if_pos more, if_pos ⟨by omega, here⟩, Nat.sub_sub]
        by_cases inside : headersSize - size < l
        · -- the segment goes on behind the headers
          have far : headersSize ≤ size + l := by omega
          rw [headerLoop_stop _ far, if_pos inside, Nat.sub_eq_zero_of_le far, touched_zero]
          refine ⟨rfl, ?_, by simp, there⟩
          rw [pieces, if_neg (by show size + l - headersSize ≠ 0; omega)]
          congr 1
          show size + l - headersSize = _
          omega
        · rw [if_neg inside]
          obtain ⟨count, left, all, pos'⟩ := ih there (size + l) (n + 1) (by omega)
          refine ⟨?_, left, ?_, pos'⟩
          · rw [count, Nat.add_assoc]
          · rw [List.length_cons]
            omega
      · rw [headerLoop_stop n (le_refl _), Nat.sub_self, if_neg (by omega), if_pos here,
          Nat.zero_sub, touched_zero]
        exact ⟨rfl, by simp [pieces], rfl, pos⟩

/-- The loop over one window is the header loop that gives up at too many. -/
theorem windowLoop_eq (pos : ∀ l ∈ ls, 0 < l) (few : frags ≤ maxWinSize) :
    windowLoop maxWinSize mss ls size frags =
      if maxWinSize < frags + touched 0 (mss - size) ls then none
      else some ((headerLoop mss ls size frags).1, (headerLoop mss ls size frags).2.1) := by
  induction ls generalizing size frags with
  | nil => simp [windowLoop, headerLoop, few]
  | cons l ls ih =>
      obtain ⟨here, there⟩ := List.forall_mem_cons.mp pos
      rw [windowLoop, headerLoop, touched_cons there, Nat.zero_sub]
      by_cases more : size < mss
      · have first : 0 < mss - size ∧ 0 < l := ⟨by omega, here⟩
        rw [if_pos more, if_pos more, if_pos first, Nat.sub_sub, ← Nat.add_assoc]
        by_cases many : maxWinSize < frags + 1
        · rw [if_pos many, if_pos (by omega)]
        · rw [if_neg many]
          exact ih there (by omega)
      · have none : mss - size = 0 := by omega
        have last : ¬(0 < 0 ∧ 0 < l) := fun both => Nat.lt_irrefl 0 both.1
        rw [if_neg more, if_neg more, none, Nat.zero_sub, touched_zero, if_neg last,
          if_neg (by omega)]

/-- A window of the pieces, when something was left over. -/
theorem touched_pieces (prev : Nat) (pos : ∀ l ∈ ls, 0 < l) (some : 0 < mss) :
    touched 0 mss (pieces prev ls) = (if prev = 0 then 0 else 1) + touched 0 (mss - prev) ls := by
  unfold pieces
  split
  next zero => rw [zero, Nat.zero_add, Nat.sub_zero]
  next left => rw [touched_cons pos, if_pos ⟨some, by omega⟩, Nat.zero_sub]

/-- What the loop over one window leaves is what lies behind the window. -/
theorem pieces_headerLoop (prev : Nat) (pos : ∀ l ∈ ls, 0 < l) (some : 0 < mss) (n : Nat) :
    let r := headerLoop mss ls prev n
    pieces (r.2.1 - mss) r.1 = dropped mss (pieces prev ls) ∧ ∀ l ∈ r.1, 0 < l := by
  rcases Nat.lt_or_ge mss prev with beyond | within
  · rw [headerLoop_stop n beyond.le]
    refine ⟨?_, pos⟩
    show pieces (prev - mss) ls = _
    rw [pieces, if_neg (by omega), pieces, if_neg (by omega), dropped, if_pos beyond]
  · obtain ⟨-, left, -, pos'⟩ := headerLoop_spec pos prev n within
    refine ⟨?_, pos'⟩
    rw [left, pieces]
    split
    next zero => rw [zero, Nat.sub_zero]
    next held => rw [dropped, if_neg (by omega)]

/-- The bytes of a window. -/
theorem span (some : 0 < mss) (k : Nat) : k * mss < (k + 1) * mss := by
  rw [Nat.succ_mul]
  omega

/-- The walk over the windows finds one with too many segments just if there is one. -/
theorem windowsLoop_iff (pos : ∀ l ∈ ls, 0 < l) (some : 0 < mss) (room : 0 < maxWinSize)
    (enough : (pieces prev ls).sum < fuel) :
    windowsLoop maxWinSize mss fuel ls prev = true ↔
      ∃ k, maxWinSize < touched (k * mss) ((k + 1) * mss) (pieces prev ls) := by
  induction fuel generalizing ls prev with
  | zero => exact absurd enough (Nat.not_lt_zero _)
  | succ fuel ih =>
      cases ls with
      | nil =>
          refine ⟨fun no => Bool.noConfusion no, fun ⟨k, many⟩ => ?_⟩
          have most := touched_le_length (k * mss) ((k + 1) * mss) (pieces prev [])
          have one : (pieces prev []).length ≤ 1 := by
            unfold pieces
            split <;> simp
          omega
      | cons l ls =>
          have few : (if prev = 0 then 0 else 1) ≤ maxWinSize := by
            split <;> omega
          have first := touched_pieces prev pos some
          have here : touched (0 * mss) ((0 + 1) * mss) (pieces prev (l :: ls)) =
              touched 0 mss (pieces prev (l :: ls)) := by
            rw [Nat.zero_mul, Nat.zero_add, Nat.one_mul]
          rw [windowsLoop, windowLoop_eq pos few, ← first]
          by_cases many : maxWinSize < touched 0 mss (pieces prev (l :: ls))
          · rw [if_pos many]
            exact ⟨fun _ => ⟨0, here ▸ many⟩, fun _ => rfl⟩
          · rw [if_neg many]
            obtain ⟨left, pos'⟩ := pieces_headerLoop prev pos some
              (if prev = 0 then 0 else 1)
            have held : 0 < (pieces prev (l :: ls)).sum := by
              have least := pos l List.mem_cons_self
              unfold pieces
              split <;> simp only [List.sum_cons] <;> omega
            have less : (dropped mss (pieces prev (l :: ls))).sum < fuel := by
              rw [sum_dropped]
              omega
            have later (k : Nat) :
                touched (k * mss) ((k + 1) * mss) (dropped mss (pieces prev (l :: ls))) =
                  touched ((k + 1) * mss) ((k + 1 + 1) * mss) (pieces prev (l :: ls)) := by
              rw [touched_dropped (pos_pieces pos) (span some k)]
              congr 1 <;> ring
            show windowsLoop maxWinSize mss fuel _ _ = true ↔ _
            rw [ih pos' (left ▸ less), left]
            constructor
            · rintro ⟨k, more⟩
              exact ⟨k + 1, later k ▸ more⟩
            · rintro ⟨k, more⟩
              cases k with
              | zero => exact absurd (here ▸ more) many
              | succ k => exact ⟨k, (later k).symm ▸ more⟩

/-- With all eight taken by the headers any further segment is one too many. -/
theorem windowsLoop_zero (pos : ∀ l ∈ ls, 0 < l) (some : 0 < mss)
    (enough : (pieces prev ls).sum < fuel) :
    windowsLoop 0 mss fuel ls prev = true ↔ ls ≠ [] := by
  induction fuel generalizing prev with
  | zero => exact absurd enough (Nat.not_lt_zero _)
  | succ fuel ih =>
      cases ls with
      | nil => exact ⟨fun no => Bool.noConfusion no, fun held => absurd rfl held⟩
      | cons l ls =>
          refine iff_of_true ?_ (List.cons_ne_nil l ls)
          rw [windowsLoop, windowLoop]
          by_cases inside : prev < mss
          · rw [if_pos inside, if_pos (Nat.succ_pos _)]
          · rw [if_neg inside]
            have less : (pieces (prev - mss) (l :: ls)).sum < fuel := by
              unfold pieces at enough ⊢
              rw [if_neg (by omega)] at enough
              split
              · rw [List.sum_cons] at enough
                omega
              · simp only [List.sum_cons] at enough ⊢
                omega
            exact (ih less).mpr (List.cons_ne_nil l ls)

/-- When `i40e_should_linearize` asks for it: without segmentation, when there are more
than eight segments; with it, when the headers and some window of the payload touch
more than eight, except that headers over eight segments or more are not asked for
what the last of these holds behind them. -/
theorem i40eShouldLinearize_iff (head : Cluster) (holds : ∀ b ∈ head.segs, b.data ≠ [])
    (count : head.nbSegs = head.segs.length) (few : head.nbSegs < 2 ^ 16)
    (some : head.offload.tcpSeg = true → 0 < head.offload.tsoSegsz) :
    let o := head.offload
    let headers := o.l2Len + o.l3Len + o.l4Len
    let lens := head.segs.map fun b => b.data.length
    let hdrFrags := touched 0 headers lens
    i40eShouldLinearize head = true ↔
      if o.tcpSeg then
        (hdrFrags < 8 ∧ ∃ k, 8 < hdrFrags +
          touched (headers + k * o.tsoSegsz) (headers + (k + 1) * o.tsoSegsz) lens) ∨
        (hdrFrags = 8 ∧ 8 < head.nbSegs)
      else 8 < head.nbSegs := by
  intro o headers lens hdrFrags
  cases tso : o.tcpSeg with
  | false =>
      have off : head.offload.tcpSeg = false := tso
      rw [i40eShouldLinearize, if_pos (by rw [off]; rfl), if_neg Bool.false_ne_true]
      exact decide_eq_true_iff
  | true =>
      have mss : 0 < o.tsoSegsz := some tso
      have pos : ∀ l ∈ lens, 0 < l :=
        List.forall_mem_map.mpr fun b mem => List.length_pos_iff.mpr (holds b mem)
      have total : lens.length = head.nbSegs := by rw [count, List.length_map]
      obtain ⟨counted, left, all, pos'⟩ := headerLoop_spec pos 0 0 (Nat.zero_le headers)
      rw [Nat.sub_zero, Nat.zero_add] at counted
      rw [Nat.sub_zero] at left all
      have enough : (dropped headers lens).sum < lens.sum + 1 := by
        rw [sum_dropped]
        omega
      rw [if_pos rfl]
      have on : head.offload.tcpSeg = true := tso
      rw [i40eShouldLinearize, if_neg (by simp [on])]
      show (if head.nbSegs ≤ (8 + 2 ^ 32 - (headerLoop headers lens 0 0).2.2) % 2 ^ 32 then false
        else windowsLoop ((8 + 2 ^ 32 - (headerLoop headers lens 0 0).2.2) % 2 ^ 32) o.tsoSegsz
          (lens.sum + 1) (headerLoop headers lens 0 0).1
          ((headerLoop headers lens 0 0).2.1 - headers)) = true ↔ _
      have window (k : Nat) : touched (k * o.tsoSegsz) ((k + 1) * o.tsoSegsz)
          (dropped headers lens) =
            touched (headers + k * o.tsoSegsz) (headers + (k + 1) * o.tsoSegsz) lens :=
        touched_dropped pos (span mss k)
      rw [counted]
      show (if head.nbSegs ≤ (8 + 2 ^ 32 - hdrFrags) % 2 ^ 32 then false
        else windowsLoop ((8 + 2 ^ 32 - hdrFrags) % 2 ^ 32) _ _ _ _) = true ↔ _
      change _ + hdrFrags = _ at all
      rcases Nat.lt_trichotomy hdrFrags 8 with less | eight | more
      · have room : (8 + 2 ^ 32 - hdrFrags) % 2 ^ 32 = 8 - hdrFrags := by omega
        rw [room]
        by_cases fits : head.nbSegs ≤ 8 - hdrFrags
        · rw [if_pos fits]
          refine iff_of_false Bool.false_ne_true ?_
          rintro (⟨-, k, many⟩ | ⟨same, -⟩)
          · have most := touched_le_length (headers + k * o.tsoSegsz)
              (headers + (k + 1) * o.tsoSegsz) lens
            omega
          · omega
        · rw [if_neg fits, windowsLoop_iff pos' mss (by omega) (left ▸ enough), left]
          constructor
          · rintro ⟨k, many⟩
            rw [window] at many
            exact .inl ⟨less, k, by omega⟩
          · rintro (⟨-, k, many⟩ | ⟨same, -⟩)
            · refine ⟨k, ?_⟩
              rw [window]
              omega
            · omega
      · have room : (8 + 2 ^ 32 - hdrFrags) % 2 ^ 32 = 0 := by omega
        rw [room, if_neg (by omega), windowsLoop_zero pos' mss (left ▸ enough)]
        constructor
        · intro rest
          have behind := List.length_pos_iff.mpr rest
          exact .inr ⟨eight, by omega⟩
        · rintro (⟨less, -⟩ | ⟨-, more⟩)
          · omega
          · refine List.length_pos_iff.mp ?_
            omega
      · have room : (8 + 2 ^ 32 - hdrFrags) % 2 ^ 32 = 8 + 2 ^ 32 - hdrFrags := by omega
        rw [room, if_pos (by omega)]
        refine iff_of_false Bool.false_ne_true ?_
        rintro (⟨less, -⟩ | ⟨same, -⟩) <;> omega

/-- Ten segments of which the first is the headers, in one window. -/
def tenSegments : Cluster where
  segs := (List.range 10).map fun k => ⟨k, [0#8], none, false, none⟩
  pktLen := 10
  nbSegs := 10
  offload := { tcpCksum := true, tcpSeg := true, l2Len := 1, tsoSegsz := 20 }

theorem i40eShouldLinearize_iff_ten :
    i40eShouldLinearize tenSegments = true ↔
      if true then
        (touched 0 1 (List.replicate 10 1) < 8 ∧ ∃ k, 8 < touched 0 1 (List.replicate 10 1) +
          touched (1 + k * 20) (1 + (k + 1) * 20) (List.replicate 10 1)) ∨
        (touched 0 1 (List.replicate 10 1) = 8 ∧ 8 < 10)
      else 8 < 10 :=
  i40eShouldLinearize_iff tenSegments
    (List.forall_mem_map.mpr fun _ _ => List.cons_ne_nil _ _) rfl (by decide) fun _ => by decide

end ActorNet.Net.Dpdk
