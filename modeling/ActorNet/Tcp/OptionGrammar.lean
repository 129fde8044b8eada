import ActorNet.Tcp.Header

/-!
# The grammar of TCP options

An option is a kind, a length byte that counts the whole option, and a payload;
the kinds 0 and 1 are single bytes. `parse` checks the end of an option by its
length byte, but reads MSS, window scale and SACK, and passes over them, by the
lengths these kinds have. Each turn of its loop is recorded here with the
offsets it reads, and compared with the grammar.
-/

namespace ActorNet.Tcp

open Lib

namespace TcpOption

/-! ## The loop of `parse`, turn by turn -/

/-- What a SYN can say. -/
inductive Announced
  | mss (mss : BitVec 16)
  | winScale (shift : Byte)
  | sack
  deriving DecidableEq, Repr

/-- To keep what was announced. -/
def keep (o : TcpOption) : Announced → TcpOption
  | .mss mss => { o with mssReceived := true, remoteMss := mss }
  | .winScale shift =>
      { o with winScaleReceived := true, remoteWinScale := shift, localWinScale := 7 }
  | .sack => { o with sackReceived := true }

/-- A turn of the loop: the offsets it reads, what it keeps, and how many bytes
behind the kind it passes over, unless it returns. -/
structure Turn where
  reads : List Nat
  kept : Option Announced
  skip : Option Nat
  deriving DecidableEq, Repr

/-- The body of the loop, with `beg` at a kind that has `rest` behind it. -/
def turn (beyond : Nat → Byte) (beg : Nat) (kind : Byte) (rest : List Byte) : Turn :=
  let at_ (i : Nat) : Byte := rest.getD (i - 1) (beyond (i - 1 - rest.length))
  let len := (at_ 1).toNat
  if kind ≠ 1 ∧ kind ≠ 0 ∧ rest.length + 1 < len then ⟨[beg, beg + 1], none, none⟩
  else if kind = 2 then
    ⟨[beg, beg + 1, beg + 2, beg + 3], some (.mss (at_ 2 ++ at_ 3)), some 3⟩
  else if kind = 3 then ⟨[beg, beg + 1, beg + 2], some (.winScale (at_ 2)), some 2⟩
  else if kind = 4 then ⟨[beg, beg + 1], some .sack, some 1⟩
  else if kind = 1 then ⟨[beg], none, some 0⟩
  else if kind = 0 then ⟨[beg], none, none⟩
  else ⟨[beg, beg + 1], none, if len = 0 then none else some (len - 1)⟩

/-- All turns of the loop. -/
def turns (beyond : Nat → Byte) (beg : Nat) : List Byte → List Turn
  | [] => []
  | kind :: rest =>
      let t := turn beyond beg kind rest
      t :: match t.skip with
        | none => []
        | some n => turns beyond (beg + 1 + n) (rest.drop n)
termination_by opts => opts.length
decreasing_by simp only [List.length_drop, List.length_cons]; omega

/-- What the loop keeps, in order. -/
def kept (beyond : Nat → Byte) (beg : Nat) (opts : List Byte) : List Announced :=
  (turns beyond beg opts).filterMap Turn.kept

theorem turns_nil (beyond : Nat → Byte) (beg : Nat) : turns beyond beg [] = [] := by
  rw [turns]

theorem turns_stop {beyond : Nat → Byte} {beg : Nat} {kind : Byte} {rest : List Byte}
    (stops : (turn beyond beg kind rest).skip = none) :
    turns beyond beg (kind :: rest) = [turn beyond beg kind rest] := by
  rw [turns, stops]

theorem turns_skip {beyond : Nat → Byte} {beg n : Nat} {kind : Byte} {rest : List Byte}
    (skips : (turn beyond beg kind rest).skip = some n) :
    turns beyond beg (kind :: rest) =
      turn beyond beg kind rest :: turns beyond (beg + 1 + n) (rest.drop n) := by
  rw [turns, skips]

/-- Each turn takes a byte at least, so the loop ends. -/
theorem length_turns (beyond : Nat → Byte) (beg : Nat) (opts : List Byte) :
    (turns beyond beg opts).length ≤ opts.length := by
  induction beg, opts using turns.induct beyond with
  | case1 beg => simp [turns_nil]
  | case2 beg kind rest ih =>
      cases skips : (turn beyond beg kind rest).skip with
      | none =>
          rw [turns_stop skips, List.length_cons]
          exact Nat.le_add_left 1 _
      | some n =>
          have shorter := ih n
          rw [turns_skip skips, List.length_cons, List.length_cons]
          rw [List.length_drop] at shorter
          omega

/-- To pass over bytes is to begin behind them. -/
theorem parseFrom_skip (beyond : Nat → Byte) (n : Nat) (o : TcpOption) (opts : List Byte) :
    parseFrom beyond n o opts = parseFrom beyond 0 o (opts.drop n) := by
  induction n generalizing opts with
  | zero => rfl
  | succ n ih =>
      cases opts with
      | nil => rfl
      | cons b rest => exact ih rest

/-- One turn of `parseFrom`. -/
theorem parseFrom_turn (beyond : Nat → Byte) (beg : Nat) (o : TcpOption) (kind : Byte)
    (rest : List Byte) :
    parseFrom beyond 0 o (kind :: rest) =
      let t := turn beyond beg kind rest
      let o := t.kept.elim o o.keep
      match t.skip with
      | none => o
      | some n => parseFrom beyond n o rest := by
  rw [parseFrom, turn]
  dsimp only
  split
  · rfl
  split
  · rfl
  split
  · rfl
  split
  · rfl
  split
  · rfl
  split
  · rfl
  · split <;> rfl

theorem foldl_kept (o : TcpOption) (t : Turn) (ts : List Turn) :
    ((t :: ts).filterMap Turn.kept).foldl keep o =
      (ts.filterMap Turn.kept).foldl keep (t.kept.elim o o.keep) := by
  rw [List.filterMap_cons]
  cases t.kept <;> rfl

/-- The turns are those of `parse`: what it returns is what they kept. -/
theorem parse_eq (beyond : Nat → Byte) (beg : Nat) (o : TcpOption) (opts : List Byte) :
    o.parse beyond opts = (kept beyond beg opts).foldl keep o := by
  unfold parse kept
  induction beg, opts using turns.induct beyond generalizing o with
  | case1 beg =>
      rw [turns_nil]
      rfl
  | case2 beg kind rest ih =>
      rw [parseFrom_turn beyond beg]
      dsimp only
      cases skips : (turn beyond beg kind rest).skip with
      | none =>
          rw [turns_stop skips, foldl_kept]
          rfl
      | some n =>
          rw [turns_skip skips, foldl_kept]
          exact (parseFrom_skip beyond n _ rest).trans (ih n _)

/-! ## The grammar -/

/-- An option behind the kinds that are single bytes. -/
structure Tlv where
  kind : Byte
  payload : List Byte
  deriving DecidableEq, Repr

/-- The kinds that `parse` understands. -/
def understood (kind : Byte) : Bool := kind == 2 || kind == 3 || kind == 4

/-- The lengths an option can have, its kind and its length byte included. -/
def sized (kind len : Byte) : Bool :=
  decide (2 ≤ len.toNat) && (kind != 2 || len == 4) && (kind != 3 || len == 3) &&
    (kind != 4 || len == 2)

/-- The well-formed options in front of the end of the list, or of the first
option that is not well-formed. -/
def wellFormed : List Byte → List Tlv
  | [] => []
  | kind :: rest =>
      if kind = 0 then []
      else if kind = 1 then wellFormed rest
      else match rest with
        | [] => []
        | len :: payload =>
            if sized kind len ∧ len.toNat ≤ payload.length + 2 then
              ⟨kind, payload.take (len.toNat - 2)⟩ :: wellFormed (payload.drop (len.toNat - 2))
            else []
termination_by opts => opts.length
decreasing_by all_goals (simp only [List.length_drop, List.length_cons]; omega)

/-- What an option says. -/
def Tlv.announced (tlv : Tlv) : Option Announced :=
  match tlv.payload with
  | [high, low] => if tlv.kind = 2 then some (.mss (high ++ low)) else none
  | [shift] => if tlv.kind = 3 then some (.winScale shift) else none
  | [] => if tlv.kind = 4 then some .sack else none
  | _ => none

/-- No turn reads at or behind `end`. -/
def ReadsInside (beyond : Nat → Byte) (beg : Nat) (opts : List Byte) : Prop :=
  ∀ t ∈ turns beyond beg opts, ∀ i ∈ t.reads, i < beg + opts.length

/-- Only bytes of the string are read, and what is kept is what its well-formed
options say, whatever memory holds behind them. -/
def FollowsGrammar (opts : List Byte) : Prop :=
  ∀ beyond, ReadsInside beyond 0 opts ∧
    kept beyond 0 opts = (wellFormed opts).filterMap Tlv.announced

/-! ## When the loop follows it -/

/-- Nothing that is understood comes up, and no kind is the last byte; the loop
goes on behind an option of length one. -/
def silent : List Byte → Bool
  | [] => true
  | kind :: rest =>
      if kind = 0 then true
      else if kind = 1 then silent rest
      else match rest with
        | [] => false
        | len :: payload =>
            decide (payload.length + 2 < len.toNat) ||
              (!understood kind && (len == 0 || silent ((len :: payload).drop (len.toNat - 1))))
termination_by opts => opts.length
decreasing_by all_goals (simp only [List.length_drop, List.length_cons]; omega)

/-- Each option has its length byte, MSS, window scale and SACK have the lengths
of their kinds, and after an option of length one nothing is understood. -/
def regular : List Byte → Bool
  | [] => true
  | kind :: rest =>
      if kind = 0 then true
      else if kind = 1 then regular rest
      else match rest with
        | [] => false
        | len :: payload =>
            if payload.length + 2 < len.toNat then true
            else if sized kind len then regular ((len :: payload).drop (len.toNat - 1))
            else !understood kind && (len == 0 || silent (len :: payload))
termination_by opts => opts.length
decreasing_by all_goals (simp only [List.length_drop, List.length_cons]; omega)

variable {beyond : Nat → Byte} {beg : Nat} {kind len : Byte} {rest payload : List Byte}

@[simp] theorem wellFormed_nil : wellFormed [] = [] := by rw [wellFormed.eq_def]

theorem wellFormed_end (rest : List Byte) : wellFormed (0 :: rest) = [] := by
  rw [wellFormed.eq_def]
  rfl

theorem wellFormed_nop (rest : List Byte) : wellFormed (1 :: rest) = wellFormed rest := by
  rw [wellFormed.eq_def]
  rfl

theorem wellFormed_option (other : kind ≠ 0) (other' : kind ≠ 1) :
    wellFormed (kind :: len :: payload) =
      if sized kind len ∧ len.toNat ≤ payload.length + 2 then
        ⟨kind, payload.take (len.toNat - 2)⟩ :: wellFormed (payload.drop (len.toNat - 2))
      else [] := by
  rw [wellFormed.eq_def]
  exact (if_neg other).trans (if_neg other')

@[simp] theorem silent_nil : silent [] = true := by rw [silent.eq_def]

theorem silent_end (rest : List Byte) : silent (0 :: rest) = true := by
  rw [silent.eq_def]
  rfl

theorem silent_nop (rest : List Byte) : silent (1 :: rest) = silent rest := by
  rw [silent.eq_def]
  rfl

theorem silent_last (other : kind ≠ 0) (other' : kind ≠ 1) : silent [kind] = false := by
  rw [silent.eq_def]
  exact (if_neg other).trans (if_neg other')

theorem silent_option (other : kind ≠ 0) (other' : kind ≠ 1) :
    silent (kind :: len :: payload) = (decide (payload.length + 2 < len.toNat) ||
      (!understood kind && (len == 0 || silent ((len :: payload).drop (len.toNat - 1))))) := by
  rw [silent.eq_def]
  exact (if_neg other).trans (if_neg other')

@[simp] theorem regular_nil : regular [] = true := by rw [regular.eq_def]

theorem regular_end (rest : List Byte) : regular (0 :: rest) = true := by
  rw [regular.eq_def]
  rfl

theorem regular_nop (rest : List Byte) : regular (1 :: rest) = regular rest := by
  rw [regular.eq_def]
  rfl

theorem regular_last (other : kind ≠ 0) (other' : kind ≠ 1) : regular [kind] = false := by
  rw [regular.eq_def]
  exact (if_neg other).trans (if_neg other')

theorem regular_option (other : kind ≠ 0) (other' : kind ≠ 1) :
    regular (kind :: len :: payload) =
      if payload.length + 2 < len.toNat then true
      else if sized kind len then regular ((len :: payload).drop (len.toNat - 1))
      else !understood kind && (len == 0 || silent (len :: payload)) := by
  rw [regular.eq_def]
  exact (if_neg other).trans (if_neg other')

theorem turn_end (beyond : Nat → Byte) (beg : Nat) (rest : List Byte) :
    turn beyond beg 0 rest = ⟨[beg], none, none⟩ := by
  simp [turn]

theorem turn_nop (beyond : Nat → Byte) (beg : Nat) (rest : List Byte) :
    turn beyond beg 1 rest = ⟨[beg], none, some 0⟩ := by
  simp [turn]

/-- The length byte is read before anything is known about it. -/
theorem turn_reads_len (beyond : Nat → Byte) (beg : Nat) (rest : List Byte) (other : kind ≠ 0)
    (other' : kind ≠ 1) : beg + 1 ∈ (turn beyond beg kind rest).reads := by
  unfold turn
  dsimp only
  split
  · simp
  split
  · simp
  split
  · simp
  split
  · simp
  · simp

theorem turn_long (other : kind ≠ 0) (other' : kind ≠ 1) (long : payload.length + 2 < len.toNat) :
    turn beyond beg kind (len :: payload) = ⟨[beg, beg + 1], none, none⟩ := by
  unfold turn
  exact if_pos ⟨other', other, long⟩

/-- Every length from 2 on is that of an option that is not understood. -/
theorem unsized_unknown (unknown : understood kind = false) (ill : sized kind len = false) :
    len.toNat < 2 := by
  simp only [understood, Bool.or_eq_false_iff, beq_eq_false_iff_ne] at unknown
  obtain ⟨⟨mss, winScale⟩, sack⟩ := unknown
  by_contra least
  have well : sized kind len = true := by
    simp only [sized, Bool.and_eq_true, decide_eq_true_eq, Bool.or_eq_true, bne_iff_ne, beq_iff_eq]
    exact ⟨⟨⟨Nat.not_lt.mp least, .inl mss⟩, .inl winScale⟩, .inl sack⟩
  rw [well] at ill
  cases ill

/-- An option that is not understood is passed over by its length byte. -/
theorem turn_unknown (other : kind ≠ 0) (other' : kind ≠ 1) (unknown : understood kind = false)
    (fits : len.toNat ≤ payload.length + 2) :
    turn beyond beg kind (len :: payload) =
      ⟨[beg, beg + 1], none, if len = 0 then none else some (len.toNat - 1)⟩ := by
  have short : ¬payload.length + 2 < len.toNat := Nat.not_lt.mpr fits
  have zero : len.toNat = 0 ↔ len = 0 := (@BitVec.toNat_inj 8 len 0#8)
  simp only [understood, Bool.or_eq_false_iff, beq_eq_false_iff_ne] at unknown
  obtain ⟨⟨mss, winScale⟩, sack⟩ := unknown
  unfold turn
  dsimp only
  rw [if_neg (fun bad => short bad.2.2), if_neg mss, if_neg winScale, if_neg sack, if_neg other',
    if_neg other]
  exact congrArg (Turn.mk _ none) (if_congr zero rfl rfl)

/-- One that is understood is kept, whatever its length byte says. -/
theorem turn_understood (beyond : Nat → Byte) (beg : Nat) (known : understood kind = true)
    (fits : len.toNat ≤ payload.length + 2) :
    ∃ a, (turn beyond beg kind (len :: payload)).kept = some a := by
  have short : ¬payload.length + 2 < len.toNat := Nat.not_lt.mpr fits
  simp only [understood, Bool.or_eq_true, beq_iff_eq] at known
  obtain (rfl | rfl) | rfl := known <;> simp [turn, short]

/-- An option that is not understood says nothing. -/
theorem announced_unknown (unknown : understood kind = false) :
    Tlv.announced ⟨kind, payload⟩ = none := by
  simp only [understood, Bool.or_eq_false_iff, beq_eq_false_iff_ne] at unknown
  obtain ⟨⟨mss, winScale⟩, sack⟩ := unknown
  match payload with
  | [] => exact if_neg sack
  | [_] => exact if_neg winScale
  | [_, _] => exact if_neg mss
  | _ :: _ :: _ :: _ => rfl

theorem two_of_length {α : Type} {l : List α} (long : 2 ≤ l.length) :
    ∃ a b tail, l = a :: b :: tail := by
  match l, long with
  | a :: b :: tail, _ => exact ⟨a, b, tail, rfl⟩

/-- One that has the length of its kind is read inside and passed over exactly. -/
theorem turn_sized (beyond : Nat → Byte) (beg : Nat) (other : kind ≠ 0) (other' : kind ≠ 1)
    (well : sized kind len = true) (fits : len.toNat ≤ payload.length + 2) :
    (∀ i ∈ (turn beyond beg kind (len :: payload)).reads, i < beg + len.toNat) ∧
    (turn beyond beg kind (len :: payload)).kept =
      Tlv.announced ⟨kind, payload.take (len.toNat - 2)⟩ ∧
    (turn beyond beg kind (len :: payload)).skip = some (len.toNat - 1) := by
  have short : ¬payload.length + 2 < len.toNat := Nat.not_lt.mpr fits
  simp only [sized, Bool.and_eq_true, decide_eq_true_eq, Bool.or_eq_true, bne_iff_ne,
    beq_iff_eq] at well
  obtain ⟨⟨⟨least, mss⟩, winScale⟩, sack⟩ := well
  by_cases isMss : kind = 2
  · have value : len.toNat = 4 := by rw [mss.resolve_left (fun no => no isMss)]; rfl
    obtain ⟨high, low, tail, rfl⟩ := two_of_length (by omega : 2 ≤ payload.length)
    have inside : ¬tail.length + 1 + 1 + 1 + 1 < 4 := by omega
    simp [turn, isMss, Tlv.announced, value, inside]
  by_cases isWinScale : kind = 3
  · have value : len.toNat = 3 := by rw [winScale.resolve_left (fun no => no isWinScale)]; rfl
    obtain ⟨shift, tail, rfl⟩ := List.length_pos_iff_exists_cons.mp (by omega : 0 < payload.length)
    have inside : ¬tail.length + 1 + 1 + 1 < 3 := by omega
    simp [turn, isWinScale, Tlv.announced, value, inside]
  by_cases isSack : kind = 4
  · have value : len.toNat = 2 := by rw [sack.resolve_left (fun no => no isSack)]; rfl
    have inside : ¬payload.length + 1 + 1 < 2 := by omega
    simp [turn, isSack, Tlv.announced, value, inside]
  have unknown : understood kind = false := by
    simp only [understood, Bool.or_eq_false_iff, beq_eq_false_iff_ne]
    exact ⟨⟨isMss, isWinScale⟩, isSack⟩
  have positive : len ≠ 0 := by
    rintro rfl
    exact absurd least (by decide)
  rw [turn_unknown other other' unknown fits, if_neg positive, announced_unknown unknown]
  refine ⟨?_, rfl, rfl⟩
  intro i member
  simp only [List.mem_cons, List.not_mem_nil, or_false] at member
  omega

/-! ### One turn, and the rest -/

theorem readsInside_cons {n : Nat} (skips : (turn beyond beg kind rest).skip = some n)
    (fits : n ≤ rest.length) :
    ReadsInside beyond beg (kind :: rest) ↔
      (∀ i ∈ (turn beyond beg kind rest).reads, i < beg + (rest.length + 1)) ∧
        ReadsInside beyond (beg + 1 + n) (rest.drop n) := by
  unfold ReadsInside
  rw [turns_skip skips, List.forall_mem_cons, List.length_cons, List.length_drop]
  have same : beg + 1 + n + (rest.length - n) = beg + (rest.length + 1) := by omega
  rw [same]

theorem readsInside_stop (stops : (turn beyond beg kind rest).skip = none) :
    ReadsInside beyond beg (kind :: rest) ↔
      ∀ i ∈ (turn beyond beg kind rest).reads, i < beg + (rest.length + 1) := by
  unfold ReadsInside
  rw [turns_stop stops, List.length_cons]
  simp

theorem kept_cons {n : Nat} (skips : (turn beyond beg kind rest).skip = some n) :
    kept beyond beg (kind :: rest) =
      (turn beyond beg kind rest).kept.toList ++ kept beyond (beg + 1 + n) (rest.drop n) := by
  unfold kept
  rw [turns_skip skips, List.filterMap_cons]
  cases (turn beyond beg kind rest).kept <;> rfl

theorem kept_stop (stops : (turn beyond beg kind rest).skip = none) :
    kept beyond beg (kind :: rest) = (turn beyond beg kind rest).kept.toList := by
  unfold kept
  rw [turns_stop stops, List.filterMap_cons]
  cases (turn beyond beg kind rest).kept <;> rfl

/-- A kind that is the last byte has its length byte outside. -/
theorem not_readsInside_last (beyond : Nat → Byte) (beg : Nat) (other : kind ≠ 0)
    (other' : kind ≠ 1) : ¬ReadsInside beyond beg [kind] := by
  intro inside
  have first : turn beyond beg kind [] ∈ turns beyond beg [kind] := by
    rw [turns]
    exact List.mem_cons_self
  have last := inside _ first _ (turn_reads_len beyond beg [] other other')
  exact absurd last (Nat.lt_irrefl _)

/-- The loop goes on where it returns nothing: it keeps what is understood. -/
theorem kept_understood (beyond : Nat → Byte) (beg : Nat) (known : understood kind = true)
    (fits : len.toNat ≤ payload.length + 2) : kept beyond beg (kind :: len :: payload) ≠ [] := by
  obtain ⟨a, keeps⟩ := turn_understood beyond beg known fits
  cases skips : (turn beyond beg kind (len :: payload)).skip with
  | none => simp [kept_stop skips, keeps]
  | some n => simp [kept_cons skips, keeps]

/-- An option that is not understood and fits: the loop returns, or goes on. -/
theorem unknown_iff {P : List Announced → Prop} (other : kind ≠ 0) (other' : kind ≠ 1)
    (unknown : understood kind = false) (fits : len.toNat ≤ payload.length + 2) :
    (ReadsInside beyond beg (kind :: len :: payload) ∧ P (kept beyond beg (kind :: len :: payload)))
      ↔ (len = 0 ∧ P [] ∨ len ≠ 0 ∧
          ReadsInside beyond (beg + 1 + (len.toNat - 1)) ((len :: payload).drop (len.toNat - 1)) ∧
          P (kept beyond (beg + 1 + (len.toNat - 1)) ((len :: payload).drop (len.toNat - 1)))) := by
  have shape := @turn_unknown beyond beg kind len payload other other' unknown fits
  have inside : ∀ i ∈ [beg, beg + 1], i < beg + ((len :: payload).length + 1) := by
    intro i member
    simp only [List.mem_cons, List.not_mem_nil, or_false, List.length_cons] at member ⊢
    omega
  by_cases zero : len = 0
  · rw [if_pos zero] at shape
    have stops := congrArg Turn.skip shape
    rw [readsInside_stop stops, kept_stop stops, shape]
    exact ⟨fun both => .inl ⟨zero, both.2⟩,
      fun either => ⟨inside, (either.resolve_right (fun no => no.1 zero)).2⟩⟩
  · rw [if_neg zero] at shape
    have skips := congrArg Turn.skip shape
    have within : len.toNat - 1 ≤ (len :: payload).length := by
      rw [List.length_cons]
      omega
    rw [readsInside_cons skips within, kept_cons skips, shape]
    exact ⟨fun both => .inr ⟨zero, both.1.2, both.2⟩, fun either =>
      have goesOn := either.resolve_left (fun no => zero no.1)
      ⟨⟨inside, goesOn.2.1⟩, goesOn.2.2⟩⟩

/-- What `silent` promises is what the loop does, and nothing less will do. -/
theorem silent_iff (beyond : Nat → Byte) (beg : Nat) (opts : List Byte) :
    silent opts = true ↔ ReadsInside beyond beg opts ∧ kept beyond beg opts = [] := by
  induction beg, opts using turns.induct beyond with
  | case1 beg => simp [ReadsInside, kept, turns_nil]
  | case2 beg kind rest ih =>
      by_cases isEnd : kind = 0
      · subst isEnd
        have stops := congrArg Turn.skip (turn_end beyond beg rest)
        rw [silent_end, readsInside_stop stops, kept_stop stops, turn_end]
        simp
      by_cases isNop : kind = 1
      · subst isNop
        have skips := congrArg Turn.skip (turn_nop beyond beg rest)
        rw [silent_nop, readsInside_cons skips (Nat.zero_le _), kept_cons skips, turn_nop]
        simpa using ih 0
      match rest with
      | [] => simp [silent_last isEnd isNop, not_readsInside_last beyond beg isEnd isNop]
      | len :: payload =>
          rw [silent_option isEnd isNop]
          by_cases long : payload.length + 2 < len.toNat
          · have shape := @turn_long beyond beg kind len payload isEnd isNop long
            have stops := congrArg Turn.skip shape
            rw [readsInside_stop stops, kept_stop stops, shape]
            simp [long]
          have fits := Nat.not_lt.mp long
          by_cases known : understood kind = true
          · simp [known, long, kept_understood beyond beg known fits]
          have unknown := Bool.eq_false_iff.mpr known
          have goesOn := ih (len.toNat - 1)
          rw [@unknown_iff beyond beg kind len payload (· = []) isEnd isNop unknown fits, ← goesOn]
          simp only [decide_eq_false long, unknown, Bool.false_or, Bool.not_false, Bool.true_and,
            Bool.or_eq_true, beq_iff_eq, and_true]
          tauto

/-- The loop follows the grammar just from strings that are regular. -/
theorem regular_iff (beyond : Nat → Byte) (beg : Nat) (opts : List Byte) :
    regular opts = true ↔ ReadsInside beyond beg opts ∧
      kept beyond beg opts = (wellFormed opts).filterMap Tlv.announced := by
  induction beg, opts using turns.induct beyond with
  | case1 beg => simp [ReadsInside, kept, turns_nil]
  | case2 beg kind rest ih =>
      by_cases isEnd : kind = 0
      · subst isEnd
        have stops := congrArg Turn.skip (turn_end beyond beg rest)
        rw [regular_end, wellFormed_end, readsInside_stop stops, kept_stop stops, turn_end]
        simp
      by_cases isNop : kind = 1
      · subst isNop
        have skips := congrArg Turn.skip (turn_nop beyond beg rest)
        rw [regular_nop, wellFormed_nop, readsInside_cons skips (Nat.zero_le _), kept_cons skips,
          turn_nop]
        simpa using ih 0
      match rest with
      | [] => simp [regular_last isEnd isNop, not_readsInside_last beyond beg isEnd isNop]
      | len :: payload =>
          rw [regular_option isEnd isNop, wellFormed_option isEnd isNop]
          by_cases long : payload.length + 2 < len.toNat
          · have shape := @turn_long beyond beg kind len payload isEnd isNop long
            have stops := congrArg Turn.skip shape
            have short : ¬(sized kind len = true ∧ len.toNat ≤ payload.length + 2) :=
              fun both => Nat.not_lt.mpr both.2 long
            rw [readsInside_stop stops, kept_stop stops, shape, if_pos long, if_neg short]
            simp
          have fits := Nat.not_lt.mp long
          rw [if_neg long]
          by_cases well : sized kind len = true
          · obtain ⟨inside, announces, skips⟩ := turn_sized beyond beg isEnd isNop well fits
            have least : 2 ≤ len.toNat := by
              simp only [sized, Bool.and_eq_true, decide_eq_true_eq] at well
              exact well.1.1.1
            have behind : (len :: payload).drop (len.toNat - 1) = payload.drop (len.toNat - 2) := by
              obtain ⟨n, value⟩ := Nat.exists_eq_add_of_le' least
              rw [value]
              rfl
            have within : len.toNat - 1 ≤ (len :: payload).length := by
              rw [List.length_cons]
              omega
            have here : ∀ i ∈ (turn beyond beg kind (len :: payload)).reads,
                i < beg + ((len :: payload).length + 1) := by
              intro i member
              have read := inside i member
              rw [List.length_cons]
              omega
            have onward := ih (len.toNat - 1)
            rw [if_pos well, if_pos ⟨well, fits⟩, readsInside_cons skips within, kept_cons skips,
              announces, behind, List.filterMap_cons]
            rw [behind] at onward
            rw [onward, and_iff_right here]
            cases Tlv.announced ⟨kind, payload.take (len.toNat - 2)⟩ <;> simp
          · rw [if_neg well, if_neg (fun both => well both.1), List.filterMap_nil]
            by_cases known : understood kind = true
            · simp [known, kept_understood beyond beg known fits]
            have unknown := Bool.eq_false_iff.mpr known
            have goesOn := silent_iff beyond (beg + 1 + (len.toNat - 1))
              ((len :: payload).drop (len.toNat - 1))
            have behind : (len :: payload).drop (len.toNat - 1) = len :: payload := by
              have short := unsized_unknown unknown (Bool.eq_false_iff.mpr well)
              have none : len.toNat - 1 = 0 := by omega
              rw [none, List.drop_zero]
            rw [@unknown_iff beyond beg kind len payload (· = []) isEnd isNop unknown fits, ← goesOn,
              behind]
            simp only [unknown, Bool.not_false, Bool.true_and, Bool.or_eq_true, beq_iff_eq, and_true]
            tauto

/-- `parse` ends, and keeps what the turns of its loop keep; it reads inside and
follows the grammar exactly on regular strings. -/
theorem parse_follows_iff (opts : List Byte) :
    (∀ beyond (o : TcpOption), (turns beyond 0 opts).length ≤ opts.length ∧
      o.parse beyond opts = (kept beyond 0 opts).foldl keep o) ∧
    (FollowsGrammar opts ↔ regular opts = true) := by
  refine ⟨fun beyond o => ⟨length_turns beyond 0 opts, parse_eq beyond 0 o opts⟩, ?_, ?_⟩
  · intro follows
    exact (regular_iff (fun _ => 0) 0 opts).mpr (follows _)
  · intro isRegular beyond
    exact (regular_iff beyond 0 opts).mp isRegular

/-- Two bytes of padding, and an MSS option whose payload is not there: two bytes
behind the header are read, and taken for the segment size. -/
theorem parse_outside : ¬FollowsGrammar [1, 1, 2, 2] := by
  intro follows
  have isRegular := (regular_iff (fun _ => 0) 0 [1, 1, 2, 2]).mpr (follows _)
  rw [regular_nop, regular_nop, regular_option (by decide) (by decide)] at isRegular
  revert isRegular
  decide

end TcpOption

end ActorNet.Tcp
