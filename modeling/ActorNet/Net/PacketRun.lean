import Mathlib.Logic.Function.Basic
import ActorNet.Lib.Run
import ActorNet.Net.PacketSlices

/-!
# Packets are byte strings

A program that works on packets is a sequence of operations on named packets.
The same sequence can be run on byte strings; `packets_are_byte_strings` relates
the two, for programs that trim and share within the length of a packet, build
no packet of 2^32 bytes and never let `trim_back` reach the bytes in `_data`.
`trimBack_then_prepend` is a program that does, and that then writes in front
of `_data`.
-/

namespace ActorNet.Net

open Lib Lib.Guarded

/-- The operations on packets of a type. -/
structure PacketOps (α : Type) where
  ofBytes : List Byte → Except Fault α
  ofFragments : List (List Byte) → Except Fault α
  appendFragment : α → List Byte → Except Fault α
  append : α → α → Except Fault α
  prepend : α → List Byte → Except Fault α
  prependHeader : α → List Byte → Except Fault α
  trimFront : α → Nat → Except Fault α
  trimBack : α → Nat → Except Fault α
  share : α → Nat → Nat → Except Fault (α × α)
  getHeader : α → Nat → Nat → Except Fault (α × Option (List Byte))

/-- `net::packet`. -/
def implOps : PacketOps Impl where
  ofBytes := Impl.ofBytes
  ofFragments := Impl.ofFragments
  appendFragment := Impl.appendFragment
  append := Impl.append
  prepend := Impl.prepend
  prependHeader := Impl.prependHeader
  trimFront := Impl.trimFront
  trimBack := Impl.trimBack
  share := Impl.share
  getHeader := Impl.getHeader

/-- What the operations are for: byte strings. -/
def byteOps : PacketOps (List Byte) where
  ofBytes bytes := .ok bytes
  ofFragments frags := .ok frags.flatten
  appendFragment s bytes := .ok (s ++ bytes)
  append s t := .ok (s ++ t)
  prepend s bytes := .ok (bytes ++ s)
  prependHeader s header := .ok (header ++ s)
  trimFront s howMuch := if s.length < howMuch then .error .assertion else .ok (s.drop howMuch)
  trimBack s howMuch :=
    if s.length < howMuch then .error .assertion else .ok (s.take (s.length - howMuch))
  share s offset len :=
    if offset + len ≤ s.length then .ok (s, (s.drop offset).take len) else .error .outOfBounds
  getHeader s offset size := .ok (s,
    if offset + size ≤ s.length ∧ offset < s.length then some ((s.drop offset).take size)
    else none)

/-- An operation on named packets; `append` moves its second packet. -/
inductive Op
  | ofBytes (dst : Nat) (bytes : List Byte)
  | ofFragments (dst : Nat) (frags : List (List Byte))
  | appendFragment (dst : Nat) (bytes : List Byte)
  | append (dst src : Nat)
  | prepend (dst : Nat) (bytes : List Byte)
  | prependHeader (dst : Nat) (header : List Byte)
  | trimFront (dst howMuch : Nat)
  | trimBack (dst howMuch : Nat)
  | share (src offset len dst : Nat)
  | getHeader (src offset size : Nat)
  deriving DecidableEq, Repr

/-- The packets of a program, what `get_header` returned to it, the last first,
and whether it has accessed memory it must not. -/
structure Pool (α : Type) where
  packets : Nat → Option α
  reads : List (Option (List Byte))
  corrupted : Bool

namespace Pool

variable {α β : Type}

def empty : Pool α := ⟨fun _ => none, [], false⟩

def get (s : Pool α) (i : Nat) : Except Fault α :=
  match s.packets i with
  | some p => .ok p
  | none => .error .movedFrom

def set (s : Pool α) (i : Nat) (p : Option α) : Pool α :=
  { s with packets := Function.update s.packets i p }

def update (s : Pool α) (i : Nat) (f : α → Except Fault α) : Except Fault (Pool α) := do
  let p ← s.get i
  let q ← f p
  .ok (s.set i (some q))

/-- The same packets seen through `f`. -/
def map (f : α → β) (s : Pool α) : Pool β :=
  ⟨fun i => (s.packets i).map f, s.reads, s.corrupted⟩

def apply (ops : PacketOps α) (s : Pool α) : Op → Except Fault (Pool α)
  | .ofBytes dst bytes => do
      let p ← ops.ofBytes bytes
      .ok (s.set dst (some p))
  | .ofFragments dst frags => do
      let p ← ops.ofFragments frags
      .ok (s.set dst (some p))
  | .appendFragment dst bytes => s.update dst fun p => ops.appendFragment p bytes
  | .append dst src => do
      let p ← s.get src
      (s.set src none).update dst fun x => ops.append x p
  | .prepend dst bytes => s.update dst fun p => ops.prepend p bytes
  | .prependHeader dst header => s.update dst fun p => ops.prependHeader p header
  | .trimFront dst howMuch => s.update dst fun p => ops.trimFront p howMuch
  | .trimBack dst howMuch => s.update dst fun p => ops.trimBack p howMuch
  | .share src offset len dst => do
      let p ← s.get src
      let (p, n) ← ops.share p offset len
      .ok ((s.set src (some p)).set dst (some n))
  | .getHeader src offset size => do
      let p ← s.get src
      let (p, read) ← ops.getHeader p offset size
      .ok { s.set src (some p) with reads := read :: s.reads }

/-- A failed assertion ends the program; an access out of bounds goes unnoticed,
but nothing is known of the packets any more. -/
def step (ops : PacketOps α) (s : Pool α) (op : Op) : Option (Pool α) :=
  if s.corrupted then none
  else match s.apply ops op with
    | .ok s' => some s'
    | .error .outOfBounds => some { s with corrupted := true }
    | .error _ => none

end Pool

/-- Trims and shares are within the length of the packet. -/
def Op.Within (s : Pool Impl) : Op → Prop
  | .trimFront dst howMuch | .trimBack dst howMuch =>
      ∀ p, s.packets dst = some p → howMuch ≤ p.len
  | .share src offset len _ => ∀ p, s.packets src = some p → offset + len ≤ p.len
  | _ => True

/-- The lengths fit `unsigned`. -/
def Op.Fits (s : Pool Impl) : Op → Prop
  | .ofBytes _ bytes => bytes.length < 2 ^ 32
  | .ofFragments _ frags => frags.flatten.length < 2 ^ 32
  | .appendFragment dst bytes | .prepend dst bytes | .prependHeader dst bytes =>
      ∀ p, s.packets dst = some p → p.len + bytes.length < 2 ^ 32
  | .append dst src => ∀ p q, s.packets dst = some p → s.packets src = some q →
      p.len + q.len < 2 ^ 32
  | _ => True

/-- `trim_back` takes nothing of the bytes in `_data`. -/
def Op.Spares (s : Pool Impl) : Op → Prop
  | .trimBack dst howMuch => ∀ p, s.packets dst = some p → p.SparesInternalData howMuch
  | _ => True

instance (s : Pool Impl) : ∀ op : Op, Decidable (op.Within s)
  | .trimFront dst howMuch | .trimBack dst howMuch =>
      inferInstanceAs (Decidable (∀ p ∈ s.packets dst, howMuch ≤ p.len))
  | .share src offset len _ =>
      inferInstanceAs (Decidable (∀ p ∈ s.packets src, offset + len ≤ p.len))
  | .ofBytes .. | .ofFragments .. | .appendFragment .. | .append .. | .prepend ..
  | .prependHeader .. | .getHeader .. => .isTrue trivial

instance (s : Pool Impl) : ∀ op : Op, Decidable (op.Fits s)
  | .ofBytes _ bytes => inferInstanceAs (Decidable (bytes.length < 2 ^ 32))
  | .ofFragments _ frags => inferInstanceAs (Decidable (frags.flatten.length < 2 ^ 32))
  | .appendFragment dst bytes | .prepend dst bytes | .prependHeader dst bytes =>
      inferInstanceAs (Decidable (∀ p ∈ s.packets dst, p.len + bytes.length < 2 ^ 32))
  | .append dst src => decidable_of_iff
      (∀ p ∈ s.packets dst, ∀ q ∈ s.packets src, p.len + q.len < 2 ^ 32)
      ⟨fun fits p q dst src => fits p dst q src, fun fits p dst q src => fits p q dst src⟩
  | .trimFront .. | .trimBack .. | .share .. | .getHeader .. => .isTrue trivial

instance (s : Pool Impl) : ∀ op : Op, Decidable (op.Spares s)
  | .trimBack dst howMuch =>
      inferInstanceAs (Decidable (∀ p ∈ s.packets dst, p.SparesInternalData howMuch))
  | .ofBytes .. | .ofFragments .. | .appendFragment .. | .append .. | .prepend ..
  | .prependHeader .. | .trimFront .. | .share .. | .getHeader .. => .isTrue trivial

/-- The internal fragment begins behind the headroom and ends where `_data` does. -/
def Impl.AtHeadroom (p : Impl) : Prop :=
  p.usingInternalData = true →
    ∃ rest, p.frags = .inData p.headroom (internalDataSize - p.headroom) :: rest

theorem Impl.WF.atHeadroom {p : Impl} (wf : p.WF) : p.AtHeadroom := by
  intro using_
  rcases wf.first with unused | ⟨rest, used⟩
  · rw [unused.usingInternalData] at using_
    exact nomatch using_
  · exact ⟨rest, used.frags⟩

/-! ## The simulation -/

/-- A packet operation does what the operation on byte strings does. -/
def Matches (r : Except Fault Impl) (r' : Except Fault (List Byte)) : Prop :=
  Impl.Safe r fun q => q.WF ∧ r' = .ok q.content

namespace Pool

/-- Every packet of the pool is well formed. -/
structure WF (s : Pool Impl) : Prop where
  sound : s.corrupted = false
  packets : ∀ i p, s.packets i = some p → p.WF

/-- A step on packets is the step on their bytes. -/
def StepMatches (r : Except Fault (Pool Impl)) (r' : Except Fault (Pool (List Byte))) : Prop :=
  Impl.Safe r fun s => s.WF ∧ r' = .ok (s.map Impl.content)

variable {s : Pool Impl}

theorem WF.set (wf : s.WF) {i : Nat} {p : Option Impl} (packet : ∀ q, p = some q → q.WF) :
    (s.set i p).WF := by
  refine ⟨wf.sound, fun j q found => ?_⟩
  by_cases same : j = i
  · subst same
    simp only [Pool.set, Function.update_self] at found
    exact packet q found
  · simp only [Pool.set, Function.update_of_ne same] at found
    exact wf.packets j q found

theorem map_set (i : Nat) (p : Option Impl) :
    (s.set i p).map Impl.content = (s.map Impl.content).set i (p.map Impl.content) := by
  simp only [map, Pool.set, mk.injEq, and_true]
  funext j
  by_cases same : j = i
  · subst same
    simp
  · simp [Function.update_of_ne same]

theorem WF.update (wf : s.WF) {i : Nat} {f : Impl → Except Fault Impl}
    {f' : List Byte → Except Fault (List Byte)}
    (matched : ∀ p, s.packets i = some p → Matches (f p) (f' p.content)) :
    StepMatches (s.update i f) ((s.map Impl.content).update i f') := by
  unfold Pool.update Pool.get
  cases found : s.packets i with
  | none => exact fun bad => nomatch bad
  | some p =>
      have found' : (s.map Impl.content).packets i = some p.content := by simp [map, found]
      simp only [found', bind, Except.bind]
      refine (matched p found).bind ?_
      rintro q ⟨wf', same⟩
      refine ⟨wf.set fun _ eq => Option.some.inj eq ▸ wf', ?_⟩
      simp only [same, map_set, Option.map_some]

theorem WF.get (wf : s.WF) (i : Nat) :
    Impl.Safe (s.get i) fun p =>
      p.WF ∧ s.packets i = some p ∧ (s.map Impl.content).get i = .ok p.content := by
  unfold Pool.get
  cases found : s.packets i with
  | none => exact fun bad => nomatch bad
  | some p => exact ⟨wf.packets i p found, rfl, by simp [map, found]⟩

/-- Every operation keeps the pool well formed and does to the bytes what the
operation on byte strings does. -/
theorem WF.apply (wf : s.WF) {op : Op} (within : op.Within s) (fits : op.Fits s)
    (spares : op.Spares s) :
    StepMatches (s.apply implOps op) ((s.map Impl.content).apply byteOps op) := by
  cases op with
  | ofBytes dst bytes =>
      refine (Impl.ofBytes_spec fits).bind ?_
      rintro q ⟨wf', rfl⟩
      exact ⟨wf.set fun _ eq => Option.some.inj eq ▸ wf', by rw [map_set]; rfl⟩
  | ofFragments dst frags =>
      refine (Impl.ofFragments_spec fits).bind ?_
      rintro q ⟨wf', content⟩
      refine ⟨wf.set fun _ eq => Option.some.inj eq ▸ wf', ?_⟩
      rw [map_set, Option.map_some, content]
      rfl
  | appendFragment dst bytes =>
      refine wf.update fun p found => ?_
      refine (Impl.appendFragment_spec (wf.packets _ p found) (fits p found)).mono ?_
      rintro q ⟨wf', content⟩
      exact ⟨wf', congrArg Except.ok content.symm⟩
  | append dst src =>
      refine (wf.get src).bind ?_
      rintro p ⟨wfp, foundSrc, got⟩
      have moved : (s.set src none).WF := wf.set fun _ eq => nomatch eq
      have same : (s.map Impl.content).apply byteOps (.append dst src) =
          ((s.set src none).map Impl.content).update dst fun x => .ok (x ++ p.content) := by
        simp only [Pool.apply, got, byteOps, bind, Except.bind, map_set, Option.map_none]
      rw [same]
      refine moved.update fun x foundDst => ?_
      have foundDst' : s.packets dst = some x := by
        by_cases self : dst = src
        · subst self
          simp [Pool.set] at foundDst
        · simpa [Pool.set, Function.update_of_ne self] using foundDst
      refine (Impl.append_spec (wf.packets _ x foundDst') wfp (fits x p foundDst' foundSrc)).mono ?_
      rintro q ⟨wf', content⟩
      exact ⟨wf', congrArg Except.ok content.symm⟩
  | prepend dst bytes =>
      refine wf.update fun p found => ?_
      refine (Impl.prepend_spec (wf.packets _ p found) (fits p found)).mono ?_
      rintro q ⟨wf', content⟩
      exact ⟨wf', congrArg Except.ok content.symm⟩
  | prependHeader dst header =>
      refine wf.update fun p found => ?_
      refine (Impl.prependHeader_spec (wf.packets _ p found) (fits p found)).mono ?_
      rintro q ⟨wf', content⟩
      exact ⟨wf', congrArg Except.ok content.symm⟩
  | trimFront dst howMuch =>
      refine wf.update fun p found => ?_
      have inside := within p found
      have length := (wf.packets _ p found).length_content
      refine (Impl.trimFront_spec (wf.packets _ p found) howMuch).mono ?_
      rintro q ⟨wf', content⟩
      exact ⟨wf', by simp only [byteOps, if_neg (show ¬p.content.length < howMuch by omega),
        content]⟩
  | trimBack dst howMuch =>
      refine wf.update fun p found => ?_
      have inside := within p found
      have length := (wf.packets _ p found).length_content
      refine (Impl.trimBack_spec (wf.packets _ p found) (spares p found)).mono ?_
      rintro q ⟨wf', content⟩
      exact ⟨wf', by simp only [byteOps, if_neg (show ¬p.content.length < howMuch by omega),
        content]⟩
  | share src offset len dst =>
      refine (wf.get src).bind ?_
      rintro p ⟨wfp, found, got⟩
      have length := wfp.length_content
      have inside := within p found
      refine (Impl.share_spec wfp inside).bind ?_
      rintro ⟨p', n⟩ ⟨wf', content, wfn, slice⟩
      refine ⟨(wf.set fun _ eq => Option.some.inj eq ▸ wf').set fun _ eq =>
        Option.some.inj eq ▸ wfn, ?_⟩
      simp only [Pool.apply, got, byteOps, bind, Except.bind,
        if_pos (show offset + len ≤ p.content.length by omega), map_set, Option.map_some, content,
        slice]
  | getHeader src offset size =>
      refine (wf.get src).bind ?_
      rintro p ⟨wfp, found, got⟩
      refine (Impl.getHeader_spec wfp offset size).bind ?_
      rintro ⟨p', read⟩ ⟨wf', content, rfl⟩
      have kept : (s.set src (some p')).WF := wf.set fun _ eq => Option.some.inj eq ▸ wf'
      refine ⟨⟨kept.sound, kept.packets⟩, ?_⟩
      have seen : (s.set src (some p')).map Impl.content =
          (s.map Impl.content).set src (some p.content) := by
        rw [map_set, Option.map_some, content]
      simp only [Pool.apply, got, byteOps, bind, Except.bind, ← seen]
      rfl

/-- A step of the program on packets is a step of the program on byte strings. -/
theorem WF.step (wf : s.WF) {op : Op} {s' : Pool Impl}
    (guards : op.Within s ∧ op.Fits s ∧ op.Spares s) (next : s.step implOps op = some s') :
    s'.WF ∧ (s.map Impl.content).step byteOps op = some (s'.map Impl.content) := by
  have matched := wf.apply guards.1 guards.2.1 guards.2.2
  simp only [Pool.step, wf.sound, Bool.false_eq_true, if_false] at next
  cases result : s.apply implOps op with
  | ok s₁ =>
      simp only [result, Option.some.injEq] at next
      simp only [StepMatches, result, Impl.Safe, Ensures] at matched
      subst next
      have sound : (s.map Impl.content).corrupted = false := wf.sound
      exact ⟨matched.1, by simp only [Pool.step, sound, matched.2, Bool.false_eq_true, if_false]⟩
  | error fault =>
      simp only [StepMatches, result, Impl.Safe, Ensures] at matched
      cases fault with
      | outOfBounds => exact absurd rfl matched
      | assertion => simp [result] at next
      | movedFrom => simp [result] at next

end Pool

/-- A program that trims and shares within the length of its packets, builds no
packet of 2^32 bytes and spares the bytes in `_data` when it trims the back of a
packet writes only where it may, its packets hold what the same program makes of
byte strings, every length is the sum of the sizes of the fragments, and the
internal fragment begins at the headroom. -/
theorem packets_are_byte_strings {ops : List Op} {s : Pool Impl}
    (within : Along (Pool.step implOps) Op.Within Pool.empty ops)
    (fits : Along (Pool.step implOps) Op.Fits Pool.empty ops)
    (spares : Along (Pool.step implOps) Op.Spares Pool.empty ops)
    (run : exec (Pool.step implOps) Pool.empty ops = some s) :
    s.corrupted = false ∧
      exec (Pool.step byteOps) Pool.empty ops = some (s.map Impl.content) ∧
      ∀ i p, s.packets i = some p → p.len = Impl.total p.frags ∧ p.AtHeadroom := by
  have along := within.and (fits.and spares)
  have start : (Pool.empty : Pool Impl).WF := ⟨rfl, fun _ _ found => nomatch found⟩
  have matched (s : Pool Impl) (t : Pool (List Byte)) (op : Op) (s' : Pool Impl)
      (related : s.WF ∧ t = s.map Impl.content)
      (guards : op.Within s ∧ op.Fits s ∧ op.Spares s) (next : s.step implOps op = some s') :
      ∃ t', t.step byteOps op = some t' ∧ s'.WF ∧ t' = s'.map Impl.content := by
    obtain ⟨wf, rfl⟩ := related
    obtain ⟨wf', next'⟩ := wf.step guards next
    exact ⟨_, next', wf', rfl⟩
  obtain ⟨t, run', wf, rfl⟩ := along.simulated matched ⟨start, rfl⟩ run
  exact ⟨wf.sound, run', fun i p found => ⟨(wf.packets i p found).len_eq,
    (wf.packets i p found).atHeadroom⟩⟩

theorem packets_are_byte_strings_trimmed :
    let ops : List Op := [.ofBytes 0 [1#8, 2#8, 3#8], .appendFragment 0 [4#8, 5#8, 6#8],
      .trimBack 0 2, .trimFront 0 1, .prependHeader 0 [9#8, 9#8], .share 0 1 3 1,
      .getHeader 0 1 4]
    ∃ s, exec (Pool.step implOps) Pool.empty ops = some s ∧
      exec (Pool.step byteOps) Pool.empty ops = some (s.map Impl.content) :=
  ⟨_, rfl, (packets_are_byte_strings (by decide +kernel) (by decide +kernel) (by decide +kernel)
    rfl).2.1⟩

/-- Trimming bytes that lie in `_data` moves the headroom, not the bytes. -/
theorem trimBack_then_prepend :
    let ops := [.ofBytes 0 [1#8, 2#8, 3#8, 4#8, 5#8], .trimBack 0 3,
      .prependHeader 0 (List.replicate 110 9#8)]
    Along (Pool.step implOps) Op.Within Pool.empty ops ∧
      (exec (Pool.step implOps) Pool.empty ops).map Pool.corrupted = some true ∧
      (exec (Pool.step byteOps) Pool.empty ops).map Pool.corrupted = some false := by
  decide +kernel

end ActorNet.Net
