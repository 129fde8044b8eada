import Mathlib.Algebra.BigOperators.Group.List.Basic
import ActorNet.Net.Packet

/-!
# The layout of a packet, and what every operation makes of its bytes

`Impl.Layout` is the invariant of the representation: either no fragment uses
`_data` and all of it is headroom, or the first fragment occupies the rest of
`_data` behind the headroom. Each operation has one lemma that it keeps the
layout, stays inside the memory it writes to, and does to the content what the
operation of the same name does to a byte string.
-/

namespace ActorNet.Net

open Lib Lib.Guarded

/-- A fragment that does not use `_data`; one of no bytes may point to its end. -/
def Fragment.Plain : Fragment → Prop
  | .inData base size => base = internalDataSize ∧ size = 0
  | .outside _ => True

namespace Fragment

theorem Plain.length_bytes {f : Fragment} (plain : f.Plain) (data : List Byte) :
    (f.bytes data).length = f.size := by
  cases f with
  | inData base n => simp [bytes, size, plain.2]
  | outside bytes => rfl

/-- The bytes of a plain fragment do not depend on `_data`. -/
theorem Plain.bytes_eq {f : Fragment} (plain : f.Plain) (data data' : List Byte) :
    f.bytes data = f.bytes data' := by
  cases f with
  | inData base size => simp [bytes, plain.2]
  | outside bytes => rfl

/-- A plain fragment that has bytes is memory of its own. -/
theorem Plain.outside_of_pos {f : Fragment} (plain : f.Plain) (positive : 0 < f.size) :
    ∃ bs, f = outside bs := by
  cases f with
  | inData base n =>
      simp only [size, plain.2] at positive
      exact absurd positive (Nat.lt_irrefl 0)
  | outside bytes => exact ⟨bytes, rfl⟩

end Fragment

namespace Impl

/-- No access outside the memory an operation works on. -/
abbrev Safe {α : Type} (r : Except Fault α) (Q : α → Prop) : Prop :=
  Ensures (· = Fault.outOfBounds) r Q

/-- The size of a list of fragments. -/
def total (frags : List Fragment) : Nat := (frags.map Fragment.size).sum

@[simp] theorem total_nil : total [] = 0 := rfl

@[simp] theorem total_cons (f : Fragment) (fs : List Fragment) :
    total (f :: fs) = f.size + total fs := rfl

@[simp] theorem total_append (fs gs : List Fragment) :
    total (fs ++ gs) = total fs + total gs := by
  simp [total]

@[simp] theorem total_reverse (fs : List Fragment) : total fs.reverse = total fs := by
  simp [total]

@[simp] theorem gather_nil (data : List Byte) : gather data [] = [] := rfl

@[simp] theorem gather_cons (data : List Byte) (f : Fragment) (fs : List Fragment) :
    gather data (f :: fs) = f.bytes data ++ gather data fs := rfl

@[simp] theorem gather_append (data : List Byte) (fs gs : List Fragment) :
    gather data (fs ++ gs) = gather data fs ++ gather data gs :=
  List.flatMap_append

/-- The bytes of plain fragments do not depend on `_data`. -/
theorem gather_plain {fs : List Fragment} (plain : ∀ f ∈ fs, f.Plain)
    (data data' : List Byte) : gather data fs = gather data' fs :=
  List.flatMap_congr fun f mem => (plain f mem).bytes_eq data data'

/-- No fragment uses `_data`. -/
structure Unused (p : Impl) : Prop where
  headroom : p.headroom = internalDataSize
  plain : ∀ f ∈ p.frags, f.Plain

/-- The first fragment begins behind the headroom and fills `_data`. -/
structure Used (p : Impl) (rest : List Fragment) : Prop where
  headroom : p.headroom < internalDataSize
  frags : p.frags = .inData p.headroom (internalDataSize - p.headroom) :: rest
  plain : ∀ f ∈ rest, f.Plain

/-- The invariant of the representation. -/
structure Layout (p : Impl) : Prop where
  data_length : p.data.length = internalDataSize
  allocated : p.frags.length ≤ p.allocatedFrags
  few : p.allocatedFrags < 2 ^ 16
  first : p.Unused ∨ ∃ rest, p.Used rest

/-- The invariant of a packet between operations. -/
structure WF (p : Impl) : Prop extends p.Layout where
  len_eq : p.len = total p.frags
  fits : p.len < 2 ^ 32

variable {p : Impl}

theorem usingInternalData_of_plain (plain : ∀ f ∈ p.frags, f.Plain) :
    p.usingInternalData = false := by
  unfold usingInternalData
  split
  · rename_i base size rest frags
    have here := plain (.inData base size) (by rw [frags]; exact List.mem_cons_self)
    simp [here.1]
  · rfl

theorem Unused.usingInternalData (unused : p.Unused) : p.usingInternalData = false :=
  usingInternalData_of_plain unused.plain

theorem Used.usingInternalData {rest : List Fragment} (used : p.Used rest) :
    p.usingInternalData = true := by
  have := used.headroom
  simp only [Impl.usingInternalData, used.frags, decide_eq_true_eq]
  omega

/-- The first fragment holds everything behind the headroom. -/
theorem Used.gather {rest : List Fragment} (used : p.Used rest)
    (length : p.data.length = internalDataSize) (data : List Byte) :
    p.content = p.data.drop p.headroom ++ gather data rest := by
  have whole : (p.data.drop p.headroom).take (internalDataSize - p.headroom) =
      p.data.drop p.headroom := List.take_of_length_le (by simp [length])
  rw [content, used.frags, gather_cons, Fragment.bytes, Int.toNat_natCast, whole,
    gather_plain used.plain p.data data]

/-- Every fragment has as many bytes as its size says. -/
theorem Layout.length_bytes (layout : p.Layout) {f : Fragment} (mem : f ∈ p.frags) :
    (f.bytes p.data).length = f.size := by
  rcases layout.first with unused | ⟨rest, used⟩
  · exact (unused.plain f mem).length_bytes p.data
  · rw [used.frags] at mem
    rcases List.mem_cons.mp mem with rfl | later
    · simp [Fragment.bytes, Fragment.size, layout.data_length]
    · exact (used.plain f later).length_bytes p.data

theorem length_gather {data : List Byte} {fs : List Fragment}
    (sizes : ∀ f ∈ fs, (f.bytes data).length = f.size) : (gather data fs).length = total fs := by
  induction fs with
  | nil => rfl
  | cons f fs ih =>
      rw [gather_cons, List.length_append, total_cons, sizes f List.mem_cons_self,
        ih fun g mem => sizes g (List.mem_cons_of_mem _ mem)]

theorem Layout.length_content (layout : p.Layout) : p.content.length = total p.frags :=
  length_gather fun _ mem => layout.length_bytes mem

theorem WF.length_content (wf : p.WF) : p.content.length = p.len :=
  wf.toLayout.length_content.trans wf.len_eq.symm

theorem unsigned_of_lt {n : Nat} (small : n < 2 ^ 32) : unsigned n = n := Nat.mod_eq_of_lt small

/-! ## Memory -/

/-- Moving the first fragment out of `_data`. -/
theorem unuseInternalData_spec (layout : p.Layout) :
    p.unuseInternalData.Layout ∧ p.unuseInternalData.Unused ∧
      p.unuseInternalData.content = p.content ∧ p.unuseInternalData.len = p.len ∧
      total p.unuseInternalData.frags = total p.frags ∧
      p.unuseInternalData.frags.length = p.frags.length := by
  rcases layout.first with unused | ⟨rest, used⟩
  · have same : p.unuseInternalData = p := by
      simp [unuseInternalData, unused.usingInternalData]
    rw [same]
    exact ⟨layout, unused, rfl, rfl, rfl, rfl⟩
  · have moved : p.unuseInternalData = { p with
        frags := .outside (p.data.drop p.headroom) :: rest
        headroom := internalDataSize } := by
      simp only [unuseInternalData, used.usingInternalData, if_true, used.frags,
        Fragment.bytes, Int.toNat_natCast]
      rw [List.take_of_length_le (by simp [layout.data_length])]
    have plain : ∀ f ∈ Fragment.outside (p.data.drop p.headroom) :: rest, f.Plain := by
      simpa [Fragment.Plain] using used.plain
    have count : rest.length + 1 = p.frags.length := by rw [used.frags, List.length_cons]
    rw [moved]
    refine ⟨⟨layout.data_length, ?_, layout.few, .inl ⟨rfl, plain⟩⟩, ⟨rfl, plain⟩, ?_, rfl, ?_,
      count⟩
    · simpa [count] using layout.allocated
    · rw [used.gather layout.data_length p.data]
      rfl
    · simp [used.frags, Fragment.size, layout.data_length]

/-- A write inside `_data`. -/
theorem writeData_ok {data bytes : List Byte} {base : Nat}
    (inside : base + bytes.length ≤ internalDataSize) :
    writeData data base bytes = .ok (data.take base ++ bytes ++ data.drop (base + bytes.length)) := by
  have bounds : (0 : Int) ≤ base ∧ (base : Int) + bytes.length ≤ internalDataSize := by omega
  rw [writeData, if_pos bounds, Int.toNat_natCast]

theorem length_newData : newData.length = internalDataSize := List.length_replicate

theorem allocate_spec (nrFrags : Nat) :
    Safe (allocate nrFrags) fun q => q.Layout ∧ q.Unused ∧ q.frags = [] ∧ q.len = 0 ∧
      nrFrags ≤ q.allocatedFrags ∧ q.data = newData := by
  simp only [allocate]
  split
  · rename_i small
    exact ⟨⟨length_newData, Nat.zero_le _, small, .inl ⟨rfl, by simp⟩⟩, ⟨rfl, by simp⟩, rfl, rfl,
      le_max_left _ _, rfl⟩
  · exact fun bad => nomatch bad

/-- Copying the first fragment to where it was, in a new `_data`. -/
theorem Used.writeData {rest : List Fragment} (used : p.Used rest)
    (length : p.data.length = internalDataSize) :
    Impl.writeData newData p.headroom
        ((p.data.drop p.headroom).take (internalDataSize - p.headroom)) =
      .ok (newData.take p.headroom ++ p.data.drop p.headroom) := by
  have inside := used.headroom
  have whole : (p.data.drop p.headroom).take (internalDataSize - p.headroom) =
      p.data.drop p.headroom := List.take_of_length_le (by simp [length])
  have count : (p.data.drop p.headroom).length = internalDataSize - p.headroom := by simp [length]
  have nothing : newData.drop (p.headroom + (p.data.drop p.headroom).length) = [] :=
    List.drop_of_length_le (by rw [length_newData, count]; omega)
  rw [whole, writeData_ok (by omega), nothing, List.append_nil]

/-- Reallocation keeps the fragments, and the bytes they stand for. -/
theorem copy_spec (layout : p.Layout) {nr : Nat} (room : p.frags.length ≤ nr) :
    Safe (p.copy nr) fun q => q.Layout ∧ q.content = p.content ∧ q.frags = p.frags ∧
      q.headroom = p.headroom ∧ q.len = p.len ∧ nr ≤ q.allocatedFrags := by
  refine (allocate_spec nr).bind ?_
  rintro n ⟨fresh, _, _, _, enough, data⟩
  rcases layout.first with unused | ⟨rest, used⟩
  · simp only [unused.usingInternalData, Bool.false_eq_true, if_false]
    exact ⟨⟨fresh.data_length, room.trans enough, fresh.few,
      .inl ⟨unused.headroom, unused.plain⟩⟩, gather_plain unused.plain _ _, rfl, rfl, rfl, enough⟩
  · have inside := used.headroom
    have zeros : (newData.take p.headroom).length = p.headroom := by
      rw [List.length_take, length_newData]
      omega
    simp only [used.usingInternalData, if_true, used.frags, Fragment.bytes, Int.toNat_natCast,
      Fragment.size, data, used.writeData layout.data_length, bind, Except.bind]
    let q : Impl := ⟨p.len, .inData p.headroom (internalDataSize - p.headroom) :: rest,
      n.allocatedFrags, newData.take p.headroom ++ p.data.drop p.headroom, p.headroom⟩
    have used' : q.Used rest := ⟨inside, rfl, used.plain⟩
    have data_length : q.data.length = internalDataSize := by
      simp only [q, List.length_append, zeros, List.length_drop, layout.data_length]
      omega
    have moved : q.content = p.content := by
      rw [used'.gather data_length p.data, used.gather layout.data_length p.data]
      simp [q, zeros]
    have count : q.frags.length ≤ q.allocatedFrags := (used.frags ▸ room).trans enough
    exact ⟨⟨data_length, count, fresh.few, .inr ⟨rest, used'⟩⟩, moved, rfl, rfl, rfl, enough⟩

theorem Layout.allocateIfNeeded_spec (layout : p.Layout) (extraFrags : Nat) :
    Safe (p.allocateIfNeeded extraFrags) fun q => q.Layout ∧ q.content = p.content ∧
      q.frags = p.frags ∧ q.headroom = p.headroom ∧ q.len = p.len ∧
      p.frags.length + extraFrags ≤ q.allocatedFrags := by
  unfold allocateIfNeeded
  split
  · rename_i room
    exact ⟨layout, rfl, rfl, rfl, rfl, room⟩
  · refine (copy_spec layout ?_).mono ?_
    · exact (Nat.le_add_right _ _).trans (le_max_left _ _)
    · rintro q ⟨layout', content, frags, headroom, len, room⟩
      exact ⟨layout', content, frags, headroom, len, (le_max_left _ _).trans room⟩

/-- Fragments that do not use `_data` keep their bytes in another packet. -/
theorem Unused.content (unused : p.Unused) (data : List Byte) :
    p.content = gather data p.frags :=
  gather_plain unused.plain _ _

/-- A layout does not care about the length field. -/
theorem Layout.withLen (layout : p.Layout) (len : Nat) : { p with len := len }.Layout :=
  ⟨layout.data_length, layout.allocated, layout.few, layout.first.imp
    (fun unused => ⟨unused.headroom, unused.plain⟩)
    fun ⟨rest, used⟩ => ⟨rest, used.headroom, used.frags, used.plain⟩⟩

/-! ## Prepending -/

/-- Room for `size` more bytes in front of a packet that held `old`. -/
structure Extended (q : Impl) (size : Nat) (old : List Byte) (rest : List Fragment) : Prop where
  data_length : q.data.length = internalDataSize
  allocated : q.frags.length ≤ q.allocatedFrags
  few : q.allocatedFrags < 2 ^ 16
  inside : q.headroom + size ≤ internalDataSize
  frags : q.frags = .inData q.headroom (internalDataSize - q.headroom) :: rest
  plain : ∀ f ∈ rest, f.Plain
  content : q.data.drop (q.headroom + size) ++ gather q.data rest = old

/-- A first fragment that fills `_data` behind the headroom makes a layout, also
when it is empty. -/
theorem layout_of_first {rest : List Fragment} (data_length : p.data.length = internalDataSize)
    (allocated : p.frags.length ≤ p.allocatedFrags) (few : p.allocatedFrags < 2 ^ 16)
    (inside : p.headroom ≤ internalDataSize)
    (frags : p.frags = .inData p.headroom (internalDataSize - p.headroom) :: rest)
    (plain : ∀ f ∈ rest, f.Plain) :
    p.Layout ∧ p.content = p.data.drop p.headroom ++ gather p.data rest := by
  constructor
  · refine ⟨data_length, allocated, few, ?_⟩
    rcases Nat.lt_or_eq_of_le inside with less | all
    · exact .inr ⟨rest, less, frags, plain⟩
    · refine .inl ⟨all, fun f mem => ?_⟩
      rw [frags, List.mem_cons] at mem
      rcases mem with rfl | later
      · exact ⟨by rw [all], by omega⟩
      · exact plain f later
  · rw [content, frags, gather_cons, Fragment.bytes, Int.toNat_natCast,
      List.take_of_length_le (by simp [data_length])]

/-- `allocate_headroom` takes its room from the headroom only. -/
theorem allocateHeadroom_spec (layout : p.Layout) (size : Nat) :
    Safe (p.allocateHeadroom size) fun r => match r with
      | some q => ∃ rest, q.Extended size p.content rest ∧ q.len = unsigned (p.len + size) ∧
          total q.frags = size + total p.frags
      | none => p.headroom < size := by
  unfold allocateHeadroom
  split
  · rename_i room
    rcases layout.first with unused | ⟨rest, used⟩
    · have notUsing : ({ p with len := unsigned (p.len + size) } : Impl).usingInternalData =
          false := unused.usingInternalData
      simp only [notUsing, Bool.false_eq_true, if_false]
      refine ((layout.withLen (unsigned (p.len + size))).allocateIfNeeded_spec 1).bind ?_
      rintro q ⟨layout', content, frags, headroom, len, enough⟩
      have all : q.headroom = internalDataSize := headroom.trans unused.headroom
      have fits : size ≤ internalDataSize := unused.headroom ▸ room
      have plain : ∀ f ∈ q.frags, f.Plain := frags ▸ unused.plain
      refine ⟨q.frags, ⟨layout'.data_length, ?_, layout'.few, ?_, ?_, plain, ?_⟩, len, ?_⟩
      · simp only [frags, List.length_cons]
        exact enough
      · simp only [all]; omega
      · have base : (internalDataSize : Int) - size = ((internalDataSize - size : Nat) : Int) := by
          omega
        simp only [Fragment.extendFront, all, base, Nat.zero_add]
        congr 2
        omega
      · have end_ : internalDataSize - size + size = internalDataSize := by omega
        simp only [all, end_, List.drop_of_length_le layout'.data_length.le, List.nil_append]
        exact content
      · simp [Fragment.extendFront, Fragment.size, frags]
    · have using_ : ({ p with len := unsigned (p.len + size) } : Impl).usingInternalData =
          true := used.usingInternalData
      have inside := used.headroom
      simp only [using_, if_true, bind, Except.bind]
      simp only [used.frags]
      have allocated := layout.allocated
      rw [used.frags, List.length_cons] at allocated
      refine ⟨rest, ⟨layout.data_length, allocated, layout.few, ?_, ?_, used.plain, ?_⟩, rfl, ?_⟩
      · simp only; omega
      · have base : (p.headroom : Int) - size = ((p.headroom - size : Nat) : Int) := by omega
        simp only [Fragment.extendFront, base]
        congr 2
        omega
      · have end_ : p.headroom - size + size = p.headroom := by omega
        simp only [end_]
        exact (used.gather layout.data_length p.data).symm
      · simp only [Fragment.extendFront, total_cons, Fragment.size]
        omega
  · rename_i short
    exact Nat.not_le.mp short

/-- Writing what `allocate_headroom` made room for overwrites none of the old
bytes. -/
theorem Extended.writeFront {q : Impl} {bytes old : List Byte} {rest : List Fragment}
    (extended : q.Extended bytes.length old rest) :
    Safe (q.writeFront bytes) fun r => r.Layout ∧ r.content = bytes ++ old ∧ r.len = q.len ∧
      r.frags = q.frags := by
  have inside := extended.inside
  simp only [Impl.writeFront, extended.frags, writeData_ok inside, bind, Except.bind]
  have zeros : (q.data.take q.headroom).length = q.headroom := by
    rw [List.length_take, extended.data_length]; omega
  let r : Impl := ⟨q.len, .inData q.headroom (internalDataSize - q.headroom) :: rest,
    q.allocatedFrags, q.data.take q.headroom ++ bytes ++ q.data.drop (q.headroom + bytes.length),
    q.headroom⟩
  have data_length : r.data.length = internalDataSize := by
    simp only [r, List.length_append, zeros, List.length_drop, extended.data_length]
    omega
  have written : r.data.drop q.headroom = bytes ++ q.data.drop (q.headroom + bytes.length) := by
    simp [r, List.append_assoc, zeros]
  have allocated : r.frags.length ≤ r.allocatedFrags := by
    have := extended.allocated
    rwa [extended.frags] at this
  obtain ⟨layout, content⟩ := layout_of_first data_length allocated extended.few
    (show r.headroom ≤ internalDataSize by simp only [r]; omega) rfl extended.plain
  refine ⟨layout, ?_, rfl, rfl⟩
  have headroom : r.headroom = q.headroom := rfl
  rw [content, headroom, written, List.append_assoc, gather_plain extended.plain r.data q.data,
    extended.content]

/-- Room that was made is part of a packet even before anything is written. -/
theorem Extended.layout {q : Impl} {size : Nat} {old : List Byte} {rest : List Fragment}
    (extended : q.Extended size old rest) : q.Layout :=
  (layout_of_first extended.data_length extended.allocated extended.few
    ((Nat.le_add_right _ _).trans extended.inside) extended.frags extended.plain).1

/-- Putting a fragment of its own memory in front of fragments that do not use
`_data`. -/
theorem Unused.cons (unused : p.Unused) (layout : p.Layout)
    (room : p.frags.length + 1 ≤ p.allocatedFrags) (len : Nat) (bytes : List Byte) :
    ({ p with len := len, frags := .outside bytes :: p.frags } : Impl).Layout ∧
      ({ p with len := len, frags := .outside bytes :: p.frags } : Impl).content =
        bytes ++ p.content := by
  refine ⟨⟨layout.data_length, room, layout.few, .inl ⟨unused.headroom, ?_⟩⟩, rfl⟩
  intro f mem
  rcases List.mem_cons.mp mem with rfl | later
  · trivial
  · exact unused.plain f later

/-- `packet(fragment, packet &&)` puts the bytes in front. -/
theorem prepend_spec (wf : p.WF) {bytes : List Byte} (fits : p.len + bytes.length < 2 ^ 32) :
    Safe (p.prepend bytes) fun q => q.WF ∧ q.content = bytes ++ p.content := by
  refine (allocateHeadroom_spec wf.toLayout bytes.length).bind ?_
  rintro (_ | q) result
  · obtain ⟨layout, unused, content, len, size, _⟩ := unuseInternalData_spec wf.toLayout
    refine (layout.allocateIfNeeded_spec 1).bind ?_
    rintro q ⟨layout', content', frags, headroom, len', room⟩
    have unused' : q.Unused := ⟨headroom.trans unused.headroom, frags ▸ unused.plain⟩
    obtain ⟨layout'', front⟩ := unused'.cons layout' (frags ▸ room)
      (unsigned (q.len + bytes.length)) bytes
    have total_eq : total q.frags = p.len := by rw [frags, size, wf.len_eq]
    refine ⟨⟨layout'', ?_, ?_⟩, ?_⟩
    · simp only [len', len, unsigned_of_lt fits, total_cons, Fragment.size, total_eq]
      omega
    · simp only [len', len, unsigned_of_lt fits]
      exact fits
    · rw [front, content', content]
  · obtain ⟨rest, extended, len, size⟩ := result
    refine extended.writeFront.mono ?_
    rintro r ⟨layout, content, len', frags⟩
    rw [unsigned_of_lt fits] at len
    refine ⟨⟨layout, ?_, ?_⟩, content⟩
    · rw [len', len, frags, size, wf.len_eq, Nat.add_comm]
    · rw [len', len]
      exact fits

/-- `prepend_uninitialized_header` puts `size` bytes in front, in `_data` or in
memory of their own. -/
theorem prependUninitializedHeader_spec (wf : p.WF) {size : Nat} (fits : p.len + size < 2 ^ 32) :
    Safe (p.prependUninitializedHeader size) fun q =>
      q.len = p.len + size ∧ total q.frags = p.len + size ∧
        ((∃ rest, q.Extended size p.content rest) ∨
          (q.Layout ∧ q.headroom = internalDataSize ∧ ∃ front rest, front.length = size ∧
            q.frags = .outside front :: rest ∧ (∀ f ∈ rest, f.Plain) ∧
              gather q.data rest = p.content)) := by
  have extended {r : Impl} (layout : r.Layout) (len : r.len = p.len)
      (sizes : total r.frags = p.len) (content : r.content = p.content) :
      Safe (r.allocateHeadroom size) fun o => match o with
        | some q => (∃ rest, q.Extended size p.content rest) ∧ q.len = p.len + size ∧
            total q.frags = p.len + size
        | none => True := by
    refine (allocateHeadroom_spec layout size).mono ?_
    rintro (_ | q) result
    · trivial
    · obtain ⟨rest, extended, len', size'⟩ := result
      rw [len, unsigned_of_lt fits] at len'
      exact ⟨⟨rest, content ▸ extended⟩, len', by omega⟩
  refine (extended wf.toLayout rfl wf.len_eq.symm rfl).bind ?_
  rintro (_ | q) result
  · obtain ⟨layout, unused, content, len, sizes, _⟩ := unuseInternalData_spec wf.toLayout
    refine (extended layout len (sizes.trans wf.len_eq.symm) content).bind ?_
    rintro (_ | q) result
    · refine ((layout.withLen _).allocateIfNeeded_spec 1).bind ?_
      rintro q ⟨layout', content', frags, headroom, len', room⟩
      have unused' : q.Unused := ⟨headroom.trans unused.headroom, frags ▸ unused.plain⟩
      obtain ⟨layout'', _⟩ := unused'.cons layout' (frags ▸ room) q.len (List.replicate size 0#8)
      have total_eq : total q.frags = p.len := by rw [frags, sizes, wf.len_eq]
      refine ⟨?_, ?_, .inr ⟨layout'', unused'.headroom, List.replicate size 0#8, q.frags,
        List.length_replicate, rfl, unused'.plain, content'.trans content⟩⟩
      · simp only [len', len, unsigned_of_lt fits]
      · simp only [total_cons, Fragment.size, List.length_replicate, total_eq]
        omega
    · exact ⟨result.2.1, result.2.2, .inl result.1⟩
  · exact ⟨result.2.1, result.2.2, .inl result.1⟩

/-- `prepend_header`, once its caller has written the header, puts it in front. -/
theorem prependHeader_spec (wf : p.WF) {header : List Byte}
    (fits : p.len + header.length < 2 ^ 32) :
    Safe (p.prependHeader header) fun q => q.WF ∧ q.content = header ++ p.content := by
  refine (prependUninitializedHeader_spec wf fits).bind ?_
  rintro q ⟨len, size, ⟨rest, extended⟩ | ⟨layout, headroom, front, rest, length, frags, plain,
    content⟩⟩
  · refine extended.writeFront.mono ?_
    rintro r ⟨layout, content, len', frags⟩
    exact ⟨⟨layout, by rw [len', len, frags, size], by rw [len', len]; exact fits⟩, content⟩
  · have all : header ++ front.drop header.length = header := by
      rw [List.drop_of_length_le length.le, List.append_nil]
    simp only [writeFront, frags, length, le_refl, if_true, all]
    have allocated := layout.allocated
    rw [frags] at allocated
    rw [frags, total_cons, Fragment.size, length] at size
    refine ⟨⟨⟨layout.data_length, allocated, layout.few, .inl ⟨headroom, ?_⟩⟩, ?_, ?_⟩, ?_⟩
    · intro f mem
      rcases List.mem_cons.mp mem with rfl | later
      · trivial
      · exact plain f later
    · simp only [len, total_cons, Fragment.size, size]
    · simp only [len]; exact fits
    · rw [Impl.content, gather_cons, content]
      rfl

/-! ## Construction and appending -/

theorem ofBytes_spec {bytes : List Byte} (fits : bytes.length < 2 ^ 32) :
    Safe (ofBytes bytes) fun q => q.WF ∧ q.content = bytes := by
  have few : 1 ≤ defaultNrFrags ∧ defaultNrFrags < 2 ^ 16 := by decide
  unfold ofBytes
  split
  · rename_i small
    have inside : internalDataSize - bytes.length + bytes.length ≤ internalDataSize := by omega
    simp only [writeData_ok inside, bind, Except.bind]
    have end_ : internalDataSize - bytes.length + bytes.length = internalDataSize := by omega
    have zeros : (newData.take (internalDataSize - bytes.length)).length =
        internalDataSize - bytes.length := by
      rw [List.length_take, length_newData]; omega
    have nothing : newData.drop (internalDataSize - bytes.length + bytes.length) = [] :=
      List.drop_of_length_le (by rw [end_, length_newData])
    have left : internalDataSize - (internalDataSize - bytes.length) = bytes.length := by omega
    simp only [nothing, List.append_nil]
    let q : Impl := ⟨unsigned bytes.length, [.inData ((internalDataSize - bytes.length : Nat) : Int)
      bytes.length], defaultNrFrags, newData.take (internalDataSize - bytes.length) ++ bytes,
      internalDataSize - bytes.length⟩
    have data_length : q.data.length = internalDataSize := by
      simp only [q, List.length_append, zeros]
      omega
    obtain ⟨layout, content⟩ := @layout_of_first q [] data_length few.1 few.2 (Nat.sub_le _ _)
      (by simp only [q, left]) (by simp)
    refine ⟨⟨layout, ?_, ?_⟩, ?_⟩
    · simp [Fragment.size, unsigned_of_lt fits]
    · simpa only [unsigned_of_lt fits] using fits
    · rw [content]
      simp [q, zeros]
  · refine ⟨⟨⟨length_newData, few.1, few.2, .inl ⟨rfl, ?_⟩⟩, ?_, ?_⟩, ?_⟩
    · simp [Fragment.Plain]
    · simp [Fragment.size, unsigned_of_lt fits]
    · simpa only [unsigned_of_lt fits] using fits
    · simp [Impl.content, Fragment.bytes]

theorem gather_outside (data : List Byte) (frags : List (List Byte)) :
    gather data (frags.map .outside) = frags.flatten := by
  induction frags with
  | nil => rfl
  | cons f fs ih => rw [List.map_cons, gather_cons, ih]; rfl

theorem ofFragments_spec {frags : List (List Byte)} (fits : frags.flatten.length < 2 ^ 32) :
    Safe (ofFragments frags) fun q => q.WF ∧ q.content = frags.flatten := by
  refine (allocate_spec frags.length).bind ?_
  rintro q ⟨layout, unused, _, _, room, _⟩
  have size : total (frags.map Fragment.outside) = frags.flatten.length := by
    simp [total, Fragment.size, Function.comp_def, List.length_flatten]
  have sum : (frags.map List.length).sum = frags.flatten.length := List.length_flatten.symm
  refine ⟨⟨⟨layout.data_length, by simpa using room, layout.few, .inl ⟨unused.headroom, ?_⟩⟩,
    ?_, ?_⟩, gather_outside _ _⟩
  · simp [Fragment.Plain]
  · simp only [sum, unsigned_of_lt fits, size]
  · simp only [sum, unsigned_of_lt fits]; exact fits

/-- Appending fragments that do not use `_data`. -/
theorem Layout.append {q : Impl} (layout : q.Layout) {fs : List Fragment}
    (plain : ∀ f ∈ fs, f.Plain) (room : q.frags.length + fs.length ≤ q.allocatedFrags)
    (len : Nat) :
    ({ q with len := len, frags := q.frags ++ fs } : Impl).Layout ∧
      ({ q with len := len, frags := q.frags ++ fs } : Impl).content =
        q.content ++ gather q.data fs := by
  refine ⟨⟨layout.data_length, by simpa using room, layout.few, ?_⟩, gather_append _ _ _⟩
  rcases layout.first with unused | ⟨rest, used⟩
  · refine .inl ⟨unused.headroom, fun f mem => ?_⟩
    rcases List.mem_append.mp mem with old | new
    · exact unused.plain f old
    · exact plain f new
  · refine .inr ⟨rest ++ fs, used.headroom, by simp [used.frags], fun f mem => ?_⟩
    rcases List.mem_append.mp mem with old | new
    · exact used.plain f old
    · exact plain f new

theorem appendFragment_spec (wf : p.WF) {bytes : List Byte}
    (fits : p.len + bytes.length < 2 ^ 32) :
    Safe (p.appendFragment bytes) fun q => q.WF ∧ q.content = p.content ++ bytes := by
  refine (wf.toLayout.allocateIfNeeded_spec 1).bind ?_
  rintro q ⟨layout, content, frags, _, len, room⟩
  have plain : ∀ f ∈ [Fragment.outside bytes], f.Plain := by simp [Fragment.Plain]
  obtain ⟨layout', content'⟩ := layout.append plain (frags ▸ room) (unsigned (q.len + bytes.length))
  refine ⟨⟨layout', ?_, ?_⟩, ?_⟩
  · simp only [len, unsigned_of_lt fits]
    simp [frags, Fragment.size, wf.len_eq]
  · simpa only [len, unsigned_of_lt fits] using fits
  · rw [content', content]
    simp [Fragment.bytes]

/-- `packet::append`. -/
theorem append_spec {x p : Impl} (wfx : x.WF) (wf : p.WF) (fits : x.len + p.len < 2 ^ 32) :
    Safe (x.append p) fun q => q.WF ∧ q.content = x.content ++ p.content := by
  unfold append
  split
  · rename_i empty
    have nothing : x.content = [] := List.length_eq_zero_iff.mp (wfx.length_content.trans empty)
    exact ⟨wf, by rw [nothing, List.nil_append]⟩
  · obtain ⟨_, unused, content, len, size, count⟩ := unuseInternalData_spec wf.toLayout
    refine (wfx.toLayout.allocateIfNeeded_spec p.frags.length).bind ?_
    rintro q ⟨layout, content', frags, _, len', room⟩
    obtain ⟨layout', content''⟩ := layout.append unused.plain (by rw [frags, count]; exact room)
      (unsigned (q.len + p.len))
    refine ⟨⟨layout', ?_, ?_⟩, ?_⟩
    · simp only [len', unsigned_of_lt fits]
      rw [frags, total_append, size, wf.len_eq, wfx.len_eq]
    · simpa only [len', unsigned_of_lt fits] using fits
    · rw [content'', content', ← content, unused.content q.data]

end Impl

end ActorNet.Net
