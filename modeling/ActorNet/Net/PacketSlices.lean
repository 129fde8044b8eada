import ActorNet.Net.PacketLayout

/-!
# Trimming, sharing and reading a packet

The operations that walk over the fragments to an offset. On the bytes they are
`drop` and `take`; on the representation each must leave a first fragment that
uses `_data` filling it behind the headroom.
-/

namespace ActorNet.Net

open Lib Lib.Guarded

namespace Fragment

theorem bytes_trimFront (f : Fragment) (data : List Byte) {n : Nat}
    (nonneg : ∀ base size, f = inData base size → 0 ≤ base) :
    (f.trimFront n).bytes data = (f.bytes data).drop n := by
  cases f with
  | inData base size =>
      have start : (base + n).toNat = base.toNat + n := by
        have := nonneg base size rfl
        omega
      simp only [trimFront, bytes, start, List.drop_take, List.drop_drop]
  | outside bytes => rfl

theorem size_trimFront (f : Fragment) (n : Nat) : (f.trimFront n).size = f.size - n := by
  cases f <;> simp [trimFront, size]

theorem bytes_trimBack {f : Fragment} {data : List Byte} (sizes : (f.bytes data).length = f.size)
    (n : Nat) : (f.trimBack n).bytes data = (f.bytes data).take (f.size - n) := by
  cases f with
  | inData base size => simp [trimBack, bytes, Fragment.size, List.take_take]
  | outside bytes => simp [trimBack, Fragment.bytes, Fragment.size]

theorem size_trimBack (f : Fragment) (n : Nat) : (f.trimBack n).size = f.size - n := by
  cases f <;> simp [trimBack, size]

theorem Plain.trimFront {f : Fragment} (plain : f.Plain) {n : Nat} (less : n < f.size) :
    (f.trimFront n).Plain := by
  obtain ⟨bs, rfl⟩ := plain.outside_of_pos (Nat.zero_lt_of_lt less)
  trivial

theorem Plain.trimBack {f : Fragment} (plain : f.Plain) (n : Nat) : (f.trimBack n).Plain := by
  cases f with
  | inData base size => exact ⟨plain.1, by rw [plain.2, Nat.zero_sub]⟩
  | outside bytes => trivial

/-- A slice of a plain fragment that begins inside it, or at its begin. -/
theorem Plain.slice {f : Fragment} (plain : f.Plain) {offset : Nat}
    (inside : offset = 0 ∨ offset < f.size) {fsize : Nat} (fits : fsize ≤ f.size - offset)
    (data : List Byte) :
    (f.slice offset fsize).Plain ∧
      (f.slice offset fsize).bytes data = ((f.bytes data).drop offset).take fsize ∧
      (f.slice offset fsize).size = fsize := by
  cases f with
  | inData base size =>
      obtain ⟨start, empty⟩ := plain
      subst start empty
      have zero : offset = 0 := by
        rcases inside with zero | less
        · exact zero
        · exact absurd less (Nat.not_lt_zero _)
      have none : fsize = 0 := by simpa [Fragment.size] using fits
      subst zero none
      simp [Fragment.slice, Fragment.bytes, Fragment.size, Plain]
  | outside bytes =>
      refine ⟨trivial, rfl, ?_⟩
      simpa [Fragment.slice, Fragment.size] using fits

end Fragment

namespace Impl

variable {p : Impl}

/-- The fragments split at an offset: `pre` lies before it, and `k` more bytes of
the first of `rest` do. -/
structure SplitAt (frags : List Fragment) (n : Nat) (pre : List Fragment) (k : Nat)
    (rest : List Fragment) : Prop where
  frags : frags = pre ++ rest
  offset : n = total pre + k
  inside : k = 0 ∨ ∃ f fs, rest = f :: fs ∧ k < f.size

theorem skipFrags_spec {n : Nat} {frags : List Fragment} (inside : n ≤ total frags) :
    ∃ pre k rest, skipFrags n frags = .ok (k, rest) ∧ SplitAt frags n pre k rest := by
  induction frags generalizing n with
  | nil =>
      obtain rfl : n = 0 := Nat.le_zero.mp inside
      exact ⟨[], 0, [], rfl, rfl, rfl, .inl rfl⟩
  | cons f fs ih =>
      rw [total_cons] at inside
      unfold skipFrags
      split
      · rename_i passed
        obtain ⟨pre, k, rest, run, split⟩ := @ih (n - f.size) (by omega)
        refine ⟨f :: pre, k, rest, run, ?_, ?_, split.inside⟩
        · rw [split.frags, List.cons_append]
        · have := split.offset
          rw [total_cons]
          omega
      · rename_i stays
        refine ⟨[], n, f :: fs, rfl, rfl, by simp, ?_⟩
        by_cases zero : n = 0
        · exact .inl zero
        · exact .inr ⟨f, fs, rfl, by simpa [zero] using stays⟩

/-- The bytes behind the offset. -/
theorem SplitAt.drop {frags pre rest : List Fragment} {n k : Nat} {data : List Byte}
    (split : SplitAt frags n pre k rest)
    (sizes : ∀ f ∈ frags, (f.bytes data).length = f.size) :
    (gather data frags).drop n = (gather data rest).drop k := by
  have before : (gather data pre).length = total pre :=
    length_gather fun f mem => sizes f (split.frags ▸ List.mem_append_left _ mem)
  rw [split.frags, gather_append, split.offset, ← List.drop_drop, ← before, List.drop_left]

/-- A suffix of the fragments of a packet has plain fragments only, unless it is
all of them. -/
theorem Layout.suffix (layout : p.Layout) {pre rest : List Fragment}
    (frags : p.frags = pre ++ rest) :
    (∀ f ∈ rest, f.Plain) ∨ pre = [] ∧ ∃ later, p.Used later := by
  rcases layout.first with unused | ⟨later, used⟩
  · exact .inl fun f mem => unused.plain f (frags ▸ List.mem_append_right _ mem)
  · cases pre with
    | nil => exact .inr ⟨rfl, later, used⟩
    | cons f pre =>
        rw [used.frags, List.cons_append, List.cons.injEq] at frags
        exact .inl fun g mem => used.plain g (frags.2 ▸ List.mem_append_right _ mem)

/-! ## Trimming -/

/-- What `trim_front` leaves when the first fragment that stays is plain. -/
theorem trimFront_plain {q : Impl} (data_length : q.data.length = internalDataSize)
    (allocated : q.frags.length ≤ q.allocatedFrags) (few : q.allocatedFrags < 2 ^ 16)
    (headroom : q.headroom = internalDataSize) {f : Fragment} {fs : List Fragment} {k : Nat}
    (frags : q.frags = f :: fs) (plain : ∀ g ∈ q.frags, g.Plain) (inside : k < f.size) :
    ({ q with frags := f.trimFront k :: fs } : Impl).Layout ∧
      ({ q with frags := f.trimFront k :: fs } : Impl).content = q.content.drop k := by
  have here : f.Plain := plain f (by rw [frags]; exact List.mem_cons_self)
  refine ⟨⟨data_length, by simpa [frags] using allocated, few, .inl ⟨headroom, ?_⟩⟩, ?_⟩
  · intro g mem
    rcases List.mem_cons.mp mem with rfl | later
    · exact here.trimFront inside
    · exact plain g (frags ▸ List.mem_cons_of_mem _ later)
  · obtain ⟨bs, rfl⟩ := here.outside_of_pos (Nat.zero_lt_of_lt inside)
    have short : k ≤ bs.length := Nat.le_of_lt inside
    simp only [content, frags, gather_cons, Fragment.trimFront, Fragment.bytes,
      List.drop_append_of_le_length short]

/-- What `trim_front` leaves when the trim ends inside the first fragment, in
`_data`: the headroom grows with the trim. -/
theorem trimFront_used {rest : List Fragment} (layout : p.Layout) (used : p.Used rest) {k : Nat}
    (inside : k < internalDataSize - p.headroom) (len : Nat) :
    let q : Impl := { p with
      len := len
      headroom := p.headroom + k
      frags := .inData (p.headroom + k) (internalDataSize - p.headroom - k) :: rest }
    q.Layout ∧ q.content = p.content.drop k := by
  intro q
  have allocated := layout.allocated
  rw [used.frags, List.length_cons] at allocated
  have used' : q.Used rest := by
    refine ⟨?_, ?_, used.plain⟩
    · simp only [q]; omega
    · simp only [q, Nat.cast_add, Nat.sub_sub]
  refine ⟨⟨layout.data_length, allocated, layout.few, .inr ⟨rest, used'⟩⟩, ?_⟩
  have short : k ≤ (p.data.drop p.headroom).length := by
    rw [List.length_drop, layout.data_length]
    omega
  rw [used'.gather layout.data_length p.data, used.gather layout.data_length p.data,
    List.drop_append_of_le_length short, List.drop_drop]

/-- `packet::trim_front`. -/
theorem trimFront_spec (wf : p.WF) (howMuch : Nat) :
    Safe (p.trimFront howMuch) fun q => q.WF ∧ q.content = p.content.drop howMuch := by
  unfold trimFront
  split
  · exact fun bad => nomatch bad
  rename_i inside
  have within : howMuch ≤ total p.frags := wf.len_eq ▸ Nat.not_lt.mp inside
  obtain ⟨pre, k, rest, run, split⟩ := skipFrags_spec within
  have dropped : p.content.drop howMuch = (gather p.data rest).drop k :=
    split.drop fun f mem => wf.length_bytes mem
  have sizes : total p.frags = total pre + total rest := by rw [split.frags, total_append]
  have offset := split.offset
  have len := wf.len_eq
  have fits := wf.fits
  have content : p.content = gather p.data p.frags := rfl
  simp only [run, bind, Except.bind]
  rcases wf.suffix split.frags with plain | ⟨rfl, later, used⟩
  · let q : Impl := ⟨p.len - howMuch, rest, p.allocatedFrags, p.data, internalDataSize⟩
    have fewer : rest.length ≤ p.allocatedFrags := by
      refine le_trans ?_ wf.allocated
      rw [split.frags, List.length_append]
      exact Nat.le_add_left _ _
    have notUsing (headroom : Nat) : (⟨p.len - howMuch, rest, p.allocatedFrags, p.data,
        headroom⟩ : Impl).usingInternalData = false := usingInternalData_of_plain plain
    simp only [notUsing, Bool.false_eq_true, if_false]
    split
    · rename_i whole
      have layout : q.Layout := ⟨wf.data_length, fewer, wf.few, .inl ⟨rfl, plain⟩⟩
      have count : p.len - howMuch = total rest := by omega
      refine ⟨⟨layout, count, ?_⟩, ?_⟩
      · exact lt_of_le_of_lt (Nat.sub_le _ _) fits
      · rw [dropped, whole, List.drop_zero]
        rfl
    · rename_i part
      obtain ⟨f, fs, rfl, less⟩ := split.inside.resolve_left part
      obtain ⟨layout, shorter⟩ := @trimFront_plain q wf.data_length fewer wf.few rfl f fs k rfl
        plain less
      have count : p.len - howMuch = total (f.trimFront k :: fs) := by
        rw [total_cons, f.size_trimFront]
        rw [total_cons] at sizes
        omega
      exact ⟨⟨layout, count, lt_of_le_of_lt (Nat.sub_le _ _) fits⟩, shorter.trans dropped.symm⟩
  · obtain rfl : p.frags = rest := split.frags
    obtain rfl : howMuch = k := by simpa using offset
    have using_ : (⟨p.len - howMuch, p.frags, p.allocatedFrags, p.data,
        p.headroom⟩ : Impl).usingInternalData = true := used.usingInternalData
    simp only [using_, if_true]
    split
    · rename_i zero
      subst zero
      exact ⟨wf, rfl⟩
    · rename_i part
      obtain ⟨f, fs, frags, less⟩ := split.inside.resolve_left part
      obtain ⟨rfl, rfl⟩ := List.cons.inj (used.frags.symm.trans frags)
      obtain ⟨layout, shorter⟩ := trimFront_used wf.toLayout used less (p.len - howMuch)
      simp only [used.frags]
      refine ⟨⟨layout, ?_, ?_⟩, shorter⟩
      · simp only [used.frags, total_cons, Fragment.size, Fragment.trimFront] at len less ⊢
        omega
      · exact lt_of_le_of_lt (Nat.sub_le _ _) fits

/-- The trim ends behind the fragment that lies in `_data`, if there is one. -/
def SparesInternalData (p : Impl) (howMuch : Nat) : Prop :=
  p.usingInternalData = true → howMuch ≤ total p.frags.tail

instance (p : Impl) (howMuch : Nat) : Decidable (p.SparesInternalData howMuch) :=
  inferInstanceAs (Decidable (_ → _))

/-- Fragments behind a nonempty prefix do not use `_data`. -/
theorem Used.later {rest front tail : List Fragment} (used : p.Used rest)
    (frags : p.frags = front ++ tail) (nonempty : front ≠ []) :
    (∃ more, front = .inData p.headroom (internalDataSize - p.headroom) :: more ∧
      ∀ f ∈ more, f.Plain) ∧ ∀ f ∈ tail, f.Plain := by
  obtain ⟨first, more, rfl⟩ := List.exists_cons_of_ne_nil nonempty
  rw [used.frags, List.cons_append, List.cons.injEq] at frags
  obtain ⟨rfl, rfl⟩ := frags
  exact ⟨⟨more, rfl, fun f mem => used.plain f (List.mem_append_left _ mem)⟩,
    fun f mem => used.plain f (List.mem_append_right _ mem)⟩

/-- Replacing the fragments behind a prefix by plain ones. -/
theorem Layout.replaceTail (layout : p.Layout) {front tail : List Fragment}
    (frags : p.frags = front ++ tail) (spared : p.usingInternalData = true → front ≠ [])
    (new : List Fragment) (plain : ∀ f ∈ new, f.Plain) (room : new.length ≤ tail.length) (len : Nat) :
    ({ p with len := len, frags := front ++ new } : Impl).Layout := by
  have count : (front ++ new).length ≤ p.allocatedFrags := by
    have := layout.allocated
    rw [frags, List.length_append] at this
    rw [List.length_append]
    omega
  refine ⟨layout.data_length, count, layout.few, ?_⟩
  rcases layout.first with unused | ⟨later, used⟩
  · refine .inl ⟨unused.headroom, fun f mem => ?_⟩
    rcases List.mem_append.mp mem with old | added
    · exact unused.plain f (frags ▸ List.mem_append_left _ old)
    · exact plain f added
  · obtain ⟨⟨more, rfl, kept⟩, _⟩ := used.later frags (spared used.usingInternalData)
    refine .inr ⟨more ++ new, used.headroom, rfl, fun f mem => ?_⟩
    rcases List.mem_append.mp mem with old | added
    · exact kept f old
    · exact plain f added

theorem Layout.first_of_using (layout : p.Layout) (using_ : p.usingInternalData = true) :
    ∃ first later, p.frags = first :: later ∧ 0 < first.size := by
  rcases layout.first with unused | ⟨later, used⟩
  · rw [unused.usingInternalData] at using_
    exact nomatch using_
  · refine ⟨_, later, used.frags, ?_⟩
    have := used.headroom
    simp only [Fragment.size]
    omega

/-- The bytes of the fragments in front of an offset. -/
theorem take_gather {front tail : List Fragment} {data : List Byte}
    (sizes : ∀ f ∈ front, (f.bytes data).length = f.size) :
    (gather data (front ++ tail)).take (total front) = gather data front := by
  rw [gather_append, ← length_gather sizes, List.take_left]

/-- `packet::trim_back`, when it does not reach into `_data`. -/
theorem trimBack_spec (wf : p.WF) {howMuch : Nat} (spares : p.SparesInternalData howMuch) :
    Safe (p.trimBack howMuch) fun q =>
      q.WF ∧ q.content = p.content.take (p.content.length - howMuch) := by
  unfold trimBack
  split
  · exact fun bad => nomatch bad
  rename_i inside
  have within : howMuch ≤ total p.frags.reverse := by
    rw [total_reverse, ← wf.len_eq]
    exact Nat.not_lt.mp inside
  obtain ⟨pre, k, back, run, split⟩ := skipFrags_spec within
  have frags : p.frags = back.reverse ++ pre.reverse := by
    rw [← List.reverse_append, ← split.frags, List.reverse_reverse]
  have offset := split.offset
  have len := wf.len_eq
  have fits := lt_of_le_of_lt (Nat.sub_le p.len howMuch) wf.fits
  have sizes : total p.frags = total back + total pre := by rw [frags]; simp
  have length := wf.length_content
  have content : p.content = gather p.data (back.reverse ++ pre.reverse) := by
    rw [← frags]; rfl
  have spared : p.usingInternalData = true → back ≠ [] := by
    intro using_ none
    obtain ⟨first, later, cons, positive⟩ := wf.toLayout.first_of_using using_
    have := spares using_
    simp only [cons, List.tail_cons, total_cons, none, total_nil] at sizes this
    omega
  simp only [run, bind, Except.bind]
  split
  · rename_i whole
    subst whole
    have count : p.len - howMuch = total back.reverse := by
      rw [total_reverse]
      omega
    have layout := wf.replaceTail frags (fun using_ => by simpa using spared using_)
      [] (List.forall_mem_nil _) (Nat.zero_le _) (p.len - howMuch)
    rw [List.append_nil] at layout
    refine ⟨⟨layout, count, fits⟩, ?_⟩
    rw [length, count, content, take_gather fun f mem =>
      wf.length_bytes (frags ▸ List.mem_append_left _ mem)]
    rfl
  · rename_i part
    obtain ⟨f, fs, rfl, less⟩ := split.inside.resolve_left part
    rw [List.reverse_cons, List.append_assoc, List.singleton_append] at frags
    have front : p.usingInternalData = true → fs.reverse ≠ [] := by
      intro using_ none
      have := spares using_
      simp only [frags, none, List.nil_append, List.tail_cons, total_reverse] at this
      omega
    have plain : f.Plain := by
      rcases wf.first with unused | ⟨later, used⟩
      · exact unused.plain f (by rw [frags]; simp)
      · exact (used.later frags (front used.usingInternalData)).2 f List.mem_cons_self
    have layout := wf.replaceTail frags front [f.trimBack k]
      (by simpa using plain.trimBack k) (by simp) (p.len - howMuch)
    have count : p.len - howMuch = total fs + (f.size - k) := by
      rw [total_cons] at sizes
      omega
    have notUsing : ¬(fs = [] ∧ (⟨p.len - howMuch, fs.reverse ++ [f.trimBack k],
        p.allocatedFrags, p.data, p.headroom⟩ : Impl).usingInternalData = true) := by
      rintro ⟨rfl, using_⟩
      rw [usingInternalData_of_plain (by simpa using plain.trimBack k)] at using_
      exact nomatch using_
    have before : (gather p.data fs.reverse).length = total fs := by
      rw [← total_reverse fs]
      exact length_gather fun f mem => wf.length_bytes (frags ▸ List.mem_append_left _ mem)
    have here := plain.length_bytes p.data
    simp only [List.reverse_cons, if_neg notUsing]
    refine ⟨⟨layout, ?_, fits⟩, ?_⟩
    · simp [count, Fragment.size_trimBack]
    · have kept : (gather p.data (fs.reverse ++ f :: pre.reverse)).take
          (total fs + (f.size - k)) = gather p.data fs.reverse ++ (f.bytes p.data).take
            (f.size - k) := by
        rw [gather_append, gather_cons, ← before, List.take_length_add_append,
          List.take_append_of_le_length (by omega)]
      rw [length, count, Impl.content, Impl.content, frags, kept]
      simp only [gather_append, gather_cons, gather_nil, List.append_nil,
        Fragment.bytes_trimBack here]

/-! ## Sharing -/

/-- What `share` takes from plain fragments is the slice. -/
theorem takeFrags_spec {frags : List Fragment} (plain : ∀ f ∈ frags, f.Plain) {offset len : Nat}
    (inside : offset = 0 ∨ ∃ f fs, frags = f :: fs ∧ offset < f.size)
    (fits : offset + len ≤ total frags) (data : List Byte) :
    ∃ taken, takeFrags offset len frags = .ok taken ∧ (∀ f ∈ taken, f.Plain) ∧
      taken.length ≤ frags.length ∧ total taken = len ∧
      gather data taken = ((gather data frags).drop offset).take len := by
  induction frags generalizing offset len with
  | nil =>
      have none : len = 0 := by simpa using Nat.le_trans (Nat.le_add_left _ _) fits
      subst none
      exact ⟨[], by unfold takeFrags; rfl, List.forall_mem_nil _, le_rfl, rfl, by simp⟩
  | cons f fs ih =>
      cases len with
      | zero => exact ⟨[], by unfold takeFrags; rfl, List.forall_mem_nil _, by simp, rfl, by simp⟩
      | succ len =>
          have here : f.Plain := plain f List.mem_cons_self
          have count := here.length_bytes data
          have within : offset = 0 ∨ offset < f.size := by
            rcases inside with zero | ⟨_, _, cons, less⟩
            · exact .inl zero
            · exact .inr ((List.cons.inj cons).1 ▸ less)
          have short : offset ≤ (f.bytes data).length := by omega
          obtain ⟨plain', bytes, size⟩ :=
            here.slice within (Nat.min_le_right (len + 1) (f.size - offset)) data
          rw [total_cons] at fits
          obtain ⟨taken, run, plains, fewer, sizes, rest⟩ := @ih
            (fun g mem => plain g (List.mem_cons_of_mem _ mem)) 0
            (len + 1 - min (len + 1) (f.size - offset)) (.inl rfl) (by omega)
          refine ⟨f.slice offset (min (len + 1) (f.size - offset)) :: taken, ?_, ?_, ?_, ?_, ?_⟩
          · simp only [takeFrags, run, bind, Except.bind]
          · exact List.forall_mem_cons.mpr ⟨plain', plains⟩
          · simpa using fewer
          · rw [total_cons, size, sizes]
            omega
          · have left : ((f.bytes data).drop offset).length = f.size - offset := by
              rw [List.length_drop, count]
            rw [gather_cons, gather_cons, bytes, rest, List.drop_zero,
              List.drop_append_of_le_length short, List.take_append, left]
            congr 1
            · rw [← left, ← List.take_eq_take_min]
            · congr 1
              omega

/-- `packet::share` leaves the packet its bytes and returns the slice. -/
theorem share_spec (wf : p.WF) {offset len : Nat} (inside : offset + len ≤ p.len) :
    Safe (p.share offset len) fun r => r.1.WF ∧ r.1.content = p.content ∧
      r.2.WF ∧ r.2.content = (p.content.drop offset).take len := by
  obtain ⟨layout, unused, content, len_eq, sizes, _⟩ := unuseInternalData_spec wf.toLayout
  have wf' : p.unuseInternalData.WF :=
    ⟨layout, by rw [len_eq, wf.len_eq, sizes], len_eq ▸ wf.fits⟩
  refine (allocate_spec 1).bind ?_
  rintro n ⟨fresh, nothing, frags, _, _⟩
  refine (fresh.allocateIfNeeded_spec _).bind ?_
  rintro n' ⟨fresh', _, frags', headroom, _, room⟩
  rw [frags, List.length_nil, Nat.zero_add] at room
  have within : offset ≤ total p.unuseInternalData.frags := by
    rw [sizes, ← wf.len_eq]
    omega
  obtain ⟨pre, k, rest, run, split⟩ := skipFrags_spec within
  have count := split.offset
  have parts : total p.unuseInternalData.frags = total pre + total rest := by
    rw [split.frags, total_append]
  have plain : ∀ f ∈ rest, f.Plain := fun f mem =>
    unused.plain f (split.frags ▸ List.mem_append_right _ mem)
  obtain ⟨taken, run', plains, fewer, total_taken, bytes⟩ := takeFrags_spec plain split.inside
    (show k + len ≤ total rest by rw [sizes, ← wf.len_eq] at parts; omega) n'.data
  have few : taken.length ≤ n'.allocatedFrags := by
    refine fewer.trans (le_trans ?_ room)
    rw [split.frags, List.length_append]
    exact Nat.le_add_left _ _
  have small : len < 2 ^ 32 := by
    have := wf.fits
    omega
  have sum : (taken.map Fragment.size).sum = len := total_taken
  simp only [run, run', bind, Except.bind]
  refine ⟨wf', content, ⟨⟨fresh'.data_length, few, fresh'.few, .inl ⟨?_, plains⟩⟩, ?_, ?_⟩, ?_⟩
  · exact headroom.trans nothing.headroom
  · simp only [sum, unsigned_of_lt small, total_taken]
  · simpa only [sum, unsigned_of_lt small] using small
  · have dropped := split.drop fun f mem => layout.length_bytes mem
    rw [← content, Impl.content, Impl.content, bytes, dropped,
      gather_plain plain n'.data p.unuseInternalData.data]

/-! ## Reading -/

theorem countFrags_spec {frags : List Fragment} {desired : Nat} (inside : desired ≤ total frags) :
    ∃ nr, countFrags desired frags = .ok nr ∧ nr ≤ frags.length ∧
      desired ≤ total (frags.take nr) ∧ (0 < desired → 0 < nr) := by
  induction frags generalizing desired with
  | nil =>
      obtain rfl : desired = 0 := Nat.le_zero.mp inside
      exact ⟨0, by unfold countFrags; rfl, le_rfl, le_rfl, id⟩
  | cons f fs ih =>
      cases desired with
      | zero => exact ⟨0, by unfold countFrags; rfl, Nat.zero_le _, Nat.zero_le _, id⟩
      | succ desired =>
          rw [total_cons] at inside
          obtain ⟨nr, run, fewer, enough, _⟩ := @ih (desired + 1 - f.size) (by omega)
          refine ⟨nr + 1, ?_, by simpa using fewer, ?_, fun _ => Nat.succ_pos _⟩
          · simp only [countFrags, run, bind, Except.bind]
          · rw [List.take_succ_cons, total_cons]
            omega

theorem unuseInternalData_sizes (sizes : ∀ f ∈ p.frags, (f.bytes p.data).length = f.size) :
    p.unuseInternalData.frags.map Fragment.size = p.frags.map Fragment.size := by
  unfold unuseInternalData
  split
  · cases frags : p.frags with
    | nil => simp [frags]
    | cons f fs =>
        have count := sizes f (frags ▸ List.mem_cons_self)
        simp [Fragment.size, count]
  · rfl

/-- The same bytes in fragments of which the one at `i` has `size` bytes. -/
structure Linearized (data : List Byte) (frags frags' : List Fragment) (i size : Nat) : Prop where
  plain : ∀ f ∈ frags', f.Plain
  content : gather data frags' = gather data frags
  sum : total frags' = total frags
  fewer : frags'.length ≤ frags.length
  before : total (frags'.take i) = total (frags.take i)
  fragment : ∃ f, frags'[i]? = some f ∧ f.size = size

/-- What `packet::linearize` puts into the place of the fragments. -/
theorem linearized (data : List Byte) {frags : List Fragment} (plain : ∀ f ∈ frags, f.Plain)
    {i size nr : Nat} (run : countFrags size (frags.drop i) = .ok nr)
    (inside : size ≤ total (frags.drop i)) (positive : 0 < size) :
    size ≤ total ((frags.drop i).take nr) ∧ Linearized data frags
      (frags.take i ++ .outside (gather data ((frags.drop i).take nr)) :: frags.drop (i + nr))
      i (total ((frags.drop i).take nr)) := by
  obtain ⟨nr', run', fewer, enough, some⟩ := countFrags_spec inside
  obtain rfl : nr = nr' := Except.ok.inj (run.symm.trans run')
  have nonzero := some positive
  rw [List.length_drop] at fewer
  have parts : frags = frags.take i ++ ((frags.drop i).take nr ++ frags.drop (i + nr)) := by
    rw [← List.drop_drop, List.take_append_drop, List.take_append_drop]
  have length : (gather data ((frags.drop i).take nr)).length = total ((frags.drop i).take nr) :=
    length_gather fun f mem =>
      (plain f (List.mem_of_mem_drop (List.mem_of_mem_take mem))).length_bytes data
  have count : (frags.take i).length = i := List.length_take_of_le (by omega)
  refine ⟨enough, ?_, ?_, ?_, ?_, ?_, .outside (gather data ((frags.drop i).take nr)), ?_, length⟩
  · intro f mem
    rcases List.mem_append.mp mem with old | later
    · exact plain f (List.mem_of_mem_take old)
    · rcases List.mem_cons.mp later with rfl | old
      · trivial
      · exact plain f (List.mem_of_mem_drop old)
  · have whole : gather data frags = gather data (frags.take i) ++
        (gather data ((frags.drop i).take nr) ++ gather data (frags.drop (i + nr))) := by
      rw [← gather_append, ← gather_append, ← parts]
    rw [gather_append, gather_cons, whole]
    rfl
  · have whole : total frags = total (frags.take i) + (total ((frags.drop i).take nr) +
        total (frags.drop (i + nr))) := by
      rw [← total_append, ← total_append, ← parts]
    rw [total_append, total_cons, Fragment.size, length, whole]
  · simp only [List.length_append, List.length_cons, count, List.length_drop]
    omega
  · rw [List.take_left' count]
  · rw [List.getElem?_append_right count.le, count, Nat.sub_self, List.getElem?_cons_zero]

/-- A packet whose fragment `i` has at least `size` bytes, with the same content
as before. -/
structure Linear (p q : Impl) (i size : Nat) : Prop where
  wf : q.WF
  content : q.content = p.content
  before : total (q.frags.take i) = total (p.frags.take i)
  fragment : ∃ f, q.frags[i]? = some f ∧ size ≤ f.size

/-- `packet::linearize` makes one fragment of the bytes it is asked for. -/
theorem linearize_spec (wf : p.WF) {i size : Nat} (inside : size ≤ total (p.frags.drop i))
    (positive : 0 < size) : Safe (p.linearize i size) fun q => Linear p q i size := by
  obtain ⟨layout, unused, content, len_eq, sizes, _⟩ := unuseInternalData_spec wf.toLayout
  have same := unuseInternalData_sizes fun _ => wf.toLayout.length_bytes
  unfold linearize
  generalize p.unuseInternalData = u at *
  have after : total (u.frags.drop i) = total (p.frags.drop i) := by
    simp only [total, List.map_drop, same]
  have before : total (u.frags.take i) = total (p.frags.take i) := by
    simp only [total, List.map_take, same]
  rw [← after] at inside
  obtain ⟨nr, run, _⟩ := countFrags_spec inside
  obtain ⟨enough, linear⟩ := linearized u.data unused.plain run inside positive
  simp only [run, bind, Except.bind]
  obtain ⟨f, here, size⟩ := linear.fragment
  refine ⟨⟨⟨layout.data_length, linear.fewer.trans layout.allocated, layout.few,
    .inl ⟨unused.headroom, linear.plain⟩⟩, ?_, ?_⟩, linear.content.trans content,
    linear.before.trans before, f, here, enough.trans size.ge⟩
  · show u.len = total _
    rw [linear.sum, len_eq, sizes, wf.len_eq]
  · show u.len < 2 ^ 32
    rw [len_eq]
    exact wf.fits

/-- Where `get_header` looks for an offset. -/
theorem findFrag_spec {frags : List Fragment} {offset : Nat} :
    match findFrag offset frags with
    | none => total frags ≤ offset
    | some (i, o) => ∃ f, frags[i]? = some f ∧ o < f.size ∧ offset = total (frags.take i) + o := by
  induction frags generalizing offset with
  | nil => simp [findFrag]
  | cons f fs ih =>
      by_cases passed : f.size ≤ offset
      · have ih := @ih (offset - f.size)
        simp only [findFrag, if_pos passed]
        cases found : findFrag (offset - f.size) fs with
        | none =>
            simp only [found] at ih
            simp only [Option.map_none, total_cons]
            omega
        | some at_ =>
            obtain ⟨i, o⟩ := at_
            simp only [found] at ih
            obtain ⟨g, here, less, sum⟩ := ih
            refine ⟨g, by simpa using here, less, ?_⟩
            simp only [List.take_succ_cons, total_cons]
            omega
      · simp only [findFrag, if_neg passed]
        exact ⟨f, rfl, Nat.not_le.mp passed, by simp⟩

/-- Reading inside one fragment reads the content. -/
theorem read_fragment (sizes : ∀ f ∈ p.frags, (f.bytes p.data).length = f.size) {i o size : Nat}
    {f : Fragment} (here : p.frags[i]? = some f) (inside : o + size ≤ f.size) :
    ((f.bytes p.data).drop o).take size =
      (p.content.drop (total (p.frags.take i) + o)).take size := by
  have mem : f ∈ p.frags := List.mem_of_getElem? here
  have count := sizes f mem
  have before : (gather p.data (p.frags.take i)).length = total (p.frags.take i) :=
    length_gather fun g mem => sizes g (List.mem_of_mem_take mem)
  obtain ⟨less, here⟩ := List.getElem?_eq_some_iff.mp here
  have parts : p.frags = p.frags.take i ++ f :: p.frags.drop (i + 1) := by
    rw [← here, ← List.drop_eq_getElem_cons less, List.take_append_drop]
  have content : p.content = gather p.data (p.frags.take i) ++
      (f.bytes p.data ++ gather p.data (p.frags.drop (i + 1))) := by
    rw [← gather_cons, ← gather_append, ← parts]
    rfl
  rw [content, ← before, ← List.drop_drop, List.drop_left,
    List.drop_append_of_le_length (by omega), List.take_append_of_le_length]
  rw [List.length_drop]
  omega

/-- The end of `get_header`: the header lies in the fragment, or it is not there. -/
def readAt (p : Impl) (i o size : Nat) : Except Fault (Impl × Option (List Byte)) :=
  match p.frags[i]? with
  | some f =>
      if o + size ≤ f.size then .ok (p, some (((f.bytes p.data).drop o).take size))
      else .error .outOfBounds
  | none => .error .outOfBounds

/-- `packet::get_header` leaves the packet its bytes, and the pointer it returns
is to the bytes at the offset; it is null when they are not there. -/
theorem getHeader_spec (wf : p.WF) (offset size : Nat) :
    Safe (p.getHeader offset size) fun r => r.1.WF ∧ r.1.content = p.content ∧
      r.2 = if offset + size ≤ p.content.length ∧ offset < p.content.length then
        some ((p.content.drop offset).take size) else none := by
  have length := wf.length_content
  have sizes := wf.len_eq
  unfold getHeader
  split
  · rename_i outside
    exact ⟨wf, rfl, by rw [if_neg (by omega)]⟩
  rename_i within
  have find := @findFrag_spec p.frags offset
  cases found : findFrag offset p.frags with
  | none =>
      simp only [found] at find
      exact ⟨wf, rfl, by rw [if_neg (by omega)]⟩
  | some at_ =>
      obtain ⟨i, o⟩ := at_
      simp only [found] at find
      obtain ⟨f, here, less, sum⟩ := find
      obtain ⟨bound, get⟩ := List.getElem?_eq_some_iff.mp here
      have parts : total p.frags = total (p.frags.take i) + total (p.frags.drop i) := by
        rw [← total_append, List.take_append_drop]
      have first : total (p.frags.drop i) = f.size + total (p.frags.drop (i + 1)) := by
        rw [List.drop_eq_getElem_cons bound, get, total_cons]
      have read {q : Impl} (linear : Linear p q i (o + size)) : Safe (q.readAt i o size)
          fun r => r.1.WF ∧ r.1.content = p.content ∧ r.2 =
            if offset + size ≤ p.content.length ∧ offset < p.content.length then
              some ((p.content.drop offset).take size) else none := by
        obtain ⟨wf', content, before, g, there, enough⟩ := linear
        simp only [readAt, there, enough, if_true]
        refine ⟨wf', content, ?_⟩
        rw [if_pos (by omega), read_fragment (fun _ => wf'.toLayout.length_bytes) there enough, content,
          before, ← sum]
      simp only [here, Option.map_some, Option.getD_some]
      split
      · exact (linearize_spec wf (by omega) (by omega)).bind fun q linear => read linear
      · rename_i long
        exact read ⟨wf, rfl, rfl, f, here, Nat.not_lt.mp long⟩

end Impl

end ActorNet.Net
