import ActorNet.Net.PacketSlices

/-!
# Trims that may reach into `_data`

`trim_back` may cut the fragment that lies in `_data`, and leaves a packet whose
headroom no longer tells where that fragment begins. Its length and its bytes
are right all the same (`Loose`), and that is enough to trim it in front, to cut
it back and to share it: within the length each of these completes, and beyond
the length none does.
-/

namespace ActorNet.Net

open Lib Lib.Guarded

/-- A fragment that lies in `_data` does so with all its bytes. -/
def Fragment.Within (f : Fragment) : Prop :=
  f.Plain ∨ ∃ base size : Nat, f = .inData base size ∧ base + size ≤ internalDataSize

namespace Impl

/-- A packet of which all but the headroom is known. -/
structure Loose (p : Impl) : Prop where
  data_length : p.data.length = internalDataSize
  few : p.frags.length < 2 ^ 16
  first : ∀ f ∈ p.frags.head?, f.Within
  later : ∀ f ∈ p.frags.tail, f.Plain
  len_eq : p.len = total p.frags
  fits : p.len < 2 ^ 32

variable {p : Impl} {n : Nat}

theorem WF.loose (wf : p.WF) : p.Loose where
  data_length := wf.data_length
  few := lt_of_le_of_lt wf.allocated wf.few
  first := by
    rcases wf.first with unused | ⟨rest, used⟩
    · exact fun f mem => .inl (unused.plain f (List.mem_of_mem_head? mem))
    · intro f mem
      have room := used.headroom
      simp only [used.frags, List.head?_cons, Option.mem_def, Option.some.injEq] at mem
      subst mem
      exact .inr ⟨p.headroom, internalDataSize - p.headroom, rfl, by omega⟩
  later := by
    rcases wf.first with unused | ⟨rest, used⟩
    · exact fun f mem => unused.plain f (List.mem_of_mem_tail mem)
    · simpa only [used.frags, List.tail_cons] using used.plain
  len_eq := wf.len_eq
  fits := wf.fits

theorem Loose.within (loose : p.Loose) {f : Fragment} (mem : f ∈ p.frags) : f.Within := by
  cases shape : p.frags with
  | nil => rw [shape] at mem; exact absurd mem List.not_mem_nil
  | cons g rest =>
      rw [shape] at mem
      rcases List.mem_cons.mp mem with rfl | later
      · exact loose.first f (by rw [shape]; rfl)
      · exact .inl (loose.later f (by rw [shape]; exact later))

theorem within_length_bytes {f : Fragment} (within : f.Within) {data : List Byte}
    (length : data.length = internalDataSize) : (f.bytes data).length = f.size := by
  rcases within with plain | ⟨base, size, rfl, room⟩
  · exact plain.length_bytes data
  · simp only [Fragment.bytes, Fragment.size, Int.toNat_natCast, List.length_take,
      List.length_drop, length]
    omega

theorem Loose.length_bytes (loose : p.Loose) {f : Fragment} (mem : f ∈ p.frags) :
    (f.bytes p.data).length = f.size :=
  within_length_bytes (loose.within mem) loose.data_length

theorem Loose.length_content (loose : p.Loose) : p.content.length = p.len :=
  (length_gather fun _ mem => loose.length_bytes mem).trans loose.len_eq.symm

theorem within_trimFront_bytes {f : Fragment} (within : f.Within) (data : List Byte)
    (n : Nat) : (f.trimFront n).bytes data = (f.bytes data).drop n := by
  apply f.bytes_trimFront data
  rintro base size rfl
  rcases within with ⟨start, _⟩ | ⟨base', size', same, _⟩
  · rw [start]
    exact Int.natCast_nonneg _
  · cases same
    exact Int.natCast_nonneg _

/-- The end of `trim_front`: the first fragment that stays is trimmed. -/
def trimFirst (p : Impl) (k : Nat) : Except Fault Impl :=
  if k = 0 then .ok p
  else match p.frags with
    | f :: rest => .ok { p with
        headroom := if p.usingInternalData then p.headroom + k else p.headroom
        frags := f.trimFront k :: rest }
    | [] => .error .outOfBounds

/-- Trimming in front, within the length. -/
theorem Loose.trimFront_ok (loose : p.Loose) (inside : n ≤ p.len) :
    ∃ q, p.trimFront n = .ok q ∧ q.content = p.content.drop n := by
  obtain ⟨pre, k, rest, run, split⟩ := skipFrags_spec (loose.len_eq ▸ inside)
  have dropped : p.content.drop n = (gather p.data rest).drop k :=
    split.drop fun f mem => loose.length_bytes mem
  unfold trimFront
  rw [if_neg (Nat.not_lt.mpr inside), dropped]
  simp only [run, bind, Except.bind]
  -- whether the fragment lies in `_data` only matters for the headroom
  have cut (q₀ : Impl) (frags : q₀.frags = rest) (data : q₀.data = p.data) :
      ∃ q, q₀.trimFirst k = .ok q ∧ q.content = (gather p.data rest).drop k := by
    unfold trimFirst
    by_cases whole : k = 0
    · subst whole
      exact ⟨q₀, if_pos rfl, by rw [Impl.content, frags, data, List.drop_zero]⟩
    · obtain ⟨f, fs, rfl, less⟩ := split.inside.resolve_left whole
      have mem : f ∈ p.frags := split.frags ▸ List.mem_append_right _ List.mem_cons_self
      have here := loose.length_bytes mem
      rw [if_neg whole, frags]
      refine ⟨_, rfl, ?_⟩
      show gather q₀.data (f.trimFront k :: fs) = _
      rw [data, gather_cons, gather_cons, within_trimFront_bytes (loose.within mem),
        List.drop_append_of_le_length (by omega)]
  apply cut
  · split <;> rfl
  · split <;> rfl

theorem within_trimFront {f : Fragment} (within : f.Within) {k : Nat} (less : k < f.size) :
    (f.trimFront k).Within := by
  rcases within with plain | ⟨base, size, rfl, room⟩
  · exact .inl (plain.trimFront less)
  · have less : k < size := less
    exact .inr ⟨base + k, size - k, rfl, by omega⟩

/-- What is left is a packet as before, and counts what it holds. -/
theorem Loose.trimFront (loose : p.Loose) {q : Impl} (trimmed : p.trimFront n = .ok q) :
    q.Loose ∧ q.len = p.len - n := by
  by_cases inside : n ≤ p.len
  case neg =>
    unfold Impl.trimFront at trimmed
    rw [if_pos (Nat.lt_of_not_le inside)] at trimmed
    cases trimmed
  obtain ⟨pre, k, rest, run, split⟩ := skipFrags_spec (loose.len_eq ▸ inside)
  have sizes : total p.frags = total pre + total rest := by rw [split.frags, total_append]
  have offset := split.offset
  have count := loose.len_eq
  have fits := loose.fits
  have within : ∀ f ∈ rest, f.Within := fun f mem =>
    loose.within (split.frags ▸ List.mem_append_right _ mem)
  have plain : ∀ f ∈ rest.tail, f.Plain := by
    intro f mem
    refine loose.later f ?_
    rw [split.frags]
    cases pre with
    | nil => exact mem
    | cons g gs => exact List.mem_append_right _ (List.mem_of_mem_tail mem)
  have few : rest.length < 2 ^ 16 := by
    have few := loose.few
    rw [split.frags, List.length_append] at few
    omega
  have whole (headroom : Nat) (exact_ : k = 0) :
      (⟨p.len - n, rest, p.allocatedFrags, p.data, headroom⟩ : Impl).Loose :=
    ⟨loose.data_length, few, fun f mem => within f (List.mem_of_mem_head? mem), plain,
      show p.len - n = total rest by omega, show p.len - n < 2 ^ 32 by omega⟩
  have cut (headroom : Nat) {f : Fragment} {fs : List Fragment} (rest_ : rest = f :: fs)
      (less : k < f.size) :
      (⟨p.len - n, f.trimFront k :: fs, p.allocatedFrags, p.data, headroom⟩ : Impl).Loose := by
    subst rest_
    refine ⟨loose.data_length, few, ?_, plain, ?_, show p.len - n < 2 ^ 32 by omega⟩
    · intro g mem
      cases Option.some.inj mem
      exact within_trimFront (within f List.mem_cons_self) less
    · show p.len - n = total (f.trimFront k :: fs)
      rw [total_cons] at sizes ⊢
      rw [Fragment.size_trimFront]
      omega
  unfold Impl.trimFront at trimmed
  rw [if_neg (Nat.not_lt.mpr inside)] at trimmed
  simp only [run, bind, Except.bind] at trimmed
  rcases split.inside with exact_ | ⟨f, fs, rest_, less⟩
  · rw [if_pos exact_] at trimmed
    cases trimmed
    split
    · exact ⟨whole _ exact_, rfl⟩
    · exact ⟨whole _ exact_, rfl⟩
  · by_cases exact_ : k = 0
    · rw [if_pos exact_] at trimmed
      cases trimmed
      split
      · exact ⟨whole _ exact_, rfl⟩
      · exact ⟨whole _ exact_, rfl⟩
    · rw [if_neg exact_] at trimmed
      subst rest_
      by_cases used : (⟨p.len - n, f :: fs, p.allocatedFrags, p.data, p.headroom⟩ :
          Impl).usingInternalData = true
      · simp only [if_pos used] at trimmed
        cases trimmed
        exact ⟨cut _ rfl less, rfl⟩
      · simp only [if_neg used] at trimmed
        cases trimmed
        exact ⟨cut _ rfl less, rfl⟩

/-- Beyond the length it is an assertion that fails. -/
theorem trimFront_error (beyond : p.len < n) : p.trimFront n = .error .assertion := by
  unfold trimFront
  rw [if_pos beyond]

theorem Loose.trimFront_completes (loose : p.Loose) (n : Nat) :
    CompletesIff (n ≤ p.len) (p.trimFront n) fun q => q.content = p.content.drop n := by
  by_cases inside : n ≤ p.len
  · obtain ⟨q, run, content⟩ := loose.trimFront_ok inside
    exact .of_ok inside run content
  · exact .of_error inside (trimFront_error (Nat.lt_of_not_le inside))

/-- A prefix of the fragments, and the front of the next one. -/
theorem Loose.front (loose : p.Loose) {front back : List Fragment} (frags : p.frags = front ++ back)
    (new : List Fragment) (few : new.length ≤ back.length)
    (head : ∀ f ∈ new, ∃ g ∈ back, (g.Plain → f.Plain) ∧ (g.Within → f.Within))
    (single : new.length ≤ 1) (len : Nat) (count : len = total (front ++ new)) (fits : len < 2 ^ 32)
    (headroom : Nat) :
    (⟨len, front ++ new, p.allocatedFrags, p.data, headroom⟩ : Impl).Loose := by
  refine ⟨loose.data_length, ?_, ?_, ?_, count, fits⟩
  · have := loose.few
    rw [frags, List.length_append] at this
    show (front ++ new).length < 2 ^ 16
    rw [List.length_append]
    omega
  · intro f mem
    have mem : f ∈ front ++ new := List.mem_of_mem_head? mem
    rcases List.mem_append.mp mem with old | added
    · exact loose.within (frags ▸ List.mem_append_left _ old)
    · obtain ⟨g, inBack, _, within⟩ := head f added
      exact within (loose.within (frags ▸ List.mem_append_right _ inBack))
  · intro f mem
    show f.Plain
    cases front with
    | nil =>
        have : new.tail = [] := List.eq_nil_of_length_eq_zero (by rw [List.length_tail]; omega)
        rw [List.nil_append, this] at mem
        exact absurd mem List.not_mem_nil
    | cons x front =>
        have later : ∀ g ∈ front ++ back, g.Plain := by
          have later := loose.later
          rwa [frags] at later
        rcases List.mem_append.mp (show f ∈ front ++ new from mem) with old | added
        · exact later f (List.mem_append_left _ old)
        · obtain ⟨g, inBack, plain, _⟩ := head f added
          exact plain (later g (List.mem_append_right _ inBack))

theorem within_trimBack {f : Fragment} (within : f.Within) (n : Nat) :
    (f.trimBack n).Within := by
  rcases within with plain | ⟨base, size, rfl, room⟩
  · exact .inl (plain.trimBack n)
  · exact .inr ⟨base, size - n, rfl, by omega⟩

/-- Cutting the back off, within the length. -/
theorem Loose.trimBack_ok (loose : p.Loose) (inside : n ≤ p.len) :
    ∃ q, p.trimBack n = .ok q ∧ q.Loose ∧ q.content = p.content.take (p.len - n) := by
  have within : n ≤ total p.frags.reverse := by
    rw [total_reverse, ← loose.len_eq]
    exact inside
  obtain ⟨pre, k, back, run, split⟩ := skipFrags_spec within
  have frags : p.frags = back.reverse ++ pre.reverse := by
    rw [← List.reverse_append, ← split.frags, List.reverse_reverse]
  have offset := split.offset
  have len := loose.len_eq
  have fits := lt_of_le_of_lt (Nat.sub_le p.len n) loose.fits
  have sizes : total p.frags = total back + total pre := by rw [frags]; simp
  have whole : ∀ f ∈ back.reverse, (f.bytes p.data).length = f.size := fun f mem =>
    loose.length_bytes (frags ▸ List.mem_append_left _ mem)
  unfold trimBack
  rw [if_neg (Nat.not_lt.mpr inside)]
  simp only [run, bind, Except.bind]
  by_cases last : k = 0
  · have count : p.len - n = total back.reverse := by
      rw [total_reverse]
      omega
    have kept := loose.front frags [] (Nat.zero_le _) (List.forall_mem_nil _)
      (Nat.zero_le _) (p.len - n) (by rwa [List.append_nil]) fits p.headroom
    rw [List.append_nil] at kept
    refine ⟨_, if_pos last, kept, ?_⟩
    have content : p.content = gather p.data (back.reverse ++ pre.reverse) := by
      rw [← frags]; rfl
    rw [content, count, take_gather whole]
    rfl
  · obtain ⟨f, fs, rfl, less⟩ := split.inside.resolve_left last
    rw [List.reverse_cons, List.append_assoc, List.singleton_append] at frags
    have mem : f ∈ p.frags := frags ▸ List.mem_append_right _ List.mem_cons_self
    have count : p.len - n = total fs + (f.size - k) := by
      rw [total_cons] at sizes
      omega
    have kept (headroom : Nat) := loose.front frags [f.trimBack k] (by simp)
      (by simpa using .inl ⟨fun plain => plain.trimBack k, fun within => within_trimBack within k⟩)
      (by simp) (p.len - n) (by simp [count, Fragment.size_trimBack]) fits headroom
    have before : (gather p.data fs.reverse).length = total fs := by
      rw [← total_reverse fs]
      exact length_gather fun g mem => loose.length_bytes (frags ▸ List.mem_append_left _ mem)
    have here := loose.length_bytes mem
    have content : gather p.data (fs.reverse ++ [f.trimBack k]) = p.content.take (p.len - n) := by
      rw [count, Impl.content, frags, gather_append, gather_append, gather_cons, gather_cons,
        gather_nil, List.append_nil, Fragment.bytes_trimBack here, ← before,
        List.take_length_add_append, List.take_append_of_le_length (by omega)]
    rw [if_neg last]
    simp only [List.reverse_cons]
    split
    · exact ⟨_, rfl, kept _, content⟩
    · exact ⟨_, rfl, kept _, content⟩

/-! ## Sharing -/

/-- A new packet with room for so many fragments. -/
theorem fresh_ok {k : Nat} (few : k < 2 ^ 16) :
    ∃ n : Impl, (do let n ← allocate 1; n.allocateIfNeeded k) = .ok n := by
  have fresh : allocate 1 = .ok ⟨0, [], 4, newData, internalDataSize⟩ := rfl
  simp only [fresh, bind, Except.bind, allocateIfNeeded]
  split
  · exact ⟨_, rfl⟩
  · have fits : k < 65536 := few
    simp [copy, allocate, defaultNrFrags, fits, bind, Except.bind, usingInternalData]

/-- The fragments of a packet that does not use `_data` any more. -/
theorem Loose.unused (loose : p.Loose) :
    (∀ f ∈ p.unuseInternalData.frags, f.Plain) ∧ p.unuseInternalData.Loose ∧
      p.unuseInternalData.content = p.content ∧ p.unuseInternalData.len = p.len := by
  by_cases inUse : p.usingInternalData
  · obtain ⟨f, rest, shape⟩ : ∃ f rest, p.frags = f :: rest := by
      cases shape : p.frags with
      | nil => simp [usingInternalData, shape] at inUse
      | cons f rest => exact ⟨f, rest, rfl⟩
    have form : p.unuseInternalData = { p with
        frags := .outside (f.bytes p.data) :: rest
        headroom := internalDataSize } := by
      simp only [unuseInternalData, inUse, if_true, shape]
    have later : ∀ g ∈ rest, g.Plain := by simpa [shape] using loose.later
    have here := loose.length_bytes (f := f) (by simp [shape])
    rw [form]
    refine ⟨?_, ⟨loose.data_length, ?_, ?_, later, ?_, loose.fits⟩, ?_, rfl⟩
    · exact List.forall_mem_cons.mpr ⟨trivial, later⟩
    · simpa [shape] using loose.few
    · intro g mem
      obtain rfl : Fragment.outside (f.bytes p.data) = g := by simpa using mem
      exact .inl trivial
    · rw [loose.len_eq, shape, total_cons, total_cons, ← here]
      rfl
    · simp only [Impl.content, shape, gather_cons]
      rfl
  · have form : p.unuseInternalData = p := by simp only [unuseInternalData, inUse]; rfl
    rw [form]
    refine ⟨?_, loose, rfl, rfl⟩
    intro f mem
    cases shape : p.frags with
    | nil => rw [shape] at mem; exact absurd mem List.not_mem_nil
    | cons g rest =>
        rw [shape] at mem
        rcases List.mem_cons.mp mem with rfl | later
        · rcases loose.first f (by rw [shape]; rfl) with plain | ⟨base, size, rfl, room⟩
          · exact plain
          · -- only one of no bytes may begin behind `_data`
            have behind : internalDataSize ≤ base := by
              simpa [usingInternalData, shape] using inUse
            exact ⟨by omega, by omega⟩
        · exact loose.later f (by rw [shape]; exact later)

/-- Sharing the front, within the length. -/
theorem Loose.share_ok (loose : p.Loose) (inside : n ≤ p.len) :
    ∃ q m, p.share 0 n = .ok (q, m) ∧ q.Loose ∧ q.content = p.content ∧ q.len = p.len ∧
      m.content = p.content.take n := by
  obtain ⟨plain, loose', content, len⟩ := loose.unused
  obtain ⟨fresh, made⟩ := fresh_ok loose'.few
  obtain ⟨taken, run, _, _, _, bytes⟩ := takeFrags_spec plain (.inl rfl)
    (show 0 + n ≤ total p.unuseInternalData.frags by rw [← loose'.len_eq, len]; omega) fresh.data
  have skip : skipFrags 0 p.unuseInternalData.frags = .ok (0, p.unuseInternalData.frags) := by
    cases p.unuseInternalData.frags <;> rfl
  refine ⟨p.unuseInternalData, { fresh with
    frags := taken, len := unsigned (taken.map Fragment.size).sum }, ?_, loose', content, len, ?_⟩
  · obtain ⟨first, allocated, more⟩ : ∃ a, allocate 1 = .ok a ∧
        a.allocateIfNeeded p.unuseInternalData.frags.length = .ok fresh := by
      simpa only [bind, Except.bind] using ⟨_, rfl, made⟩
    simp only [share, allocated, more, skip, run, bind, Except.bind]
  · show gather fresh.data taken = _
    rw [bytes, List.drop_zero, gather_plain plain fresh.data p.unuseInternalData.data, ← content]
    rfl

/-- Sharing leaves the length of a packet. -/
theorem share_len {offset : Nat} {q m : Impl} (shared : p.share offset n = .ok (q, m)) :
    q.len = p.len := by
  have same : p.unuseInternalData.len = p.len := by
    unfold unuseInternalData
    split
    · split <;> rfl
    · rfl
  simp only [share, bind, Except.bind] at shared
  split at shared
  · cases shared
  split at shared
  · cases shared
  split at shared
  · cases shared
  split at shared
  · cases shared
  · cases shared
    exact same

/-! ## Reading -/

theorem countFrags_error {frags : List Fragment} {desired : Nat} {e : Fault}
    (failed : countFrags desired frags = .error e) : e = .outOfBounds := by
  induction frags generalizing desired with
  | nil =>
      cases desired with
      | zero => unfold countFrags at failed; cases failed
      | succ desired => unfold countFrags at failed; cases failed; rfl
  | cons f rest ih =>
      cases desired with
      | zero => unfold countFrags at failed; cases failed
      | succ desired =>
          simp only [countFrags, bind, Except.bind] at failed
          split at failed
          · rename_i e' failed'
            cases failed
            exact ih failed'
          · cases failed

theorem linearize_error {i size : Nat} {e : Fault} (failed : p.linearize i size = .error e) :
    e = .outOfBounds := by
  simp only [linearize, bind, Except.bind] at failed
  split at failed
  · rename_i counted
    cases failed
    exact countFrags_error counted
  · cases failed

theorem readAt_error {i o size : Nat} {e : Fault} (failed : p.readAt i o size = .error e) :
    e = .outOfBounds := by
  unfold readAt at failed
  split at failed
  · split at failed
    · cases failed
    · cases failed
      rfl
  · cases failed
    rfl

theorem getHeader_error {offset size : Nat} {e : Fault}
    (failed : p.getHeader offset size = .error e) : e = .outOfBounds := by
  unfold getHeader at failed
  split at failed
  · cases failed
  cases found : findFrag offset p.frags with
  | none => rw [found] at failed; cases failed
  | some at_ =>
      obtain ⟨i, o⟩ := at_
      simp only [found] at failed
      split at failed
      · cases linear : p.linearize i (o + size) with
        | error e' =>
            rw [linear] at failed
            cases failed
            exact linearize_error linear
        | ok q =>
            rw [linear] at failed
            exact readAt_error failed
      · exact readAt_error failed

/-- `get_header` always completes: the pointer is null just if the bytes are not
there. -/
theorem WF.getHeader_ok (wf : p.WF) (offset size : Nat) :
    ∃ q, p.getHeader offset size = .ok (q,
        if offset + size ≤ p.len ∧ offset < p.len then some ((p.content.drop offset).take size)
        else none) ∧ q.WF ∧ q.content = p.content := by
  have spec := getHeader_spec wf offset size
  rw [wf.length_content] at spec
  cases result : p.getHeader offset size with
  | ok r =>
      rw [result] at spec
      obtain ⟨wf', content, read⟩ := spec
      exact ⟨r.1, by rw [← read], wf', content⟩
  | error e =>
      rw [result] at spec
      exact absurd (getHeader_error result) spec

end Impl

end ActorNet.Net
