import ActorNet.Net.PacketTrims

/-!
# Behind the pointer that `get_header` returns

The pointer leads into one fragment, and what can be read and written there are
the bytes of that fragment: every fragment is memory of its own. `get_header`
sees to it that the header lies in one fragment. How far the memory behind the
pointer reaches beyond the header is another question (`reach`).
-/

namespace ActorNet.Net

open Lib Lib.Guarded

namespace Impl

/-- Reading from a pointer on: a fragment, and an offset in it. -/
def load (p : Impl) (at_ : Nat × Nat) (len : Nat) : Except Fault (List Byte) :=
  match p.frags[at_.1]? with
  | some f =>
      if at_.2 + len ≤ f.size then .ok (((f.bytes p.data).drop at_.2).take len)
      else .error .outOfBounds
  | none => .error .outOfBounds

/-- Writing from a pointer on. -/
def store (p : Impl) (at_ : Nat × Nat) (bytes : List Byte) : Except Fault Impl :=
  match p.frags[at_.1]? with
  | some (.inData base size) =>
      if at_.2 + bytes.length ≤ size then do
        let data ← writeData p.data (base + at_.2) bytes
        .ok { p with data := data }
      else .error .outOfBounds
  | some (.outside old) =>
      if at_.2 + bytes.length ≤ old.length then
        .ok { p with frags := p.frags.set at_.1 (.outside (overwrite old at_.2 bytes)) }
      else .error .outOfBounds
  | none => .error .outOfBounds

/-- How many bytes the fragments hold that the first `n` bytes lie in. -/
def reach : Nat → List Fragment → Nat
  | 0, _ => 0
  | _ + 1, [] => 0
  | n + 1, f :: rest => f.size + reach (n + 1 - f.size) rest

variable {p : Impl} {frags : List Fragment} {i o n : Nat} {f : Fragment}

theorem countFrags_reach {nr : Nat} (run : countFrags n frags = .ok nr) :
    total (frags.take nr) = reach n frags := by
  induction frags generalizing n nr with
  | nil =>
      cases n with
      | zero => rw [List.take_nil]; unfold reach; rfl
      | succ n => unfold countFrags at run; cases run
  | cons f rest ih =>
      cases n with
      | zero =>
          unfold countFrags at run
          cases run
          unfold reach
          rfl
      | succ n =>
          simp only [countFrags, bind, Except.bind] at run
          split at run
          · cases run
          · rename_i more counted
            cases run
            rw [List.take_succ_cons, total_cons, ih counted]
            rfl

/-- A fragment that is long enough is all there is to count. -/
theorem reach_cons (positive : 0 < n) (long : n ≤ f.size) : reach n (f :: frags) = f.size := by
  cases n with
  | zero => exact absurd positive (Nat.lt_irrefl 0)
  | succ n =>
      have done : reach 0 frags = 0 := by unfold reach; rfl
      rw [reach, Nat.sub_eq_zero_of_le long, done, Nat.add_zero]

/-- Only the sizes count. -/
theorem reach_sizes {frags' : List Fragment}
    (same : frags.map Fragment.size = frags'.map Fragment.size) :
    reach n frags = reach n frags' := by
  induction frags generalizing n frags' with
  | nil =>
      obtain rfl : frags' = [] := List.map_eq_nil_iff.mp same.symm
      rfl
  | cons f rest ih =>
      cases frags' with
      | nil => cases same
      | cons g rest' =>
          obtain ⟨size, sizes⟩ := List.cons.inj same
          cases n with
          | zero => unfold reach; rfl
          | succ n => rw [reach, reach, size, ih sizes]

/-- Fragments without a byte do not count. -/
theorem reach_drop (positive : 0 < n) (nothing : total (frags.take i) = 0) :
    reach n (frags.drop i) = reach n frags := by
  induction frags generalizing i with
  | nil => rw [List.drop_nil]
  | cons f rest ih =>
      cases i with
      | zero => rfl
      | succ i =>
          rw [List.take_succ_cons, total_cons] at nothing
          cases n with
          | zero => exact absurd positive (Nat.lt_irrefl 0)
          | succ n =>
              have empty : f.size = 0 := by omega
              rw [List.drop_succ_cons, ih (by omega), reach, empty, Nat.sub_zero, Nat.zero_add]

theorem findFrag_eq (here : frags[i]? = some f) (less : o < f.size) :
    findFrag (total (frags.take i) + o) frags = some (i, o) := by
  induction frags generalizing i with
  | nil => cases here
  | cons g rest ih =>
      cases i with
      | zero =>
          obtain rfl : g = f := Option.some.inj here
          have inside : ¬g.size ≤ o := Nat.not_le.mpr less
          simp only [List.take_zero, total_nil, Nat.zero_add, findFrag, if_neg inside]
      | succ i =>
          have passed : g.size ≤ g.size + total (rest.take i) + o := by omega
          have left : g.size + total (rest.take i) + o - g.size = total (rest.take i) + o := by omega
          rw [List.take_succ_cons, total_cons, findFrag, if_pos passed, left,
            ih (by simpa using here)]
          rfl

/-! ## The pointer -/

theorem Loose.sizes (loose : p.Loose) : ∀ f ∈ p.frags, (f.bytes p.data).length = f.size :=
  fun _ mem => loose.length_bytes mem

theorem Loose.linearize_ok (loose : p.Loose) (inside : n ≤ total (p.frags.drop i))
    (positive : 0 < n) : ∃ q, p.linearize i n = .ok q ∧ q.Loose ∧ q.content = p.content ∧
      q.len = p.len ∧ total (q.frags.take i) = total (p.frags.take i) ∧
      ∃ f, q.frags[i]? = some f ∧ n ≤ f.size ∧ f.size = reach n (p.frags.drop i) := by
  obtain ⟨plain, loose', content, len⟩ := loose.unused
  have same := unuseInternalData_sizes loose.sizes
  unfold linearize
  generalize p.unuseInternalData = u at *
  have after : total (u.frags.drop i) = total (p.frags.drop i) := by
    simp only [total, List.map_drop, same]
  have before : total (u.frags.take i) = total (p.frags.take i) := by
    simp only [total, List.map_take, same]
  have each : reach n (u.frags.drop i) = reach n (p.frags.drop i) := by
    apply reach_sizes
    rw [List.map_drop, List.map_drop, same]
  rw [← after] at inside
  obtain ⟨nr, run, _⟩ := countFrags_spec inside
  obtain ⟨enough, linear⟩ := linearized u.data plain run inside positive
  obtain ⟨f, here, size⟩ := linear.fragment
  simp only [run, bind, Except.bind]
  refine ⟨_, rfl, ⟨loose'.data_length, lt_of_le_of_lt linear.fewer loose'.few, ?_, ?_, ?_,
    loose'.fits⟩, linear.content.trans content, len, linear.before.trans before, f, here,
    enough.trans size.ge, ?_⟩
  · exact fun x mem => .inl (linear.plain x (List.mem_of_mem_head? mem))
  · exact fun x mem => linear.plain x (List.mem_of_mem_tail mem)
  · exact loose'.len_eq.trans linear.sum.symm
  · rw [size, countFrags_reach run, each]

/-- `q` is `p` with a pointer to the offset: the fragment behind it reaches as far
as those in `p` do that the `size` bytes from there on lie in. -/
structure Pointed (p q : Impl) (offset size : Nat) (at_ : Nat × Nat) : Prop where
  loose : q.Loose
  content : q.content = p.content
  len : q.len = p.len
  place : total (q.frags.take at_.1) + at_.2 = offset
  before : total (q.frags.take at_.1) = total (p.frags.take at_.1)
  fragment : ∃ f, q.frags[at_.1]? = some f ∧ at_.2 + size ≤ f.size ∧
    f.size = reach (at_.2 + size) (p.frags.drop at_.1)

/-- A header that is there is pointed to. -/
theorem Loose.getHeader_ok (loose : p.Loose) {offset size : Nat} (inside : offset + size ≤ p.len)
    (positive : 0 < size) : ∃ q at_,
      p.getHeader offset size = .ok (q, some ((p.content.drop offset).take size)) ∧
      findFrag offset q.frags = some at_ ∧ Pointed p q offset size at_ := by
  have sum := loose.len_eq
  have find := @findFrag_spec p.frags offset
  cases found : findFrag offset p.frags with
  | none =>
      simp only [found] at find
      omega
  | some at_ =>
      obtain ⟨i, o⟩ := at_
      simp only [found] at find
      obtain ⟨f, here, less, place⟩ := find
      obtain ⟨bound, get⟩ := List.getElem?_eq_some_iff.mp here
      have parts : total p.frags = total (p.frags.take i) + total (p.frags.drop i) := by
        rw [← total_append, List.take_append_drop]
      have first : p.frags.drop i = f :: p.frags.drop (i + 1) := by
        rw [List.drop_eq_getElem_cons bound, get]
      -- once the header lies in one fragment
      have read {q : Impl} (pointed : Pointed p q offset size (i, o)) :
          (match q.frags[i]? with
            | some f =>
                if o + size ≤ f.size then .ok (q, some (((f.bytes q.data).drop o).take size))
                else .error .outOfBounds
            | none => .error .outOfBounds : Except Fault (Impl × Option (List Byte))) =
            .ok (q, some ((p.content.drop offset).take size)) ∧
          findFrag offset q.frags = some (i, o) := by
        obtain ⟨g, there, enough, _⟩ := pointed.fragment
        have place := pointed.place
        simp only [there, enough, if_true]
        rw [read_fragment pointed.loose.sizes there enough, place, pointed.content]
        refine ⟨rfl, ?_⟩
        have found := findFrag_eq there (o := o) (by omega)
        rwa [place] at found
      have start : p.getHeader offset size = (do
          let q ← if f.size < o + size then p.linearize i (o + size) else .ok p
          match q.frags[i]? with
          | some f =>
              if o + size ≤ f.size then .ok (q, some (((f.bytes q.data).drop o).take size))
              else .error .outOfBounds
          | none => .error .outOfBounds) := by
        have here_ : ((p.frags[i]?).map Fragment.size).getD 0 = f.size := by
          rw [here]
          rfl
        rewrite [getHeader, if_neg (Nat.not_lt.mpr inside), found, ← here_]
        rfl
      by_cases short : f.size < o + size
      · obtain ⟨q, made, loose', content, len, before, fragment⟩ :=
          loose.linearize_ok (show o + size ≤ total (p.frags.drop i) by omega) (by omega)
        have pointed : Pointed p q offset size (i, o) :=
          ⟨loose', content, len, by rw [before, place], before, fragment⟩
        obtain ⟨result, points⟩ := read pointed
        rw [start, if_pos short, made]
        exact ⟨q, (i, o), result, points, pointed⟩
      · have pointed : Pointed p p offset size (i, o) := by
          refine ⟨loose, rfl, rfl, place.symm, rfl, f, here, Nat.not_lt.mp short, ?_⟩
          rw [first, reach_cons (by omega) (Nat.not_lt.mp short)]
        obtain ⟨result, points⟩ := read pointed
        rw [start, if_neg short]
        exact ⟨p, (i, o), result, points, pointed⟩

/-! ## The memory behind it -/

/-- Where the sizes are the same a pointer leads to the same place. -/
theorem place_of_sizes {frags' : List Fragment}
    (same : frags'.map Fragment.size = frags.map Fragment.size) (here : frags[i]? = some f) :
    total (frags'.take i) = total (frags.take i) ∧ ∃ g, frags'[i]? = some g ∧ g.size = f.size := by
  constructor
  · rw [total, total, List.map_take, List.map_take, same]
  · have sizes := congrArg (·[i]?) same
    simp only [List.getElem?_map, here, Option.map_some, Option.map_eq_some_iff] at sizes
    exact sizes

theorem Loose.load_completes (loose : p.Loose) (here : p.frags[i]? = some f) :
    CompletesIff (o + n ≤ f.size) (p.load (i, o) n) fun bytes =>
      bytes = (p.content.drop (total (p.frags.take i) + o)).take n := by
  by_cases inside : o + n ≤ f.size
  · refine .of_ok inside ?_ (read_fragment loose.sizes here inside)
    simp only [load, here, if_pos inside]
  · apply CompletesIff.of_error inside
    simp only [load, here, if_neg inside]
    rfl

/-- A fragment that has bytes and lies in `_data` is the first. -/
theorem Loose.first_of_inData (loose : p.Loose) {base : Int} {size : Nat}
    (here : p.frags[i]? = some (.inData base size)) (positive : 0 < size) : i = 0 ∧
      ∃ base' : Nat, base = base' ∧ base' + size ≤ internalDataSize := by
  have mem : Fragment.inData base size ∈ p.frags := List.mem_of_getElem? here
  constructor
  · cases frags : p.frags with
    | nil => rw [frags] at here; cases here
    | cons g rest =>
        cases i with
        | zero => rfl
        | succ i =>
            rw [frags] at here
            have later := loose.later _ (by rw [frags]; exact List.mem_of_getElem? here)
            exact absurd later.2 (Nat.ne_of_gt positive)
  · rcases loose.within mem with plain | ⟨base', size', same, room⟩
    · exact absurd plain.2 (Nat.ne_of_gt positive)
    · cases same
      exact ⟨base', rfl, room⟩

/-- Memory of its own, written over. -/
theorem Loose.set_outside (loose : p.Loose) {old new : List Byte}
    (here : p.frags[i]? = some (.outside old)) (length : new.length = old.length) :
    (p.frags.set i (.outside new)).map Fragment.size = p.frags.map Fragment.size ∧
      ({ p with frags := p.frags.set i (.outside new) } : Impl).Loose := by
  have same : (p.frags.set i (.outside new)).map Fragment.size = p.frags.map Fragment.size := by
    obtain ⟨bound, get⟩ := List.getElem?_eq_some_iff.mp here
    have kept : p.frags.set i (.outside old) = p.frags := by
      rw [← get, List.set_getElem_self]
    have size : (Fragment.outside new).size = (Fragment.outside old).size := length
    rw [List.map_set, size, ← List.map_set, kept]
  refine ⟨same, loose.data_length, ?_, ?_, ?_, ?_, loose.fits⟩
  · show (p.frags.set i _).length < 2 ^ 16
    rw [List.length_set]
    exact loose.few
  · intro f mem
    rcases List.mem_or_eq_of_mem_set (List.mem_of_mem_head? mem) with kept | rfl
    · exact loose.within kept
    · exact .inl trivial
  · intro f mem
    have later := loose.later
    show f.Plain
    change f ∈ (p.frags.set i _).tail at mem
    cases frags : p.frags with
    | nil => rw [frags] at here; cases here
    | cons g rest =>
        rw [frags] at mem later
        cases i with
        | zero => exact later f mem
        | succ i =>
            rcases List.mem_or_eq_of_mem_set mem with kept | rfl
            · exact later f kept
            · trivial
  · show p.len = total (p.frags.set i _)
    rw [loose.len_eq, total, total, same]

/-- Writing inside a fragment writes the bytes there, and nothing else. -/
theorem Loose.store_ok (loose : p.Loose) (here : p.frags[i]? = some f) (less : o < f.size)
    {bytes : List Byte} (inside : o + bytes.length ≤ f.size) : ∃ q, p.store (i, o) bytes = .ok q ∧
      q.Loose ∧ q.len = p.len ∧ q.frags.map Fragment.size = p.frags.map Fragment.size ∧
      q.content = overwrite p.content (total (p.frags.take i) + o) bytes := by
  obtain ⟨bound, get⟩ := List.getElem?_eq_some_iff.mp here
  have parts : p.frags = p.frags.take i ++ f :: p.frags.drop (i + 1) := by
    rw [← get, ← List.drop_eq_getElem_cons bound, List.take_append_drop]
  have content : p.content = gather p.data (p.frags.take i) ++
      (f.bytes p.data ++ gather p.data (p.frags.drop (i + 1))) := by
    rw [← gather_cons, ← gather_append, ← parts]
    rfl
  have before : (gather p.data (p.frags.take i)).length = total (p.frags.take i) :=
    length_gather fun g mem => loose.sizes g (List.mem_of_mem_take mem)
  have size := loose.length_bytes (List.mem_of_getElem? here)
  rw [content, ← before, overwrite_middle (by omega)]
  cases f with
  | outside old =>
      have inside : o + bytes.length ≤ old.length := inside
      obtain ⟨same, loose'⟩ := loose.set_outside here (length_overwrite inside)
      refine ⟨_, ?_, loose', rfl, same, ?_⟩
      · simp only [store, here, if_pos inside]
      · show gather p.data (p.frags.set i (.outside (overwrite old o bytes))) = _
        rw [List.set_eq_take_append_cons_drop, if_pos bound, gather_append, gather_cons]
        rfl
  | inData base m =>
      obtain ⟨rfl, base', rfl, room⟩ :=
        loose.first_of_inData here (lt_of_le_of_lt (Nat.zero_le o) less)
      have inside : o + bytes.length ≤ m := inside
      have written : base' + o + bytes.length ≤ p.data.length := by
        rw [loose.data_length]
        omega
      have run : writeData p.data ((base' : Int) + (o : Nat)) bytes =
          .ok (overwrite p.data (base' + o) bytes) :=
        @writeData_ok _ _ (base' + o) (loose.data_length ▸ written)
      have front : (p.data.take base').length = base' :=
        List.length_take_of_le (by omega)
      have middle : ((p.data.drop base').take m).length = m := by
        rw [List.length_take, List.length_drop, loose.data_length]
        omega
      have bytes_eq : Fragment.bytes (overwrite p.data (base' + o) bytes) (.inData base' m) =
          overwrite (Fragment.bytes p.data (.inData base' m)) o bytes := by
        have three : p.data.take base' ++
            ((p.data.drop base').take m ++ p.data.drop (base' + m)) = p.data := by
          rw [← List.drop_drop, List.take_append_drop, List.take_append_drop]
        have inner : o + bytes.length ≤ ((p.data.drop base').take m).length := by
          rw [middle]
          exact inside
        have whole := @overwrite_middle (p.data.take base') _ (p.data.drop (base' + m)) _ _ inner
        rw [three, front] at whole
        show ((overwrite p.data (base' + o) bytes).drop base').take m =
          overwrite ((p.data.drop base').take m) o bytes
        rw [whole, List.drop_left' front, List.take_left' ((length_overwrite inner).trans middle)]
      refine ⟨{ p with data := overwrite p.data (base' + o) bytes }, ?_, ?_, rfl, rfl, ?_⟩
      · simp only [store, here, if_pos inside, run, bind, Except.bind]
      · exact ⟨(length_overwrite written).trans loose.data_length, loose.few, loose.first,
          loose.later, loose.len_eq, loose.fits⟩
      · show gather (overwrite p.data (base' + o) bytes) p.frags = _
        have rest : ∀ f ∈ p.frags.drop 1, f.Plain := by
          rw [List.drop_one]
          exact loose.later
        rw [parts, List.take_zero, List.nil_append, gather_cons, bytes_eq,
          gather_plain rest _ p.data]
        rfl

end Impl

end ActorNet.Net
