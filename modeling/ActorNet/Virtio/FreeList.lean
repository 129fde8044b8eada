import ActorNet.Virtio.Vring

/-!
# The free list of a ring and its chains

What the operations on descriptors do, in terms of rows of descriptors:
allocation takes from the front of the free list, a posted chain is such a front,
marked as a chain, and a completed chain is joined to the end.
-/

namespace ActorNet.Virtio

open Lib

variable {β σ : Type}

namespace Vring

variable {r r' r'' : Vring β} {free front chain touched : List Nat} {i prev : Nat}

/-- The links of the descriptors. -/
def nexts (r : Vring β) (i : Nat) : Nat := (r.descs i).next.toNat

/-- The descriptors that say that their chain goes on. -/
def mores (r : Vring β) (i : Nat) : Bool := (r.descs i).hasNext

/-- The descriptors from `_free_head` to `_free_last`. -/
structure FreeList (r : Vring β) (free : List Nat) : Prop where
  head : r.freeHead = free.head?
  last : r.freeLast = free.getLast?
  threaded : free.IsChain (r.nexts · = ·)

/-- The descriptors of a chain. -/
abbrev Chain (r : Vring β) (chain : List Nat) : Prop := Links r.mores r.nexts chain

/-- Only the free list and the descriptors in `touched` may differ. -/
structure Changed (r r' : Vring β) (touched : List Nat) : Prop where
  rest : r' = { r with descs := r'.descs, freeHead := r'.freeHead, freeLast := r'.freeLast }
  outside : ∀ i, i ∉ touched → r'.descs i = r.descs i

namespace Changed

variable (changed : Changed r r' touched)

include changed

theorem size : r'.size = r.size := by rw [changed.rest]
theorem bufferChains : r'.bufferChains = r.bufferChains := by rw [changed.rest]
theorem availRing : r'.availRing = r.availRing := by rw [changed.rest]
theorem availIdx : r'.availIdx = r.availIdx := by rw [changed.rest]
theorem availHead : r'.availHead = r.availHead := by rw [changed.rest]
theorem usedElements : r'.usedElements = r.usedElements := by rw [changed.rest]
theorem usedIdx : r'.usedIdx = r.usedIdx := by rw [changed.rest]
theorem usedTail : r'.usedTail = r.usedTail := by rw [changed.rest]
theorem availableDescriptors : r'.availableDescriptors = r.availableDescriptors := by rw [changed.rest]

end Changed

theorem Changed.trans (first : Changed r r' touched) {more : List Nat}
    (second : Changed r' r'' more) : Changed r r'' (touched ++ more) where
  rest := by
    rw [second.rest, first.rest]
  outside i away := by
    rw [List.mem_append, not_or] at away
    rw [second.outside i away.2, first.outside i away.1]

theorem Changed.keeps (changed : Changed r r' touched) (links : r.Chain chain)
    (apart : ∀ i ∈ chain, i ∉ touched) : r'.Chain chain := by
  apply links.congr
  intro i inside
  unfold mores nexts
  rw [changed.outside i (apart i inside)]
  exact ⟨rfl, rfl⟩

theorem Changed.threaded (changed : Changed r r' touched)
    (threaded : free.IsChain (r.nexts · = ·)) (apart : ∀ i ∈ free, i ∉ touched) :
    free.IsChain (r'.nexts · = ·) := by
  apply threaded_congr threaded
  intro i inside
  unfold nexts
  rw [changed.outside i (apart i inside)]

/-! ## Taking descriptors -/

/-- `allocate_desc` takes the first of the free list. -/
theorem allocateDesc_spec (list : r.FreeList (i :: free)) (distinct : (i :: free).Nodup) :
    r.allocateDesc = some (i, { r with freeHead := free.head?, freeLast := free.getLast? }) := by
  have head := list.head
  have last := list.last
  have fresh := (List.nodup_cons.mp distinct).1
  unfold allocateDesc
  rw [head]
  cases free with
  | nil =>
      have only : r.freeLast = some i := last
      simp [only]
  | cons j free =>
      have link : r.nexts i = j := (List.isChain_cons_cons.mp list.threaded).1
      have other : r.freeLast ≠ some i := by
        rw [last, List.getLast?_cons_cons]
        intro same
        exact fresh (List.mem_of_getLast? same)
      simp only [List.head?_cons, if_neg other]
      rw [show (r.descs i).next.toNat = j from link]
      rw [last, List.getLast?_cons_cons]

theorem freeList_tail (list : r.FreeList (i :: free)) :
    ({ r with freeHead := free.head?, freeLast := free.getLast? } : Vring β).FreeList free :=
  ⟨rfl, rfl, List.isChain_of_isChain_cons list.threaded⟩

theorem changed_describe (r : Vring β) (idx : Nat) (b : Buffer) :
    Changed r (r.describe idx b) [idx] where
  rest := rfl
  outside i away := Function.update_of_ne (by simpa using away) _ _

theorem changed_linkTo (r : Vring β) (prev idx : Nat) : Changed r (r.linkTo prev idx) [prev] where
  rest := rfl
  outside i away := Function.update_of_ne (by simpa using away) _ _

theorem descs_describe (r : Vring β) (idx : Nat) (b : Buffer) :
    (r.describe idx b).descs idx =
      ⟨b.addr, b.len, false, b.writeable, false, (r.descs idx).next⟩ :=
  Function.update_self _ _ _

/-- A new descriptor is linked behind a chain. -/
theorem chain_snoc (links : r.Chain (front ++ [prev])) (distinct : (front ++ [prev, i]).Nodup)
    (small : i < 2 ^ 16) (b : Buffer) :
    ((r.linkTo prev i).describe i b).Chain (front ++ [prev, i]) := by
  have changed := (changed_linkTo r prev i).trans (changed_describe _ i b)
  have apart : prev ≠ i := by
    have tail := (List.nodup_append.mp distinct).2.1
    simpa using tail
  have fresh : ∀ j ∈ front, j ∉ [prev] ++ [i] := fun j inside away =>
    (List.nodup_append.mp distinct).2.2 j inside j away rfl
  have here : ((r.linkTo prev i).describe i b).descs prev =
      { r.descs prev with hasNext := true, next := BitVec.ofNat 16 i } := by
    rw [(changed_describe _ i b).outside prev (by simpa using apart)]
    exact Function.update_self _ _ _
  apply links.snoc distinct
  · intro j inside
    unfold mores nexts
    rw [changed.outside j (fresh j inside)]
    exact ⟨rfl, rfl⟩
  · unfold mores
    rw [here]
  · unfold nexts
    rw [here]
    exact Nat.mod_eq_of_lt small
  · unfold mores
    rw [descs_describe]

/-- The descriptors behind the first of a chain. -/
theorem postBuffers_spec {bufs : List Buffer} (list : r.FreeList free)
    (links : r.Chain (front ++ [prev])) (distinct : (front ++ [prev] ++ free).Nodup)
    (small : ∀ i ∈ free, i < 2 ^ 16) (enough : bufs.length ≤ free.length) :
    ∃ r', postBuffers bufs prev r = some r' ∧ r'.FreeList (free.drop bufs.length) ∧
      r'.Chain (front ++ [prev] ++ free.take bufs.length) ∧
      Changed r r' (prev :: free.take bufs.length) := by
  induction bufs generalizing r front prev free with
  | nil =>
      refine ⟨r, rfl, list, ?_, rfl, fun _ _ => rfl⟩
      rwa [List.length_nil, List.take_zero, List.append_nil]
  | cons b bufs ih =>
      cases free with
      | nil => exact absurd enough (by simp)
      | cons i free =>
          have distinct' : (i :: free).Nodup := (List.nodup_append.mp distinct).2.1
          have row : front ++ [prev] ++ i :: free = front ++ [prev, i] ++ free := by simp
          rw [row] at distinct
          have pair : (front ++ [prev, i]).Nodup := (List.nodup_append.mp distinct).1
          have fresh : ∀ j ∈ free, j ∉ [prev] ++ [i] := fun j inside away =>
            (List.nodup_append.mp distinct).2.2 j
              (List.mem_append_right _ away) j inside rfl
          let popped : Vring β := { r with freeHead := free.head?, freeLast := free.getLast? }
          have changed : Changed popped ((popped.linkTo prev i).describe i b) ([prev] ++ [i]) :=
            (changed_linkTo popped prev i).trans (changed_describe _ i b)
          have longer : ((popped.linkTo prev i).describe i b).Chain (front ++ [prev] ++ [i]) := by
            have snoc := @chain_snoc β popped front i prev links pair
              (small i List.mem_cons_self) b
            rwa [List.append_assoc]
          have list' : ((popped.linkTo prev i).describe i b).FreeList free :=
            ⟨rfl, rfl, changed.threaded (freeList_tail list).threaded fresh⟩
          obtain ⟨r', run, rest, chain, further⟩ :=
            ih list' longer (by simpa using distinct)
              (fun j inside => small j (List.mem_cons_of_mem _ inside)) (by simpa using enough)
          refine ⟨r', ?_, rest, by simpa using chain, ?_⟩
          · rw [postBuffers, allocateDesc_spec list distinct']
            exact run
          · have all : Changed popped r' _ := changed.trans further
            refine ⟨?_, fun j away => ?_⟩
            · rw [all.rest]
            · exact all.outside j (by simpa using away)

/-- A posted chain is the front of the free list. -/
theorem postDescs_spec {bufs : List Buffer} (some_buffer : bufs ≠ []) (list : r.FreeList free)
    (distinct : free.Nodup) (small : ∀ i ∈ free, i < 2 ^ 16)
    (enough : bufs.length ≤ free.length) :
    ∃ r', postDescs bufs r = some (BitVec.ofNat 16 ((free.take bufs.length).headD 0), r') ∧
      r'.FreeList (free.drop bufs.length) ∧ r'.Chain (free.take bufs.length) ∧
      Changed r r' (free.take bufs.length) := by
  cases bufs with
  | nil => exact absurd rfl some_buffer
  | cons b bufs =>
      cases free with
      | nil => exact absurd enough (by simp)
      | cons i free =>
          let popped : Vring β := { r with freeHead := free.head?, freeLast := free.getLast? }
          have changed := changed_describe popped i b
          have fresh : ∀ j ∈ free, j ∉ [i] := fun j inside away =>
            (List.nodup_cons.mp distinct).1 (List.mem_singleton.mp away ▸ inside)
          have first : (popped.describe i b).Chain ([] ++ [i]) := by
            apply Links.last
            unfold mores
            rw [descs_describe]
          have list' : (popped.describe i b).FreeList free :=
            ⟨rfl, rfl, changed.threaded (freeList_tail list).threaded fresh⟩
          obtain ⟨r', run, rest, chain, further⟩ :=
            postBuffers_spec list' first distinct
              (fun j inside => small j (List.mem_cons_of_mem _ inside))
              (Nat.le_of_succ_le_succ enough)
          refine ⟨r', ?_, rest, chain, ?_⟩
          · rw [postDescs, allocateDesc_spec list distinct]
            show (postBuffers bufs i (popped.describe i b) >>= _) = _
            rw [run]
            rfl
          · have all : Changed popped r' _ := changed.trans further
            refine ⟨?_, fun j away => ?_⟩
            · rw [all.rest]
            · exact all.outside j (by simpa using away)

/-! ## Giving descriptors back -/

/-- The walk of `do_complete` ends at the last descriptor of a chain. -/
theorem chainEnd_spec (links : r.Chain chain) {fuel : Nat} (enough : chain.length ≤ fuel) :
    r.chainEnd fuel (chain.headD 0) = chain.getLast? := by
  induction links generalizing fuel with
  | @last i ends =>
      cases fuel with
      | zero => exact absurd enough (by simp)
      | succ fuel =>
          have ends : (r.descs i).hasNext = false := ends
          show (if (r.descs i).hasNext then _ else some i) = some i
          rw [ends]
          rfl
  | @link i j l further link _ ih =>
      cases fuel with
      | zero => exact absurd enough (by simp)
      | succ fuel =>
          have further : (r.descs i).hasNext = true := further
          have link : (r.descs i).next.toNat = j := link
          show (if (r.descs i).hasNext then r.chainEnd fuel (r.descs i).next.toNat else some i) = _
          rw [if_pos further, link, List.getLast?_cons_cons]
          exact ih (Nat.le_of_succ_le_succ enough)

/-- A chain is joined to the end of the free list. -/
theorem splice_spec (list : r.FreeList free) (links : r.Chain chain)
    (distinct : (free ++ chain).Nodup) (small : ∀ i ∈ chain, i < 2 ^ 16)
    (short : chain.length ≤ r.size) :
    ∃ r', r.splice (chain.headD 0) = some r' ∧ r'.FreeList (free ++ chain) ∧
      Changed r r' free := by
  obtain ⟨nodupFree, -, apart⟩ := List.nodup_append.mp distinct
  obtain ⟨first, begins⟩ : ∃ first, chain.head? = some first := by
    cases chain with
    | nil => exact absurd rfl links.ne_nil
    | cons first others => exact ⟨first, rfl⟩
  obtain ⟨end_, ends⟩ : ∃ end_, chain.getLast? = some end_ :=
    ⟨chain.getLast links.ne_nil, List.getLast?_eq_some_getLast links.ne_nil⟩
  have headD : chain.headD 0 = first := by rw [List.headD_eq_head?_getD, begins]; rfl
  cases last : free.getLast? with
  | none =>
      obtain rfl : free = [] := List.getLast?_eq_none_iff.mp last
      have none_last : r.freeLast = none := list.last
      let r₁ : Vring β := { r with freeHead := some (chain.headD 0) }
      have walked : r₁.chainEnd r.size (chain.headD 0) = some end_ :=
        (@chainEnd_spec β r₁ chain links _ short).trans ends
      refine ⟨{ r₁ with freeLast := some end_ }, ?_, ⟨?_, ends.symm, links.threaded⟩, rfl,
        fun _ _ => rfl⟩
      · unfold splice
        split
        · rename_i p found
          rw [none_last] at found
          cases found
        · show (r₁.chainEnd r.size (chain.headD 0)).map _ = _
          rw [walked]
          rfl
      · show some (chain.headD 0) = chain.head?
        rw [begins, headD]
  | some p =>
      have some_last : r.freeLast = some p := list.last.trans last
      have inside : p ∈ free := List.mem_of_getLast? last
      have away : p ∉ chain := fun other => apart p inside p other rfl
      let r₁ := r.setDesc p { r.descs p with next := BitVec.ofNat 16 (chain.headD 0) }
      have changed : Changed r r₁ [p] :=
        ⟨rfl, fun i other => Function.update_of_ne (by simpa using other) _ _⟩
      have links' : r₁.Chain chain := changed.keeps links fun i there here =>
        away (List.mem_singleton.mp here ▸ there)
      have walked : r₁.chainEnd r.size (chain.headD 0) = some end_ :=
        (chainEnd_spec links' short).trans ends
      have written : r₁.nexts = Function.update r.nexts p first := by
        funext i
        by_cases at_p : i = p
        · subst at_p
          have here : r₁.descs i = { r.descs i with next := BitVec.ofNat 16 (chain.headD 0) } :=
            Function.update_self _ _ _
          rw [Function.update_self, nexts, here, headD]
          exact Nat.mod_eq_of_lt (small first (List.mem_of_head? begins))
        · rw [Function.update_of_ne at_p, nexts, nexts,
            changed.outside i (by simpa using at_p)]
      refine ⟨{ r₁ with freeLast := some end_ }, ?_, ⟨?_, ?_, ?_⟩, rfl, ?_⟩
      · unfold splice
        split
        · rename_i q found
          obtain rfl : p = q := Option.some.inj (some_last.symm.trans found)
          show (r₁.chainEnd r.size (chain.headD 0)).map _ = _
          rw [walked]
          rfl
        · rename_i found
          rw [some_last] at found
          cases found
      · show r.freeHead = (free ++ chain).head?
        rw [list.head, List.head?_append_of_ne_nil _ (List.ne_nil_of_mem inside)]
      · show some end_ = (free ++ chain).getLast?
        rw [List.getLast?_append, ends]
        rfl
      · show (free ++ chain).IsChain (r₁.nexts · = ·)
        rw [written]
        exact threaded_join list.threaded links.threaded last begins nodupFree away
      · intro i outside
        apply changed.outside
        intro here
        exact outside (List.mem_singleton.mp here ▸ inside)

end Vring

end ActorNet.Virtio
