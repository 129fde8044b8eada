import Mathlib.Data.List.Perm.Basic
import Mathlib.Data.List.Range
import ActorNet.Lib.Window
import ActorNet.Virtio.FreeList

/-!
# Every run of a ring

Free list and chains in flight partition the descriptors, the units of the
semaphore are never more than the free descriptors, and a completion gets the
chain that was posted under its head. `Rep` relates the state of a system to a
`View`, the lists that the arrays of the ring stand for; each action keeps it.
-/

namespace ActorNet.Virtio

open Lib

variable {β σ : Type}

/-! ## What the log says -/

/-- The chains in flight, after an event. -/
def Event.after (out : List (Nat × β)) : Event β → List (Nat × β)
  | .posted head bc => out ++ [(head, bc)]
  | .returned _ _ => out
  | .delivered head _ _ => out.filter (·.1 ≠ head)

/-- An event fits the chains in flight: a head is posted while it is not in
flight, and what is delivered is the chain that is in flight under the head. -/
def Event.Fits (out : List (Nat × β)) : Event β → Prop
  | .posted head _ => head ∉ out.map Prod.fst
  | .returned head _ => head ∈ out.map Prod.fst
  | .delivered head bc _ => (head, bc) ∈ out

def inFlight (log : List (Event β)) : List (Nat × β) := log.foldl Event.after []

/-- Every event fits what is in flight before it. -/
def Matched : List (Nat × β) → List (Event β) → Prop
  | _, [] => True
  | out, e :: es => e.Fits out ∧ Matched (e.after out) es

def returns (log : List (Event β)) : List (Nat × Written) :=
  log.filterMap fun
    | .returned head w => some (head, w)
    | _ => none

def deliveries (log : List (Event β)) : List (Nat × Written) :=
  log.filterMap fun
    | .delivered head _ w => some (head, w)
    | _ => none

theorem matched_concat {out : List (Nat × β)} {log : List (Event β)} {e : Event β}
    (matched : Matched out log) (fits : e.Fits (log.foldl Event.after out)) :
    Matched out (log ++ [e]) := by
  induction log generalizing out with
  | nil => exact ⟨fits, trivial⟩
  | cons first log ih => exact ⟨matched.1, ih matched.2 fits⟩

theorem inFlight_concat (log : List (Event β)) (e : Event β) :
    inFlight (log ++ [e]) = e.after (inFlight log) := by
  rw [inFlight, List.foldl_concat, inFlight]

/-! ## Properties of runs -/

/-- The descriptors that the device sees as a chain. -/
def Vring.chainOf (r : Vring β) : Nat → Nat → List Nat
  | 0, _ => []
  | fuel + 1, id =>
      id :: if (r.descs id).hasNext then r.chainOf fuel (r.descs id).next.toNat else []

/-- What holds between operations. -/
structure Sound (s : Sys β σ) : Prop where
  partition : ∃ free, s.ring.FreeList free ∧
    (free ++ (inFlight s.log).flatMap fun f => s.ring.chainOf s.ring.size f.1).Perm
      (List.range s.ring.size) ∧
    s.ring.availableDescriptors ≤ free.length
  matched : Matched [] s.log
  order : deliveries s.log <+: returns s.log

/-- The completion, in this state, takes the chains in flight that were returned, one
after the other, until an assertion of it fails. -/
inductive Completion.Fails (c : Completion β σ) (flights : List (Nat × β)) :
    σ → List (Nat × Written) → Prop
  | now {cs : σ} {head : Nat} {bc : β} {w : Written} {rest : List (Nat × Written)} :
      (head, bc) ∈ flights → c.complete cs bc w = none → c.Fails flights cs ((head, w) :: rest)
  | later {cs cs' : σ} {head n : Nat} {bc : β} {w : Written} {rest : List (Nat × Written)} :
      (head, bc) ∈ flights → c.complete cs bc w = some (cs', n) → c.Fails flights cs' rest →
      c.Fails flights cs ((head, w) :: rest)

theorem Completion.Fails.mono {c : Completion β σ} {flights more : List (Nat × β)} {cs : σ}
    {returned : List (Nat × Written)} (fails : c.Fails flights cs returned)
    (among : flights ⊆ more) : c.Fails more cs returned := by
  induction fails with
  | now here stuck => exact .now (among here) stuck
  | later here done _ ih => exact .later (among here) done ih

/-! ## The lists behind the arrays -/

/-- A chain in flight, with its descriptors. -/
structure Flight (β : Type) where
  bc : β
  descs : List Nat

def Flight.head (f : Flight β) : Nat := f.descs.headD 0

/-- The free descriptors, the chains in flight, and the heads that wait for the
device and those that wait for the driver. -/
structure View (β : Type) where
  free : List Nat
  flights : List (Flight β)
  posted : List Nat
  returned : List (Nat × Written)

/-- An entry of the ring of used heads. -/
def usedElem (x : Nat × Written) : UsedElem := ⟨BitVec.ofNat 32 x.1, x.2⟩

structure Rep (c : Completion β σ) (size : Nat) (s : Sys β σ) (v : View β) : Prop where
  sized : s.ring.size = size
  free : s.ring.FreeList v.free
  partition : (v.free ++ v.flights.flatMap Flight.descs).Perm (List.range size)
  chains : ∀ f ∈ v.flights, s.ring.Chain f.descs
  stored : ∀ f ∈ v.flights, s.ring.bufferChains f.head = some f.bc
  lengths : ∀ f ∈ v.flights, f.descs.length = (c.buffers f.bc).length
  available : Window (fun i => (s.ring.availRing i).toNat) size s.deviceIdx v.posted
  availHead : s.ring.availHead = s.deviceIdx + BitVec.ofNat 16 v.posted.length
  used : Window s.ring.usedElements size s.ring.usedTail (v.returned.map usedElem)
  usedIdx : s.ring.usedIdx = s.ring.usedTail + BitVec.ofNat 16 v.returned.length
  heads : (v.posted ++ s.taken ++ v.returned.map Prod.fst).Perm (v.flights.map Flight.head)
  units : s.ring.availableDescriptors + s.waited + c.held s.completion = v.free.length
  inFlight : inFlight s.log = v.flights.map fun f => (f.head, f.bc)
  matched : Matched [] s.log
  order : returns s.log = deliveries s.log ++ v.returned

/-- The sizes that 16-bit indices can serve. -/
def RingSize (size : Nat) : Prop := ∃ k ≤ 16, size = 2 ^ k

theorem RingSize.dvd {size : Nat} (ring : RingSize size) : size ∣ 2 ^ 16 := by
  obtain ⟨k, small, rfl⟩ := ring
  exact Nat.pow_dvd_pow 2 small

theorem RingSize.le {size : Nat} (ring : RingSize size) : size ≤ 2 ^ 16 :=
  Nat.le_of_dvd (by decide) ring.dvd

theorem add_ofNat_succ (x : BitVec 16) (n : Nat) :
    x + BitVec.ofNat 16 (n + 1) = x + 1 + BitVec.ofNat 16 n := by
  rw [BitVec.ofNat_add, BitVec.add_comm (BitVec.ofNat 16 n), ← BitVec.add_assoc]
  rfl

theorem add_ofNat_concat (x : BitVec 16) (n : Nat) :
    x + BitVec.ofNat 16 n + 1 = x + BitVec.ofNat 16 (n + 1) := by
  rw [BitVec.ofNat_add, ← BitVec.add_assoc]
  rfl

namespace Rep

variable {c : Completion β σ} {size : Nat} {s s' : Sys β σ} {v : View β} {f g : Flight β}

theorem nodup (rep : Rep c size s v) : (v.free ++ v.flights.flatMap Flight.descs).Nodup :=
  rep.partition.nodup_iff.mpr List.nodup_range

theorem lt_size (rep : Rep c size s v) {i : Nat}
    (inside : i ∈ v.free ++ v.flights.flatMap Flight.descs) : i < size :=
  List.mem_range.mp (rep.partition.mem_iff.mp inside)

theorem length_le (rep : Rep c size s v) :
    v.free.length + (v.flights.flatMap Flight.descs).length = size := by
  rw [← List.length_append, rep.partition.length_eq, List.length_range]

theorem head_mem (rep : Rep c size s v) (inside : f ∈ v.flights) : f.head ∈ f.descs := by
  have some_desc := (rep.chains f inside).ne_nil
  unfold Flight.head
  cases descs : f.descs with
  | nil => exact absurd descs some_desc
  | cons i l => exact List.mem_cons_self

/-- Each chain has a descriptor. -/
theorem flights_le (rep : Rep c size s v) :
    v.flights.length ≤ (v.flights.flatMap Flight.descs).length := by
  have some_desc : ∀ f ∈ v.flights, 1 ≤ f.descs.length := fun f inside =>
    List.length_pos_of_mem (rep.head_mem inside)
  rw [List.length_flatMap]
  generalize v.flights = flights at some_desc
  induction flights with
  | nil => exact Nat.zero_le _
  | cons f flights ih =>
      have first := some_desc f List.mem_cons_self
      have rest := ih fun g inside => some_desc g (List.mem_cons_of_mem _ inside)
      rw [List.map_cons, List.sum_cons, List.length_cons]
      omega

/-- The partition, with one of the chains in flight taken out. -/
theorem partition_of_split (rep : Rep c size s v) {before after : List (Flight β)}
    (split : v.flights = before ++ f :: after) :
    (v.free ++ f.descs ++ (before ++ after).flatMap Flight.descs).Perm (List.range size) := by
  refine List.Perm.trans ?_ rep.partition
  rw [split, List.append_assoc]
  apply List.Perm.append_left
  rw [← List.flatMap_cons]
  exact (List.perm_middle.symm).flatMap_right Flight.descs

/-- The other chains in flight have other descriptors. -/
theorem others_apart (rep : Rep c size s v) {before after : List (Flight β)}
    (split : v.flights = before ++ f :: after) (other : g ∈ before ++ after) {i : Nat}
    (inside : i ∈ g.descs) : i ∉ v.free ++ f.descs := by
  intro shared
  have distinct := (rep.partition_of_split split).nodup_iff.mpr List.nodup_range
  exact (List.nodup_append.mp distinct).2.2 i shared i
    (List.mem_flatMap.mpr ⟨g, other, inside⟩) rfl

theorem others_head (rep : Rep c size s v) {before after : List (Flight β)}
    (split : v.flights = before ++ f :: after) (other : g ∈ before ++ after) :
    g.head ≠ f.head := by
  intro same
  have in_flights : ∀ x ∈ before ++ after, x ∈ v.flights := by
    intro x inside
    rw [split]
    rcases List.mem_append.mp inside with early | late
    · exact List.mem_append_left _ early
    · exact List.mem_append_right _ (List.mem_cons_of_mem _ late)
  have first : f ∈ v.flights := by
    rw [split]
    exact List.mem_append_right _ List.mem_cons_self
  apply rep.others_apart split other (rep.head_mem (in_flights g other))
  rw [same]
  exact List.mem_append_right _ (rep.head_mem first)

/-! ## Between operations -/

theorem chainOf_eq {r : Vring β} {chain : List Nat} (links : r.Chain chain) {fuel : Nat}
    (enough : chain.length ≤ fuel) : r.chainOf fuel (chain.headD 0) = chain := by
  induction links generalizing fuel with
  | @last i ends =>
      cases fuel with
      | zero => exact absurd enough (by simp)
      | succ fuel =>
          have ends : (r.descs i).hasNext = false := ends
          show i :: (if (r.descs i).hasNext then _ else []) = [i]
          rw [ends]
          rfl
  | @link i j l further link _ ih =>
      cases fuel with
      | zero => exact absurd enough (by simp)
      | succ fuel =>
          have further : (r.descs i).hasNext = true := further
          have link : (r.descs i).next.toNat = j := link
          show i :: (if (r.descs i).hasNext then r.chainOf fuel (r.descs i).next.toNat else []) = _
          rw [if_pos further, link]
          exact congrArg (i :: ·) (ih (Nat.le_of_succ_le_succ enough))

theorem sound (rep : Rep c size s v) : Sound s where
  partition := by
    refine ⟨v.free, rep.free, ?_, ?_⟩
    · have chains : ∀ f ∈ v.flights, s.ring.chainOf s.ring.size f.head = f.descs := by
        intro f inside
        apply chainOf_eq (rep.chains f inside)
        have total := rep.length_le
        have part := (List.sublist_flatten_of_mem (List.mem_map_of_mem (f := Flight.descs) inside)).length_le
        rw [← List.flatMap_def] at part
        rw [rep.sized]
        omega
      rw [rep.inFlight, List.flatMap_map, List.flatMap_congr chains, rep.sized]
      exact rep.partition
    · have units := rep.units
      omega
  matched := rep.matched
  order := ⟨v.returned, rep.order.symm⟩

/-! ## Every action keeps it -/

theorem masked_eq (rep : Rep c size s v) (ring : RingSize size) (idx : BitVec 16) :
    s.ring.masked idx = idx.toNat % size := by
  obtain ⟨k, -, rfl⟩ := ring
  unfold Vring.masked
  rw [rep.sized]
  exact Nat.and_two_pow_sub_one_eq_mod _ _

/-- The chains in flight are no more than the descriptors. -/
theorem heads_le (rep : Rep c size s v) :
    v.posted.length + s.taken.length + v.returned.length ≤ (v.flights.flatMap Flight.descs).length := by
  have count := rep.heads.length_eq
  have chains := rep.flights_le
  simp only [List.length_append, List.length_map] at count
  omega

theorem wait (rep : Rep c size s v) {n : Nat} (granted : n ≤ s.ring.availableDescriptors) :
    Rep c size { s with
      ring := { s.ring with availableDescriptors := s.ring.availableDescriptors - n }
      waited := s.waited + n } v := by
  refine { rep with
    free := ⟨rep.free.head, rep.free.last, rep.free.threaded⟩
    units := ?_ }
  have units := rep.units
  show s.ring.availableDescriptors - n + (s.waited + n) + c.held s.completion = v.free.length
  omega

theorem take (rep : Rep c size s v) (ring : RingSize size)
    (published : s.ring.availIdx = s.ring.availHead) (more : s.deviceIdx ≠ s.ring.availIdx) :
    ∃ v', Rep c size { s with
      deviceIdx := s.deviceIdx + 1
      taken := s.taken ++ [(s.ring.availRing (s.ring.masked s.deviceIdx)).toNat] } v' := by
  have window := rep.available
  have availHead := rep.availHead
  have heads := rep.heads
  cases posted : v.posted with
  | nil =>
      exfalso
      apply more
      rw [published, availHead, posted]
      exact (BitVec.add_zero _).symm
  | cons head rest =>
      rw [posted] at window availHead heads
      have found : (s.ring.availRing (s.ring.masked s.deviceIdx)).toNat = head := by
        rw [rep.masked_eq ring]
        exact window.first
      rw [found]
      refine ⟨{ v with posted := rest }, { rep with
        available := window.pop ring.dvd
        availHead := ?_
        heads := ?_ }⟩
      · rw [availHead, List.length_cons, add_ofNat_succ]
      · show (rest ++ (s.taken ++ [head]) ++ v.returned.map Prod.fst).Perm _
        refine List.Perm.trans ?_ heads
        apply List.Perm.append_right
        rw [← List.append_assoc]
        exact (List.perm_append_singleton head (rest ++ s.taken))

theorem giveBack (rep : Rep c size s v) (ring : RingSize size) {head : Nat}
    (taken : head ∈ s.taken) (w : Written) :
    ∃ v', Rep c size { s with
      ring := { s.ring with
        usedElements := Function.update s.ring.usedElements (s.ring.masked s.ring.usedIdx)
          ⟨BitVec.ofNat 32 head, w⟩
        usedIdx := s.ring.usedIdx + 1 }
      taken := s.taken.erase head
      log := s.log ++ [.returned head w] } v' := by
  have count := rep.heads_le
  have total := rep.length_le
  have some_taken := List.length_pos_of_mem taken
  have room : (v.returned.map usedElem).length < size := by
    rw [List.length_map]
    omega
  have slot : s.ring.masked s.ring.usedIdx =
      (s.ring.usedTail.toNat + (v.returned.map usedElem).length) % size := by
    rw [rep.masked_eq ring, rep.usedIdx, slot_add ring.dvd, List.length_map]
  have flying : head ∈ v.flights.map Flight.head := by
    apply rep.heads.mem_iff.mp
    exact List.mem_append_left _ (List.mem_append_right _ taken)
  refine ⟨{ v with returned := v.returned ++ [(head, w)] }, { rep with
    free := ⟨rep.free.head, rep.free.last, rep.free.threaded⟩
    used := ?_
    usedIdx := ?_
    heads := ?_
    inFlight := ?_
    matched := ?_
    order := ?_ }⟩
  · rw [slot, List.map_append]
    exact rep.used.push room
  · show s.ring.usedIdx + 1 = s.ring.usedTail + _
    rw [rep.usedIdx, add_ofNat_concat, List.length_append, List.length_singleton]
  · show (v.posted ++ s.taken.erase head ++ (v.returned ++ [(head, w)]).map Prod.fst).Perm _
    refine List.Perm.trans ?_ rep.heads
    rw [List.map_append, ← List.append_assoc, List.append_assoc v.posted,
      List.append_assoc v.posted, List.append_assoc v.posted]
    apply List.Perm.append_left
    rw [List.map_singleton]
    refine (List.perm_append_singleton head _).trans ?_
    exact ((List.perm_cons_erase taken).symm).append_right (v.returned.map Prod.fst)
  · rw [inFlight_concat, rep.inFlight]
    rfl
  · apply matched_concat rep.matched
    show head ∈ (Virtio.inFlight s.log).map Prod.fst
    rw [rep.inFlight, List.map_map]
    exact flying
  · have order := rep.order
    simp only [returns, deliveries] at order ⊢
    simp [order]

theorem postChain (rep : Rep c size s v) (ring : RingSize size) {bc : β}
    (some_buffer : c.buffers bc ≠ []) (enough : (c.buffers bc).length ≤ s.waited) :
    ∃ head r' v', s.ring.postChain c bc = some (head, r') ∧ r'.availIdx = s.ring.availIdx ∧
      Rep c size { s with
        ring := r'
        waited := s.waited - (c.buffers bc).length
        log := s.log ++ [.posted head bc] } v' := by
  have units := rep.units
  have free_nodup := (List.nodup_append.mp rep.nodup).1
  have small : ∀ i ∈ v.free, i < 2 ^ 16 := fun i inside =>
    Nat.lt_of_lt_of_le (rep.lt_size (List.mem_append_left _ inside)) ring.le
  obtain ⟨r', run, list, chain, changed⟩ :=
    Vring.postDescs_spec some_buffer rep.free free_nodup small (by omega)
  let f : Flight β := ⟨bc, v.free.take (c.buffers bc).length⟩
  have head_mem : f.head ∈ f.descs := by
    have some_desc := chain.ne_nil
    cases descs : f.descs with
    | nil => exact absurd descs some_desc
    | cons i l =>
        rw [Flight.head, descs]
        exact List.mem_cons_self
  have head_free : f.head ∈ v.free := List.mem_of_mem_take head_mem
  have fresh : ∀ g ∈ v.flights, ∀ i ∈ g.descs, i ∉ f.descs := fun g flying i inside here =>
    (List.nodup_append.mp rep.nodup).2.2 i (List.mem_of_mem_take here) i
      (List.mem_flatMap.mpr ⟨g, flying, inside⟩) rfl
  have head_fresh : ∀ g ∈ v.flights, g.head ≠ f.head := fun g flying same =>
    fresh g flying g.head (rep.head_mem flying) (same ▸ head_mem)
  have head_eq : (BitVec.ofNat 16 f.head).toNat = f.head :=
    Nat.mod_eq_of_lt (small _ head_free)
  have room : v.posted.length < size := by
    have count := rep.heads_le
    have total := rep.length_le
    have some_free := List.length_pos_of_mem head_free
    omega
  have slot : r'.masked r'.availHead = (s.deviceIdx.toNat + v.posted.length) % size := by
    rw [Vring.masked, changed.size, changed.availHead]
    show s.ring.masked s.ring.availHead = _
    rw [rep.masked_eq ring, rep.availHead, slot_add ring.dvd]
  refine ⟨f.head, { r' with
      bufferChains := Function.update r'.bufferChains f.head (some bc)
      availRing := Function.update r'.availRing (r'.masked r'.availHead) (BitVec.ofNat 16 f.head)
      availHead := r'.availHead + 1 },
    ⟨v.free.drop (c.buffers bc).length, v.flights ++ [f], v.posted ++ [f.head], v.returned⟩,
    ?_, changed.availIdx, ?_⟩
  · have run : Vring.postDescs (c.buffers bc) s.ring = some (BitVec.ofNat 16 f.head, r') := run
    simp only [Vring.postChain, run, Option.bind_eq_bind, Option.bind_some, head_eq]
  · exact {
      sized := changed.size.trans rep.sized
      free := ⟨list.head, list.last, list.threaded⟩
      partition := by
        refine List.Perm.trans ?_ rep.partition
        show (v.free.drop _ ++ (v.flights ++ [f]).flatMap Flight.descs).Perm _
        rw [List.flatMap_append, List.flatMap_singleton, ← List.append_assoc]
        refine List.perm_append_comm.trans ?_
        show (v.free.take _ ++ (v.free.drop _ ++ _)).Perm _
        rw [← List.append_assoc, List.take_append_drop]
      chains := by
        intro g flying
        rcases List.mem_append.mp flying with old | new
        · exact changed.keeps (rep.chains g old) (fresh g old)
        · rw [List.mem_singleton.mp new]
          exact chain
      stored := by
        intro g flying
        rcases List.mem_append.mp flying with old | new
        · show Function.update r'.bufferChains f.head (some bc) g.head = some g.bc
          rw [Function.update_of_ne (head_fresh g old), changed.bufferChains]
          exact rep.stored g old
        · rw [List.mem_singleton.mp new]
          exact Function.update_self _ _ _
      lengths := by
        intro g flying
        rcases List.mem_append.mp flying with old | new
        · exact rep.lengths g old
        · rw [List.mem_singleton.mp new]
          show (v.free.take (c.buffers bc).length).length = (c.buffers bc).length
          exact List.length_take_of_le (by omega)
      available := by
        have pushed := rep.available.push (a := f.head) room
        have same : (fun i => (Function.update r'.availRing (r'.masked r'.availHead)
            (BitVec.ofNat 16 f.head) i).toNat) =
            Function.update (fun i => (s.ring.availRing i).toNat)
              ((s.deviceIdx.toNat + v.posted.length) % size) f.head := by
          funext i
          rw [slot, changed.availRing]
          by_cases here : i = (s.deviceIdx.toNat + v.posted.length) % size
          · subst here
            rw [Function.update_self, Function.update_self, head_eq]
          · rw [Function.update_of_ne here, Function.update_of_ne here]
        show Window (fun i => (Function.update r'.availRing _ _ i).toNat) _ _ _
        rw [same]
        exact pushed
      availHead := by
        show r'.availHead + 1 = s.deviceIdx + _
        rw [changed.availHead, rep.availHead, add_ofNat_concat, List.length_append,
          List.length_singleton]
      used := by
        show Window r'.usedElements size r'.usedTail _
        rw [changed.usedElements, changed.usedTail]
        exact rep.used
      usedIdx := by
        show r'.usedIdx = r'.usedTail + _
        rw [changed.usedIdx, changed.usedTail]
        exact rep.usedIdx
      heads := by
        show (v.posted ++ [f.head] ++ s.taken ++ v.returned.map Prod.fst).Perm
          ((v.flights ++ [f]).map Flight.head)
        rw [List.map_append, List.map_singleton]
        refine List.Perm.trans ?_ (rep.heads.append_right [f.head])
        simp only [List.append_assoc]
        apply List.Perm.append_left
        rw [← List.append_assoc s.taken]
        exact List.perm_append_comm
      units := by
        show r'.availableDescriptors + (s.waited - _) + c.held s.completion = (v.free.drop _).length
        rw [changed.availableDescriptors, List.length_drop]
        omega
      inFlight := by
        rw [inFlight_concat, rep.inFlight, List.map_append]
        rfl
      matched := by
        apply matched_concat rep.matched
        show f.head ∉ (Virtio.inFlight s.log).map Prod.fst
        rw [rep.inFlight, List.map_map]
        intro inside
        obtain ⟨g, flying, same⟩ := List.mem_map.mp inside
        exact head_fresh g flying same
      order := by
        have order := rep.order
        simp only [returns, deliveries] at order ⊢
        simp [order] }

theorem post (rep : Rep c size s v) (ring : RingSize size) {bcs : List β}
    (some_buffers : ∀ bc ∈ bcs, c.buffers bc ≠ [])
    (enough : (bcs.map fun bc => (c.buffers bc).length).sum ≤ s.waited) :
    ∃ heads r' v', s.ring.post c bcs = some (heads, r') ∧ r'.availIdx = r'.availHead ∧
      Rep c size { s with
        ring := r'
        waited := s.waited - (bcs.map fun bc => (c.buffers bc).length).sum
        log := s.log ++ (heads.zip bcs).map fun (head, bc) => .posted head bc } v' := by
  induction bcs generalizing s v with
  | nil =>
      refine ⟨[], { s.ring with availIdx := s.ring.availHead }, v, rfl, rfl, ?_⟩
      rw [List.zip_nil_left, List.map_nil, List.map_nil, List.append_nil]
      exact { rep with free := ⟨rep.free.head, rep.free.last, rep.free.threaded⟩ }
  | cons bc bcs ih =>
      rw [List.map_cons, List.sum_cons] at enough
      obtain ⟨head, r₁, v₁, one, -, rep₁⟩ :=
        rep.postChain ring (some_buffers bc List.mem_cons_self) (by omega)
      obtain ⟨heads, r₂, v₂, others, published, rep₂⟩ :=
        ih rep₁ (fun b inside => some_buffers b (List.mem_cons_of_mem _ inside))
          (by show _ ≤ s.waited - (c.buffers bc).length; omega)
      refine ⟨head :: heads, r₂, v₂, ?_, published, ?_⟩
      · have others : r₁.post c bcs = some (heads, r₂) := others
        simp only [Vring.post, one, others, Option.bind_eq_bind, Option.bind_some]
      · rw [List.map_cons, List.sum_cons, ← Nat.sub_sub, List.zip_cons_cons, List.map_cons,
          ← List.singleton_append, ← List.append_assoc]
        exact rep₂

/-- A used element is delivered as it was returned, with the chain under its head. -/
theorem completeOne (rep : Rep c size s v) (ring : RingSize size) {head : Nat} {w : Written}
    {rest : List (Nat × Written)} (returned : v.returned = (head, w) :: rest) :
    (s.ring.completeOne c s.completion = none ∧
      c.Fails (Virtio.inFlight s.log) s.completion v.returned) ∨
    ∃ bc r' cs n v', s.ring.completeOne c s.completion = some ((head, bc, w), r', cs) ∧
      (head, bc) ∈ Virtio.inFlight s.log ∧ c.complete s.completion bc w = some (cs, n) ∧
      v'.returned = rest ∧ r'.availIdx = s.ring.availIdx ∧ r'.availHead = s.ring.availHead ∧
      Rep c size { s with
        ring := r'
        completion := cs
        log := s.log ++ [.delivered head bc w] } v' := by
  have window := rep.used
  have heads := rep.heads
  have usedIdx := rep.usedIdx
  rw [returned] at window heads usedIdx
  have flying : head ∈ v.flights.map Flight.head := by
    apply heads.mem_iff.mp
    exact List.mem_append_right _ List.mem_cons_self
  obtain ⟨f, inside, rfl⟩ := List.mem_map.mp flying
  obtain ⟨before, after, split⟩ := List.append_of_mem inside
  have parts := rep.partition_of_split split
  have small : ∀ i ∈ f.descs, i < 2 ^ 16 := fun i here =>
    Nat.lt_of_lt_of_le (List.mem_range.mp (parts.mem_iff.mp
      (List.mem_append_left _ (List.mem_append_right _ here)))) ring.le
  have found : s.ring.usedElements (s.ring.masked s.ring.usedTail) = usedElem (f.head, w) := by
    rw [rep.masked_eq ring]
    exact window.first
  have id : (BitVec.ofNat 32 f.head).toNat = f.head :=
    Nat.mod_eq_of_lt (Nat.lt_trans (small _ (rep.head_mem inside)) (by decide))
  have inFlight : (f.head, f.bc) ∈ Virtio.inFlight s.log := by
    rw [rep.inFlight]
    exact List.mem_map_of_mem inside
  cases completed : c.complete s.completion f.bc w with
  | none =>
      left
      refine ⟨?_, by rw [returned]; exact .now inFlight completed⟩
      simp only [Vring.completeOne, found, usedElem, id, rep.stored f inside, completed,
        Option.bind_eq_bind, Option.bind_some, Option.bind_none]
  | some result =>
  obtain ⟨cs, n⟩ := result
  right
  have distinct : (v.free ++ f.descs).Nodup :=
    (List.nodup_append.mp (parts.nodup_iff.mpr List.nodup_range)).1
  have short : f.descs.length ≤ s.ring.size := by
    have count := parts.length_eq
    simp only [List.length_append, List.length_range] at count
    rw [rep.sized]
    omega
  have list : ({ s.ring with
      usedTail := s.ring.usedTail + 1
      bufferChains := Function.update s.ring.bufferChains f.head none
      availableDescriptors := s.ring.availableDescriptors + n } : Vring β).FreeList v.free :=
    ⟨rep.free.head, rep.free.last, rep.free.threaded⟩
  obtain ⟨r', run, list', changed⟩ :=
    Vring.splice_spec list (rep.chains f inside) distinct small short
  have done : s.ring.completeOne c s.completion = some ((f.head, f.bc, w), r', cs) := by
    simp only [Vring.completeOne, found, usedElem, id, rep.stored f inside, completed,
      Option.bind_eq_bind, Option.bind_some]
    exact congrArg (Option.bind · fun r => some ((f.head, f.bc, w), r, cs)) run
  have others : ∀ g ∈ before ++ after, g ∈ v.flights := by
    intro g other
    rw [split]
    exact (List.perm_middle.mem_iff).mpr (List.mem_cons_of_mem _ other)
  refine ⟨f.bc, r', cs, n, ⟨v.free ++ f.descs, before ++ after, v.posted, rest⟩, done, inFlight,
    completed, rfl, changed.availIdx, changed.availHead, ?_⟩
  exact {
    sized := changed.size.trans rep.sized
    free := list'
    partition := parts
    chains := by
      intro g other
      apply changed.keeps (rep.chains g (others g other))
      intro i here free
      exact rep.others_apart split other here (List.mem_append_left _ free)
    stored := by
      intro g other
      show r'.bufferChains g.head = some g.bc
      rw [changed.bufferChains]
      show Function.update s.ring.bufferChains f.head none g.head = _
      rw [Function.update_of_ne (rep.others_head split other)]
      exact rep.stored g (others g other)
    lengths := fun g other => rep.lengths g (others g other)
    available := by
      show Window (fun i => (r'.availRing i).toNat) _ _ _
      rw [changed.availRing]
      exact rep.available
    availHead := changed.availHead.trans rep.availHead
    used := by
      show Window r'.usedElements size r'.usedTail _
      rw [changed.usedElements, changed.usedTail]
      exact window.pop ring.dvd
    usedIdx := by
      show r'.usedIdx = r'.usedTail + _
      rw [changed.usedIdx, changed.usedTail]
      show s.ring.usedIdx = s.ring.usedTail + 1 + _
      rw [usedIdx, List.length_cons, add_ofNat_succ]
    heads := by
      show (v.posted ++ s.taken ++ rest.map Prod.fst).Perm ((before ++ after).map Flight.head)
      apply (List.perm_cons f.head).mp
      refine List.perm_middle.symm.trans (heads.trans ?_)
      rw [split, ← List.map_cons]
      exact List.perm_middle.map Flight.head
    units := by
      have units := rep.units
      have conserved := c.conserves completed
      have length := rep.lengths f inside
      show r'.availableDescriptors + s.waited + c.held cs = (v.free ++ f.descs).length
      rw [changed.availableDescriptors, List.length_append]
      show s.ring.availableDescriptors + n + s.waited + c.held cs = _
      omega
    inFlight := by
      rw [inFlight_concat, rep.inFlight, split]
      have kept : ∀ g ∈ before ++ after, decide (g.head ≠ f.head) = true := fun g other =>
        decide_eq_true (rep.others_head split other)
      have gone : ((before ++ f :: after).filter fun g => decide (g.head ≠ f.head)) =
          before ++ after := by
        rw [List.filter_append, List.filter_cons_of_neg (by simp), ← List.filter_append]
        exact List.filter_eq_self.mpr kept
      show List.filter _ (List.map _ _) = _
      rw [List.filter_map]
      exact congrArg _ gone
    matched := by
      exact matched_concat rep.matched inFlight
    order := by
      have order := rep.order
      rw [returned] at order
      simp only [returns, deliveries] at order ⊢
      simp [order] }

theorem completeAll (rep : Rep c size s v) (ring : RingSize size) (n : Nat)
    (enough : n ≤ v.returned.length) :
    (s.ring.completeAll c n s.completion = none ∧
      c.Fails (Virtio.inFlight s.log) s.completion v.returned) ∨
    ∃ ds r' cs v', s.ring.completeAll c n s.completion = some (ds, r', cs) ∧
      v'.returned = v.returned.drop n ∧
      r'.availIdx = s.ring.availIdx ∧ r'.availHead = s.ring.availHead ∧
      Rep c size { s with
        ring := r'
        completion := cs
        log := s.log ++ ds.map fun (head, bc, w) => .delivered head bc w } v' := by
  induction n generalizing s v with
  | zero =>
      right
      refine ⟨[], s.ring, s.completion, v, rfl, rfl, rfl, rfl, ?_⟩
      rw [List.map_nil, List.append_nil]
      exact rep
  | succ n ih =>
      cases returned : v.returned with
      | nil =>
          rw [returned] at enough
          exact absurd enough (by simp)
      | cons x rest =>
          rw [returned] at enough
          rcases rep.completeOne ring returned with
            ⟨stuck, fails⟩ | ⟨bc, r₁, cs₁, m, v₁, one, here, done, rest₁, avail₁, head₁, rep₁⟩
          · left
            refine ⟨?_, returned ▸ fails⟩
            simp only [Vring.completeAll, stuck, Option.bind_eq_bind, Option.bind_none]
          · have further := ih rep₁ (by rw [rest₁]; exact Nat.le_of_succ_le_succ enough)
            rcases further with ⟨stuck, fails⟩ | ⟨ds, r₂, cs₂, v₂, all, rest₂, avail₂, head₂, rep₂⟩
            · left
              rw [rest₁] at fails
              have among : Virtio.inFlight (s.log ++ [.delivered x.1 bc x.2]) ⊆
                  Virtio.inFlight s.log := by
                rw [inFlight_concat]
                exact List.filter_subset_self _
              refine ⟨?_, .later here done (fails.mono among)⟩
              have stuck : r₁.completeAll c n cs₁ = none := stuck
              simp only [Vring.completeAll, one, stuck, Option.bind_eq_bind, Option.bind_some,
                Option.bind_none]
            · right
              have all : r₁.completeAll c n cs₁ = some (ds, r₂, cs₂) := all
              refine ⟨(x.1, bc, x.2) :: ds, r₂, cs₂, v₂, ?_, ?_, avail₂.trans avail₁, head₂.trans head₁, ?_⟩
              · simp only [Vring.completeAll, one, all, Option.bind_eq_bind, Option.bind_some]
              · rw [rest₂, rest₁, List.drop_succ_cons]
              · rw [List.map_cons, ← List.singleton_append, ← List.append_assoc]
                exact rep₂

/-- `do_complete` delivers what was returned, as far as 16 bits can count it. -/
theorem poll (rep : Rep c size s v) (ring : RingSize size) :
    (s.step c .poll = none ∧ c.Fails (Virtio.inFlight s.log) s.completion v.returned) ∨
    ∃ s' v', s.step c .poll = some s' ∧ Rep c size s' v' ∧
      v'.returned = v.returned.drop (v.returned.length % 2 ^ 16) ∧
      s'.ring.availIdx = s.ring.availIdx ∧ s'.ring.availHead = s.ring.availHead := by
  have count : (s.ring.usedIdx - s.ring.usedTail).toNat = v.returned.length % 2 ^ 16 := by
    rw [rep.usedIdx, BitVec.add_comm, BitVec.add_sub_cancel, BitVec.toNat_ofNat]
  rcases rep.completeAll ring (v.returned.length % 2 ^ 16) (Nat.mod_le _ _) with
    ⟨stuck, fails⟩ | ⟨ds, r', cs, v', all, rest, avail, head, rep'⟩
  · left
    refine ⟨?_, fails⟩
    simp only [Sys.step, Vring.doComplete, count, stuck, Option.bind_eq_bind, Option.bind_none]
  · right
    refine ⟨_, v', ?_, rep', rest, avail, head⟩
    simp only [Sys.step, Vring.doComplete, count, all, Option.bind_eq_bind, Option.bind_some]

end Rep

/-! ## Runs -/

/-- What every action keeps. -/
structure Kept (c : Completion β σ) (size : Nat) (s : Sys β σ) : Prop where
  rep : ∃ v, Rep c size s v
  published : s.ring.availIdx = s.ring.availHead

section

variable {c : Completion β σ} {size : Nat} {s s' : Sys β σ}

/-- After `setup` all descriptors are free, each linked to the one behind it. -/
theorem kept_start (c : Completion β σ) (ring : RingSize size) {cs : σ} (empty : c.held cs = 0) :
    Kept c size (Sys.start size cs) where
  rep := by
    obtain ⟨k, small, rfl⟩ := ring
    have positive : 0 < 2 ^ k := Nat.two_pow_pos k
    have fits : 2 ^ k ≤ 2 ^ 16 := Nat.pow_le_pow_right (by decide) small
    refine ⟨⟨List.range (2 ^ k), [], [], []⟩, ?_⟩
    exact {
      sized := rfl
      free := {
        head := by
          rw [List.head?_range, if_neg (by omega)]
          rfl
        last := by
          rw [List.getLast?_range, if_neg (by omega)]
          rfl
        threaded := by
          rw [List.isChain_iff_getElem]
          intro i inside
          rw [List.length_range] at inside
          rw [List.getElem_range, List.getElem_range]
          show (if i < 2 ^ k then _ else _ : Desc).next.toNat = i + 1
          rw [if_pos (by omega)]
          exact Nat.mod_eq_of_lt (by omega) }
      partition := by rw [List.flatMap_nil, List.append_nil]
      chains := fun f inside => absurd inside List.not_mem_nil
      stored := fun f inside => absurd inside List.not_mem_nil
      lengths := fun f inside => absurd inside List.not_mem_nil
      available := Window.empty _ _ _
      availHead := rfl
      used := Window.empty _ _ _
      usedIdx := rfl
      heads := List.Perm.refl _
      units := by
        show 2 ^ k + 0 + c.held cs = (List.range (2 ^ k)).length
        rw [empty, List.length_range]
        rfl
      inFlight := rfl
      matched := trivial
      order := rfl }
  published := rfl

theorem step_kept (ring : RingSize size) {a : Action β} (kept : Kept c size s)
    (admissible : s.Admissible c a) (next : s.step c a = some s') : Kept c size s' := by
  obtain ⟨v, rep⟩ := kept.rep
  have published := kept.published
  cases a with
  | wait n =>
      cases next
      exact ⟨⟨v, rep.wait admissible⟩, published⟩
  | post bcs =>
      obtain ⟨heads, r', v', run, done, rep'⟩ := rep.post ring admissible.1 admissible.2
      simp only [Sys.step, run, Option.bind_eq_bind, Option.bind_some] at next
      cases next
      exact ⟨⟨v', rep'⟩, done⟩
  | take =>
      cases next
      exact ⟨rep.take ring published admissible, published⟩
  | giveBack head w =>
      cases next
      exact ⟨rep.giveBack ring admissible w, published⟩
  | poll =>
      rcases rep.poll ring with ⟨stuck, -⟩ | ⟨s₁, v₁, run, rep₁, -, avail, head⟩
      · rw [stuck] at next
        cases next
      · obtain rfl : s₁ = s' := Option.some.inj (run.symm.trans next)
        exact ⟨⟨v₁, rep₁⟩, avail.trans (published.trans head.symm)⟩

end

/-- Every run of a ring whose size is a power of two that 16 bits can index. The
partition, the bound on the semaphore and the matching of completions with
chains hold in every state; a guarded post finds its descriptors; and polling
stops at an assertion of the completion only, on a chain that was returned and not
delivered yet, and otherwise delivers all that was returned, unless that is as much
as 16 bits can count. -/
theorem ring_sound (c : Completion β σ) {size : Nat} (ring : RingSize size) {cs : σ}
    (empty : c.held cs = 0) {as : List (Action β)} {s : Sys β σ}
    (admissible : Along (Sys.step c) (Sys.Admissible c) (Sys.start size cs) as)
    (run : exec (Sys.step c) (Sys.start size cs) as = some s) :
    Sound s ∧
      (∀ bcs, s.Admissible c (.post bcs) → (s.step c (.post bcs)).isSome) ∧
      (s.step c .poll = none →
        c.Fails (inFlight s.log) s.completion ((returns s.log).drop (deliveries s.log).length)) ∧
      (size < 2 ^ 16 → ∀ s', s.step c .poll = some s' → deliveries s'.log = returns s'.log) := by
  have kept : Kept c size s :=
    Along.invariant (fun _ _ _ kept ok next => step_kept ring kept ok next)
      (kept_start c ring empty) admissible run
  obtain ⟨v, rep⟩ := kept.rep
  refine ⟨rep.sound, ?_, ?_, ?_⟩
  · intro bcs ok
    obtain ⟨heads, r', v', run, -⟩ := rep.post ring ok.1 ok.2
    simp only [Sys.step, run, Option.bind_eq_bind, Option.bind_some, Option.isSome_some]
  · intro stuck
    rcases rep.poll ring with ⟨-, fails⟩ | ⟨s₁, -, run, -⟩
    · rw [rep.order, List.drop_left]
      exact fails
    · rw [stuck] at run
      cases run
  · intro small s' next
    rcases rep.poll ring with ⟨stuck, -⟩ | ⟨s₁, v₁, run, rep₁, rest, -⟩
    · rw [stuck] at next
      cases next
    · obtain rfl : s₁ = s' := Option.some.inj (run.symm.trans next)
      have count := rep.heads_le
      have total := rep.length_le
      have all : v.returned.length % 2 ^ 16 = v.returned.length := Nat.mod_eq_of_lt (by omega)
      rw [all, List.drop_length] at rest
      rw [rep₁.order, rest, List.append_nil]

/-- The first packet of a receive ring: a buffer is posted, filled and delivered. -/
theorem ring_sound_rx :
    ∃ s, exec (Sys.step (rxq 12)) (Sys.start 4 ⟨0, [], []⟩)
        [.wait 1, .post [⟨4096, 4096, true⟩], .take, .giveBack 0 ⟨72, 1⟩, .poll] = some s ∧
      Sound s ∧
      (∀ bcs, s.Admissible (rxq 12) (.post bcs) → (s.step (rxq 12) (.post bcs)).isSome) ∧
      (s.step (rxq 12) .poll = none → (rxq 12).Fails (inFlight s.log) s.completion
        ((returns s.log).drop (deliveries s.log).length)) ∧
      (4 < 2 ^ 16 → ∀ s', s.step (rxq 12) .poll = some s' →
        deliveries s'.log = returns s'.log) := by
  have run : exec (Sys.step (rxq 12)) (Sys.start 4 ⟨0, [], []⟩)
      [.wait 1, .post [⟨4096, 4096, true⟩], .take, .giveBack 0 ⟨72, 1⟩, .poll] = some _ :=
    (Option.some_get (by decide)).symm
  exact ⟨_, run, ring_sound (rxq 12) ⟨2, by decide, rfl⟩ rfl (by decide) run⟩

/-- A ring of 2^17 descriptors has no free list to begin with: no 16-bit link leads
to the upper half. -/
theorem setup_beyond_links :
    exec (Sys.step (rxq 12)) (Sys.start (2 ^ 17) ⟨0, [], []⟩) [] =
        some (Sys.start (2 ^ 17) ⟨0, [], []⟩) ∧
      ¬ Sound (Sys.start (2 ^ 17) ⟨0, [], []⟩ : Sys Buffer Rxq) := by
  refine ⟨rfl, ?_⟩
  intro sound
  obtain ⟨free, list, partition, -⟩ := sound.partition
  have nothing : (inFlight (Sys.start (2 ^ 17) ⟨0, [], []⟩ : Sys Buffer Rxq).log) = [] := rfl
  rw [nothing, List.flatMap_nil, List.append_nil] at partition
  have last : 2 ^ 17 - 1 ∈ free := partition.mem_iff.mpr (List.mem_range.mpr (Nat.sub_one_lt (by decide)))
  cases free with
  | nil => exact absurd last List.not_mem_nil
  | cons first others =>
      have head : some 0 = some first := list.head
      rcases List.mem_cons.mp last with is_first | later
      · rw [← is_first] at head
        exact absurd (Option.some.inj head) (by decide)
      · obtain ⟨i, link⟩ := threaded_tail list.threaded _ later
        have small := ((Sys.start (2 ^ 17) ⟨0, [], []⟩ : Sys Buffer Rxq).ring.descs i).next.isLt
        change Vring.nexts _ i < 2 ^ 16 at small
        rw [link] at small
        exact absurd small (by decide)

end ActorNet.Virtio
