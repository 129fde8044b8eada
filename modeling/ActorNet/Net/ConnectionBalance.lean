import Mathlib.Algebra.BigOperators.Group.Finset.Piecewise
import ActorNet.Lib.LeastLoaded
import ActorNet.Net.AcceptRendezvous

/-!
# How evenly connections are distributed

A load of the balancer is the number of the handles for a shard that live, and of the
reports of dropped ones on their way. Whatever happens to the connections, the number
only falls, except when the balancer picks the shard; and it picks one of least load.
So no shard ever has more than its share of the most connections that there were at one
time.
-/

namespace ActorNet.Net.PosixStack

open Lib

variable {A : Type}

/-! ## The least element -/

/-- `std::min_element` finds a place whose element is least. -/
theorem minElementFrom_spec (rest pre : List (BitVec 32)) (best : Nat) (least : BitVec 32)
    (here : pre[best]? = some least) (below : ∀ x ∈ pre, least ≤ x) :
    ∃ m, (pre ++ rest)[minElementFrom best pre.length least rest]? = some m ∧
      ∀ x ∈ pre ++ rest, m ≤ x := by
  induction rest generalizing pre best least with
  | nil => exact ⟨least, by simpa [minElementFrom] using here, by simpa using below⟩
  | cons load rest ih =>
      have shifted : pre ++ load :: rest = (pre ++ [load]) ++ rest := by simp
      have longer : pre.length + 1 = (pre ++ [load]).length := by simp
      rw [minElementFrom, shifted, longer]
      split
      · rename_i less
        refine ih (pre ++ [load]) pre.length load (by simp) fun x mem => ?_
        rcases List.mem_append.mp mem with old | new
        · exact BitVec.le_trans (BitVec.le_of_lt less) (below x old)
        · rw [List.mem_singleton.mp new]
          exact BitVec.le_refl _
      · rename_i notLess
        obtain ⟨inside, _⟩ := List.getElem?_eq_some_iff.mp here
        refine ih (pre ++ [load]) best least ?_ fun x mem => ?_
        · rw [List.getElem?_append_left inside]
          exact here
        · rcases List.mem_append.mp mem with old | new
          · exact below x old
          · rw [List.mem_singleton.mp new]
            exact BitVec.not_lt.mp notLess

theorem minElement_spec {loads : List (BitVec 32)} (nonempty : loads ≠ []) :
    ∃ m, loads[minElement loads]? = some m ∧ ∀ x ∈ loads, m ≤ x := by
  cases loads with
  | nil => exact absurd rfl nonempty
  | cons load rest =>
      exact minElementFrom_spec rest [load] 0 load rfl fun x mem => by
        rw [List.mem_singleton.mp mem]
        exact BitVec.le_refl _

/-! ## Handles come and go -/

namespace Shards

/-- How many handles of a kind live, or are reported by what is on its way. -/
def heldBy (p : Handle → Bool) (s : Shards A) : Nat := s.handles.countP p + s.closing.countP p

theorem countP_map_eraseIdx {β : Type} (f : β → Handle) {xs : List β} {i : Nat} {x : β}
    (here : xs[i]? = some x) (p : Handle → Bool) :
    ((xs.eraseIdx i).map f).countP p + [f x].countP p = (xs.map f).countP p := by
  obtain ⟨inside, rfl⟩ := List.getElem?_eq_some_iff.mp here
  have moved := (List.getElem_cons_eraseIdx_perm inside).map f
  rw [← moved.countP_eq p, List.map_cons, List.countP_cons]
  simp only [List.countP_cons, List.countP_nil]
  omega

theorem heldBy_parts (p : Handle → Bool) (s : Shards A) :
    s.heldBy p = (s.moving.map fun x => x.2.handle).countP p +
      (s.connQ.map fun x => x.2.handle).countP p + (s.live.map fun x => x.2.handle).countP p +
        s.closing.countP p := by
  rw [heldBy, handles, List.countP_append, List.countP_append]

variable (p : Handle → Bool) (s : Shards A)

/-- A handle that is dropped is reported, or counted out at once. -/
theorem heldBy_dropHandle (cpu : Nat) (h : Handle) :
    (s.dropHandle cpu h).heldBy p ≤ s.heldBy p + [h].countP p := by
  unfold dropHandle
  split
  · exact Nat.le_add_right _ _
  · simp only [heldBy, List.countP_append, handles]
    omega

theorem heldBy_hand (w : Nat) (slot : Slot A) (c : Connection A) (fails : Bool) :
    (s.hand w slot c fails).heldBy p ≤ s.heldBy p + [c.handle].countP p := by
  unfold hand
  split
  · exact heldBy_dropHandle p _ _ _
  · simp only [heldBy, handles, List.map_append, List.countP_append, List.map_cons, List.map_nil]
    omega

theorem heldBy_dropAll (cpu : Nat) (xs : List (Slot A × Connection A)) (s : Shards A) :
    (xs.foldl (fun s x => s.dropHandle cpu x.2.handle) s).heldBy p ≤
      s.heldBy p + (xs.map fun x => x.2.handle).countP p := by
  induction xs generalizing s with
  | nil => exact Nat.le_refl _
  | cons x xs ih =>
      have first := heldBy_dropHandle p s cpu x.2.handle
      have rest := ih (s.dropHandle cpu x.2.handle)
      rw [List.foldl_cons, List.map_cons, List.countP_cons]
      rw [List.countP_singleton] at first
      omega

/-- A connection that is taken brings one handle, for the shard that is picked; unless
it fails on the listening shard itself, where the handle is gone at once. -/
theorem heldBy_serverAccept {s s' : Shards A} {l port : Nat} {addr : A} {fails : Bool}
    (next : s.serverAccept l port addr fails = some s') :
    ∃ x, s.listeners[l]? = some x ∧ x.pick port < x.cpuLoad.length ∧
      ((∀ p, s'.heldBy p = s.heldBy p) ∨
        ∀ p, s'.heldBy p = s.heldBy p + [(⟨x.hostCpu, x.pick port, l⟩ : Handle)].countP p) := by
  unfold serverAccept at next
  split at next
  · cases next
  · rename_i x here
    dsimp only at next
    split at next
    · cases next
    · rename_i inside
      refine ⟨x, here, Nat.lt_of_not_le inside, ?_⟩
      split at next
      · cases next
        right
        intro p
        simp only [heldBy, handles, List.map_append, List.countP_append, List.map_cons,
          List.map_nil]
        omega
      · rename_i own
        have same : x.hostCpu = x.pick port := (Decidable.not_not.mp own).symm
        split at next
        · cases next
          left
          intro p
          rw [dropHandle, if_pos same]
          rfl
        · cases next
          right
          intro p
          simp only [heldBy, handles, List.map_append, List.countP_append, List.map_cons,
            List.map_nil]
          omega

variable [DecidableEq A]

theorem heldBy_moveConnectedSocket (slot : Slot A) (c : Connection A) (fails : Bool) :
    (s.moveConnectedSocket slot c fails).heldBy p ≤ s.heldBy p + [c.handle].countP p := by
  unfold moveConnectedSocket
  split
  · exact heldBy_hand p _ _ _ _ _
  · split
    · exact heldBy_dropHandle p _ _ _
    · simp only [heldBy, handles, List.map_append, List.countP_append, List.map_cons, List.map_nil]
      omega

theorem heldBy_dropQueued (slot : Slot A) : (s.dropQueued slot).heldBy p ≤ s.heldBy p := by
  unfold dropQueued
  refine Nat.le_trans (heldBy_dropAll p _ _ _) ?_
  have split := List.countP_eq_countP_filter_add s.connQ (fun x => p x.2.handle)
    (fun x => decide (x.1 = slot))
  rw [heldBy_parts, heldBy_parts]
  simp only [List.countP_map, Function.comp_def] at split ⊢
  have negated : (s.connQ.filter fun x => decide (¬x.1 = slot)) =
      s.connQ.filter fun x => !decide (x.1 = slot) := by simp
  rw [negated]
  omega

theorem heldBy_abortAccept (slot : Slot A) : (s.abortAccept slot).heldBy p ≤ s.heldBy p := by
  unfold abortAccept
  dsimp only
  split
  · exact heldBy_dropQueued p s slot
  · exact heldBy_dropQueued p s slot

theorem heldBy_accept {s s' : Shards A} {slot : Slot A} {found : Nat} {fails : Bool}
    (next : s.accept slot found fails = some s') : s'.heldBy p ≤ s.heldBy p := by
  unfold accept at next
  dsimp only at next
  split at next
  · split at next
    · rename_i slot' c here
      split at next
      · cases next
        refine Nat.le_trans (heldBy_hand p _ _ _ _ _) ?_
        have taken := countP_map_eraseIdx (fun x => x.2.handle) here p
        rw [heldBy_parts, heldBy_parts]
        dsimp only at taken ⊢
        omega
      · cases next
    · cases next
  · split at next
    · cases next
    · split at next
      · cases next
        exact Nat.le_refl _
      · cases next
        exact Nat.le_refl _

/-- The step lemma: only a connection that is taken brings a handle. -/
theorem heldBy_step {count : Nat} {s s' : Shards A} {e : Event A}
    (next : s.step count e = some s')
    (other : ∀ l port addr fails, e ≠ .serverAccept l port addr fails) :
    s'.heldBy p ≤ s.heldBy p := by
  cases e with
  | listen hostCpu protocol sa lba fixedCpu =>
      cases next
      exact Nat.le_refl _
  | serverAccept l port addr fails => exact absurd rfl (other l port addr fails)
  | arrive i fails =>
      obtain ⟨x, here, rfl⟩ := Option.map_eq_some_iff.mp next
      refine Nat.le_trans (heldBy_moveConnectedSocket p _ _ _ _) ?_
      have taken := countP_map_eraseIdx (fun x => x.2.handle) here p
      rw [heldBy_parts, heldBy_parts]
      dsimp only at taken ⊢
      omega
  | accept slot found fails => exact heldBy_accept p next
  | abortAccept slot =>
      cases next
      exact heldBy_abortAccept p s slot
  | close i =>
      obtain ⟨x, here, rfl⟩ := Option.map_eq_some_iff.mp next
      refine Nat.le_trans (heldBy_dropHandle p _ _ _) ?_
      have taken := countP_map_eraseIdx (fun x => x.2.handle) here p
      rw [heldBy_parts, heldBy_parts]
      dsimp only at taken ⊢
      omega
  | report i =>
      obtain ⟨h, here, rfl⟩ := Option.map_eq_some_iff.mp next
      have taken := countP_map_eraseIdx id here p
      simp only [List.map_id, id] at taken
      change s.handles.countP p + (s.closing.eraseIdx i).countP p ≤ s.heldBy p
      rw [heldBy]
      omega

/-! ## What stays of a listener -/

/-- How a listener picks shards, and among how many. -/
def shape (s : Shards A) : List (LoadBalancingAlgorithm × Nat) :=
  s.listeners.map fun x => (x.lba, x.cpuLoad.length)

theorem map_modify_same {β γ : Type} {f : β → β} {g : β → γ} (same : ∀ x, g (f x) = g x)
    (xs : List β) (i : Nat) : (xs.modify i f).map g = xs.map g := by
  refine List.ext_getElem? fun j => ?_
  rw [List.getElem?_map, List.getElem?_map, List.getElem?_modify, Option.map_eq_map,
    Option.map_map]
  congr 1
  funext x
  by_cases this : i = j
  · simp [this, same]
  · simp [this]

section Shape

omit [DecidableEq A]

theorem shape_closedCpu (h : Handle) : (s.closedCpu h).shape = s.shape := by
  refine map_modify_same (fun x => ?_) s.listeners h.lb
  simp [ServerSocket.closedCpu]

theorem shape_dropHandle (cpu : Nat) (h : Handle) : (s.dropHandle cpu h).shape = s.shape := by
  unfold dropHandle
  split
  · exact shape_closedCpu s h
  · rfl

theorem shape_hand (w : Nat) (slot : Slot A) (c : Connection A) (fails : Bool) :
    (s.hand w slot c fails).shape = s.shape := by
  unfold hand
  split
  · exact shape_dropHandle _ _ _
  · rfl

theorem shape_dropAll (cpu : Nat) (xs : List (Slot A × Connection A)) (s : Shards A) :
    (xs.foldl (fun s x => s.dropHandle cpu x.2.handle) s).shape = s.shape := by
  induction xs generalizing s with
  | nil => rfl
  | cons x xs ih => exact (ih _).trans (shape_dropHandle s cpu x.2.handle)

theorem shape_serverAccept {s s' : Shards A} {l port : Nat} {addr : A} {fails : Bool}
    (next : s.serverAccept l port addr fails = some s') : s'.shape = s.shape := by
  unfold serverAccept at next
  split at next
  · cases next
  · rename_i x here
    dsimp only at next
    have set : (s.listeners.set l (x.forceCpu (x.pick port))).map
        (fun x => (x.lba, x.cpuLoad.length)) = s.shape := by
      refine List.ext_getElem? fun j => ?_
      rw [shape, List.map_set]
      by_cases this : l = j
      · rw [← this, List.getElem?_set_self', List.getElem?_map, here]
        simp [ServerSocket.forceCpu]
      · rw [List.getElem?_set_ne this]
    split at next
    · cases next
    · split at next
      · cases next
        exact set
      · split at next
        · cases next
          exact (shape_dropHandle _ _ _).trans set
        · cases next
          exact set

end Shape

theorem shape_moveConnectedSocket (slot : Slot A) (c : Connection A) (fails : Bool) :
    (s.moveConnectedSocket slot c fails).shape = s.shape := by
  unfold moveConnectedSocket
  split
  · exact shape_hand _ _ _ _ _
  · split
    · exact shape_dropHandle _ _ _
    · rfl

theorem shape_accept {s s' : Shards A} {slot : Slot A} {found : Nat} {fails : Bool}
    (next : s.accept slot found fails = some s') : s'.shape = s.shape := by
  unfold accept at next
  dsimp only at next
  split at next
  · split at next
    · split at next
      · cases next
        exact shape_hand _ _ _ _ _
      · cases next
    · cases next
  · split at next
    · cases next
    · split at next
      · cases next
        rfl
      · cases next
        rfl

theorem shape_abortAccept (slot : Slot A) : (s.abortAccept slot).shape = s.shape := by
  have dropped : (s.dropQueued slot).shape = s.shape := shape_dropAll _ _ _
  unfold abortAccept
  dsimp only
  split
  · exact dropped
  · exact dropped

/-- Listeners are only added. -/
theorem shape_step {count : Nat} {s s' : Shards A} {e : Event A}
    (next : s.step count e = some s') :
    s'.shape = s.shape ∨ ∃ lba, s'.shape = s.shape ++ [(lba, count)] ∧
      ∀ p, s'.heldBy p = s.heldBy p := by
  cases e with
  | listen hostCpu protocol sa lba fixedCpu =>
      cases next
      exact .inr ⟨lba, by simp [listen, shape], fun _ => rfl⟩
  | serverAccept l port addr fails => exact .inl (shape_serverAccept next)
  | arrive i fails =>
      obtain ⟨x, here, rfl⟩ := Option.map_eq_some_iff.mp next
      exact .inl (shape_moveConnectedSocket _ _ _ _)
  | accept slot found fails => exact .inl (shape_accept next)
  | abortAccept slot =>
      cases next
      exact .inl (shape_abortAccept s slot)
  | close i =>
      obtain ⟨x, here, rfl⟩ := Option.map_eq_some_iff.mp next
      exact .inl (shape_dropHandle _ _ _)
  | report i =>
      obtain ⟨h, here, rfl⟩ := Option.map_eq_some_iff.mp next
      exact .inl (shape_closedCpu _ _)

/-! ## The balance -/

/-- Connections and reports of one listener. -/
def outstanding (l : Nat) (s : Shards A) : Nat := s.heldBy fun h => h.lb == l

/-- Those of one of its shards. -/
def load (l : Nat) (s : Shards A) (cpu : Nat) : Nat := s.heldBy (Handle.of l cpu)

/-- The loads of the shards are parts of what is outstanding. -/
theorem sum_countP_le (l n : Nat) (hs : List Handle) :
    ∑ cpu ∈ Finset.range n, hs.countP (Handle.of l cpu) ≤ hs.countP fun h => h.lb == l := by
  induction hs with
  | nil => simp
  | cons h hs ih =>
      have one : ∑ cpu ∈ Finset.range n, (if Handle.of l cpu h = true then 1 else 0) ≤
          if (h.lb == l) = true then 1 else 0 := by
        by_cases mine : h.lb = l
        · simp only [Handle.of, mine, beq_self_eq_true, Bool.true_and, beq_iff_eq,
            Finset.sum_ite_eq, if_true]
          split
          · exact Nat.le_refl 1
          · exact Nat.zero_le 1
        · simp [Handle.of, mine]
      simp only [List.countP_cons, Finset.sum_add_distrib]
      exact Nat.add_le_add ih one

omit [DecidableEq A] in
theorem sum_load_le (l n : Nat) (s : Shards A) :
    ∑ cpu ∈ Finset.range n, s.load l cpu ≤ s.outstanding l := by
  unfold load outstanding heldBy
  rw [Finset.sum_add_distrib]
  exact Nat.add_le_add (sum_countP_le l n s.handles) (sum_countP_le l n s.closing)

omit [DecidableEq A] in
/-- A connection of listener `l` is given to a shard of least load. The counters are
the loads as long as these fit. -/
theorem pick_least {s : Shards A} {l port : Nat} {x : ServerSocket A} (counted : s.Counted)
    (here : s.listeners[l]? = some x) (lba : x.lba = .connectionDistribution)
    (fits : ∀ cpu < x.cpuLoad.length, s.load l cpu < 2 ^ 32)
    (inside : x.pick port < x.cpuLoad.length) :
    ∀ cpu < x.cpuLoad.length, s.load l (x.pick port) ≤ s.load l cpu := by
  intro cpu below
  have nonempty : x.cpuLoad ≠ [] := by
    intro nil
    rw [nil] at inside
    exact absurd inside (Nat.not_lt_zero _)
  have picked : x.pick port = minElement x.cpuLoad := by rw [ServerSocket.pick, lba]
  obtain ⟨least, there, all⟩ := minElement_spec nonempty
  rw [← picked] at there
  have mine := counted l x here _ _ there
  have other := counted l x here cpu x.cpuLoad[cpu] (List.getElem?_eq_getElem below)
  have le := BitVec.le_def.mp (all x.cpuLoad[cpu] (List.getElem_mem below))
  rw [mine, other, BitVec.toNat_ofNat, BitVec.toNat_ofNat] at le
  have small := fits _ inside
  have small' := fits cpu below
  rw [load, heldBy] at small small'
  rwa [Nat.mod_eq_of_lt small, Nat.mod_eq_of_lt small'] at le

/-- What holds of listener `l` in every state of a run with a peak. -/
structure Even (count peak l : Nat) (s : Shards A) : Prop where
  orderly : s.Orderly []
  fair : ∀ n, s.shape[l]? = some (.connectionDistribution, n) →
    n = count ∧ Fair count peak (s.load l)

/-- A load within its fair share is no more than the peak. -/
theorem fair_le {n peak : Nat} {f : Nat → Nat} (fair : Fair n peak f) {i : Nat}
    (inside : i < n) : f i ≤ peak := by
  have bound := fair i inside
  by_contra more
  have least : n * (peak + 1) ≤ n * f i := Nat.mul_le_mul_left n (by omega)
  have grown : peak ≤ n * peak := Nat.le_mul_of_pos_left peak (by omega)
  rw [Nat.mul_add, Nat.mul_one] at least
  omega

theorem Even.step {count peak l : Nat} (small : peak < 2 ^ 32) {s s' : Shards A} {e : Event A}
    (even : s.Even count peak l) (bounded : s'.outstanding l ≤ peak)
    (next : s.step count e = some s') : s'.Even count peak l := by
  refine ⟨even.orderly.step next, fun n kind => ?_⟩
  rcases shape_step next with same | ⟨lba, added, handles⟩
  · rw [same] at kind
    obtain ⟨rfl, fair⟩ := even.fair n kind
    refine ⟨rfl, Balancing.fair ?_ (Nat.le_trans (sum_load_le l n s') bounded) fair⟩
    have falls (other : ∀ k port addr fails, e ≠ .serverAccept k port addr fails) :
        Balancing n (s.load l) (s'.load l) :=
      .falls fun cpu _ => heldBy_step _ next other
    cases e with
    | serverAccept k port addr fails =>
        obtain ⟨x, here, inside, same | more⟩ := heldBy_serverAccept next
        · exact .falls fun cpu _ => Nat.le_of_eq (same _)
        · by_cases mine : k = l
          · rw [shape, List.getElem?_map, ← mine, here, Option.map_some, Option.some.injEq,
              Prod.mk.injEq] at kind
            obtain ⟨lba, rfl⟩ := kind
            have fits : ∀ cpu < x.cpuLoad.length, s.load l cpu < 2 ^ 32 := fun cpu below =>
              Nat.lt_of_le_of_lt (fair_le fair below) small
            have least := pick_least even.orderly.counts.all (mine ▸ here) lba fits inside
            refine .rises (x.pick port) inside least ?_ fun cpu _ other => ?_
            · rw [load, more, load]
              simp [Handle.of, mine]
            · rw [load, more, load]
              simp [Handle.of, other.symm]
          · refine .falls fun cpu _ => Nat.le_of_eq ?_
            rw [load, more, load]
            simp [Handle.of, mine]
    | listen => exact falls (by simp)
    | arrive => exact falls (by simp)
    | accept => exact falls (by simp)
    | abortAccept => exact falls (by simp)
    | close => exact falls (by simp)
    | report => exact falls (by simp)
  · rw [added] at kind
    by_cases old : l < s.shape.length
    · rw [List.getElem?_append_left old] at kind
      obtain ⟨rfl, fair⟩ := even.fair n kind
      exact ⟨rfl, fun cpu below => by rw [load, handles]; exact fair cpu below⟩
    · -- The listener is new: no handle can be its own.
      have nobody (cpu : Nat) : s'.load l cpu = 0 := by
        have none (hs : List Handle) (sub : ∀ h ∈ hs, h ∈ s.handles ++ s.closing) :
            hs.countP (Handle.of l cpu) = 0 := by
          refine List.countP_eq_zero.mpr fun h mem mine => ?_
          have known := even.orderly.counts.known h (sub h mem)
          have here : h.lb = l := by simpa using (Bool.and_eq_true_iff.mp mine).1
          rw [shape, List.length_map] at old
          omega
        rw [load, handles, heldBy, none s.handles fun h mem => List.mem_append_left _ mem,
          none s.closing fun h mem => List.mem_append_right _ mem]
      rw [List.getElem?_append_right (Nat.le_of_not_lt old), List.getElem?_singleton] at kind
      split at kind
      · simp only [Option.some.injEq, Prod.mk.injEq] at kind
        exact ⟨kind.2.symm, fair_zero fun cpu _ => nobody cpu⟩
      · cases kind

/-- In every run, for a listener that distributes connections: if there were never more
than `peak` of its connections and reports at one time, no shard ever has more than
its share of `peak`, rounded up, whatever connections were closed, dropped, aborted or
moved in between. -/
theorem evenly_distributed (count peak l : Nat) (es : List (Event A)) (s : Shards A)
    (small : peak < 2 ^ 32) (run : exec (step count) ({} : Shards A) es = some s)
    (bounded : Always (step count) (fun s => s.outstanding l ≤ peak) ({} : Shards A) es)
    (x : ServerSocket A) (here : s.listeners[l]? = some x)
    (lba : x.lba = .connectionDistribution) (cpu : Nat) (inside : cpu < count) :
    count * s.load l cpu < peak + count ∧
      x.cpuLoad[cpu]? = some (BitVec.ofNat 32 (s.load l cpu)) ∧ s.load l cpu < 2 ^ 32 := by
  have begun : ({} : Shards A).Even count peak l := by
    refine ⟨⟨⟨List.Perm.refl _, by simp⟩, ⟨by simp, by simp, by simp, by simp, by simp⟩,
      ⟨by simp, by simp [handles]⟩⟩, by simp [shape]⟩
  have even := Always.invariant (I := fun s => s.Even count peak l)
    (fun _ _ _ even bounded next => even.step small bounded next) begun bounded run
  have kind : s.shape[l]? = some (.connectionDistribution, x.cpuLoad.length) := by
    rw [shape, List.getElem?_map, here, Option.map_some, lba]
  obtain ⟨length, fair⟩ := even.fair _ kind
  have fits : s.load l cpu < 2 ^ 32 := Nat.lt_of_le_of_lt (fair_le fair inside) small
  have there : x.cpuLoad[cpu]? = some x.cpuLoad[cpu] := List.getElem?_eq_getElem (length ▸ inside)
  refine ⟨fair cpu inside, ?_, fits⟩
  rw [there, even.orderly.counts.all l x here cpu _ there]
  rfl

/-- Three connections for two shards, of which one is closed in between. -/
def shared : List (Event Nat) :=
  [.listen 0 6 80 .connectionDistribution 0, .serverAccept 0 1000 9 false,
    .serverAccept 0 1001 9 false, .close 0, .serverAccept 0 1002 9 false]

theorem evenly_distributed_two : ∃ s x, exec (step 2) ({} : Shards Nat) shared = some s ∧
    s.listeners[0]? = some x ∧ 2 * s.load 0 0 < 2 + 2 ∧ x.cpuLoad = [1, 1] := by
  refine ⟨_, _, rfl, rfl, ?_, rfl⟩
  exact (evenly_distributed 2 2 0 shared _ (by decide) rfl (by decide) _ rfl rfl 0 (by decide)).1

end Shards

end ActorNet.Net.PosixStack
