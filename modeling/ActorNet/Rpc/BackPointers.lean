import Mathlib.Data.List.Nodup
import ActorNet.Rpc.OutgoingQueue

/-!
# When the pointers between entries and cancellables agree

Both ends of a pair may be moved or destroyed. An entry that is erased clears its
cancellable, and a cancellable that is moved writes its new address into the
entry; but the entry that the send loop moves out of the queue tells nobody, and
the back pointer is left with the node that was freed. The runs whose pointers
agree in every state are the runs without such a step and without the other way
to lose a pointer, a cancellable that dies while an entry it no longer cancels
points to it.
-/

namespace ActorNet.Rpc.OutgoingQueue

open Lib

namespace Connection

/-! ## The property -/

/-- The entry in flight. -/
def inFlight (s : Connection) : Option OutgoingEntry :=
  match s.loop with
  | .sending d => some d
  | _ => none

/-- The entries that live: those of the queue, and the one in flight. -/
def Live (s : Connection) (o : OutgoingEntry) : Prop :=
  (∃ a ∈ s.queue, s.node a = o) ∨ s.inFlight = some o

/-- Pointers lead to what is alive, the back pointers to fields that point back. -/
structure Consistent (s : Connection) : Prop where
  back : ∀ c x a, s.cancellable c = some x → x.sendBackPointer = some a →
    a ∈ s.queue ∧ (s.node a).pcancel = some c
  alive : ∀ o c, s.Live o → o.pcancel = some c → (s.cancellable c).isSome
  cancels : ∀ c x a, s.cancellable c = some x → x.cancelSend = some a → a ∈ s.queue
  fires : ∀ o a, s.Live o → o.t = some a → a ∈ s.queue
  inside : s.strayed = false

/-- What a step must not do: the send loop takes no entry that a back pointer
leads to, and no cancellable dies while an entry points to it that its
`cancel_send` does not erase. -/
def Keeps (s : Connection) : Event → Prop
  | .takeFront => ∀ a ∈ s.queue.head?, ∀ c ∈ (s.node a).pcancel, ∀ x ∈ s.cancellable c,
      x.sendBackPointer ≠ some a
  | .destroy c => ∀ x ∈ s.cancellable c,
      (∀ a ∈ s.queue, (s.node a).pcancel = some c → x.cancelSend = some a) ∧
      ∀ d ∈ s.inFlight, d.pcancel ≠ some c
  | _ => True

instance (s : Connection) (e : Event) : Decidable (s.Keeps e) := by
  cases e <;> unfold Keeps <;> infer_instance

/-- The invariant: a node is queued once and only its own timer erases it, live
entries have their promise, and `cancel_send` is set only beside the back pointer
to its node. -/
structure Sound (s : Connection) : Prop where
  back : ∀ c x a, s.cancellable c = some x → x.sendBackPointer = some a →
    a ∈ s.queue ∧ (s.node a).pcancel = some c
  armed : ∀ c x a, s.cancellable c = some x → x.cancelSend = some a →
    x.sendBackPointer = some a
  alive : ∀ o c, s.Live o → o.pcancel = some c → (s.cancellable c).isSome
  owned : ∀ o, s.Live o → o.p
  nodup : s.queue.Nodup
  own : ∀ a ∈ s.queue, ∀ b, (s.node a).t = some b → b = a
  disarmed : ∀ d, s.inFlight = some d → d.t = none
  inside : s.strayed = false

variable {s : Connection} {a c : Nat} {o : OutgoingEntry} {f : Cancellable → Cancellable}

theorem Sound.consistent (sound : s.Sound) : s.Consistent where
  back := sound.back
  alive := sound.alive
  cancels c x a found cancels := (sound.back c x a found (sound.armed c x a found cancels)).1
  fires := by
    rintro o b (⟨a, queued, rfl⟩ | flying) fires
    · exact sound.own a queued b fires ▸ queued
    · exact absurd (sound.disarmed o flying) (by simp [fires])
  inside := sound.inside

theorem live_of_mem (queued : a ∈ s.queue) : s.Live (s.node a) := .inl ⟨a, queued, rfl⟩

theorem sound_initial : initial.Sound where
  back _ _ _ found := nomatch found
  armed _ _ _ found := nomatch found
  alive := by
    rintro o c (⟨a, queued, _⟩ | flying)
    · exact absurd queued List.not_mem_nil
    · cases flying
  owned := by
    rintro o (⟨a, queued, _⟩ | flying)
    · exact absurd queued List.not_mem_nil
    · cases flying
  nodup := List.nodup_nil
  own _ queued := absurd queued List.not_mem_nil
  disarmed _ flying := nomatch flying
  inside := rfl

/-- The loop makes a step without an entry. -/
theorem Sound.turn {loop : SendLoop} (sound : s.Sound) (idle : ∀ d, loop ≠ .sending d) :
    { s with loop := loop }.Sound := by
  have grounded : ∀ d, { s with loop := loop }.inFlight ≠ some d := by
    cases loop with
    | sending d => exact absurd rfl (idle d)
    | notStarted | checking | waiting | stopped => exact fun d flying => nomatch flying
  exact { sound with
    alive := by
      rintro o c (⟨a, queued, rfl⟩ | flying) points
      · exact sound.alive _ c (live_of_mem queued) points
      · exact absurd flying (grounded o)
    owned := by
      rintro o (⟨a, queued, rfl⟩ | flying)
      · exact sound.owned _ (live_of_mem queued)
      · exact absurd flying (grounded o)
    disarmed := fun d flying => absurd flying (grounded d) }

/-! ## What the writes do -/

theorem store_of_alive {x : Cancellable} (alive : s.cancellable c = some x) :
    s.store c f = { s with cancellable := Function.update s.cancellable c (some (f x)) } := by
  simp only [store, alive]

/-- No write through a pointer changes what is queued, in flight or alive. -/
theorem store_frame (s : Connection) (c : Nat) (f : Cancellable → Cancellable) :
    (s.store c f).queue = s.queue ∧ (s.store c f).node = s.node ∧
      (s.store c f).loop = s.loop ∧
      ∀ c', ((s.store c f).cancellable c').isSome = (s.cancellable c').isSome := by
  cases found : s.cancellable c with
  | none => simp [store, found]
  | some x =>
      refine ⟨by simp [store, found], by simp [store, found], by simp [store, found], fun c' => ?_⟩
      by_cases same : c' = c
      · simp [store_of_alive found, same, found]
      · simp [store_of_alive found, same]

theorem destroyEntry_frame (s : Connection) (o : OutgoingEntry) :
    (s.destroyEntry o).queue = s.queue ∧ (s.destroyEntry o).node = s.node ∧
      (s.destroyEntry o).loop = s.loop ∧
      ∀ c, ((s.destroyEntry o).cancellable c).isSome = (s.cancellable c).isSome := by
  unfold destroyEntry
  by_cases owned : o.p
  · cases o.pcancel with
    | none => simp [owned]
    | some c => simpa [owned] using s.store_frame c _
  · simp [owned]

/-- Writing `v` to the object an optional pointer leads to. -/
theorem store_all {p : Option Nat} {v : Cancellable}
    (alive : ∀ c, p = some c → (s.cancellable c).isSome) :
    (match p with
      | some c => s.store c fun _ => v
      | none => s) =
    { s with cancellable := fun c => if p = some c then some v else s.cancellable c } := by
  cases p with
  | none => simp
  | some c =>
      obtain ⟨x, found⟩ := Option.isSome_iff_exists.mp (alive c rfl)
      simp only [store_of_alive found]
      congr 1
      funext c'
      by_cases same : c' = c
      · simp [same]
      · simp [same, Ne.symm same]

/-- What is found after such a write. -/
theorem found_written {p : Option Nat} {v x : Cancellable} {g : Nat → Option Cancellable}
    (found : (if p = some c then some v else g c) = some x) :
    (p = some c ∧ x = v) ∨ (p ≠ some c ∧ g c = some x) := by
  by_cases same : p = some c
  · exact .inl ⟨same, by simpa [same] using found.symm⟩
  · exact .inr ⟨same, by simpa [same] using found⟩

/-- An entry that dies leaves its cancellable with neither function nor pointer. -/
theorem destroyEntry_of_alive (owned : o.p)
    (alive : ∀ c, o.pcancel = some c → (s.cancellable c).isSome) :
    s.destroyEntry o = { s with
      cancellable := fun c =>
        if o.pcancel = some c then some ⟨none, none⟩ else s.cancellable c } := by
  simp only [destroyEntry, owned, if_true]
  exact store_all alive

theorem enqueue_of_alive {timeout : Bool} {cancel : Option Nat}
    (alive : ∀ c, cancel = some c → (s.cancellable c).isSome) :
    s.enqueue a timeout cancel = { s with
      queue := s.queue ++ [a]
      node := Function.update s.node a ⟨if timeout then some a else none, true, cancel⟩
      cancellable := fun c =>
        if cancel = some c then some ⟨some a, some a⟩ else s.cancellable c } :=
  store_all (s := { s with queue := s.queue ++ [a], node := Function.update s.node a _ }) alive

/-! ## Entries -/

/-- An entry dies, and what points to it lets go: whatever else lives on is sound. -/
theorem Sound.destroyEntry {s₀ : Connection} (sound : s₀.Sound) (dying : s₀.Live o)
    (memory : s.node = s₀.node) (objects : s.cancellable = s₀.cancellable)
    (inside : s.strayed = s₀.strayed) (sublist : s.queue.Sublist s₀.queue)
    (flying : ∀ d, s.inFlight = some d → s₀.inFlight = some d)
    (gone : ∀ a ∈ s₀.queue, a ∉ s.queue → s₀.node a = o) : (s.destroyEntry o).Sound := by
  have before : ∀ o', s.Live o' → s₀.Live o' := by
    rintro o' (⟨a, queued, rfl⟩ | inAir)
    · exact memory ▸ live_of_mem (sublist.subset queued)
    · exact .inr (flying o' inAir)
  have alive : ∀ c, o.pcancel = some c → (s.cancellable c).isSome := fun c points =>
    objects ▸ sound.alive o c dying points
  rw [destroyEntry_of_alive (sound.owned o dying) alive]
  constructor
  · intro c x a found points
    rcases found_written found with ⟨_, rfl⟩ | ⟨other, found⟩
    · exact absurd points (by simp)
    · obtain ⟨queued, answered⟩ := sound.back c x a (objects ▸ found) points
      refine ⟨?_, memory ▸ answered⟩
      by_contra out
      exact other (gone a queued out ▸ answered)
  · intro c x a found cancels
    rcases found_written found with ⟨_, rfl⟩ | ⟨_, found⟩
    · exact absurd cancels (by simp)
    · exact sound.armed c x a (objects ▸ found) cancels
  · intro o' c live points
    by_cases same : o.pcancel = some c
    · simp [same]
    · simpa [same, objects] using sound.alive o' c (before o' live) points
  · exact fun o' live => sound.owned o' (before o' live)
  · exact sound.nodup.sublist sublist
  · intro a queued
    exact memory ▸ sound.own a (sublist.subset queued)
  · exact fun d inAir => sound.disarmed d (flying d inAir)
  · exact inside.trans sound.inside

/-- The erase of a queued node. -/
theorem Sound.erase (sound : s.Sound) (queued : a ∈ s.queue) : (s.erase a).Sound := by
  simp only [Connection.erase, queued, if_true]
  refine Sound.destroyEntry sound (live_of_mem queued) rfl rfl rfl
    List.erase_sublist (fun _ flying => flying) ?_
  intro b inside out
  by_contra other
  have different : b ≠ a := fun same => other (same ▸ rfl)
  exact out ((List.mem_erase_of_ne different).mpr inside)

theorem erase_frame (queued : a ∈ s.queue) :
    (s.erase a).queue = s.queue.erase a ∧ (s.erase a).node = s.node ∧
      (s.erase a).loop = s.loop ∧
      ∀ c, ((s.erase a).cancellable c).isSome = (s.cancellable c).isSome := by
  simp only [Connection.erase, queued, if_true]
  exact destroyEntry_frame _ _

/-- A timer that is no longer armed says nothing. -/
theorem Sound.disarm (sound : s.Sound) (a : Nat) :
    { s with node := Function.update s.node a { s.node a with t := none } }.Sound := by
  have same : ∀ b, (Function.update s.node a { s.node a with t := none } b).pcancel =
      (s.node b).pcancel ∧ (Function.update s.node a { s.node a with t := none } b).p =
      (s.node b).p := by
    intro b
    by_cases here : b = a
    · simp [here]
    · simp [here]
  constructor
  · intro c x b found points
    have answered := sound.back c x b found points
    exact ⟨answered.1, (same b).1.trans answered.2⟩
  · exact sound.armed
  · rintro o c (⟨b, inside, rfl⟩ | flying) points
    · exact sound.alive _ c (live_of_mem inside) ((same b).1.symm.trans points)
    · exact sound.alive o c (.inr flying) points
  · rintro o (⟨b, inside, rfl⟩ | flying)
    · exact (same b).2.trans (sound.owned _ (live_of_mem inside))
    · exact sound.owned o (.inr flying)
  · exact sound.nodup
  · intro b inside
    by_cases here : b = a
    · simp [here]
    · simpa [here] using sound.own b inside
  · exact sound.disarmed
  · exact sound.inside

/-- The timer of a queued node fires. -/
theorem Sound.fire {it : Nat} (sound : s.Sound) (queued : a ∈ s.queue)
    (armed : (s.node a).t = some it) : (s.fire a it).Sound := by
  obtain rfl := sound.own a queued it armed
  exact (sound.disarm it).erase queued

/-- Tearing the queue down erases one node after the other. -/
theorem Sound.clear (sound : s.Sound) : s.clear.Sound := by
  unfold Connection.clear
  generalize shape : s.queue = nodes
  induction nodes generalizing s with
  | nil => exact sound
  | cons a nodes ih =>
      have queued : a ∈ s.queue := by simp [shape]
      apply ih (sound.erase queued)
      rw [(erase_frame queued).1, shape, List.erase_cons_head]

/-- A new node at the end of the queue. -/
theorem Sound.enqueue {timeout : Bool} {cancel : Option Nat} (sound : s.Sound)
    (fresh : a ∉ s.queue) (alive : ∀ c, cancel = some c → (s.cancellable c).isSome) :
    (s.enqueue a timeout cancel).Sound := by
  rw [enqueue_of_alive alive]
  generalize made : OutgoingEntry.mk (if timeout then some a else none) true cancel = new
  have elsewhere : ∀ b ∈ s.queue, Function.update s.node a new b = s.node b := by
    intro b queued
    apply Function.update_of_ne
    rintro rfl
    exact fresh queued
  have here : Function.update s.node a new a = new := Function.update_self ..
  constructor
  · intro c x b found points
    rcases found_written found with ⟨given, rfl⟩ | ⟨_, found⟩
    · obtain rfl : a = b := Option.some.inj points
      refine ⟨List.mem_append_right _ (List.mem_singleton_self a), ?_⟩
      show (Function.update s.node a new a).pcancel = some c
      rw [here, ← made, given]
    · obtain ⟨queued, answered⟩ := sound.back c x b found points
      refine ⟨List.mem_append_left _ queued, ?_⟩
      show (Function.update s.node a new b).pcancel = some c
      rw [elsewhere b queued, answered]
  · intro c x b found cancels
    rcases found_written found with ⟨_, rfl⟩ | ⟨_, found⟩
    · exact cancels
    · exact sound.armed c x b found cancels
  · rintro o c live points
    by_cases given : cancel = some c
    · simp [given]
    · simp only [given, if_false]
      rcases live with ⟨b, inside, rfl⟩ | flying
      · rcases List.mem_append.mp inside with queued | last
        · exact sound.alive _ c (live_of_mem queued) (elsewhere b queued ▸ points)
        · obtain rfl := List.mem_singleton.mp last
          refine absurd ?_ given
          rw [← points]
          show cancel = (Function.update s.node b new b).pcancel
          rw [here, ← made]
      · exact sound.alive o c (.inr flying) points
  · rintro o (⟨b, inside, rfl⟩ | flying)
    · rcases List.mem_append.mp inside with queued | last
      · show (Function.update s.node a new b).p
        rw [elsewhere b queued]
        exact sound.owned _ (live_of_mem queued)
      · obtain rfl := List.mem_singleton.mp last
        show (Function.update s.node b new b).p
        rw [here, ← made]
    · exact sound.owned o (.inr flying)
  · rw [List.nodup_append]
    refine ⟨sound.nodup, List.nodup_singleton a, ?_⟩
    rintro b queued _ last rfl
    exact fresh (List.mem_singleton.mp last ▸ queued)
  · intro b inside
    rcases List.mem_append.mp inside with queued | last
    · show ∀ it, (Function.update s.node a new b).t = some it → it = b
      rw [elsewhere b queued]
      exact sound.own b queued
    · obtain rfl := List.mem_singleton.mp last
      show ∀ it, (Function.update s.node b new b).t = some it → it = b
      rw [here, ← made]
      cases timeout
      · simp
      · simp
  · exact sound.disarmed
  · exact sound.inside

theorem Sound.send {timeout : CallTimeout} {cancel : Option Nat} (sound : s.Sound)
    (fresh : a ∉ s.queue) (alive : ∀ c, cancel = some c → (s.cancellable c).isSome) :
    (s.send a timeout cancel).Sound := by
  unfold Connection.send
  by_cases failed : s.error
  · simpa [failed] using sound
  · cases timeout with
    | expired => simpa [failed] using sound
    | none => simpa [failed] using sound.enqueue fresh alive
    | later => simpa [failed] using sound.enqueue fresh alive

/-- What the send loop makes of a queue with a front. -/
theorem takeFront_of_cons {queue : List Nat} (shape : s.queue = a :: queue)
    (alive : ∀ c, (s.node a).pcancel = some c → (s.cancellable c).isSome) :
    s.takeFront = { s with
      queue := queue
      loop := .sending { s.node a with t := none }
      cancellable := fun c =>
        if (s.node a).pcancel = some c then
          (s.cancellable c).map fun x => { x with cancelSend := none }
        else s.cancellable c } := by
  simp only [takeFront, shape, OutgoingEntry.moved, destroyEntry, Bool.false_eq_true, if_false]
  cases points : (s.node a).pcancel with
  | none => simp
  | some c =>
      obtain ⟨x, found⟩ := Option.isSome_iff_exists.mp (alive c points)
      simp only [store_of_alive (s := { s with queue := queue }) found]
      congr 1
      funext c'
      by_cases same : c' = c
      · simp [same, found]
      · simp [same, Ne.symm same]

/-- The send loop takes an entry that no back pointer leads to. -/
theorem Sound.takeFront (sound : s.Sound) (keeps : s.Keeps .takeFront) :
    s.takeFront.Sound := by
  cases shape : s.queue with
  | nil =>
      have idle : s.takeFront = { s with loop := .checking } := by
        simp only [Connection.takeFront, shape]
      rw [idle]
      exact sound.turn fun _ => by simp
  | cons a queue =>
      have front : a ∈ s.queue := by simp [shape]
      have behind : ∀ b ∈ queue, b ∈ s.queue := fun b later => by simp [shape, later]
      have alive := fun c => sound.alive _ c (live_of_mem front)
      have letGo : ∀ c x, s.cancellable c = some x → x.sendBackPointer ≠ some a := by
        intro c x found points
        have answered := (sound.back c x a found points).2
        exact keeps a (by simp [shape]) c answered x found points
      rw [takeFront_of_cons shape alive]
      have was : ∀ c y, (if (s.node a).pcancel = some c then
          (s.cancellable c).map fun x => { x with cancelSend := none }
          else s.cancellable c) = some y →
          ∃ x, s.cancellable c = some x ∧ y.sendBackPointer = x.sendBackPointer ∧
            (y.cancelSend = none ∨ y = x) := by
        intro c y found
        by_cases points : (s.node a).pcancel = some c
        · simp only [points, if_true, Option.map_eq_some_iff] at found
          obtain ⟨x, found, rfl⟩ := found
          exact ⟨x, found, rfl, .inl rfl⟩
        · simp only [points, if_false] at found
          exact ⟨y, found, rfl, .inr rfl⟩
      constructor
      · intro c y b found points
        obtain ⟨x, before, same, _⟩ := was c y found
        obtain ⟨queued, answered⟩ := sound.back c x b before (same ▸ points)
        refine ⟨?_, answered⟩
        rcases List.mem_cons.mp (shape ▸ queued) with rfl | later
        · exact absurd (same ▸ points) (letGo c x before)
        · exact later
      · intro c y b found cancels
        obtain ⟨x, found, same, cleared | rfl⟩ := was c y found
        · exact absurd cancels (by simp [cleared])
        · exact sound.armed c y b found cancels
      · intro o c live points
        have aliveBefore : (s.cancellable c).isSome := by
          rcases live with ⟨b, later, rfl⟩ | flying
          · exact sound.alive _ c (live_of_mem (behind b later)) points
          · cases flying
            exact alive c points
        by_cases same : (s.node a).pcancel = some c
        · simpa [same] using aliveBefore
        · simpa [same] using aliveBefore
      · rintro o (⟨b, later, rfl⟩ | flying)
        · exact sound.owned _ (live_of_mem (behind b later))
        · cases flying
          exact sound.owned (s.node a) (live_of_mem front)
      · exact (List.nodup_cons.mp (shape ▸ sound.nodup)).2
      · exact fun b later => sound.own b (behind b later)
      · intro d flying
        cases flying
        rfl
      · exact sound.inside

/-- The entry in flight dies when it is written, or when writing it fails. -/
theorem Sound.land {d : OutgoingEntry} (sound : s.Sound) (flying : s.inFlight = some d)
    {loop : SendLoop} (landed : ∀ d, loop ≠ .sending d) (error : Bool) :
    ({ s with loop := loop, error := error }.destroyEntry d).Sound := by
  refine Sound.destroyEntry sound (.inr flying) rfl rfl rfl
    (List.Sublist.refl _) ?_ (fun a queued out => absurd queued out)
  intro d' still
  cases loop with
  | sending d => exact absurd rfl (landed d)
  | notStarted | checking | waiting | stopped => cases still

/-! ## Cancellables -/

theorem Sound.cancel (sound : s.Sound) (c : Nat) : (s.cancel c).Sound := by
  unfold Connection.cancel
  cases set : (s.cancellable c).bind Cancellable.cancelSend with
  | none => exact sound
  | some a =>
      obtain ⟨x, found, cancels⟩ := Option.bind_eq_some_iff.mp set
      exact sound.erase (sound.back c x a found (sound.armed c x a found cancels)).1

/-- An object that nothing points to may die. -/
theorem Sound.bury (sound : s.Sound) (free : ∀ o, s.Live o → o.pcancel ≠ some c) :
    { s with cancellable := Function.update s.cancellable c none }.Sound := by
  have was : ∀ c' x, Function.update s.cancellable c none c' = some x →
      s.cancellable c' = some x := by
    intro c' x found
    by_cases same : c' = c
    · simp [same] at found
    · simpa [same] using found
  exact { sound with
    back := fun c' x a found => sound.back c' x a (was c' x found)
    armed := fun c' x a found => sound.armed c' x a (was c' x found)
    alive := by
      intro o c' live points
      have other : c' ≠ c := fun same => free o live (same ▸ points)
      simpa [other] using sound.alive o c' live points }

/-- What a cancellable's own cancel leaves pointing to it, when it may be destroyed. -/
theorem Sound.free_of_keeps (sound : s.Sound) (alive : (s.cancellable c).isSome)
    (keeps : s.Keeps (.destroy c)) : ∀ o, (s.cancel c).Live o → o.pcancel ≠ some c := by
  obtain ⟨x, found⟩ := Option.isSome_iff_exists.mp alive
  obtain ⟨queued, flying⟩ := keeps x found
  unfold Connection.cancel
  simp only [found, Option.bind_some]
  cases set : x.cancelSend with
  | none =>
      rintro o (⟨b, inside, rfl⟩ | inAir) points
      · exact absurd (queued b inside points) (by simp [set])
      · exact flying o inAir points
  | some a =>
      have inside : a ∈ s.queue := (sound.back c x a found (sound.armed c x a found set)).1
      obtain ⟨row, memory, loop, _⟩ := erase_frame inside
      rintro o (⟨b, left, rfl⟩ | inAir) points
      · rw [row, sound.nodup.mem_erase_iff] at left
        rw [memory] at points
        exact left.1 (Option.some.inj (set ▸ queued b left.2 points)).symm
      · exact flying o (by simpa [inFlight, loop] using inAir) points

theorem Sound.destroy (sound : s.Sound) (alive : (s.cancellable c).isSome)
    (keeps : s.Keeps (.destroy c)) : (s.destroy c).Sound :=
  (sound.cancel c).bury (sound.free_of_keeps alive keeps)

theorem cancel_isSome (sound : s.Sound) (c c' : Nat) :
    ((s.cancel c).cancellable c').isSome = (s.cancellable c').isSome := by
  unfold Connection.cancel
  cases set : (s.cancellable c).bind Cancellable.cancelSend with
  | none => rfl
  | some a =>
      obtain ⟨x, found, cancels⟩ := Option.bind_eq_some_iff.mp set
      have inside := (sound.back c x a found (sound.armed c x a found cancels)).1
      exact (erase_frame inside).2.2.2 c'

/-- A cancellable moves with the pointer to it. Nothing is asked of what `target`
held before. -/
theorem Sound.move {target source : Nat} (sound : s.Sound) (apart : target ≠ source)
    (alive : (s.cancellable source).isSome) : (s.move target source).Sound := by
  obtain ⟨x, found⟩ := Option.isSome_iff_exists.mp alive
  have was : ∀ c y, Function.update (Function.update s.cancellable source
      (some ⟨none, none⟩)) target (some x) c = some y →
      (c = target ∧ y = x) ∨ (c = source ∧ y = ⟨none, none⟩) ∨
        (c ≠ source ∧ s.cancellable c = some y) := by
    intro c y found
    by_cases moved : c = target
    · exact .inl ⟨moved, by simpa [moved] using found.symm⟩
    · by_cases vacated : c = source
      · refine .inr (.inl ⟨vacated, ?_⟩)
        simpa [moved, vacated, apart.symm] using found.symm
      · exact .inr (.inr ⟨vacated, by simpa [moved, vacated] using found⟩)
  have lives : ∀ c, (s.cancellable c).isSome → (Function.update (Function.update
      s.cancellable source (some ⟨none, none⟩)) target (some x) c).isSome := by
    intro c before
    by_cases moved : c = target
    · simp [moved]
    · by_cases vacated : c = source
      · simp [vacated, apart.symm]
      · simpa [moved, vacated] using before
  simp only [Connection.move, found]
  cases points : x.sendBackPointer with
  | none =>
      exact { sound with
        back := by
          intro c y a now back
          rcases was c y now with ⟨_, rfl⟩ | ⟨_, rfl⟩ | ⟨_, before⟩
          · exact absurd back (by simp [points])
          · exact absurd back (by simp)
          · exact sound.back c y a before back
        armed := by
          intro c y a now cancels
          rcases was c y now with ⟨_, rfl⟩ | ⟨_, rfl⟩ | ⟨_, before⟩
          · exact sound.armed source y a found cancels
          · exact absurd cancels (by simp)
          · exact sound.armed c y a before cancels
        alive := fun o c live leads => lives c (sound.alive o c live leads) }
  | some a =>
      obtain ⟨queued, answered⟩ := sound.back source x a found points
      simp only [storePcancel, queued, if_true]
      have fields : ∀ b, (Function.update s.node a { s.node a with pcancel := some target } b).t
          = (s.node b).t ∧
          (Function.update s.node a { s.node a with pcancel := some target } b).p
          = (s.node b).p := by
        intro b
        by_cases here : b = a
        · simp [here]
        · simp [here]
      constructor
      · intro c y b now back
        rcases was c y now with ⟨rfl, rfl⟩ | ⟨_, rfl⟩ | ⟨other, before⟩
        · obtain rfl : a = b := Option.some.inj (points.symm.trans back)
          exact ⟨queued, by simp⟩
        · exact absurd back (by simp)
        · obtain ⟨inside, leads⟩ := sound.back c y b before back
          have elsewhere : b ≠ a := by
            rintro rfl
            exact other (Option.some.inj (leads.symm.trans answered))
          exact ⟨inside, by simpa [elsewhere] using leads⟩
      · intro c y b now cancels
        rcases was c y now with ⟨_, rfl⟩ | ⟨_, rfl⟩ | ⟨_, before⟩
        · exact sound.armed source y b found cancels
        · exact absurd cancels (by simp)
        · exact sound.armed c y b before cancels
      · rintro o c (⟨b, inside, rfl⟩ | flying) leads
        · by_cases here : b = a
          · obtain rfl : target = c := by simpa [here] using leads
            simp
          · refine lives c (sound.alive _ c (live_of_mem inside) ?_)
            simpa [here] using leads
        · exact lives c (sound.alive o c (.inr flying) leads)
      · rintro o (⟨b, inside, rfl⟩ | flying)
        · exact (fields b).2.trans (sound.owned _ (live_of_mem inside))
        · exact sound.owned o (.inr flying)
      · exact sound.nodup
      · exact fun b inside it armed => sound.own b inside it ((fields b).1.symm.trans armed)
      · exact sound.disarmed
      · exact sound.inside

/-- An assignment cancels what the target was, and moves over it. -/
theorem Sound.assign {target source : Nat} (sound : s.Sound)
    (alive : (s.cancellable source).isSome) : (s.assign target source).Sound := by
  unfold Connection.assign
  by_cases same : target = source
  · simpa [same] using sound
  · rw [if_neg same]
    have still : ((s.cancel target).cancellable source).isSome := by
      rwa [cancel_isSome sound]
    obtain ⟨x, found⟩ := Option.isSome_iff_exists.mp still
    have overwritten : (s.destroy target).move target source =
        (s.cancel target).move target source := by
      have unburied : Function.update (s.cancel target).cancellable target none source =
          some x := by simpa [Ne.symm same] using found
      have again : ∀ v w, Function.update (Function.update (Function.update
          (s.cancel target).cancellable target none) source v) target w =
          Function.update (Function.update (s.cancel target).cancellable source v) target w := by
        intro v w
        rw [Function.update_comm same, Function.update_idem,
          Function.update_comm (Ne.symm same)]
      simp only [Connection.move, Connection.destroy, found, unburied, again]
    rw [overwritten]
    exact (sound.cancel target).move same still

/-! ## Runs -/

/-- One step: where it keeps the pointers, the invariant is kept. -/
theorem Sound.step {e : Event} {s' : Connection} (sound : s.Sound) (keeps : s.Keeps e)
    (next : s.step e = some s') : s'.Sound := by
  cases e with
  | construct c =>
      simp only [Connection.step, Option.isNone_iff_eq_none, Option.ite_none_right_eq_some,
        Option.some.injEq] at next
      obtain ⟨free, rfl⟩ := next
      have was : ∀ c' x, Function.update s.cancellable c (some ⟨none, none⟩) c' = some x →
          x = ⟨none, none⟩ ∨ s.cancellable c' = some x := by
        intro c' x found
        by_cases same : c' = c
        · exact .inl (by simpa [same] using found.symm)
        · exact .inr (by simpa [same] using found)
      exact { sound with
        back := by
          intro c' x a found points
          rcases was c' x found with rfl | before
          · exact absurd points (by simp)
          · exact sound.back c' x a before points
        armed := by
          intro c' x a found cancels
          rcases was c' x found with rfl | before
          · exact absurd cancels (by simp)
          · exact sound.armed c' x a before cancels
        alive := by
          intro o c' live leads
          by_cases same : c' = c
          · simp [same]
          · simpa [same] using sound.alive o c' live leads }
  | send a timeout cancel =>
      simp only [Connection.step, Option.ite_none_right_eq_some, Option.some.injEq] at next
      obtain ⟨⟨fresh, alive⟩, rfl⟩ := next
      exact sound.send fresh alive
  | timer a =>
      simp only [Connection.step, Option.ite_none_right_eq_some, Option.map_eq_some_iff] at next
      obtain ⟨queued, it, armed, rfl⟩ := next
      exact sound.fire queued armed
  | startLoop =>
      simp only [Connection.step, Option.ite_none_right_eq_some, Option.some.injEq] at next
      obtain ⟨_, rfl⟩ := next
      exact sound.turn fun _ => by simp
  | checkError =>
      simp only [Connection.step, Option.ite_none_right_eq_some, Option.some.injEq] at next
      obtain ⟨_, rfl⟩ := next
      apply sound.turn
      intro d
      cases s.error <;> simp
  | broken =>
      simp only [Connection.step, Option.ite_none_right_eq_some, Option.some.injEq] at next
      obtain ⟨_, rfl⟩ := next
      exact sound.turn fun _ => by simp
  | takeFront =>
      simp only [Connection.step, Option.ite_none_right_eq_some, Option.some.injEq] at next
      obtain ⟨_, rfl⟩ := next
      exact sound.takeFront keeps
  | flushed =>
      cases loop : s.loop with
      | sending d =>
          have flying : s.inFlight = some d := by simp only [inFlight, loop]
          simp only [Connection.step, loop, Option.some.injEq] at next
          exact next ▸ sound.land flying (fun _ => by simp) s.error
      | notStarted | checking | waiting | stopped => simp [Connection.step, loop] at next
  | flushFailed =>
      cases loop : s.loop with
      | sending d =>
          have flying : s.inFlight = some d := by simp only [inFlight, loop]
          simp only [Connection.step, loop, Option.some.injEq] at next
          exact next ▸ sound.land flying (fun _ => by simp) true
      | notStarted | checking | waiting | stopped => simp [Connection.step, loop] at next
  | cancel c =>
      simp only [Connection.step, Option.ite_none_right_eq_some, Option.some.injEq] at next
      obtain ⟨_, rfl⟩ := next
      exact sound.cancel c
  | move target source =>
      simp only [Connection.step, Option.isNone_iff_eq_none, Option.ite_none_right_eq_some,
        Option.some.injEq] at next
      obtain ⟨⟨free, alive⟩, rfl⟩ := next
      refine sound.move ?_ alive
      rintro rfl
      simp [free] at alive
  | assign target source =>
      simp only [Connection.step, Option.ite_none_right_eq_some, Option.some.injEq] at next
      obtain ⟨⟨_, alive⟩, rfl⟩ := next
      exact sound.assign alive
  | destroy c =>
      simp only [Connection.step, Option.ite_none_right_eq_some, Option.some.injEq] at next
      obtain ⟨alive, rfl⟩ := next
      exact sound.destroy alive keeps
  | abort =>
      obtain rfl := Option.some.inj next
      exact { sound with }
  | clear =>
      simp only [Connection.step, Option.ite_none_right_eq_some, Option.some.injEq] at next
      obtain ⟨_, rfl⟩ := next
      exact sound.clear

/-- A step that does not keep the pointers shows at once. -/
theorem Sound.keeps_of_consistent {e : Event} {s' : Connection} (sound : s.Sound)
    (next : s.step e = some s') (after : s'.Consistent) : s.Keeps e := by
  cases e with
  | takeFront =>
      simp only [Connection.step, Option.ite_none_right_eq_some, Option.some.injEq] at next
      obtain ⟨_, rfl⟩ := next
      intro a front c leads x found points
      obtain ⟨queue, shape⟩ := List.head?_eq_some_iff.mp front
      have queued : a ∈ s.queue := by simp [shape]
      have alive := fun c => sound.alive _ c (live_of_mem queued)
      rw [takeFront_of_cons shape alive] at after
      -- the back pointer is still the address of the node that was freed
      have still := (after.back c { x with cancelSend := none } a (by
        simp [Option.mem_def.mp leads, Option.mem_def.mp found]) points).1
      exact (List.nodup_cons.mp (shape ▸ sound.nodup)).1 still
  | destroy c =>
      simp only [Connection.step, Option.ite_none_right_eq_some, Option.some.injEq] at next
      obtain ⟨_, rfl⟩ := next
      intro x found
      have dead : ((s.destroy c).cancellable c).isSome = false := by
        simp [Connection.destroy]
      have unheld : ∀ o, (s.cancel c).Live o → o.pcancel ≠ some c := by
        intro o live points
        exact absurd (after.alive o c live points) (by simp [dead])
      unfold Connection.cancel at unheld
      simp only [Option.mem_def.mp found, Option.bind_some] at unheld
      cases set : x.cancelSend with
      | none =>
          simp only [set] at unheld
          exact ⟨fun a queued points => absurd points (unheld _ (live_of_mem queued)),
            fun d flying => unheld d (.inr flying)⟩
      | some b =>
          simp only [set] at unheld
          have inside := (sound.back c x b found (sound.armed c x b found set)).1
          obtain ⟨row, memory, loop, _⟩ := erase_frame inside
          refine ⟨fun a queued points => ?_, fun d flying => unheld d (.inr ?_)⟩
          · by_contra other
            have left : a ∈ (s.erase b).queue := by
              rw [row, sound.nodup.mem_erase_iff]
              exact ⟨fun same => other (same ▸ rfl), queued⟩
            exact unheld _ (live_of_mem left) (by rwa [memory])
          · simpa [inFlight, loop] using flying
  | construct | send | timer | startLoop | checkError | broken | flushed | flushFailed | cancel
  | move | assign | abort | clear => trivial

end Connection

/-- The pointers agree in every state of a run just if none of its steps takes
an entry that a back pointer leads to, or destroys a cancellable that an entry
points to and its `cancel_send` does not erase. -/
theorem pointers_consistent_iff {es : List Event} {t : Connection}
    (run : Connection.run es = some t) :
    Always Connection.step Connection.Consistent .initial es ↔
      Along Connection.step Connection.Keeps .initial es :=
  Along.iff_always (fun _ => Connection.Sound.consistent)
    (fun _ _ _ sound keeps next => sound.step keeps next)
    (fun _ _ _ sound next after => sound.keeps_of_consistent next after)
    Connection.sound_initial run

/-- One call is cancelled and one times out, their cancellables moved and
destroyed, and the send loop takes a third that has none. -/
theorem pointers_consistent_cancelled :
    Always Connection.step Connection.Consistent .initial
      [.construct 0, .send 7 .later (some 0), .move 1 0, .destroy 0, .cancel 1,
        .send 7 .later (some 1), .construct 0, .assign 0 1, .send 8 .none none, .timer 7,
        .destroy 0, .startLoop, .checkError, .takeFront, .flushed] :=
  (pointers_consistent_iff (t := (Connection.run
    [.construct 0, .send 7 .later (some 0), .move 1 0, .destroy 0, .cancel 1,
      .send 7 .later (some 1), .construct 0, .assign 0 1, .send 8 .none none, .timer 7,
      .destroy 0, .startLoop, .checkError, .takeFront, .flushed]).get
    (by decide)) (Option.some_get _).symm).mpr (by decide)

/-- The send loop takes the entry, and moving the cancellable writes into the
node that is gone. -/
theorem pointers_dangle :
    ¬ ∀ es s, Connection.run es = some s → s.Consistent := by
  intro always
  have strays : ∃ s, Connection.run [.construct 0, .send 7 .none (some 0), .startLoop,
      .checkError, .takeFront, .move 1 0] = some s ∧ s.strayed = true := ⟨_, rfl, rfl⟩
  obtain ⟨s, ran, strayed⟩ := strays
  exact absurd (always _ s ran).inside (by simp [strayed])

end ActorNet.Rpc.OutgoingQueue
