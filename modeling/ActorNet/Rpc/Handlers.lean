import Mathlib.Data.List.Count
import Mathlib.Data.List.Perm.Basic
import Mathlib.Logic.Function.Basic
import ActorNet.Lib.Gate
import ActorNet.Lib.Run

/-!
# Registered handlers and the requests that use them

`get_handler` hands out a pointer to the entry of a verb and enters its gate,
`put_handler` leaves it through the same pointer. `unregister_handler` closes the
gate and erases the entry when nobody is inside.

A request is inside from `get_handler` until the future of the entry's function is
ready. That function waits for memory and then applies the handler, but not until
the handler is done: the gate knows the requests whose handler is still to be
applied, and not the handlers that run.
-/

namespace ActorNet.Rpc

open Lib

/-! ## The model -/

/-- `rpc_handler`, its function by the number of its registration. -/
structure RpcHandler where
  func : Nat
  useGate : Gate
  deriving DecidableEq, Repr

/-- A request between `get_handler` and `put_handler`. The entry it points to is
that of registration `func`; `ready` says that the future of its function is. -/
structure Dispatch (V : Type) where
  verb : V
  func : Nat
  ready : Bool
  deriving DecidableEq, Repr

/-- `protocol` with its requests. `running` are the handlers that were applied and
are not done. The logs only record: the handlers that were applied, and the verbs
that were answered as unknown. -/
structure Protocol (V : Type) where
  handlers : V → Option RpcHandler
  dispatches : List (Dispatch V)
  registered : Nat
  running : List Nat
  applied : List Nat
  unknown : List V

inductive HandlerEvent (V : Type)
  | registerHandler (v : V)
  | unregisterHandler (v : V)
  /-- The continuation of `use_gate.close()`. -/
  | erase (v : V)
  /-- The read loop has a request. -/
  | request (v : V)
  /-- A request got its memory, and its handler is applied. -/
  | apply (i : Nat)
  /-- The request was too large, or its memory not to be had in time, or its payload
  not to be unmarshalled, or the reply gate closed. -/
  | refuse (i : Nat)
  | putHandler (i : Nat)
  /-- A handler is done. -/
  | finish (j : Nat)
  deriving DecidableEq, Repr

namespace Protocol

variable {V : Type}

def start : Protocol V := ⟨fun _ => none, [], 0, [], [], []⟩

/-- How many requests point to the entry of a registration. -/
def users (s : Protocol V) (func : Nat) : Nat := (s.dispatches.map (·.func)).count func

/-- The pointer of a request is that of an entry of the map. -/
def Valid (s : Protocol V) (d : Dispatch V) : Prop :=
  ∃ h, s.handlers d.verb = some h ∧ h.func = d.func

/-- The future of a request's function gets ready. -/
def returns (s : Protocol V) (i : Nat) (d : Dispatch V) : Protocol V :=
  { s with dispatches := s.dispatches.set i { d with ready := true } }

section Model

variable [DecidableEq V]

/-- `register_receiver`, which throws when the verb has an entry. -/
def registerHandler (s : Protocol V) (v : V) : Protocol V :=
  match s.handlers v with
  | some _ => s
  | none => { s with
      handlers := Function.update s.handlers v (some ⟨s.registered, Gate.fresh⟩)
      registered := s.registered + 1 }

/-- `unregister_handler`; `gate::close` asserts that it is called once. -/
def unregisterHandler (s : Protocol V) (v : V) : Option (Protocol V) :=
  match s.handlers v with
  | none => some s
  | some h =>
      if h.useGate.closed then none
      else some { s with
        handlers := Function.update s.handlers v (some { h with useGate := h.useGate.close }) }

/-- `get_handler` in the read loop, and `send_unknown_verb_reply`. -/
def request (s : Protocol V) (v : V) : Protocol V :=
  match s.handlers v with
  | none => { s with unknown := s.unknown ++ [v] }
  | some h =>
      match h.useGate.enter with
      | none => { s with unknown := s.unknown ++ [v] }
      | some g => { s with
          handlers := Function.update s.handlers v (some { h with useGate := g })
          dispatches := s.dispatches ++ [⟨v, h.func, false⟩] }

/-- `put_handler`, through the pointer of the request. -/
def putHandler (s : Protocol V) (i : Nat) (d : Dispatch V) : Option (Protocol V) :=
  match s.handlers d.verb with
  | none => none
  | some h =>
      if h.func = d.func then
        some { s with
          handlers := Function.update s.handlers d.verb
            (some { h with useGate := h.useGate.leave })
          dispatches := s.dispatches.eraseIdx i }
      else none

def step (s : Protocol V) : HandlerEvent V → Option (Protocol V)
  | .registerHandler v => some (s.registerHandler v)
  | .unregisterHandler v => s.unregisterHandler v
  | .erase v =>
      match s.handlers v with
      | some h =>
          if h.useGate.Drained then some { s with handlers := Function.update s.handlers v none }
          else none
      | none => none
  | .request v => some (s.request v)
  | .apply i =>
      match s.dispatches[i]? with
      | some d =>
          if d.ready then none
          else some { s.returns i d with
            running := s.running ++ [d.func], applied := s.applied ++ [d.func] }
      | none => none
  | .refuse i =>
      match s.dispatches[i]? with
      | some d => if d.ready then none else some (s.returns i d)
      | none => none
  | .putHandler i =>
      match s.dispatches[i]? with
      | some d => if d.ready then s.putHandler i d else none
      | none => none
  | .finish j =>
      if j < s.running.length then some { s with running := s.running.eraseIdx j } else none

end Model

/-! ## Entries and the requests inside -/

/-- Every request points to the entry of its verb, every gate counts the requests
that point to its entry, and no two entries are of one registration. -/
structure Kept (s : Protocol V) : Prop where
  valid : ∀ d ∈ s.dispatches, s.Valid d
  counts : ∀ v h, s.handlers v = some h → h.useGate.count = s.users h.func
  old : ∀ v h, s.handlers v = some h → h.func < s.registered
  distinct : ∀ v v' h h', s.handlers v = some h → s.handlers v' = some h' → h.func = h'.func →
    v = v'

theorem kept_start : (start : Protocol V).Kept where
  valid := by simp [start]
  counts := by simp [start]
  old := by simp [start]
  distinct := by simp [start]

theorem users_pos {s : Protocol V} {d : Dispatch V} (mem : d ∈ s.dispatches) :
    0 < s.users d.func :=
  List.count_pos_iff.mpr (List.mem_map_of_mem mem)

/-- What nothing but the stage of a request distinguishes. -/
theorem Kept.returns {s : Protocol V} (kept : s.Kept) {i : Nat} {d : Dispatch V}
    (here : s.dispatches[i]? = some d) : (s.returns i d).Kept := by
  have same : ((s.returns i d).dispatches.map (·.func)) = s.dispatches.map (·.func) := by
    rw [Protocol.returns, List.map_set]
    refine List.ext_getElem? fun j => ?_
    by_cases this : i = j
    · rw [← this, List.getElem?_set_self', List.getElem?_map, here]
      rfl
    · rw [List.getElem?_set_ne this]
  exact {
    valid := fun e mem => by
      rcases List.mem_or_eq_of_mem_set mem with old | new
      · exact kept.valid e old
      · rw [new]
        exact kept.valid d (List.mem_of_getElem? here)
    counts := fun v h there => by
      rw [kept.counts v h there]
      unfold users
      rw [same]
    old := kept.old
    distinct := kept.distinct }

variable [DecidableEq V]

/-- The gate of an entry moves with the requests that point to it: all others stay. -/
theorem Kept.update {s : Protocol V} (kept : s.Kept) {v : V} {h : RpcHandler}
    (here : s.handlers v = some h) {g : Gate} {ds : List (Dispatch V)}
    (mine : g.count = (ds.map (·.func)).count h.func)
    (others : ∀ func ≠ h.func, (ds.map (·.func)).count func = s.users func)
    (from_ : ∀ d ∈ ds, (d.verb = v ∧ d.func = h.func) ∨ s.Valid d) :
    ({ s with
      handlers := Function.update s.handlers v (some { h with useGate := g })
      dispatches := ds } : Protocol V).Kept where
  valid d mem := by
    have updated : Function.update s.handlers v (some { h with useGate := g }) v =
        some { h with useGate := g } := Function.update_self ..
    rcases from_ d mem with ⟨verb, func⟩ | ⟨h', there, func⟩
    · exact ⟨{ h with useGate := g }, verb ▸ updated, func.symm⟩
    · by_cases same : d.verb = v
      · rw [same, here, Option.some.injEq] at there
        exact ⟨{ h with useGate := g }, same ▸ updated, there ▸ func⟩
      · exact ⟨h', (Function.update_of_ne same _ _).trans there, func⟩
  counts w h' there := by
    dsimp only at there
    by_cases same : w = v
    · rw [same, Function.update_self, Option.some.injEq] at there
      rw [← there]
      exact mine
    · rw [Function.update_of_ne same] at there
      have apart : h'.func ≠ h.func := fun equal => same (kept.distinct w v h' h there here equal)
      rw [kept.counts w h' there]
      exact (others h'.func apart).symm
  old w h' there := by
    dsimp only at there
    by_cases same : w = v
    · rw [same, Function.update_self, Option.some.injEq] at there
      rw [← there]
      exact kept.old v h here
    · rw [Function.update_of_ne same] at there
      exact kept.old w h' there
  distinct w w' h₁ h₂ first second equal := by
    have back (u : V) (h' : RpcHandler)
        (there : Function.update s.handlers v (some { h with useGate := g }) u = some h') :
        ∃ h'', s.handlers u = some h'' ∧ h''.func = h'.func := by
      by_cases same : u = v
      · rw [same, Function.update_self, Option.some.injEq] at there
        exact ⟨h, same ▸ here, by rw [← there]⟩
      · rw [Function.update_of_ne same] at there
        exact ⟨h', there, rfl⟩
    obtain ⟨k₁, there₁, func₁⟩ := back w h₁ first
    obtain ⟨k₂, there₂, func₂⟩ := back w' h₂ second
    exact kept.distinct w w' k₁ k₂ there₁ there₂ (func₁.trans (equal.trans func₂.symm))

theorem Kept.registerHandler {s : Protocol V} (kept : s.Kept) (v : V) :
    (s.registerHandler v).Kept := by
  unfold Protocol.registerHandler
  split
  · exact kept
  · rename_i vacant
    have unused : s.users s.registered = 0 := by
      refine List.count_eq_zero.mpr fun mem => ?_
      obtain ⟨d, inside, func⟩ := List.mem_map.mp mem
      obtain ⟨h, there, same⟩ := kept.valid d inside
      have below := kept.old d.verb h there
      omega
    have lookup (w : V) (h : RpcHandler)
        (there : Function.update s.handlers v (some ⟨s.registered, Gate.fresh⟩) w = some h) :
        (w = v ∧ h = ⟨s.registered, Gate.fresh⟩) ∨ (w ≠ v ∧ s.handlers w = some h) := by
      by_cases same : w = v
      · rw [same, Function.update_self, Option.some.injEq] at there
        exact .inl ⟨same, there.symm⟩
      · rw [Function.update_of_ne same] at there
        exact .inr ⟨same, there⟩
    exact {
      valid := fun d mem => by
        obtain ⟨h, there, func⟩ := kept.valid d mem
        have apart : d.verb ≠ v := by
          intro same
          rw [same, vacant] at there
          cases there
        exact ⟨h, (Function.update_of_ne apart _ _).trans there, func⟩
      counts := fun w h there => by
        rcases lookup w h there with ⟨_, rfl⟩ | ⟨_, before⟩
        · exact unused.symm
        · exact kept.counts w h before
      old := fun w h there => by
        rcases lookup w h there with ⟨_, rfl⟩ | ⟨_, before⟩
        · exact Nat.lt_succ_self _
        · exact Nat.lt_succ_of_lt (kept.old w h before)
      distinct := fun w w' h h' first second equal => by
        rcases lookup w h first with ⟨here, rfl⟩ | ⟨_, before⟩ <;>
          rcases lookup w' h' second with ⟨here', rfl⟩ | ⟨_, before'⟩
        · exact here.trans here'.symm
        · exact absurd equal (Nat.ne_of_gt (kept.old w' h' before'))
        · exact absurd equal (Nat.ne_of_lt (kept.old w h before))
        · exact kept.distinct w w' h h' before before' equal }

theorem Kept.erase {s : Protocol V} (kept : s.Kept) {v : V} {h : RpcHandler}
    (here : s.handlers v = some h) (drained : h.useGate.Drained) :
    ({ s with handlers := Function.update s.handlers v none } : Protocol V).Kept := by
  have lookup (w : V) (h' : RpcHandler)
      (there : Function.update s.handlers v none w = some h') : s.handlers w = some h' := by
    by_cases same : w = v
    · rw [same, Function.update_self] at there
      cases there
    · rwa [Function.update_of_ne same] at there
  exact {
    valid := fun d mem => by
      obtain ⟨h', there, func⟩ := kept.valid d mem
      have apart : d.verb ≠ v := by
        -- A request with this verb would be inside the gate, which is empty.
        intro same
        rw [same, here, Option.some.injEq] at there
        have inside : 0 < s.users d.func := users_pos mem
        rw [← func, ← there, ← kept.counts v h here, drained.2] at inside
        exact absurd inside (Nat.lt_irrefl 0)
      exact ⟨h', (Function.update_of_ne apart _ _).trans there, func⟩
    counts := fun w h' there => kept.counts w h' (lookup w h' there)
    old := fun w h' there => kept.old w h' (lookup w h' there)
    distinct := fun w w' h₁ h₂ first second =>
      kept.distinct w w' h₁ h₂ (lookup w h₁ first) (lookup w' h₂ second) }

theorem Kept.request {s : Protocol V} (kept : s.Kept) (v : V) : (s.request v).Kept := by
  unfold Protocol.request
  split
  · exact { kept with }
  · rename_i h here
    split
    · exact { kept with }
    · rename_i g entered
      obtain ⟨_, rfl⟩ := Gate.enter_eq_some.mp entered
      refine kept.update here ?_ ?_ ?_
      · have counted := kept.counts v h here
        simp [users] at counted
        simp [counted]
      · intro func apart
        simp [users, apart.symm]
      · intro d mem
        rcases List.mem_append.mp mem with old | new
        · exact .inr (kept.valid d old)
        · rw [List.mem_singleton.mp new]
          exact .inl ⟨rfl, rfl⟩

/-- A request leaves through its pointer: the entry is there, and one request fewer
points to it. -/
theorem Kept.putHandler {s s' : Protocol V} (kept : s.Kept) {i : Nat} {d : Dispatch V}
    (here : s.dispatches[i]? = some d) (next : s.putHandler i d = some s') : s'.Kept := by
  unfold Protocol.putHandler at next
  split at next
  · cases next
  · rename_i h there
    split at next
    · rename_i func
      cases next
      have taken : (d.func :: ((s.dispatches.eraseIdx i).map (·.func))).Perm
          (s.dispatches.map (·.func)) := by
        obtain ⟨inside, rfl⟩ := List.getElem?_eq_some_iff.mp here
        exact (List.getElem_cons_eraseIdx_perm inside).map _
      have counted (f : Nat) := taken.count_eq f
      refine kept.update there ?_ ?_ ?_
      · have before := kept.counts d.verb h there
        have fewer := counted h.func
        rw [func, List.count_cons_self] at fewer
        rw [func, users] at before
        rw [Gate.leave_count, before, func]
        omega
      · intro f apart
        have fewer := counted f
        rwa [List.count_cons_of_ne (func ▸ apart.symm)] at fewer
      · intro e mem
        exact .inr (kept.valid e ((List.eraseIdx_sublist _ _).subset mem))
    · cases next

theorem Kept.unregisterHandler {s s' : Protocol V} (kept : s.Kept) {v : V}
    (next : s.unregisterHandler v = some s') : s'.Kept := by
  unfold Protocol.unregisterHandler at next
  split at next
  · cases next
    exact kept
  · rename_i h here
    split at next
    · cases next
    · cases next
      exact kept.update here (kept.counts v h here) (fun _ _ => rfl)
        (fun d mem => .inr (kept.valid d mem))

/-- The step lemma. -/
theorem Kept.step {s s' : Protocol V} {e : HandlerEvent V} (kept : s.Kept)
    (next : s.step e = some s') : s'.Kept := by
  cases e with
  | registerHandler v =>
      cases next
      exact kept.registerHandler v
  | unregisterHandler v => exact kept.unregisterHandler next
  | erase v =>
      simp only [Protocol.step] at next
      split at next
      · rename_i h here
        simp only [Option.ite_none_right_eq_some, Option.some.injEq] at next
        obtain ⟨drained, rfl⟩ := next
        exact kept.erase here drained
      · cases next
  | request v =>
      cases next
      exact kept.request v
  | apply i =>
      simp only [Protocol.step] at next
      split at next
      · rename_i d here
        simp only [Option.ite_none_left_eq_some, Option.some.injEq] at next
        obtain ⟨_, rfl⟩ := next
        exact { kept.returns here with }
      · cases next
  | refuse i =>
      simp only [Protocol.step] at next
      split at next
      · rename_i d here
        simp only [Option.ite_none_left_eq_some, Option.some.injEq] at next
        obtain ⟨_, rfl⟩ := next
        exact kept.returns here
      · cases next
  | putHandler i =>
      simp only [Protocol.step] at next
      split at next
      · rename_i d here
        simp only [Option.ite_none_right_eq_some] at next
        exact kept.putHandler here next.2
      · cases next
  | finish j =>
      simp only [Protocol.step, Option.ite_none_right_eq_some, Option.some.injEq] at next
      obtain ⟨_, rfl⟩ := next
      exact { kept with }

/-- In every run, a request never points to an entry that was erased, and the future
of an unregistration is ready just if no request points to its entry any more. -/
theorem pointers_valid (es : List (HandlerEvent V)) (s : Protocol V)
    (run : exec step start es = some s) :
    (∀ d ∈ s.dispatches, s.Valid d) ∧
      ∀ v h, s.handlers v = some h →
        (h.useGate.Drained ↔ h.useGate.closed = true ∧ ∀ d ∈ s.dispatches, d.func ≠ h.func) := by
  have kept : s.Kept := exec_invariant (fun _ _ _ kept next => kept.step next) kept_start run
  refine ⟨kept.valid, fun v h here => and_congr_right fun _ => ?_⟩
  rw [kept.counts v h here, users, List.count_eq_zero]
  simp

theorem pointers_valid_closed : ∃ s : Protocol Nat,
    exec step start [.registerHandler 1, .request 1, .unregisterHandler 1] = some s ∧
      ∀ d ∈ s.dispatches, s.Valid d :=
  ⟨_, rfl, (pointers_valid [.registerHandler 1, .request 1, .unregisterHandler 1] _ rfl).1⟩

/-! ## After an unregistration -/

/-- The requests whose handler is still to be applied. -/
def waiting (s : Protocol V) (func : Nat) : Nat :=
  s.dispatches.countP fun d => d.func == func && !d.ready

/-- Registration `func` of verb `v` is past: its entry, if it is still there, is
closed. -/
structure Past (s : Protocol V) (v : V) (func : Nat) : Prop where
  closed : ∀ w h, s.handlers w = some h → h.func = func → w = v ∧ h.useGate.closed = true
  old : func < s.registered

/-- What may change of a past registration in a step: its requests may return, with
or without their handler being applied. -/
structure Fading (s s' : Protocol V) (v : V) (func : Nat) : Prop where
  past : s'.Past v func
  spent : s'.waiting func + s'.applied.count func ≤ s.waiting func + s.applied.count func
  grows : s.applied.count func ≤ s'.applied.count func

omit [DecidableEq V] in
theorem Past.same {s s' : Protocol V} {v : V} {func : Nat} (past : s.Past v func)
    (handlers : s'.handlers = s.handlers) (registered : s'.registered = s.registered) :
    s'.Past v func where
  closed := handlers ▸ past.closed
  old := registered ▸ past.old

omit [DecidableEq V] in
/-- A request that returns no longer waits for its handler. -/
theorem waiting_returns {s : Protocol V} {i : Nat} {d : Dispatch V}
    (here : s.dispatches[i]? = some d) (pending : d.ready = false) (func : Nat) :
    (s.returns i d).waiting func + [d.func].count func = s.waiting func := by
  obtain ⟨inside, this⟩ := List.getElem?_eq_some_iff.mp here
  have positive : d.func = func → 0 < s.waiting func := by
    intro mine
    refine List.countP_pos_iff.mpr ⟨d, List.mem_of_getElem? here, ?_⟩
    simp [mine, pending]
  unfold waiting returns
  rw [List.countP_set inside, this]
  by_cases mine : d.func = func
  · have some := positive mine
    unfold waiting at some
    simp [mine, pending]
    omega
  · simp [mine]

/-- The entries after the gate of one was closed or left, or after one was erased. -/
theorem Past.update {s s' : Protocol V} {v w : V} {func : Nat} {h : RpcHandler}
    (past : s.Past v func) (here : s.handlers w = some h) {entry : Option RpcHandler}
    (keeps : ∀ h', entry = some h' → h'.func = h.func ∧
      (h.useGate.closed = true → h'.useGate.closed = true))
    (handlers : s'.handlers = Function.update s.handlers w entry)
    (registered : s'.registered = s.registered) : s'.Past v func where
  closed u h' there mine := by
    rw [handlers] at there
    by_cases same : u = w
    · rw [same, Function.update_self] at there
      obtain ⟨func', closing⟩ := keeps h' there
      obtain ⟨home, closed⟩ := past.closed w h here (func' ▸ mine)
      exact ⟨same.trans home, closing closed⟩
    · rw [Function.update_of_ne same] at there
      exact past.closed u h' there mine
  old := registered ▸ past.old

theorem Past.registerHandler {s : Protocol V} {v : V} {func : Nat} (past : s.Past v func) (w : V) :
    s.Fading (s.registerHandler w) v func := by
  unfold Protocol.registerHandler
  split
  · exact ⟨past, Nat.le_refl _, Nat.le_refl _⟩
  · refine ⟨⟨fun u h there mine => ?_, Nat.lt_succ_of_lt past.old⟩, Nat.le_refl _, Nat.le_refl _⟩
    dsimp only at there
    by_cases same : u = w
    · rw [same, Function.update_self, Option.some.injEq] at there
      rw [← there] at mine
      exact absurd mine (Nat.ne_of_gt past.old)
    · rw [Function.update_of_ne same] at there
      exact past.closed u h there mine

/-- No request joins a past registration: its verb is unknown as long as the entry is
there. -/
theorem Past.request {s : Protocol V} {v : V} {func : Nat} (past : s.Past v func) (w : V) :
    s.Fading (s.request w) v func := by
  unfold Protocol.request
  split
  · exact ⟨past.same rfl rfl, Nat.le_refl _, Nat.le_refl _⟩
  · rename_i h here
    split
    · exact ⟨past.same rfl rfl, Nat.le_refl _, Nat.le_refl _⟩
    · rename_i g entered
      obtain ⟨isOpen, rfl⟩ := Gate.enter_eq_some.mp entered
      have other : h.func ≠ func := by
        intro mine
        rw [(past.closed w h here mine).2] at isOpen
        cases isOpen
      refine ⟨past.update here ?_ rfl rfl, ?_, Nat.le_refl _⟩
      · intro h' same
        cases same
        refine ⟨rfl, fun closed => ?_⟩
        rw [isOpen] at closed
        cases closed
      · simp [waiting, other]

theorem Past.unregisterHandler {s s' : Protocol V} {v w : V} {func : Nat}
    (past : s.Past v func) (next : s.unregisterHandler w = some s') : s.Fading s' v func := by
  unfold Protocol.unregisterHandler at next
  split at next
  · cases next
    exact ⟨past, Nat.le_refl _, Nat.le_refl _⟩
  · rename_i h here
    split at next
    · cases next
    · cases next
      refine ⟨past.update here ?_ rfl rfl, Nat.le_refl _, Nat.le_refl _⟩
      intro h' same
      cases same
      exact ⟨rfl, fun _ => rfl⟩

theorem Past.putHandler {s s' : Protocol V} {v : V} {func i : Nat} {d : Dispatch V}
    (past : s.Past v func) (next : s.putHandler i d = some s') : s.Fading s' v func := by
  unfold Protocol.putHandler at next
  split at next
  · cases next
  · rename_i h there
    split at next
    · cases next
      refine ⟨past.update there ?_ rfl rfl, ?_, Nat.le_refl _⟩
      · intro h' same
        cases same
        exact ⟨rfl, id⟩
      · have fewer := (List.eraseIdx_sublist s.dispatches i).countP_le
          (p := fun d => d.func == func && !d.ready)
        exact Nat.add_le_add_right fewer _
    · cases next

/-- The step lemma of a past registration. -/
theorem Past.step {s s' : Protocol V} {v : V} {func : Nat} {e : HandlerEvent V}
    (past : s.Past v func) (next : s.step e = some s') : s.Fading s' v func := by
  cases e with
  | registerHandler w =>
      cases next
      exact past.registerHandler w
  | unregisterHandler w => exact past.unregisterHandler next
  | erase w =>
      simp only [Protocol.step] at next
      split at next
      · rename_i h here
        simp only [Option.ite_none_right_eq_some, Option.some.injEq] at next
        obtain ⟨_, rfl⟩ := next
        exact ⟨past.update here (by simp) rfl rfl, Nat.le_refl _, Nat.le_refl _⟩
      · cases next
  | request w =>
      cases next
      exact past.request w
  | apply i =>
      simp only [Protocol.step] at next
      split at next
      · rename_i d here
        simp only [Option.ite_none_left_eq_some, Option.some.injEq, Bool.not_eq_true] at next
        obtain ⟨pending, rfl⟩ := next
        have one := waiting_returns here pending func
        refine ⟨past.same rfl rfl, ?_, ?_⟩
        · change (s.returns i d).waiting func + (s.applied ++ [d.func]).count func ≤ _
          rw [List.count_append]
          omega
        · exact (List.sublist_append_left _ _).count_le func
      · cases next
  | refuse i =>
      simp only [Protocol.step] at next
      split at next
      · rename_i d here
        simp only [Option.ite_none_left_eq_some, Option.some.injEq, Bool.not_eq_true] at next
        obtain ⟨pending, rfl⟩ := next
        have one := waiting_returns here pending func
        refine ⟨past.same rfl rfl, ?_, Nat.le_refl _⟩
        change (s.returns i d).waiting func + s.applied.count func ≤ _
        omega
      · cases next
  | putHandler i =>
      simp only [Protocol.step] at next
      split at next
      · simp only [Option.ite_none_right_eq_some] at next
        exact past.putHandler next.2
      · cases next
  | finish j =>
      simp only [Protocol.step, Option.ite_none_right_eq_some, Option.some.injEq] at next
      obtain ⟨_, rfl⟩ := next
      exact ⟨past.same rfl rfl, Nat.le_refl _, Nat.le_refl _⟩

/-- The run lemma of a past registration. -/
theorem Past.exec {s t : Protocol V} {v : V} {func : Nat} {es : List (HandlerEvent V)}
    (past : s.Past v func) (run : exec Protocol.step s es = some t) : s.Fading t v func := by
  refine exec_invariant (I := fun u => s.Fading u v func) ?_
    ⟨past, Nat.le_refl _, Nat.le_refl _⟩ run
  intro u e u' before next
  have more := before.past.step next
  exact ⟨more.past, Nat.le_trans more.spent before.spent, Nat.le_trans before.grows more.grows⟩

/-- From `unregister_handler` on, in every run: the handler is applied at most for the
requests that were waiting then; as long as the entry is there, further requests for
the verb are answered as unknown; and once it is erased, whatever is registered
afterwards, the handler is never applied again. -/
theorem unregistered_silent (es fs : List (HandlerEvent V)) (s s' t : Protocol V) (v : V)
    (h : RpcHandler) (run : exec step start es = some s) (here : s.handlers v = some h)
    (closes : s.unregisterHandler v = some s') (later : exec step s' fs = some t) :
    t.applied.count h.func ≤ s.applied.count h.func + s.waiting h.func ∧
      (∀ h', t.handlers v = some h' → h'.func = h.func →
        t.request v = { t with unknown := t.unknown ++ [v] }) ∧
      ((∀ h', t.handlers v = some h' → h'.func ≠ h.func) → ∀ gs u, exec step t gs = some u →
        u.applied.count h.func = t.applied.count h.func) := by
  have kept : s.Kept := exec_invariant (fun _ _ _ kept next => kept.step next) kept_start run
  have past : s'.Past v h.func ∧ s'.applied = s.applied ∧ s'.dispatches = s.dispatches := by
    unfold Protocol.unregisterHandler at closes
    rw [here] at closes
    simp only [Option.ite_none_left_eq_some, Option.some.injEq] at closes
    obtain ⟨_, rfl⟩ := closes
    refine ⟨⟨fun w h' there mine => ?_, kept.old v h here⟩, rfl, rfl⟩
    dsimp only at there
    by_cases same : w = v
    · rw [same, Function.update_self, Option.some.injEq] at there
      rw [← there]
      exact ⟨same, rfl⟩
    · rw [Function.update_of_ne same] at there
      exact absurd (kept.distinct w v h' h there here mine) same
  obtain ⟨past, applied, dispatches⟩ := past
  have fading := past.exec later
  have keptT : t.Kept := exec_invariant (fun _ _ _ kept next => kept.step next)
    (kept.unregisterHandler closes) later
  refine ⟨?_, fun h' there mine => ?_, fun gone gs u further => ?_⟩
  · have bound := fading.spent
    rw [applied, waiting, waiting, dispatches] at bound
    unfold waiting
    omega
  · have closed := (fading.past.closed v h' there mine).2
    rw [Protocol.request, there]
    simp only [Gate.enter_eq_none.mpr closed]
  · have nobody : t.waiting h.func = 0 := by
      refine List.countP_eq_zero.mpr fun d mem mine => ?_
      obtain ⟨h', there, func⟩ := keptT.valid d mem
      have same : d.func = h.func := by simpa using (Bool.and_eq_true_iff.mp mine).1
      obtain ⟨home, _⟩ := fading.past.closed d.verb h' there (func.trans same)
      exact gone h' (home ▸ there) (func.trans same)
    have silent := fading.past.exec further
    have bound := silent.spent
    have grows := silent.grows
    omega

/-- The entry is erased while the handler still runs. -/
theorem unregistered_silent_running : ∃ s s' t : Protocol Nat,
    exec step start [.registerHandler 1, .request 1, .apply 0] = some s ∧
      s.unregisterHandler 1 = some s' ∧ exec step s' [.putHandler 0, .erase 1] = some t ∧
      t.applied.count 0 ≤ s.applied.count 0 + s.waiting 0 ∧ t.handlers 1 = none ∧
      t.running = [0] := by
  refine ⟨_, _, _, rfl, rfl, rfl, ?_, rfl, rfl⟩
  exact (unregistered_silent [.registerHandler 1, .request 1, .apply 0] [.putHandler 0, .erase 1]
    _ _ _ 1 ⟨0, ⟨1, false⟩⟩ rfl rfl rfl rfl).1

end Protocol

end ActorNet.Rpc
