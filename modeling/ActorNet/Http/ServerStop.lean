import Mathlib.Algebra.BigOperators.Group.List.Basic
import Mathlib.Algebra.GroupWithZero.Nat
import Mathlib.Data.List.Nodup
import ActorNet.Lib.Gate
import ActorNet.Lib.Run

/-!
# The connections of an HTTP server, and its stop

Each listener has a loop of accepts. The loop as a whole, each of its rounds and
the process of each connection are inside `_task_gate`. `stop` closes the gate,
aborts the pending accepts and shuts the connections down; its future is ready
when the gate is empty.

A connection counts itself and enters `_connections` when it is constructed, and
takes this back when it is destroyed. It belongs to the continuation of its
process, or is destroyed on the spot if the gate is closed already. Nothing here
makes a process end: a handler may not answer, and a reader whose writer has failed
may wait for room for ever.
-/

namespace ActorNet.Http

open Lib

/-! ## The model -/

/-- Where the loop of `do_accepts` stands: its accept is pending; `do_accept_one`
is done, and the place of the round in the gate not yet left; the next round has
not begun; the loop has ended, and its own place not yet left; or it is gone. -/
inductive AcceptLoop
  | accepting
  | returning
  | between
  | finished
  | gone
  deriving DecidableEq, Repr

/-- The places that a loop has in the gate. -/
def AcceptLoop.places : AcceptLoop → Nat
  | .accepting | .returning => 2
  | .between | .finished => 1
  | .gone => 0

/-- How many continuations of a loop are still to run behind the closed gate. -/
def AcceptLoop.rounds : AcceptLoop → Nat
  | .accepting => 4
  | .returning => 3
  | .between => 2
  | .finished => 1
  | .gone => 0

/-- An element of `_listeners` with its loop; `aborted` says that `abort_accept`
was called. -/
structure Listener where
  loop : AcceptLoop
  aborted : Bool
  deriving DecidableEq, Repr

/-- A connection, by its number in the order of the accepts; `shutDown` says that
`shutdown` was called, and `ended` that the future of its process is ready. -/
structure OpenConnection where
  id : Nat
  shutDown : Bool
  ended : Bool
  deriving DecidableEq, Repr

/-- `http_server`. Of the places in the gate, `leaving` are those of processes
that have ended and whose connection is destroyed. `accepted` only records how
many connections there have been. -/
structure HttpServer where
  listeners : List Listener
  totalConnections : BitVec 64
  currentConnections : BitVec 64
  taskGate : Gate
  connections : List OpenConnection
  leaving : Nat
  accepted : Nat
  deriving DecidableEq, Repr

namespace HttpServer

def start : HttpServer := ⟨[], 0, 0, Gate.fresh, [], 0, 0⟩

/-- `connection::on_new_connection`. -/
def onNewConnection (s : HttpServer) : HttpServer :=
  { s with
    totalConnections := s.totalConnections + 1
    currentConnections := s.currentConnections + 1
    connections := s.connections ++ [⟨s.accepted, false, false⟩]
    accepted := s.accepted + 1 }

/-- `~connection`. -/
def destroy (s : HttpServer) (id : Nat) : HttpServer :=
  { s with
    currentConnections := s.currentConnections - 1
    connections := s.connections.filter fun c => c.id != id }

/-- One round of `keep_doing`, up to its pending accept: the exception of a closed
gate ends the loop. -/
def round (g : Gate) : Gate × AcceptLoop :=
  match g.enter with
  | some g => (g, .accepting)
  | none => (g, .finished)

/-- `do_accepts`. -/
def doAccepts (g : Gate) : Gate × AcceptLoop :=
  match g.enter with
  | some g => round g
  | none => (g, .gone)

/-- `listen`. -/
def listen (s : HttpServer) : HttpServer :=
  let (g, loop) := doAccepts s.taskGate
  { s with listeners := s.listeners ++ [⟨loop, false⟩], taskGate := g }

/-- The continuation of `accept` in `do_accept_one`: the process of the connection
starts unless the gate is closed, and then the connection is destroyed. -/
def serve (s : HttpServer) : HttpServer :=
  let constructed := s.onNewConnection
  match s.taskGate.enter with
  | some g => { constructed with taskGate := g }
  | none => constructed.destroy s.accepted

/-- `stop`, with the future of `_task_gate.close()` read off the gate. -/
def stop (s : HttpServer) : HttpServer :=
  { s with
    taskGate := s.taskGate.close
    listeners := s.listeners.map fun l => { l with aborted := true }
    connections := s.connections.map fun c => { c with shutDown := true } }

/-- The future of the process of a connection becomes ready. -/
def processEnds (s : HttpServer) (id : Nat) : HttpServer :=
  { s with connections := s.connections.map fun c => { c with ended := c.ended || c.id == id } }

/-- A loop goes on to another stage. -/
def advance (s : HttpServer) (l : Nat) (loop : AcceptLoop) : HttpServer :=
  { s with listeners := s.listeners.modify l fun x => { x with loop := loop } }

inductive Event
  | listen
  /-- The accept of listener `l` yields a connection. -/
  | accepted (l : Nat)
  /-- The accept of listener `l` fails, for example because it was aborted. -/
  | acceptFailed (l : Nat)
  /-- The loop of listener `l` leaves a place in the gate. -/
  | leave (l : Nat)
  /-- The loop of listener `l` begins another round. -/
  | again (l : Nat)
  /-- The process of a connection ends, which it need not. -/
  | processEnds (id : Nat)
  /-- The continuation of such a process, with which the connection is destroyed. -/
  | processed (id : Nat)
  /-- The place of such a process in the gate is left. -/
  | leaveProcess
  | stop
  deriving DecidableEq, Repr

/-- The stage of a loop. -/
def loopOf (s : HttpServer) (l : Nat) : Option AcceptLoop := (s.listeners[l]?).map (·.loop)

def step (s : HttpServer) : Event → Option HttpServer
  | .listen => some s.listen
  | .accepted l =>
      if s.loopOf l = some .accepting then some (s.serve.advance l .returning) else none
  | .acceptFailed l =>
      if s.loopOf l = some .accepting then some (s.advance l .returning) else none
  | .leave l =>
      match s.loopOf l with
      | some .returning => some { s.advance l .between with taskGate := s.taskGate.leave }
      | some .finished => some { s.advance l .gone with taskGate := s.taskGate.leave }
      | _ => none
  | .again l =>
      if s.loopOf l = some .between then
        let (g, loop) := round s.taskGate
        some { s.advance l loop with taskGate := g }
      else none
  | .processEnds id =>
      if s.connections.any fun c => c.id == id && !c.ended then some (s.processEnds id) else none
  | .processed id =>
      if s.connections.any fun c => c.id == id && c.ended then
        some { s.destroy id with leaving := s.leaving + 1 }
      else none
  | .leaveProcess =>
      if 0 < s.leaving then
        some { s with taskGate := s.taskGate.leave, leaving := s.leaving - 1 }
      else none
  -- `gate::close` asserts that it is called once.
  | .stop => if s.taskGate.closed then none else some s.stop

/-- The future of `stop` is ready. -/
def Stopped (s : HttpServer) : Prop := s.taskGate.Drained

instance Stopped.decidable (s : HttpServer) : Decidable s.Stopped :=
  inferInstanceAs (Decidable s.taskGate.Drained)

/-! ## The accounts -/

/-- The places that the loops have in the gate. -/
def held (s : HttpServer) : Nat := (s.listeners.map fun l => l.loop.places).sum

/-- What holds of the server between its continuations. -/
structure Kept (s : HttpServer) : Prop where
  current : s.currentConnections = BitVec.ofNat 64 s.connections.length
  total : s.totalConnections = BitVec.ofNat 64 s.accepted
  distinct : (s.connections.map (·.id)).Nodup
  numbered : ∀ c ∈ s.connections, c.id < s.accepted
  places : s.taskGate.count = s.held + s.connections.length + s.leaving
  shut : s.taskGate.closed = true → ∀ c ∈ s.connections, c.shutDown = true
  aborted : s.taskGate.closed = true → ∀ l ∈ s.listeners, l.loop = .accepting → l.aborted = true

theorem kept_start : start.Kept where
  current := rfl
  total := rfl
  distinct := List.nodup_nil
  numbered := by simp [start]
  places := rfl
  shut := by simp [start]
  aborted := by simp [start]

theorem ofNat_pred (n : Nat) : BitVec.ofNat 64 (n + 1) - 1 = BitVec.ofNat 64 n := by
  rw [BitVec.ofNat_add]
  exact BitVec.add_sub_cancel _ _

/-! ### One loop at a time -/

/-- A loop that goes on changes a sum over the loops by its own share. -/
theorem sum_advance (f : AcceptLoop → Nat) {s : HttpServer} {l : Nat} {old : AcceptLoop}
    (here : s.loopOf l = some old) (new : AcceptLoop) :
    ((s.advance l new).listeners.map fun x => f x.loop).sum + f old =
      (s.listeners.map fun x => f x.loop).sum + f new := by
  obtain ⟨x, found, rfl⟩ := Option.map_eq_some_iff.mp here
  have stepwise : ∀ (xs : List Listener) (i : Nat), xs[i]? = some x →
      ((xs.modify i fun y => { y with loop := new }).map fun y => f y.loop).sum + f x.loop =
        (xs.map fun y => f y.loop).sum + f new := by
    intro xs
    induction xs with
    | nil => intro i found; simp at found
    | cons y ys ih =>
        intro i found
        cases i with
        | zero =>
            cases found
            simp only [List.modify_zero_cons, List.map_cons, List.sum_cons]
            omega
        | succ i =>
            have onward := ih i found
            simp only [List.modify_succ_cons, List.map_cons, List.sum_cons]
            omega
  exact stepwise s.listeners l found

theorem held_advance {s : HttpServer} {l : Nat} {old : AcceptLoop} (here : s.loopOf l = some old)
    (new : AcceptLoop) : (s.advance l new).held + old.places = s.held + new.places :=
  sum_advance AcceptLoop.places here new

/-- The listeners after a loop went on: each is an old one, or stands where that
loop went. -/
theorem mem_advance {s : HttpServer} {l : Nat} {new : AcceptLoop} {x : Listener}
    (mem : x ∈ (s.advance l new).listeners) : x ∈ s.listeners ∨ x.loop = new := by
  obtain ⟨i, found⟩ := List.mem_iff_getElem?.mp mem
  rw [advance, List.getElem?_modify, Option.map_eq_map, Option.map_eq_some_iff] at found
  obtain ⟨y, there, rfl⟩ := found
  by_cases same : l = i
  · exact .inr (by rw [if_pos same])
  · rw [if_neg same]
    exact .inl (List.mem_of_getElem? there)

/-- A loop goes on inside the gate, which follows its places. No accept is issued
behind a closed gate. -/
theorem Kept.advance {s : HttpServer} (kept : s.Kept) {l : Nat} {old new : AcceptLoop} {g : Gate}
    (here : s.loopOf l = some old) (same : g.closed = s.taskGate.closed)
    (follows : g.count + old.places = s.taskGate.count + new.places)
    (closing : g.closed = true → new ≠ .accepting) :
    ({ s.advance l new with taskGate := g } : HttpServer).Kept where
  current := kept.current
  total := kept.total
  distinct := kept.distinct
  numbered := kept.numbered
  places := by
    have moved := held_advance here new
    have before := kept.places
    change g.count = (s.advance l new).held + s.connections.length + s.leaving
    omega
  shut closed := kept.shut (same ▸ closed)
  aborted closed x mem accepting := by
    rcases mem_advance mem with old | now
    · exact kept.aborted (same ▸ closed) x old accepting
    · exact absurd (now.symm.trans accepting) (closing closed)

/-! ### Connections -/

/-- A connection that is there is destroyed: it is counted out once. -/
theorem length_destroy {cs : List OpenConnection} (distinct : (cs.map (·.id)).Nodup) {id : Nat}
    (here : id ∈ cs.map (·.id)) : (cs.filter fun c => c.id != id).length + 1 = cs.length := by
  induction cs with
  | nil => simp at here
  | cons c cs ih =>
      rw [List.map_cons, List.nodup_cons] at distinct
      by_cases this : c.id = id
      · have others : (cs.filter fun d => d.id != id) = cs := by
          refine List.filter_eq_self.mpr fun d mem => ?_
          have apart : d.id ≠ id := by
            intro same
            exact distinct.1 (this.trans same.symm ▸ List.mem_map_of_mem mem)
          simpa using apart
        rw [List.filter_cons_of_neg (by simpa using this), others, List.length_cons]
      · have inside : id ∈ cs.map (·.id) := by
          rcases List.mem_cons.mp here with first | later
          · exact absurd first.symm this
          · exact later
        rw [List.filter_cons_of_pos (by simpa using this), List.length_cons, List.length_cons,
          ih distinct.2 inside]

theorem Kept.processEnds {s : HttpServer} (kept : s.Kept) (id : Nat) : (s.processEnds id).Kept where
  current := by
    show s.currentConnections = BitVec.ofNat 64 (s.connections.map _).length
    rw [List.length_map]
    exact kept.current
  total := kept.total
  distinct := by
    show ((s.connections.map _).map _).Nodup
    rw [List.map_map]
    exact kept.distinct
  numbered c mem := by
    obtain ⟨d, there, rfl⟩ := List.mem_map.mp mem
    exact kept.numbered d there
  places := by
    show s.taskGate.count = s.held + (s.connections.map _).length + s.leaving
    rw [List.length_map]
    exact kept.places
  shut closed c mem := by
    obtain ⟨d, there, rfl⟩ := List.mem_map.mp mem
    exact kept.shut closed d there
  aborted := kept.aborted

/-- The connection that an event is about. -/
theorem mem_ids {cs : List OpenConnection} {id : Nat} {ended : OpenConnection → Bool}
    (here : (cs.any fun c => c.id == id && ended c) = true) : id ∈ cs.map (·.id) := by
  obtain ⟨c, mem, same⟩ := List.any_eq_true.mp here
  rw [Bool.and_eq_true, beq_iff_eq] at same
  exact List.mem_map.mpr ⟨c, mem, same.1⟩

theorem Kept.processed {s : HttpServer} (kept : s.Kept) {id : Nat}
    (inside : id ∈ s.connections.map (·.id)) :
    ({ s.destroy id with leaving := s.leaving + 1 } : HttpServer).Kept := by
  have counted := length_destroy kept.distinct inside
  have fewer : (s.connections.filter fun c => c.id != id).Sublist s.connections :=
    List.filter_sublist
  exact {
    current := by
      show s.currentConnections - 1 = _
      rw [kept.current, ← counted, ofNat_pred]
      rfl
    total := kept.total
    distinct := (fewer.map _).nodup kept.distinct
    numbered := fun c mem => kept.numbered c (fewer.subset mem)
    places := by
      have before := kept.places
      change s.taskGate.count =
        s.held + (s.connections.filter fun c => c.id != id).length + (s.leaving + 1)
      omega
    shut := fun closed c mem => kept.shut closed c (fewer.subset mem)
    aborted := kept.aborted }

/-- The connection of an accept whose process starts, with its place in the gate. -/
theorem Kept.onNewConnection {s : HttpServer} (kept : s.Kept) :
    ({ s.onNewConnection with taskGate := ⟨s.taskGate.count + 1, false⟩ } : HttpServer).Kept where
  current := by
    show s.currentConnections + 1 = _
    rw [kept.current, HttpServer.onNewConnection, List.length_append, BitVec.ofNat_add]
    rfl
  total := by
    show s.totalConnections + 1 = _
    rw [kept.total, HttpServer.onNewConnection, BitVec.ofNat_add]
    rfl
  distinct := by
    show ((s.connections ++ [_]).map _).Nodup
    rw [List.map_append, List.nodup_append]
    refine ⟨kept.distinct, List.nodup_singleton _, ?_⟩
    intro a old b new same
    obtain ⟨c, mem, rfl⟩ := List.mem_map.mp old
    have below := kept.numbered c mem
    have fresh : b = s.accepted := by simpa using new
    omega
  numbered c mem := by
    rcases List.mem_append.mp mem with old | new
    · exact Nat.lt_succ_of_lt (kept.numbered c old)
    · rw [List.mem_singleton.mp new]
      exact Nat.lt_succ_self _
  places := by
    have before := kept.places
    change s.taskGate.count + 1 = s.held + (s.connections ++ [_]).length + s.leaving
    rw [List.length_append, List.length_singleton]
    omega
  shut closed := by cases closed
  aborted closed := by cases closed

/-- Behind a closed gate a connection comes and goes within one continuation: only
the total shows it. -/
theorem serve_closed {s : HttpServer} (kept : s.Kept) (closed : s.taskGate.closed = true) :
    s.serve = { s with
      totalConnections := s.totalConnections + 1
      accepted := s.accepted + 1 } := by
  have apart : (s.connections.filter fun c => c.id != s.accepted) = s.connections := by
    refine List.filter_eq_self.mpr fun c mem => ?_
    have below := kept.numbered c mem
    simpa using Nat.ne_of_lt below
  have back : s.currentConnections + 1 - 1 = s.currentConnections := BitVec.add_sub_cancel _ _
  simp only [serve, Gate.enter_eq_none.mpr closed, destroy, HttpServer.onNewConnection, back,
    List.filter_append, apart]
  simp

theorem Kept.serve {s : HttpServer} (kept : s.Kept) : s.serve.Kept := by
  cases closed : s.taskGate.closed with
  | false =>
      have entered := Gate.enter_eq_some.mpr ⟨closed, rfl⟩
      rw [HttpServer.serve]
      simp only [entered]
      exact kept.onNewConnection
  | true =>
      rw [serve_closed kept closed]
      exact { kept with
        total := by
          show s.totalConnections + 1 = _
          rw [kept.total, BitVec.ofNat_add]
          rfl
        numbered := fun c mem => Nat.lt_succ_of_lt (kept.numbered c mem) }

/-! ### Loops and stop -/

/-- A round enters an open gate and waits for its accept, or ends the loop. -/
theorem round_spec (g : Gate) :
    (g.closed = false ∧ round g = (⟨g.count + 1, false⟩, .accepting)) ∨
    (g.closed = true ∧ round g = (g, .finished)) := by
  cases closed : g.closed with
  | false => exact .inl ⟨rfl, by rw [round, Gate.enter_eq_some.mpr ⟨closed, rfl⟩]⟩
  | true => exact .inr ⟨rfl, by rw [round, Gate.enter_eq_none.mpr closed]⟩

theorem doAccepts_spec (g : Gate) :
    (g.closed = false ∧ doAccepts g = (⟨g.count + 2, false⟩, .accepting)) ∨
    (g.closed = true ∧ doAccepts g = (g, .gone)) := by
  cases closed : g.closed with
  | false =>
      refine .inl ⟨rfl, ?_⟩
      rw [doAccepts, Gate.enter_eq_some.mpr ⟨closed, rfl⟩]
      rfl
  | true => exact .inr ⟨rfl, by rw [doAccepts, Gate.enter_eq_none.mpr closed]⟩

theorem Kept.listen {s : HttpServer} (kept : s.Kept) : s.listen.Kept := by
  have before := kept.places
  have added (loop : AcceptLoop) :
      ((s.listeners ++ [(⟨loop, false⟩ : Listener)]).map fun l => l.loop.places).sum =
        s.held + loop.places := by
    simp [held]
  rcases doAccepts_spec s.taskGate with ⟨_, issued⟩ | ⟨closed, refused⟩
  · rw [HttpServer.listen, issued]
    refine { kept with
      places := ?_
      shut := fun closed => ?_
      aborted := fun closed => ?_ }
    · change s.taskGate.count + 2 = _ + s.connections.length + s.leaving
      rw [held, added]
      simp only [AcceptLoop.places]
      omega
    · cases closed
    · cases closed
  · rw [HttpServer.listen, refused]
    refine { kept with
      places := ?_
      shut := fun _ => kept.shut closed
      aborted := fun _ x mem accepting => ?_ }
    · change s.taskGate.count = _ + s.connections.length + s.leaving
      rw [held, added]
      exact before
    · rcases List.mem_append.mp mem with old | new
      · exact kept.aborted closed x old accepting
      · rw [List.mem_singleton.mp new] at accepting
        cases accepting

theorem Kept.stop {s : HttpServer} (kept : s.Kept) : s.stop.Kept where
  current := by
    show s.currentConnections = BitVec.ofNat 64 (s.connections.map _).length
    rw [List.length_map]
    exact kept.current
  total := kept.total
  distinct := by
    show ((s.connections.map _).map _).Nodup
    rw [List.map_map]
    exact kept.distinct
  numbered c mem := by
    obtain ⟨d, there, rfl⟩ := List.mem_map.mp mem
    exact kept.numbered d there
  places := by
    show s.taskGate.count =
      ((s.listeners.map _).map _).sum + (s.connections.map _).length + s.leaving
    rw [List.map_map, List.length_map]
    exact kept.places
  shut _ c mem := by
    obtain ⟨d, _, rfl⟩ := List.mem_map.mp mem
    rfl
  aborted _ l mem _ := by
    obtain ⟨x, _, rfl⟩ := List.mem_map.mp mem
    rfl

/-! ## What one step does -/

/-- The step lemma. Loops and processes have as many places in the gate as the gate
counts, whatever continuation runs next. -/
theorem Kept.step {s s' : HttpServer} {e : Event} (kept : s.Kept) (next : s.step e = some s') :
    s'.Kept := by
  have counted := kept.places
  cases e with
  | listen =>
      cases next
      exact kept.listen
  | accepted l =>
      simp only [HttpServer.step, Option.ite_none_right_eq_some, Option.some.injEq] at next
      obtain ⟨here, rfl⟩ := next
      have stays : s.serve.loopOf l = some .accepting := by
        rw [← here]
        unfold HttpServer.serve
        split <;> rfl
      exact kept.serve.advance stays rfl rfl (by simp)
  | acceptFailed l =>
      simp only [HttpServer.step, Option.ite_none_right_eq_some, Option.some.injEq] at next
      obtain ⟨here, rfl⟩ := next
      exact kept.advance here rfl rfl (by simp)
  | leave l =>
      simp only [HttpServer.step] at next
      split at next
      · rename_i here
        cases next
        have inside := held_advance here .between
        simp only [AcceptLoop.places] at inside
        refine kept.advance here rfl ?_ (by simp)
        simp only [AcceptLoop.places, Gate.leave_count]
        omega
      · rename_i here
        cases next
        have inside := held_advance here .gone
        simp only [AcceptLoop.places] at inside
        refine kept.advance here rfl ?_ (by simp)
        simp only [AcceptLoop.places, Gate.leave_count]
        omega
      · cases next
  | again l =>
      simp only [HttpServer.step, Option.ite_none_right_eq_some, Option.some.injEq] at next
      obtain ⟨here, rfl⟩ := next
      rcases round_spec s.taskGate with ⟨isOpen, issued⟩ | ⟨closed, ended⟩
      · rw [issued]
        exact kept.advance here isOpen.symm rfl (by simp)
      · rw [ended]
        exact kept.advance here rfl rfl (by simp)
  | processEnds id =>
      simp only [HttpServer.step, Option.ite_none_right_eq_some, Option.some.injEq] at next
      obtain ⟨_, rfl⟩ := next
      exact kept.processEnds id
  | processed id =>
      simp only [HttpServer.step, Option.ite_none_right_eq_some, Option.some.injEq] at next
      obtain ⟨here, rfl⟩ := next
      exact kept.processed (mem_ids here)
  | leaveProcess =>
      simp only [HttpServer.step, Option.ite_none_right_eq_some, Option.some.injEq] at next
      obtain ⟨some, rfl⟩ := next
      refine { kept with places := ?_ }
      change s.taskGate.count - 1 = s.held + s.connections.length + (s.leaving - 1)
      omega
  | stop =>
      simp only [HttpServer.step, Option.ite_none_left_eq_some, Option.some.injEq] at next
      obtain ⟨_, rfl⟩ := next
      exact kept.stop

/-! ## What a run does -/

theorem kept_of_run {es : List Event} {s : HttpServer} (run : exec step start es = some s) :
    s.Kept :=
  exec_invariant (fun _ _ _ kept next => kept.step next) kept_start run

theorem held_eq_zero {s : HttpServer} : s.held = 0 ↔ ∀ l ∈ s.listeners, l.loop = .gone := by
  rw [held, List.sum_eq_zero_iff_forall_eq_nat]
  constructor
  · intro none l mem
    have nothing := none _ (List.mem_map_of_mem mem)
    cases loop : l.loop <;> simp_all [AcceptLoop.places]
  · intro all n mem
    obtain ⟨l, there, rfl⟩ := List.mem_map.mp mem
    rw [all l there]
    rfl

/-- In every run the counters of the server are exact, no connection is listed twice,
the gate counts the places of the loops, the connections and the processes that are
leaving, and the future of `stop` is ready just if `stop` was called and nothing is
left: no connection, no process and no loop. -/
theorem connections_accounted (es : List Event) (s : HttpServer)
    (run : exec step start es = some s) :
    s.currentConnections = BitVec.ofNat 64 s.connections.length ∧
      s.totalConnections = BitVec.ofNat 64 s.accepted ∧
      (s.connections.map (·.id)).Nodup ∧
      s.taskGate.count = s.held + s.connections.length + s.leaving ∧
      (s.Stopped ↔ s.taskGate.closed = true ∧ s.connections = [] ∧ s.leaving = 0 ∧
        ∀ l ∈ s.listeners, l.loop = .gone) := by
  have kept := kept_of_run run
  refine ⟨kept.current, kept.total, kept.distinct, kept.places, ?_⟩
  have counted := kept.places
  rw [Stopped, Gate.Drained, ← held_eq_zero, ← List.length_eq_zero_iff]
  refine and_congr_right fun _ => ?_
  omega

theorem connections_accounted_one : ∃ s, exec step start [.listen, .accepted 0] = some s ∧
    s.currentConnections = BitVec.ofNat 64 s.connections.length ∧ ¬s.Stopped := by
  refine ⟨_, rfl, (connections_accounted [.listen, .accepted 0] _ rfl).1, ?_⟩
  decide

/-! ### Behind the closed gate -/

/-- The processes that have not ended. -/
def running (s : HttpServer) : Nat := s.connections.countP fun c => !c.ended

/-- How many continuations are still to run once the gate is closed: those of the
loops, the end of each process, its continuation and its leaving, and the leavings
that are due. -/
def remaining (s : HttpServer) : Nat :=
  (s.listeners.map fun l => l.loop.rounds).sum + 2 * s.connections.length + s.running + s.leaving

/-- A process that ends is not running any more. -/
theorem running_processEnds {s : HttpServer} {id : Nat}
    (here : (s.connections.any fun c => c.id == id && !c.ended) = true) :
    (s.processEnds id).running < s.running := by
  obtain ⟨c, mem, ends⟩ := List.any_eq_true.mp here
  obtain ⟨front, back, split⟩ := List.append_of_mem mem
  rw [Bool.and_eq_true] at ends
  have fewer (cs : List OpenConnection) : (cs.map fun d : OpenConnection =>
      { d with ended := d.ended || d.id == id }).countP (fun d => !d.ended) ≤
        cs.countP fun d => !d.ended := by
    rw [List.countP_map]
    refine List.countP_mono_left fun d _ still => ?_
    rw [Function.comp_apply, Bool.not_or, Bool.and_eq_true] at still
    exact still.1
  have first := fewer front
  have last := fewer back
  unfold running processEnds
  dsimp only
  rw [split, List.map_append, List.map_cons, List.countP_append, List.countP_append,
    List.countP_cons_of_neg (by simp [ends.1]),
    List.countP_cons_of_pos (p := fun c : OpenConnection => !c.ended) ends.2]
  omega

/-- A loop that goes on leaves less to do. -/
theorem remaining_advance {s : HttpServer} {l : Nat} {old new : AcceptLoop}
    (here : s.loopOf l = some old) (less : new.rounds < old.rounds) :
    (s.advance l new).remaining < s.remaining := by
  have counted := sum_advance AcceptLoop.rounds here new
  simp only [remaining, running, HttpServer.advance] at counted ⊢
  omega

/-- One step behind the closed gate: the gate stays closed, no connection joins those
that are there, and there is less left to do unless another listener was added. -/
theorem Kept.closing {s s' : HttpServer} {e : Event} (kept : s.Kept)
    (closed : s.taskGate.closed = true) (next : s.step e = some s') :
    s'.taskGate.closed = true ∧
      (s'.connections.map (·.id)).Sublist (s.connections.map (·.id)) ∧
      (e ≠ .listen → s'.remaining < s.remaining) := by
  cases e with
  | listen =>
      cases next
      rcases doAccepts_spec s.taskGate with ⟨isOpen, _⟩ | ⟨_, refused⟩
      · rw [closed] at isOpen
        cases isOpen
      · rw [HttpServer.listen, refused]
        exact ⟨closed, List.Sublist.refl _, by simp⟩
  | accepted l =>
      simp only [HttpServer.step, Option.ite_none_right_eq_some, Option.some.injEq] at next
      obtain ⟨here, rfl⟩ := next
      rw [serve_closed kept closed]
      refine ⟨closed, List.Sublist.refl _, fun _ => ?_⟩
      exact remaining_advance here (by decide : AcceptLoop.returning.rounds < 4)
  | acceptFailed l =>
      simp only [HttpServer.step, Option.ite_none_right_eq_some, Option.some.injEq] at next
      obtain ⟨here, rfl⟩ := next
      refine ⟨closed, List.Sublist.refl _, fun _ => ?_⟩
      exact remaining_advance here (by decide : AcceptLoop.returning.rounds < 4)
  | leave l =>
      simp only [HttpServer.step] at next
      split at next
      · rename_i here
        cases next
        refine ⟨closed, List.Sublist.refl _, fun _ => ?_⟩
        exact remaining_advance here (by decide : AcceptLoop.between.rounds < 3)
      · rename_i here
        cases next
        refine ⟨closed, List.Sublist.refl _, fun _ => ?_⟩
        exact remaining_advance here (by decide : AcceptLoop.gone.rounds < 1)
      · cases next
  | again l =>
      simp only [HttpServer.step, Option.ite_none_right_eq_some, Option.some.injEq] at next
      obtain ⟨here, rfl⟩ := next
      rcases round_spec s.taskGate with ⟨isOpen, _⟩ | ⟨_, ended⟩
      · rw [closed] at isOpen
        cases isOpen
      · rw [ended]
        refine ⟨closed, List.Sublist.refl _, fun _ => ?_⟩
        exact remaining_advance here (by decide : AcceptLoop.finished.rounds < 2)
  | processEnds id =>
      simp only [HttpServer.step, Option.ite_none_right_eq_some, Option.some.injEq] at next
      obtain ⟨here, rfl⟩ := next
      have ids : (s.processEnds id).connections.map (·.id) = s.connections.map (·.id) := by
        unfold HttpServer.processEnds
        rw [List.map_map]
        rfl
      refine ⟨closed, ids ▸ List.Sublist.refl _, fun _ => ?_⟩
      have fewer := running_processEnds here
      have length : (s.processEnds id).connections.length = s.connections.length :=
        List.length_map ..
      simp only [remaining, length]
      simp only [HttpServer.processEnds] at fewer ⊢
      omega
  | processed id =>
      simp only [HttpServer.step, Option.ite_none_right_eq_some, Option.some.injEq] at next
      obtain ⟨here, rfl⟩ := next
      refine ⟨closed, List.filter_sublist.map _, fun _ => ?_⟩
      have counted := length_destroy kept.distinct (mem_ids here)
      have fewer : (s.connections.filter fun c => c.id != id).countP (fun c => !c.ended) ≤ s.running :=
        List.filter_sublist.countP_le
      simp only [remaining, running, destroy] at fewer ⊢
      omega
  | leaveProcess =>
      simp only [HttpServer.step, Option.ite_none_right_eq_some, Option.some.injEq] at next
      obtain ⟨some, rfl⟩ := next
      refine ⟨closed, List.Sublist.refl _, fun _ => ?_⟩
      simp only [remaining, running]
      omega
  | stop =>
      simp [HttpServer.step, closed] at next

/-- A continuation of the server itself: no call of `listen`, and not the end of a
process. -/
def Event.own : Event → Bool
  | .listen | .processEnds _ => false
  | _ => true

/-- Only the processes of connections are inside the gate, and none has ended. -/
def Processing (s : HttpServer) : Prop :=
  s.taskGate.count = s.connections.length ∧ ∀ c ∈ s.connections, c.ended = false

/-- As long as somebody is inside the gate, the server goes on, or it waits for
processes to end: a pending accept fails or yields, a loop goes on, or a process that
has ended leaves. -/
theorem Kept.goesOn {s : HttpServer} (kept : s.Kept) :
    (∃ e : Event, e.own = true ∧ (s.step e).isSome = true) ∨ s.Processing := by
  by_cases loops : ∀ l ∈ s.listeners, l.loop = .gone
  · have none := held_eq_zero.mpr loops
    have counted := kept.places
    by_cases due : 0 < s.leaving
    · exact .inl ⟨.leaveProcess, rfl, by simp [HttpServer.step, due]⟩
    by_cases finished : ∃ c ∈ s.connections, c.ended = true
    · obtain ⟨c, mem, ended⟩ := finished
      have here : (s.connections.any fun d => d.id == c.id && d.ended) = true :=
        List.any_eq_true.mpr ⟨c, mem, by simp [ended]⟩
      exact .inl ⟨.processed c.id, rfl, by simp [HttpServer.step, here]⟩
    · refine .inr ⟨by omega, fun c mem => ?_⟩
      exact Bool.eq_false_iff.mpr fun ended => finished ⟨c, mem, ended⟩
  · obtain ⟨x, running⟩ := not_forall.mp loops
    obtain ⟨mem, running⟩ := Classical.not_imp.mp running
    obtain ⟨l, found⟩ := List.mem_iff_getElem?.mp mem
    have here : s.loopOf l = some x.loop := by rw [loopOf, found, Option.map_some]
    left
    cases stage : x.loop with
    | accepting => exact ⟨.acceptFailed l, rfl, by simp [HttpServer.step, here, stage]⟩
    | returning => exact ⟨.leave l, rfl, by simp [HttpServer.step, here, stage]⟩
    | between => exact ⟨.again l, rfl, by simp [HttpServer.step, here, stage]⟩
    | finished => exact ⟨.leave l, rfl, by simp [HttpServer.step, here, stage]⟩
    | gone => exact absurd stage running

/-- Once `stop` was called, in every further run: no connection joins those that are
there, every one of them was shut down and every accept that is still pending aborted.
The future of `stop` is ready, or the server can go on by itself, or nothing is left
but processes of connections that have not ended. And at most as many continuations
run as were left when `stop` was called, the ends of those processes included, so that
the future is ready at last if they end. -/
theorem stop_drains (es fs : List Event) (s t : HttpServer) (run : exec step start es = some s)
    (stopping : s.taskGate.closed = true) (goesOn : exec step s fs = some t) :
    (t.connections.map (·.id)).Sublist (s.connections.map (·.id)) ∧
      (∀ c ∈ t.connections, c.shutDown = true) ∧
      (∀ l ∈ t.listeners, l.loop = .accepting → l.aborted = true) ∧
      (t.Stopped ∨ (∃ e : Event, e.own = true ∧ (t.step e).isSome = true) ∨
        t.connections ≠ [] ∧ t.Processing) ∧
      (.listen ∉ fs → fs.length ≤ s.remaining) := by
  have kept := kept_of_run run
  have later : t.Kept ∧ t.taskGate.closed = true ∧
      (t.connections.map (·.id)).Sublist (s.connections.map (·.id)) := by
    refine exec_invariant (I := fun u => u.Kept ∧ u.taskGate.closed = true ∧
      (u.connections.map (·.id)).Sublist (s.connections.map (·.id))) ?_
      ⟨kept, stopping, List.Sublist.refl _⟩ goesOn
    rintro u e u' ⟨kept, closed, fewer⟩ next
    obtain ⟨closed', fewer', _⟩ := kept.closing closed next
    exact ⟨kept.step next, closed', fewer'.trans fewer⟩
  obtain ⟨kept', closed, fewer⟩ := later
  refine ⟨fewer, kept'.shut closed, kept'.aborted closed, ?_, fun quiet => ?_⟩
  · rcases kept'.goesOn with own | processing
    · exact .inr (.inl own)
    · by_cases none : t.connections = []
      · refine .inl ⟨closed, ?_⟩
        rw [processing.1, none, List.length_nil]
      · exact .inr (.inr ⟨none, processing⟩)
  · have others : ∀ e ∈ fs, e ≠ .listen := fun e mem same => quiet (same ▸ mem)
    refine exec_length_le (I := fun u => u.Kept ∧ u.taskGate.closed = true) ?_
      ⟨kept, stopping⟩ others goesOn
    rintro u e u' ⟨kept, closed⟩ other next
    obtain ⟨closed', _, less⟩ := kept.closing closed next
    exact ⟨⟨kept.step next, closed'⟩, less other⟩

/-- A second connection comes when `stop` was called already: it is destroyed, and
only the total counts it. -/
theorem stop_drains_two : ∃ s t, exec step start [.listen, .accepted 0, .leave 0, .again 0, .stop] =
      some s ∧ exec step s [.accepted 0, .processEnds 0, .processed 0, .leaveProcess] = some t ∧
      (t.connections.map (·.id)).Sublist (s.connections.map (·.id)) ∧ t.totalConnections = 2 ∧
      t.connections = [] := by
  refine ⟨_, _, rfl, rfl, ?_, by decide, by decide⟩
  exact (stop_drains [.listen, .accepted 0, .leave 0, .again 0, .stop]
    [.accepted 0, .processEnds 0, .processed 0, .leaveProcess] _ _ rfl rfl rfl).1

end HttpServer

end ActorNet.Http
