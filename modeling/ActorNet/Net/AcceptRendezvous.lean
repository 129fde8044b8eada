import Mathlib.Data.List.Perm.Basic
import Mathlib.Logic.Function.Basic
import ActorNet.Lib.Run

/-!
# Accepting connections on other shards

The shard that listens takes the connections and moves each to the shard that its
load balancer picks. There a connection meets an accept of the same protocol and
address in one of two maps: `sockets` has the accepts that wait, `conn_q` the
connections. Each connection has a handle of the load balancer, and whoever drops
the handle reports it to the shard that listens.

Connections and accepts are named by the order in which they came, and what
becomes of them is kept, so that it can be counted. Whatever makes an object may
fail for want of memory.
-/

namespace ActorNet.Net.PosixStack

open Lib

variable {A : Type}

/-! ## Connections and their handles -/

/-- `conntrack::handle`; the load balancer is that of the listening socket `lb`. -/
structure Handle where
  hostCpu : Nat
  targetCpu : Nat
  lb : Nat
  deriving DecidableEq, Repr

/-- `connection`; its descriptor is named by `id`. -/
structure Connection (A : Type) where
  id : Nat
  addr : A
  handle : Handle
  deriving DecidableEq, Repr

/-- A `protocol_and_socket_address` in the maps of one shard. -/
structure Slot (A : Type) where
  cpu : Nat
  protocol : Int
  sa : A
  deriving DecidableEq, Repr

/-- What an accept is resolved with: `ECONNABORTED`, if it is aborted. -/
inductive Result (A : Type)
  | value (c : Connection A)
  | exception
  | aborted
  deriving DecidableEq, Repr

/-! ## Listening sockets -/

/-- `load_balancing_algorithm`. -/
inductive LoadBalancingAlgorithm
  | connectionDistribution
  | port
  | fixed
  deriving DecidableEq, Repr

/-- `posix_server_socket_impl`, with the load balancer of its `_conntrack`. -/
structure ServerSocket (A : Type) where
  hostCpu : Nat
  protocol : Int
  sa : A
  lba : LoadBalancingAlgorithm
  fixedCpu : Nat
  cpuLoad : List (BitVec 32)
  deriving DecidableEq, Repr

/-- `std::min_element` behind the least element so far: its place. -/
def minElementFrom (best next : Nat) (least : BitVec 32) : List (BitVec 32) → Nat
  | [] => best
  | load :: rest =>
      if load < least then minElementFrom next (next + 1) load rest
      else minElementFrom best (next + 1) least rest

/-- `std::min_element`: the place of the first that is least. -/
def minElement : List (BitVec 32) → Nat
  | [] => 0
  | load :: rest => minElementFrom 0 1 load rest

namespace ServerSocket

/-- The shard that gets the next connection. -/
def pick (port : Nat) (x : ServerSocket A) : Nat :=
  match x.lba with
  | .connectionDistribution => minElement x.cpuLoad
  | .port => port % x.cpuLoad.length
  | .fixed => x.fixedCpu

/-- `next_cpu` and `force_cpu`, after the choice. -/
def forceCpu (cpu : Nat) (x : ServerSocket A) : ServerSocket A :=
  { x with cpuLoad := x.cpuLoad.modify cpu (· + 1) }

/-- `closed_cpu`. -/
def closedCpu (cpu : Nat) (x : ServerSocket A) : ServerSocket A :=
  { x with cpuLoad := x.cpuLoad.modify cpu (· - 1) }

end ServerSocket

/-! ## The shards -/

/-- The two maps of every shard, the connections on their way to one, and what
became of connections and accepts. -/
structure Rendezvous (A : Type) where
  /-- `sockets`: the accept that waits. -/
  sockets : Slot A → Option Nat := fun _ => none
  /-- `conn_q`. -/
  connQ : List (Slot A × Connection A) := []
  moving : List (Slot A × Connection A) := []
  /-- Where each connection goes. -/
  taken : List (Slot A) := []
  /-- Where each accept was made. -/
  asked : List (Slot A) := []
  resolved : List (Nat × Result A) := []
  /-- Connections of the shard that listens. -/
  own : List Nat := []
  /-- Connections that `abort_accept` dropped. -/
  aborted : List Nat := []
  /-- Connections that were dropped when an object could not be made. -/
  failed : List Nat := []

/-- All shards of the process. -/
structure Shards (A : Type) extends Rendezvous A where
  listeners : List (ServerSocket A) := []
  /-- The sockets in use, and their shard. -/
  live : List (Nat × Connection A) := []
  /-- Reports to the shard that listens. -/
  closing : List Handle := []

namespace Shards

variable [DecidableEq A]

/-- `closed_cpu`, on the shard that listens. -/
def closedCpu (h : Handle) (s : Shards A) : Shards A :=
  { s with listeners := s.listeners.modify h.lb (ServerSocket.closedCpu h.targetCpu) }

/-- `~handle`, on the shard `cpu`: what is submitted to the own shard runs at once. -/
def dropHandle (cpu : Nat) (h : Handle) (s : Shards A) : Shards A :=
  if h.hostCpu = cpu then s.closedCpu h else { s with closing := s.closing ++ [h] }

/-- `listen`. -/
def listen (count hostCpu : Nat) (protocol : Int) (sa : A) (lba : LoadBalancingAlgorithm)
    (fixedCpu : Nat) (s : Shards A) : Shards A :=
  { s with
    listeners := s.listeners ++ [⟨hostCpu, protocol, sa, lba, fixedCpu, List.replicate count 0⟩] }

/-- `posix_server_socket_impl::accept`, of one connection. There must be a shard of
the number that is picked. -/
def serverAccept (l port : Nat) (addr : A) (fails : Bool) (s : Shards A) : Option (Shards A) :=
  match s.listeners[l]? with
  | none => none
  | some x =>
      let cpu := x.pick port
      if x.cpuLoad.length ≤ cpu then none
      else
        let slot : Slot A := ⟨cpu, x.protocol, x.sa⟩
        let c : Connection A := ⟨s.taken.length, addr, ⟨x.hostCpu, cpu, l⟩⟩
        let s := { s with
          listeners := s.listeners.set l (x.forceCpu cpu)
          taken := s.taken ++ [slot] }
        if cpu ≠ x.hostCpu then some { s with moving := s.moving ++ [(slot, c)] }
        else if fails then
          some ({ s with failed := s.failed ++ [c.id] }.dropHandle cpu c.handle)
        else some { s with own := s.own ++ [c.id], live := s.live ++ [(cpu, c)] }

/-- A socket is made of the connection for an accept, or the accept fails and the
connection is dropped. -/
def hand (w : Nat) (slot : Slot A) (c : Connection A) (fails : Bool) (s : Shards A) : Shards A :=
  if fails then
    { s with
      resolved := s.resolved ++ [(w, Result.exception)]
      failed := s.failed ++ [c.id] }.dropHandle slot.cpu c.handle
  else
    { s with
      resolved := s.resolved ++ [(w, Result.value c)]
      live := s.live ++ [(slot.cpu, c)] }

/-- `move_connected_socket`. -/
def moveConnectedSocket (slot : Slot A) (c : Connection A) (fails : Bool) (s : Shards A) :
    Shards A :=
  match s.sockets slot with
  | some w =>
      { s with sockets := Function.update s.sockets slot none }.hand w slot c fails
  | none =>
      if fails then { s with failed := s.failed ++ [c.id] }.dropHandle slot.cpu c.handle
      else { s with connQ := s.connQ ++ [(slot, c)] }

/-- `posix_ap_server_socket_impl::accept`. Which connection of the slot `find` finds
is left open. Two accepts for one slot would fail an assertion. -/
def accept (slot : Slot A) (found : Nat) (fails : Bool) (s : Shards A) : Option (Shards A) :=
  let w := s.asked.length
  let s := { s with asked := s.asked ++ [slot] }
  if s.connQ.any fun x => x.1 = slot then
    match s.connQ[found]? with
    | some (slot', c) =>
        if slot' = slot then
          some ({ s with connQ := s.connQ.eraseIdx found }.hand w slot c fails)
        else none
    | none => none
  else if (s.sockets slot).isSome then none
  else if fails then some { s with resolved := s.resolved ++ [(w, Result.exception)] }
  else some { s with sockets := Function.update s.sockets slot (some w) }

/-- The connections of a slot are dropped. -/
def dropQueued (slot : Slot A) (s : Shards A) : Shards A :=
  let dropped := s.connQ.filter fun x => x.1 = slot
  dropped.foldl (fun s x => s.dropHandle slot.cpu x.2.handle) { s with
    connQ := s.connQ.filter fun x => ¬x.1 = slot
    aborted := s.aborted ++ dropped.map fun x => x.2.id }

/-- `abort_accept`. -/
def abortAccept (slot : Slot A) (s : Shards A) : Shards A :=
  let s := s.dropQueued slot
  match s.sockets slot with
  | some w => { s with
      sockets := Function.update s.sockets slot none
      resolved := s.resolved ++ [(w, Result.aborted)] }
  | none => s

end Shards

/-- What happens: in the background, connections and reports arrive. -/
inductive Event (A : Type)
  | listen (hostCpu : Nat) (protocol : Int) (sa : A) (lba : LoadBalancingAlgorithm)
      (fixedCpu : Nat)
  | serverAccept (l port : Nat) (addr : A) (fails : Bool)
  | arrive (i : Nat) (fails : Bool)
  | accept (slot : Slot A) (found : Nat) (fails : Bool)
  | abortAccept (slot : Slot A)
  | close (i : Nat)
  | report (i : Nat)
  deriving DecidableEq, Repr

namespace Shards

variable [DecidableEq A]

/-- One event, with `count` shards. -/
def step (count : Nat) (s : Shards A) : Event A → Option (Shards A)
  | .listen hostCpu protocol sa lba fixedCpu =>
      some (s.listen count hostCpu protocol sa lba fixedCpu)
  | .serverAccept l port addr fails => s.serverAccept l port addr fails
  | .arrive i fails => (s.moving[i]?).map fun x =>
      { s with moving := s.moving.eraseIdx i }.moveConnectedSocket x.1 x.2 fails
  | .accept slot found fails => s.accept slot found fails
  | .abortAccept slot => some (s.abortAccept slot)
  | .close i => (s.live[i]?).map fun x =>
      { s with live := s.live.eraseIdx i }.dropHandle x.1 x.2.handle
  | .report i => (s.closing[i]?).map fun h =>
      { s with closing := s.closing.eraseIdx i }.closedCpu h

end Shards

/-! ## What holds in every state -/

/-- The connection that an accept got. -/
def Result.connection : Result A → Option Nat
  | .value c => some c.id
  | _ => none

/-- Where the connections are, or what became of them. -/
def Rendezvous.places (r : Rendezvous A) : List Nat :=
  r.moving.map (fun x => x.2.id) ++ r.connQ.map (fun x => x.2.id) ++
    r.resolved.filterMap (fun x => x.2.connection) ++ r.own ++ r.aborted ++ r.failed

/-- Every connection is in one place, or one thing became of it; those that wait are
where they were sent. -/
def Rendezvous.Placed (r : Rendezvous A) (inHand : List (Slot A × Connection A)) : Prop :=
  (inHand.map (fun x => x.2.id) ++ r.places).Perm (List.range r.taken.length) ∧
    ∀ x ∈ inHand ++ r.moving ++ r.connQ, r.taken[x.2.id]? = some x.1

/-- Accepts and connections meet in one slot, and nothing waits there for what is
there already; an accept that waits is not resolved, and none is resolved twice. -/
structure Rendezvous.Matched (r : Rendezvous A) : Prop where
  apart : ∀ slot, (r.sockets slot).isSome → ∀ c, (slot, c) ∉ r.connQ
  waits : ∀ slot w, r.sockets slot = some w → r.asked[w]? = some slot ∧
    w ∉ r.resolved.map Prod.fst
  once : (r.resolved.map Prod.fst).Nodup
  asks : ∀ w ∈ r.resolved.map Prod.fst, w < r.asked.length
  handed : ∀ w c, (w, Result.value c) ∈ r.resolved →
    ∃ slot, r.taken[c.id]? = some slot ∧ r.asked[w]? = some slot

/-- A handle of a load balancer and a shard. -/
def Handle.of (l cpu : Nat) (h : Handle) : Bool := h.lb == l && h.targetCpu == cpu

namespace Shards

/-- The handles of all connections that there are. -/
def handles (s : Shards A) : List Handle :=
  s.moving.map (fun x => x.2.handle) ++ s.connQ.map (fun x => x.2.handle) ++
    s.live.map (fun x => x.2.handle)

/-- Every load is that of the handles that live, and of the reports to come. -/
def Counted (s : Shards A) : Prop :=
  ∀ l x, s.listeners[l]? = some x → ∀ cpu load, x.cpuLoad[cpu]? = some load →
    load = BitVec.ofNat 32 (s.handles.countP (Handle.of l cpu) +
      s.closing.countP (Handle.of l cpu))

/-- The same with handles that somebody holds for the moment. -/
structure Counts (s : Shards A) (inHand : List Handle) : Prop where
  counted : ∀ l x, s.listeners[l]? = some x → ∀ cpu load, x.cpuLoad[cpu]? = some load →
    load = BitVec.ofNat 32 ((inHand ++ s.handles ++ s.closing).countP (Handle.of l cpu))
  known : ∀ h ∈ inHand ++ s.handles ++ s.closing, h.lb < s.listeners.length

end Shards

/-! ## Counting -/

section Counting

variable {β γ : Type} [DecidableEq γ] (f : β → γ) {xs : List β} {i : Nat} {x : β}

theorem count_map_concat (xs : List β) (x : β) (c : γ) :
    ((xs ++ [x]).map f).count c = (xs.map f).count c + [f x].count c := by
  rw [List.map_append, List.count_append]
  rfl

theorem count_map_eraseIdx (here : xs[i]? = some x) (c : γ) :
    [f x].count c + ((xs.eraseIdx i).map f).count c = (xs.map f).count c := by
  obtain ⟨inside, rfl⟩ := List.getElem?_eq_some_iff.mp here
  have moved := (List.getElem_cons_eraseIdx_perm inside).map f
  rw [← moved.count_eq c, List.map_cons, ← List.count_append]
  rfl

end Counting

/-! ## Handles -/

namespace Shards.Counts

variable {s s' : Shards A} {h : Handle} {hs hs' : List Handle}

/-- Handles only change their places. -/
theorem of_perm (counts : s.Counts hs) (listeners : s'.listeners = s.listeners)
    (same : (hs' ++ s'.handles ++ s'.closing).Perm (hs ++ s.handles ++ s.closing)) :
    s'.Counts hs' where
  counted l x there cpu load read := by
    rw [listeners] at there
    rw [same.countP_eq]
    exact counts.counted l x there cpu load read
  known h mem := by
    rw [listeners]
    exact counts.known h (same.mem_iff.mp mem)

theorem one_less (n : Nat) : BitVec.ofNat 32 (n + 1) - 1 = BitVec.ofNat 32 n := by
  rw [BitVec.ofNat_add]
  exact BitVec.add_sub_cancel _ _

theorem countP_cons (l cpu : Nat) (hs : List Handle) :
    (h :: hs).countP (Handle.of l cpu) =
      hs.countP (Handle.of l cpu) + if h.lb = l ∧ h.targetCpu = cpu then 1 else 0 := by
  rw [List.countP_cons]
  congr 1
  unfold Handle.of
  by_cases same : h.lb = l ∧ h.targetCpu = cpu
  · rw [if_pos same, if_pos (by rw [same.1, same.2]; simp)]
  · rw [if_neg same, if_neg (by simpa using same)]

/-- The counter of a handle that is dropped. -/
theorem closedCpu (counts : s.Counts (h :: hs)) : (s.closedCpu h).Counts hs where
  counted l x there cpu load read := by
    have there : (s.listeners.modify h.lb (ServerSocket.closedCpu h.targetCpu))[l]? = some x :=
      there
    rw [List.getElem?_modify] at there
    obtain ⟨x', before, rfl⟩ := Option.map_eq_some_iff.mp there
    have was : ∀ load', x'.cpuLoad[cpu]? = some load' → load' = BitVec.ofNat 32
        ((hs ++ s.handles ++ s.closing).countP (Handle.of l cpu) +
          if h.lb = l ∧ h.targetCpu = cpu then 1 else 0) := by
      intro load' read'
      rw [counts.counted l x' before cpu load' read', List.cons_append, List.cons_append,
        countP_cons]
    show load = BitVec.ofNat 32 ((hs ++ s.handles ++ s.closing).countP (Handle.of l cpu))
    by_cases here : h.lb = l
    · rw [if_pos here] at read
      have read : (x'.cpuLoad.modify h.targetCpu (· - 1))[cpu]? = some load := read
      rw [List.getElem?_modify] at read
      obtain ⟨load', read', rfl⟩ := Option.map_eq_some_iff.mp read
      rw [was load' read']
      by_cases there : h.targetCpu = cpu
      · rw [if_pos there, if_pos (show _ ∧ _ from ⟨here, there⟩), one_less]
      · rw [if_neg there, if_neg (show ¬(_ ∧ _) from fun both => there both.2), Nat.add_zero]
    · rw [if_neg here] at read
      rw [was load read, if_neg (show ¬(_ ∧ _) from fun both => here both.1), Nat.add_zero]
  known h' mem := by
    show h'.lb < (s.listeners.modify h.lb (ServerSocket.closedCpu h.targetCpu)).length
    rw [List.length_modify]
    exact counts.known h' (List.mem_cons_of_mem _ mem)

/-- A handle is dropped: counted out at once, or when the report arrives. -/
theorem dropHandle (counts : s.Counts (h :: hs)) (cpu : Nat) : (s.dropHandle cpu h).Counts hs := by
  unfold Shards.dropHandle
  split
  · -- on the shard that listens the closure runs in place
    exact counts.closedCpu
  · -- elsewhere the handle becomes a report
    refine counts.of_perm rfl ?_
    show (hs ++ s.handles ++ (s.closing ++ [h])).Perm (h :: hs ++ s.handles ++ s.closing)
    rw [← List.append_assoc]
    exact List.perm_append_singleton h _

/-- A new handle, and its counter. -/
theorem forceCpu (counts : s.Counts []) {l cpu : Nat} {x : ServerSocket A}
    (there : s.listeners[l]? = some x) {slots : List (Slot A)} :
    ({ s with listeners := s.listeners.set l (x.forceCpu cpu), taken := slots } :
      Shards A).Counts [⟨x.hostCpu, cpu, l⟩] where
  counted l' x' there' cpu' load read := by
    obtain ⟨inside, -⟩ := List.getElem?_eq_some_iff.mp there
    have there' : (s.listeners.set l (x.forceCpu cpu))[l']? = some x' := there'
    show load = BitVec.ofNat 32
      ((⟨x.hostCpu, cpu, l⟩ :: (s.handles ++ s.closing)).countP (Handle.of l' cpu'))
    rw [countP_cons]
    -- one load of one socket has gone up, that of the new handle
    by_cases same : l = l'
    · subst same
      rw [List.getElem?_set_self inside] at there'
      cases there'
      have read : (x.cpuLoad.modify cpu (· + 1))[cpu']? = some load := read
      rw [List.getElem?_modify] at read
      obtain ⟨load', read', rfl⟩ := Option.map_eq_some_iff.mp read
      have was : load' = BitVec.ofNat 32 ((s.handles ++ s.closing).countP (Handle.of l cpu')) :=
        counts.counted l x there cpu' load' read'
      by_cases here : cpu = cpu'
      · rw [if_pos here, if_pos (show _ ∧ _ from ⟨rfl, here⟩), was, BitVec.ofNat_add]
        rfl
      · rw [if_neg here, if_neg (show ¬(_ ∧ _) from fun both => here both.2), Nat.add_zero]
        exact was
    · rw [List.getElem?_set_ne same] at there'
      rw [if_neg (show ¬(_ ∧ _) from fun both => same both.1), Nat.add_zero]
      exact counts.counted l' x' there' cpu' load read
  known h mem := by
    obtain ⟨inside, -⟩ := List.getElem?_eq_some_iff.mp there
    show h.lb < (s.listeners.set l (x.forceCpu cpu)).length
    rw [List.length_set]
    rcases List.mem_cons.mp mem with rfl | old
    · exact inside
    · exact counts.known h old

/-- Nobody has a handle of a socket that begins to listen. -/
theorem listen (counts : s.Counts []) (count hostCpu : Nat) (protocol : Int) (sa : A)
    (lba : LoadBalancingAlgorithm) (fixedCpu : Nat) :
    (s.listen count hostCpu protocol sa lba fixedCpu).Counts [] where
  counted l x there cpu load read := by
    have there : (s.listeners ++ [_])[l]? = some x := there
    show load = BitVec.ofNat 32 ((s.handles ++ s.closing).countP (Handle.of l cpu))
    by_cases old : l < s.listeners.length
    · rw [List.getElem?_append_left old] at there
      exact counts.counted l x there cpu load read
    · rw [List.getElem?_append_right (Nat.not_lt.mp old)] at there
      obtain rfl := List.mem_singleton.mp (List.mem_of_getElem? there)
      have zero : load = 0 := (List.mem_replicate.mp (List.mem_of_getElem? read)).2
      -- a handle names a socket that was there before
      have none_ : (s.handles ++ s.closing).countP (Handle.of l cpu) = 0 := by
        refine List.countP_eq_zero.mpr fun h mem same => old ?_
        have same : h.lb = l := by
          unfold Handle.of at same
          exact eq_of_beq (Bool.and_eq_true_iff.mp same).1
        rw [← same]
        exact counts.known h mem
      rw [zero, none_]
      rfl
  known h mem := by
    show h.lb < (s.listeners ++ [_]).length
    rw [List.length_append]
    exact Nat.lt_add_right _ (counts.known h mem)

end Shards.Counts

/-! ## Connections -/

namespace Rendezvous.Placed

variable {r : Rendezvous A} {inHand : List (Slot A × Connection A)} {x : Slot A × Connection A}

/-- The same connections, some of them in other places. -/
theorem of_places {r' : Rendezvous A} {inHand' : List (Slot A × Connection A)}
    (placed : r.Placed inHand) (taken : r'.taken = r.taken)
    (same : (inHand'.map (fun x => x.2.id) ++ r'.places).Perm
      (inHand.map (fun x => x.2.id) ++ r.places))
    (sent : ∀ x ∈ inHand' ++ r'.moving ++ r'.connQ, x ∈ inHand ++ r.moving ++ r.connQ) :
    r'.Placed inHand' := by
  refine ⟨?_, fun x mem => ?_⟩
  · rw [taken]
    exact same.trans placed.1
  · rw [taken]
    exact placed.2 x (sent x mem)

/-- Two lists of places are compared by how often a connection is in each part. -/
theorem count_places (r : Rendezvous A) (n : Nat) :
    r.places.count n = (r.moving.map fun x => x.2.id).count n +
      (r.connQ.map fun x => x.2.id).count n +
      (r.resolved.filterMap fun x => x.2.connection).count n + r.own.count n +
      r.aborted.count n + r.failed.count n := by
  unfold places
  simp only [List.count_append]

theorem unmove (placed : r.Placed []) {i : Nat} (here : r.moving[i]? = some x) :
    ({ r with moving := r.moving.eraseIdx i } : Rendezvous A).Placed [x] := by
  refine placed.of_places rfl (List.perm_iff_count.mpr fun n => ?_) fun y mem => ?_
  · have taken := count_map_eraseIdx (fun x => x.2.id) here n
    show ([x.2.id] ++ places _).count n = ([] ++ places r).count n
    rw [List.count_append, List.nil_append, count_places, count_places]
    dsimp only
    omega
  · rcases List.mem_append.mp mem with front | queued
    · rcases List.mem_cons.mp front with rfl | moving
      · exact List.mem_append_left _ (List.mem_of_getElem? here)
      · exact List.mem_append_left _ (List.mem_of_mem_eraseIdx moving)
    · exact List.mem_append_right _ queued

theorem unqueue (placed : r.Placed []) {i : Nat} (here : r.connQ[i]? = some x) :
    ({ r with connQ := r.connQ.eraseIdx i } : Rendezvous A).Placed [x] := by
  refine placed.of_places rfl (List.perm_iff_count.mpr fun n => ?_) fun y mem => ?_
  · have taken := count_map_eraseIdx (fun x => x.2.id) here n
    show ([x.2.id] ++ places _).count n = ([] ++ places r).count n
    rw [List.count_append, List.nil_append, count_places, count_places]
    dsimp only
    omega
  · rcases List.mem_append.mp mem with front | queued
    · rcases List.mem_cons.mp front with rfl | moving
      · exact List.mem_append_right _ (List.mem_of_getElem? here)
      · exact List.mem_append_left _ moving
    · exact List.mem_append_right _ (List.mem_of_mem_eraseIdx queued)

theorem move (placed : r.Placed [x]) :
    ({ r with moving := r.moving ++ [x] } : Rendezvous A).Placed [] := by
  refine placed.of_places rfl (List.perm_iff_count.mpr fun n => ?_) fun y mem => ?_
  · show (places _).count n = ([x.2.id] ++ places r).count n
    rw [List.count_append, count_places, count_places]
    dsimp only
    rw [count_map_concat]
    omega
  · have mem : y ∈ (r.moving ++ [x]) ++ r.connQ := mem
    rcases List.mem_append.mp mem with front | queued
    · rcases List.mem_append.mp front with moving | new
      · exact List.mem_append_left _ (List.mem_cons_of_mem _ moving)
      · exact List.mem_append_left _ (List.mem_singleton.mp new ▸ List.mem_cons_self)
    · exact List.mem_append_right _ queued

theorem queue (placed : r.Placed [x]) :
    ({ r with connQ := r.connQ ++ [x] } : Rendezvous A).Placed [] := by
  refine placed.of_places rfl (List.perm_iff_count.mpr fun n => ?_) fun y mem => ?_
  · show (places _).count n = ([x.2.id] ++ places r).count n
    rw [List.count_append, count_places, count_places]
    dsimp only
    rw [count_map_concat]
    omega
  · have mem : y ∈ r.moving ++ (r.connQ ++ [x]) := mem
    rcases List.mem_append.mp mem with moving | queued
    · exact List.mem_append_left _ (List.mem_cons_of_mem _ moving)
    · rcases List.mem_append.mp queued with before | new
      · exact List.mem_append_right _ before
      · exact List.mem_append_left _ (List.mem_singleton.mp new ▸ List.mem_cons_self)

/-- What happens to a connection in hand: its number is added to one of the logs. -/
theorem log (placed : r.Placed [x]) {r' : Rendezvous A} (taken : r'.taken = r.taken)
    (moving : r'.moving = r.moving) (connQ : r'.connQ = r.connQ)
    (added : ∀ n, (r'.resolved.filterMap fun x => x.2.connection).count n + r'.own.count n +
        r'.aborted.count n + r'.failed.count n =
      (r.resolved.filterMap fun x => x.2.connection).count n + r.own.count n +
        r.aborted.count n + r.failed.count n + [x.2.id].count n) : r'.Placed [] := by
  refine placed.of_places taken (List.perm_iff_count.mpr fun n => ?_) fun y mem => ?_
  · have more := added n
    show (places r').count n = ([x.2.id] ++ places r).count n
    rw [List.count_append, count_places, count_places, moving, connQ]
    omega
  · rw [moving, connQ] at mem
    exact List.mem_cons_of_mem _ mem

theorem hand (placed : r.Placed [x]) (w : Nat) :
    ({ r with resolved := r.resolved ++ [(w, Result.value x.2)] } : Rendezvous A).Placed [] :=
  placed.log rfl rfl rfl fun n => by
    have more : (r.resolved ++ [(w, Result.value x.2)]).filterMap (fun x => x.2.connection) =
        r.resolved.filterMap (fun x => x.2.connection) ++ [x.2.id] := List.filterMap_append
    dsimp only
    rw [more, List.count_append]
    omega

theorem own (placed : r.Placed [x]) :
    ({ r with own := r.own ++ [x.2.id] } : Rendezvous A).Placed [] :=
  placed.log rfl rfl rfl fun n => by
    dsimp only
    rw [List.count_append]
    omega

theorem fail (placed : r.Placed [x]) :
    ({ r with failed := r.failed ++ [x.2.id] } : Rendezvous A).Placed [] :=
  placed.log rfl rfl rfl fun n => by
    dsimp only
    rw [List.count_append]
    omega

/-- An accept that gets no connection. -/
theorem note (placed : r.Placed inHand) (w : Nat) {result : Result A}
    (nothing : result.connection = none) :
    ({ r with resolved := r.resolved ++ [(w, result)] } : Rendezvous A).Placed inHand := by
  refine placed.of_places rfl ?_ fun _ mem => mem
  have same : (r.resolved ++ [(w, result)]).filterMap (fun x => x.2.connection) =
      r.resolved.filterMap fun x => x.2.connection := by
    have last : [(w, result)].filterMap (fun x => x.2.connection) = [] :=
      List.filterMap_cons_none nothing
    rw [List.filterMap_append, last, List.append_nil]
  have places : ({ r with resolved := r.resolved ++ [(w, result)] } : Rendezvous A).places =
      r.places := by
    unfold Rendezvous.places
    rw [same]
  rw [places]

theorem take (placed : r.Placed []) (fresh : x.2.id = r.taken.length) :
    ({ r with taken := r.taken ++ [x.1] } : Rendezvous A).Placed [x] := by
  refine ⟨?_, fun y mem => ?_⟩
  · show ([x.2.id] ++ r.places).Perm (List.range (r.taken ++ [x.1]).length)
    rw [List.length_append, List.length_singleton, List.range_succ, fresh]
    exact (List.perm_append_comm).trans (placed.1.append_right _)
  · show (r.taken ++ [x.1])[y.2.id]? = some y.1
    rcases List.mem_cons.mp mem with rfl | old
    · rw [fresh]
      exact List.getElem?_concat_length
    · have sent := placed.2 y old
      rw [List.getElem?_append_left (List.getElem?_eq_some_iff.mp sent).1]
      exact sent

/-- The connections of a slot leave the queue together. -/
theorem abort [DecidableEq A] (placed : r.Placed []) (slot : Slot A) :
    ({ r with
      connQ := r.connQ.filter fun x => ¬x.1 = slot
      aborted := r.aborted ++ (r.connQ.filter fun x => x.1 = slot).map fun x => x.2.id } :
      Rendezvous A).Placed [] := by
  have parts := (List.filter_append_perm (fun x => decide (x.1 = slot)) r.connQ).map
    fun x => x.2.id
  refine placed.of_places rfl (List.perm_iff_count.mpr fun n => ?_) fun y mem => ?_
  · have split := parts.count_eq n
    rw [List.map_append, List.count_append] at split
    show (places _).count n = (places r).count n
    rw [count_places, count_places]
    dsimp only
    simp only [decide_not]
    rw [List.count_append]
    omega
  · have mem : y ∈ r.moving ++ r.connQ.filter _ := mem
    rcases List.mem_append.mp mem with moving | queued
    · exact List.mem_append_left _ moving
    · exact List.mem_append_right _ (List.mem_of_mem_filter queued)

end Rendezvous.Placed

/-! ## Accepts -/

namespace Rendezvous.Matched

variable {r : Rendezvous A} {slot : Slot A} {w : Nat}

theorem old (matched : r.Matched) : r.asked.length ∉ r.resolved.map Prod.fst :=
  fun mem => Nat.lt_irrefl _ (matched.asks _ mem)

/-- A queue that is not longer. -/
theorem shrink (matched : r.Matched) {connQ moving : List (Slot A × Connection A)}
    (less : ∀ x ∈ connQ, x ∈ r.connQ) {own aborted failed : List Nat} :
    ({ r with connQ, moving, own, aborted, failed } : Rendezvous A).Matched where
  apart slot waiting c mem := matched.apart slot waiting c (less _ mem)
  waits := matched.waits
  once := matched.once
  asks := matched.asks
  handed := matched.handed

theorem queue (matched : r.Matched) (nobody : r.sockets slot = none) (c : Connection A) :
    ({ r with connQ := r.connQ ++ [(slot, c)] } : Rendezvous A).Matched where
  apart slot' waiting c' mem := by
    rcases List.mem_append.mp mem with before | new
    · exact matched.apart slot' waiting c' before
    · cases List.mem_singleton.mp new
      have waiting : (r.sockets slot).isSome := waiting
      rw [nobody] at waiting
      exact absurd waiting Bool.false_ne_true
  waits := matched.waits
  once := matched.once
  asks := matched.asks
  handed := matched.handed

theorem take (matched : r.Matched) (slot : Slot A) :
    ({ r with taken := r.taken ++ [slot] } : Rendezvous A).Matched where
  apart := matched.apart
  waits := matched.waits
  once := matched.once
  asks := matched.asks
  handed w c mem := by
    obtain ⟨slot', sent, made⟩ := matched.handed w c mem
    refine ⟨slot', ?_, made⟩
    rw [List.getElem?_append_left (List.getElem?_eq_some_iff.mp sent).1]
    exact sent

/-- A new accept is resolved at once. -/
theorem answer (matched : r.Matched) {result : Result A}
    (meets : ∀ c, result = .value c → r.taken[c.id]? = some slot) :
    ({ r with
      asked := r.asked ++ [slot]
      resolved := r.resolved ++ [(r.asked.length, result)] } : Rendezvous A).Matched where
  apart := matched.apart
  waits slot' w' waiting := by
    obtain ⟨made, open_⟩ := matched.waits slot' w' waiting
    have inside := (List.getElem?_eq_some_iff.mp made).1
    refine ⟨(List.getElem?_append_left inside).trans made, fun mem => ?_⟩
    have mem : w' ∈ (r.resolved ++ [(r.asked.length, result)]).map Prod.fst := mem
    rw [List.map_append] at mem
    rcases List.mem_append.mp mem with before | new
    · exact open_ before
    · exact absurd (List.mem_singleton.mp new) (Nat.ne_of_lt inside)
  once := by
    show ((r.resolved ++ [(r.asked.length, result)]).map Prod.fst).Nodup
    rw [List.map_append]
    refine (List.perm_append_singleton r.asked.length _).nodup_iff.mpr (List.nodup_cons.mpr ?_)
    exact ⟨matched.old, matched.once⟩
  asks w' mem := by
    have mem : w' ∈ (r.resolved ++ [(r.asked.length, result)]).map Prod.fst := mem
    show w' < (r.asked ++ [slot]).length
    rw [List.length_append, List.length_singleton]
    rw [List.map_append] at mem
    rcases List.mem_append.mp mem with before | new
    · exact Nat.lt_succ_of_lt (matched.asks w' before)
    · exact (List.mem_singleton.mp new).symm ▸ Nat.lt_succ_self _
  handed w' c mem := by
    rcases List.mem_append.mp mem with before | new
    · obtain ⟨slot', sent, made⟩ := matched.handed w' c before
      have inside := (List.getElem?_eq_some_iff.mp made).1
      exact ⟨slot', sent, (List.getElem?_append_left inside).trans made⟩
    · cases List.mem_singleton.mp new
      exact ⟨slot, meets c rfl, List.getElem?_concat_length⟩

variable [DecidableEq A]

/-- The accept that waits is resolved. -/
theorem wake (matched : r.Matched) (waiting : r.sockets slot = some w) {result : Result A}
    (meets : ∀ c, result = .value c → r.taken[c.id]? = some slot) :
    ({ r with
      sockets := Function.update r.sockets slot none
      resolved := r.resolved ++ [(w, result)] } : Rendezvous A).Matched where
  apart slot' waiting' c mem := by
    have waiting' : (Function.update r.sockets slot none slot').isSome := waiting'
    rw [Function.update_apply] at waiting'
    split at waiting'
    · exact absurd waiting' Bool.false_ne_true
    · exact matched.apart slot' waiting' c mem
  waits slot' w' waiting' := by
    have waiting' : Function.update r.sockets slot none slot' = some w' := waiting'
    rw [Function.update_apply] at waiting'
    split at waiting'
    · exact nomatch waiting'
    · rename_i other
      obtain ⟨made', open_⟩ := matched.waits slot' w' waiting'
      refine ⟨made', fun mem => ?_⟩
      have mem : w' ∈ (r.resolved ++ [(w, result)]).map Prod.fst := mem
      rw [List.map_append] at mem
      rcases List.mem_append.mp mem with before | new
      · exact open_ before
      · -- one accept is made in one slot
        have made := (matched.waits slot w waiting).1
        rw [← show w' = w from List.mem_singleton.mp new, made'] at made
        exact other (Option.some.inj made)
  once := by
    show ((r.resolved ++ [(w, result)]).map Prod.fst).Nodup
    rw [List.map_append]
    refine (List.perm_append_singleton w _).nodup_iff.mpr (List.nodup_cons.mpr ?_)
    exact ⟨(matched.waits slot w waiting).2, matched.once⟩
  asks w' mem := by
    have mem : w' ∈ (r.resolved ++ [(w, result)]).map Prod.fst := mem
    rw [List.map_append] at mem
    rcases List.mem_append.mp mem with before | new
    · exact matched.asks w' before
    · rw [List.mem_singleton.mp new]
      exact (List.getElem?_eq_some_iff.mp (matched.waits slot w waiting).1).1
  handed w' c mem := by
    rcases List.mem_append.mp mem with before | new
    · exact matched.handed w' c before
    · cases List.mem_singleton.mp new
      exact ⟨slot, meets c rfl, (matched.waits slot _ waiting).1⟩

/-- A new accept waits. -/
theorem wait (matched : r.Matched) (nothing : ∀ c, (slot, c) ∉ r.connQ) :
    ({ r with
      asked := r.asked ++ [slot]
      sockets := Function.update r.sockets slot (some r.asked.length) } :
      Rendezvous A).Matched where
  apart slot' waiting c mem := by
    have waiting : (Function.update r.sockets slot (some r.asked.length) slot').isSome := waiting
    rw [Function.update_apply] at waiting
    split at waiting
    -- had a connection been queued here, the accept would have got it
    · rename_i same
      exact nothing c (same ▸ mem)
    · exact matched.apart slot' waiting c mem
  waits slot' w' waiting := by
    have waiting : Function.update r.sockets slot (some r.asked.length) slot' = some w' := waiting
    rw [Function.update_apply] at waiting
    split at waiting
    · rename_i same
      cases waiting
      exact ⟨same ▸ List.getElem?_concat_length, matched.old⟩
    · obtain ⟨made, open_⟩ := matched.waits slot' w' waiting
      have inside := (List.getElem?_eq_some_iff.mp made).1
      exact ⟨(List.getElem?_append_left inside).trans made, open_⟩
  once := matched.once
  asks w' mem := by
    show w' < (r.asked ++ [slot]).length
    rw [List.length_append]
    exact Nat.lt_add_right _ (matched.asks w' mem)
  handed w' c mem := by
    obtain ⟨slot', sent, made⟩ := matched.handed w' c mem
    have inside := (List.getElem?_eq_some_iff.mp made).1
    exact ⟨slot', sent, (List.getElem?_append_left inside).trans made⟩

end Rendezvous.Matched

/-! ## One event, and a run -/

namespace Shards

variable {s s' : Shards A}

/-- The invariant, with a connection that is on its way from one place to another. -/
structure Orderly (s : Shards A) (inHand : List (Slot A × Connection A)) : Prop where
  placed : s.toRendezvous.Placed inHand
  matched : s.toRendezvous.Matched
  counts : s.Counts (inHand.map fun x => x.2.handle)

theorem count_handles (s : Shards A) (h : Handle) :
    s.handles.count h = (s.moving.map fun x => x.2.handle).count h +
      (s.connQ.map fun x => x.2.handle).count h + (s.live.map fun x => x.2.handle).count h := by
  unfold handles
  simp only [List.count_append]

theorem dropHandle_rendezvous (cpu : Nat) (h : Handle) (s : Shards A) :
    (s.dropHandle cpu h).toRendezvous = s.toRendezvous := by
  unfold dropHandle
  split <;> rfl

namespace Orderly

variable {x : Slot A × Connection A}

/-- The handles of a state are compared by how often a handle is in each part. -/
theorem of_count {hs hs' : List Handle} (counts : s.Counts hs)
    (listeners : s'.listeners = s.listeners) (closing : s'.closing = s.closing)
    (same : ∀ h, hs'.count h +
        ((s'.moving.map fun x => x.2.handle).count h + (s'.connQ.map fun x => x.2.handle).count h +
          (s'.live.map fun x => x.2.handle).count h) =
      hs.count h +
        ((s.moving.map fun x => x.2.handle).count h + (s.connQ.map fun x => x.2.handle).count h +
          (s.live.map fun x => x.2.handle).count h)) : s'.Counts hs' := by
  refine counts.of_perm listeners ?_
  rw [closing]
  refine List.Perm.append_right s.closing (List.perm_iff_count.mpr fun h => ?_)
  rw [List.count_append, List.count_append, count_handles, count_handles]
  exact same h

theorem unmove (orderly : s.Orderly []) {i : Nat} (here : s.moving[i]? = some x) :
    ({ s with moving := s.moving.eraseIdx i } : Shards A).Orderly [x] := by
  refine ⟨orderly.placed.unmove here, orderly.matched.shrink fun _ mem => mem, ?_⟩
  show Counts _ [x.2.handle]
  refine of_count orderly.counts rfl rfl fun h => ?_
  have taken := count_map_eraseIdx (fun x => x.2.handle) here h
  dsimp only
  rw [← taken, List.map_nil, List.count_nil]
  omega

theorem unqueue (orderly : s.Orderly []) {i : Nat} (here : s.connQ[i]? = some x) :
    ({ s with connQ := s.connQ.eraseIdx i } : Shards A).Orderly [x] := by
  refine ⟨orderly.placed.unqueue here,
    orderly.matched.shrink fun _ mem => List.mem_of_mem_eraseIdx mem, ?_⟩
  show Counts _ [x.2.handle]
  refine of_count orderly.counts rfl rfl fun h => ?_
  have taken := count_map_eraseIdx (fun x => x.2.handle) here h
  dsimp only
  rw [← taken, List.map_nil, List.count_nil]
  omega

theorem move (orderly : s.Orderly [x]) :
    ({ s with moving := s.moving ++ [x] } : Shards A).Orderly [] := by
  refine ⟨orderly.placed.move, orderly.matched.shrink fun _ mem => mem, ?_⟩
  have counts : s.Counts [x.2.handle] := orderly.counts
  refine of_count counts rfl rfl fun h => ?_
  dsimp only
  rw [count_map_concat, List.map_nil, List.count_nil]
  omega

theorem queue (orderly : s.Orderly [x]) (nobody : s.sockets x.1 = none) :
    ({ s with connQ := s.connQ ++ [x] } : Shards A).Orderly [] := by
  refine ⟨orderly.placed.queue, orderly.matched.queue nobody x.2, ?_⟩
  have counts : s.Counts [x.2.handle] := orderly.counts
  refine of_count counts rfl rfl fun h => ?_
  dsimp only
  rw [count_map_concat, List.map_nil, List.count_nil]
  omega

/-- A socket is made of the connection. -/
theorem live {c : Connection A} (counts : s.Counts [c.handle]) (cpu : Nat) :
    ({ s with live := s.live ++ [(cpu, c)] } : Shards A).Counts [] := by
  refine of_count counts rfl rfl fun h => ?_
  dsimp only
  rw [count_map_concat, List.count_nil]
  dsimp only
  omega

/-- The connection is dropped on some shard. -/
theorem drop (orderly : s.Orderly [x]) (cpu : Nat) :
    ({ s with failed := s.failed ++ [x.2.id] }.dropHandle cpu x.2.handle).Orderly [] where
  placed := by
    rw [dropHandle_rendezvous]
    exact orderly.placed.fail
  matched := by
    rw [dropHandle_rendezvous]
    exact orderly.matched.shrink fun _ mem => mem
  counts := by
    have same : ({ s with failed := s.failed ++ [x.2.id] } : Shards A).Counts [x.2.handle] :=
      orderly.counts.of_perm rfl (List.Perm.refl _)
    exact same.dropHandle cpu

/-- A connection meets an accept that can be resolved. -/
theorem hand {w : Nat} {slot : Slot A} {c : Connection A}
    (placed : s.toRendezvous.Placed [(slot, c)]) (counts : s.Counts [c.handle])
    (resolves : ∀ result : Result A, (∀ c, result = .value c → s.taken[c.id]? = some slot) →
      ({ s.toRendezvous with resolved := s.resolved ++ [(w, result)] } : Rendezvous A).Matched)
    (fails : Bool) : (s.hand w slot c fails).Orderly [] := by
  unfold Shards.hand
  cases fails with
  | true =>
      have failed : ({ s with
          resolved := s.resolved ++ [(w, Result.exception)]
          failed := s.failed ++ [c.id] } : Shards A).Counts [c.handle] :=
        counts.of_perm rfl (List.Perm.refl _)
      refine ⟨?_, ?_, failed.dropHandle slot.cpu⟩
      · show Rendezvous.Placed (dropHandle _ _ _).toRendezvous []
        rw [dropHandle_rendezvous]
        exact placed.fail.note w rfl
      · show Rendezvous.Matched (dropHandle _ _ _).toRendezvous
        rw [dropHandle_rendezvous]
        exact (resolves .exception fun _ bad => nomatch bad).shrink fun _ mem => mem
  | false =>
      have sent := placed.2 (slot, c) List.mem_cons_self
      refine ⟨placed.hand w, resolves (.value c) fun c' same => ?_, ?_⟩
      · cases same
        exact sent
      · exact (live counts slot.cpu).of_perm rfl (List.Perm.refl _)

theorem dropAll_rendezvous (cpu : Nat) (xs : List (Slot A × Connection A)) (s : Shards A) :
    (xs.foldl (fun s x => s.dropHandle cpu x.2.handle) s).toRendezvous = s.toRendezvous := by
  induction xs generalizing s with
  | nil => rfl
  | cons x rest ih => exact (ih (s.dropHandle cpu x.2.handle)).trans (dropHandle_rendezvous ..)

theorem dropAll_counts (cpu : Nat) (xs : List (Slot A × Connection A)) (s : Shards A)
    (counts : s.Counts (xs.map fun x => x.2.handle)) :
    (xs.foldl (fun s x => s.dropHandle cpu x.2.handle) s).Counts [] := by
  induction xs generalizing s with
  | nil => exact counts
  | cons x rest ih => exact ih (s.dropHandle cpu x.2.handle) (counts.dropHandle cpu)

theorem close (orderly : s.Orderly []) {i : Nat} {x : Nat × Connection A}
    (here : s.live[i]? = some x) :
    ({ s with live := s.live.eraseIdx i }.dropHandle x.1 x.2.handle).Orderly [] where
  placed := by
    rw [dropHandle_rendezvous]
    exact orderly.placed
  matched := by
    rw [dropHandle_rendezvous]
    exact orderly.matched
  counts := by
    refine Counts.dropHandle ?_ _
    refine of_count orderly.counts rfl rfl fun h => ?_
    have taken := count_map_eraseIdx (fun x => x.2.handle) here h
    dsimp only
    rw [← taken, List.map_nil, List.count_nil]
    omega

theorem report (orderly : s.Orderly []) {i : Nat} {h : Handle} (here : s.closing[i]? = some h) :
    ({ s with closing := s.closing.eraseIdx i }.closedCpu h).Orderly [] where
  placed := orderly.placed
  matched := orderly.matched
  counts := by
    obtain ⟨inside, rfl⟩ := List.getElem?_eq_some_iff.mp here
    have moved := List.getElem_cons_eraseIdx_perm inside
    refine Counts.closedCpu (orderly.counts.of_perm rfl ?_)
    refine List.Perm.trans ?_ (moved.append_left s.handles)
    exact List.perm_middle.symm

theorem serverAccept (orderly : s.Orderly []) {l port : Nat} {addr : A} {fails : Bool}
    (next : s.serverAccept l port addr fails = some s') : s'.Orderly [] := by
  unfold Shards.serverAccept at next
  cases there : s.listeners[l]? with
  | none =>
      rw [there] at next
      exact nomatch next
  | some y =>
      rw [there] at next
      dsimp only at next
      split at next
      · exact nomatch next
      · -- the connection is in hand, with its handle
        have taken : ({ s with
            listeners := s.listeners.set l (y.forceCpu (y.pick port))
            taken := s.taken ++ [⟨y.pick port, y.protocol, y.sa⟩] } : Shards A).Orderly
            [(⟨y.pick port, y.protocol, y.sa⟩,
              ⟨s.taken.length, addr, ⟨y.hostCpu, y.pick port, l⟩⟩)] :=
          ⟨orderly.placed.take rfl, orderly.matched.take _, orderly.counts.forceCpu there⟩
        split at next
        · cases next
          exact taken.move
        · split at next
          · cases next
            exact taken.drop _
          · cases next
            refine ⟨taken.placed.own, taken.matched.shrink fun _ mem => mem, ?_⟩
            exact (live taken.counts _).of_perm rfl (List.Perm.refl _)

variable [DecidableEq A]

theorem moveConnectedSocket {slot : Slot A} {c : Connection A} (orderly : s.Orderly [(slot, c)])
    (fails : Bool) : (s.moveConnectedSocket slot c fails).Orderly [] := by
  unfold Shards.moveConnectedSocket
  split
  · rename_i w waiting
    -- an accept waits for the connection
    refine hand ?_ ?_ (fun result meets => ?_) fails
    · exact orderly.placed
    · exact orderly.counts.of_perm rfl (List.Perm.refl _)
    · exact orderly.matched.wake waiting meets
  · rename_i nobody
    -- nobody does: it is queued, or dropped when the queue has no room
    split
    · exact orderly.drop slot.cpu
    · exact orderly.queue nobody

theorem accept (orderly : s.Orderly []) {slot : Slot A} {found : Nat} {fails : Bool}
    (next : s.accept slot found fails = some s') : s'.Orderly [] := by
  unfold Shards.accept at next
  dsimp only at next
  -- a queued connection is taken at once; else the accept waits
  by_cases queued : (s.connQ.any fun x => x.1 = slot) = true
  · rw [if_pos queued] at next
    cases here : s.connQ[found]? with
    | none =>
        rw [here] at next
        exact nomatch next
    | some x =>
        rw [here] at next
        dsimp only at next
        split at next
        · rename_i same
          cases next
          have taken := orderly.unqueue here
          refine hand ?_ ?_ (fun result meets => ?_) fails
          · exact same ▸ taken.placed
          · exact taken.counts.of_perm rfl (List.Perm.refl _)
          · exact (orderly.matched.answer meets).shrink fun _ mem => List.mem_of_mem_eraseIdx mem
        · exact nomatch next
  · rw [if_neg queued] at next
    have nothing : ∀ c, (slot, c) ∉ s.connQ := fun c mem =>
      queued (List.any_eq_true.mpr ⟨(slot, c), mem, decide_eq_true rfl⟩)
    split at next
    · exact nomatch next
    · split at next
      · cases next
        refine ⟨orderly.placed.note _ rfl, ?_, ?_⟩
        · exact orderly.matched.answer fun _ bad => nomatch bad
        · exact orderly.counts.of_perm rfl (List.Perm.refl _)
      · cases next
        refine ⟨orderly.placed, orderly.matched.wait nothing, ?_⟩
        exact orderly.counts.of_perm rfl (List.Perm.refl _)

theorem dropQueued (orderly : s.Orderly []) (slot : Slot A) : (s.dropQueued slot).Orderly [] := by
  unfold Shards.dropQueued
  refine ⟨?_, ?_, dropAll_counts slot.cpu _ _ ?_⟩
  · rw [dropAll_rendezvous]
    exact orderly.placed.abort slot
  · rw [dropAll_rendezvous]
    exact orderly.matched.shrink fun _ mem => List.mem_of_mem_filter mem
  -- the dropped and the kept connections are all that were queued
  · have parts := (List.filter_append_perm (fun x => decide (x.1 = slot)) s.connQ).map
      fun x => x.2.handle
    refine of_count orderly.counts rfl rfl fun h => ?_
    have split := parts.count_eq h
    rw [List.map_append, List.count_append] at split
    dsimp only
    simp only [decide_not]
    rw [List.map_nil, List.count_nil]
    omega

theorem abortAccept (orderly : s.Orderly []) (slot : Slot A) : (s.abortAccept slot).Orderly [] := by
  unfold Shards.abortAccept
  have dropped := orderly.dropQueued slot
  dsimp only
  split
  · rename_i w waiting
    refine ⟨dropped.placed.note w rfl, ?_, ?_⟩
    · exact dropped.matched.wake waiting fun _ bad => nomatch bad
    · exact dropped.counts.of_perm rfl (List.Perm.refl _)
  · exact dropped

theorem step {count : Nat} {e : Event A} (orderly : s.Orderly [])
    (next : s.step count e = some s') : s'.Orderly [] := by
  cases e with
  | listen hostCpu protocol sa lba fixedCpu =>
      cases next
      exact ⟨orderly.placed, orderly.matched,
        orderly.counts.listen count hostCpu protocol sa lba fixedCpu⟩
  | serverAccept l port addr fails => exact orderly.serverAccept next
  | arrive i fails =>
      obtain ⟨x, here, rfl⟩ := Option.map_eq_some_iff.mp next
      exact (orderly.unmove here).moveConnectedSocket fails
  | accept slot found fails => exact orderly.accept next
  | abortAccept slot =>
      cases next
      exact orderly.abortAccept slot
  | close i =>
      obtain ⟨x, here, rfl⟩ := Option.map_eq_some_iff.mp next
      exact orderly.close here
  | report i =>
      obtain ⟨h, here, rfl⟩ := Option.map_eq_some_iff.mp next
      exact orderly.report here

end Orderly

theorem Counts.all (counts : s.Counts []) : s.Counted := by
  intro l x there cpu load read
  have load := counts.counted l x there cpu load read
  rwa [List.nil_append, List.countP_append] at load

/-- In every run, whatever comes when: a connection is in one place or met with one
end, it is handed to an accept of its own protocol and address, no accept waits for a
connection that is there, none is resolved twice, and the loads are those of the
handles and of their reports on the way. -/
theorem rendezvous [DecidableEq A] {count : Nat} {es : List (Event A)}
    (run : exec (step count) ({} : Shards A) es = some s) :
    s.toRendezvous.Placed [] ∧ s.toRendezvous.Matched ∧ s.Counted := by
  have begun : ({} : Shards A).Orderly [] := by
    refine ⟨⟨List.Perm.refl _, fun _ mem => absurd mem List.not_mem_nil⟩, ?_, ?_, ?_⟩
    · exact ⟨fun _ bad => absurd bad Bool.false_ne_true, fun _ _ bad => (nomatch bad),
        List.nodup_nil, fun _ mem => absurd mem List.not_mem_nil,
        fun _ _ mem => absurd mem List.not_mem_nil⟩
    · exact fun l x bad => nomatch bad
    · exact fun h mem => absurd mem List.not_mem_nil
  -- between two events nobody holds a connection
  have orderly := exec_invariant (I := fun s => s.Orderly []) (fun _ _ _ holds next =>
    holds.step next) begun run
  exact ⟨orderly.placed, orderly.matched, orderly.counts.all⟩

/-! ## Runs of two shards -/

/-- The shard 0 listens on port 80 for the shard 1, and takes a connection. -/
def taking : List (Event Nat) := [.listen 0 6 80 .fixed 1, .serverAccept 0 1000 9 false]

/-- Where the connection goes. -/
def port80 : Slot Nat := ⟨1, 6, 80⟩

/-- An accept waits, gets the connection, and its socket is closed again. -/
def meeting : List (Event Nat) :=
  taking ++ [.accept port80 0 false, .arrive 0 false, .close 0, .report 0]

theorem rendezvous_meets : ∃ s, exec (step 2) ({} : Shards Nat) meeting = some s ∧
    s.toRendezvous.Placed [] ∧ s.toRendezvous.Matched ∧ s.Counted ∧
    s.resolved = [(0, .value ⟨0, 9, ⟨0, 1, 0⟩⟩)] := by
  have run : exec (step 2) ({} : Shards Nat) meeting = some _ := rfl
  obtain ⟨placed, matched, counted⟩ := rendezvous run
  exact ⟨_, run, placed, matched, counted, rfl⟩

/-- Before the report of a dropped handle arrives, the load counts a handle that is
not there; and a connection that its accept has no memory for is lost to both. -/
theorem rendezvous_drifts :
    (∃ s x, exec (step 2) ({} : Shards Nat)
        (taking ++ [.arrive 0 false, .abortAccept port80]) = some s ∧
      s.listeners = [x] ∧ x.cpuLoad = [0, 1] ∧ s.handles = []) ∧
    ∃ s, exec (step 2) ({} : Shards Nat)
        (taking ++ [.accept port80 0 false, .arrive 0 true]) = some s ∧
      s.moving = [] ∧ s.connQ = [] ∧ s.resolved = [(0, .exception)] ∧ s.aborted = [] :=
  ⟨⟨_, _, rfl, rfl, rfl, rfl⟩, _, rfl, rfl, rfl, rfl, rfl⟩

end Shards

end ActorNet.Net.PosixStack
