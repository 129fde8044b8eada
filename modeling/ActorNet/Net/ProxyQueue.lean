import Mathlib.Data.List.Perm.Basic
import ActorNet.Lib.Run
import ActorNet.Net.QueuePair

/-!
# The proxy queue of a cpu without hardware queue

`proxy_net_device::send` moves packets from the queue of its cpu into `_moving`
and submits a function to the master cpu, which puts them into the proxy queue
of the master's device. When it is done, a continuation clears `_moving` on the
sender. A packet that was handed over has a deleter that goes back to the sender
and lowers `_send_depth` there.

Both cpus run on their own; what is submitted arrives at any later moment, and
deleters in any order. The function reads `_moving` when it is executed, not when
it is submitted.
-/

namespace ActorNet.Net

open Lib

/-! ## The model -/

/-- `_send_queue_length`. -/
def sendQueueLength : Nat := 128

/-- `proxy_net_device`, its members besides those of `qp`. -/
structure ProxyNetDevice (P : Type) where
  sendDepth : BitVec 64
  moving : List P
  deriving DecidableEq, Repr

namespace ProxyNetDevice

variable {P : Type}

/-- The loop of `send`. -/
def moveLoop : List P → ProxyNetDevice P → List P × ProxyNetDevice P
  | [], d => ([], d)
  | p :: ps, d =>
      if d.sendDepth.toNat < sendQueueLength then
        moveLoop ps { sendDepth := d.sendDepth + 1, moving := d.moving ++ [p] }
      else (p :: ps, d)

/-- `send`: the count it returns, what is left of the queue, the device, and
whether a hand-over is submitted. -/
def send (ps : List P) (d : ProxyNetDevice P) :
    BitVec 32 × List P × ProxyNetDevice P × Bool :=
  if d.moving ≠ [] ∨ d.sendDepth.toNat = sendQueueLength then (0, ps, d, false)
  else
    let (left, d) := moveLoop ps d
    (BitVec.ofNat 32 d.moving.length, left, d, d.moving ≠ [])

end ProxyNetDevice

/-- The sender, the master's queue pair, and what is on its way between them: the
hand-overs submitted and not executed, and those executed whose continuation has
not run. `held` are the packets that left the proxy queue and are not destroyed,
`deleters` those that are destroyed and whose deleter is on its way. The four logs
only record: the packets taken from the queue, those put into the proxy queue, those
that its provider gave, and those whose deleter has run. -/
structure Proxied (P : Type) where
  qp : Qp P
  device : ProxyNetDevice P
  master : Qp P
  handovers : Nat
  completions : Nat
  held : List P
  deleters : List P
  taken : List P
  arrived : List P
  provided : List P
  freed : List P
  deriving DecidableEq, Repr

inductive ProxyEvent (P : Type) where
  /-- An upper layer on the sender has another packet for a provider. -/
  | offer (provider : Nat) (p : P)
  /-- `poll_tx` on the sender. -/
  | poll
  /-- The submitted function runs on the master. -/
  | handOver
  /-- Its continuation runs on the sender. -/
  | complete
  /-- `poll_tx` of the master calls the provider of the proxy queue. -/
  | provide
  /-- The last reference to a held packet is dropped. -/
  | free (i : Nat)
  /-- The deleter of a packet runs on the sender. -/
  | delete (i : Nat)
  deriving DecidableEq, Repr

namespace Proxied

variable {P : Type}

/-- `poll_tx` with the device's `send`. -/
def poll (s : Proxied P) : Proxied P :=
  let (qp, device, submitted) := s.qp.pollTx (fun ps d => ProxyNetDevice.send ps d.1)
    (s.device, false)
  { s with
    qp := qp
    device := device
    handovers := s.handovers + if submitted then 1 else 0
    taken := s.taken ++ if submitted then device.moving else [] }

def step (s : Proxied P) : ProxyEvent P → Option (Proxied P)
  | .offer i p => some { s with
      qp := { s.qp with pktProviders := s.qp.pktProviders.modify i (· ++ [p]) } }
  | .poll => some s.poll
  | .handOver =>
      if s.handovers = 0 then none
      else some { s with
        master := s.device.moving.foldl Qp.proxySend s.master
        handovers := s.handovers - 1
        completions := s.completions + 1
        arrived := s.arrived ++ s.device.moving }
  | .complete =>
      if s.completions = 0 then none
      else some { s with
        device := { s.device with moving := [] }
        completions := s.completions - 1 }
  | .provide =>
      match s.master.proxyProvider with
      | (none, _) => none
      | (some p, master) => some { s with
          master := master
          held := s.held ++ [p]
          provided := s.provided ++ [p] }
  | .free i =>
      (s.held[i]?).map fun p => { s with
        held := s.held.eraseIdx i
        deleters := s.deleters ++ [p] }
  | .delete i =>
      (s.deleters[i]?).map fun p => { s with
        device := { s.device with sendDepth := s.device.sendDepth - 1 }
        deleters := s.deleters.eraseIdx i
        freed := s.freed ++ [p] }

def start (providers : List (List P)) : Proxied P :=
  ⟨⟨providers, [], [], {}⟩, ⟨0, []⟩, ⟨[], [], [], {}⟩, 0, 0, [], [], [], [], [], []⟩

/-! ## What one step can do -/

/-- The loop of `send` takes packets from the front of the queue and counts them. -/
theorem moveLoop_spec (ps : List P) (d : ProxyNetDevice P)
    (room : d.sendDepth.toNat ≤ sendQueueLength) :
    ∃ more, ps = more ++ (ProxyNetDevice.moveLoop ps d).1 ∧
      (ProxyNetDevice.moveLoop ps d).2.moving = d.moving ++ more ∧
      (ProxyNetDevice.moveLoop ps d).2.sendDepth.toNat = d.sendDepth.toNat + more.length ∧
      d.sendDepth.toNat + more.length ≤ sendQueueLength ∧
      (more = [] → (ProxyNetDevice.moveLoop ps d).2 = d) := by
  induction ps generalizing d with
  | nil => exact ⟨[], rfl, (List.append_nil _).symm, rfl, room, fun _ => rfl⟩
  | cons p ps ih =>
      rw [ProxyNetDevice.moveLoop]
      split
      · rename_i below
        have next : (d.sendDepth + 1).toNat = d.sendDepth.toNat + 1 := by
          have small : d.sendDepth.toNat + 1 < 2 ^ 64 := by
            unfold sendQueueLength at below
            omega
          rw [BitVec.toNat_add]
          exact Nat.mod_eq_of_lt small
        obtain ⟨more, taken, moved, depth, bound, -⟩ :=
          ih ⟨d.sendDepth + 1, d.moving ++ [p]⟩ (by rw [next]; exact below)
        rw [next] at depth bound
        refine ⟨p :: more, congrArg (p :: ·) taken, ?_, ?_, ?_, fun none => (nomatch none)⟩
        · rw [moved, List.append_assoc, List.singleton_append]
        · rw [depth, List.length_cons]
          omega
        · rw [List.length_cons]
          omega
      · exact ⟨[], rfl, (List.append_nil _).symm, rfl, room, fun _ => rfl⟩

/-- A call of `send` leaves the device alone, or fills the empty `_moving`. -/
theorem send_cases (ps : List P) (d : ProxyNetDevice P)
    (room : d.sendDepth.toNat ≤ sendQueueLength) :
    (∃ count left, ProxyNetDevice.send ps d = (count, left, d, false)) ∨
    ∃ count left device, ProxyNetDevice.send ps d = (count, left, device, true) ∧
      ps = device.moving ++ left ∧ d.moving = [] ∧ device.moving ≠ [] ∧
      device.sendDepth.toNat = d.sendDepth.toNat + device.moving.length ∧
      device.sendDepth.toNat ≤ sendQueueLength := by
  unfold ProxyNetDevice.send
  split
  · exact .inl ⟨0, ps, rfl⟩
  · rename_i idle
    have empty : d.moving = [] := by
      by_contra filled
      exact idle (.inl filled)
    obtain ⟨more, taken, moved, depth, bound, unmoved⟩ := moveLoop_spec ps d room
    rw [empty, List.nil_append] at moved
    by_cases none : more = []
    · left
      refine ⟨0, (ProxyNetDevice.moveLoop ps d).1, ?_⟩
      show (BitVec.ofNat 32 (ProxyNetDevice.moveLoop ps d).2.moving.length, _, _,
        decide ((ProxyNetDevice.moveLoop ps d).2.moving ≠ [])) = _
      rw [moved, unmoved none, none]
      rfl
    · right
      rw [← moved] at taken depth bound none
      refine ⟨BitVec.ofNat 32 (ProxyNetDevice.moveLoop ps d).2.moving.length,
        (ProxyNetDevice.moveLoop ps d).1, (ProxyNetDevice.moveLoop ps d).2, ?_, taken, empty, none,
        depth, by omega⟩
      show (_, _, _, decide (_ ≠ [])) = _
      rw [decide_eq_true none]

/-- A poll of the sender leaves the device alone, or moves packets into the empty
`_moving` and submits one hand-over for them. -/
theorem poll_cases (s : Proxied P) (room : s.device.sendDepth.toNat ≤ sendQueueLength) :
    (∃ qp, s.poll = { s with qp := qp }) ∨
    ∃ qp device, s.poll = { s with
        qp := qp
        device := device
        handovers := s.handovers + 1
        taken := s.taken ++ device.moving } ∧
      s.device.moving = [] ∧ device.moving ≠ [] ∧
      device.sendDepth.toNat = s.device.sendDepth.toNat + device.moving.length ∧
      device.sendDepth.toNat ≤ sendQueueLength := by
  unfold poll Qp.pollTx
  generalize Qp.refill s.qp.pktProviders s.qp.txPacketq = refilled
  obtain ⟨providers, q⟩ := refilled
  by_cases none : q = []
  · left
    refine ⟨{ s.qp with pktProviders := providers, txPacketq := q }, ?_⟩
    simp only [if_pos none, Bool.false_eq_true, if_false, Nat.add_zero, List.append_nil]
  · simp only [if_neg none]
    rcases send_cases q s.device room with
      ⟨count, left_, sent⟩ | ⟨count, left_, device, sent, -, rest⟩
    · left
      rw [sent]
      refine ⟨{ s.qp with
        pktProviders := providers
        txPacketq := left_
        good := s.qp.good.updatePktsBunch (count.setWidth 64) }, ?_⟩
      simp only [Bool.false_eq_true, if_false, Nat.add_zero, List.append_nil]
    · right
      rw [sent]
      exact ⟨_, device, rfl, rest⟩

theorem foldl_proxySend (ps : List P) (qp : Qp P) :
    ps.foldl Qp.proxySend qp = { qp with proxyPacketq := qp.proxyPacketq ++ ps } := by
  induction ps generalizing qp with
  | nil => rw [List.foldl_nil, List.append_nil]
  | cons p ps ih => rw [List.foldl_cons, ih, Qp.proxySend, List.append_assoc, List.singleton_append]

/-! ## Runs -/

/-- The packets that a hand-over on its way will read. -/
def underway (s : Proxied P) : List P := if s.handovers = 0 then [] else s.device.moving

/-- What holds of the two cpus together. -/
structure Orderly (s : Proxied P) : Prop where
  /-- The packets taken reached the proxy queue, each once and in order, except
  those of the hand-over that has not run. -/
  reached : s.taken = s.arrived ++ s.underway
  /-- The proxy queue gives them to the master's `poll_tx` in that order. -/
  provided : s.provided ++ s.master.proxyPacketq = s.arrived
  /-- Every packet that reached it is in one place since. -/
  placed : (s.master.proxyPacketq ++ s.held ++ s.deleters ++ s.freed).Perm s.arrived
  /-- The depth is the packets taken and not freed. -/
  depth : s.device.sendDepth.toNat + s.freed.length = s.taken.length
  bounded : s.device.sendDepth.toNat ≤ sendQueueLength
  /-- One hand-over at a time is between its submission and its continuation. -/
  single : s.handovers + s.completions = if s.device.moving = [] then 0 else 1

theorem orderly_start (providers : List (List P)) : Orderly (start providers) where
  reached := rfl
  provided := rfl
  placed := List.Perm.refl _
  depth := rfl
  bounded := Nat.zero_le _
  single := rfl

/-- While a hand-over is outstanding, `_moving` holds its packets. -/
theorem Orderly.moving_ne {s : Proxied P} (orderly : Orderly s)
    (outstanding : 0 < s.handovers + s.completions) : s.device.moving ≠ [] := by
  intro empty
  rw [orderly.single, if_pos empty] at outstanding
  exact absurd outstanding (Nat.lt_irrefl 0)

theorem poll_orderly {s : Proxied P} (orderly : Orderly s) : Orderly s.poll := by
  rcases poll_cases s orderly.bounded with
    ⟨qp, same⟩ | ⟨qp, device, same, empty, filled, depth, bound⟩
  · rw [same]
    exact { orderly with }
  · rw [same]
    have single := orderly.single
    rw [if_pos empty] at single
    have reached : s.taken = s.arrived := by
      rw [orderly.reached, underway, if_pos (by omega), List.append_nil]
    have total := orderly.depth
    refine { orderly with
      reached := ?_
      depth := ?_
      bounded := bound
      single := ?_ }
    · show s.taken ++ device.moving = s.arrived ++ if s.handovers + 1 = 0 then [] else _
      rw [if_neg (Nat.succ_ne_zero _), reached]
    · show device.sendDepth.toNat + s.freed.length = (s.taken ++ device.moving).length
      rw [List.length_append]
      omega
    · show s.handovers + 1 + s.completions = if device.moving = [] then 0 else 1
      rw [if_neg filled]
      omega

theorem handOver_orderly {s : Proxied P} (orderly : Orderly s) (submitted : s.handovers ≠ 0) :
    Orderly { s with
      master := s.device.moving.foldl Qp.proxySend s.master
      handovers := s.handovers - 1
      completions := s.completions + 1
      arrived := s.arrived ++ s.device.moving } := by
  have filled := orderly.moving_ne (by omega)
  have single := orderly.single
  rw [if_neg filled] at single
  refine { orderly with
    reached := ?_
    provided := ?_
    placed := ?_
    single := ?_ }
  · rw [underway, if_pos (by show s.handovers - 1 = 0; omega), List.append_nil]
    show s.taken = s.arrived ++ s.device.moving
    rw [orderly.reached, underway, if_neg submitted]
  · rw [foldl_proxySend]
    show s.provided ++ (s.master.proxyPacketq ++ s.device.moving) = s.arrived ++ s.device.moving
    rw [← List.append_assoc, orderly.provided]
  · rw [foldl_proxySend]
    show (s.master.proxyPacketq ++ s.device.moving ++ s.held ++ s.deleters ++ s.freed).Perm _
    refine List.Perm.trans ?_ (orderly.placed.append_right s.device.moving)
    -- what was handed over goes behind the rest
    simp only [List.append_assoc]
    apply List.Perm.append_left
    refine List.perm_append_comm.trans ?_
    simp only [List.append_assoc]
    exact List.Perm.refl _
  · show s.handovers - 1 + (s.completions + 1) = if s.device.moving = [] then 0 else 1
    rw [if_neg filled]
    omega

theorem complete_orderly {s : Proxied P} (orderly : Orderly s) (executed : s.completions ≠ 0) :
    Orderly { s with
      device := { s.device with moving := [] }
      completions := s.completions - 1 } := by
  have filled := orderly.moving_ne (by omega)
  have single := orderly.single
  rw [if_neg filled] at single
  have none_submitted : s.handovers = 0 := by omega
  refine { orderly with
    reached := ?_
    single := ?_ }
  · have reached := orderly.reached
    rw [underway, if_pos none_submitted] at reached
    rw [underway, if_pos none_submitted]
    exact reached
  · show s.handovers + (s.completions - 1) = 0
    omega

theorem provide_orderly {s : Proxied P} (orderly : Orderly s) {p : P} {ps : List P}
    (first : s.master.proxyPacketq = p :: ps) :
    Orderly { s with
      master := { s.master with proxyPacketq := ps }
      held := s.held ++ [p]
      provided := s.provided ++ [p] } := by
  refine { orderly with
    provided := by rw [← orderly.provided, first, List.append_assoc, List.singleton_append]
    placed := ?_ }
  show (ps ++ (s.held ++ [p]) ++ s.deleters ++ s.freed).Perm s.arrived
  refine List.Perm.trans ?_ orderly.placed
  rw [first]
  apply List.Perm.append_right
  apply List.Perm.append_right
  rw [← List.append_assoc]
  exact List.perm_append_singleton p (ps ++ s.held)

theorem free_orderly {s : Proxied P} (orderly : Orderly s) {i : Nat} {p : P}
    (there : s.held[i]? = some p) :
    Orderly { s with held := s.held.eraseIdx i, deleters := s.deleters ++ [p] } := by
  obtain ⟨inside, rfl⟩ := List.getElem?_eq_some_iff.mp there
  refine { orderly with placed := ?_ }
  show (s.master.proxyPacketq ++ s.held.eraseIdx i ++ (s.deleters ++ [s.held[i]]) ++ s.freed).Perm _
  refine List.Perm.trans ?_ orderly.placed
  apply List.Perm.append_right
  rw [← List.append_assoc]
  refine (List.perm_append_singleton _ _).trans ?_
  rw [← List.cons_append]
  apply List.Perm.append_right
  refine List.perm_middle.symm.trans ?_
  exact (List.getElem_cons_eraseIdx_perm inside).append_left _

theorem delete_orderly {s : Proxied P} (orderly : Orderly s) {i : Nat} {p : P}
    (there : s.deleters[i]? = some p) :
    Orderly { s with
      device := { s.device with sendDepth := s.device.sendDepth - 1 }
      deleters := s.deleters.eraseIdx i
      freed := s.freed ++ [p] } := by
  obtain ⟨inside, rfl⟩ := List.getElem?_eq_some_iff.mp there
  have total := orderly.depth
  have bounded := orderly.bounded
  -- the packet is among those that are counted, so the depth is not zero
  have counted : s.freed.length + 1 ≤ s.taken.length := by
    have places := orderly.placed.length_eq
    have reached := congrArg List.length orderly.reached
    simp only [List.length_append] at places reached
    omega
  have lower : (s.device.sendDepth - 1).toNat = s.device.sendDepth.toNat - 1 := by
    rw [BitVec.toNat_sub_of_le]
    · rfl
    · show 1 ≤ s.device.sendDepth.toNat
      omega
  refine { orderly with
    placed := ?_
    depth := ?_
    bounded := ?_ }
  · show (s.master.proxyPacketq ++ s.held ++ s.deleters.eraseIdx i ++ (s.freed ++ [_])).Perm _
    refine List.Perm.trans ?_ orderly.placed
    rw [← List.append_assoc]
    refine (List.perm_append_singleton _ _).trans ?_
    rw [← List.cons_append]
    apply List.Perm.append_right
    refine List.perm_middle.symm.trans ?_
    exact (List.getElem_cons_eraseIdx_perm inside).append_left _
  · show (s.device.sendDepth - 1).toNat + (s.freed ++ [_]).length = s.taken.length
    rw [lower, List.length_append, List.length_singleton]
    omega
  · show (s.device.sendDepth - 1).toNat ≤ sendQueueLength
    omega

theorem step_orderly {s s' : Proxied P} {e : ProxyEvent P} (orderly : Orderly s)
    (next : s.step e = some s') : Orderly s' := by
  cases e with
  | offer i p =>
      cases next
      exact { orderly with }
  | poll =>
      cases next
      exact poll_orderly orderly
  | handOver =>
      rw [step] at next
      split at next
      · cases next
      · rename_i submitted
        cases next
        exact handOver_orderly orderly submitted
  | complete =>
      rw [step] at next
      split at next
      · cases next
      · rename_i executed
        cases next
        exact complete_orderly orderly executed
  | provide =>
      cases queue : s.master.proxyPacketq with
      | nil =>
          simp only [step, Qp.proxyProvider, queue] at next
          cases next
      | cons p ps =>
          simp only [step, Qp.proxyProvider, queue] at next
          cases next
          exact provide_orderly orderly queue
  | free i =>
      obtain ⟨p, there, rfl⟩ := Option.map_eq_some_iff.mp next
      exact free_orderly orderly there
  | delete i =>
      obtain ⟨p, there, rfl⟩ := Option.map_eq_some_iff.mp next
      exact delete_orderly orderly there

/-- `_moving` is changed by the continuation of a hand-over only, from the moment
it is submitted. -/
theorem moving_kept {s s' : Proxied P} {e : ProxyEvent P} (orderly : Orderly s)
    (outstanding : 0 < s.handovers + s.completions) (next : s.step e = some s') :
    s'.device.moving = s.device.moving ∨ (e = .complete ∧ s.handovers = 0) := by
  have filled := orderly.moving_ne outstanding
  cases e with
  | offer i p =>
      cases next
      exact .inl rfl
  | poll =>
      cases next
      rcases poll_cases s orderly.bounded with ⟨qp, same⟩ | ⟨qp, device, same, empty, -⟩
      · rw [same]
        exact .inl rfl
      · exact absurd empty filled
  | handOver =>
      rw [step] at next
      split at next
      · cases next
      · cases next
        exact .inl rfl
  | complete =>
      have single := orderly.single
      rw [if_neg filled] at single
      rw [step] at next
      split at next
      · cases next
      · exact .inr ⟨rfl, by omega⟩
  | provide =>
      cases queue : s.master.proxyPacketq with
      | nil =>
          simp only [step, Qp.proxyProvider, queue] at next
          cases next
      | cons p ps =>
          simp only [step, Qp.proxyProvider, queue] at next
          cases next
          exact .inl rfl
  | free i =>
      obtain ⟨p, there, rfl⟩ := Option.map_eq_some_iff.mp next
      exact .inl rfl
  | delete i =>
      obtain ⟨p, there, rfl⟩ := Option.map_eq_some_iff.mp next
      exact .inl rfl

/-- Every interleaving of polls, hand-overs, their continuations, and drops and
deleters of packets in any order: what was taken from the queue reached the proxy
queue once and in order, up to the hand-over that has not run, and left it in order
for the master's device; the depth is the
number of packets taken and not freed, at most 128; and a sender does not change
`_moving` while a hand-over is outstanding. -/
theorem handed_over (providers : List (List P)) {es : List (ProxyEvent P)} {s : Proxied P}
    (run : exec step (start providers) es = some s) :
    Orderly s ∧ ∀ e s', s.step e = some s' → 0 < s.handovers + s.completions →
      s'.device.moving = s.device.moving ∨ (e = .complete ∧ s.handovers = 0) := by
  have orderly : Orderly s :=
    exec_invariant (fun _ _ _ orderly next => step_orderly orderly next)
      (orderly_start providers) run
  exact ⟨orderly, fun e s' next outstanding => moving_kept orderly outstanding next⟩

/-- Two packets, one of which is freed before the continuation arrives. -/
theorem handed_over_two :
    ∃ s, exec step (start [[1], [2]])
        [.poll, .handOver, .provide, .free 0, .delete 0, .poll, .complete] = some s ∧
      (Orderly s ∧ ∀ e s', s.step e = some s' → 0 < s.handovers + s.completions →
        s'.device.moving = s.device.moving ∨ (e = .complete ∧ s.handovers = 0)) ∧
      s.device.sendDepth = 1 ∧ s.arrived = [1, 2] := by
  have run : exec step (start [[1], [2]])
      [.poll, .handOver, .provide, .free 0, .delete 0, .poll, .complete] = some _ :=
    (Option.some_get (by decide)).symm
  exact ⟨_, run, handed_over [[1], [2]] run, rfl, rfl⟩

end Proxied

end ActorNet.Net
