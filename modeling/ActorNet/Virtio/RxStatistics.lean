import ActorNet.Net.QueuePair
import ActorNet.Virtio.RingRuns

/-!
# Statistics of the receive ring

`do_complete` tells its completion how many buffers it is about to complete, and
`rxq` adds that to the statistics of the queue. The number is `_tail - used_head`:
a difference of two 16-bit indices, taken as `int` and widened to 64 bits.
`rx_counts_iff` says when it is the number of buffers.
-/

namespace ActorNet.Virtio

open Lib

variable {β σ : Type}

/-! ## The model -/

/-- `count` of `do_complete`, as the argument of `bunch`: the operands are promoted
to `int` before the subtraction, and the result is converted to `uint64_t`. -/
def Vring.count (r : Vring β) : BitVec 64 :=
  BitVec.ofInt 64 ((r.usedTail.toNat : Int) - (r.usedIdx.toNat : Int))

/-- The receive ring with the statistics of its queue. The log of what was passed
to `update_rx_count` only records. -/
structure Receiver where
  sys : Sys Buffer Rxq
  good : Net.QpStatsGood
  passed : List (BitVec 64)

namespace Receiver

/-- `rxq::update_rx_count`. -/
def updateRxCount (s : Receiver) (count : BitVec 64) : Receiver :=
  { s with good := s.good.updatePktsBunch count, passed := s.passed ++ [count] }

def step (headerLen : BitVec 64) (s : Receiver) (a : Action Buffer) : Option Receiver :=
  match a with
  | .poll => do
      let s := s.updateRxCount s.sys.ring.count
      let sys ← s.sys.step (rxq headerLen) .poll
      some { s with sys := sys }
  | a => (s.sys.step (rxq headerLen) a).map fun sys => { s with sys := sys }

def start (size : Nat) : Receiver := ⟨Sys.start size ⟨0, [], []⟩, ⟨0, 0⟩, []⟩

/-- All that was passed to `update_rx_count`. -/
def counted (s : Receiver) : Nat := (s.passed.map BitVec.toNat).sum

/-- The total that was passed is the number of buffers completed. -/
def Exact (s : Receiver) : Prop := s.counted = (deliveries s.sys.log).length

/-- A call of `do_complete` counts right: nothing was used, or the index of the
device has wrapped past `_tail`, and half of the range was used since. -/
def CountsRight (s : Receiver) (a : Action Buffer) : Prop :=
  a = .poll →
    s.sys.ring.usedIdx = s.sys.ring.usedTail ∨
      (s.sys.ring.usedIdx.toNat < s.sys.ring.usedTail.toNat ∧
        (s.sys.ring.usedIdx - s.sys.ring.usedTail).toNat = 2 ^ 15)

end Receiver

/-! ## One call -/

/-- The difference has the wrong sign, unless the index has wrapped; then it is
what is left of the range. -/
theorem toNat_count (r : Vring β) :
    r.count.toNat =
      if r.usedTail.toNat < r.usedIdx.toNat then
        2 ^ 64 - (r.usedIdx - r.usedTail).toNat
      else if r.usedIdx.toNat < r.usedTail.toNat then
        2 ^ 16 - (r.usedIdx - r.usedTail).toNat
      else 0 := by
  have tail := r.usedTail.isLt
  have idx := r.usedIdx.isLt
  rw [Vring.count, BitVec.toNat_ofInt, BitVec.toNat_sub]
  split
  · omega
  · split
    · omega
    · omega

/-- When a call counts right. -/
theorem count_eq_iff (r : Vring β) :
    r.count.toNat = (r.usedIdx - r.usedTail).toNat ↔
      r.usedIdx = r.usedTail ∨
        (r.usedIdx.toNat < r.usedTail.toNat ∧ (r.usedIdx - r.usedTail).toNat = 2 ^ 15) := by
  have few := (r.usedIdx - r.usedTail).isLt
  have same : r.usedIdx = r.usedTail ↔ r.usedIdx.toNat = r.usedTail.toNat :=
    ⟨congrArg BitVec.toNat, BitVec.eq_of_toNat_eq⟩
  have none : r.usedIdx.toNat = r.usedTail.toNat → (r.usedIdx - r.usedTail).toNat = 0 := by
    intro equal
    rw [same.mpr equal, BitVec.sub_self]
    rfl
  rw [toNat_count, same]
  split
  · omega
  · split
    · omega
    · omega

/-- The loop of `do_complete` takes each used element once. -/
theorem length_completeAll {c : Completion β σ} {n : Nat} {r r' : Vring β} {s s' : σ}
    {ds : List (Nat × β × Written)} (done : Vring.completeAll c n r s = some (ds, r', s')) :
    ds.length = n := by
  induction n generalizing r s ds with
  | zero =>
      cases done
      rfl
  | succ n ih =>
      simp only [Vring.completeAll, Option.bind_eq_bind, Option.bind_eq_some_iff] at done
      obtain ⟨⟨d, r₁, s₁⟩, -, ⟨ds₁, r₂, s₂⟩, rest, same⟩ := done
      cases same
      rw [List.length_cons, ih rest]

theorem deliveries_append (log : List (Event β)) (ds : List (Nat × β × Written)) :
    (deliveries (log ++ ds.map fun (head, bc, w) => .delivered head bc w)).length =
      (deliveries log).length + ds.length := by
  induction ds generalizing log with
  | nil => rw [List.map_nil, List.append_nil, List.length_nil, Nat.add_zero]
  | cons d ds ih =>
      have once : (deliveries (log ++ [.delivered d.1 d.2.1 d.2.2])).length =
          (deliveries log).length + 1 := by
        simp [deliveries, List.filterMap_append]
      rw [List.map_cons, List.append_cons, ih, once, List.length_cons]
      omega

/-- A call of `do_complete` completes what was used since the last one. -/
theorem poll_deliveries {c : Completion β σ} {s s' : Sys β σ} (next : s.step c .poll = some s') :
    (deliveries s'.log).length =
      (deliveries s.log).length + (s.ring.usedIdx - s.ring.usedTail).toNat := by
  simp only [Sys.step, Vring.doComplete, Option.bind_eq_bind, Option.bind_eq_some_iff] at next
  obtain ⟨⟨ds, r, cs⟩, done, same⟩ := next
  cases same
  show (deliveries (s.log ++ ds.map _)).length = _
  rw [deliveries_append, length_completeAll done]

/-- The other steps complete nothing. -/
theorem deliveries_kept {c : Completion β σ} {s s' : Sys β σ} {a : Action β}
    (other : a ≠ .poll) (next : s.step c a = some s') : deliveries s'.log = deliveries s.log := by
  cases a with
  | wait n =>
      cases next
      rfl
  | post bcs =>
      simp only [Sys.step, Option.bind_eq_bind, Option.bind_eq_some_iff] at next
      obtain ⟨⟨heads, r⟩, -, same⟩ := next
      cases same
      -- what a `post` logs are no deliveries
      show deliveries (s.log ++ _) = _
      rw [deliveries, List.filterMap_append, List.filterMap_map]
      refine (congrArg (deliveries s.log ++ ·) ?_).trans (List.append_nil _)
      exact List.filterMap_eq_nil_iff.mpr fun _ _ => rfl
  | take =>
      cases next
      rfl
  | giveBack head w =>
      cases next
      show deliveries (s.log ++ [_]) = _
      rw [deliveries, List.filterMap_append]
      exact List.append_nil _
  | poll => exact absurd rfl other

/-! ## Runs -/

namespace Receiver

variable {headerLen : BitVec 64} {s s' : Receiver} {a : Action Buffer}

theorem counted_updateRxCount (s : Receiver) (count : BitVec 64) :
    (s.updateRxCount count).counted = s.counted + count.toNat := by
  simp [counted, updateRxCount]

/-- A step changes both totals by what one call of `do_complete` counts and
completes, or neither. -/
theorem step_totals (next : s.step headerLen a = some s') :
    (a = .poll ∧ s'.counted = s.counted + s.sys.ring.count.toNat ∧
      (deliveries s'.sys.log).length = (deliveries s.sys.log).length +
        (s.sys.ring.usedIdx - s.sys.ring.usedTail).toNat) ∨
    (a ≠ .poll ∧ s'.counted = s.counted ∧ deliveries s'.sys.log = deliveries s.sys.log) := by
  by_cases poll : a = .poll
  · subst poll
    obtain ⟨sys, done, same⟩ := Option.bind_eq_some_iff.mp next
    cases same
    exact .inl ⟨rfl, counted_updateRxCount s _, poll_deliveries done⟩
  · right
    have kept : (s.sys.step (rxq headerLen) a).map (fun sys => { s with sys := sys }) = some s' := by
      cases a with
      | poll => exact absurd rfl poll
      | wait n => exact next
      | post bcs => exact next
      | take => exact next
      | giveBack head w => exact next
    obtain ⟨sys, done, rfl⟩ := Option.map_eq_some_iff.mp kept
    exact ⟨poll, rfl, deliveries_kept poll done⟩

/-- The totals stay equal over a step just if it counts right. -/
theorem step_exact (exact_ : Exact s) (next : s.step headerLen a = some s') :
    Exact s' ↔ CountsRight s a := by
  unfold Exact at exact_ ⊢
  rcases step_totals next with ⟨rfl, counted, completed⟩ | ⟨other, counted, completed⟩
  · rw [counted, completed, exact_, Nat.add_right_inj, count_eq_iff]
    exact ⟨fun right _ => right, fun right => right rfl⟩
  · rw [counted, completed]
    exact ⟨fun _ poll => absurd poll other, fun _ => exact_⟩

/-- The total passed to `update_rx_count` is the number of completed buffers, in
every state of a run, just if each call of `do_complete` in it finds nothing to
complete, or finds half of the range used and the index of the device wrapped. -/
theorem rx_counts_iff {size : Nat} {as : List (Action Buffer)} {s : Receiver}
    (run : exec (step headerLen) (start size) as = some s) :
    Always (step headerLen) Exact (start size) as ↔
      Along (step headerLen) CountsRight (start size) as :=
  Along.iff_always (I := Exact) (fun _ exact_ => exact_)
    (fun _ _ _ exact_ right next => (step_exact exact_ next).mpr right)
    (fun _ _ _ exact_ next after => (step_exact exact_ next).mp after) rfl run

/-- A ring that is polled before the device has used anything. -/
theorem rx_counts_iff_idle :
    Always (step 12) Exact (start 4) [.wait 1, .post [⟨4096, 4096, true⟩], .take, .poll] ↔
      Along (step 12) CountsRight (start 4)
        [.wait 1, .post [⟨4096, 4096, true⟩], .take, .poll] := by
  have run : exec (step 12) (start 4) [.wait 1, .post [⟨4096, 4096, true⟩], .take, .poll] =
      some _ := (Option.some_get (by decide)).symm
  exact rx_counts_iff run

/-- The first packet that a ring receives is counted as 2^64 - 1. -/
theorem first_packet_miscounted :
    ∃ s, exec (step 12) (start 4)
        [.wait 1, .post [⟨4096, 4096, true⟩], .take, .giveBack 0 ⟨72, 1⟩, .poll] = some s ∧
      s.counted = 2 ^ 64 - 1 ∧ (deliveries s.sys.log).length = 1 ∧ ¬Exact s := by
  have run : exec (step 12) (start 4)
      [.wait 1, .post [⟨4096, 4096, true⟩], .take, .giveBack 0 ⟨72, 1⟩, .poll] = some _ :=
    (Option.some_get (by decide)).symm
  exact ⟨_, run, by decide, by decide, by unfold Exact; decide⟩

end Receiver

end ActorNet.Virtio
