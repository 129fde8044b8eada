import ActorNet.Lib.Guarded
import ActorNet.Virtio.RingRuns

/-!
# How the queues use their rings

`txq::post` and `rxq::prepare_buffers` post only what they have waited for, and
no chain without a buffer: what they ask of a ring is admissible.
-/

namespace ActorNet.Virtio

open Lib

variable {β σ : Type}

section

open Net Net.Impl Guarded

variable {p : Impl} {n : Nat}

/-- A statement about the result, if there is one. -/
abbrev IfOk {α : Type} (r : Except Fault α) (Q : α → Prop) : Prop :=
  Ensures (fun _ => False) r Q

theorem IfOk.any {α : Type} (r : Except Fault α) : IfOk r fun _ => True := by
  cases r with
  | ok a => trivial
  | error e => exact not_false

theorem frags_writeFront {p : Impl} (bytes : List Byte) :
    IfOk (p.writeFront bytes) fun q => q.frags ≠ [] := by
  unfold writeFront
  split
  · rename_i frags
    refine (IfOk.any _).bind fun data _ => ?_
    show p.frags ≠ []
    rw [frags]
    exact List.cons_ne_nil _ _
  · split
    · exact List.cons_ne_nil _ _
    · exact not_false
  · exact not_false

/-- A packet with a header has a fragment. -/
theorem frags_prepend (p : Impl) (bytes : List Byte) :
    IfOk (p.prepend bytes) fun q => q.frags ≠ [] := by
  refine (IfOk.any _).bind ?_
  rintro (_ | q) -
  · exact (IfOk.any _).bind fun q _ => List.cons_ne_nil _ _
  · exact frags_writeFront bytes

/-- The packets that `txq::post` takes have fragments, and no more of them than
there are available descriptors. -/
theorem txqTake_spec (vhdr : Impl → List Byte) (pb : List Impl) (current : Nat) :
    IfOk (txqTake vhdr pb current) fun r =>
      (∀ q ∈ r.1, q.frags ≠ []) ∧ (r.1.map fun q => q.frags.length).sum ≤ current := by
  induction pb generalizing current with
  | nil => exact ⟨fun q inside => absurd inside List.not_mem_nil, Nat.zero_le _⟩
  | cons p pb ih =>
      rw [txqTake]
      split
      · refine (frags_prepend p _).bind fun q some_frag => ?_
        split
        · rename_i enough
          refine (ih (current - q.frags.length)).bind fun r taken => ?_
          obtain ⟨some_frags, sum⟩ := taken
          refine ⟨List.forall_mem_cons.mpr ⟨some_frag, some_frags⟩, ?_⟩
          rw [List.map_cons, List.sum_cons]
          omega
        · exact not_false
      · exact ⟨fun q inside => absurd inside List.not_mem_nil, Nat.zero_le _⟩

end

section

variable {c : Completion β σ}

/-- Waiting for what is there, and then posting what was waited for. -/
theorem waits_admissible {s : Sys β σ} {ns : List Nat} {bcs : List β}
    (there : ns.sum ≤ s.ring.availableDescriptors) (some_buffers : ∀ bc ∈ bcs, c.buffers bc ≠ [])
    (enough : (bcs.map fun bc => (c.buffers bc).length).sum ≤ s.waited + ns.sum) :
    Along (Sys.step c) (Sys.Admissible c) s (ns.map .wait ++ [.post bcs]) := by
  induction ns generalizing s with
  | nil => exact ⟨⟨some_buffers, enough⟩, fun _ _ => trivial⟩
  | cons n ns ih =>
      rw [List.sum_cons] at there enough
      refine ⟨show n ≤ _ by omega, fun s' next => ?_⟩
      cases next
      apply ih
      · show ns.sum ≤ s.ring.availableDescriptors - n
        omega
      · show _ ≤ s.waited + n + ns.sum
        omega

end

/-- `txq::post` keeps to the guard. -/
theorem txqPost_admissible (virtToPhys : Net.Fragment → BitVec 64)
    (vhdr : Net.Impl → List Byte) (pb : List Net.Impl) (s : Sys Net.Impl Unit) :
    IfOk (txqTake vhdr pb s.ring.availableDescriptors) fun r =>
      Along (Sys.step (txq virtToPhys)) (Sys.Admissible (txq virtToPhys)) s (txqPost r.1) := by
  refine (txqTake_spec vhdr pb _).mono fun r ⟨some_frags, sum⟩ => ?_
  have lengths : (r.1.map fun q => ((txq virtToPhys).buffers q).length) =
      r.1.map fun q => q.frags.length := by simp [txq]
  have waits : (r.1.map fun q => Action.wait q.frags.length : List (Action Net.Impl)) =
      (r.1.map fun q => q.frags.length).map .wait := by rw [List.map_map]; rfl
  unfold txqPost
  rw [waits]
  apply waits_admissible sum
  · intro q inside none
    exact some_frags q inside (List.map_eq_nil_iff.mp none)
  · rw [lengths]
    exact Nat.le_add_left _ _

/-- `rxq::prepare_buffers` keeps to the guard once its `wait(1)` is through. -/
theorem prepareBuffers_admissible (headerLen : BitVec 64) (makeBufferChain : Nat → Buffer)
    {s : Sys Buffer Rxq} (waited : 1 ≤ s.waited) :
    Along (Sys.step (rxq headerLen)) (Sys.Admissible (rxq headerLen)) s
      (prepareBuffers s.ring.availableDescriptors makeBufferChain) := by
  apply @waits_admissible _ _ (rxq headerLen) s [s.ring.availableDescriptors]
  · rw [List.sum_singleton]
  · exact fun b _ => List.cons_ne_nil b []
  · show (List.map (fun _ => 1) _).sum ≤ _
    simp only [List.map_const', List.length_map, List.length_range, List.sum_replicate_nat,
      List.sum_singleton]
    omega

end ActorNet.Virtio
