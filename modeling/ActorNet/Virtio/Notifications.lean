import ActorNet.Virtio.RingRuns

/-!
# Notifications of a ring

`kick` decides at the end of each `post` whether the device is told of the new
entries. Either the device has set a flag, or it publishes the 16-bit number of
the entry for which it wants to be notified, and `kick` compares the distance to
that entry with `_avail_added_since_kick`, the number of entries since the last
notification. Both are numbers of 16 bits; a forced notification near half of
their range keeps the count from wrapping.

The ring is that of `Sys`, on which a kick has no effect.
-/

namespace ActorNet.Virtio

open Lib

variable {β σ : Type}

/-! ## The model -/

/-- What a kick reads of the device's side: `_avail_event`, and the flag
`VRING_USED_F_NO_NOTIFY`. -/
structure Published where
  availEvent : BitVec 16
  noNotify : Bool
  deriving DecidableEq, Repr

/-- The ring with `_avail_added_since_kick`. The other numbers only record: the
entries made available, those of them that the last notification covered, and the
notifications sent. -/
structure Driver (β σ : Type) where
  sys : Sys β σ
  availAddedSinceKick : BitVec 16
  made : Nat
  notified : Nat
  notifications : Nat

namespace Driver

/-- `notify`, and the count starts again. -/
def notify (d : Driver β σ) : Driver β σ :=
  { d with
    availAddedSinceKick := 0
    notified := d.made
    notifications := d.notifications + 1 }

/-- `kick`. -/
def kick (eventIndex : Bool) (p : Published) (d : Driver β σ) : Driver β σ :=
  if eventIndex = false ∧ p.noNotify = true then d
  else
    let needKick :=
      if eventIndex then
        decide ((d.sys.ring.availIdx - p.availEvent - 1).toNat < d.availAddedSinceKick.toNat)
      else true
    if needKick = true ∨ d.availAddedSinceKick.toNat ≥ 65535 / 2 then d.notify else d

/-- `_avail_added_since_kick++` in the turns of `post`. -/
def countAll : List β → BitVec 16 → BitVec 16
  | [], added => added
  | _ :: bcs, added => countAll bcs (added + 1)

/-- At the end of the loop of `post`, before its kick. -/
def posted (d : Driver β σ) (bcs : List β) (sys : Sys β σ) : Driver β σ :=
  { d with
    sys := sys
    availAddedSinceKick := countAll bcs d.availAddedSinceKick
    made := d.made + bcs.length }

/-- An action of the ring or its device, and what the device publishes then. -/
def step (c : Completion β σ) (eventIndex : Bool) (d : Driver β σ) (t : Action β × Published) :
    Option (Driver β σ) :=
  (d.sys.step c t.1).map fun sys =>
    match t.1 with
    | .post bcs => kick eventIndex t.2 (d.posted bcs sys)
    | _ => { d with sys := sys }

def start (size : Nat) (completion : σ) : Driver β σ := ⟨Sys.start size completion, 0, 0, 0, 0⟩

end Driver

/-- A call of `post` has fewer than 32768 chains. -/
def Short : Action β → Prop
  | .post bcs => bcs.length < 32768
  | _ => True

/-- The device wants to be told when entry `e` is made available. Entries are
counted from 0; the device names them by 16 bits. Without the event index, it
wants to be told of every entry as long as the flag is not set. -/
def Published.Asks (eventIndex : Bool) (p : Published) (e : Nat) : Prop :=
  if eventIndex then p.availEvent = BitVec.ofNat 16 e else p.noNotify = false

/-! ## The index of the ring -/

namespace Vring

variable {c : Completion β σ} {r r' : Vring β}

theorem allocateDesc_availHead {idx : Nat} (done : r.allocateDesc = some (idx, r')) :
    r'.availHead = r.availHead := by
  unfold allocateDesc at done
  cases head : r.freeHead with
  | none =>
      rw [head] at done
      cases done
  | some desc =>
      rw [head] at done
      split at done
      · rename_i found
        cases found
      · split at done
        · cases done
          rfl
        · cases done
          rfl

theorem postBuffers_availHead {bufs : List Buffer} {prev : Nat}
    (done : postBuffers bufs prev r = some r') : r'.availHead = r.availHead := by
  induction bufs generalizing r prev with
  | nil =>
      cases done
      rfl
  | cons b bufs ih =>
      simp only [postBuffers, Option.bind_eq_bind, Option.bind_eq_some_iff] at done
      obtain ⟨⟨idx, r₁⟩, allocated, rest⟩ := done
      have last := ih rest
      have first := allocateDesc_availHead allocated
      exact last.trans first

theorem postDescs_availHead {bufs : List Buffer} {head : BitVec 16}
    (done : postDescs bufs r = some (head, r')) : r'.availHead = r.availHead := by
  cases bufs with
  | nil =>
      cases done
      rfl
  | cons b bufs =>
      simp only [postDescs, Option.bind_eq_bind, Option.bind_eq_some_iff] at done
      obtain ⟨⟨idx, r₁⟩, allocated, r₂, rest, same⟩ := done
      cases same
      have first := allocateDesc_availHead allocated
      exact (postBuffers_availHead rest).trans first

theorem postChain_availHead {bc : β} {head : Nat}
    (done : r.postChain c bc = some (head, r')) : r'.availHead = r.availHead + 1 := by
  simp only [postChain, Option.bind_eq_bind, Option.bind_eq_some_iff] at done
  obtain ⟨⟨first, r₁⟩, descs, same⟩ := done
  cases same
  show r₁.availHead + 1 = r.availHead + 1
  rw [postDescs_availHead descs]

/-- `post` moves the index on by the number of its chains, and publishes it. -/
theorem post_availIdx {bcs : List β} {heads : List Nat}
    (done : post c bcs r = some (heads, r')) :
    r'.availIdx = r.availHead + BitVec.ofNat 16 bcs.length ∧ r'.availHead = r'.availIdx := by
  induction bcs generalizing r heads with
  | nil =>
      cases done
      exact ⟨(BitVec.add_zero _).symm, rfl⟩
  | cons bc bcs ih =>
      simp only [post, Option.bind_eq_bind, Option.bind_eq_some_iff] at done
      obtain ⟨⟨head, r₁⟩, first, ⟨heads₁, r₂⟩, rest, same⟩ := done
      cases same
      obtain ⟨moved, published⟩ := ih rest
      refine ⟨?_, published⟩
      rw [moved, postChain_availHead first, List.length_cons, ← add_ofNat_succ]

theorem splice_availHead {id : Nat} (done : r.splice id = some r') :
    r'.availHead = r.availHead := by
  unfold splice at done
  cases last : r.freeLast with
  | none =>
      rw [last] at done
      obtain ⟨_, _, rfl⟩ := Option.map_eq_some_iff.mp done
      rfl
  | some l =>
      rw [last] at done
      obtain ⟨_, _, rfl⟩ := Option.map_eq_some_iff.mp done
      rfl

theorem completeAll_availHead {n : Nat} {s s' : σ} {ds : List (Nat × β × Written)}
    (done : completeAll c n r s = some (ds, r', s')) : r'.availHead = r.availHead := by
  induction n generalizing r s ds with
  | zero =>
      cases done
      rfl
  | succ n ih =>
      simp only [completeAll, completeOne, Option.bind_eq_bind, Option.bind_eq_some_iff] at done
      obtain ⟨⟨d, r₁, s₁⟩, ⟨bc, _, ⟨s₂, m⟩, _, r₂, spliced, first⟩, ⟨ds₁, r₃, s₃⟩, rest, same⟩ :=
        done
      cases first
      cases same
      have last := ih rest
      have middle := splice_availHead spliced
      exact last.trans middle

end Vring

/-- Only `post` moves the index. -/
theorem step_availHead {c : Completion β σ} {s s' : Sys β σ} {a : Action β}
    (next : s.step c a = some s') :
    (∃ bcs, a = .post bcs ∧
      s'.ring.availIdx = s.ring.availHead + BitVec.ofNat 16 bcs.length ∧
      s'.ring.availHead = s'.ring.availIdx) ∨
    ((∀ bcs, a ≠ .post bcs) ∧ s'.ring.availHead = s.ring.availHead) := by
  cases a with
  | wait n =>
      cases next
      exact .inr ⟨by simp, rfl⟩
  | post bcs =>
      left
      simp only [Sys.step, Option.bind_eq_bind, Option.bind_eq_some_iff] at next
      obtain ⟨⟨heads, r⟩, done, same⟩ := next
      cases same
      exact ⟨bcs, rfl, Vring.post_availIdx done⟩
  | take =>
      cases next
      exact .inr ⟨by simp, rfl⟩
  | giveBack head w =>
      cases next
      exact .inr ⟨by simp, rfl⟩
  | poll =>
      right
      simp only [Sys.step, Vring.doComplete, Option.bind_eq_bind, Option.bind_eq_some_iff] at next
      obtain ⟨⟨ds, r, cs⟩, done, same⟩ := next
      cases same
      exact ⟨by simp, Vring.completeAll_availHead done⟩

/-! ## Distances of indices -/

/-- The comparison of `kick`: it holds just when the device names an entry that
was made since, as long as these are fewer than there are names. -/
theorem distance_lt_iff {made since : Nat} (before : since ≤ made) (few : made - since < 2 ^ 16)
    (event : BitVec 16) :
    (BitVec.ofNat 16 made - event - 1).toNat < made - since ↔
      ∃ e, since ≤ e ∧ e < made ∧ event = BitVec.ofNat 16 e := by
  constructor
  · intro near
    -- the distance tells which entry is named
    have name : event = BitVec.ofNat 16 (made - 1 - (BitVec.ofNat 16 made - event - 1).toNat) := by
      apply BitVec.eq_of_toNat_eq
      rw [BitVec.toNat_ofNat]
      bv_omega
    exact ⟨_, by omega, by omega, name⟩
  · rintro ⟨e, after, early, rfl⟩
    have distance : (BitVec.ofNat 16 made - BitVec.ofNat 16 e - 1).toNat = made - e - 1 := by
      bv_omega
    rw [distance]
    omega

namespace Driver

theorem toNat_countAll (bcs : List β) (added : BitVec 16) :
    (countAll bcs added).toNat = (added.toNat + bcs.length) % 2 ^ 16 := by
  induction bcs generalizing added with
  | nil => exact (Nat.mod_eq_of_lt added.isLt).symm
  | cons bc bcs ih =>
      rw [countAll, ih, BitVec.toNat_add, List.length_cons, Nat.mod_add_mod]
      congr 1
      show added.toNat + 1 + bcs.length = _
      omega

/-! ## Runs -/

/-- Between calls of `post` with the event index on. -/
structure Counted (d : Driver β σ) : Prop where
  index : d.sys.ring.availHead = BitVec.ofNat 16 d.made
  since : d.notified ≤ d.made
  added : d.availAddedSinceKick.toNat = d.made - d.notified
  small : d.made - d.notified < 65535 / 2

theorem counted_start (size : Nat) (completion : σ) :
    Counted (start size completion : Driver β σ) where
  index := rfl
  since := Nat.le_refl 0
  added := rfl
  small := Nat.zero_lt_succ _

/-- At the kick of a `post` the count is right: it has not wrapped. -/
theorem Counted.posted {d : Driver β σ} (counted : Counted d) {bcs : List β}
    (short : bcs.length < 32768) :
    (countAll bcs d.availAddedSinceKick).toNat = d.made + bcs.length - d.notified := by
  have since := counted.since
  have small := counted.small
  rw [toNat_countAll, counted.added, Nat.mod_eq_of_lt (by omega)]
  omega

/-- A kick with the event index on sends a notification, or leaves a count that
is below the limit and has none of the entries the device asks for. -/
theorem kick_cases (p : Published) (d : Driver β σ) :
    kick true p d = d.notify ∨
      (kick true p d = d ∧ d.availAddedSinceKick.toNat < 65535 / 2 ∧
        ¬(d.sys.ring.availIdx - p.availEvent - 1).toNat < d.availAddedSinceKick.toNat) := by
  unfold kick
  rw [if_neg (fun off => nomatch off.1)]
  simp only [if_true, decide_eq_true_eq]
  split
  · exact .inl rfl
  · rename_i quiet
    obtain ⟨far, below⟩ := not_or.mp quiet
    exact .inr ⟨rfl, Nat.lt_of_not_le below, far⟩

/-- A kick has no effect on the ring, nor on the entries. -/
theorem kick_frame (eventIndex : Bool) (p : Published) (d : Driver β σ) :
    (kick eventIndex p d).sys = d.sys ∧ (kick eventIndex p d).made = d.made := by
  cases eventIndex with
  | false =>
      unfold kick
      split
      · exact ⟨rfl, rfl⟩
      · exact ⟨rfl, rfl⟩
  | true =>
      rcases kick_cases p d with sent | ⟨same, -⟩
      · rw [sent]
        exact ⟨rfl, rfl⟩
      · rw [same]
        exact ⟨rfl, rfl⟩

theorem counted_kick {d : Driver β σ} (p : Published)
    (index : d.sys.ring.availHead = BitVec.ofNat 16 d.made) (since : d.notified ≤ d.made)
    (added : d.availAddedSinceKick.toNat = d.made - d.notified) : Counted (kick true p d) := by
  rcases kick_cases p d with sent | ⟨same, below, -⟩
  · rw [sent]
    refine ⟨index, Nat.le_refl _, (Nat.sub_self _).symm, ?_⟩
    show d.made - d.made < 65535 / 2
    omega
  · rw [same]
    exact ⟨index, since, added, added ▸ below⟩

/-- A step is a `post` with its kick, or leaves the numbers as they are. -/
theorem step_cases {c : Completion β σ} {eventIndex : Bool} {d d' : Driver β σ}
    {t : Action β × Published} (next : d.step c eventIndex t = some d') :
    (∃ bcs s, t.1 = .post bcs ∧
      s.ring.availIdx = d.sys.ring.availHead + BitVec.ofNat 16 bcs.length ∧
      s.ring.availHead = s.ring.availIdx ∧ d' = kick eventIndex t.2 (d.posted bcs s)) ∨
    (∃ s, (∀ bcs, t.1 ≠ .post bcs) ∧ s.ring.availHead = d.sys.ring.availHead ∧
      d' = { d with sys := s }) := by
  obtain ⟨a, p⟩ := t
  obtain ⟨s, moved, rfl⟩ := Option.map_eq_some_iff.mp next
  rcases step_availHead moved with ⟨bcs, rfl, idx, published⟩ | ⟨other, same⟩
  · exact .inl ⟨bcs, s, rfl, idx, published, rfl⟩
  · right
    refine ⟨s, other, same, ?_⟩
    cases a with
    | post bcs => exact absurd rfl (other bcs)
    | wait n => rfl
    | take => rfl
    | giveBack head w => rfl
    | poll => rfl

theorem step_counted {c : Completion β σ} {d d' : Driver β σ} {t : Action β × Published}
    (counted : Counted d) (short : Short t.1) (next : d.step c true t = some d') :
    Counted d' := by
  rcases step_cases next with ⟨bcs, s, post, idx, published, rfl⟩ | ⟨s, -, same, rfl⟩
  · rw [post] at short
    apply counted_kick
    · show s.ring.availHead = BitVec.ofNat 16 (d.made + bcs.length)
      rw [published, idx, counted.index, BitVec.ofNat_add]
    · exact Nat.le_add_right_of_le counted.since
    · exact counted.posted short
  · exact { counted with index := same.trans counted.index }

/-- The runs with kicks are runs of the ring. -/
theorem exec_sys {c : Completion β σ} {eventIndex : Bool} {d d' : Driver β σ}
    {ts : List (Action β × Published)} (run : exec (step c eventIndex) d ts = some d') :
    exec (Sys.step c) d.sys (ts.map Prod.fst) = some d'.sys := by
  induction ts generalizing d with
  | nil =>
      cases run
      rfl
  | cons t ts ih =>
      obtain ⟨d₁, next, rest⟩ := exec_cons.mp run
      obtain ⟨s, moved, rfl⟩ := Option.map_eq_some_iff.mp next
      refine exec_cons.mpr ⟨s, moved, ?_⟩
      have same := ih rest
      obtain ⟨a, p⟩ := t
      cases a with
      | post bcs =>
          -- only here is there a kick
          rw [(kick_frame eventIndex p (d.posted bcs s)).1] at same
          exact same
      | wait n => exact same
      | take => exact same
      | giveBack head w => exact same
      | poll => exact same

end Driver

/-- No notification is missed. In every run whose calls of `post` have fewer than
32768 chains, whatever the device publishes at each of them: a `post` at whose
kick the device asks for an entry that was made available since the last
notification, sends one. -/
theorem notifications_not_missed (c : Completion β σ) (eventIndex : Bool) {size : Nat} {cs : σ}
    {ts : List (Action β × Published)} (short : ∀ t ∈ ts, Short t.1) {d d' : Driver β σ}
    (run : exec (Driver.step c eventIndex) (Driver.start size cs) ts = some d)
    {bcs : List β} {p : Published} (few : bcs.length < 32768)
    (next : d.step c eventIndex (.post bcs, p) = some d') {e : Nat} (since : d.notified ≤ e)
    (made : e < d'.made) (asked : p.Asks eventIndex e) :
    d'.notifications = d.notifications + 1 ∧ d'.notified = d'.made := by
  rcases Driver.step_cases next with ⟨bcs', s, post, idx, -, rfl⟩ | ⟨s, other, -⟩
  · cases post
    rw [(Driver.kick_frame eventIndex p (d.posted bcs s)).2] at made
    cases eventIndex with
    | false =>
        have unset : p.noNotify = false := asked
        unfold Driver.kick
        rw [if_neg (fun off => nomatch off.2.symm.trans unset)]
        exact ⟨rfl, rfl⟩
    | true =>
        -- the count is right at the kick, so its comparison is about the entries
        have counted : Driver.Counted d :=
          Along.invariant (fun _ _ _ counted ok next => Driver.step_counted counted ok next)
            (Driver.counted_start size cs) (Along.of_mem short _) run
        have added := counted.posted few
        have index : s.ring.availIdx = BitVec.ofNat 16 (d.made + bcs.length) := by
          rw [idx, counted.index, BitVec.ofNat_add]
        have near : (s.ring.availIdx - p.availEvent - 1).toNat <
            (Driver.countAll bcs d.availAddedSinceKick).toNat := by
          have names := (Driver.countAll bcs d.availAddedSinceKick).isLt
          rw [added] at names ⊢
          rw [index]
          apply (distance_lt_iff (Nat.le_add_right_of_le counted.since) names p.availEvent).mpr
          exact ⟨e, since, made, asked⟩
        rcases Driver.kick_cases p (d.posted bcs s) with sent | ⟨-, -, far⟩
        · rw [sent]
          exact ⟨rfl, rfl⟩
        · exact absurd near far
  · exact absurd rfl (other bcs)

/-- A device that waits for entry 0 gets no notification while it names another
one, and gets it at the next `post`. -/
theorem notifications_not_missed_second :
    ∃ d d', exec (Driver.step (rxq 12) true) (Driver.start 4 ⟨0, [], []⟩)
        [(.wait 2, ⟨7, false⟩), (.post [⟨4096, 4096, true⟩], ⟨7, false⟩)] = some d ∧
      d.notifications = 0 ∧
      d.step (rxq 12) true (.post [⟨8192, 4096, true⟩], ⟨0, false⟩) = some d' ∧
      d'.notifications = d.notifications + 1 ∧ d'.notified = d'.made := by
  let d := (exec (Driver.step (rxq 12) true) (Driver.start 4 ⟨0, [], []⟩)
    [(.wait 2, ⟨7, false⟩), (.post [⟨4096, 4096, true⟩], ⟨7, false⟩)]).get (by decide)
  have run : exec (Driver.step (rxq 12) true) (Driver.start 4 ⟨0, [], []⟩)
      [(.wait 2, ⟨7, false⟩), (.post [⟨4096, 4096, true⟩], ⟨7, false⟩)] = some d :=
    (Option.some_get _).symm
  have next : d.step (rxq 12) true (.post [⟨8192, 4096, true⟩], ⟨0, false⟩) = some _ :=
    (Option.some_get (by decide)).symm
  exact ⟨d, _, run, rfl, next, notifications_not_missed (rxq 12) true (by simp [Short]) run
    (by decide) next (Nat.zero_le 0) (by decide) rfl⟩

end ActorNet.Virtio
