import ActorNet.Lib.Run
import ActorNet.Net.DpdkTranslation

/-!
# Sending through DPDK

`_send` translates all packets that wait into one burst and offers the burst to the
card, which takes as many clusters as its ring has room for. What it leaves is offered
again the next time, before anything else is translated; a packet stays at the front of
the queue, though moved from, until its cluster is taken.

The card frees the mbufs in the order in which it was given them, each into the pool,
where the factory finds it. Only then is the packet destroyed that the last mbuf of a
cluster keeps.
-/

namespace ActorNet.Net.Dpdk

open Lib

/-! ## The model -/

/-- `dpdk_qp`, its sending side. -/
structure DpdkQp where
  hugetlbfs : Bool
  port : DpdkDevice
  tx : Tx
  txBurst : List Cluster
  txBurstIdx : Nat
  deriving DecidableEq, Repr

/-- The loop of `_send` over the queue. A packet that was moved from is `none`. -/
def translateAll (hugetlbfs : Bool) (port : DpdkDevice) (rounds : Nat) :
    List (Option Packet) → List Cluster → Tx →
    Option (Except Fault (List (Option Packet) × List Cluster × Tx))
  | [], burst, s => some (.ok ([], burst, s))
  | none :: _, _, _ => some (.error .movedFrom)
  | some p :: pb, burst, s =>
      if p.len = 0 then some (.error .assertion)
      else
        match packetToTxBuf hugetlbfs port rounds p s with
        | none => none
        | some (.error e) => some (.error e)
        | some (.ok t) =>
            match t.cluster with
            | none => some (.ok (some t.packet :: pb, burst, t.tx))
            | some c =>
                (translateAll hugetlbfs port rounds pb (burst ++ [c]) t.tx).map fun r =>
                  r.map fun (pb, burst, s) =>
                    ((if hugetlbfs then none else some t.packet) :: pb, burst, s)

/-- The clusters that were not taken yet. -/
def DpdkQp.pending (qp : DpdkQp) : List Cluster := qp.txBurst.drop qp.txBurstIdx

/-- The rest of `_send`, when the card took this many. -/
def DpdkQp.account (qp : DpdkQp) (sent : Nat) : DpdkQp :=
  let taken := qp.pending.take sent
  let nrFrags := (taken.map Cluster.nbSegs).sum
  let bytes := (taken.map Cluster.pktLen).sum
  let idx := qp.txBurstIdx + sent
  let qp := { qp with tx := { qp.tx with stats := qp.tx.stats.updateFragsStats nrFrags bytes } }
  if idx = qp.txBurst.length then { qp with txBurstIdx := 0, txBurst := [] }
  else { qp with txBurstIdx := idx }

/-- The begin of `_send`, up to `rte_eth_tx_burst`. -/
def DpdkQp.translate (rounds : Nat) (qp : DpdkQp) (pb : List (Option Packet)) :
    Option (Except Fault (DpdkQp × List (Option Packet))) :=
  if qp.txBurst.length = 0 then
    (translateAll qp.hugetlbfs qp.port rounds pb qp.txBurst qp.tx).map fun r =>
      r.map fun (pb, burst, tx) => ({ qp with tx := tx, txBurst := burst }, pb)
  else some (.ok (qp, pb))

/-- How the program may end. -/
inductive Ending
  | fault (f : Fault)
  | never
  deriving DecidableEq, Repr

/-- A queue of packets, the queue pair that sends them, and the card: what it took, and
the mbufs that it is not done with. -/
structure Link where
  qp : DpdkQp
  pb : List (Option Packet)
  wire : List Cluster
  inFlight : List TxBuf
  queued : List Packet
  ending : Option Ending

inductive LinkEvent
  /-- A packet comes into the queue. -/
  | queue (p : Packet)
  /-- `send`, of which the card takes this many. -/
  | send (sent : Nat)
  /-- The card is done with the oldest mbuf. -/
  | complete
  /-- The poller of `gc`. -/
  | gc

namespace Link

/-- `rte_eth_tx_burst` takes no more than it is offered, and `_send` pops as many. -/
def burst (s : Link) (qp : DpdkQp) (pb : List (Option Packet)) (sent : Nat) : Option Link :=
  if qp.pending.length < sent then none
  else if pb.length < sent then
    some { s with qp := qp, pb := pb, ending := some (.fault .outOfBounds) }
  else some { s with
    qp := qp.account sent
    pb := pb.drop sent
    wire := s.wire ++ qp.pending.take sent
    inFlight := s.inFlight ++ (qp.pending.take sent).flatMap Cluster.segs }

def step (rounds : Nat) (s : Link) (e : LinkEvent) : Option Link :=
  if s.ending.isSome then none
  else
    match e with
    | .queue p =>
        if p.id = s.queued.length then
          some { s with pb := s.pb ++ [some p], queued := s.queued ++ [p] }
        else none
    | .send sent =>
        match s.qp.translate rounds s.pb with
        | none => some { s with ending := some .never }
        | some (.error f) => some { s with ending := some (.fault f) }
        | some (.ok (qp, pb)) => s.burst qp pb sent
    | .complete =>
        match s.inFlight with
        | [] => none
        | b :: inFlight =>
            let f := s.qp.tx.factory
            some { s with
              qp := { s.qp with tx := { s.qp.tx with factory := { f with pool := b :: f.pool } } }
              inFlight := inFlight }
    | .gc =>
        let f := s.qp.tx.factory
        some { s with
          qp := { s.qp with tx := { s.qp.tx with factory := (f.gc s.qp.hugetlbfs).2 } } }

def start (hugetlbfs : Bool) (port : DpdkDevice) (n : Nat) : Link :=
  ⟨⟨hugetlbfs, port, Tx.start n, [], 0⟩, [], [], [], [], none⟩

end Link

/-! ## What every step keeps -/

/-- The packet as it waits in the queue, linearized perhaps by a translation that failed. -/
def Waits (p : Packet) (o : Option Packet) : Prop :=
  ∃ p', o = some p' ∧ p'.id = p.id ∧ p'.content = p.content ∧ p'.offload = p.offload ∧ p'.Sendable

/-- The packets of which a cluster was made, and those that still wait: each in order. -/
def Lined (port : DpdkDevice) (queued : List Packet) (clusters : List Cluster)
    (moved : Nat) (pb : List (Option Packet)) : Prop :=
  ∃ done waiting, queued = done ++ waiting ∧ List.Forall₂ (Represents port) done clusters ∧
    moved ≤ pb.length ∧ List.Forall₂ Waits waiting (pb.drop moved)

namespace Link

/-- The mbufs that are held by clusters which the card has or will be offered. -/
def held (s : Link) : List TxBuf := s.inFlight ++ s.qp.pending.flatMap Cluster.segs

/-- What holds of the queue, the queue pair and the card together, with `n` mbufs. -/
structure Orderly (hugetlbfs : Bool) (port : DpdkDevice) (n : Nat) (s : Link) : Prop where
  backend : s.qp.hugetlbfs = hugetlbfs
  device : s.qp.port = port
  sound : s.ending = none
  ready : s.qp.tx.Ready s.qp.hugetlbfs
  first : s.qp.txBurst = [] → s.qp.txBurstIdx = 0
  within : s.qp.txBurst ≠ [] → s.qp.txBurstIdx < s.qp.txBurst.length
  /-- What the card took and what it will be offered are the packets of the queue, and
  the entries at its front that stand for the latter are the next to be popped. -/
  lined : Lined s.qp.port s.queued (s.wire ++ s.qp.pending) s.qp.pending.length s.pb
  /-- Every mbuf is in one place. -/
  mbufs : (s.held.map TxBuf.mbuf ++ s.qp.tx.factory.mbufs).Perm (List.range n)
  restorable : ∀ b ∈ s.held, b.Restorable s.qp.hugetlbfs
  kept : Kept s.held

end Link

theorem Represents.of_same {dev : DpdkDevice} {p q : Packet} {c : Cluster} (id : q.id = p.id)
    (content : q.content = p.content) (offload : q.offload = p.offload)
    (rep : Represents dev q c) : Represents dev p c where
  bytes_eq := rep.bytes_eq.trans content
  pktLen := by rw [rep.pktLen, Packet.len, content, Packet.len]
  nbSegs := rep.nbSegs
  few := rep.few
  segments := id ▸ rep.segments
  kept := rep.kept
  offload := offload ▸ rep.offload

theorem kept_append {bs cs : List TxBuf} (first : Kept bs) (second : Kept cs) :
    Kept (bs ++ cs) := by
  induction bs with
  | nil => exact second
  | cons b bs ih =>
      refine ⟨fun owner elsewhere => ?_, ih first.2⟩
      obtain ⟨c, mem, keeps⟩ := first.1 owner elsewhere
      exact ⟨c, List.mem_append_left cs mem, keeps⟩

/-- The loop translates a first part of the queue, and stops early only for want of mbufs. -/
theorem translateAll_spec {hugetlbfs : Bool} (port : DpdkDevice) {rounds : Nat}
    (enough : 2 ≤ rounds) {pb : List (Option Packet)} {waiting : List Packet} {s : Tx}
    (burst : List Cluster) (ready : s.Ready hugetlbfs) (waits : List.Forall₂ Waits waiting pb) :
    ∃ pb' more s', translateAll hugetlbfs port rounds pb burst s =
        some (.ok (pb', burst ++ more, s')) ∧
      Lined port waiting more more.length pb' ∧
      s.Drawn hugetlbfs s' (more.flatMap Cluster.segs) ∧
      (∀ b ∈ more.flatMap Cluster.segs, b.Restorable hugetlbfs) ∧
      (waiting ≠ [] → more = [] → s.factory.mbufs.length < 2 * maxFrags) := by
  induction waits generalizing s burst with
  | nil =>
      refine ⟨[], [], s, by simp [translateAll], ?_, .none ready, by simp, by simp⟩
      exact ⟨[], [], rfl, .nil, le_refl _, .nil⟩
  | @cons p o waiting pb first rest ih =>
      obtain ⟨p', rfl, id, content, offload, sendable⟩ := first
      have some' : p'.len ≠ 0 :=
        (List.length_pos_iff.mpr sendable.content_ne_nil).ne'
      obtain ⟨t, done, faithful, few⟩ := packetToTxBuf_spec port enough sendable ready
      obtain ⟨id', content', offload'⟩ := faithful.same
      have here : Waits p (some t.packet) := ⟨t.packet, rfl, id'.trans id, content'.trans content,
        offload'.trans offload, faithful.sendable⟩
      simp only [translateAll, if_neg some', done]
      cases built : t.cluster with
      | none =>
          have segs : t.segs = [] := by rw [Translated.segs, built]; rfl
          have drawn := faithful.drawn
          rw [segs] at drawn
          refine ⟨some t.packet :: pb, [], t.tx, by simp, ?_, drawn, by simp, fun _ _ => few built⟩
          exact ⟨[], p :: waiting, rfl, .nil, Nat.zero_le _, .cons here rest⟩
      | some c =>
          have segs : t.segs = c.segs := by rw [Translated.segs, built]; rfl
          have drawn : s.Drawn hugetlbfs t.tx c.segs := segs ▸ faithful.drawn
          have restorable : ∀ b ∈ c.segs, b.Restorable hugetlbfs := segs ▸ faithful.restorable
          have rep := (faithful.represents c built).of_same id content offload
          obtain ⟨pb', more, s', all, lined, drawn', restorable', -⟩ := ih (burst ++ [c]) drawn.ready
          obtain ⟨ahead, later, queued, reps, within, waits'⟩ := lined
          simp only [all, Option.map_some, Except.map]
          refine ⟨_, c :: more, s', by simp; rfl, ?_, ?_, ?_, by simp⟩
          · refine ⟨p :: ahead, later, congrArg _ queued, .cons rep reps, ?_, waits'⟩
            exact Nat.succ_le_succ within
          · rw [List.flatMap_cons]
            exact drawn.trans drawn'
          · rw [List.flatMap_cons]
            exact List.forall_mem_append.mpr ⟨restorable, restorable'⟩

/-- A cluster that says what a packet says is kept to its end. -/
theorem kept_flatMap {dev : DpdkDevice} {ps : List Packet} {cs : List Cluster}
    (reps : List.Forall₂ (Represents dev) ps cs) : Kept (cs.flatMap Cluster.segs) := by
  induction reps with
  | nil => trivial
  | cons rep _ ih =>
      rw [List.flatMap_cons]
      exact kept_append rep.kept ih

/-- What accounting for the clusters taken leaves. -/
theorem account_spec {qp : DpdkQp} {sent : Nat} (first : qp.txBurst = [] → qp.txBurstIdx = 0)
    (within : qp.txBurst ≠ [] → qp.txBurstIdx < qp.txBurst.length)
    (fits : sent ≤ qp.pending.length) :
    let qp' := qp.account sent
    qp'.pending = qp.pending.drop sent ∧ (qp'.txBurst = [] → qp'.txBurstIdx = 0) ∧
      (qp'.txBurst ≠ [] → qp'.txBurstIdx < qp'.txBurst.length) ∧
      qp'.hugetlbfs = qp.hugetlbfs ∧ qp'.port = qp.port ∧ qp'.tx.factory = qp.tx.factory := by
  have count : qp.pending.length = qp.txBurst.length - qp.txBurstIdx := List.length_drop
  by_cases last : qp.txBurstIdx + sent = qp.txBurst.length
  · have none : qp.pending.drop sent = [] := List.drop_eq_nil_iff.mpr (by omega)
    simp only [DpdkQp.account, if_pos last, none]
    exact ⟨rfl, fun _ => trivial, fun some => absurd rfl some, trivial, trivial, trivial⟩
  · simp only [DpdkQp.account, if_neg last]
    refine ⟨?_, fun nil => ?_, fun some => ?_, trivial, trivial, trivial⟩
    · show qp.txBurst.drop (qp.txBurstIdx + sent) = _
      rw [DpdkQp.pending, List.drop_drop]
    · have zero := first nil
      have length : qp.txBurst.length = 0 := List.length_eq_zero_iff.mpr nil
      omega
    · have inside := within some
      show qp.txBurstIdx + sent < qp.txBurst.length
      omega

namespace Link

variable {hugetlbfs : Bool} {port : DpdkDevice} {n rounds : Nat} {s s' : Link}

/-- Translation keeps the order, and makes something of a queue that is not empty when
there are mbufs. -/
theorem Orderly.translate (orderly : s.Orderly hugetlbfs port n) (enough : 2 ≤ rounds) :
    ∃ qp pb, s.qp.translate rounds s.pb = some (.ok (qp, pb)) ∧
      Orderly hugetlbfs port n { s with qp := qp, pb := pb } ∧
      (s.pb ≠ [] → s.inFlight = [] → 2 * maxFrags ≤ n → qp.pending ≠ []) := by
  unfold DpdkQp.translate
  split
  next empty =>
    have empty : s.qp.txBurst = [] := List.length_eq_zero_iff.mp empty
    have begin' := orderly.first empty
    have nothing : s.qp.pending = [] := by rw [DpdkQp.pending, empty, List.drop_nil]
    have held : s.held = s.inFlight := by simp [Link.held, nothing]
    have lined := orderly.lined
    have mbufs := orderly.mbufs
    have kept := orderly.kept
    have restorable := orderly.restorable
    rw [nothing] at lined
    rw [held] at mbufs kept restorable
    obtain ⟨done, waiting, queued, reps, -, waits⟩ := lined
    rw [List.length_nil, List.drop_zero] at waits
    obtain ⟨pb', more, tx, all, lined, drawn, restorable', few⟩ :=
      translateAll_spec s.qp.port enough s.qp.txBurst orderly.ready waits
    obtain ⟨ahead, later, queued', reps', within, waits'⟩ := lined
    rw [all, empty, List.nil_append]
    have pending : ({ s.qp with tx := tx, txBurst := more } : DpdkQp).pending = more := by
      show more.drop s.qp.txBurstIdx = more
      rw [begin', List.drop_zero]
    refine ⟨_, pb', rfl, ⟨orderly.backend, orderly.device, orderly.sound, drawn.ready, fun _ => begin', ?_, ?_, ?_, ?_, ?_⟩, ?_⟩
    · intro some
      show s.qp.txBurstIdx < more.length
      rw [begin']
      exact List.length_pos_iff.mpr some
    · rw [pending]
      refine ⟨done ++ ahead, later, ?_, ?_, within, waits'⟩
      · show s.queued = _
        rw [queued, queued', List.append_assoc]
      · rw [List.append_nil] at reps
        exact List.rel_append reps reps'
    · show ((s.inFlight ++ _).map TxBuf.mbuf ++ tx.factory.mbufs).Perm _
      rw [pending, List.map_append, List.append_assoc]
      exact (drawn.all.append_left _).trans mbufs
    · show ∀ b ∈ s.inFlight ++ _, _
      rw [pending]
      exact List.forall_mem_append.mpr ⟨restorable, restorable'⟩
    · show Kept (s.inFlight ++ _)
      rw [pending]
      exact kept_append kept (kept_flatMap reps')
    · intro some idle enough none
      rw [pending] at none
      have some' : waiting ≠ [] := by
        rintro rfl
        exact some (List.forall₂_nil_left_iff.mp waits)
      have short := few some' none
      have total := mbufs.length_eq
      rw [idle, List.map_nil, List.nil_append, List.length_range] at total
      omega
  next left =>
    refine ⟨s.qp, s.pb, rfl, orderly, fun _ _ _ nothing => ?_⟩
    have some : s.qp.txBurst ≠ [] := fun none => left (List.length_eq_zero_iff.mpr none)
    have within := orderly.within some
    exact absurd (List.drop_eq_nil_iff.mp nothing) (by omega)

/-- What the card takes moves from the burst into its ring. -/
theorem Orderly.burst {sent : Nat} (orderly : s.Orderly hugetlbfs port n)
    (next : s.burst s.qp s.pb sent = some s') :
    Orderly hugetlbfs port n s' ∧ s'.wire = s.wire ++ s.qp.pending.take sent := by
  obtain ⟨done, waiting, queued, reps, moved, waits⟩ := orderly.lined
  unfold Link.burst at next
  split at next
  · cases next
  next fits =>
    have fits : sent ≤ s.qp.pending.length := Nat.le_of_not_lt fits
    rw [if_neg (by omega)] at next
    cases next
    obtain ⟨rest, first, within, backend, device, factory⟩ :=
      account_spec orderly.first orderly.within fits
    have split' : s.qp.pending.take sent ++ s.qp.pending.drop sent = s.qp.pending :=
      List.take_append_drop sent _
    have held : s.inFlight ++ (s.qp.pending.take sent).flatMap Cluster.segs ++
        (s.qp.account sent).pending.flatMap Cluster.segs = s.held := by
      rw [rest, List.append_assoc, ← List.flatMap_append, split']
      rfl
    refine ⟨⟨backend.trans orderly.backend, device.trans orderly.device, orderly.sound, ?_, first,
      within, ?_, ?_, ?_, ?_⟩, rfl⟩
    · show (s.qp.account sent).tx.Ready (s.qp.account sent).hugetlbfs
      rw [backend]
      exact ⟨factory ▸ orderly.ready.ring, factory ▸ orderly.ready.pool⟩
    · show Lined (s.qp.account sent).port _ (s.wire ++ _ ++ (s.qp.account sent).pending) _ _
      rw [device, rest, List.append_assoc, split']
      refine ⟨done, waiting, queued, reps, ?_, ?_⟩
      · rw [List.length_drop, List.length_drop]
        omega
      · rw [List.length_drop, List.drop_drop, Nat.add_sub_cancel' fits]
        exact waits
    · show (List.map TxBuf.mbuf (_ ++ _) ++ (s.qp.account sent).tx.factory.mbufs).Perm _
      rw [factory, held]
      exact orderly.mbufs
    · show ∀ b ∈ _ ++ _, TxBuf.Restorable (s.qp.account sent).hugetlbfs b
      rw [backend, held]
      exact orderly.restorable
    · show Kept (_ ++ _)
      rw [held]
      exact orderly.kept

theorem Orderly.complete {b : TxBuf} {inFlight : List TxBuf} (orderly : s.Orderly hugetlbfs port n)
    (oldest : s.inFlight = b :: inFlight) :
    let f := s.qp.tx.factory
    Orderly hugetlbfs port n { s with
      qp := { s.qp with tx := { s.qp.tx with factory := { f with pool := b :: f.pool } } }
      inFlight := inFlight } := by
  intro f
  have held : s.held = b :: (inFlight ++ s.qp.pending.flatMap Cluster.segs) := by
    rw [Link.held, oldest, List.cons_append]
  have restorable := held ▸ orderly.restorable
  obtain ⟨here, there⟩ := List.forall_mem_cons.mp restorable
  have kept := held ▸ orderly.kept
  refine { orderly with
    ready := ⟨orderly.ready.ring, List.forall_mem_cons.mpr ⟨here, orderly.ready.pool⟩⟩
    mbufs := ?_
    restorable := there
    kept := kept.2 }
  refine List.Perm.trans ?_ (held ▸ orderly.mbufs)
  show (List.map TxBuf.mbuf (inFlight ++ s.qp.pending.flatMap Cluster.segs) ++
    (f.ring ++ b :: f.pool).map TxBuf.mbuf).Perm _
  rw [TxBufFactory.mbufs, ← List.map_append, ← List.map_append, ← List.append_assoc,
    List.cons_append, ← List.append_assoc]
  exact List.perm_middle.map _

theorem Orderly.gc (orderly : s.Orderly hugetlbfs port n) :
    let f := s.qp.tx.factory
    Orderly hugetlbfs port n { s with
      qp := { s.qp with tx := { s.qp.tx with factory := (f.gc s.qp.hugetlbfs).2 } } } := by
  intro f
  obtain ⟨ready, mbufs⟩ : Tx.Ready s.qp.hugetlbfs ⟨(f.gc s.qp.hugetlbfs).2, s.qp.tx.stats⟩ ∧
      (f.gc s.qp.hugetlbfs).2.mbufs.Perm f.mbufs := by
    unfold TxBufFactory.gc TxBufFactory.getOneCompleted
    cases filled : f.pool with
    | nil => exact ⟨orderly.ready, .refl _⟩
    | cons b pool =>
        have pool' : ∀ c ∈ b :: pool, c.Restorable s.qp.hugetlbfs := filled ▸ orderly.ready.pool
        obtain ⟨here, there⟩ := List.forall_mem_cons.mp pool'
        refine ⟨⟨List.forall_mem_cons.mpr ⟨here.with_data [], orderly.ready.ring⟩, there⟩, ?_⟩
        simp only [TxBufFactory.mbufs, TxBufFactory.put, filled, List.map_append, List.map_cons,
          TxBuf.mbuf_restore, List.cons_append]
        exact List.perm_middle.symm
  refine { orderly with
    ready := ready
    mbufs := (mbufs.append_left _).trans orderly.mbufs }

theorem Orderly.queue {p : Packet} (orderly : s.Orderly hugetlbfs port n) (sendable : p.Sendable) :
    Orderly hugetlbfs port n { s with pb := s.pb ++ [some p], queued := s.queued ++ [p] } := by
  obtain ⟨done, waiting, queued, reps, moved, waits⟩ := orderly.lined
  refine { orderly with lined := ⟨done, waiting ++ [p], ?_, reps, ?_, ?_⟩ }
  · show s.queued ++ [p] = _
    rw [queued, List.append_assoc]
  · exact moved.trans (by simp)
  · show List.Forall₂ Waits _ ((s.pb ++ [some p]).drop _)
    rw [List.drop_append_of_le_length moved]
    exact List.rel_append waits (.cons ⟨p, rfl, rfl, rfl, rfl, sendable⟩ .nil)

/-- A packet that comes can be sent. -/
def Admissible : LinkEvent → Prop
  | .queue p => p.Sendable
  | _ => True

theorem Orderly.step {e : LinkEvent} (orderly : s.Orderly hugetlbfs port n) (enough : 2 ≤ rounds)
    (admissible : Admissible e) (next : s.step rounds e = some s') : Orderly hugetlbfs port n s' := by
  have running : ¬s.ending.isSome := by simp [orderly.sound]
  unfold Link.step at next
  rw [if_neg running] at next
  cases e with
  | queue p =>
      dsimp only at next
      split at next
      · cases next
        exact orderly.queue admissible
      · cases next
  | send sent =>
      obtain ⟨qp, pb, done, orderly', -⟩ := orderly.translate enough
      simp only [done] at next
      exact (orderly'.burst next).1
  | complete =>
      dsimp only at next
      split at next
      · cases next
      next b inFlight oldest =>
        cases next
        exact orderly.complete oldest
  | gc =>
      cases next
      exact orderly.gc

theorem orderly_start (hugetlbfs : Bool) (port : DpdkDevice) (n : Nat) :
    Orderly hugetlbfs port n (start hugetlbfs port n) where
  backend := rfl
  device := rfl
  sound := rfl
  ready := Tx.ready_start hugetlbfs n
  first _ := rfl
  within some := absurd rfl some
  lined := ⟨[], [], rfl, .nil, le_refl _, .nil⟩
  mbufs := by
    have same : (start hugetlbfs port n).qp.tx.factory.mbufs = List.range n := by
      simp [start, Tx.start, TxBufFactory.mbufs, TxBuf.fresh, Function.comp_def]
    rw [same]
    exact .refl _
  restorable _ mem := absurd mem List.not_mem_nil
  kept := trivial

/-- The invariant along a run. -/
theorem orderly_run {es : List LinkEvent} (enough : 2 ≤ rounds) (admissible : ∀ e ∈ es, Admissible e)
    (run : exec (Link.step rounds) (start hugetlbfs port n) es = some s) :
    Orderly hugetlbfs port n s :=
  Along.invariant (fun _ _ _ orderly admissible next => orderly.step enough admissible next)
    (orderly_start hugetlbfs port n) (Along.of_mem admissible _) run

/-- In every run nothing is asserted in vain, the packets of the queue are what the card
takes, in their order and each once, every mbuf is in one place and is free only as it
was made, or so that taking it out of the pool makes it that again, and the card reads no
memory of a packet that is gone. -/
theorem frames_sent {es : List LinkEvent} (enough : 2 ≤ rounds)
    (admissible : ∀ e ∈ es, Admissible e)
    (run : exec (Link.step rounds) (start hugetlbfs port n) es = some s) :
    s.ending = none ∧
    (∃ done waiting, s.queued = done ++ waiting ∧
      List.Forall₂ (Represents port) done (s.wire ++ s.qp.pending) ∧
      List.Forall₂ Waits waiting (s.pb.drop s.qp.pending.length)) ∧
    (s.held.map TxBuf.mbuf ++ s.qp.tx.factory.mbufs).Perm (List.range n) ∧
    (∀ b ∈ s.qp.tx.factory.ring, b.Pristine) ∧
    (∀ b ∈ s.qp.tx.factory.pool, b.Restorable hugetlbfs) ∧ Kept s.held := by
  have orderly := orderly_run enough admissible run
  obtain ⟨done, waiting, queued, reps, -, waits⟩ := orderly.lined
  rw [orderly.device] at reps
  exact ⟨orderly.sound, ⟨done, waiting, queued, reps, waits⟩, orderly.mbufs, orderly.ready.ring,
    orderly.backend ▸ orderly.ready.pool, orderly.kept⟩

/-- When the card is done with all it had, a queue that is not empty has something for it. -/
theorem queue_drains {es : List LinkEvent} (enough : 2 ≤ rounds)
    (admissible : ∀ e ∈ es, Admissible e)
    (run : exec (Link.step rounds) (start hugetlbfs port n) es = some s)
    (mbufs : 2 * maxFrags ≤ n) (idle : s.inFlight = []) (waiting : s.pb ≠ []) :
    ∃ s', s.step rounds (.send 1) = some s' ∧ s'.ending = none ∧
      s'.wire.length = s.wire.length + 1 := by
  have orderly := orderly_run enough admissible run
  obtain ⟨qp, pb, done, orderly', some⟩ := orderly.translate enough
  have least : 1 ≤ qp.pending.length := List.length_pos_iff.mpr (some waiting idle mbufs)
  obtain ⟨-, -, -, -, moved, -⟩ := orderly'.lined
  have running : ¬s.ending.isSome := by simp [orderly.sound]
  have next : s.step rounds (.send 1) = s.burst qp pb 1 := by
    unfold Link.step
    rw [if_neg running]
    simp only [done]
  have most : ¬pb.length < 1 := Nat.not_lt.mpr (least.trans moved)
  rw [next, Link.burst, if_neg (Nat.not_lt.mpr least), if_neg most]
  refine ⟨_, rfl, orderly.sound, ?_⟩
  show (s.wire ++ qp.pending.take 1).length = _
  rw [List.length_append, List.length_take, Nat.min_eq_left least]

/-- A packet of one fragment. -/
def single (id : Nat) (bytes : List Byte) : Packet := ⟨id, [⟨bytes, fun _ => true⟩], fun _ => true, {}⟩

theorem admissible_single {id : Nat} {bytes : List Byte} (some : bytes ≠ [])
    (short : bytes.length ≤ maxFrags * inlineMbufDataSize) : Admissible (.queue (single id bytes)) where
  some := List.cons_ne_nil _ _
  given := List.forall_mem_singleton.mpr some
  short := by simpa [single, Packet.len, Packet.content] using short
  csum tcp := by simp [single] at tcp

/-- Two packets, of which the card takes one at a time. -/
def twoSent : List LinkEvent :=
  [.queue (single 0 [1#8]), .queue (single 1 [2#8]), .send 1, .complete, .send 1, .complete, .gc]

theorem admissible_twoSent : ∀ e ∈ twoSent, Admissible e := by
  simp only [twoSent, List.forall_mem_cons]
  exact ⟨admissible_single (by decide) (by decide), admissible_single (by decide) (by decide),
    trivial, trivial, trivial, trivial, trivial, by simp⟩

theorem frames_sent_two :
    ∃ s, exec (step 2) (start true ⟨true, false, false⟩ 3) twoSent = some s ∧
      s.wire.map Cluster.bytes = [[1#8], [2#8]] ∧ s.ending = none ∧
      (∃ done waiting, s.queued = done ++ waiting ∧
        List.Forall₂ (Represents ⟨true, false, false⟩) done (s.wire ++ s.qp.pending) ∧
        List.Forall₂ Waits waiting (s.pb.drop s.qp.pending.length)) ∧
      (s.held.map TxBuf.mbuf ++ s.qp.tx.factory.mbufs).Perm (List.range 3) ∧
      (∀ b ∈ s.qp.tx.factory.ring, b.Pristine) ∧
      (∀ b ∈ s.qp.tx.factory.pool, b.Restorable true) ∧ Kept s.held := by
  have sent : (exec (step 2) (start true ⟨true, false, false⟩ 3) twoSent).map
      (fun s => s.wire.map Cluster.bytes) = some [[1#8], [2#8]] := by
    decide +kernel
  obtain ⟨s, run, wire⟩ := Option.map_eq_some_iff.mp sent
  exact ⟨s, run, wire, frames_sent (le_refl 2) admissible_twoSent run⟩

/-- The first packet of two was sent, and the card is done with it. -/
theorem queue_drains_second :
    ∃ s, exec (step 2) (start false ⟨true, false, false⟩ 66)
        [.queue (single 0 [1#8]), .send 1, .complete, .queue (single 1 [2#8])] = some s ∧
      ∃ s', s.step 2 (.send 1) = some s' ∧ s'.ending = none ∧
        s'.wire.length = s.wire.length + 1 := by
  have there : (exec (step 2) (start false ⟨true, false, false⟩ 66)
      [.queue (single 0 [1#8]), .send 1, .complete, .queue (single 1 [2#8])]).map
      (fun s => (s.inFlight.length, s.pb.length)) = some (0, 1) := by
    decide +kernel
  obtain ⟨s, run, counts⟩ := Option.map_eq_some_iff.mp there
  obtain ⟨idle, one⟩ := Prod.mk.inj counts
  refine ⟨s, run, queue_drains (le_refl 2) ?_ run (by decide) ?_ ?_⟩
  · simp only [List.forall_mem_cons]
    exact ⟨admissible_single (by decide) (by decide), trivial, trivial,
      admissible_single (by decide) (by decide), by simp⟩
  · exact List.length_eq_zero_iff.mp idle
  · exact List.length_pos_iff.mp (one ▸ Nat.one_pos)

end Link

end ActorNet.Net.Dpdk
