import Mathlib.Algebra.Order.Group.Nat
import Mathlib.Data.List.Perm.Basic
import ActorNet.Net.DpdkClusters

/-!
# What a cluster says of its packet

The translation of a packet takes mbufs from the factory, some rounds of them perhaps,
and in the end holds those of one cluster or none. `Drawn` says so at each step: which
mbufs are held, and that all others are in the factory, fit to be handed out.
-/

namespace ActorNet.Net.Dpdk

open Lib

/-! ## No mbuf is lost -/

namespace TxBuf

variable {hugetlbfs : Bool} {b : TxBuf}

@[simp] theorem mbuf_resetZc (b : TxBuf) : b.resetZc.mbuf = b.mbuf := by
  unfold resetZc
  split
  · rfl
  · split <;> rfl

@[simp] theorem mbuf_restore (b : TxBuf) : (b.restore hugetlbfs).mbuf = b.mbuf := by
  cases hugetlbfs
  · rfl
  · exact mbuf_resetZc b

/-- `reset_zc` restores an mbuf that says of itself whether it is pointed elsewhere. -/
theorem restorable_true :
    b.Restorable true ↔ (b.p = none → b.isZc = false → b.addr = none) := by
  show b.resetZc.Pristine ↔ _
  obtain ⟨mbuf, data, addr, isZc, p⟩ := b
  cases p with
  | some owner => exact ⟨fun _ empty => (Option.some_ne_none _ empty).elim, fun _ => ⟨rfl, rfl, rfl⟩⟩
  | none =>
      cases isZc with
      | true => exact ⟨fun _ _ zc => Bool.noConfusion zc, fun _ => ⟨rfl, rfl, rfl⟩⟩
      | false => exact ⟨fun pristine _ _ => pristine.own, fun own => ⟨own rfl rfl, rfl, rfl⟩⟩

theorem Pristine.restorable (pristine : b.Pristine) : b.Restorable hugetlbfs := by
  cases hugetlbfs with
  | false => exact pristine
  | true => exact restorable_true.mpr fun _ _ => pristine.own

theorem Restorable.with_data (restorable : b.Restorable hugetlbfs) (data : List Byte) :
    ({ b with data := data } : TxBuf).Restorable hugetlbfs := by
  cases hugetlbfs with
  | false => exact ⟨restorable.own, restorable.inlined, restorable.empty⟩
  | true =>
      have own := restorable_true.mp restorable
      exact restorable_true.mpr own

end TxBuf

namespace Tx

variable {hugetlbfs : Bool} {s s' s'' : Tx} {b : TxBuf} {chain segs : List TxBuf}

/-- What is in the factory can be handed out. -/
structure Ready (hugetlbfs : Bool) (s : Tx) : Prop where
  ring : ∀ b ∈ s.factory.ring, b.Pristine
  pool : ∀ b ∈ s.factory.pool, b.Restorable hugetlbfs

/-- From `s` on these buffers were taken and are held, and no other is missing. -/
structure Drawn (hugetlbfs : Bool) (s s' : Tx) (chain : List TxBuf) : Prop where
  ready : s'.Ready hugetlbfs
  all : (chain.map TxBuf.mbuf ++ s'.factory.mbufs).Perm s.factory.mbufs

namespace Drawn

theorem none (ready : s.Ready hugetlbfs) : Drawn hugetlbfs s s [] := ⟨ready, .refl _⟩

theorem trans (first : Drawn hugetlbfs s s' chain) (second : Drawn hugetlbfs s' s'' segs) :
    Drawn hugetlbfs s s'' (chain ++ segs) where
  ready := second.ready
  all := by
    rw [List.map_append, List.append_assoc]
    exact (second.all.append_left _).trans first.all

theorem length (drawn : Drawn hugetlbfs s s' chain) :
    chain.length + s'.factory.mbufs.length = s.factory.mbufs.length := by
  simpa using drawn.all.length_eq

end Drawn

/-- `get` gives a buffer as it was made, if there is any. -/
theorem drawn_getTxBuf (ready : s.Ready hugetlbfs) (got : s.getTxBuf hugetlbfs = some (b, s')) :
    Drawn hugetlbfs s s' [b] ∧ b.Pristine := by
  obtain ⟨⟨ring, pool⟩, stats⟩ := s
  cases pool with
  | cons c pool =>
      cases got
      have restored := (ready.pool c List.mem_cons_self).with_data []
      refine ⟨⟨⟨ready.ring, fun b mem => ready.pool b (List.mem_cons_of_mem _ mem)⟩, ?_⟩, restored⟩
      simp only [TxBufFactory.mbufs, List.map_append, List.map_cons, List.map_nil,
        TxBuf.mbuf_restore, List.singleton_append]
      exact List.perm_middle.symm
  | nil =>
      cases ring with
      | nil => cases got
      | cons c ring =>
          cases got
          refine ⟨⟨⟨fun b mem => ?_, ready.pool⟩, .refl _⟩, ready.ring b List.mem_cons_self⟩
          exact ready.ring b (List.mem_cons_of_mem _ mem)

theorem mbufs_of_getTxBuf (none : s.getTxBuf hugetlbfs = none) : s.factory.mbufs = [] := by
  obtain ⟨⟨ring, pool⟩, stats⟩ := s
  cases pool with
  | cons c pool => cases none
  | nil =>
      cases ring with
      | nil => rfl
      | cons c ring => cases none

/-- Recycling gives back what was held. -/
theorem drawn_recycle (drawn : Drawn hugetlbfs s s' chain)
    (restorable : ∀ b ∈ chain, b.Restorable hugetlbfs) :
    Drawn hugetlbfs s (s'.recycle hugetlbfs chain) [] := by
  induction chain generalizing s' with
  | nil => exact drawn
  | cons b chain ih =>
      have back : Drawn hugetlbfs s { s' with factory := s'.factory.put hugetlbfs b.reset } chain := by
        refine ⟨⟨?_, drawn.ready.pool⟩, ?_⟩
        · intro c mem
          rcases List.mem_cons.mp mem with rfl | mem
          · exact (restorable b List.mem_cons_self).with_data []
          · exact drawn.ready.ring c mem
        · refine List.Perm.trans ?_ drawn.all
          simp only [TxBufFactory.mbufs, TxBufFactory.put, List.map_append, List.map_cons,
            TxBuf.mbuf_restore, List.cons_append]
          exact List.perm_middle
      exact ih back fun c mem => restorable c (List.mem_cons_of_mem _ mem)

end Tx

/-! ## Fragments arrive in their chains -/

/-- A segment holds something, and no more than its kind may. -/
structure Segment (owner : Nat) (b : TxBuf) : Prop where
  holds : b.data ≠ []
  kind : (b.isZc = true ∧ b.addr = some owner ∧ b.data.length ≤ maxFragLen) ∨
    (b.isZc = false ∧ b.addr = none ∧ b.data.length ≤ inlineMbufDataSize)

theorem Segment.restorable {owner : Nat} {b : TxBuf} (seg : Segment owner b) :
    b.Restorable true := by
  refine TxBuf.restorable_true.mpr fun _ inlined => ?_
  rcases seg.kind with ⟨zc, -⟩ | ⟨-, own, -⟩
  · exact Bool.noConfusion (zc.symm.trans inlined)
  · exact own

/-- How many inline buffers these bytes fill. -/
def buffersFor (n : Nat) : Nat := (n + (inlineMbufDataSize - 1)) / inlineMbufDataSize

/-- A chain that carries these bytes, with no packet kept yet. -/
structure Carries (owner : Nat) (chain : List TxBuf) (bytes : List Byte) : Prop where
  segments : ∀ b ∈ chain, Segment owner b
  unkept : ∀ b ∈ chain, b.p = none
  bytes_eq : chain.flatMap TxBuf.data = bytes

namespace Carries

variable {owner : Nat} {c d : List TxBuf} {xs ys : List Byte}

theorem nil (owner : Nat) : Carries owner [] [] := ⟨by simp, by simp, rfl⟩

theorem append (first : Carries owner c xs) (second : Carries owner d ys) :
    Carries owner (c ++ d) (xs ++ ys) where
  segments := List.forall_mem_append.mpr ⟨first.segments, second.segments⟩
  unkept := List.forall_mem_append.mpr ⟨first.unkept, second.unkept⟩
  bytes_eq := by rw [List.flatMap_append, first.bytes_eq, second.bytes_eq]

theorem restorable (carries : Carries owner c xs) : ∀ b ∈ c, b.Restorable true :=
  fun b mem => (carries.segments b mem).restorable

end Carries

/-- What `do_one_frag` relies on: a buffer with as much of the fragment as fits, but
for the last of them at least an inline buffer full. -/
structure TakesBuf (owner : Nat) (doOneBuf : Frag → Tx → Option (TxBuf × Tx)) : Prop where
  out {left : Frag} {s : Tx} : doOneBuf left s = none → s.factory.mbufs = []
  takes {left : Frag} {s s' : Tx} {b : TxBuf} : s.Ready true → left.bytes ≠ [] →
    doOneBuf left s = some (b, s') → s.Drawn true s' [b] ∧ Segment owner b ∧ b.p = none ∧
      ∃ n, inlineMbufDataSize ≤ n ∧ b.data = left.bytes.take n

theorem take_ne_nil {α : Type} {xs : List α} {n : Nat} (given : xs ≠ []) (pos : 0 < n) :
    xs.take n ≠ [] := by
  rw [ne_eq, List.take_eq_nil_iff]
  rintro (zero | nil)
  · exact pos.ne' zero
  · exact given nil

theorem takesBuf_copyOneDataBuf (owner : Nat) : TakesBuf owner (copyOneDataBuf true) where
  out none := Tx.mbufs_of_getTxBuf (Option.map_eq_none_iff.mp none)
  takes ready given took := by
    obtain ⟨⟨b, s₁⟩, got, same⟩ := Option.map_eq_some_iff.mp took
    cases same
    obtain ⟨drawn, pristine⟩ := Tx.drawn_getTxBuf ready got
    have held := take_ne_nil given (show 0 < inlineMbufDataSize by decide)
    exact ⟨⟨⟨drawn.ready.ring, drawn.ready.pool⟩, drawn.all⟩,
      ⟨held, .inr ⟨pristine.inlined, pristine.own, List.length_take_le _ _⟩⟩, pristine.empty,
      inlineMbufDataSize, le_refl _, rfl⟩

theorem takesBuf_setOneDataBuf (owner : Nat) : TakesBuf owner (setOneDataBuf true owner) where
  out {left s} none := by
    unfold setOneDataBuf at none
    split at none
    · exact Tx.mbufs_of_getTxBuf (Option.map_eq_none_iff.mp none)
    · exact (takesBuf_copyOneDataBuf owner).out none
  takes {left s s' b} ready given took := by
    unfold setOneDataBuf at took
    split at took
    · obtain ⟨⟨b, s₁⟩, got, same⟩ := Option.map_eq_some_iff.mp took
      cases same
      obtain ⟨drawn, pristine⟩ := Tx.drawn_getTxBuf ready got
      have held := take_ne_nil given (show 0 < maxFragLen by decide)
      exact ⟨⟨drawn.ready, drawn.all⟩, ⟨held, .inl ⟨rfl, rfl, List.length_take_le _ _⟩⟩,
        pristine.empty, maxFragLen, by decide, rfl⟩
    · exact (takesBuf_copyOneDataBuf owner).takes ready given took

section Fragments

variable {owner : Nat} {doOneBuf : Frag → Tx → Option (TxBuf × Tx)} {s₀ s s' : Tx}
  {chain : List TxBuf} {sofar : List Byte}

theorem buffersFor_pos {n : Nat} (pos : 0 < n) : 0 < buffersFor n := by
  unfold buffersFor inlineMbufDataSize
  omega

/-- The loop of `do_one_frag` sets what is left of the fragment, or gives everything
back and there were too few mbufs. -/
theorem doOneFragLoop_spec (takes : TakesBuf owner doOneBuf) {fuel : Nat} {left : Frag}
    (enough : left.size ≤ fuel) (drawn : s₀.Drawn true s chain)
    (carries : Carries owner chain sofar) :
    (∃ segs s', doOneFragLoop true doOneBuf fuel chain left s = (some (chain ++ segs), s') ∧
      s₀.Drawn true s' (chain ++ segs) ∧ Carries owner segs left.bytes ∧
      segs.length ≤ buffersFor left.size) ∨
    (∃ s', doOneFragLoop true doOneBuf fuel chain left s = (none, s') ∧ s₀.Drawn true s' [] ∧
      s.factory.mbufs.length < buffersFor left.size) := by
  induction fuel generalizing left s chain sofar with
  | zero =>
      have none : left.bytes = [] := List.length_eq_zero_iff.mp (Nat.le_zero.mp enough)
      exact .inl ⟨[], s, by simp [doOneFragLoop], by simpa using drawn, none ▸ .nil owner,
        Nat.zero_le _⟩
  | succ fuel ih =>
      by_cases zero : left.size = 0
      · have none : left.bytes = [] := List.length_eq_zero_iff.mp zero
        exact .inl ⟨[], s, by simp [doOneFragLoop, zero], by simpa using drawn, none ▸ .nil owner,
          Nat.zero_le _⟩
      have given : left.bytes ≠ [] := fun none => zero (List.length_eq_zero_iff.mpr none)
      rw [doOneFragLoop, if_neg zero]
      cases took : doOneBuf left s with
      | none =>
          refine .inr ⟨_, rfl, Tx.drawn_recycle drawn carries.restorable, ?_⟩
          rw [takes.out took]
          exact buffersFor_pos (Nat.pos_of_ne_zero zero)
      | some r =>
          obtain ⟨b, s₁⟩ := r
          obtain ⟨one, seg, unkept, n, full, data⟩ := takes.takes drawn.ready given took
          have size : b.data.length = min n left.size := by rw [data, List.length_take]; rfl
          have rest : (left.drop b.data.length).size = left.size - n := by
            show (left.bytes.drop _).length = _
            rw [List.length_drop, size]
            show left.size - _ = _
            omega
          have whole : left.bytes = b.data ++ (left.drop b.data.length).bytes := by
            show _ = b.data ++ left.bytes.drop _
            rw [size, data]
            rcases Nat.le_total n left.size with le | ge
            · rw [Nat.min_eq_left le, List.take_append_drop]
            · rw [Nat.min_eq_right ge, List.take_of_length_le ge, Frag.size, List.drop_length,
                List.append_nil]
          have first : Carries owner [b] b.data :=
            ⟨by simpa using seg, by simpa using unkept, by simp⟩
          have fewer : buffersFor (left.size - n) + 1 ≤ buffersFor left.size := by
            unfold buffersFor
            unfold inlineMbufDataSize at *
            omega
          have less : (left.drop b.data.length).size ≤ fuel := by
            unfold inlineMbufDataSize at full
            omega
          rcases ih less (drawn.trans one) (carries.append first) with
            ⟨segs, s', done, drawn', carries', few⟩ | ⟨s', failed, drawn', few⟩
          · refine .inl ⟨b :: segs, s', by simpa using done, by simpa using drawn', ?_, ?_⟩
            · rw [whole]
              exact first.append carries'
            · rw [List.length_cons]
              rw [rest] at few
              omega
          · refine .inr ⟨s', failed, drawn', ?_⟩
            have count := one.length
            rw [rest] at few
            rw [List.length_singleton] at count
            omega

/-- How many mbufs the fragments may need. -/
def needed (frags : List Frag) : Nat := (frags.map fun f => buffersFor f.size).sum

theorem translateFrags_spec {frags : List Frag} (given : ∀ f ∈ frags, f.bytes ≠ [])
    (drawn : s₀.Drawn true s chain) (carries : Carries owner chain sofar) :
    (∃ segs s', translateFrags true owner frags chain s = .ok (some (chain ++ segs), s') ∧
      s₀.Drawn true s' (chain ++ segs) ∧
      Carries owner (chain ++ segs) (sofar ++ frags.flatMap Frag.bytes) ∧
      segs.length ≤ needed frags) ∨
    (∃ s', translateFrags true owner frags chain s = .ok (none, s') ∧ s₀.Drawn true s' [] ∧
      s.factory.mbufs.length < needed frags) := by
  induction frags generalizing s chain sofar with
  | nil => exact .inl ⟨[], s, by simp [translateFrags], by simpa using drawn, by simpa using carries,
      Nat.zero_le _⟩
  | cons f fs ih =>
      obtain ⟨here, there⟩ := List.forall_mem_cons.mp given
      have zero : f.size ≠ 0 := fun zero => here (List.length_eq_zero_iff.mp zero)
      have one := doOneFragLoop_spec (takesBuf_setOneDataBuf owner) (le_refl f.size)
        (.none drawn.ready) (.nil owner)
      have count : needed (f :: fs) = buffersFor f.size + needed fs := rfl
      simp only [translateFrags, translateOneFrag, doOneFrag, if_neg zero, bind, Except.bind]
      rcases one with ⟨segs, s₁, done, drawn₁, carries₁, few⟩ | ⟨s₁, failed, drawn₁, few⟩
      · rw [done]
        have begun := drawn.trans drawn₁
        rcases ih there begun (carries.append carries₁) with
          ⟨more, s₂, done₂, drawn₂, carries₂, few₂⟩ | ⟨s₂, failed₂, drawn₂, few₂⟩
        · refine .inl ⟨segs ++ more, s₂, ?_, ?_, ?_, ?_⟩
          · simpa using done₂
          · simpa using drawn₂
          · simpa using carries₂
          · rw [List.length_append, count]
            omega
        · refine .inr ⟨s₂, by simpa using failed₂, drawn₂, ?_⟩
          have taken := drawn₁.length
          simp only [List.nil_append] at taken
          omega
      · rw [failed]
        have back := drawn.trans drawn₁
        rw [List.append_nil] at back
        refine .inr ⟨_, rfl, Tx.drawn_recycle back carries.restorable, ?_⟩
        omega

end Fragments

/-! ## Packets arrive in their clusters -/

namespace Packet

/-- What the queue may be given: no fragment is empty, the largest TSO size with its
headers, and with segmentation the checksum of the IP header. -/
structure Sendable (p : Packet) : Prop where
  some : p.frags ≠ []
  given : ∀ f ∈ p.frags, f.bytes ≠ []
  short : p.len ≤ maxFrags * inlineMbufDataSize
  csum : p.offload.protocol = .tcp → p.offload.tsoSegSize ≠ 0 → p.offload.needsIpCsum = true

variable {p : Packet}

theorem behind_eq_nil {frags : List Frag} (given : ∀ f ∈ frags, f.bytes ≠ []) :
    behind (frags.flatMap Frag.bytes).length frags = [] := by
  induction frags with
  | nil => rfl
  | cons f fs ih =>
      obtain ⟨here, there⟩ := List.forall_mem_cons.mp given
      have pos : 0 < f.size := List.length_pos_iff.mpr here
      have total : ((f :: fs).flatMap Frag.bytes).length =
          f.size + (fs.flatMap Frag.bytes).length := by
        rw [List.flatMap_cons, List.length_append]
        rfl
      rw [total, behind, if_neg (by omega), Nat.add_sub_cancel_left]
      exact ih there

theorem frags_linearize (given : ∀ f ∈ p.frags, f.bytes ≠ []) :
    p.linearize.frags = [⟨p.content, p.linear⟩] :=
  congrArg _ (behind_eq_nil given)

theorem content_linearize (given : ∀ f ∈ p.frags, f.bytes ≠ []) :
    p.linearize.content = p.content := by
  rw [content, frags_linearize given, List.flatMap_singleton]

theorem Sendable.content_ne_nil (sendable : p.Sendable) : p.content ≠ [] := by
  obtain ⟨f, mem⟩ := List.exists_mem_of_ne_nil _ sendable.some
  intro nil
  exact sendable.given f mem (List.flatMap_eq_nil_iff.mp nil f mem)

theorem Sendable.linearize (sendable : p.Sendable) : p.linearize.Sendable where
  some := List.cons_ne_nil _ _
  given := by
    rw [frags_linearize sendable.given, List.forall_mem_singleton]
    exact sendable.content_ne_nil
  short := by
    rw [len, content_linearize sendable.given]
    exact sendable.short
  csum := sendable.csum

end Packet

/-- The card may read memory of a packet for as long as a later segment, or the same,
keeps the packet. -/
def Kept : List TxBuf → Prop
  | [] => True
  | b :: bs => (∀ owner, b.addr = some owner → ∃ c ∈ b :: bs, c.p = some owner) ∧ Kept bs

/-- The cluster says what the packet says. -/
structure Represents (dev : DpdkDevice) (p : Packet) (c : Cluster) : Prop where
  bytes_eq : c.bytes = p.content
  pktLen : c.pktLen = p.len
  nbSegs : c.nbSegs = c.segs.length
  few : c.segs.length ≤ maxFrags
  segments : ∀ b ∈ c.segs, Segment p.id b
  kept : Kept c.segs
  offload : setClusterOffloadInfo dev p.offload = .ok c.offload

/-- The buffers of the cluster that came of a packet. -/
def Translated.segs (t : Translated) : List TxBuf := (t.cluster.map Cluster.segs).getD []

/-- The translation of a packet did what it is for, or gave back what it had. -/
structure Faithful (hugetlbfs : Bool) (dev : DpdkDevice) (p : Packet) (s : Tx)
    (t : Translated) : Prop where
  same : t.packet.id = p.id ∧ t.packet.content = p.content ∧ t.packet.offload = p.offload
  sendable : t.packet.Sendable
  drawn : s.Drawn hugetlbfs t.tx t.segs
  restorable : ∀ b ∈ t.segs, b.Restorable hugetlbfs
  represents : ∀ c, t.cluster = some c → Represents dev p c

theorem setClusterOffloadInfo_ok (dev : DpdkDevice) {oi : OffloadInfo}
    (csum : oi.protocol = .tcp → oi.tsoSegSize ≠ 0 → oi.needsIpCsum = true) :
    ∃ o, setClusterOffloadInfo dev oi = .ok o := by
  cases l4 : dev.txCsumL4Offload with
  | false => simp [setClusterOffloadInfo, l4]
  | true =>
      cases protocol : oi.protocol with
      | tcp =>
          by_cases tso : oi.tsoSegSize = 0
          · simp [setClusterOffloadInfo, l4, protocol, tso]
          · simp [setClusterOffloadInfo, l4, protocol, tso, csum protocol tso]
      | udp => simp [setClusterOffloadInfo, l4, protocol]
      | other => simp [setClusterOffloadInfo, l4, protocol]

section SetPacket

variable {owner : Nat} {chain : List TxBuf}

theorem setPacket_map {β : Type} (owner : Nat) (chain : List TxBuf) (f : TxBuf → β)
    (same : ∀ b p, f { b with p := p } = f b) :
    (setPacket owner chain).map f = chain.map f := by
  induction chain with
  | nil => rfl
  | cons b bs ih =>
      cases bs with
      | nil => exact congrArg (fun x => [x]) (same b (some owner))
      | cons c bs => exact congrArg (f b :: ·) ih

theorem segment_setPacket (segments : ∀ b ∈ chain, Segment owner b) :
    ∀ b ∈ setPacket owner chain, Segment owner b := by
  induction chain with
  | nil => exact segments
  | cons b bs ih =>
      obtain ⟨here, there⟩ := List.forall_mem_cons.mp segments
      cases bs with
      | nil =>
          refine List.forall_mem_singleton.mpr ?_
          exact ⟨here.holds, here.kind⟩
      | cons c bs => exact List.forall_mem_cons.mpr ⟨here, ih there⟩

theorem exists_keeper (owner : Nat) (given : chain ≠ []) : ∃ c ∈ setPacket owner chain, c.p = some owner := by
  induction chain with
  | nil => exact absurd rfl given
  | cons b bs ih =>
      cases bs with
      | nil => exact ⟨_, List.mem_singleton.mpr rfl, rfl⟩
      | cons c bs =>
          obtain ⟨d, mem, keeps⟩ := ih (List.cons_ne_nil _ _)
          exact ⟨d, List.mem_cons_of_mem _ mem, keeps⟩

theorem Segment.owner_eq {b : TxBuf} {k : Nat} (seg : Segment owner b)
    (elsewhere : b.addr = some k) : k = owner := by
  rcases seg.kind with ⟨-, mine, -⟩ | ⟨-, own, -⟩
  · exact Option.some.inj (elsewhere.symm.trans mine)
  · exact (Option.some_ne_none k (elsewhere.symm.trans own)).elim

/-- With the packet in its last segment every part of a cluster is kept to its end. -/
theorem kept_setPacket (segments : ∀ b ∈ chain, Segment owner b) :
    Kept (setPacket owner chain) := by
  induction chain with
  | nil => trivial
  | cons b bs ih =>
      obtain ⟨here, there⟩ := List.forall_mem_cons.mp segments
      cases bs with
      | nil =>
          refine ⟨fun k elsewhere => ⟨_, List.mem_singleton.mpr rfl, ?_⟩, trivial⟩
          exact congrArg some (here.owner_eq elsewhere).symm
      | cons c bs =>
          refine ⟨fun k elsewhere => ?_, ih there⟩
          obtain ⟨d, mem, keeps⟩ := exists_keeper owner (List.cons_ne_nil c bs)
          exact ⟨d, List.mem_cons_of_mem _ mem, here.owner_eq elsewhere ▸ keeps⟩

end SetPacket

section Zc

variable {dev : DpdkDevice} {p : Packet} {s s' : Tx} {t : Translated}

theorem Represents.of_linearize {c : Cluster} (given : ∀ f ∈ p.frags, f.bytes ≠ [])
    (rep : Represents dev p.linearize c) : Represents dev p c where
  bytes_eq := rep.bytes_eq.trans (Packet.content_linearize given)
  pktLen := by rw [rep.pktLen, Packet.len, Packet.content_linearize given, Packet.len]
  nbSegs := rep.nbSegs
  few := rep.few
  segments := rep.segments
  kept := rep.kept
  offload := rep.offload

/-- The translation of the linearized packet, after a first try was given back. -/
theorem Faithful.of_linearize (sendable : p.Sendable) (back : s.Drawn true s' [])
    (faithful : Faithful true dev p.linearize s' t) : Faithful true dev p s t where
  same := by
    obtain ⟨id, content, offload⟩ := faithful.same
    exact ⟨id, content.trans (Packet.content_linearize sendable.given), offload⟩
  sendable := faithful.sendable
  drawn := by simpa using back.trans faithful.drawn
  restorable := faithful.restorable
  represents c built := (faithful.represents c built).of_linearize sendable.given

theorem mustLinearize_setPacket {pktLen nbSegs owner : Nat} {chain : List TxBuf} {o : TxOffload} :
    mustLinearize dev p ⟨setPacket owner chain, pktLen, nbSegs, o⟩ =
      mustLinearize dev p ⟨chain, pktLen, nbSegs, o⟩ := by
  have lens := setPacket_map owner chain (fun b => b.data.length) fun _ _ => rfl
  simp only [mustLinearize, i40eShouldLinearize, lens]

theorem mustLinearize_one {c : Cluster} (one : p.nrFrags = 1) (few : c.nbSegs ≤ maxFrags) :
    mustLinearize dev p c = false := by
  simp [mustLinearize, one, vmxnet3MaxXmitSegmentFrags, few]

/-- One round: a cluster within the limits, or too few mbufs, or a further round after
everything was given back. -/
theorem buildMbufCluster_succ (rounds : Nat) (sendable : p.Sendable) (ready : s.Ready true) :
    (∃ t, buildMbufCluster true dev (rounds + 1) p s = some (.ok t) ∧ Faithful true dev p s t ∧
      (∀ c, t.cluster = some c → mustLinearize dev t.packet c = false) ∧
      (t.cluster = none → s.factory.mbufs.length < needed p.frags)) ∨
    (∃ s', buildMbufCluster true dev (rounds + 1) p s =
        buildMbufCluster true dev rounds p.linearize s' ∧
      s.Drawn true s' [] ∧ p.nrFrags ≠ 1) := by
  obtain ⟨o, offload⟩ := setClusterOffloadInfo_ok dev sendable.csum
  rw [buildMbufCluster, if_neg sendable.some]
  rcases translateFrags_spec sendable.given (.none ready) (.nil p.id) with
    ⟨chain, s', done, drawn, carries, few⟩ | ⟨s', failed, drawn, few⟩
  · simp only [List.nil_append] at done drawn carries
    simp only [done, offload]
    split
    next too =>
      refine .inr ⟨_, rfl, ?_, fun one => ?_⟩
      · have back := Tx.drawn_recycle drawn carries.restorable
        exact ⟨⟨back.ready.ring, back.ready.pool⟩, back.all⟩
      · obtain ⟨f, only⟩ := List.length_eq_one_iff.mp one
        have size : f.size = p.len := by rw [Packet.len, Packet.content, only]; simp [Frag.size]
        have short := sendable.short
        have within : chain.length ≤ maxFrags := by
          refine few.trans ?_
          rw [only, needed, List.map_singleton, List.sum_singleton, size]
          unfold buffersFor maxFrags at *
          unfold inlineMbufDataSize at *
          omega
        rw [mustLinearize_one one within] at too
        exact Bool.noConfusion too
    next fits =>
      have fits : mustLinearize dev p ⟨chain, p.len, chain.length, o⟩ = false := by simpa using fits
      have lengths : (setPacket p.id chain).length = chain.length := by
        simpa using congrArg List.length (setPacket_map p.id chain TxBuf.mbuf fun _ _ => rfl)
      have mbufs := setPacket_map p.id chain TxBuf.mbuf fun _ _ => rfl
      refine .inl ⟨_, rfl, ⟨⟨rfl, rfl, rfl⟩, sendable, ⟨drawn.ready, ?_⟩, ?_, ?_⟩, ?_, ?_⟩
      · show ((setPacket p.id chain).map TxBuf.mbuf ++ _).Perm _
        rw [mbufs]
        exact drawn.all
      · exact fun b mem => (segment_setPacket carries.segments b mem).restorable
      · rintro c ⟨⟩
        refine ⟨?_, rfl, lengths.symm, ?_, segment_setPacket carries.segments,
          kept_setPacket carries.segments, offload⟩
        · show (setPacket p.id chain).flatMap TxBuf.data = _
          rw [List.flatMap_def, setPacket_map _ _ _ fun _ _ => rfl, ← List.flatMap_def]
          exact carries.bytes_eq
        · show (setPacket p.id chain).length ≤ _
          rw [lengths]
          simp only [mustLinearize, Bool.or_eq_false_iff, decide_eq_false_iff_not] at fits
          omega
      · rintro c ⟨⟩
        exact mustLinearize_setPacket.trans fits
      · intro none
        cases none
  · simp only [failed]
    refine .inl ⟨_, rfl, ⟨⟨rfl, rfl, rfl⟩, sendable, drawn, by simp [Translated.segs], ?_⟩, ?_, ?_⟩
    · rintro c ⟨⟩
    · rintro c ⟨⟩
    · exact fun _ => few

theorem needed_le (frags : List Frag) :
    inlineMbufDataSize * needed frags ≤
      (frags.flatMap Frag.bytes).length + (inlineMbufDataSize - 1) * frags.length := by
  induction frags with
  | nil => exact Nat.zero_le _
  | cons f fs ih =>
      have here : inlineMbufDataSize * buffersFor f.size ≤ f.size + (inlineMbufDataSize - 1) :=
        Nat.mul_div_le _ _
      have count : needed (f :: fs) = buffersFor f.size + needed fs := rfl
      rw [count, List.flatMap_cons, List.length_append, List.length_cons, Nat.mul_add, Nat.mul_succ]
      unfold Frag.size at *
      omega

/-- With no more fragments than a cluster has segments, twice as many mbufs do. -/
theorem Packet.Sendable.needed_le (sendable : p.Sendable) (few : p.nrFrags ≤ maxFrags) :
    needed p.frags ≤ 2 * maxFrags := by
  have bound := Dpdk.needed_le p.frags
  have short := sendable.short
  unfold Packet.len Packet.content Packet.nrFrags maxFrags inlineMbufDataSize at *
  omega

theorem Packet.nrFrags_linearize (sendable : p.Sendable) : p.linearize.nrFrags = 1 := by
  rw [Packet.nrFrags, Packet.frags_linearize sendable.given, List.length_singleton]

/-- The translation comes to an end after two rounds at most, without a fault. -/
theorem fromPacketZc_spec (dev : DpdkDevice) {rounds : Nat} (enough : 2 ≤ rounds) (sendable : p.Sendable)
    (ready : s.Ready true) :
    ∃ t, fromPacketZc true dev rounds p s = some (.ok t) ∧ Faithful true dev p s t ∧
      (∀ c, t.cluster = some c → mustLinearize dev t.packet c = false) ∧
      (t.cluster = none → s.factory.mbufs.length < 2 * maxFrags) := by
  have linear {s' : Tx} {rounds : Nat} (pos : 0 < rounds) (back : s.Drawn true s' []) :
      ∃ t, buildMbufCluster true dev rounds p.linearize s' = some (.ok t) ∧
        Faithful true dev p s t ∧
        (∀ c, t.cluster = some c → mustLinearize dev t.packet c = false) ∧
        (t.cluster = none → s.factory.mbufs.length < 2 * maxFrags) := by
    obtain ⟨k, rfl⟩ := Nat.exists_eq_succ_of_ne_zero pos.ne'
    have one := Packet.nrFrags_linearize sendable
    rcases buildMbufCluster_succ k sendable.linearize back.ready with
      ⟨t, done, faithful, limits, few⟩ | ⟨-, -, -, more⟩
    · refine ⟨t, done, faithful.of_linearize sendable back, limits, fun none => ?_⟩
      have bound := sendable.linearize.needed_le (by rw [one]; decide)
      have all := back.length
      have least := few none
      simp only [List.length_nil] at all
      omega
    · exact absurd one more
  unfold fromPacketZc
  split
  · exact linear (by omega) ⟨⟨ready.ring, ready.pool⟩, .refl _⟩
  next few =>
    obtain ⟨k, rfl⟩ : ∃ k, rounds = k + 1 := ⟨rounds - 1, by omega⟩
    rcases buildMbufCluster_succ k sendable ready with
      ⟨t, done, faithful, limits, least⟩ | ⟨s', again, back, -⟩
    · have bound := sendable.needed_le (Nat.le_of_not_lt few)
      exact ⟨t, done, faithful, limits, fun none => (least none).trans_le bound⟩
    · rw [again]
      exact linear (by omega) back

end Zc

section Copy

variable {hugetlbfs : Bool} {dev : DpdkDevice} {p : Packet} {s₀ s s' : Tx} {chain : List TxBuf}

theorem allocateChain_spec {n : Nat} (drawn : s₀.Drawn hugetlbfs s chain)
    (pristine : ∀ b ∈ chain, b.Pristine) :
    (∃ segs s', allocateChain hugetlbfs n chain s = (some (chain ++ segs), s') ∧
      s₀.Drawn hugetlbfs s' (chain ++ segs) ∧ segs.length = n ∧ ∀ b ∈ segs, b.Pristine) ∨
    (∃ s', allocateChain hugetlbfs n chain s = (none, s') ∧ s₀.Drawn hugetlbfs s' [] ∧
      s.factory.mbufs.length < n) := by
  induction n generalizing s chain with
  | zero => exact .inl ⟨[], s, by simp [allocateChain], by simpa using drawn, rfl, by simp⟩
  | succ n ih =>
      rw [allocateChain]
      cases got : s.getTxBuf hugetlbfs with
      | none =>
          refine .inr ⟨_, rfl, Tx.drawn_recycle drawn fun b mem => (pristine b mem).restorable, ?_⟩
          rw [Tx.mbufs_of_getTxBuf got]
          exact Nat.succ_pos n
      | some r =>
          obtain ⟨b, s₁⟩ := r
          obtain ⟨one, made⟩ := Tx.drawn_getTxBuf drawn.ready got
          have more := List.forall_mem_append.mpr ⟨pristine, List.forall_mem_singleton.mpr made⟩
          rcases ih (drawn.trans one) more with
            ⟨segs, s', done, drawn', length, made'⟩ | ⟨s', failed, drawn', few⟩
          · exact .inl ⟨b :: segs, s', by simpa using done, by simpa using drawn',
              congrArg (· + 1) length, List.forall_mem_cons.mpr ⟨made, made'⟩⟩
          · refine .inr ⟨s', failed, drawn', ?_⟩
            have count := one.length
            rw [List.length_singleton] at count
            omega

/-- A buffer that was filled by copying. -/
def Filled (b b' : TxBuf) : Prop :=
  ∃ data, b' = { b with data := data } ∧ data ≠ [] ∧ data.length ≤ inlineMbufDataSize

/-- What is left of the fragments after a part of the first. -/
theorem leftOver {frag : List Byte} {frags : List (List Byte)} (given : ∀ f ∈ frags, f ≠ [])
    (more : ¬(frag = [] ∧ frags = [])) :
    let left := if frag = [] then frags else frag :: frags
    left.flatten = frag ++ frags.flatten ∧ left ≠ [] ∧ (∀ f ∈ left, f ≠ []) ∧
      left.length ≤ frags.length + 1 ∧ (frag = [] → left.length = frags.length) := by
  by_cases nil : frag = []
  · rw [if_pos nil, nil, List.nil_append]
    exact ⟨rfl, fun none => more ⟨nil, none⟩, given, Nat.le_succ _, fun _ => rfl⟩
  · rw [if_neg nil]
    exact ⟨rfl, List.cons_ne_nil _ _, List.forall_mem_cons.mpr ⟨nil, given⟩, le_refl _,
      fun used => absurd used nil⟩

/-- The copy fills the segments one after the other and needs all of them. -/
theorem copyPacketToCluster_spec (fuel : Nat) (frags : List (List Byte)) (filled : List Byte)
    (segs : List TxBuf) (given : ∀ f ∈ frags, f ≠ []) (some : frags ≠ [])
    (room : filled.length < inlineMbufDataSize)
    (exactly : segs.length = buffersFor (filled.length + frags.flatten.length))
    (enough : frags.length + segs.length ≤ fuel) :
    ∃ out, copyPacketToCluster fuel frags filled segs = .ok out ∧
      out.flatMap TxBuf.data = filled ++ frags.flatten ∧ List.Forall₂ Filled segs out := by
  induction fuel generalizing frags filled segs with
  | zero => exact absurd (List.length_eq_zero_iff.mp (by omega)) some
  | succ fuel ih =>
      obtain ⟨frag, frags, rfl⟩ := List.exists_cons_of_ne_nil some
      obtain ⟨here, there⟩ := List.forall_mem_cons.mp given
      have pos : 0 < frag.length := List.length_pos_iff.mpr here
      have total : (frag :: frags).flatten.length = frag.length + frags.flatten.length := by
        rw [List.flatten_cons, List.length_append]
      obtain ⟨seg, segs, rfl⟩ : ∃ seg rest, segs = seg :: rest := by
        refine List.exists_cons_of_ne_nil fun nil => ?_
        rw [nil, total] at exactly
        exact absurd exactly.symm (buffersFor_pos (by omega)).ne'
      -- how far the first fragment goes into the current segment
      generalize copied : min frag.length (inlineMbufDataSize - filled.length) = n
      have size : (filled ++ frag.take n).length = filled.length + n := by
        rw [List.length_append, List.length_take]
        omega
      have rest : (frag.drop n).length = frag.length - n := List.length_drop
      have onward : filled ++ (frag :: frags).flatten =
          (filled ++ frag.take n) ++ (frag.drop n ++ frags.flatten) := by
        rw [List.flatten_cons, List.append_assoc, ← List.append_assoc (frag.take n),
          List.take_append_drop]
      have held : filled ++ frag.take n ≠ [] := by
        refine List.length_pos_iff.mp ?_
        omega
      have fits : (filled ++ frag.take n).length ≤ inlineMbufDataSize := by omega
      rw [total] at exactly
      simp only [copyPacketToCluster, copied]
      by_cases last : frag.drop n = [] ∧ frags = []
      · rw [if_pos last]
        have whole : frag.length ≤ n := List.drop_eq_nil_iff.mp last.1
        have single : segs = [] := by
          refine List.length_eq_zero_iff.mp ?_
          rw [last.2, List.length_cons] at exactly
          simp only [List.flatten_nil, List.length_nil] at exactly
          unfold buffersFor inlineMbufDataSize at *
          omega
        rw [onward, last.1, last.2, single]
        exact ⟨_, rfl, by simp, .cons ⟨_, rfl, held, fits⟩ .nil⟩
      · rw [if_neg last, onward]
        generalize behind : (if frag.drop n = [] then frags else frag.drop n :: frags) = left
        obtain ⟨same, more, given', fewer, fewer'⟩ := behind ▸ leftOver there last
        have size' : left.flatten.length = frag.length - n + frags.flatten.length := by
          rw [same, List.length_append, rest]
        have some' : 0 < left.flatten.length := by
          obtain ⟨f, mem⟩ := List.exists_mem_of_ne_nil _ more
          refine List.length_pos_iff.mpr fun nil => given' f mem ?_
          exact List.flatten_eq_nil_iff.mp nil f mem
        rw [List.length_cons] at exactly enough
        by_cases full : inlineMbufDataSize ≤ (filled ++ frag.take n).length
        · rw [if_pos full]
          have next : segs.length = buffersFor (([] : List Byte).length + left.flatten.length) := by
            rw [size', List.length_nil]
            unfold buffersFor inlineMbufDataSize at *
            omega
          have some'' : segs ≠ [] := by
            refine List.length_pos_iff.mp ?_
            rw [next]
            exact buffersFor_pos (by omega)
          rw [if_neg some'']
          have within : left.length + segs.length ≤ fuel := by
            rw [List.length_cons] at enough
            omega
          obtain ⟨out, done, bytes, filled'⟩ :=
            ih left [] segs given' more (show [].length < inlineMbufDataSize by decide) next within
          refine ⟨_, by rw [done]; rfl, ?_, .cons ⟨_, rfl, held, fits⟩ filled'⟩
          rw [List.flatMap_cons, bytes, List.nil_append, same]
        · rw [if_neg full]
          have used : frag.drop n = [] := by
            refine List.drop_eq_nil_iff.mpr ?_
            omega
          have within : left.length + (seg :: segs).length ≤ fuel := by
            rw [fewer' used, List.length_cons]
            rw [List.length_cons] at enough
            omega
          have next : (seg :: segs).length =
              buffersFor ((filled ++ frag.take n).length + left.flatten.length) := by
            rw [List.length_cons, exactly, size, size']
            congr 1
            omega
          obtain ⟨out, done, bytes, filled'⟩ := ih left _ (seg :: segs) given' more (by omega) next within
          exact ⟨out, done, by rw [bytes, same], filled'⟩

/-- Filling changes neither which buffers these are nor what they were. -/
theorem filled_chain {out : List TxBuf} (filled : List.Forall₂ Filled chain out)
    (pristine : ∀ b ∈ chain, b.Pristine) :
    out.map TxBuf.mbuf = chain.map TxBuf.mbuf ∧
      (∀ b ∈ out, b.Pristine ∧ b.data ≠ [] ∧ b.data.length ≤ inlineMbufDataSize) := by
  induction filled with
  | nil => exact ⟨rfl, by simp⟩
  | cons first _ ih =>
      obtain ⟨here, there⟩ := List.forall_mem_cons.mp pristine
      obtain ⟨mbufs, made⟩ := ih there
      obtain ⟨data, rfl, held, fits⟩ := first
      refine ⟨congrArg (_ :: ·) mbufs, List.forall_mem_cons.mpr ⟨⟨?_, held, fits⟩, made⟩⟩
      exact ⟨here.own, here.inlined, here.empty⟩

theorem kept_of_own {bs : List TxBuf} (own : ∀ b ∈ bs, b.addr = none) : Kept bs := by
  induction bs with
  | nil => trivial
  | cons b bs ih =>
      obtain ⟨here, there⟩ := List.forall_mem_cons.mp own
      exact ⟨fun k elsewhere => (Option.some_ne_none k (elsewhere.symm.trans here)).elim, ih there⟩

/-- The copy is made without a fault, in as many segments as the bytes fill. -/
theorem fromPacketCopy_spec (dev : DpdkDevice) (sendable : p.Sendable) (ready : s.Ready hugetlbfs) :
    ∃ t, fromPacketCopy hugetlbfs dev p s = .ok t ∧ Faithful hugetlbfs dev p s t ∧
      (∀ c, t.cluster = some c → c.nbSegs = buffersFor p.len) ∧
      (t.cluster = none → s.factory.mbufs.length < maxFrags) := by
  have pos : 0 < p.len := List.length_pos_iff.mpr sendable.content_ne_nil
  have within : buffersFor p.len ≤ maxFrags := by
    have short := sendable.short
    unfold buffersFor maxFrags inlineMbufDataSize at *
    omega
  obtain ⟨o, offload⟩ := setClusterOffloadInfo_ok dev sendable.csum
  rw [fromPacketCopy, if_neg pos.ne']
  rcases allocateChain_spec (n := buffersFor p.len) (.none ready) (by simp) with
    ⟨chain, s', done, drawn, length, pristine⟩ | ⟨s', failed, drawn, few⟩
  · simp only [List.nil_append] at done drawn
    have flat : (p.frags.map Frag.bytes).flatten = p.content := rfl
    obtain ⟨out, copied, bytes, filled⟩ := copyPacketToCluster_spec
      (p.nrFrags + buffersFor p.len) (p.frags.map Frag.bytes) [] chain (List.forall_mem_map.mpr sendable.given)
      (fun nil => sendable.some (List.map_eq_nil_iff.mp nil)) (by decide)
      (by rw [flat, length, List.length_nil, Nat.zero_add]; rfl)
      (by rw [List.length_map, length]; rfl)
    obtain ⟨mbufs, made⟩ := filled_chain filled pristine
    have same : out.length = buffersFor p.len := by
      rw [← length]
      simpa using congrArg List.length mbufs
    have shape : (p.len + (inlineMbufDataSize - 1)) / inlineMbufDataSize = buffersFor p.len := rfl
    simp only [shape, done, copied, offload, bind, Except.bind]
    refine ⟨_, rfl, ⟨⟨rfl, rfl, rfl⟩, sendable, ⟨drawn.ready, ?_⟩, ?_, ?_⟩, ?_, ?_⟩
    · show (out.map TxBuf.mbuf ++ _).Perm _
      rw [mbufs]
      exact drawn.all
    · exact fun b mem => (made b mem).1.restorable
    · rintro c ⟨⟩
      refine ⟨?_, rfl, same.symm, same.trans_le within, fun b mem => ?_, ?_, offload⟩
      · exact bytes.trans flat
      · obtain ⟨made, held, fits⟩ := made b mem
        exact ⟨held, .inr ⟨made.inlined, made.own, fits⟩⟩
      · exact kept_of_own fun b mem => (made b mem).1.own
    · rintro c ⟨⟩
      rfl
    · intro none
      cases none
  · have shape : (p.len + (inlineMbufDataSize - 1)) / inlineMbufDataSize = buffersFor p.len := rfl
    simp only [shape, failed]
    refine ⟨_, rfl, ⟨⟨rfl, rfl, rfl⟩, sendable, drawn, by simp [Translated.segs], ?_⟩, ?_, ?_⟩
    · rintro c ⟨⟩
    · rintro c ⟨⟩
    · exact fun _ => few.trans_le within

end Copy

variable {hugetlbfs : Bool} {p : Packet} {s : Tx}

theorem packetToTxBuf_spec (dev : DpdkDevice) {rounds : Nat} (enough : 2 ≤ rounds) (sendable : p.Sendable)
    (ready : s.Ready hugetlbfs) :
    ∃ t, packetToTxBuf hugetlbfs dev rounds p s = some (.ok t) ∧
      Faithful hugetlbfs dev p s t ∧ (t.cluster = none → s.factory.mbufs.length < 2 * maxFrags) := by
  cases hugetlbfs with
  | false =>
      obtain ⟨t, done, faithful, -, few⟩ := fromPacketCopy_spec dev sendable ready
      exact ⟨t, congrArg some done, faithful, fun none => (few none).trans (by decide)⟩
  | true =>
      obtain ⟨t, done, faithful, -, few⟩ := fromPacketZc_spec dev enough sendable ready
      exact ⟨t, done, faithful, few⟩

/-- Whichever way a packet is translated, the cluster says what the packet says in
segments that the card can take, and its mbufs are those that left the factory. Only
for want of mbufs is there none, and then the factory has all it had. -/
theorem translation_faithful (dev : DpdkDevice) {rounds : Nat} (enough : 2 ≤ rounds) (sendable : p.Sendable)
    (ready : s.Ready hugetlbfs) :
    ∃ t, packetToTxBuf hugetlbfs dev rounds p s = some (.ok t) ∧ Faithful hugetlbfs dev p s t ∧
      (t.cluster = none → s.factory.mbufs.length < 2 * maxFrags) ∧
      ∀ c, t.cluster = some c →
        if hugetlbfs then mustLinearize dev t.packet c = false else c.nbSegs = buffersFor p.len := by
  cases hugetlbfs with
  | false =>
      obtain ⟨t, done, faithful, exact', few⟩ := fromPacketCopy_spec dev sendable ready
      exact ⟨t, congrArg some done, faithful, fun none => (few none).trans (by decide), exact'⟩
  | true =>
      obtain ⟨t, done, faithful, limits, few⟩ := fromPacketZc_spec dev enough sendable ready
      exact ⟨t, done, faithful, few, limits⟩

/-- An mbuf as `init_factory` makes it. -/
def TxBuf.fresh (mbuf : Nat) : TxBuf := ⟨mbuf, [], none, false, none⟩

theorem TxBuf.pristine_fresh (mbuf : Nat) : (fresh mbuf).Pristine := ⟨rfl, rfl, rfl⟩

/-- The queue before anything was sent, with `n` mbufs. -/
def Tx.start (n : Nat) : Tx := ⟨⟨(List.range n).map TxBuf.fresh, []⟩, {}⟩

theorem Tx.ready_start (hugetlbfs : Bool) (n : Nat) : (start n).Ready hugetlbfs where
  ring := List.forall_mem_map.mpr fun k _ => TxBuf.pristine_fresh k
  pool _ mem := absurd mem List.not_mem_nil

theorem translation_faithful_two :
    let p : Packet := ⟨0, [⟨[1#8, 2#8], fun _ => true⟩, ⟨[3#8], fun _ => false⟩], fun _ => true, {}⟩
    let dev : DpdkDevice := ⟨true, true, false⟩
    ∃ t, packetToTxBuf true dev 2 p (Tx.start 3) = some (.ok t) ∧
      Faithful true dev p (Tx.start 3) t ∧
      (t.cluster = none → (Tx.start 3).factory.mbufs.length < 2 * maxFrags) ∧
      ∀ c, t.cluster = some c →
        if true then mustLinearize dev t.packet c = false else c.nbSegs = buffersFor p.len := by
  intro p dev
  exact translation_faithful dev (le_refl 2)
    ⟨by simp [p], by simp [p], by decide, by simp [p]⟩ (Tx.ready_start true 3)

end ActorNet.Net.Dpdk
