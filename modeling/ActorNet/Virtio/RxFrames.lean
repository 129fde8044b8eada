import ActorNet.Virtio.RingRuns

/-!
# Frames of several buffers

With mergeable buffers the device may use several of the posted buffers for one frame.
The header in the first says how many; the others hold what comes after, without a
header. `complete_buffer` is called for each buffer and puts a packet together when
the last has come.

The ring delivers the used buffers in the order in which the device returned them,
whatever was posted, taken and polled in between, so the packets are the frames.
-/

namespace ActorNet.Virtio

open Lib

variable {β σ : Type}

/-! ## What was delivered to the completion -/

/-- The chains that were delivered, with what the device wrote. -/
def delivered (log : List (Event β)) : List (β × Written) :=
  log.filterMap fun
    | .delivered _ bc w => some (bc, w)
    | _ => none

/-- The completion after a list of chains. -/
def feed (c : Completion β σ) : σ → List (β × Written) → Option σ
  | s, [] => some s
  | s, (bc, w) :: ds => (c.complete s bc w).bind fun x => feed c x.1 ds

theorem feed_append (c : Completion β σ) (s : σ) (ds es : List (β × Written)) :
    feed c s (ds ++ es) = (feed c s ds).bind fun s' => feed c s' es := by
  induction ds generalizing s with
  | nil => rfl
  | cons d ds ih =>
      rw [List.cons_append, feed, feed, Option.bind_assoc]
      exact congrArg _ (funext fun x => ih x.1)

/-- The loop of `do_complete` feeds what it takes to the completion. -/
theorem feed_completeAll {c : Completion β σ} {n : Nat} {r r' : Vring β} {s s' : σ}
    {ds : List (Nat × β × Written)} (done : Vring.completeAll c n r s = some (ds, r', s')) :
    feed c s (ds.map Prod.snd) = some s' := by
  induction n generalizing r s ds with
  | zero =>
      cases done
      rfl
  | succ n ih =>
      simp only [Vring.completeAll, Option.bind_eq_bind, Option.bind_eq_some_iff] at done
      obtain ⟨⟨d, r₁, s₁⟩, first, ⟨ds₁, r₂, s₂⟩, rest, same⟩ := done
      cases same
      simp only [Vring.completeOne, Option.bind_eq_bind, Option.bind_eq_some_iff] at first
      obtain ⟨bc, -, ⟨s₃, k⟩, completed, r₃, -, same⟩ := first
      cases same
      show (c.complete s bc _).bind _ = _
      rw [completed]
      exact ih rest

theorem delivered_append (log : List (Event β)) (ds : List (Nat × β × Written)) :
    delivered (log ++ ds.map fun (head, bc, w) => .delivered head bc w) =
      delivered log ++ ds.map Prod.snd := by
  rw [delivered, List.filterMap_append, List.filterMap_map]
  refine congrArg (delivered log ++ ·) ?_
  induction ds with
  | nil => rfl
  | cons d ds ih => rw [List.filterMap_cons, List.map_cons, ih]; rfl

theorem delivered_kept {c : Completion β σ} {s s' : Sys β σ} {a : Action β} (other : a ≠ .poll)
    (next : s.step c a = some s') :
    delivered s'.log = delivered s.log ∧ s'.completion = s.completion := by
  cases a with
  | wait n =>
      cases next
      exact ⟨rfl, rfl⟩
  | post bcs =>
      simp only [Sys.step, Option.bind_eq_bind, Option.bind_eq_some_iff] at next
      obtain ⟨⟨heads, r⟩, -, same⟩ := next
      cases same
      refine ⟨?_, rfl⟩
      show delivered (s.log ++ _) = _
      rw [delivered, List.filterMap_append, List.filterMap_map]
      refine (congrArg (delivered s.log ++ ·) ?_).trans (List.append_nil _)
      exact List.filterMap_eq_nil_iff.mpr fun _ _ => rfl
  | take =>
      cases next
      exact ⟨rfl, rfl⟩
  | giveBack head w =>
      cases next
      refine ⟨?_, rfl⟩
      show delivered (s.log ++ [_]) = _
      rw [delivered, List.filterMap_append]
      exact List.append_nil _
  | poll => exact absurd rfl other

/-- In every run the completion is where the delivered chains lead it. -/
theorem completion_fed {c : Completion β σ} {size : Nat} {cs : σ} {as : List (Action β)}
    {s : Sys β σ} (run : exec (Sys.step c) (Sys.start size cs) as = some s) :
    feed c cs (delivered s.log) = some s.completion := by
  refine exec_invariant (I := fun s => feed c cs (delivered s.log) = some s.completion) ?_ rfl run
  intro s a s' fed next
  by_cases poll : a = .poll
  · subst poll
    simp only [Sys.step, Vring.doComplete, Option.bind_eq_bind, Option.bind_eq_some_iff] at next
    obtain ⟨⟨ds, r, cs'⟩, done, same⟩ := next
    cases same
    show feed c cs (delivered (s.log ++ ds.map _)) = some cs'
    rw [delivered_append, feed_append, fed]
    exact feed_completeAll done
  · obtain ⟨same, kept⟩ := delivered_kept poll next
    rw [same, kept, fed]

/-! ## Frames -/

/-- The used buffers of one frame: the header of the first counts them. -/
def Whole : List (Buffer × Written) → Prop
  | [] => False
  | d :: ds => d.2.numBuffers.toNat = ds.length + 1

/-- The used buffers of a frame that has not come whole yet. -/
def Partial : List (Buffer × Written) → Prop
  | [] => True
  | d :: ds => ds.length + 1 < d.2.numBuffers.toNat

def bufferFragment (d : Buffer × Written) : BitVec 64 × BitVec 64 :=
  (d.1.addr, d.2.len.setWidth 64)

/-- The fragments of the packet: all that was written, without the header. -/
def frameFragments (headerLen : BitVec 64) : List (Buffer × Written) → List (BitVec 64 × BitVec 64)
  | [] => []
  | d :: ds => (d.1.addr + headerLen, d.2.len.setWidth 64 - headerLen) :: ds.map bufferFragment

variable {headerLen : BitVec 64}

/-- A buffer that is not the last of its frame. -/
theorem completeBuffer_more {m : Nat} (more : 1 < m) (frags : List (BitVec 64 × BitVec 64))
    (packets : List (List (BitVec 64 × BitVec 64))) (d : Buffer × Written) :
    Rxq.completeBuffer headerLen ⟨m, frags, packets⟩ d.1 d.2 =
      some (⟨m - 1, frags ++ [bufferFragment d], packets⟩, 0) := by
  have started : m ≠ 0 := by omega
  have waits : m - 1 ≠ 0 := by omega
  simp [Rxq.completeBuffer, started, waits, bufferFragment]

/-- The last buffer of a frame. -/
theorem completeBuffer_last (frags : List (BitVec 64 × BitVec 64))
    (packets : List (List (BitVec 64 × BitVec 64))) (d : Buffer × Written) :
    Rxq.completeBuffer headerLen ⟨1, frags, packets⟩ d.1 d.2 =
      some (⟨0, frags ++ [bufferFragment d], packets ++ [frags ++ [bufferFragment d]]⟩,
        frags.length + 1) := by
  simp [Rxq.completeBuffer, bufferFragment]

/-- The buffers after the first, as long as the frame is not whole. -/
theorem feed_more {ds : List (Buffer × Written)} {m : Nat} (fewer : ds.length < m)
    (frags : List (BitVec 64 × BitVec 64)) (packets : List (List (BitVec 64 × BitVec 64))) :
    feed (rxq headerLen) ⟨m, frags, packets⟩ ds =
      some ⟨m - ds.length, frags ++ ds.map bufferFragment, packets⟩ := by
  induction ds generalizing m frags with
  | nil => simp [feed]
  | cons d ds ih =>
      rw [List.length_cons] at fewer
      show (Rxq.completeBuffer headerLen ⟨m, frags, packets⟩ d.1 d.2).bind _ = _
      rw [completeBuffer_more (by omega), Option.bind_some, ih (by omega)]
      simp only [Option.some.injEq, Rxq.mk.injEq, List.map_cons, List.append_assoc,
        List.singleton_append, List.length_cons, and_true]
      omega

/-- The buffers after the first, up to the last. -/
theorem feed_rest {ds : List (Buffer × Written)} (some_ : ds ≠ [])
    (frags : List (BitVec 64 × BitVec 64)) (packets : List (List (BitVec 64 × BitVec 64))) :
    feed (rxq headerLen) ⟨ds.length, frags, packets⟩ ds =
      some ⟨0, frags ++ ds.map bufferFragment, packets ++ [frags ++ ds.map bufferFragment]⟩ := by
  obtain ⟨ds, d, rfl⟩ := (List.eq_nil_or_concat ds).resolve_left some_
  rw [List.concat_eq_append, feed_append, feed_more (by simp), Option.bind_some]
  have one : (ds ++ [d]).length - ds.length = 1 := by simp
  rw [one]
  show (Rxq.completeBuffer headerLen ⟨1, _, packets⟩ d.1 d.2).bind _ = _
  rw [completeBuffer_last]
  simp [feed]

/-- The first buffer of a frame of several. -/
theorem completeBuffer_first {d : Buffer × Written} (several : 1 < d.2.numBuffers.toNat)
    (frags : List (BitVec 64 × BitVec 64)) (packets : List (List (BitVec 64 × BitVec 64))) :
    Rxq.completeBuffer headerLen ⟨0, frags, packets⟩ d.1 d.2 =
      some (⟨d.2.numBuffers.toNat - 1, frameFragments headerLen [d], packets⟩, 0) := by
  have some_ : d.2.numBuffers ≠ 0#16 := by
    intro none
    simp [none] at several
  have waits : d.2.numBuffers.toNat - 1 ≠ 0 := by omega
  simp [Rxq.completeBuffer, some_, waits, frameFragments]

theorem feed_whole {f : List (Buffer × Written)} (whole : Whole f)
    (frags : List (BitVec 64 × BitVec 64)) (packets : List (List (BitVec 64 × BitVec 64))) :
    feed (rxq headerLen) ⟨0, frags, packets⟩ f =
      some ⟨0, frameFragments headerLen f, packets ++ [frameFragments headerLen f]⟩ := by
  cases f with
  | nil => exact absurd whole id
  | cons d ds =>
      have count : d.2.numBuffers.toNat = ds.length + 1 := whole
      show (Rxq.completeBuffer headerLen ⟨0, frags, packets⟩ d.1 d.2).bind _ = _
      by_cases alone : ds = []
      · subst alone
        have some_ : d.2.numBuffers ≠ 0#16 := by
          intro none
          simp [none] at count
        simp [Rxq.completeBuffer, some_, count, feed, frameFragments]
      · have several : 0 < ds.length := List.length_pos_iff.mpr alone
        rw [completeBuffer_first (by omega), Option.bind_some]
        have left : d.2.numBuffers.toNat - 1 = ds.length := by omega
        rw [left, feed_rest alone]
        rfl

theorem feed_frames (headerLen : BitVec 64) {fs : List (List (Buffer × Written))} (whole : ∀ f ∈ fs, Whole f)
    (frags : List (BitVec 64 × BitVec 64)) (packets : List (List (BitVec 64 × BitVec 64))) :
    ∃ frags', feed (rxq headerLen) ⟨0, frags, packets⟩ fs.flatten =
      some ⟨0, frags', packets ++ fs.map (frameFragments headerLen)⟩ := by
  induction fs generalizing frags packets with
  | nil => exact ⟨frags, by simp [feed]⟩
  | cons f fs ih =>
      obtain ⟨first, others⟩ := List.forall_mem_cons.mp whole
      obtain ⟨frags', rest⟩ := ih others (frameFragments headerLen f)
        (packets ++ [frameFragments headerLen f])
      refine ⟨frags', ?_⟩
      rw [List.flatten_cons, feed_append, feed_whole first, Option.bind_some, rest, List.map_cons,
        List.append_assoc, List.singleton_append]

theorem feed_partial (headerLen : BitVec 64) {part : List (Buffer × Written)} (unfinished : Partial part)
    (frags : List (BitVec 64 × BitVec 64)) (packets : List (List (BitVec 64 × BitVec 64))) :
    ∃ q, feed (rxq headerLen) ⟨0, frags, packets⟩ part = some q ∧ q.received = packets ∧
      (rxq headerLen).held q = part.length ∧
      (part ≠ [] → q.fragments = frameFragments headerLen part) := by
  cases part with
  | nil => exact ⟨_, rfl, rfl, rfl, fun some_ => absurd rfl some_⟩
  | cons d ds =>
      have count : ds.length + 1 < d.2.numBuffers.toNat := unfinished
      refine ⟨⟨d.2.numBuffers.toNat - 1 - ds.length, frameFragments headerLen (d :: ds), packets⟩,
        ?_, rfl, ?_, fun _ => rfl⟩
      · show (Rxq.completeBuffer headerLen ⟨0, frags, packets⟩ d.1 d.2).bind _ = _
        rw [completeBuffer_first (by omega), Option.bind_some, feed_more (by omega)]
        rfl
      · have waits : d.2.numBuffers.toNat - 1 - ds.length ≠ 0 := by omega
        show (if d.2.numBuffers.toNat - 1 - ds.length = 0 then 0 else _) = _
        rw [if_neg waits]
        simp [frameFragments]

/-- Every run of the receive ring with a device that returns its frames one after the
other: whatever is posted and polled in between, the packets handed up are the frames
delivered whole, in the order in which the device returned them, each in the buffers
that were posted under the heads it returned; and what is held back are the buffers of
the frame that has not come whole, and their descriptors. -/
theorem frames_received (headerLen : BitVec 64) (size : Nat) (ring : RingSize size)
    (as : List (Action Buffer)) (s : Sys Buffer Rxq)
    (admissible : Along (Sys.step (rxq headerLen)) (Sys.Admissible (rxq headerLen))
      (Sys.start size ⟨0, [], []⟩) as)
    (run : exec (Sys.step (rxq headerLen)) (Sys.start size ⟨0, [], []⟩) as = some s)
    (fs : List (List (Buffer × Written))) (part : List (Buffer × Written))
    (framed : delivered s.log = fs.flatten ++ part) (whole : ∀ f ∈ fs, Whole f)
    (unfinished : Partial part) :
    s.completion.received = fs.map (frameFragments headerLen) ∧
      (rxq headerLen).held s.completion = part.length ∧
      (part ≠ [] → s.completion.fragments = frameFragments headerLen part) ∧
      Matched [] s.log ∧ deliveries s.log <+: returns s.log := by
  have sound := (ring_sound (rxq headerLen) ring rfl admissible run).1
  have fed := completion_fed run
  obtain ⟨frags, frames⟩ := feed_frames headerLen whole [] []
  obtain ⟨q, last, packets, held, kept⟩ := feed_partial headerLen unfinished frags
    ([] ++ fs.map (frameFragments headerLen))
  rw [framed, feed_append, frames, Option.bind_some, last] at fed
  cases fed
  exact ⟨packets, held, kept, sound.matched, sound.order⟩

/-- Two frames, of one buffer and of two; the second has not come whole. -/
theorem frames_received_two : ∃ s, exec (Sys.step (rxq 12)) (Sys.start 4 ⟨0, [], []⟩)
      [.wait 2, .post [⟨4096, 4096, true⟩, ⟨8192, 4096, true⟩], .take, .take, .giveBack 0 ⟨72, 1⟩,
        .giveBack 1 ⟨4096, 2⟩, .poll] = some s ∧
    s.completion.received = [[(4108, 60)]] ∧ (rxq 12).held s.completion = 1 ∧
    s.completion.fragments = [(8204, 4084)] := by
  have run : exec (Sys.step (rxq 12)) (Sys.start 4 ⟨0, [], []⟩)
      [.wait 2, .post [⟨4096, 4096, true⟩, ⟨8192, 4096, true⟩], .take, .take, .giveBack 0 ⟨72, 1⟩,
        .giveBack 1 ⟨4096, 2⟩, .poll] = some _ := (Option.some_get (by decide)).symm
  have received := frames_received 12 4 ⟨2, by decide, rfl⟩
    [.wait 2, .post [⟨4096, 4096, true⟩, ⟨8192, 4096, true⟩], .take, .take, .giveBack 0 ⟨72, 1⟩,
      .giveBack 1 ⟨4096, 2⟩, .poll] _ (by decide) run [[(⟨4096, 4096, true⟩, ⟨72, 1⟩)]]
    [(⟨8192, 4096, true⟩, ⟨4096, 2⟩)] (by decide) (by simp [Whole]) (by simp [Partial])
  exact ⟨_, run, received.1, received.2.1, received.2.2.1 (by decide)⟩

end ActorNet.Virtio
