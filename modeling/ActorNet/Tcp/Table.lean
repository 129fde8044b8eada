import ActorNet.Tcp.HeaderBounds
import ActorNet.Tcp.Leaving

/-!
# The table of connections

`_tcbs` maps the name of every connection that is still open to its block.
`insert` does not say when the name is taken, and `erase` goes by the name and
not by the block: the table is right on the runs on which `connect` draws a
free name, and no block is given up a second time after its name was given to
another.
-/

namespace ActorNet.Tcp

open Lib Net

variable {Q : Type} [BoundedQueue Nat Q] {host : Host}

namespace Tcb

variable {t t' : Tcb} {hw : HwFeatures}

/-- A block asks to be removed when it is cleaned up, and is cleaned up only
when it asks. -/
structure Leaves (t t' : Tcb) : Prop where
  id : t'.id = t.id
  removal : .removeFromTcbs ∈ t'.requests → .removeFromTcbs ∈ t.requests ∨ t'.life = .removed
  removed : (t'.life = .removed ↔ t.life = .removed) ∨ .removeFromTcbs ∈ t'.requests

theorem Onward.toLeaves (onward : Onward t t') : Leaves t t' where
  id := onward.id
  removal := onward.leaves
  removed := by
    rcases onward.removed with same | mem
    · exact .inl (by rw [same])
    · exact .inr mem

/-- A handler that keeps the requests, and neither cleans up nor revives. -/
theorem Leaves.of_requests (id : t'.id = t.id) (requests : t'.requests = t.requests)
    (removed : t'.life = .removed ↔ t.life = .removed) : Leaves t t' :=
  ⟨id, fun mem => .inl (requests ▸ mem), .inl removed⟩

/-- A segment cleans its block up only with a request to be removed. -/
theorem inputHandle_leaves (beyond : Nat → Byte) (th : TcpHdr) (p : Impl) :
    Leaves t (t.inputHandle hw beyond th p) := by
  unfold inputHandle
  split
  · rcases t.inputHandleSynSentState_cases beyond th p with onward | ⟨opts, -, -, -, -, result⟩
    · exact onward.toLeaves
    · rw [result]
      obtain ⟨id, requests⟩ := synInSynSent_asks beyond th opts t
      exact .of_requests id requests (by rw [synInSynSent_life])
  · cases done : t.completes th p with
    | false => exact (inputHandleOtherState_onward th p done).toLeaves
    | true =>
        obtain ⟨segSeq, data, -, result⟩ := @inputHandleOtherState_of_completes t hw th p done
        have onward := @segmentInOrder_onward (t.doEstablished.request .addConnectedTcb) hw th
          segSeq data rfl
        have leaves := onward.toLeaves
        rw [← result] at leaves
        refine ⟨leaves.id, fun mem => ?_, leaves.removed⟩
        rcases leaves.removal mem with before | gone
        · exact .inl (by simpa [request, doEstablished, resolve] using before)
        · exact .inr gone

end Tcb

namespace Stack

variable {s s' : Stack Q} {b : Nat} {x : Block} {t : Tcb}

/-- The table is kept: the name that is drawn is free, and a block that was
removed before is not given up again when the table has its name. -/
def keepsTable (host : Host) (s : Stack Q) : StackEvent → Bool
  | .connect _ _ dstIp dstPort srcPort => (s.tcbs (connectId host dstIp dstPort srcPort)).isNone
  | .tcb b e => (s.tcb? b).all fun t =>
      !(t.givesUp e && t.life == .removed && (s.tcbs t.id).isSome)
  | _ => true

/-- The table has the blocks that are not cleaned up, and no others. -/
structure Tabled (s : Stack Q) : Prop where
  entry : ∀ id b, s.tcbs id = some b → ∃ t, s.tcb? b = some t ∧ t.id = id ∧ t.life ≠ .removed
  live : ∀ b t, s.tcb? b = some t → t.life ≠ .removed → s.tcbs t.id = some b
  met : ∀ b t, s.tcb? b = some t → t.requests = []

omit [BoundedQueue Nat Q] in
theorem tcb?_of_block (here : s.blocks[b]? = some x) : s.tcb? b = some x.tcb := by
  unfold tcb?
  rw [here]
  rfl

/-! ## What a step changes -/

theorem foldl_meet_tcbs {id : ConnId} (rs : List Request) (s : Stack Q) :
    (rs.foldl (meet b id) s).tcbs =
      if .removeFromTcbs ∈ rs then Function.update s.tcbs id none else s.tcbs := by
  induction rs generalizing s with
  | nil => rfl
  | cons r rest ih =>
      show (rest.foldl (meet b id) (meet b id s r)).tcbs = _
      rw [ih]
      cases r with
      | removeFromTcbs =>
          rw [if_pos List.mem_cons_self]
          show (if _ then Function.update (Function.update s.tcbs id none) id none
            else Function.update s.tcbs id none) = _
          rw [Function.update_idem, ite_self]
      | addConnectedTcb =>
          have same : (s.addConnectedTcb b id.localPort).tcbs = s.tcbs := by
            unfold Stack.addConnectedTcb
            split <;> rfl
          show (if _ then Function.update (s.addConnectedTcb b id.localPort).tcbs id none
            else (s.addConnectedTcb b id.localPort).tcbs) = _
          rw [same]
          simp
      | respondWithReset th =>
          obtain ⟨resets, sent⟩ := respondWithReset_eq th id.localIp id.foreignIp s
          show (if _ then
            Function.update (s.respondWithReset th id.localIp id.foreignIp).tcbs id none
            else (s.respondWithReset th id.localIp id.foreignIp).tcbs) = _
          rw [sent]
          simp

/-- A handler takes the name of its block out of the table, or leaves the table
as it is. -/
theorem onTcb_tcbs (here : s.blocks[b]? = some x) (handler : Tcb → Tcb) :
    (s.onTcb b handler).tcbs = if .removeFromTcbs ∈ (handler x.tcb).requests then
      Function.update s.tcbs (handler x.tcb).id none else s.tcbs := by
  rw [onTcb_eq here]
  exact foldl_meet_tcbs _ _

/-- No connection goes away, and none changes its name. -/
def Names (s s' : Stack Q) : Prop :=
  ∀ b t, s.tcb? b = some t → ∃ t', s'.tcb? b = some t' ∧ t'.id = t.id

theorem names_onTcb (here : s.blocks[b]? = some x) {handler : Tcb → Tcb}
    (id : (handler x.tcb).id = x.tcb.id) : Names s (s.onTcb b handler) := by
  intro j t there
  rw [(onTcb_frame here handler).2]
  split
  · rename_i same
    rw [same, tcb?_of_block here] at there
    cases there
    exact ⟨_, rfl, id⟩
  · exact ⟨t, there, rfl⟩

/-- A handler keeps the table, if it does not remove a name that is another's. -/
theorem Tabled.onTcb (tabled : s.Tabled) (here : s.blocks[b]? = some x) {handler : Tcb → Tcb}
    (leaves : Tcb.Leaves x.tcb (handler x.tcb))
    (own : .removeFromTcbs ∈ (handler x.tcb).requests → x.tcb.life = .removed →
      s.tcbs x.tcb.id = none) : (s.onTcb b handler).Tabled := by
  have before := tcb?_of_block here
  have blocks := (onTcb_frame here handler).2
  have tcbs := onTcb_tcbs here handler
  have removal : .removeFromTcbs ∈ (handler x.tcb).requests →
      (handler x.tcb).life = .removed := by
    intro mem
    rcases leaves.removal mem with earlier | gone
    · rw [tabled.met b x.tcb before] at earlier
      cases earlier
    · exact gone
  rw [leaves.id] at tcbs
  refine ⟨fun id j found => ?_, fun j t there live => ?_, fun j t there => ?_⟩
  · rw [tcbs] at found
    rw [blocks]
    split at found
    · obtain ⟨other, found⟩ := update_none_iff.mp found
      obtain ⟨t, there, name, live⟩ := tabled.entry id j found
      have apart : j ≠ b := by
        rintro rfl
        rw [before] at there
        cases there
        exact other name.symm
      rw [if_neg apart]
      exact ⟨t, there, name, live⟩
    · rename_i stays
      obtain ⟨t, there, name, live⟩ := tabled.entry id j found
      split
      · rename_i same
        subst same
        rw [before] at there
        cases there
        refine ⟨_, rfl, leaves.id.trans name, fun gone => live ?_⟩
        exact (leaves.removed.resolve_right stays).mp gone
      · exact ⟨t, there, name, live⟩
  · rw [blocks] at there
    rw [tcbs]
    split at there
    · rename_i same
      cases there
      have stays : .removeFromTcbs ∉ (handler x.tcb).requests := fun mem => live (removal mem)
      have alive : x.tcb.life ≠ .removed := fun gone =>
        live ((leaves.removed.resolve_right stays).mpr gone)
      rw [if_neg stays, same]
      show s.tcbs (handler x.tcb).id = some b
      rw [leaves.id]
      exact tabled.live b x.tcb before alive
    · rename_i other
      have found := tabled.live j t there live
      split
      · rename_i mem
        have apart : t.id ≠ x.tcb.id := by
          intro same
          rw [same] at found
          -- the block that leaves is the one in the table, or nobody has its name
          by_cases gone : x.tcb.life = .removed
          · rw [own mem gone] at found
            cases found
          · rw [tabled.live b x.tcb before gone] at found
            exact other (Option.some.inj found).symm
        exact update_none_iff.mpr ⟨apart, found⟩
      · exact found
  · rw [blocks] at there
    split at there
    · cases there
      rfl
    · exact tabled.met j t there

omit [BoundedQueue Nat Q] in
theorem insertTcb_tcb? (id : ConnId) (memory : Tcb) (awaits : Option Nat) (s : Stack Q)
    (j : Nat) : (s.insertTcb id memory awaits).tcb? j =
      if j = s.blocks.length then some (Tcb.new id memory) else s.tcb? j := by
  unfold tcb?
  rw [insertTcb_blocks]
  split <;> rfl

omit [BoundedQueue Nat Q] in
theorem tcb?_length (s : Stack Q) : s.tcb? s.blocks.length = none := by
  unfold tcb?
  rw [List.getElem?_eq_none (Nat.le_refl _)]
  rfl

omit [BoundedQueue Nat Q] in
theorem names_insertTcb (id : ConnId) (memory : Tcb) (awaits : Option Nat) (s : Stack Q) :
    Names s (s.insertTcb id memory awaits) := by
  intro j t there
  rw [insertTcb_tcb?, if_neg]
  · exact ⟨t, there, rfl⟩
  · rintro rfl
    rw [tcb?_length] at there
    cases there

omit [BoundedQueue Nat Q] in
theorem Names.trans {s'' : Stack Q} (first : Names s s') (second : Names s' s'') : Names s s'' := by
  intro b t there
  obtain ⟨t', there', name⟩ := first b t there
  obtain ⟨t'', there'', name'⟩ := second b t' there'
  exact ⟨t'', there'', name'.trans name⟩

omit [BoundedQueue Nat Q] in
/-- A new block enters the table under a name that is free. -/
theorem Tabled.insertTcb (tabled : s.Tabled) {id : ConnId} (memory : Tcb) (awaits : Option Nat)
    (absent : s.tcbs id = none) : (s.insertTcb id memory awaits).Tabled := by
  refine ⟨fun id' j found => ?_, fun j t there live => ?_, fun j t there => ?_⟩
  · rw [insertTcb_tcbs] at found
    rw [insertTcb_tcb?]
    split at found
    · rename_i new
      cases found
      rw [if_pos rfl]
      exact ⟨_, rfl, new.1.symm, fun gone => nomatch gone⟩
    · obtain ⟨t, there, name, live⟩ := tabled.entry id' j found
      have apart : j ≠ s.blocks.length := by
        rintro rfl
        rw [tcb?_length] at there
        cases there
      rw [if_neg apart]
      exact ⟨t, there, name, live⟩
  · rw [insertTcb_tcb?] at there
    rw [insertTcb_tcbs]
    split at there
    · rename_i last
      cases there
      rw [if_pos ⟨rfl, absent⟩, last]
    · have found := tabled.live j t there live
      have apart : t.id ≠ id := by
        intro same
        rw [same, absent] at found
        cases found
      rw [if_neg fun new => apart new.1]
      exact found
  · rw [insertTcb_tcb?] at there
    split at there
    · cases there
      rfl
    · exact tabled.met j t there

theorem Tabled.connect (tabled : s.Tabled) (hw : HwFeatures) (iss : TcpSeq) (memory : Tcb)
    {id : ConnId} (absent : s.tcbs id = none) : (s.connect hw iss memory id).Tabled := by
  obtain ⟨name, requests⟩ := Tcb.connect_asks hw iss (Tcb.new id memory)
  refine (tabled.insertTcb memory none absent).onTcb (insertTcb_last id memory none s) ?_ ?_
  · refine .of_requests name requests ?_
    rw [Tcb.connect_life]
    constructor <;> intro gone <;> cases gone
  · intro _ gone
    cases gone

theorem Tabled.acceptSyn (tabled : s.Tabled) (hw : HwFeatures) (beyond : Nat → Byte)
    (iss : TcpSeq) (memory : Tcb) (l : Nat) {id : ConnId} (h : TcpHdr) (p : Impl)
    (absent : s.tcbs id = none) : (s.acceptSyn hw beyond iss memory l id h p).Tabled := by
  have inserted := tabled.insertTcb memory (some l) absent
  have counted : ((s.insertTcb id memory (some l)).incPending l).Tabled :=
    ⟨inserted.entry, inserted.live, inserted.met⟩
  obtain ⟨name, requests, -⟩ :=
    @Tcb.inputHandleListenState_asks hw beyond iss h p (Tcb.new id memory)
  have here : ((s.insertTcb id memory (some l)).incPending l).blocks[s.blocks.length]? =
      some ⟨Tcb.new id memory, some l⟩ := insertTcb_last id memory (some l) s
  refine counted.onTcb here ?_ ?_
  · refine .of_requests name requests ?_
    rw [Tcb.inputHandleListenState_life]
    constructor <;> intro gone <;> cases gone
  · intro _ gone
    cases gone

theorem Tabled.received (tabled : s.Tabled) (hw : HwFeatures) (beyond : Nat → Byte)
    (iss : TcpSeq) (memory : Tcb) (p : Impl) (src dst : BitVec 32) :
    (s.received hw beyond iss memory p src dst).Tabled := by
  apply received_cases
  · exact ⟨tabled.entry, tabled.live, tabled.met⟩
  · exact fun resets => ⟨tabled.entry, tabled.live, tabled.met⟩
  · intro b h q found _
    obtain ⟨t, there, -, live⟩ := tabled.entry _ b found
    obtain ⟨x, here, rfl⟩ := Option.map_eq_some_iff.mp there
    exact tabled.onTcb here (Tcb.inputHandle_leaves beyond h q) fun _ gone => absurd gone live
  · intro l id h q absent _ _
    exact tabled.acceptSyn hw beyond iss memory l h q absent

/-- The user, a timer or the interface gets to a block. -/
theorem Tabled.tcbEvent (tabled : s.Tabled) {e : TcbEvent} (own : e.own = true)
    (here : s.blocks[b]? = some x) (kept : s.keepsTable host (.tcb b e) = true) :
    (s.onTcb b fun t => t.handle host.hw e).Tabled := by
  have onward : Tcb.Onward x.tcb (x.tcb.handle host.hw e) :=
    Tcb.handle_onward e (by cases e <;> first | rfl | cases own)
  have before := tcb?_of_block here
  have kept : (s.tcb? b).all (fun t =>
      !(t.givesUp e && t.life == .removed && (s.tcbs t.id).isSome)) = true := kept
  refine tabled.onTcb here onward.toLeaves fun mem gone => ?_
  cases tries : x.tcb.givesUp e with
  | true => simpa [before, tries, gone] using kept
  | false =>
      have earlier := (Tcb.handle_stays e own tries).removal mem
      rw [tabled.met b x.tcb before] at earlier
      cases earlier

theorem Tabled.step {e : StackEvent} (tabled : s.Tabled) (kept : s.keepsTable host e = true)
    (next : Stack.step host s e = some s') : s'.Tabled := by
  unfold Stack.step at next
  split at next
  · rename_i possible
    cases next
    cases e with
    | received beyond iss memory p src dst =>
        exact tabled.received host.hw beyond iss memory p src dst
    | connect iss memory dstIp dstPort srcPort =>
        exact tabled.connect host.hw iss memory (Option.isNone_iff_eq_none.mp kept)
    | tcb b e =>
        obtain ⟨own, there⟩ := Bool.and_eq_true_iff.mp possible.2
        obtain ⟨x, here, -⟩ := (Option.any_eq_true ..).mp there
        exact tabled.tcbEvent own here kept
    | listen port queueLength => exact ⟨tabled.entry, tabled.live, tabled.met⟩
    | destroyListener l =>
        show (s.destroyListener l).Tabled
        unfold destroyListener
        split
        · exact tabled
        · exact ⟨tabled.entry, tabled.live, tabled.met⟩
    | accept l => exact ⟨tabled.entry, tabled.live, tabled.met⟩
    | abortAccept l => exact ⟨tabled.entry, tabled.live, tabled.met⟩
  · cases next

theorem names_connect (hw : HwFeatures) (iss : TcpSeq) (memory : Tcb) (id : ConnId)
    (s : Stack Q) : Names s (s.connect hw iss memory id) :=
  (names_insertTcb id memory none s).trans
    (names_onTcb (insertTcb_last id memory none s) (Tcb.connect_asks ..).1)

theorem names_received (tabled : s.Tabled) (hw : HwFeatures) (beyond : Nat → Byte)
    (iss : TcpSeq) (memory : Tcb) (p : Impl) (src dst : BitVec 32) :
    Names s (s.received hw beyond iss memory p src dst) := by
  apply received_cases
  · exact fun b t there => ⟨t, there, rfl⟩
  · exact fun resets b t there => ⟨t, there, rfl⟩
  · intro b h q found _
    obtain ⟨t, there, -⟩ := tabled.entry _ b found
    obtain ⟨x, here, -⟩ := Option.map_eq_some_iff.mp there
    exact names_onTcb here (Tcb.inputHandle_leaves beyond h q).id
  · intro l id h q _ _ _
    have inserted : Names s ((s.insertTcb id memory (some l)).incPending l) :=
      names_insertTcb id memory (some l) s
    have here : ((s.insertTcb id memory (some l)).incPending l).blocks[s.blocks.length]? =
        some ⟨Tcb.new id memory, some l⟩ := insertTcb_last id memory (some l) s
    have named := names_onTcb here
      (@Tcb.inputHandleListenState_asks hw beyond iss h q (Tcb.new id memory)).1
    exact inserted.trans named

theorem names_step {e : StackEvent} (tabled : s.Tabled)
    (next : Stack.step host s e = some s') : Names s s' := by
  have same : ∀ u : Stack Q, u.blocks = s.blocks → Names s u := by
    intro u blocks b t there
    unfold tcb? at *
    rw [blocks]
    exact ⟨t, there, rfl⟩
  unfold Stack.step at next
  split at next
  · rename_i possible
    cases next
    cases e with
    | received beyond iss memory p src dst =>
        exact names_received tabled host.hw beyond iss memory p src dst
    | connect iss memory dstIp dstPort srcPort => exact names_connect host.hw iss memory _ s
    | tcb b e =>
        obtain ⟨own, there⟩ := Bool.and_eq_true_iff.mp possible.2
        obtain ⟨x, here, -⟩ := (Option.any_eq_true ..).mp there
        exact names_onTcb here
          (Tcb.handle_onward e (by cases e <;> first | rfl | cases own)).id
    | listen port queueLength => exact same _ rfl
    | destroyListener l =>
        refine same _ ?_
        show (s.destroyListener l).blocks = s.blocks
        unfold destroyListener
        split <;> rfl
    | accept l => exact same _ rfl
    | abortAccept l => exact same _ rfl
  · cases next

theorem tabled_of_run {events : List StackEvent} (run : exec (step host) {} events = some s)
    (kept : Along (step host) (fun (u : Stack Q) e => u.keepsTable host e = true) {} events) :
    s.Tabled := by
  have preserved : ∀ (u : Stack Q) (e : StackEvent) (u' : Stack Q), u.Tabled →
      u.keepsTable host e = true → Stack.step host u e = some u' → u'.Tabled :=
    fun u e u' tabled kept next => tabled.step kept next
  have begin_ : ({} : Stack Q).Tabled := by
    refine ⟨?_, ?_, ?_⟩
    · intro id b found
      cases found
    · intro b t there
      cases there
    · intro b t there
      cases there
  exact Along.invariant preserved begin_ kept run

/-- On every run on which the table is kept: it has every live connection under
its name, two live connections have two names, every entry is of a live
connection of that name, and an entry stays until its own connection is cleaned
up. -/
theorem table_maps_live (host : Host) (events : List StackEvent) (s : Stack Q)
    (run : exec (step host) {} events = some s)
    (kept : Along (step host) (fun (u : Stack Q) e => u.keepsTable host e = true) {} events) :
    (∀ b t, s.tcb? b = some t → t.life ≠ .removed → s.tcbs t.id = some b) ∧
      (∀ b b' t t', s.tcb? b = some t → s.tcb? b' = some t' → t.life ≠ .removed →
        t'.life ≠ .removed → t.id = t'.id → b = b') ∧
      (∀ id b, s.tcbs id = some b → ∃ t, s.tcb? b = some t ∧ t.id = id ∧ t.life ≠ .removed) ∧
      ∀ e s', s.keepsTable host e = true → step host s e = some s' →
        ∀ id b, s.tcbs id = some b →
          s'.tcbs id = some b ∨ ∃ t', s'.tcb? b = some t' ∧ t'.life = .removed := by
  have tabled := tabled_of_run run kept
  refine ⟨tabled.live, ?_, tabled.entry, ?_⟩
  · intro b b' t t' there there' live live' same
    have found := tabled.live b t there live
    rw [same, tabled.live b' t' there' live'] at found
    exact (Option.some.inj found).symm
  · intro e s' kept next id b found
    obtain ⟨t, there, name, -⟩ := tabled.entry id b found
    obtain ⟨t', there', name'⟩ := names_step tabled next b t there
    by_cases gone : t'.life = .removed
    · exact .inr ⟨t', there', gone⟩
    · have found' := (tabled.step kept next).live b t' there' gone
      rw [name', name] at found'
      exact .inl found'

end Stack

/-! ## Two connections of one name -/

/-- Both draw the port 50000, for port 80 of the same peer. -/
def twoConnects : List StackEvent :=
  [.connect ⟨100⟩ zeroMemory 0x0a000002 80 50000, .connect ⟨200⟩ zeroMemory 0x0a000002 80 50000]

def twoPorts : List StackEvent :=
  [.connect ⟨100⟩ zeroMemory 0x0a000002 80 50000, .connect ⟨200⟩ zeroMemory 0x0a000002 80 50001,
    .tcb 0 .shutdownConnect]

/-- Two connections with two ports, and the first is given up: the second stays
in the table. -/
theorem table_maps_live_ports : ∃ (s : Stack (ListQueue Nat)) (t : Tcb),
    exec (Stack.step exampleHost) {} twoPorts = some s ∧ s.tcb? 1 = some t ∧
      s.tcbs t.id = some 1 := by
  have run : exec (Stack.step exampleHost) ({} : Stack (ListQueue Nat)) twoPorts = some _ :=
    (Option.some_get (by decide)).symm
  have there : (Option.get (exec (Stack.step exampleHost) ({} : Stack (ListQueue Nat))
      twoPorts) (by decide)).tcb? 1 = some _ := (Option.some_get (by decide)).symm
  have kept : Along (Stack.step exampleHost)
      (fun (u : Stack (ListQueue Nat)) e => u.keepsTable exampleHost e = true) {} twoPorts := by
    decide
  exact ⟨_, _, run, there,
    (Stack.table_maps_live exampleHost twoPorts _ run kept).1 1 _ there (by decide)⟩

/-- With one hardware queue both live connections have one name, and the table
has the first of them. -/
theorem twoConnects_share : ∃ (s : Stack (ListQueue Nat)) (t t' : Tcb),
    exec (Stack.step exampleHost) {} twoConnects = some s ∧ s.tcb? 0 = some t ∧
      s.tcb? 1 = some t' ∧ t.life ≠ .removed ∧ t'.life ≠ .removed ∧ t.id = t'.id ∧
      s.tcbs t'.id = some 0 := by
  have run : exec (Stack.step exampleHost) ({} : Stack (ListQueue Nat)) twoConnects = some _ :=
    (Option.some_get (by decide)).symm
  have there : (Option.get (exec (Stack.step exampleHost) ({} : Stack (ListQueue Nat))
      twoConnects) (by decide)).tcb? 0 = some _ := (Option.some_get (by decide)).symm
  have there' : (Option.get (exec (Stack.step exampleHost) ({} : Stack (ListQueue Nat))
      twoConnects) (by decide)).tcb? 1 = some _ := (Option.some_get (by decide)).symm
  exact ⟨_, _, _, run, there, there', by decide, by decide, by decide, by decide⟩

end ActorNet.Tcp
