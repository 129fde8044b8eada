import ActorNet.Net.Dhcp

/-!
# Transactions of the DHCP client

`process_packet` reads the transaction id of no packet. A packet of another
transaction does no harm only when the retries were stopped before and its type
is not one that the state waits for; and the overall timer is not stopped when
the lease is there.
-/

namespace ActorNet.Net.Dhcp

open Lib

variable {host : DhcpHost} {d d' : Dhcp} {e : DhcpEvent}

/-- The types of packets that a state acts on. -/
def State.waitsFor : State → List MsgType
  | .discover => [.offer]
  | .request => [.ack, .nak]
  | _ => []

/-- A packet of another transaction does nothing in this state. -/
def harmless (d : Dhcp) (r : Reply) : Bool :=
  !d.retryTimerArmed && d.state.waitsFor.all fun type => r.info.type != type.value

/-- The packet that is processed is of the outstanding transaction, or harmless. -/
def keepsTransaction (d : Dhcp) (e : DhcpEvent) : Bool :=
  (d.processed e).all fun r => r.xid == d.xid || d.harmless r

/-- The overall timer does not fire when the lease is there. -/
def keepsResult (d : Dhcp) : DhcpEvent → Bool
  | .timeout => d.state != .done
  | _ => true

/-- The state, the result and the retries are what they were. -/
structure SameProgress (d d' : Dhcp) : Prop where
  state : d'.state = d.state
  result : d'.result = d.result
  retries : d'.retryTimerArmed = d.retryTimerArmed

/-! ## One packet -/

/-- How a packet ends: ignored, or acted on in the state that waits for it. -/
theorem processPacket_cases {P : Dhcp → Prop} (mac : List Byte) (xid : BitVec 32) (r : Reply)
    (ignored : (∀ type ∈ d.state.waitsFor, r.info.type ≠ type.value) →
      P { d with retryTimerArmed := false })
    (offer : d.state = .discover → r.info.type = MsgType.offer.value →
      P ({ d with retryTimerArmed := false }.sendRequest mac r.info.toLease))
    (nak : d.state = .request → r.info.type = MsgType.nak.value →
      P ({ d with retryTimerArmed := false, state := .none }.sendDiscover mac 0 xid))
    (ack : d.state = .request → r.info.type = MsgType.ack.value →
      P { d with
        retryTimerArmed := false, state := .done,
        result := d.result ++ [some r.info.toLease] }) :
    P (d.processPacket mac xid r) := by
  unfold processPacket
  dsimp only
  split
  · rename_i here
    split
    · rename_i other
      exact ignored (by simpa [here, State.waitsFor] using other)
    · rename_i same
      exact offer here (by simpa using same)
  · rename_i here
    split
    · rename_i same
      exact nak here same
    · rename_i notNak
      split
      · rename_i other
        exact ignored (by simpa [here, State.waitsFor] using ⟨other, notNak⟩)
      · rename_i same
        exact ack here (by simpa using same)
  · rename_i noDiscover noRequest
    refine ignored ?_
    cases here : d.state with
    | discover => exact absurd here noDiscover
    | request => exact absurd here noRequest
    | none => simp [State.waitsFor]
    | done => simp [State.waitsFor]
    | fail => simp [State.waitsFor]

/-- A packet leaves everything as it was exactly when it is harmless. -/
theorem sameProgress_processPacket (mac : List Byte) (xid : BitVec 32) (r : Reply) :
    d.SameProgress (d.processPacket mac xid r) ↔ d.harmless r = true := by
  unfold harmless
  apply processPacket_cases (P := fun d' => d.SameProgress d' ↔ (!d.retryTimerArmed &&
    d.state.waitsFor.all fun type => r.info.type != type.value) = true)
  · intro other
    have types : d.state.waitsFor.all (fun type => r.info.type != type.value) = true := by
      simpa using other
    rw [types, Bool.and_true]
    constructor
    · intro same
      rw [← same.retries]
      rfl
    · intro stopped
      exact ⟨rfl, rfl, by simpa using stopped⟩
  · intro here same
    simp only [here, State.waitsFor, List.all_cons, same, bne_self_eq_false, Bool.false_and,
      Bool.and_false, Bool.false_eq_true, iff_false]
    intro progress
    have state : State.request = d.state := progress.state
    rw [here] at state
    cases state
  · intro here same
    simp only [here, State.waitsFor, List.all_cons, same, bne_self_eq_false, Bool.false_and,
      Bool.and_false, Bool.false_eq_true, iff_false]
    intro progress
    have state : State.discover = d.state := progress.state
    rw [here] at state
    cases state
  · intro here same
    simp only [here, State.waitsFor, List.all_cons, same, bne_self_eq_false, Bool.false_and,
      Bool.and_false, Bool.false_eq_true, iff_false]
    intro progress
    have state : State.done = d.state := progress.state
    rw [here] at state
    cases state

/-- The filter processes a packet, sends it to cpu 0, or leaves it alone. -/
theorem handle_cases (host : DhcpHost) (shard : Nat) (iph : IpHdr) (p : List Byte)
    (xid : BitVec 32) (memory : LeaseTimes) (d : Dhcp) :
    (∃ r, d.processed (.handle shard iph p xid memory) = some r ∧
      d.handle host shard iph p xid memory = d.processPacket host.mac xid r) ∨
    (d.processed (.handle shard iph p xid memory) = .none ∧
      ∃ submitted, d.handle host shard iph p xid memory = { d with submitted }) := by
  unfold processed handle
  dsimp only
  by_cases idle : d.state = .none
  · rw [if_pos (.inl idle), if_pos idle]
    exact .inr ⟨rfl, d.submitted, rfl⟩
  rw [if_neg idle]
  cases accepted : accepts iph p with
  | none =>
      refine .inr ⟨?_, d.submitted, rfl⟩
      split <;> rfl
  | some a =>
      dsimp only
      by_cases here : shard = 0
      · rw [if_pos here, if_neg (by simp [idle, here])]
        exact .inl ⟨a.reply memory, rfl, rfl⟩
      · rw [if_neg here, if_pos (.inr here)]
        exact .inr ⟨rfl, _, rfl⟩

/-- What a step does, by its event. -/
theorem step_cases (next : step host d e = some d') :
    (∃ r xid submitted, d.processed e = some r ∧
      d' = { d with submitted }.processPacket host.mac xid r) ∨
    (d.processed e = .none ∧
      ((∃ submitted, d' = { d with submitted } ∧ e ≠ .timeout) ∨
      (∃ xid, e = .retry xid ∧ d.retryTimerArmed = true ∧
        d' = d.sendDiscover host.mac host.lease.ip xid) ∨
      (e = .timeout ∧ d.timerArmed = true ∧ d' = d.timeout))) := by
  unfold step at next
  split at next
  · rename_i enabled
    cases next
    cases e with
    | handle shard iph p xid memory =>
        rcases d.handle_cases host shard iph p xid memory with
          ⟨r, processed, result⟩ | ⟨quiet, submitted, result⟩
        · exact .inl ⟨r, xid, d.submitted, processed, result⟩
        · exact .inr ⟨quiet, .inl ⟨submitted, result, fun same => by cases same⟩⟩
    | process k xid memory =>
        obtain ⟨a, there⟩ : ∃ a, d.submitted[k]? = some a :=
          ⟨_, List.getElem?_eq_getElem (of_decide_eq_true enabled)⟩
        refine .inl ⟨a.reply memory, xid, d.submitted.eraseIdx k, ?_, ?_⟩
        · unfold processed
          simp [there]
        · simp [there]
    | retry xid => exact .inr ⟨rfl, .inr (.inl ⟨xid, rfl, enabled, rfl⟩)⟩
    | timeout => exact .inr ⟨rfl, .inr (.inr ⟨rfl, enabled, rfl⟩)⟩
  · cases next

/-! ## Invariants -/

/-- The last message is the one the state waits for an answer to. -/
structure Outstanding (d : Dhcp) : Prop where
  discover : d.state = .discover →
    ∃ m, d.sent.getLast? = some m ∧ m.type = .discover ∧ m.xid = d.xid
  request : d.state = .request →
    ∃ m, d.sent.getLast? = some m ∧ m.type = .request ∧ m.xid = d.xid

/-- The promise was resolved when the run ended, and the overall timer goes on
until then. -/
structure Settled (given : Bool) (d : Dhcp) : Prop where
  awake : d.state ≠ .none
  once : d.result.length = if d.state = .done ∨ d.state = .fail then 1 else 0
  armed : d.result = [] → d.timerArmed = given
  failed : d.state = .fail → d.timerArmed = false
  retries : d.retryTimerArmed = true → d.state = .discover

theorem sendDiscover_outstanding (mac : List Byte) (ip xid : BitVec 32) (d : Dhcp) :
    (d.sendDiscover mac ip xid).Outstanding where
  discover _ := ⟨_, List.getLast?_concat, rfl, rfl⟩
  request here := by cases here

theorem sendRequest_outstanding (mac : List Byte) (info : Lease) (d : Dhcp) :
    (d.sendRequest mac info).Outstanding where
  discover here := by cases here
  request _ := ⟨_, List.getLast?_concat, rfl, rfl⟩

theorem Outstanding.step (outstanding : d.Outstanding) (next : Dhcp.step host d e = some d') :
    d'.Outstanding := by
  rcases step_cases next with ⟨r, xid, submitted, -, rfl⟩ |
    ⟨-, ⟨submitted, rfl, -⟩ | ⟨xid, -, -, rfl⟩ | ⟨-, -, rfl⟩⟩
  · apply processPacket_cases (P := Outstanding)
    · exact fun _ => ⟨outstanding.discover, outstanding.request⟩
    · exact fun _ _ => sendRequest_outstanding ..
    · exact fun _ _ => sendDiscover_outstanding ..
    · exact fun _ _ => ⟨(fun here => nomatch here), (fun here => nomatch here)⟩
  · exact ⟨outstanding.discover, outstanding.request⟩
  · exact sendDiscover_outstanding ..
  · exact ⟨(fun here => nomatch here), (fun here => nomatch here)⟩

theorem Settled.result_of_waiting {given : Bool} (settled : d.Settled given)
    (notDone : d.state ≠ .done) (notFail : d.state ≠ .fail) : d.result = [] := by
  have once := settled.once
  rw [if_neg (by simp [notDone, notFail])] at once
  exact List.length_eq_zero_iff.mp once

/-- A message is sent and its answer waited for. -/
theorem Settled.waits {given : Bool} (settled : d.Settled given) (notDone : d.state ≠ .done)
    (notFail : d.state ≠ .fail) (sends : d'.state = .discover ∨ d'.state = .request)
    (result : d'.result = d.result) (armed : d'.timerArmed = d.timerArmed)
    (retries : d'.retryTimerArmed = true → d'.state = .discover) : d'.Settled given := by
  have nothing := settled.result_of_waiting notDone notFail
  refine ⟨?_, ?_, ?_, ?_, retries⟩
  · rcases sends with here | here <;> rw [here] <;> exact fun same => nomatch same
  · rw [result, nothing]
    rcases sends with here | here <;> rw [here] <;> rfl
  · intro _
    rw [armed]
    exact settled.armed nothing
  · intro fail
    rcases sends with here | here <;> rw [here] at fail <;> cases fail

theorem Settled.step {given : Bool} (settled : d.Settled given) (kept : d.keepsResult e = true)
    (next : Dhcp.step host d e = some d') : d'.Settled given := by
  have apart : ∀ {state : State}, d.state = state → state ≠ .done → state ≠ .fail →
      d.state ≠ .done ∧ d.state ≠ .fail := by
    rintro state rfl notDone notFail
    exact ⟨notDone, notFail⟩
  rcases step_cases next with ⟨r, xid, submitted, -, rfl⟩ |
    ⟨-, ⟨submitted, rfl, -⟩ | ⟨xid, -, retries, rfl⟩ | ⟨rfl, armed, rfl⟩⟩
  · apply processPacket_cases (P := Settled given)
    · exact fun _ => ⟨settled.awake, settled.once, settled.armed, settled.failed, fun on => by cases on⟩
    · intro here _
      obtain ⟨notDone, notFail⟩ := apart here (by decide) (by decide)
      exact settled.waits notDone notFail (.inr rfl) rfl rfl fun on => by cases on
    · intro here _
      obtain ⟨notDone, notFail⟩ := apart here (by decide) (by decide)
      exact settled.waits notDone notFail (.inl rfl) rfl rfl fun on => by cases on
    · intro here _
      obtain ⟨notDone, notFail⟩ := apart here (by decide) (by decide)
      have nothing : d.result = [] := settled.result_of_waiting notDone notFail
      refine ⟨?_, ?_, ?_, ?_, ?_⟩
      · exact fun same => nomatch same
      · show (d.result ++ [some r.info.toLease]).length = _
        rw [nothing]
        rfl
      · intro empty
        cases List.append_eq_nil_iff.mp empty |>.2
      · exact fun same => nomatch same
      · exact fun on => nomatch on
  · exact ⟨settled.awake, settled.once, settled.armed, settled.failed, settled.retries⟩
  · obtain ⟨notDone, notFail⟩ := apart (settled.retries retries) (by decide) (by decide)
    exact settled.waits notDone notFail (.inl rfl) rfl rfl fun _ => rfl
  · have notDone : d.state ≠ .done := by simpa [keepsResult] using kept
    have notFail : d.state ≠ .fail := by
      intro fail
      rw [settled.failed fail] at armed
      cases armed
    have nothing := settled.result_of_waiting notDone notFail
    refine ⟨?_, ?_, ?_, fun _ => rfl, ?_⟩
    · exact fun same => nomatch same
    · show (d.result ++ [none]).length = _
      rw [nothing]
      rfl
    · intro empty
      cases List.append_eq_nil_iff.mp empty |>.2
    · exact fun on => nomatch on

/-- The promise is resolved a second time by a late timer, and by nothing else. -/
theorem Settled.keepsResult_iff {given : Bool} (settled : d.Settled given)
    (next : Dhcp.step host d e = some d') :
    d'.result.length ≤ 1 ↔ d.keepsResult e = true := by
  constructor
  · intro once
    by_contra late
    have here : e = .timeout ∧ d.state = .done := by
      cases e <;> simp [keepsResult] at late
      exact ⟨rfl, late⟩
    have before := settled.once
    rw [here.2, if_pos (.inl rfl)] at before
    rcases step_cases next with ⟨r, xid, submitted, processed, -⟩ |
      ⟨-, ⟨submitted, -, notTimeout⟩ | ⟨xid, same, -, -⟩ | ⟨-, -, rfl⟩⟩
    · rw [here.1] at processed
      cases processed
    · exact notTimeout here.1
    · rw [here.1] at same
      cases same
    · have after : (d.result ++ [none]).length ≤ 1 := once
      rw [List.length_append, before, List.length_singleton] at after
      omega
  · intro kept
    have once := (settled.step kept next).once
    split at once <;> omega

/-! ## Runs -/

/-- The event of a step by which a lease is reported: the acknowledgement of the
request that was sent last. -/
structure Acknowledges (lease : Lease) (d : Dhcp) (e : DhcpEvent) (d' : Dhcp) : Prop where
  waits : d.state = .request
  acked : ∃ r, d.processed e = some r ∧ r.info.type = MsgType.ack.value ∧
    r.info.toLease = lease ∧ r.xid = d.xid
  requested : ∃ m, d.sent.getLast? = some m ∧ m.type = .request ∧ m.xid = d.xid
  done : d'.state = .done

theorem Outstanding.acknowledges {lease : Lease} (outstanding : d.Outstanding)
    (kept : d.keepsTransaction e = true) (next : Dhcp.step host d e = some d')
    (before : some lease ∉ d.result) (after : some lease ∈ d'.result) :
    Acknowledges lease d e d' := by
  rcases step_cases next with ⟨r, xid, submitted, processed, rfl⟩ |
    ⟨-, ⟨submitted, rfl, -⟩ | ⟨xid, -, -, rfl⟩ | ⟨-, -, rfl⟩⟩
  · revert after
    apply processPacket_cases (P := fun d' => some lease ∈ d'.result → Acknowledges lease d e d')
    · exact fun _ after => absurd after before
    · exact fun _ _ after => absurd after before
    · exact fun _ _ after => absurd after before
    · intro here type after
      have here : d.state = .request := here
      have after : some lease ∈ d.result ++ [some r.info.toLease] := after
      have same : lease = r.info.toLease := by
        rcases List.mem_append.mp after with earlier | last
        · exact absurd earlier before
        · exact Option.some.inj (List.mem_singleton.mp last)
      have xid : r.xid = d.xid := by
        unfold keepsTransaction harmless at kept
        simpa [processed, here, State.waitsFor, type] using kept
      exact ⟨here, ⟨r, processed, type, same.symm, xid⟩, outstanding.request here, rfl⟩
  · exact absurd after before
  · exact absurd after before
  · rcases List.mem_append.mp after with earlier | last
    · exact absurd earlier before
    · cases List.mem_singleton.mp last

theorem sameProgress_iff (next : step host d e = some d') :
    (∀ r, d.processed e = some r → r.xid ≠ d.xid → d.SameProgress d') ↔
      d.keepsTransaction e = true := by
  unfold keepsTransaction
  rcases step_cases next with ⟨r, xid, submitted, processed, rfl⟩ | ⟨quiet, -⟩
  · have one := @sameProgress_processPacket { d with submitted } host.mac xid r
    have same : d.SameProgress ({ d with submitted }.processPacket host.mac xid r) ↔
        d.harmless r = true :=
      ⟨fun p => one.mp ⟨p.state, p.result, p.retries⟩,
        fun h => ⟨(one.mpr h).state, (one.mpr h).result, (one.mpr h).retries⟩⟩
    rw [processed]
    simp only [Option.all_some, Bool.or_eq_true, beq_iff_eq]
    rw [← same]
    constructor
    · intro unchanged
      by_cases own : r.xid = d.xid
      · exact .inl own
      · exact .inr (unchanged r rfl own)
    · rintro (own | unchanged) r' there other <;> cases there
      · exact absurd own other
      · exact unchanged
  · rw [quiet]
    exact ⟨fun _ => rfl, fun _ r absent => by cases absent⟩

/-- On every run: a packet of another transaction leaves the state, the result
and the retries as they are if and only if it is harmless; as long as every such
packet is, a lease that is reported is the one acknowledged for the transaction
of the last request; and as long as the overall timer does not fire when the
lease is there, the promise is resolved once, when the run ends, and until then
the timer goes on that will resolve it. -/
theorem transactions (host : DhcpHost) (timeout : Nat) (xid : BitVec 32)
    (events : List DhcpEvent) (d : Dhcp)
    (run : exec (step host) (run host.mac host.lease timeout xid) events = some d) :
    (∀ e d', step host d e = some d' →
      ((∀ r, d.processed e = some r → r.xid ≠ d.xid → d.SameProgress d') ↔
        d.keepsTransaction e = true)) ∧
    (Along (step host) (fun u e => u.keepsTransaction e = true)
        (Dhcp.run host.mac host.lease timeout xid) events →
      ∀ lease, some lease ∈ d.result → Entered (step host) (Acknowledges lease) (fun _ _ => True)
        (Dhcp.run host.mac host.lease timeout xid) events d) ∧
    (Along (step host) (fun u e => u.keepsResult e = true)
        (Dhcp.run host.mac host.lease timeout xid) events →
      (d.result.length = if d.state = .done ∨ d.state = .fail then 1 else 0) ∧
      (∀ e d', step host d e = some d' → (d'.result.length ≤ 1 ↔ d.keepsResult e = true)) ∧
      (d.result = [] → timeout ≠ 0 → ∃ d', step host d .timeout = some d' ∧ d'.result = [none])) := by
  refine ⟨fun e d' next => sameProgress_iff next, fun kept lease reported => ?_, fun kept => ?_⟩
  · have begin_ : (Dhcp.run host.mac host.lease timeout xid).Outstanding := by
      have sent := sendDiscover_outstanding host.mac host.lease.ip xid {}
      exact ⟨sent.discover, sent.request⟩
    have preserved : ∀ (u : Dhcp) (e : DhcpEvent) (u' : Dhcp), u.Outstanding →
        u.keepsTransaction e = true → step host u e = some u' → u'.Outstanding :=
      fun u e u' outstanding _ next => outstanding.step next
    have enters : ∀ (u : Dhcp) (e : DhcpEvent) (u' : Dhcp), u.Outstanding →
        u.keepsTransaction e = true → step host u e = some u' → some lease ∉ u.result →
        some lease ∈ u'.result → Acknowledges lease u e u' :=
      fun u e u' outstanding ok next before after => outstanding.acknowledges ok next before after
    have outside : some lease ∉ (Dhcp.run host.mac host.lease timeout xid).result :=
      fun mem => by cases mem
    exact Along.entered preserved enters (fun _ => trivial) (fun _ _ _ _ _ _ _ _ _ => trivial) begin_
      outside kept run reported
  · have begin_ : (Dhcp.run host.mac host.lease timeout xid).Settled (timeout != 0) :=
      ⟨fun same => (nomatch same), rfl, fun _ => rfl, fun fail => (nomatch fail), fun _ => rfl⟩
    have settled := Along.invariant (I := Settled (timeout != 0))
      (fun _ _ _ settled ok next => settled.step ok next) begin_ kept run
    refine ⟨settled.once, fun e d' next => settled.keepsResult_iff next, fun nothing given => ?_⟩
    have armed : d.timerArmed = true := by
      rw [settled.armed nothing]
      simpa using given
    refine ⟨d.timeout, if_pos armed, ?_⟩
    show d.result ++ [none] = _
    rw [nothing]
    rfl

/-! ## A reply for another client -/

def exampleTimes : LeaseTimes := ⟨0, 0, 0⟩

def exampleClient : DhcpHost := ⟨[2, 0, 0, 0, 0, 1], { toLeaseTimes := exampleTimes }⟩

/-- The header of a datagram that carries a reply. -/
def replyHdr : IpHdr := ⟨5, 4, 0, 0, 273, 0, 0, 64, 17, 0, 0, 0⟩

/-- A reply with nothing but its type. -/
def replyBytes (xid yiaddr : BitVec 32) (type : MsgType) : List Byte :=
  List.replicate 20 0 ++ ([0, 67, 0, 68, 0, 0, 0, 0] ++ ([2, 1, 6, 0] ++ (toBytesBE 4 xid.toNat ++
    (List.replicate 8 0 ++ (toBytesBE 4 yiaddr.toNat ++ (List.replicate 216 0 ++
      (optionsMagic ++ [53, 1, type.value, 255])))))))

def replyArrives (xid yiaddr : BitVec 32) (type : MsgType) : DhcpEvent :=
  .handle 0 replyHdr (replyBytes xid yiaddr type) 0 exampleTimes

/-- The replies are of the client's transaction. -/
theorem transactions_own : ∃ d : Dhcp,
    exec (step exampleClient) (run exampleClient.mac exampleClient.lease 30 5)
      [replyArrives 5 0x0a000007 .offer, replyArrives 5 0x0a000007 .ack] = some d ∧
      d.state = .done ∧ d.result.length = 1 := by
  have run : exec (step exampleClient) (run exampleClient.mac exampleClient.lease 30 5)
      [replyArrives 5 0x0a000007 .offer, replyArrives 5 0x0a000007 .ack] = some _ :=
    (Option.some_get (by decide +kernel)).symm
  have once := ((transactions exampleClient 30 5 _ _ run).2.2 (by decide +kernel)).1
  exact ⟨_, run, by decide +kernel, once.trans (by decide +kernel)⟩

/-- They are another client's: its address is taken, and the timer resolves the
promise a second time. -/
theorem foreign_lease_reported : ∃ d : Dhcp,
    exec (step exampleClient) (run exampleClient.mac exampleClient.lease 30 5)
      [replyArrives 9 0x0a000007 .offer, replyArrives 9 0x0a000007 .ack, .timeout] = some d ∧
      d.result.map (Option.map (fun l : Lease => l.ip)) = [some 0x0a000007, none] := by
  have run : exec (step exampleClient) (run exampleClient.mac exampleClient.lease 30 5)
      [replyArrives 9 0x0a000007 .offer, replyArrives 9 0x0a000007 .ack, .timeout] = some _ :=
    (Option.some_get (by decide +kernel)).symm
  exact ⟨_, run, by decide +kernel⟩

end ActorNet.Net.Dhcp
