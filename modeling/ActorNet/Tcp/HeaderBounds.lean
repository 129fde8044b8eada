import ActorNet.Net.PacketTrims
import ActorNet.Tcp.WindowAssertion
import ActorNet.Tcp.StackFrames

/-!
# Headers that claim more than there is

`received` checks that a packet has the 20 bytes of a header and that the header
claims at least as many, but nobody checks that the packet is as long as its
header claims. What the handlers read and cut off is there exactly when it is.
-/

namespace ActorNet.Tcp

open Lib Net

/-! ## What a packet of some length allows -/

section Packets

variable {p : Impl}

/-- The bytes of a header that are there are found, in any fragmentation. -/
theorem getHeader_ok (wf : p.WF) {size : Nat} (positive : 0 < size) (inside : size ≤ p.len) :
    ∃ q, p.getHeader 0 size = .ok (q, some (p.content.take size)) ∧ q.WF ∧
      q.content = p.content := by
  have spec := Impl.getHeader_spec wf 0 size
  cases result : p.getHeader 0 size with
  | error e =>
      rw [result] at spec
      exact absurd (Impl.getHeader_error result) spec
  | ok r =>
      rw [result] at spec
      obtain ⟨wf', content, header⟩ := spec
      have length := wf.length_content
      refine ⟨r.1, ?_, wf', content⟩
      rw [if_pos (by omega), List.drop_zero] at header
      rw [← header]

theorem getHeader_long {size : Nat} (outside : p.len < size) :
    p.getHeader 0 size = .ok (p, none) := by
  unfold Impl.getHeader
  rw [if_pos (by omega)]

theorem trimFront_ok (wf : p.WF) {n : Nat} (inside : n ≤ p.len) :
    ∃ q, p.trimFront n = .ok q ∧ q.WF ∧ q.content = p.content.drop n := by
  have safe := Impl.trimFront_spec wf n
  have within : n ≤ Impl.total p.frags := wf.len_eq ▸ inside
  cases result : p.trimFront n with
  | ok q =>
      rw [result] at safe
      exact ⟨q, rfl, safe⟩
  | error e =>
      rw [result] at safe
      obtain ⟨pre, k, rest, run, -⟩ := Impl.skipFrags_spec within
      unfold Impl.trimFront at result
      rw [if_neg (by omega)] at result
      simp only [run, bind, Except.bind] at result
      split at result
      · cases result
      split at result
      · cases result
      · cases result
        exact absurd rfl safe

theorem trimFront_long {n : Nat} (outside : p.len < n) : p.trimFront n = .error .assertion := by
  unfold Impl.trimFront
  rw [if_pos outside]

end Packets

namespace Tcb

variable {t : Tcb} {hw : HwFeatures}

/-! ## What the handlers do with it -/

/-- A header pointer is null, or more is cut off than there is. -/
abbrev IsHeaderCrash (c : Crash) : Prop := c = .nullHeader ∨ c = .trimFront

theorem tolerates_headerCrash : Tolerates IsHeaderCrash :=
  ⟨by decide, by decide, by decide, by decide⟩

theorem takeHeader_ok {p : Impl} (wf : p.WF) {th : TcpHdr} (least : tcpHdrLen ≤ th.length)
    (inside : th.length ≤ p.len) (t : Tcb) : ∃ opts, t.takeHeader th p = .ok opts := by
  have positive : 0 < th.length := Nat.lt_of_lt_of_le (by decide) least
  obtain ⟨q, header, wf', content⟩ := getHeader_ok wf positive inside
  have same : q.len = p.len := by rw [← wf'.length_content, content, wf.length_content]
  obtain ⟨r, trimmed, -⟩ := trimFront_ok wf' (same ▸ inside)
  refine ⟨(p.content.take th.length).drop tcpHdrLen, ?_⟩
  unfold takeHeader
  simp only [header, trimmed]

theorem takeHeader_long {p : Impl} {th : TcpHdr} (outside : p.len < th.length) (t : Tcb) :
    t.takeHeader th p = .error (t.fail .nullHeader) := by
  unfold takeHeader
  rw [getHeader_long outside]

theorem duplicated_le (segSeq : TcpSeq) (segLen : Nat) (t : Tcb) :
    t.duplicated segSeq segLen ≤ segLen := by
  unfold duplicated
  split
  · exact Nat.min_le_right _ _
  · exact Nat.zero_le _

/-- What lies left of the window is never more than the packet holds. -/
theorem arrival_ne_overrun {p : Impl} (wf : p.WF) {th : TcpHdr} (inside : th.length ≤ p.len)
    (t : Tcb) : t.arrival th p ≠ .overrun := by
  obtain ⟨q, trimmed, wf', -⟩ := trimFront_ok wf inside
  obtain ⟨r, cut, -⟩ := trimFront_ok wf' (duplicated_le th.seq q.len t)
  unfold arrival
  simp only [trimmed, cut]
  split
  · exact fun bad => nomatch bad
  split <;> exact fun bad => nomatch bad

theorem arrival_long {p : Impl} {th : TcpHdr} (outside : p.len < th.length) (t : Tcb) :
    t.arrival th p = .overrun := by
  unfold arrival
  rw [trimFront_long outside]

theorem Clear.inputHandle (clear : Clear IsHeaderCrash t) (beyond : Nat → Byte) {th : TcpHdr}
    {p : Impl} (wf : p.WF) (least : tcpHdrLen ≤ th.length) (inside : th.length ≤ p.len) :
    Clear IsHeaderCrash (t.inputHandle hw beyond th p) := by
  unfold Tcb.inputHandle
  split
  · exact clear.inputHandleSynSentState beyond th p fun _ => takeHeader_ok wf least inside t
  · exact clear.inputHandleOtherState tolerates_headerCrash th p
      (fun _ => arrival_ne_overrun wf inside t) fun isBad => by cases isBad <;> contradiction

theorem inputHandleListenState_long (beyond : Nat → Byte) (iss : TcpSeq) {th : TcpHdr} {p : Impl}
    (going : t.crash = none) (outside : p.len < th.length) :
    ∃ c, IsHeaderCrash c ∧ (t.inputHandleListenState hw beyond iss th p).crash = some c := by
  refine ⟨.nullHeader, .inl rfl, ?_⟩
  unfold inputHandleListenState
  simp only [takeHeader_long outside]
  show (t.crash <|> some .nullHeader) = _
  rw [going]
  rfl

theorem inputHandle_long (beyond : Nat → Byte) {th : TcpHdr} {p : Impl}
    (going : t.crash = none) (outside : p.len < th.length) :
    ∃ c, IsHeaderCrash c ∧ (t.inputHandle hw beyond th p).crash = some c := by
  unfold inputHandle
  split
  · refine ⟨.nullHeader, .inl rfl, ?_⟩
    unfold inputHandleSynSentState
    rw [takeHeader_long outside]
    show (t.crash <|> some .nullHeader) = _
    rw [going]
    rfl
  · refine ⟨.trimFront, .inr rfl, ?_⟩
    unfold inputHandleOtherState
    rw [arrival_long outside]
    show (t.crash <|> some .trimFront) = _
    rw [going]
    rfl

end Tcb

variable {Q : Type} [BoundedQueue Nat Q] {host : Host}

namespace Stack

variable {s s' : Stack Q}

/-! ## Handing a segment over -/

/-- The header in the first 20 bytes of a packet. -/
def headerOf (p : Impl) : TcpHdr := TcpHdr.read (p.content.take tcpHdrLen)

/-- A segment without a connection is a SYN for a listener that is not full. -/
def listensTo (id : ConnId) (h : TcpHdr) (s : Stack Q) : Bool :=
  ((s.listening id.localPort).any fun l => !(s.listeners[l]?).any Listener.full) &&
    !h.fRst && !h.fAck && h.fSyn

/-- A handler gets the segment: it passes the checks of `received`, and there is
a connection for it or a listener. -/
def handsOver (hw : HwFeatures) (p : Impl) (src dst : BitVec 32) (s : Stack Q) : Bool :=
  let h := headerOf p
  let id : ConnId := ⟨dst, src, h.dstPort, h.srcPort⟩
  match p.getHeader 0 tcpHdrLen with
  | .ok (q, some _) =>
      !decide (h.length < tcpHdrLen) && !checksumFails hw q src dst &&
        ((s.tcbs id).any (fun b => (s.blocks[b]?).isSome) ||
          (s.tcbs id).isNone && s.listensTo id h)
  | _ => false

/-! ## Runs -/

/-- No connection has crashed. -/
def Healthy (s : Stack Q) : Prop := ∀ j t, s.tcb? j = some t → t.crash = none

/-- Nor has any of a process that goes on. -/
def Going (s : Stack Q) : Prop := s.crash = none → s.Healthy

omit [BoundedQueue Nat Q] in
theorem Healthy.insertTcb (healthy : s.Healthy) (id : ConnId) (memory : Tcb)
    (awaits : Option Nat) : (s.insertTcb id memory awaits).Healthy := by
  intro j t here
  unfold Stack.insertTcb tcb? at here
  dsimp only at here
  rw [List.getElem?_append] at here
  split at here
  · exact healthy j t here
  · cases index : j - s.blocks.length with
    | zero =>
        rw [index] at here
        cases here
        rfl
    | succ n =>
        rw [index] at here
        cases here

theorem Healthy.onTcb (healthy : s.Healthy) (b : Nat) (handler : Tcb → Tcb) :
    (s.onTcb b handler).Going := by
  intro alive
  cases here : s.blocks[b]? with
  | none =>
      unfold Stack.onTcb
      rw [here]
      exact healthy
  | some x =>
      obtain ⟨crash, blocks⟩ := onTcb_frame here handler
      intro j t found
      rw [blocks j] at found
      split at found
      · cases found
        rw [← crash]
        exact alive
      · exact healthy j t found

theorem Healthy.acceptSyn (healthy : s.Healthy) (hw : HwFeatures) (beyond : Nat → Byte)
    (iss : TcpSeq) (memory : Tcb) (l : Nat) (id : ConnId) (h : TcpHdr) (p : Impl) :
    (s.acceptSyn hw beyond iss memory l id h p).Going := by
  have inserted : ((s.insertTcb id memory (some l)).incPending l).Healthy :=
    healthy.insertTcb id memory (some l)
  exact inserted.onTcb _ _

theorem Healthy.received (healthy : s.Healthy) (hw : HwFeatures) (beyond : Nat → Byte)
    (iss : TcpSeq) (memory : Tcb) (p : Impl) (src dst : BitVec 32) :
    (s.received hw beyond iss memory p src dst).Going := by
  apply received_cases
  · exact fun alive => by cases alive
  · exact fun resets _ => healthy
  · exact fun b h q _ _ => healthy.onTcb b _
  · exact fun l id h q _ _ _ => healthy.acceptSyn hw beyond iss memory l id h q

theorem Healthy.handle (healthy : s.Healthy) (e : StackEvent) : (s.handle host e).Going := by
  cases e with
  | received beyond iss memory p src dst =>
      exact healthy.received host.hw beyond iss memory p src dst
  | connect iss memory dstIp dstPort srcPort =>
      exact (healthy.insertTcb (connectId host dstIp dstPort srcPort) memory none).onTcb _ _
  | tcb b e => exact healthy.onTcb b _
  | listen port queueLength => exact fun _ => healthy
  | destroyListener l =>
      show (s.destroyListener l).Going
      unfold destroyListener
      split <;> exact fun _ => healthy
  | accept l => exact fun _ => healthy
  | abortAccept l => exact fun _ => healthy

theorem healthy_of_run {events : List StackEvent} (run : exec (step host) {} events = some s)
    (alive : s.crash = none) : s.Healthy := by
  have preserved : ∀ (s : Stack Q) (e : StackEvent) (s' : Stack Q), s.Going →
      step host s e = some s' → s'.Going := by
    intro s e s' going next
    unfold step at next
    split at next
    · rename_i possible
      cases next
      exact (going possible.1).handle e
    · cases next
  have begin_ : ({} : Stack Q).Going := by
    intro _ j t found
    unfold tcb? at found
    cases found
  exact exec_invariant preserved begin_ run alive

/-! ## The crashes of `received` -/

theorem receivedUnknown_crash (hw : HwFeatures) (beyond : Nat → Byte) (iss : TcpSeq)
    (memory : Tcb) (id : ConnId) (h : TcpHdr) (p : Impl) (s : Stack Q) :
    if s.listensTo id h then
      (s.receivedUnknown hw beyond iss memory id h p).crash =
        ((Tcb.new id memory).inputHandleListenState hw beyond iss h p).crash
    else (s.receivedUnknown hw beyond iss memory id h p).crash = s.crash := by
  have reset : (s.respondWithReset h id.localIp id.foreignIp).crash = s.crash := by
    obtain ⟨resets, result⟩ := respondWithReset_eq h id.localIp id.foreignIp s
    rw [result]
  unfold receivedUnknown listensTo
  cases s.listening id.localPort with
  | none => exact reset
  | some l =>
      cases full : (s.listeners[l]?).any Listener.full with
      | true => simpa [full] using reset
      | false =>
          cases rst : h.fRst with
          | true => simp [full]
          | false =>
              cases ack : h.fAck with
              | true => simpa [full] using reset
              | false =>
                  cases syn : h.fSyn with
                  | false => simp [full]
                  | true =>
                      have made : ((s.insertTcb id memory (some l)).incPending l).blocks[
                          s.blocks.length]? = some ⟨Tcb.new id memory, some l⟩ :=
                        insertTcb_last id memory (some l) s
                      simp only [full, Option.any_some, Bool.not_false, Bool.and_self,
                        Bool.false_eq_true, if_true, if_false]
                      exact (onTcb_frame made _).1

/-- How `received` ends: with what the handler of a connection leaves, if there
is one that gets the segment, and else as it began. -/
theorem received_crash (healthy : s.Healthy) (hw : HwFeatures) (beyond : Nat → Byte)
    (iss : TcpSeq) (memory : Tcb) {p : Impl} (wf : p.WF) (src dst : BitVec 32) :
    if s.handsOver hw p src dst then
      ∃ (q : Impl) (t : Tcb), q.WF ∧ q.len = p.len ∧ tcpHdrLen ≤ (headerOf p).length ∧ t.crash = none ∧
        ((s.received hw beyond iss memory p src dst).crash =
            (t.inputHandle hw beyond (headerOf p) q).crash ∨
          (s.received hw beyond iss memory p src dst).crash =
            (t.inputHandleListenState hw beyond iss (headerOf p) q).crash)
    else (s.received hw beyond iss memory p src dst).crash = s.crash := by
  by_cases short : p.len < tcpHdrLen
  · unfold Stack.received handsOver
    rw [getHeader_long short]
    rfl
  obtain ⟨q, header, wf', content⟩ := getHeader_ok wf (by decide) (Nat.not_lt.mp short)
  have same : q.len = p.len := by rw [← wf'.length_content, content, wf.length_content]
  have reset : ∀ th localIp foreignIp,
      (s.respondWithReset th localIp foreignIp).crash = s.crash := by
    intro th localIp foreignIp
    obtain ⟨resets, result⟩ := respondWithReset_eq th localIp foreignIp s
    rw [result]
  have read : TcpHdr.read (p.content.take tcpHdrLen) = headerOf p := rfl
  unfold Stack.received handsOver
  simp only [header, read]
  by_cases least : (headerOf p).length < tcpHdrLen
  · rw [if_pos least, if_neg (by simp [least])]
  rw [if_neg least]
  cases checksum : checksumFails hw q src dst with
  | true => rw [if_pos rfl, if_neg (by simp)]
  | false =>
      have passed : (!decide ((headerOf p).length < tcpHdrLen) && !false) = true := by
        simp [least]
      rw [if_neg Bool.false_ne_true, passed, Bool.true_and]
      cases entry : s.tcbs ⟨dst, src, (headerOf p).dstPort, (headerOf p).srcPort⟩ with
      | some b =>
          cases here : s.blocks[b]? with
          | none =>
              rw [if_neg (by simp [here])]
              show (s.onTcb b _).crash = s.crash
              unfold Stack.onTcb
              rw [here]
          | some x =>
              rw [if_pos (by simp [here])]
              have clean : x.tcb.crash = none := healthy b x.tcb (by unfold tcb?; rw [here]; rfl)
              exact ⟨q, x.tcb, wf', same, Nat.not_lt.mp least, clean,
                .inl (onTcb_frame here _).1⟩
      | none =>
          have unknown := s.receivedUnknown_crash hw beyond iss memory
            ⟨dst, src, (headerOf p).dstPort, (headerOf p).srcPort⟩ (headerOf p) q
          simp only [Option.any_none, Bool.false_or, Option.isNone_none, Bool.true_and]
          split
          · rename_i listens
            rw [if_pos listens] at unknown
            exact ⟨q, _, wf', same, Nat.not_lt.mp least, rfl, .inr unknown⟩
          · rename_i deaf
            rw [if_neg deaf] at unknown
            exact unknown

/-- On every run: whatever packet arrives, no null header is read and no more is
cut off than there is, if and only if a segment that a connection or a listener
gets is at least as long as its header claims. -/
theorem received_headers (host : Host) (events : List StackEvent) (s : Stack Q)
    (run : exec (step host) {} events = some s) (alive : s.crash = none) (beyond : Nat → Byte)
    (iss : TcpSeq) (memory : Tcb) (p : Impl) (wf : p.WF) (src dst : BitVec 32) :
    (∀ c, (s.received host.hw beyond iss memory p src dst).crash = some c →
        c ≠ .nullHeader ∧ c ≠ .trimFront) ↔
      (s.handsOver host.hw p src dst = true → (headerOf p).length ≤ p.len) := by
  have outcome := received_crash (healthy_of_run run alive) host.hw beyond iss memory wf src dst
  cases handed : s.handsOver host.hw p src dst with
  | false =>
      rw [handed, if_neg Bool.false_ne_true, alive] at outcome
      rw [outcome]
      constructor
      · intro _ taken
        cases taken
      · intro _ c crashed
        cases crashed
  | true =>
      rw [handed, if_pos rfl] at outcome
      obtain ⟨q, t, wf', same, least, clean, handled⟩ := outcome
      have clear : Tcb.Clear Tcb.IsHeaderCrash t := by
        intro c crashed
        rw [clean] at crashed
        cases crashed
      constructor
      · intro fine _
        by_contra long
        have outside : q.len < (headerOf p).length := by omega
        have crashed : ∃ c, Tcb.IsHeaderCrash c ∧
            (s.received host.hw beyond iss memory p src dst).crash = some c := by
          rcases handled with segment | syn
          · rw [segment]
            exact Tcb.inputHandle_long beyond clean outside
          · rw [syn]
            exact Tcb.inputHandleListenState_long beyond iss clean outside
        obtain ⟨c, isHeader, crashed⟩ := crashed
        have tolerated := fine c crashed
        exact isHeader.elim tolerated.1 tolerated.2
      · intro whole c crashed
        have inside : (headerOf p).length ≤ q.len := same ▸ whole rfl
        have tolerated : ¬Tcb.IsHeaderCrash c := by
          rcases handled with segment | syn
          · rw [segment] at crashed
            exact clear.inputHandle beyond wf' least inside c crashed
          · rw [syn] at crashed
            exact clear.inputHandleListenState beyond iss _ q
              (fun _ => Tcb.takeHeader_ok wf' least inside _) c crashed
        exact not_or.mp tolerated

end Stack

/-! ## A SYN of 20 bytes -/

def exampleHost : Host := ⟨ethernet, 1, fun _ => true, 0x0a000001⟩

/-- A SYN for port 80 without options, whose header claims some length. -/
def synBytes (dataOffset : Byte) : List Byte :=
  [195, 80, 0, 80, 0, 0, 2, 188, 0, 0, 0, 0, dataOffset <<< 4, 2, 3, 232, 0, 0, 0, 0]

def inOneFragment (bytes : List Byte) : Impl :=
  ⟨bytes.length, [.outside bytes], defaultNrFrags, Impl.newData, internalDataSize⟩

def listenOn80 : List StackEvent := [.listen 80 100]

theorem inOneFragment_wf {bytes : List Byte} (few : bytes.length < 2 ^ 32) :
    (inOneFragment bytes).WF := by
  have one : 1 ≤ defaultNrFrags ∧ defaultNrFrags < 2 ^ 16 := by decide
  refine ⟨⟨List.length_replicate, one.1, one.2, .inl ⟨rfl, ?_⟩⟩, ?_, few⟩
  · intro f mem
    cases List.mem_singleton.mp mem
    trivial
  · simp [inOneFragment, Impl.total, Fragment.size]

/-- One that claims the 20 bytes it has is taken. -/
theorem received_headers_syn :
    ∃ s : Stack (ListQueue Nat), exec (Stack.step exampleHost) {} listenOn80 = some s ∧
      ∀ c, (s.received ethernet (fun _ => 0) ⟨100⟩ zeroMemory (inOneFragment (synBytes 5))
        0x0a000002 0x0a000001).crash = some c → c ≠ .nullHeader ∧ c ≠ .trimFront := by
  have run : exec (Stack.step exampleHost) ({} : Stack (ListQueue Nat)) listenOn80 = some _ :=
    (Option.some_get (by decide)).symm
  exact ⟨_, run, (Stack.received_headers exampleHost listenOn80 _ run (by decide) (fun _ => 0)
    ⟨100⟩ zeroMemory (inOneFragment (synBytes 5)) (inOneFragment_wf (by decide)) 0x0a000002
    0x0a000001).mpr (by decide)⟩

/-- One that claims 60 bytes gives the listener a null header, to which it adds the
length of the fixed part before the assertion of `trim_front` ends the process. -/
theorem long_header_is_null :
    ∃ s : Stack (ListQueue Nat), exec (Stack.step exampleHost) {} listenOn80 = some s ∧
      (s.received ethernet (fun _ => 0) ⟨100⟩ zeroMemory (inOneFragment (synBytes 15))
        0x0a000002 0x0a000001).crash = some .nullHeader := by
  have run : exec (Stack.step exampleHost) ({} : Stack (ListQueue Nat)) listenOn80 = some _ :=
    (Option.some_get (by decide)).symm
  exact ⟨_, run, by decide⟩

end ActorNet.Tcp
