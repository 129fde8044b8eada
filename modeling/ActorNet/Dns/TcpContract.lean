import ActorNet.Lib.Run
import ActorNet.Dns.Socket

/-!
# What c-ares may rely on

c-ares drives a TCP entry as it drives a socket: it offers the rest of its queue and
goes on from the count that `sendv` returned, and it takes the bytes that `recvfrom`
returned for the next of the stream. `Session` is an entry between c-ares and a
connection that is a stream in both directions.
-/

namespace ActorNet.Dns

open Lib

/-- The bytes that are read and not handed over yet. -/
def SockEntry.indata (e : SockEntry) : List Byte :=
  match e.entry with
  | .tcp tcp => tcp.indata
  | .udp _ => []

/-- The one attempt to connect a socket. -/
inductive Phase
  | unconnected
  | connecting
  | connected
  | refused
  deriving DecidableEq, Repr

def Future.isFailed {α : Type} : Future α → Bool
  | .failed _ => true
  | _ => false

/-- How the connection answers a read: with so many bytes at most, with an exception,
or later. -/
inductive Pick
  | now (most : Nat)
  | fail (code : Option Nat)
  | later
  deriving DecidableEq, Repr

/-- A call of `recvfrom`. -/
structure ReadCall where
  entry : SockEntry
  read : Future (List Byte)
  len : Nat
  deriving DecidableEq, Repr

/-- A TCP entry. -/
structure Session where
  entry : SockEntry
  phase : Phase
  /-- The size of the read that a continuation waits for. -/
  reading : Option Nat
  /-- The bytes of the write that a continuation waits for. -/
  writing : Option (List Byte)
  /-- What c-ares has queued for the connection, and the count it goes by. -/
  queued : List Byte
  sent : Nat
  /-- What was written to the connection. -/
  written : List Byte
  /-- What has come from the peer, what of it is not read, and what was returned. -/
  arrived : List Byte
  unread : List Byte
  ended : Bool
  returned : List Byte
  reads : List ReadCall
  /-- A stream was asked of a socket without a connection. -/
  strayed : Bool
  deriving DecidableEq, Repr

namespace Session

/-- The entry that `do_socket` makes. -/
def start : Session :=
  ⟨.newTcp, .unconnected, none, none, [], 0, [], [], [], false, [], [], false⟩

/-- What a read of `len` bytes takes, if it takes bytes or finds the end: the
connection is a FIFO, and its reads are empty for ever once the peer has closed. -/
def take (w : Session) (len most : Nat) : Option (List Byte) :=
  let buf := w.unread.take (min most len)
  if buf = [] ∧ len ≠ 0 ∧ ¬(w.ended ∧ w.unread = []) then none else some buf

/-- `read_up_to(len)`; `none` when the connection cannot answer so. -/
def readUpTo (w : Session) (len : Nat) : Pick → Option (Future (List Byte))
  | .now most => (w.take len most).map .ready
  | .fail code => some (.failed code)
  | .later => some .pending

/-- The callbacks, the continuations, and what c-ares and the peer do. -/
inductive Event
  | connect (sa : Option Nat) (f : Future Unit)
  | connected (ok : Bool)
  | sendv (vec : List (List Byte)) (f : Future Unit)
  | sent (ok : Bool)
  | recvfrom (len : Nat) (pick : Pick)
  | received (most : Option Nat)
  | queue (bytes : List Byte)
  | arrive (bytes : List Byte)
  | hangUp
  deriving DecidableEq, Repr

/-- How an attempt to connect goes on. -/
def attempt (sa : Option Nat) : Future Unit → Phase
  | .pending => if sa.isSome then .connecting else .unconnected
  | .failed _ => if sa.isSome then .refused else .unconnected
  | .ready () => if sa.isSome then .connected else .unconnected

/-- The count that c-ares takes from an answer. -/
def count : Ret → Nat
  | .value n => n
  | .error _ => 0

/-- What a `recvfrom` that comes back leaves behind. -/
def readBy (w : Session) (len : Nat) : Outcome → Session
  | .noConnection => { w with strayed := true }
  | .done c => { w with
      entry := c.entry
      reading := if c.deferred then some len else w.reading
      unread := w.unread.drop c.taken.length
      returned := w.returned ++ c.copied }

/-- What a `sendv` leaves behind. -/
def sendBy (w : Session) : Outcome → Session
  | .noConnection => { w with strayed := true }
  | .done c => { w with
      entry := c.entry
      writing := if c.deferred then some c.given else w.writing
      sent := w.sent + count c.ret
      written := if c.deferred then w.written else w.written ++ c.given }

/-- One event. c-ares connects a socket once, and offers buffers from the front of
what it takes for unsent. -/
def step (w : Session) : Event → Option Session
  | .connect sa f =>
      if w.phase ≠ .unconnected then none
      else (w.entry.connect sa f).map fun c => { w with entry := c.entry, phase := attempt sa f }
  | .connected ok =>
      if w.phase ≠ .connecting then none
      else some { w with
        entry := w.entry.connected ok
        phase := if ok then .connected else .refused }
  | .sendv vec f =>
      if ¬vec.flatten <+: w.queued.drop w.sent then none
      else some (w.sendBy (w.entry.sendv vec f))
  -- A failure is logged and the entry is ready again all the same.
  | .sent ok => w.writing.map fun bytes => { w with
      entry := w.entry.sendDone
      writing := none
      written := if ok then w.written ++ bytes else w.written }
  | .recvfrom len pick =>
      (w.readUpTo len pick).map fun read =>
        let w := { w with reads := ⟨w.entry, read, len⟩ :: w.reads }
        -- A third turn of the loop is like the second.
        match w.entry.recvfrom read .pending 2 len with
        | none => w
        | some outcome => w.readBy len outcome
  | .received most => w.reading.bind fun len => match most with
      | none => some { w with entry := w.entry.readDone none, reading := none }
      | some most => (w.take len most).map fun buf => { w with
          entry := w.entry.readDone (some buf)
          reading := none
          unread := w.unread.drop buf.length }
  | .queue bytes => some { w with queued := w.queued ++ bytes }
  | .arrive bytes =>
      if w.ended then none
      else some { w with arrived := w.arrived ++ bytes, unread := w.unread ++ bytes }
  | .hangUp => some { w with ended := true }

/-- What was accepted: it is written, or a write of it is under way. -/
def accepted (w : Session) : List Byte := w.written ++ w.writing.getD []

/-- The contract of a stream socket. -/
structure Contract (w : Session) : Prop where
  /-- c-ares counts what was accepted. -/
  counted : w.sent = w.accepted.length
  /-- That is what it queued, from the front. -/
  written : w.accepted <+: w.queued
  /-- What was returned is the stream, as far as it is read and handed over. -/
  received : w.returned ++ w.entry.indata ++ w.unread = w.arrived
  /-- Every read comes back. -/
  finite : ∀ c ∈ w.reads, ∃ turns, (c.entry.recvfrom c.read .pending turns c.len).isSome
  connected : w.strayed = false

/-- What a step must not meet: a write of another number of bytes than buffers, a
read that finds the end of the stream at once, either of them once the connection
was refused, or the failure of a write that was waited for and had bytes. -/
def Met (w : Session) : Event → Prop
  | .sendv vec f => w.entry.pollOut = true → w.phase ≠ .refused ∧
      (f.isFailed = false → vec.flatten.length = vec.length)
  | .sent ok => ok = false → w.writing.getD [] = []
  | .recvfrom len pick => w.entry.pollIn = true → w.phase ≠ .refused ∧
      (w.entry.indata = [] → w.readUpTo len pick ≠ some (.ready []))
  | _ => True

instance (w : Session) (e : Event) : Decidable (w.Met e) := by
  cases e <;> unfold Met <;> infer_instance

variable {w w' : Session} {e : Event} {tcp : TcpEntry}

/-! ## The invariant -/

/-- What the entry is like in the phase of its session. -/
structure Shape (w : Session) (tcp : TcpEntry) : Prop where
  kind : w.entry.entry = .tcp tcp
  opened : w.entry.closed = false
  /-- Before c-ares has been told of a connection nothing is ready. -/
  quiet : w.phase = .unconnected ∨ w.phase = .connecting →
    w.entry.pollIn = false ∧ w.entry.pollOut = false
  /-- Without a connection nothing has happened to the socket. -/
  idle : w.phase ≠ .connected →
    tcp = ⟨false, false, false, []⟩ ∧ w.reading = none ∧ w.writing = none
  connected : w.phase = .connected → tcp.socket = true
  /-- A read that is waited for is the only one. -/
  alone : w.reading.isSome → w.entry.pollIn = false ∧ tcp.indata = []
  /-- So is a write. -/
  busy : w.writing.isSome → w.entry.pollOut = false

theorem Shape.indata (shape : w.Shape tcp) : w.entry.indata = tcp.indata := by
  unfold SockEntry.indata
  rw [shape.kind]

theorem Shape.keeps (shape : w.Shape tcp) {e : SockEntry} {tcp' : TcpEntry}
    (kind : e.entry = .tcp tcp') (same : tcp'.indata = tcp.indata) :
    e.indata = w.entry.indata := by
  unfold SockEntry.indata
  rw [kind, shape.kind]
  exact same

/-- The contract is kept, and the entry fits its phase. -/
structure Sound (w : Session) : Prop where
  contract : w.Contract
  shape : ∃ tcp, w.Shape tcp

theorem sound_start : start.Sound := by
  refine ⟨⟨rfl, List.prefix_rfl, rfl, fun c mem => (nomatch mem), rfl⟩, _, rfl, rfl,
    fun _ => ⟨rfl, rfl⟩, fun _ => ⟨rfl, rfl, rfl⟩, fun same => (nomatch same), fun none_ => ?_,
    fun none_ => ?_⟩
  · cases none_
  · cases none_

/-- What no byte has to do with. -/
theorem Contract.entry (contract : w.Contract) {e : SockEntry} (same : e.indata = w.entry.indata)
    (phase : Phase) (reading : Option Nat) :
    Contract { w with entry := e, phase := phase, reading := reading } :=
  ⟨contract.counted, contract.written, by rw [← contract.received, ← same], contract.finite,
    contract.connected⟩

/-- Where something is ready, the socket is connected or was refused. -/
theorem Shape.settled (shape : w.Shape tcp) (ready : w.entry.pollIn = true ∨ w.entry.pollOut = true)
    (open_ : w.phase ≠ .refused) : w.phase = .connected := by
  cases phase : w.phase with
  | connected => rfl
  | refused => exact absurd phase open_
  | unconnected =>
      obtain ⟨noIn, noOut⟩ := shape.quiet (.inl phase)
      rw [noIn, noOut] at ready
      exact ready.elim (fun h => nomatch h) fun h => nomatch h
  | connecting =>
      obtain ⟨noIn, noOut⟩ := shape.quiet (.inr phase)
      rw [noIn, noOut] at ready
      exact ready.elim (fun h => nomatch h) fun h => nomatch h

/-- Where a write is possible none is waited for. -/
theorem Shape.notBusy (shape : w.Shape tcp) (ready : w.entry.pollOut = true) : w.writing = none := by
  cases writing : w.writing with
  | none => rfl
  | some bytes =>
      have busy := shape.busy (by rw [writing]; rfl)
      rw [ready] at busy
      cases busy

theorem Shape.accepted_ready (shape : w.Shape tcp) (ready : w.entry.pollOut = true) :
    w.accepted = w.written := by
  rw [accepted, shape.notBusy ready, Option.getD_none, List.append_nil]

/-! ## Steps -/

theorem Sound.connect (sound : w.Sound) {sa : Option Nat} {f : Future Unit}
    (next : w.step (.connect sa f) = some w') : w'.Sound := by
  obtain ⟨contract, tcp, shape⟩ := sound
  obtain ⟨fresh, next⟩ := Option.ite_none_left_eq_some.mp next
  have fresh := not_not.mp fresh
  obtain ⟨c, answered, rfl⟩ := Option.map_eq_some_iff.mp next
  obtain ⟨noIn, noOut⟩ := shape.quiet (.inl fresh)
  obtain ⟨rfl, reading, writing⟩ := shape.idle (by rw [fresh]; decide)
  unfold SockEntry.connect at answered
  rw [shape.opened, noIn, noOut, shape.kind] at answered
  have quiet (phase : Phase) : phase = .unconnected ∨ phase = .connecting → _ ∧ _ :=
    fun _ => ⟨noIn, noOut⟩
  have alone : w.reading.isSome → w.entry.pollIn = false ∧ ([] : List Byte) = [] :=
    fun _ => ⟨noIn, rfl⟩
  have busy (pollOut : Bool) (waits : w.writing.isSome) : pollOut = false := by
    rw [writing] at waits
    cases waits
  cases sa with
  | none =>
      obtain rfl := Option.some.inj answered
      have phase : attempt none f = .unconnected := by cases f <;> rfl
      refine ⟨contract.entry rfl _ _, _, shape.kind, shape.opened, quiet _,
        fun _ => ⟨rfl, reading, writing⟩, fun same => ?_, alone, busy _⟩
      rw [phase] at same
      cases same
  | some sa =>
      cases f with
      | pending =>
          obtain rfl := Option.some.inj answered
          exact ⟨contract.entry (shape.keeps rfl rfl) _ _, _, rfl, rfl, fun _ => ⟨rfl, rfl⟩,
            fun _ => ⟨rfl, reading, writing⟩, fun same => (nomatch same), fun _ => ⟨rfl, rfl⟩,
            busy _⟩
      | failed code =>
          obtain rfl := Option.some.inj answered
          refine ⟨contract.entry (shape.keeps rfl rfl) _ _, _, rfl, rfl,
            fun phase => phase.elim (fun h => (nomatch h)) fun h => (nomatch h),
            fun _ => ⟨rfl, reading, writing⟩, fun same => (nomatch same), fun pending => ?_, busy _⟩
          rw [reading] at pending
          cases pending
      | ready =>
          obtain rfl := Option.some.inj answered
          refine ⟨contract.entry (by rw [shape.indata]; rfl) _ _, _, rfl, rfl,
            fun phase => phase.elim (fun h => (nomatch h)) fun h => (nomatch h),
            fun other => absurd rfl other, fun _ => rfl, fun pending => ?_, busy _⟩
          rw [reading] at pending
          cases pending

theorem Sound.connected (sound : w.Sound) {ok : Bool} (next : w.step (.connected ok) = some w') :
    w'.Sound := by
  obtain ⟨contract, tcp, shape⟩ := sound
  obtain ⟨waits, next⟩ := Option.ite_none_left_eq_some.mp next
  have waits := not_not.mp waits
  obtain rfl := Option.some.inj next
  obtain ⟨rfl, reading, writing⟩ := shape.idle (by rw [waits]; decide)
  have entry : w.entry.connected ok = { w.entry with
      entry := .tcp ⟨ok, false, false, []⟩, pollIn := true, pollOut := true } := by
    unfold SockEntry.connected
    rw [shape.kind]
    cases ok <;> rfl
  have kind : (w.entry.connected ok).entry = .tcp ⟨ok, false, false, []⟩ := by rw [entry]
  have opened : (w.entry.connected ok).closed = false := by rw [entry, ← shape.opened]
  refine ⟨contract.entry (shape.keeps kind rfl) _ _, _, kind, opened, fun phase => ?_,
    fun other => ?_, fun same => ?_, fun pending => ?_, fun waits => ?_⟩
  · cases ok <;> exact phase.elim (fun h => (nomatch h)) fun h => (nomatch h)
  · cases ok
    · exact ⟨rfl, reading, writing⟩
    · exact absurd rfl other
  · cases ok
    · cases same
    · rfl
  · change w.reading.isSome at pending
    rw [reading] at pending
    cases pending
  · change w.writing.isSome at waits
    rw [writing] at waits
    cases waits

/-- The entry, once its output is there. -/
theorem Shape.output (shape : w.Shape tcp) (phase : w.phase = .connected) {pollOut : Bool}
    {writing : Option (List Byte)} (busy : writing.isSome → pollOut = false) (sent : Nat)
    (written : List Byte) : Shape { w with
      entry := { w.entry with entry := .tcp { tcp with output := true }, pollOut := pollOut }
      writing := writing
      sent := sent
      written := written } { tcp with output := true } :=
  ⟨rfl, shape.opened, fun early => (by rw [phase] at early; exact early.elim nofun nofun),
    fun other => absurd phase other, shape.connected, shape.alone, busy⟩

theorem sendBy_refuse (w : Session) (e : SockEntry) (errno : Option Nat) :
    w.sendBy (.done (e.refuse errno)) = { w with entry := e } := by
  simp only [sendBy, SockEntry.refuse, count, Bool.false_eq_true, if_false, List.append_nil,
    Nat.add_zero]

theorem Sound.sendv (sound : w.Sound) {vec : List (List Byte)} {f : Future Unit}
    (met : w.Met (.sendv vec f)) (next : w.step (.sendv vec f) = some w') : w'.Sound := by
  obtain ⟨contract, tcp, shape⟩ := sound
  obtain ⟨offered, next⟩ := Option.ite_none_left_eq_some.mp next
  have offered := not_not.mp offered
  obtain rfl := Option.some.inj next
  unfold SockEntry.sendv
  rw [shape.kind]
  dsimp only
  by_cases ready : w.entry.pollOut = true
  · rw [if_neg (not_not.mpr ready)]
    obtain ⟨standing, counts⟩ := met ready
    have phase := shape.settled (.inr ready) standing
    have socket : ¬(¬tcp.output = true ∧ ¬tcp.socket = true) :=
      fun shut => shut.2 (shape.connected phase)
    rw [if_neg socket]
    have still := shape.notBusy ready
    have before := shape.accepted_ready ready
    -- What is offered comes next in the queue, and c-ares will count it.
    have more (given : f.isFailed = false) (pollOut : Bool) {writing : Option (List Byte)}
        {written : List Byte} (all : written ++ writing.getD [] = w.written ++ vec.flatten) :
        Contract { w with
          entry := { w.entry with entry := .tcp { tcp with output := true }, pollOut := pollOut }
          writing := writing
          sent := w.sent + vec.length
          written := written } := by
      refine ⟨?_, ?_, ?_, contract.finite, contract.connected⟩
      · show w.sent + vec.length = (written ++ writing.getD []).length
        rw [all, List.length_append, contract.counted, before, counts given]
      · show written ++ writing.getD [] <+: w.queued
        obtain ⟨rest, queued⟩ := contract.written
        rw [← queued, contract.counted, List.drop_left] at offered
        rw [all, ← before, ← queued]
        exact (List.prefix_append_right_inj _).mpr offered
      · have received := contract.received
        rw [shape.indata] at received
        exact received
    cases f with
    | failed code =>
        show (w.sendBy (.done (SockEntry.refuse _ code))).Sound
        rw [sendBy_refuse]
        exact ⟨contract.entry (by rw [shape.indata]; rfl) w.phase w.reading, _,
          shape.output phase shape.busy _ _⟩
    | ready =>
        refine ⟨more rfl _ ?_, _, shape.output phase shape.busy _ _⟩
        show w.written ++ vec.flatten ++ w.writing.getD [] = _
        rw [still, Option.getD_none, List.append_nil]
    | pending => exact ⟨more rfl _ rfl, _, shape.output phase (fun _ => rfl) _ _⟩
  · rw [if_pos ready, sendBy_refuse]
    exact ⟨contract, tcp, shape⟩

/-- What was accepted is written, or there was nothing to write. -/
theorem Sound.sent (sound : w.Sound) {ok : Bool} (met : w.Met (.sent ok))
    (next : w.step (.sent ok) = some w') : w'.Sound := by
  obtain ⟨contract, tcp, shape⟩ := sound
  obtain ⟨bytes, writing, rfl⟩ := Option.map_eq_some_iff.mp next
  have phase : w.phase = .connected := by
    by_contra other
    rw [(shape.idle other).2.2] at writing
    cases writing
  have same : (if ok then w.written ++ bytes else w.written) ++ [] = w.accepted := by
    rw [List.append_nil, accepted]
    cases ok with
    | true => rw [writing]; rfl
    | false => rw [met rfl, List.append_nil]; rfl
  refine ⟨⟨contract.counted.trans (congrArg List.length same.symm), ?_, contract.received,
    contract.finite, contract.connected⟩, tcp, shape.kind, shape.opened, fun early => ?_,
    fun other => absurd phase other, shape.connected, shape.alone, fun waits => nomatch waits⟩
  · show _ ++ [] <+: w.queued
    rw [same]
    exact contract.written
  · change w.phase = _ ∨ w.phase = _ at early
    rw [phase] at early
    exact early.elim nofun nofun

/-- What a read of the connection takes is the front of what is there. -/
theorem take_prefix {len most : Nat} {buf : List Byte} (taken : w.take len most = some buf) :
    buf ++ w.unread.drop buf.length = w.unread := by
  obtain ⟨_, same⟩ := Option.ite_none_left_eq_some.mp taken
  obtain rfl := Option.some.inj same
  exact List.prefix_iff_eq_append.mp (List.take_prefix _ _)

theorem readBy_refuse (w : Session) (len : Nat) (e : SockEntry) (errno : Option Nat) :
    w.readBy len (.done (e.refuse errno)) = { w with entry := e } := by
  simp only [readBy, SockEntry.refuse, Bool.false_eq_true, if_false, List.length_nil,
    List.drop_zero, List.append_nil]

/-- A connected session after a read. -/
theorem Shape.read (shape : w.Shape tcp) (contract : w.Contract) (phase : w.phase = .connected)
    (tcp' : TcpEntry) (socket : tcp'.socket = tcp.socket) {pollIn : Bool} {reading : Option Nat}
    (alone : reading.isSome → pollIn = false ∧ tcp'.indata = []) {unread returned : List Byte}
    (received : returned ++ tcp'.indata ++ unread = w.arrived) {reads : List ReadCall}
    (finite : ∀ c ∈ reads, ∃ turns, (c.entry.recvfrom c.read .pending turns c.len).isSome) :
    Sound { w with
      entry := { w.entry with entry := .tcp tcp', pollIn := pollIn }
      reading := reading
      unread := unread
      returned := returned
      reads := reads } := by
  refine ⟨⟨contract.counted, contract.written, received, finite, contract.connected⟩, tcp', rfl,
    shape.opened, fun early => ?_, fun other => absurd phase other,
    fun phase => socket.trans (shape.connected phase), alone, shape.busy⟩
  change w.phase = _ ∨ w.phase = _ at early
  rw [phase] at early
  exact early.elim nofun nofun

/-- Bytes are handed over before more are read. -/
theorem Sound.recvfrom (sound : w.Sound) {len : Nat} {pick : Pick}
    (met : w.Met (.recvfrom len pick)) (next : w.step (.recvfrom len pick) = some w') :
    w'.Sound := by
  obtain ⟨contract, tcp, shape⟩ := sound
  obtain ⟨read, possible, rfl⟩ := Option.map_eq_some_iff.mp next
  have received := contract.received
  rw [shape.indata] at received
  have finite (here : ∃ turns, (w.entry.recvfrom read .pending turns len).isSome) :
      ∀ c ∈ ⟨w.entry, read, len⟩ :: w.reads,
        ∃ turns, (c.entry.recvfrom c.read .pending turns c.len).isSome := by
    intro c mem
    rcases List.mem_cons.mp mem with rfl | old
    · exact here
    · exact contract.finite c old
  dsimp only
  by_cases ready : w.entry.pollIn = true
  · obtain ⟨standing, more⟩ := met ready
    have phase := shape.settled (.inl ready) standing
    by_cases here : tcp.indata = []
    · have answer : w.entry.recvfrom read .pending 2 len = _ :=
        SockEntry.recvfrom_read shape.kind shape.opened ready here (shape.connected phase)
      have comes : ∃ turns, (w.entry.recvfrom read .pending turns len).isSome := by
        refine ⟨2, ?_⟩
        rw [SockEntry.recvfrom_eq shape.opened ready]
        refine SockEntry.recvLoop_tcp shape.kind (fun _ same => ?_) 0 []
        exact more (shape.indata.trans here) (same ▸ possible)
      rw [here, List.append_nil] at received
      rw [answer]
      cases read with
      | pending =>
          refine shape.read contract phase { tcp with input := true } rfl
            (fun _ => ⟨rfl, here⟩) ?_ (finite comes)
          show w.returned ++ [] ++ tcp.indata ++ w.unread = w.arrived
          rw [here, List.append_nil, List.append_nil, received]
      | failed code =>
          show (readBy _ len (.done (SockEntry.refuse _ code))).Sound
          rw [readBy_refuse]
          refine shape.read contract phase { tcp with input := true } rfl
            (fun waits => ⟨(shape.alone waits).1, here⟩) ?_ (finite comes)
          show w.returned ++ tcp.indata ++ w.unread = w.arrived
          rw [here, List.append_nil, received]
      | ready buf =>
          have some_ : buf ≠ [] := by
            rintro rfl
            exact more (shape.indata.trans here) possible
          dsimp only
          rw [if_neg some_]
          have taken : buf ++ w.unread.drop buf.length = w.unread := by
            cases pick with
            | now most =>
                obtain ⟨_, taken, same⟩ := Option.map_eq_some_iff.mp possible
                cases same
                exact take_prefix taken
            | fail code => cases possible
            | later => cases possible
          refine shape.read contract phase
            { tcp with input := true, indata := buf.drop (min len buf.length) } rfl
            (fun waits => ?_) ?_ (finite comes)
          · have waits : w.reading.isSome := waits
            have quiet := (shape.alone waits).1
            rw [ready] at quiet
            cases quiet
          · rw [List.append_assoc w.returned, List.take_append_drop, List.append_assoc, taken,
              received]
    · have answer : w.entry.recvfrom read .pending 2 len = _ :=
        SockEntry.recvfrom_indata shape.kind shape.opened ready here 1
      rw [answer]
      refine shape.read contract phase
        { tcp with indata := tcp.indata.drop (min len tcp.indata.length) } rfl
        (fun waits => ?_) ?_ (finite ⟨2, by rw [answer]; rfl⟩)
      · have waits : w.reading.isSome := waits
        exact absurd (shape.alone waits).2 here
      · show w.returned ++ _ ++ _ ++ w.unread = _
        rw [List.append_assoc w.returned, List.take_append_drop, received]
  · have answer : w.entry.recvfrom read .pending 2 len =
        some (.done (w.entry.refuse (some EWOULDBLOCK))) := by
      unfold SockEntry.recvfrom
      rw [shape.opened, if_pos ready]
      rfl
    rw [answer]
    dsimp only
    rw [readBy_refuse]
    exact ⟨⟨contract.counted, contract.written, contract.received,
      finite ⟨2, by rw [answer]; rfl⟩, contract.connected⟩, tcp, shape.kind, shape.opened,
      shape.quiet, shape.idle, shape.connected, shape.alone, shape.busy⟩

/-- What was waited for is read, or not. -/
theorem Sound.received (sound : w.Sound) {most : Option Nat}
    (next : w.step (.received most) = some w') : w'.Sound := by
  obtain ⟨contract, tcp, shape⟩ := sound
  obtain ⟨len, reading, next⟩ := Option.bind_eq_some_iff.mp next
  obtain ⟨quiet, here⟩ := shape.alone (by rw [reading]; rfl)
  have phase : w.phase = .connected := by
    by_contra other
    rw [(shape.idle other).2.1] at reading
    cases reading
  have received := contract.received
  rw [shape.indata, here, List.append_nil] at received
  have entry (buf : Option (List Byte)) : w.entry.readDone buf = { w.entry with
      entry := .tcp { tcp with indata := buf.getD tcp.indata }, pollIn := true } := by
    unfold SockEntry.readDone
    rw [shape.kind]
  cases most with
  | none =>
      obtain rfl := Option.some.inj next
      rw [entry]
      refine shape.read contract phase tcp rfl (fun waits => ?_) ?_ contract.finite
      · cases waits
      show w.returned ++ tcp.indata ++ w.unread = _
      rw [here, List.append_nil, received]
  | some most =>
      obtain ⟨buf, taken, rfl⟩ := Option.map_eq_some_iff.mp next
      rw [entry]
      refine shape.read contract phase { tcp with indata := buf } rfl (fun waits => ?_) ?_
        contract.finite
      · cases waits
      show w.returned ++ buf ++ _ = _
      rw [List.append_assoc, take_prefix taken, received]

/-- One event. -/
theorem Sound.step (sound : w.Sound) (met : w.Met e) (next : w.step e = some w') : w'.Sound := by
  cases e with
  | connect sa f => exact sound.connect next
  | connected ok => exact sound.connected next
  | sendv vec f => exact sound.sendv met next
  | sent ok => exact sound.sent met next
  | recvfrom len pick => exact sound.recvfrom met next
  | received most => exact sound.received next
  | queue bytes =>
      obtain rfl := Option.some.inj next
      obtain ⟨contract, tcp, shape⟩ := sound
      exact ⟨⟨contract.counted, contract.written.trans (List.prefix_append _ _), contract.received,
        contract.finite, contract.connected⟩, tcp, shape.kind, shape.opened, shape.quiet,
        shape.idle, shape.connected, shape.alone, shape.busy⟩
  | arrive bytes =>
      obtain ⟨_, next⟩ := Option.ite_none_left_eq_some.mp next
      obtain rfl := Option.some.inj next
      obtain ⟨contract, tcp, shape⟩ := sound
      refine ⟨⟨contract.counted, contract.written, ?_, contract.finite, contract.connected⟩, tcp,
        shape.kind, shape.opened, shape.quiet, shape.idle, shape.connected, shape.alone, shape.busy⟩
      show _ ++ (w.unread ++ bytes) = w.arrived ++ bytes
      rw [← contract.received, List.append_assoc _ w.unread]
  | hangUp =>
      obtain rfl := Option.some.inj next
      obtain ⟨contract, tcp, shape⟩ := sound
      exact ⟨⟨contract.counted, contract.written, contract.received, contract.finite,
        contract.connected⟩, tcp, shape.kind, shape.opened, shape.quiet, shape.idle,
        shape.connected, shape.alone, shape.busy⟩

/-! ## The steps that break the contract -/

/-- Once the connection was refused there is no stream to ask for. -/
theorem Shape.refused (shape : w.Shape tcp) (phase : w.phase = .refused) :
    w.entry.entry = .tcp ⟨false, false, false, []⟩ := by
  obtain ⟨rfl, _⟩ := shape.idle (by rw [phase]; decide)
  exact shape.kind

theorem met_of_sendv {vec : List (List Byte)} {f : Future Unit} (sound : w.Sound)
    (next : w.step (.sendv vec f) = some w') (contract' : w'.Contract) :
    w.Met (.sendv vec f) := by
  obtain ⟨contract, tcp, shape⟩ := sound
  obtain ⟨_, next⟩ := Option.ite_none_left_eq_some.mp next
  obtain rfl := Option.some.inj next
  intro ready
  have notRefused : w.phase ≠ .refused := by
    intro phase
    have strays : w.entry.sendv vec f = .noConnection := by
      unfold SockEntry.sendv
      rw [shape.refused phase]
      dsimp only
      rw [if_neg (not_not.mpr ready)]
      rfl
    have connected := contract'.connected
    rw [strays] at connected
    cases connected
  refine ⟨notRefused, fun given => ?_⟩
  have phase := shape.settled (.inr ready) notRefused
  have socket : ¬(¬tcp.output = true ∧ ¬tcp.socket = true) :=
    fun shut => shut.2 (shape.connected phase)
  have still := shape.notBusy ready
  have before := shape.accepted_ready ready
  have counted : w.sent + vec.length = (w.written ++ vec.flatten).length := by
    have counted := contract'.counted
    unfold SockEntry.sendv at counted
    rw [shape.kind] at counted
    dsimp only at counted
    rw [if_neg (not_not.mpr ready), if_neg socket] at counted
    cases f with
    | failed code => cases given
    | ready =>
        change _ = (w.written ++ vec.flatten ++ w.writing.getD []).length at counted
        rw [still, Option.getD_none, List.append_nil] at counted
        exact counted
    | pending => exact counted
  rw [List.length_append, contract.counted, before] at counted
  omega

/-- A failure takes the bytes out of what was accepted, and c-ares goes on counting
them. -/
theorem met_of_sent {ok : Bool} (sound : w.Sound) (next : w.step (.sent ok) = some w')
    (contract' : w'.Contract) : w.Met (.sent ok) := by
  rintro rfl
  obtain ⟨bytes, writing, rfl⟩ := Option.map_eq_some_iff.mp next
  have counted := sound.contract.counted
  have counted' : w.sent = (w.written ++ []).length := contract'.counted
  unfold accepted at counted
  rw [List.length_append] at counted counted'
  apply List.eq_nil_of_length_eq_zero
  rw [List.length_nil] at counted'
  omega

theorem met_of_recvfrom {len : Nat} {pick : Pick} (sound : w.Sound)
    (next : w.step (.recvfrom len pick) = some w') (contract' : w'.Contract) :
    w.Met (.recvfrom len pick) := by
  obtain ⟨_, tcp, shape⟩ := sound
  obtain ⟨read, possible, rfl⟩ := Option.map_eq_some_iff.mp next
  intro ready
  have notRefused : w.phase ≠ .refused := by
    intro phase
    have strays : w.entry.recvfrom read .pending 2 len = some .noConnection :=
      SockEntry.recvfrom_noConnection (shape.refused phase) shape.opened ready rfl ⟨rfl, rfl⟩ 1
    have connected := contract'.connected
    dsimp only at connected
    rw [strays] at connected
    cases connected
  refine ⟨notRefused, fun here ended => ?_⟩
  have phase := shape.settled (.inl ready) notRefused
  rw [shape.indata] at here
  obtain rfl := Option.some.inj (possible.symm.trans ended)
  have answer : w.entry.recvfrom (.ready []) .pending 2 len = none :=
    SockEntry.recvfrom_read shape.kind shape.opened ready here (shape.connected phase)
  -- The call is on record, and it does not come back.
  have finite := contract'.finite ⟨w.entry, .ready [], len⟩ (by
    dsimp only
    rw [answer]
    exact List.mem_cons_self)
  obtain ⟨turns, comes⟩ := finite
  rw [SockEntry.recvfrom_eq shape.opened ready, SockEntry.recvLoop_endless shape.kind here
    (.inr (shape.connected phase))] at comes
  cases comes

theorem met_of_contract (sound : w.Sound) (next : w.step e = some w') (contract : w'.Contract) :
    w.Met e := by
  cases e with
  | sendv vec f => exact met_of_sendv sound next contract
  | sent ok => exact met_of_sent sound next contract
  | recvfrom len pick => exact met_of_recvfrom sound next contract
  | _ => trivial

/-- The runs that keep the contract in every state. -/
theorem contract_iff {es : List Event} (run : exec step start es = some w) :
    Always step Contract start es ↔ Along step Met start es :=
  Along.iff_always (I := Sound) (fun _ sound => sound.contract) (fun _ _ _ => Sound.step)
    (fun _ _ _ => met_of_contract) sound_start run

/-! ## A byte in each direction -/

/-- A connection that takes a while, a byte that is queued and written, and a byte
that comes while a read waits for it. -/
def oneByte : List Event :=
  [.connect (some 1) .pending, .connected true, .queue [7], .sendv [[7]] .pending,
    .recvfrom 2 .later, .sent true, .arrive [8], .received (some 2), .recvfrom 2 .later]

theorem contract_oneByte : ∃ w, exec step start oneByte = some w ∧
    (Always step Contract start oneByte ↔ Along step Met start oneByte) ∧
      Along step Met start oneByte := by
  have runs : (exec step start oneByte).isSome := by decide
  obtain ⟨w, run⟩ := Option.isSome_iff_exists.mp runs
  exact ⟨w, run, contract_iff run, by decide⟩

/-- A query of 31 bytes in one buffer is written, and c-ares is told of one byte; a
read at the end of the stream does not come back; a refused connection is asked
for a stream; and a byte is lost, of a write that fails once c-ares was told of it,
before the next one is written. -/
theorem contract_broken :
    (∃ w, exec step start [.connect (some 1) (.ready ()), .queue (List.replicate 31 7),
      .sendv [List.replicate 31 7] (.ready ())] = some w ∧ w.written.length = 31 ∧ w.sent = 1) ∧
    (∃ w c, exec step start [.connect (some 1) (.ready ()), .hangUp, .recvfrom 2 (.now 2)] =
      some w ∧ c ∈ w.reads ∧
        ∀ turns, c.entry.recvfrom c.read .pending turns c.len = none) ∧
    (∃ w, exec step start [.connect (some 1) .pending, .connected false, .queue [7],
      .sendv [[7]] (.ready ())] = some w ∧ w.strayed = true) ∧
    (∃ w, exec step start [.connect (some 1) (.ready ()), .queue [7, 8], .sendv [[7]] .pending,
      .sent false, .sendv [[8]] (.ready ())] = some w ∧ w.written = [8] ∧ w.sent = 2) ∧
    ¬∀ es w, exec step start es = some w → w.Contract := by
  refine ⟨⟨_, rfl, rfl, rfl⟩, ⟨_, ⟨⟨.tcp ⟨true, false, false, []⟩, true, true, 0, false⟩, .ready [], 2⟩,
    rfl, List.mem_cons_self, fun turns => ?_⟩, ⟨_, rfl, rfl⟩, ⟨_, rfl, rfl, rfl⟩, fun all => ?_⟩
  · rw [SockEntry.recvfrom_eq rfl rfl]
    exact SockEntry.recvLoop_endless rfl rfl (.inr rfl) turns []
  · have contract := all [.connect (some 1) (.ready ()), .queue (List.replicate 31 7),
      .sendv [List.replicate 31 7] (.ready ())] _ rfl
    exact absurd contract.counted (by decide)

end Session

end ActorNet.Dns
