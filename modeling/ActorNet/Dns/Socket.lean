import ActorNet.Lib.Bytes

/-!
# The sockets of the resolver

`dns_resolver::impl` hands c-ares sockets that are entries of `_sockets`, and
answers its socket callbacks from the futures of the network stack: at once when a
future is available, else with -1 and `EWOULDBLOCK`, and a continuation puts the
result into the entry later. These are the callbacks on one entry.
-/

namespace ActorNet.Dns

open Lib

/-- A future of the network stack when it is looked at. An exception may be a
`system_error`, which has a code. -/
inductive Future (α : Type)
  | ready (value : α)
  | failed (code : Option Nat)
  | pending
  deriving DecidableEq, Repr

/-- `errno` of a callback that would have to wait. -/
def EWOULDBLOCK : Nat := 11

/-- What a callback returns: a number, or -1 and what it sets `errno` to, if it
does. -/
inductive Ret
  | value (n : Nat)
  | error (errno : Option Nat)
  deriving DecidableEq, Repr

/-- `tcp_entry`: whether `socket` holds a connection, and whether `in` and `out`
are there. -/
structure TcpEntry where
  socket : Bool
  input : Bool
  output : Bool
  indata : List Byte
  deriving DecidableEq, Repr

structure Datagram where
  src : Nat
  data : List Byte
  deriving DecidableEq, Repr

/-- `udp_entry`, of a channel. -/
structure UdpEntry where
  input : Option Datagram
  dst : Nat
  deriving DecidableEq, Repr

/-- The union of a `sock_entry`. -/
inductive Entry
  | tcp (tcp : TcpEntry)
  | udp (udp : UdpEntry)
  deriving DecidableEq, Repr

/-- `sock_entry`; `avail` as its bits `POLLIN` and `POLLOUT`. -/
structure SockEntry where
  entry : Entry
  pollIn : Bool
  pollOut : Bool
  pending : Int
  closed : Bool
  deriving DecidableEq, Repr

/-- A new entry, of a `connected_socket` that is not connected. -/
def SockEntry.newTcp : SockEntry := ⟨.tcp ⟨false, false, false, []⟩, false, false, 0, false⟩

/-- A new entry of a channel. -/
def SockEntry.newUdp : SockEntry := ⟨.udp ⟨none, 0⟩, false, false, 0, false⟩

/-- What a callback leaves behind: the entry, what it returns, the bytes it copied to
its caller and where they are from, and whether a continuation is waiting for its
future. `taken` is what it read from the connection, `given` what it wrote to it or
sent. -/
structure Call where
  entry : SockEntry
  ret : Ret
  copied : List Byte
  src : Option Nat
  deferred : Bool
  taken : List Byte
  given : List Byte
  deriving DecidableEq, Repr

/-- A callback returns, or asks a `connected_socket` without a connection for its
stream. -/
inductive Outcome
  | done (call : Call)
  | noConnection
  deriving DecidableEq, Repr

namespace SockEntry

/-- -1, and nothing happened. -/
def refuse (e : SockEntry) (errno : Option Nat) : Call := ⟨e, .error errno, [], none, false, [], []⟩

/-- -1 with `EWOULDBLOCK`, and a continuation is waiting. -/
def wait (e : SockEntry) : Call := ⟨e, .error (some EWOULDBLOCK), [], none, true, [], []⟩

/-- A number, and nothing else. -/
def answer (e : SockEntry) (n : Nat) : Call := ⟨e, .value n, [], none, false, [], []⟩

/-- `do_connect`. The address is missing when it is not an ipv4 address; `none` is the
assertion that `avail` is 0. -/
def connect (e : SockEntry) (sa : Option Nat) (f : Future Unit) : Option Call :=
  if e.closed then some (e.refuse none)
  else match sa with
    | none => some (e.refuse none)
    | some sa =>
        if e.pollIn ∨ e.pollOut then none
        else
          let e := { e with pollIn := true, pollOut := true }
          match e.entry with
          | .tcp tcp => match f with
              | .pending => some { e with pollIn := false, pollOut := false }.wait
              | .failed _ => some (e.refuse none)
              | .ready () =>
                  some ({ e with entry := .tcp { tcp with socket := true } }.answer 0)
          | .udp udp => some ({ e with entry := .udp { udp with dst := sa } }.answer 0)

/-- The continuation of a connect. -/
def connected (e : SockEntry) (ok : Bool) : SockEntry :=
  match e.entry with
  | .tcp tcp => { e with
      entry := .tcp { tcp with socket := if ok then true else tcp.socket }
      pollIn := true
      pollOut := true }
  | .udp _ => { e with pollIn := true, pollOut := true }

/-- The loop of `do_recvfrom`, when `read_up_to(len)` and `receive` give `read` and
`receive`; `none` when it has not come to an end in so many turns. A call reads again
only after an empty buffer, which leaves the connection as it is. -/
def recvLoop (read : Future (List Byte)) (receive : Future Datagram) :
    Nat → SockEntry → Nat → List Byte → Option Outcome
  | 0, _, _, _ => none
  | turns + 1, e, len, taken =>
      match e.entry with
      | .tcp tcp =>
          if tcp.indata ≠ [] then
            let len := min len tcp.indata.length
            let copied := tcp.indata.take len
            let e := { e with entry := .tcp { tcp with indata := tcp.indata.drop len } }
            some (.done ⟨e, .value len, copied, none, false, taken, []⟩)
          else if ¬tcp.input ∧ ¬tcp.socket then some .noConnection
          else
            let tcp := { tcp with input := true }
            let e := { e with entry := .tcp tcp }
            match read with
            | .pending => some (.done { e with pollIn := false }.wait)
            | .failed code => some (.done (e.refuse code))
            | .ready buf =>
                recvLoop read receive turns { e with entry := .tcp { tcp with indata := buf } } len
                  (taken ++ buf)
      | .udp udp => match udp.input with
          | some p =>
              let len := min len p.data.length
              let left := if p.data.length = len then none
                else some { p with data := p.data.drop len }
              let e := { e with entry := .udp { udp with input := left } }
              some (.done ⟨e, .value len, p.data.take len, some p.src, false, taken, []⟩)
          | none => match receive with
              | .pending => some (.done { e with pollIn := false }.wait)
              | .failed code => some (.done (e.refuse code))
              | .ready d =>
                  recvLoop read receive turns { e with entry := .udp { udp with input := some d } }
                    len (taken ++ d.data)

/-- `do_recvfrom`. -/
def recvfrom (read : Future (List Byte)) (receive : Future Datagram) (turns : Nat)
    (e : SockEntry) (len : Nat) : Option Outcome :=
  if e.closed then some (.done (e.refuse none))
  else if ¬e.pollIn then some (.done (e.refuse (some EWOULDBLOCK)))
  else recvLoop read receive turns e len []

/-- The continuation of a read. -/
def readDone (e : SockEntry) (buf : Option (List Byte)) : SockEntry :=
  match e.entry with
  | .tcp tcp => { e with
      entry := .tcp { tcp with indata := buf.getD tcp.indata }
      pollIn := true }
  | .udp _ => e

/-- The continuation of a `receive`. -/
def receiveDone (e : SockEntry) (d : Option Datagram) : SockEntry :=
  match e.entry, d with
  | .udp udp, some d => { e with entry := .udp { udp with input := some d }, pollIn := true }
  | _, _ => e

/-- `do_sendv` of the buffers `vec`, when `write` and `send` give `f`. -/
def sendv (e : SockEntry) (vec : List (List Byte)) (f : Future Unit) : Outcome :=
  match e.entry with
  | .tcp tcp =>
      if ¬e.pollOut then .done (e.refuse (some EWOULDBLOCK))
      else if ¬tcp.output ∧ ¬tcp.socket then .noConnection
      else sendOn { e with entry := .tcp { tcp with output := true } }
  | .udp _ => sendOn e
where
  /-- What follows `write` and `send`. -/
  sendOn (e : SockEntry) : Outcome :=
    match f with
    | .failed code => .done (e.refuse code)
    | .ready () => .done ⟨e, .value vec.length, [], none, false, [], vec.flatten⟩
    | .pending =>
        .done ⟨{ e with pollOut := false }, .value vec.length, [], none, true, [], vec.flatten⟩

/-- The continuation of a write or a `send`. -/
def sendDone (e : SockEntry) : SockEntry := { e with pollOut := true }

/-! ## How often the loop turns -/

variable {read : Future (List Byte)} {receive : Future Datagram} {e : SockEntry} {len : Nat}

/-- Bytes are handed over in the second turn at the latest. -/
theorem recvLoop_tcp {tcp : TcpEntry} (kind : e.entry = .tcp tcp)
    (more : tcp.indata = [] → read ≠ .ready []) (turns : Nat) (taken : List Byte) :
    (recvLoop read receive (turns + 2) e len taken).isSome := by
  unfold recvLoop
  rw [kind]
  dsimp only
  by_cases here : tcp.indata ≠ []
  · rw [if_pos here]
    rfl
  · rw [if_neg here]
    split
    · rfl
    · cases ready : read with
      | pending => rfl
      | failed code => rfl
      | ready buf =>
          have some_ : buf ≠ [] := fun none_ => more (not_not.mp here) (none_ ▸ ready)
          dsimp only
          unfold recvLoop
          dsimp only
          rw [if_pos some_]
          rfl

/-- At the end of the stream it turns for ever. -/
theorem recvLoop_endless {tcp : TcpEntry} (kind : e.entry = .tcp tcp) (empty : tcp.indata = [])
    (open_ : tcp.input ∨ tcp.socket) (turns : Nat) (taken : List Byte) :
    recvLoop (.ready []) receive turns e len taken = none := by
  induction turns generalizing e tcp taken with
  | zero => rfl
  | succ turns ih =>
      unfold recvLoop
      rw [kind]
      dsimp only
      rw [if_neg (not_not.mpr empty), if_neg fun shut => open_.elim shut.1 shut.2]
      exact ih rfl rfl (.inl rfl) (taken ++ [])

/-! ## What a read of a TCP entry does -/

theorem recvfrom_eq (open_ : e.closed = false) (poll : e.pollIn = true) (turns : Nat) :
    e.recvfrom read receive turns len = recvLoop read receive turns e len [] := by
  unfold recvfrom
  rw [open_, poll]
  rfl

/-- What was read before is handed over. -/
theorem recvfrom_indata {tcp : TcpEntry} (kind : e.entry = .tcp tcp) (open_ : e.closed = false)
    (poll : e.pollIn = true) (here : tcp.indata ≠ []) (turns : Nat) :
    e.recvfrom read receive (turns + 1) len = some (.done
      ⟨{ e with entry := .tcp { tcp with indata := tcp.indata.drop (min len tcp.indata.length) } },
        .value (min len tcp.indata.length), tcp.indata.take (min len tcp.indata.length), none, false,
        [], []⟩) := by
  rw [recvfrom_eq open_ poll, recvLoop, kind]
  dsimp only
  rw [if_pos here]

/-- Without a connection there is nothing to read from. -/
theorem recvfrom_noConnection {tcp : TcpEntry} (kind : e.entry = .tcp tcp)
    (open_ : e.closed = false) (poll : e.pollIn = true) (empty : tcp.indata = [])
    (shut : tcp.input = false ∧ tcp.socket = false) (turns : Nat) :
    e.recvfrom read receive (turns + 1) len = some .noConnection := by
  rw [recvfrom_eq open_ poll, recvLoop, kind]
  dsimp only
  rw [if_neg (not_not.mpr empty), shut.1, shut.2]
  rfl

/-- What the connection has is asked for, and handed over in a second turn. -/
theorem recvfrom_read {tcp : TcpEntry} (kind : e.entry = .tcp tcp) (open_ : e.closed = false)
    (poll : e.pollIn = true) (empty : tcp.indata = []) (conn : tcp.socket = true) :
    e.recvfrom read receive 2 len = match read with
      | .pending => some (.done { e with
          entry := .tcp { tcp with input := true }
          pollIn := false }.wait)
      | .failed code => some (.done ({ e with entry := .tcp { tcp with input := true } }.refuse code))
      | .ready buf =>
          if buf = [] then none
          else some (.done ⟨{ e with entry := .tcp { tcp with
              input := true
              indata := buf.drop (min len buf.length) } },
            .value (min len buf.length), buf.take (min len buf.length), none, false, buf, []⟩) := by
  have connected : ¬(¬tcp.input = true ∧ ¬tcp.socket = true) := fun shut => shut.2 conn
  rw [recvfrom_eq open_ poll, recvLoop, kind]
  dsimp only
  rw [if_neg (not_not.mpr empty), if_neg connected]
  cases read with
  | pending => rfl
  | failed code => rfl
  | ready buf =>
      dsimp only
      by_cases nothing : buf = []
      · subst nothing
        exact recvLoop_endless rfl rfl (.inl rfl) 1 _
      · rw [if_neg nothing, recvLoop]
        dsimp only
        rw [if_pos nothing]
        rfl

end SockEntry

end ActorNet.Dns
