import ActorNet.Lib.Run
import Mathlib.Logic.Function.Basic

/-!
# The ports of UDP channels

`make_channel` registers a channel under the port it is bound to, or under one
that it finds itself, from a cursor on; `close` takes the registration of that
port away, whosever it is. The cursor was to start over at 32768, but `port + 1`
is computed as an `int` and is never 0, so it goes on at 0.
-/

namespace ActorNet.Net.UdpPorts

open Lib

/-! ## The code -/

/-- `native_channel`: its port, and whether that was asked for. -/
structure Channel where
  port : BitVec 16
  anonymous : Bool
  closed : Bool
  destroyed : Bool
  deriving DecidableEq, Repr

/-- `ipv4_udp`, and the channels that it made; a state in `_channels` is the
number of its channel. To erase what is not there has no defined outcome. -/
structure Ipv4Udp where
  channels : BitVec 16 → Option Nat
  nextAnonymousPort : BitVec 16
  made : List Channel
  undefined : Bool

def minAnonymousPort : BitVec 16 := 32768

def init : Ipv4Udp := ⟨fun _ => none, minAnonymousPort, [], false⟩

/-- `next_port`: the sum is an `int`, and its low half is returned. -/
def nextPort (port : BitVec 16) : BitVec 16 :=
  if port.toNat + 1 = 0 then minAnonymousPort else BitVec.ofNat 16 (port.toNat + 1)

theorem nextPort_eq (port : BitVec 16) : nextPort port = port + 1 := by
  apply BitVec.eq_of_toNat_eq
  unfold nextPort
  rw [if_neg (Nat.succ_ne_zero _), BitVec.toNat_ofNat, BitVec.toNat_add]
  rfl

/-- The loop of `make_channel`, which throws when it is back where it started. -/
def findPort (count : BitVec 16 → Bool) (startingPort port : BitVec 16) : Option (BitVec 16) :=
  if count port then
    if startingPort = nextPort port then none else findPort count startingPort (nextPort port)
  else some port
termination_by (startingPort - nextPort port).toNat
decreasing_by
  rename_i goesOn
  rw [nextPort_eq] at goesOn ⊢
  rw [nextPort_eq]
  bv_omega

inductive MakeError
  | bindingToSpecificIp
  | addressInUse
  | noFreePort
  deriving DecidableEq, Repr

structure Ipv4Addr where
  ip : BitVec 32
  port : BitVec 16
  deriving DecidableEq, Repr

/-- The end of `make_channel`. -/
def Ipv4Udp.register (s : Ipv4Udp) (port : BitVec 16) (anonymous : Bool) : Ipv4Udp :=
  { s with
    channels := Function.update s.channels port (some s.made.length)
    made := s.made ++ [⟨port, anonymous, false, false⟩] }

/-- `make_channel`: the number of the channel, or what it throws. -/
def makeChannel (s : Ipv4Udp) (addr : Ipv4Addr) : Except MakeError Nat × Ipv4Udp :=
  if addr.ip ≠ 0 then (.error .bindingToSpecificIp, s)
  else if addr.port ≠ 0 then
    if (s.channels addr.port).isSome then (.error .addressInUse, s)
    else (.ok s.made.length, s.register addr.port false)
  else
    match findPort (fun port => (s.channels port).isSome) s.nextAnonymousPort
        s.nextAnonymousPort with
    | none => (.error .noFreePort, s)
    | some port =>
        (.ok s.made.length, { s.register port true with nextAnonymousPort := nextPort port })

/-- `registration::unregister`. -/
def unregister (s : Ipv4Udp) (port : BitVec 16) : Ipv4Udp :=
  match s.channels port with
  | none => { s with undefined := true }
  | some _ => { s with channels := Function.update s.channels port none }

/-- `native_channel::close`. -/
def close (s : Ipv4Udp) (i : Nat) (c : Channel) : Ipv4Udp :=
  let s := unregister s c.port
  { s with made := s.made.set i { c with closed := true } }

/-- `~native_channel`. -/
def destroy (s : Ipv4Udp) (i : Nat) (c : Channel) : Ipv4Udp :=
  let s := if c.closed then s else close s i c
  { s with made := s.made.set i { c with closed := true, destroyed := true } }

inductive Event
  | makeChannel (addr : Ipv4Addr)
  | close (i : Nat)
  | destroy (i : Nat)
  deriving DecidableEq, Repr

/-- The channel of that number, if it is not destroyed. -/
def Ipv4Udp.channel (s : Ipv4Udp) (i : Nat) : Option Channel :=
  s.made[i]?.filter fun c => !c.destroyed

def step (s : Ipv4Udp) : Event → Option Ipv4Udp
  | .makeChannel addr => if s.undefined then none else some (UdpPorts.makeChannel s addr).2
  | .close i => if s.undefined then none else (s.channel i).map fun c => UdpPorts.close s i c
  | .destroy i => if s.undefined then none else (s.channel i).map fun c => UdpPorts.destroy s i c

/-! ## The search for a port -/

/-- The first port that is free, from the cursor on, 65535 being followed by 0. -/
def FirstFree (count : BitVec 16 → Bool) (cursor port : BitVec 16) : Prop :=
  count port = false ∧
    ∃ k, port = cursor + BitVec.ofNat 16 k ∧ ∀ j < k, count (cursor + BitVec.ofNat 16 j) = true

theorem FirstFree.unique {count : BitVec 16 → Bool} {cursor port port' : BitVec 16}
    (first : FirstFree count cursor port) (first' : FirstFree count cursor port') : port = port' := by
  obtain ⟨free, k, rfl, taken⟩ := first
  obtain ⟨free', k', rfl, taken'⟩ := first'
  rcases Nat.lt_trichotomy k k' with before | same | behind
  · rw [taken' k before] at free
    cases free
  · rw [same]
  · rw [taken k' behind] at free'
    cases free'

theorem add_succ (cursor : BitVec 16) (k : Nat) :
    cursor + BitVec.ofNat 16 k + 1 = cursor + BitVec.ofNat 16 (k + 1) := by
  rw [BitVec.ofNat_add, BitVec.add_assoc]
  rfl

/-- A search that comes to the port `k` behind the cursor goes on to the first
free one, or around. -/
theorem findPort_from (count : BitVec 16 → Bool) (cursor port : BitVec 16) (k : Nat)
    (place : port = cursor + BitVec.ofNat 16 k)
    (taken : ∀ j < k, count (cursor + BitVec.ofNat 16 j) = true) :
    match findPort count cursor port with
    | some found => FirstFree count cursor found
    | none => ∃ n, (∀ j ≤ n, count (cursor + BitVec.ofNat 16 j) = true) ∧
        cursor = cursor + BitVec.ofNat 16 (n + 1) := by
  -- the ports between the cursor and this one are taken
  induction port using findPort.induct count cursor generalizing k with
  | case1 port busy around =>
      rw [findPort, if_pos busy, if_pos around]
      rw [nextPort_eq, place, add_succ] at around
      refine ⟨k, ?_, around⟩
      intro j upTo
      rcases Nat.lt_or_eq_of_le upTo with before | rfl
      · exact taken j before
      · rw [← place]
        exact busy
  | case2 port busy goesOn ih =>
      rw [findPort, if_pos busy, if_neg goesOn]
      apply ih (k + 1)
      · rw [nextPort_eq, place, add_succ]
      · intro j upTo
        rcases Nat.lt_or_eq_of_le (Nat.le_of_lt_succ upTo) with before | rfl
        · exact taken j before
        · rw [← place]
          exact busy
  | case3 port free =>
      rw [findPort, if_neg free]
      exact ⟨by simpa using free, k, place, taken⟩

theorem findPort_some {count : BitVec 16 → Bool} {cursor found : BitVec 16}
    (search : findPort count cursor cursor = some found) : FirstFree count cursor found := by
  have spec := findPort_from count cursor cursor 0 (BitVec.add_zero cursor).symm nofun
  rw [search] at spec
  exact spec

/-- The search fails only when every port is taken. -/
theorem findPort_none {count : BitVec 16 → Bool} {cursor : BitVec 16}
    (search : findPort count cursor cursor = none) (port : BitVec 16) : count port = true := by
  have spec := findPort_from count cursor cursor 0 (BitVec.add_zero cursor).symm nofun
  rw [search] at spec
  obtain ⟨n, taken, around⟩ := spec
  -- to come around takes 65536 steps, so all ports were looked at
  have all : 65535 ≤ n := by
    by_contra short
    have same := congrArg BitVec.toNat around
    rw [BitVec.toNat_add, BitVec.toNat_ofNat] at same
    have bound := cursor.isLt
    omega
  have distance : cursor + BitVec.ofNat 16 (port - cursor).toNat = port := by
    rw [BitVec.ofNat_toNat, BitVec.setWidth_eq]
    bv_omega
  rw [← distance]
  apply taken
  have bound := (port - cursor).isLt
  omega

/-! ## What holds of the channels -/

/-- Open channels have ports of their own, under which they are registered, and
a port that was not asked for is none of the low ones. -/
structure Orderly (s : Ipv4Udp) : Prop where
  defined : s.undefined = false
  distinct : ∀ (i j : Nat) (c d : Channel), s.made[i]? = some c → s.made[j]? = some d → c.closed = false →
    d.closed = false → c.port = d.port → i = j
  own : ∀ (i : Nat) (c : Channel), s.made[i]? = some c → c.closed = false → s.channels c.port = some i
  range : ∀ c ∈ s.made, c.anonymous = true → 32768 ≤ c.port.toNat

/-- What is registered is an open channel under its port. -/
def Owned (s : Ipv4Udp) : Prop :=
  ∀ port i, s.channels port = some i →
    ∃ c, s.made[i]? = some c ∧ c.closed = false ∧ c.port = port

/-- A channel that is closed is not closed again, and the first free port from the
cursor on is none of the low ones when one is to be found. -/
def InOrder (s : Ipv4Udp) : Event → Prop
  | .makeChannel addr => addr.ip = 0 → addr.port = 0 → ∀ port,
      FirstFree (fun port => (s.channels port).isSome) s.nextAnonymousPort port →
        32768 ≤ port.toNat
  | .close i => ∀ c, s.channel i = some c → c.closed = false
  | .destroy _ => True

section

variable {s s' : Ipv4Udp} {port : BitVec 16} {anonymous : Bool} {i : Nat} {c : Channel}

theorem made_register (s : Ipv4Udp) (port : BitVec 16) (anonymous : Bool) (j : Nat) (d : Channel) :
    (s.register port anonymous).made[j]? = some d ↔
      s.made[j]? = some d ∨ j = s.made.length ∧ d = ⟨port, anonymous, false, false⟩ := by
  show (s.made ++ [_])[j]? = some d ↔ _
  rw [List.getElem?_append]
  split
  · rename_i inside
    exact ⟨.inl, fun found => found.resolve_right fun last => by omega⟩
  · rename_i outside
    have beyond : s.made[j]? = none := List.getElem?_eq_none (by omega)
    rw [beyond, List.getElem?_singleton]
    constructor
    · intro found
      split at found
      · cases found
        exact .inr ⟨by omega, rfl⟩
      · cases found
    · rintro (nothing | ⟨rfl, rfl⟩)
      · cases nothing
      · rw [Nat.sub_self, if_pos rfl]

theorem Owned.register (owned : Owned s) (free : s.channels port = none) :
    Owned (s.register port anonymous) := by
  intro p j registered
  by_cases here : p = port
  · subst here
    have same : s.made.length = j := by
      have value : Function.update s.channels p (some s.made.length) p = some j := registered
      rw [Function.update_self] at value
      exact Option.some.inj value
    exact ⟨_, (made_register ..).mpr (.inr ⟨same.symm, rfl⟩), rfl, rfl⟩
  · have before : s.channels p = some j := by
      have value : Function.update s.channels port (some s.made.length) p = some j := registered
      rw [Function.update_of_ne here] at value
      exact value
    obtain ⟨d, found, isOpen, place⟩ := owned p j before
    exact ⟨d, (made_register ..).mpr (.inl found), isOpen, place⟩

theorem Orderly.register (orderly : Orderly s) (free : s.channels port = none)
    (high : anonymous = true → 32768 ≤ port.toNat) : Orderly (s.register port anonymous) := by
  have own : ∀ (j : Nat) (d : Channel), (s.register port anonymous).made[j]? = some d →
      d.closed = false → (s.register port anonymous).channels d.port = some j := by
    intro j d found isOpen
    show Function.update s.channels port (some s.made.length) d.port = some j
    -- a channel from before has another port, as this one was free
    rcases (made_register ..).mp found with before | ⟨rfl, rfl⟩
    · have registered := orderly.own j d before isOpen
      have other : d.port ≠ port := by
        rintro rfl
        rw [free] at registered
        cases registered
      rw [Function.update_of_ne other]
      exact registered
    · rw [Function.update_self]
  refine ⟨orderly.defined, ?_, own, ?_⟩
  · intro j k d e atJ atK openJ openK same
    have first := own j d atJ openJ
    rw [same, own k e atK openK] at first
    exact (Option.some.inj first).symm
  · intro d member hidden
    rcases List.mem_append.mp member with before | last
    · exact orderly.range d before hidden
    · cases List.mem_singleton.mp last
      exact high hidden

theorem unregister_made (s : Ipv4Udp) (port : BitVec 16) : (unregister s port).made = s.made := by
  unfold unregister
  split
  · rfl
  · rfl

theorem unregister_channels (s : Ipv4Udp) (port : BitVec 16) :
    (unregister s port).channels = Function.update s.channels port none := by
  unfold unregister
  split
  · rename_i nothing
    rw [← nothing]
    exact (Function.update_eq_self port s.channels).symm
  · rfl

theorem made_set {made : List Channel} (found : made[i]? = some c) (c' : Channel) (j : Nat)
    (d : Channel) :
    (made.set i c')[j]? = some d ↔ (j = i ∧ d = c') ∨ (j ≠ i ∧ made[j]? = some d) := by
  have inside := (List.getElem?_eq_some_iff.mp found).1
  by_cases same : j = i
  · subst same
    rw [List.getElem?_set_self inside]
    simp [eq_comm]
  · rw [List.getElem?_set_ne (Ne.symm same)]
    simp [same]

theorem close_made (s : Ipv4Udp) (i : Nat) (c : Channel) :
    (close s i c).made = s.made.set i { c with closed := true } := by
  show (unregister s c.port).made.set i _ = _
  rw [unregister_made]

theorem close_channels (s : Ipv4Udp) (i : Nat) (c : Channel) :
    (close s i c).channels = Function.update s.channels c.port none :=
  unregister_channels s c.port

/-- Whatever is closed, the rest stays registered. -/
theorem Owned.close (owned : Owned s) (found : s.made[i]? = some c) : Owned (close s i c) := by
  intro port j registered
  rw [close_channels] at registered
  have other : port ≠ c.port := by
    rintro rfl
    rw [Function.update_self] at registered
    cases registered
  rw [Function.update_of_ne other] at registered
  obtain ⟨d, atJ, isOpen, place⟩ := owned port j registered
  refine ⟨d, ?_, isOpen, place⟩
  rw [close_made, made_set found]
  refine .inr ⟨?_, atJ⟩
  rintro rfl
  rw [found] at atJ
  cases atJ
  exact other place.symm

/-- A channel that is closed for the first time takes its own registration away. -/
theorem Orderly.close (orderly : Orderly s) (found : s.made[i]? = some c)
    (isOpen : c.closed = false) : Orderly (close s i c) := by
  have registered := orderly.own i c found isOpen
  have before : ∀ (j : Nat) (d : Channel), (UdpPorts.close s i c).made[j]? = some d →
      d.closed = false → j ≠ i ∧ s.made[j]? = some d := by
    intro j d atJ openJ
    rw [close_made, made_set found] at atJ
    rcases atJ with ⟨-, rfl⟩ | earlier
    · cases openJ
    · exact earlier
  refine ⟨?_, ?_, ?_, ?_⟩
  · show (unregister s c.port).undefined = false
    rw [unregister, registered]
    exact orderly.defined
  · intro j k d e atJ atK openJ openK same
    exact orderly.distinct j k d e (before j d atJ openJ).2 (before k e atK openK).2 openJ openK same
  · intro j d atJ openJ
    obtain ⟨other, earlier⟩ := before j d atJ openJ
    have own := orderly.own j d earlier openJ
    have apart : d.port ≠ c.port := by
      intro same
      rw [same, registered] at own
      exact other (Option.some.inj own).symm
    rw [close_channels, Function.update_of_ne apart]
    exact own
  · intro d member hidden
    rw [close_made] at member
    rcases List.mem_or_eq_of_mem_set member with earlier | rfl
    · exact orderly.range d earlier hidden
    · exact orderly.range c (List.mem_of_getElem? found) hidden

/-- A channel that is closed again takes away the registration of another, or one
that is not there. -/
theorem Orderly.of_close (owned : Owned s) (found : s.made[i]? = some c)
    (orderly : Orderly (UdpPorts.close s i c)) : c.closed = false := by
  by_contra again
  rw [Bool.not_eq_false] at again
  cases registered : s.channels c.port with
  | none =>
      have defined : (unregister s c.port).undefined = false := orderly.defined
      rw [unregister, registered] at defined
      cases defined
  | some k =>
      obtain ⟨d, atK, isOpen, place⟩ := owned c.port k registered
      have other : k ≠ i := by
        rintro rfl
        rw [found] at atK
        cases atK
        rw [again] at isOpen
        cases isOpen
      have atK' : (UdpPorts.close s i c).made[k]? = some d := by
        rw [close_made, made_set found]
        exact .inr ⟨other, atK⟩
      have own := orderly.own k d atK' isOpen
      rw [close_channels, place, Function.update_self] at own
      cases own

/-- A closed channel is taken down. -/
theorem Owned.settle (owned : Owned s) (found : s.made[i]? = some c) (isClosed : c.closed = true)
    {c' : Channel} : Owned { s with made := s.made.set i c' } := by
  intro port j registered
  obtain ⟨d, atJ, isOpen, place⟩ := owned port j registered
  refine ⟨d, (made_set found c' j d).mpr (.inr ⟨?_, atJ⟩), isOpen, place⟩
  rintro rfl
  rw [found] at atJ
  cases atJ
  rw [isClosed] at isOpen
  cases isOpen

theorem Orderly.settle (orderly : Orderly s) (found : s.made[i]? = some c) {c' : Channel}
    (isClosed : c'.closed = true) (port : c'.port = c.port) (anonymous : c'.anonymous = c.anonymous) :
    Orderly { s with made := s.made.set i c' } := by
  have before : ∀ (j : Nat) (d : Channel), (s.made.set i c')[j]? = some d → d.closed = false →
      s.made[j]? = some d := by
    intro j d atJ isOpen
    rcases (made_set found c' j d).mp atJ with ⟨-, rfl⟩ | ⟨-, earlier⟩
    · rw [isClosed] at isOpen
      cases isOpen
    · exact earlier
  refine ⟨orderly.defined, ?_, ?_, ?_⟩
  · intro j k d e atJ atK openJ openK same
    exact orderly.distinct j k d e (before j d atJ openJ) (before k e atK openK) openJ openK same
  · intro j d atJ isOpen
    exact orderly.own j d (before j d atJ isOpen) isOpen
  · intro d member hidden
    rcases List.mem_or_eq_of_mem_set member with earlier | rfl
    · exact orderly.range d earlier hidden
    · rw [port]
      rw [anonymous] at hidden
      exact orderly.range c (List.mem_of_getElem? found) hidden

/-- The destructor closes a channel that is open. -/
theorem destroy_keeps (owned : Owned s) (found : s.made[i]? = some c) :
    Owned (destroy s i c) ∧ (Orderly s → Orderly (destroy s i c)) := by
  unfold destroy
  by_cases isClosed : c.closed = true
  · rw [if_pos isClosed]
    exact ⟨owned.settle found isClosed, fun orderly => orderly.settle found rfl rfl rfl⟩
  · have isOpen : c.closed = false := by simpa using isClosed
    have inside := (List.getElem?_eq_some_iff.mp found).1
    have found' : (UdpPorts.close s i c).made[i]? = some { c with closed := true } := by
      rw [close_made, List.getElem?_set_self inside]
    rw [if_neg isClosed]
    exact ⟨(owned.close found).settle found' rfl,
      fun orderly => (orderly.close found isOpen).settle found' rfl rfl rfl⟩

/-- `make_channel` leaves all as it is when it throws; else it registers a new
channel under a port that is free, one that it finds being the first. -/
theorem makeChannel_cases (s : Ipv4Udp) (addr : Ipv4Addr) :
    (makeChannel s addr).2 = s ∨
      ∃ port anonymous cursor, s.channels port = none ∧
        (makeChannel s addr).2 =
          { s.register port anonymous with nextAnonymousPort := cursor } ∧
        (anonymous = true → addr.ip = 0 ∧ addr.port = 0 ∧
          FirstFree (fun port => (s.channels port).isSome) s.nextAnonymousPort port) := by
  unfold makeChannel
  by_cases specific : addr.ip ≠ 0
  · rw [if_pos specific]
    exact .inl rfl
  · rw [if_neg specific]
    by_cases asked : addr.port ≠ 0
    · rw [if_pos asked]
      by_cases inUse : (s.channels addr.port).isSome = true
      · rw [if_pos inUse]
        exact .inl rfl
      · rw [if_neg inUse]
        exact .inr ⟨addr.port, false, s.nextAnonymousPort, by simpa using inUse, rfl, nofun⟩
    · rw [if_neg asked]
      split
      · exact .inl rfl
      · rename_i port search
        have first := findPort_some search
        have free : s.channels port = none := by simpa using first.1
        exact .inr ⟨port, true, nextPort port, free, rfl,
          fun _ => ⟨by simpa using specific, by simpa using asked, first⟩⟩

/-- A port that is not asked for is the first free one. -/
theorem makeChannel_anonymous {addr : Ipv4Addr} (ip : addr.ip = 0) (unspecified : addr.port = 0)
    (first : FirstFree (fun port => (s.channels port).isSome) s.nextAnonymousPort port) :
    (makeChannel s addr).2 =
      { s.register port true with nextAnonymousPort := nextPort port } := by
  unfold makeChannel
  rw [if_neg (by simpa using ip), if_neg (by simpa using unspecified)]
  cases search : findPort (fun port => (s.channels port).isSome) s.nextAnonymousPort
      s.nextAnonymousPort with
  | none =>
      have taken : (s.channels port).isSome = true := findPort_none search port
      have free : (s.channels port).isSome = false := first.1
      rw [free] at taken
      cases taken
  | some found =>
      rw [(findPort_some search).unique first]

theorem channel_made (found : s.channel i = some c) : s.made[i]? = some c :=
  (Option.filter_eq_some_iff.mp found).1

/-- What is registered is right whatever the step. -/
theorem Owned.step {e : Event} (owned : Owned s) (moves : step s e = some s') : Owned s' := by
  unfold UdpPorts.step at moves
  cases e with
  | makeChannel addr =>
      simp only [Option.ite_none_left_eq_some, Option.some.injEq] at moves
      obtain ⟨-, rfl⟩ := moves
      rcases makeChannel_cases s addr with same | ⟨port, anonymous, cursor, free, made, -⟩
      · rw [same]
        exact owned
      · rw [made]
        exact owned.register free
  | close i =>
      simp only [Option.ite_none_left_eq_some, Option.map_eq_some_iff] at moves
      obtain ⟨-, c, found, rfl⟩ := moves
      exact owned.close (channel_made found)
  | destroy i =>
      simp only [Option.ite_none_left_eq_some, Option.map_eq_some_iff] at moves
      obtain ⟨-, c, found, rfl⟩ := moves
      exact (destroy_keeps owned (channel_made found)).1

theorem Orderly.step {e : Event} (owned : Owned s) (orderly : Orderly s) (inOrder : InOrder s e)
    (moves : step s e = some s') : Orderly s' := by
  unfold UdpPorts.step at moves
  cases e with
  | makeChannel addr =>
      simp only [Option.ite_none_left_eq_some, Option.some.injEq] at moves
      obtain ⟨-, rfl⟩ := moves
      rcases makeChannel_cases s addr with same | ⟨port, anonymous, cursor, free, made, first⟩
      · rw [same]
        exact orderly
      · rw [made]
        have high : anonymous = true → 32768 ≤ port.toNat := by
          intro hidden
          obtain ⟨ip, unspecified, first⟩ := first hidden
          exact inOrder ip unspecified port first
        have kept := orderly.register free high
        exact ⟨kept.defined, kept.distinct, kept.own, kept.range⟩
  | close i =>
      simp only [Option.ite_none_left_eq_some, Option.map_eq_some_iff] at moves
      obtain ⟨-, c, found, rfl⟩ := moves
      exact orderly.close (channel_made found) (inOrder c found)
  | destroy i =>
      simp only [Option.ite_none_left_eq_some, Option.map_eq_some_iff] at moves
      obtain ⟨-, c, found, rfl⟩ := moves
      exact (destroy_keeps owned (channel_made found)).2 orderly

/-- A step that is out of order shows in the state after it. -/
theorem Orderly.inOrder {e : Event} (owned : Owned s) (moves : UdpPorts.step s e = some s')
    (orderly : Orderly s') : InOrder s e := by
  unfold UdpPorts.step at moves
  cases e with
  | makeChannel addr =>
      simp only [Option.ite_none_left_eq_some, Option.some.injEq] at moves
      obtain ⟨-, rfl⟩ := moves
      intro ip unspecified port first
      have made := makeChannel_anonymous ip unspecified first
      rw [made] at orderly
      exact orderly.range _ (List.mem_append_right _ (List.mem_singleton_self _)) rfl
  | close i =>
      simp only [Option.ite_none_left_eq_some, Option.map_eq_some_iff] at moves
      obtain ⟨-, c, found, rfl⟩ := moves
      intro c' found'
      cases found.symm.trans found'
      exact orderly.of_close owned (channel_made found)
  | destroy i => trivial

end

/-- `make_channel` finds no port only when every one is that of an open channel. -/
theorem makeChannel_noFreePort {s s' : Ipv4Udp} {addr : Ipv4Addr} (owned : Owned s)
    (fails : makeChannel s addr = (.error .noFreePort, s')) (port : BitVec 16) :
    ∃ (i : Nat) (c : Channel), s.made[i]? = some c ∧ c.closed = false ∧ c.port = port := by
  have taken : (s.channels port).isSome = true := by
    unfold makeChannel at fails
    by_cases specific : addr.ip ≠ 0
    · rw [if_pos specific] at fails
      cases fails
    · rw [if_neg specific] at fails
      by_cases asked : addr.port ≠ 0
      · rw [if_pos asked] at fails
        split at fails
        · cases fails
        · cases fails
      · rw [if_neg asked] at fails
        split at fails
        · rename_i search
          exact findPort_none search port
        · cases fails
  obtain ⟨i, registered⟩ := Option.isSome_iff_exists.mp taken
  obtain ⟨c, found⟩ := owned port i registered
  exact ⟨i, c, found⟩

theorem init_orderly : Orderly init := ⟨rfl, nofun, nofun, nofun⟩

theorem init_owned : Owned init := nofun

/-- The channels are orderly in every state of a run just if no channel is closed
twice and no search for a port comes around to the low ones; and no search ever
fails while a port is free. -/
theorem ports_orderly_iff {s : Ipv4Udp} {es : List Event} (run : exec step init es = some s) :
    (Always step Orderly init es ↔ Along step InOrder init es) ∧
      ∀ addr s', makeChannel s addr = (.error .noFreePort, s') → ∀ port : BitVec 16,
        ∃ (i : Nat) (c : Channel), s.made[i]? = some c ∧ c.closed = false ∧ c.port = port := by
  constructor
  · refine @Along.iff_always _ _ step InOrder (fun s => Owned s ∧ Orderly s) Orderly
      (fun s holds => holds.2) ?_ ?_ init s es ⟨init_owned, init_orderly⟩ run
    · intro s e s' holds inOrder moves
      exact ⟨holds.1.step moves, holds.2.step holds.1 inOrder moves⟩
    · intro s e s' holds moves orderly
      exact orderly.inOrder holds.1 moves
  · intro addr s' fails port
    have owned : Owned s := exec_invariant (fun s e s' owned moves => owned.step moves) init_owned run
    exact makeChannel_noFreePort owned fails port

/-- Nothing asked for, nothing kept: as many channels in turn. -/
def rounds (i : Nat) : Nat → List Event
  | 0 => []
  | n + 1 => .makeChannel ⟨0, 0⟩ :: .close i :: rounds (i + 1) n

/-- Each round moves the cursor by one. -/
theorem exec_rounds (s : Ipv4Udp) (empty : ∀ port, s.channels port = none)
    (defined : s.undefined = false) (n : Nat) :
    ∃ s', exec step s (rounds s.made.length n) = some s' ∧ (∀ port, s'.channels port = none) ∧
      s'.undefined = false ∧ s'.nextAnonymousPort = s.nextAnonymousPort + BitVec.ofNat 16 n := by
  induction n generalizing s with
  | zero => exact ⟨s, rfl, empty, defined, (BitVec.add_zero _).symm⟩
  | succ n ih =>
      -- all ports are free, so the channel gets the one under the cursor
      have first : FirstFree (fun port => (s.channels port).isSome) s.nextAnonymousPort
          s.nextAnonymousPort :=
        ⟨show (s.channels _).isSome = false by rw [empty]; rfl, 0, (BitVec.add_zero _).symm, nofun⟩
      have made := @makeChannel_anonymous s s.nextAnonymousPort ⟨0, 0⟩ rfl rfl first
      generalize open_ : { s.register s.nextAnonymousPort true with
        nextAnonymousPort := nextPort s.nextAnonymousPort } = t at made
      have begins : step s (.makeChannel ⟨0, 0⟩) = some t := by
        rw [step, defined, made]
        rfl
      have there : t.made[s.made.length]? = some ⟨s.nextAnonymousPort, true, false, false⟩ := by
        rw [← open_]
        exact (made_register ..).mpr (.inr ⟨rfl, rfl⟩)
      have registered : t.channels s.nextAnonymousPort = some s.made.length := by
        rw [← open_]
        exact Function.update_self ..
      have openDefined : t.undefined = false := by
        rw [← open_]
        exact defined
      have ends : step t (.close s.made.length) =
          some (close t s.made.length ⟨s.nextAnonymousPort, true, false, false⟩) := by
        have channel : t.channel s.made.length = some ⟨s.nextAnonymousPort, true, false, false⟩ := by
          rw [Ipv4Udp.channel, there]
          rfl
        rw [step, openDefined, channel]
        rfl
      -- it is closed again: the ports are free, and the cursor has moved
      generalize closed : close t s.made.length ⟨s.nextAnonymousPort, true, false, false⟩ = u at ends
      have gone : ∀ port, u.channels port = none := by
        intro port
        rw [← closed, close_channels, ← open_]
        show Function.update (Function.update s.channels s.nextAnonymousPort _)
          s.nextAnonymousPort none port = none
        rw [Function.update_idem]
        by_cases here : port = s.nextAnonymousPort
        · rw [here, Function.update_self]
        · rw [Function.update_of_ne here, empty]
      have fine : u.undefined = false := by
        rw [← closed]
        show (unregister t s.nextAnonymousPort).undefined = false
        rw [unregister, registered]
        exact openDefined
      have cursor : u.nextAnonymousPort = s.nextAnonymousPort + 1 := by
        rw [← closed, ← open_, ← nextPort_eq]
        show (unregister _ s.nextAnonymousPort).nextAnonymousPort = _
        unfold unregister
        split
        · rfl
        · rfl
      have count : u.made.length = s.made.length + 1 := by
        rw [← closed, close_made, List.length_set, ← open_]
        exact List.length_append
      obtain ⟨s', run, empty', defined', moved⟩ := ih u gone fine
      rw [count] at run
      refine ⟨s', exec_cons.mpr ⟨t, begins, exec_cons.mpr ⟨u, ends, run⟩⟩, empty', defined', ?_⟩
      rw [moved, cursor, Nat.add_comm n 1, BitVec.ofNat_add, BitVec.add_assoc]
      rfl

/-- A channel is closed, its port given to another, and it is closed again; and
after as many channels as there are ports above 32767, the next one gets port 0. -/
theorem ports_disorderly :
    (∃ s, exec step init
        [.makeChannel ⟨0, 5000⟩, .close 0, .makeChannel ⟨0, 5000⟩, .close 0] = some s ∧
      s.made[1]? = some ⟨5000, false, false, false⟩ ∧ s.channels 5000 = none) ∧
    ∃ s, exec step init (rounds 0 32768) = some s ∧
      (makeChannel s ⟨0, 0⟩).2.made = s.made ++ [⟨0, true, false, false⟩] := by
  constructor
  · exact ⟨_, rfl, by decide⟩
  · obtain ⟨s, run, empty, -, cursor⟩ := exec_rounds init (fun _ => rfl) rfl 32768
    -- 32768 rounds take the cursor from 32768 to 65536, which is 0
    have zero : s.nextAnonymousPort = 0 := by
      rw [cursor]
      decide
    have first : FirstFree (fun port => (s.channels port).isSome) s.nextAnonymousPort 0 :=
      ⟨show (s.channels 0).isSome = false by rw [empty]; rfl, 0, by rw [zero]; rfl, nofun⟩
    refine ⟨s, run, ?_⟩
    rw [makeChannel_anonymous rfl rfl first]
    rfl

/-- A channel that is made, closed once and destroyed. -/
theorem ports_orderly_once :
    (Always step Orderly init [.makeChannel ⟨0, 53⟩, .close 0, .destroy 0] ↔
      Along step InOrder init [.makeChannel ⟨0, 53⟩, .close 0, .destroy 0]) ∧
    ∀ addr s', makeChannel (destroy (close (init.register 53 false) 0 ⟨53, false, false, false⟩) 0
        ⟨53, false, true, false⟩) addr = (.error .noFreePort, s') → ∀ port : BitVec 16,
      ∃ (i : Nat) (c : Channel), (destroy (close (init.register 53 false) 0
          ⟨53, false, false, false⟩) 0 ⟨53, false, true, false⟩).made[i]? = some c ∧
        c.closed = false ∧ c.port = port :=
  ports_orderly_iff rfl

end ActorNet.Net.UdpPorts
