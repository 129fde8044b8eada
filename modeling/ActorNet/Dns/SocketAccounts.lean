import Mathlib.Data.List.Count
import ActorNet.Dns.Resolver

/-!
# How long an entry lives

An entry is in `_sockets` from its `do_socket` for as long as nobody has closed it, its
output is still to be closed, or a continuation will come back to it. Only the loop of
`close()` does not reckon with a `do_close` that erases its entry on the spot.
-/

namespace ActorNet.Dns

open Lib

/-! ## Callbacks and the count of an entry -/

namespace SockEntry

/-- The fields that the table keeps about an entry. -/
def SameCount (e e' : SockEntry) : Prop := e'.pending = e.pending ∧ e'.closed = e.closed

variable {e : SockEntry}

theorem connect_sameCount {sa : Option Nat} {f : Future Unit} {c : Call}
    (answered : e.connect sa f = some c) : e.SameCount c.entry := by
  unfold connect at answered
  by_cases closed : e.closed
  · rw [if_pos closed] at answered
    obtain rfl := Option.some.inj answered
    exact ⟨rfl, rfl⟩
  · rw [if_neg closed] at answered
    cases sa with
    | none =>
        obtain rfl := Option.some.inj answered
        exact ⟨rfl, rfl⟩
    | some sa =>
        obtain ⟨_, answered⟩ := Option.ite_none_left_eq_some.mp answered
        dsimp only at answered
        split at answered
        · split at answered <;> (obtain rfl := Option.some.inj answered; exact ⟨rfl, rfl⟩)
        · obtain rfl := Option.some.inj answered
          exact ⟨rfl, rfl⟩

theorem recvLoop_sameCount {read : Future (List Byte)} {receive : Future Datagram}
    {turns len : Nat} {taken : List Byte} {c : Call}
    (answered : recvLoop read receive turns e len taken = some (.done c)) :
    e.SameCount c.entry := by
  induction turns generalizing e taken with
  | zero => cases answered
  | succ turns ih =>
      unfold recvLoop at answered
      split at answered
      · split at answered
        · cases answered
          exact ⟨rfl, rfl⟩
        · split at answered
          · cases answered
          · dsimp only at answered
            split at answered
            · cases answered
              exact ⟨rfl, rfl⟩
            · cases answered
              exact ⟨rfl, rfl⟩
            · have kept := ih answered
              exact kept
      · split at answered
        · cases answered
          exact ⟨rfl, rfl⟩
        · split at answered
          · cases answered
            exact ⟨rfl, rfl⟩
          · cases answered
            exact ⟨rfl, rfl⟩
          · have kept := ih answered
            exact kept

theorem recvfrom_sameCount {read : Future (List Byte)} {receive : Future Datagram}
    {turns len : Nat} {c : Call}
    (answered : e.recvfrom read receive turns len = some (.done c)) : e.SameCount c.entry := by
  unfold recvfrom at answered
  split at answered
  · cases answered
    exact ⟨rfl, rfl⟩
  · split at answered
    · cases answered
      exact ⟨rfl, rfl⟩
    · exact recvLoop_sameCount answered

theorem sendOn_sameCount {vec : List (List Byte)} {f : Future Unit} {c : Call}
    (answered : sendv.sendOn vec f e = .done c) : e.SameCount c.entry := by
  cases f with
  | ready => cases answered; exact ⟨rfl, rfl⟩
  | failed code => cases answered; exact ⟨rfl, rfl⟩
  | pending => cases answered; exact ⟨rfl, rfl⟩

theorem sendv_sameCount {vec : List (List Byte)} {f : Future Unit} {c : Call}
    (answered : e.sendv vec f = .done c) : e.SameCount c.entry := by
  unfold sendv at answered
  split at answered
  · split at answered
    · cases answered
      exact ⟨rfl, rfl⟩
    · split at answered
      · cases answered
      · have kept := sendOn_sameCount answered
        exact kept
  · exact sendOn_sameCount answered

end SockEntry

theorem Completion.apply_sameCount (done : Completion) (e : SockEntry) :
    e.SameCount (done.apply e) := by
  cases done with
  | connected ok =>
      show e.SameCount (e.connected ok)
      unfold SockEntry.connected
      split <;> exact ⟨rfl, rfl⟩
  | read buf =>
      show e.SameCount (e.readDone buf)
      unfold SockEntry.readDone
      split <;> exact ⟨rfl, rfl⟩
  | receive d =>
      show e.SameCount (e.receiveDone d)
      unfold SockEntry.receiveDone
      split <;> exact ⟨rfl, rfl⟩
  | sent => exact ⟨rfl, rfl⟩

/-! ## One descriptor -/

/-- What the table has under a descriptor that is live, whose output is still to be
closed, and that so many continuations wait for. -/
def Row (live closing : Prop) (waiting : Nat) : Option SockEntry → Prop
  | none => ¬live ∧ ¬closing ∧ waiting = 0
  | some e => (e.closed = false ↔ live) ∧ ¬(live ∧ closing) ∧ (live ∨ closing ∨ 0 < waiting) ∧
      (live ∨ closing → e.pending = waiting) ∧ (¬live → ¬closing → e.pending = waiting - 1)

/-- What `release` leaves of an entry. -/
def SockEntry.released (e : SockEntry) : Option SockEntry :=
  if e.pending - 1 < 0 then none else some { e with pending := e.pending - 1 }

namespace Row

variable {live closing : Prop} {n : Nat} {e e' : SockEntry}

theorem same (row : Row live closing n (some e)) (same : e.SameCount e') :
    Row live closing n (some e') := by
  obtain ⟨closed, apart, here, counted, late⟩ := row
  refine ⟨by rw [same.2]; exact closed, apart, here, fun h => ?_, fun h h' => ?_⟩
  · rw [same.1, counted h]
  · rw [same.1, late h h']

theorem use (row : Row live closing n (some e)) :
    Row live closing (n + 1) (some { e with pending := e.pending + 1 }) := by
  obtain ⟨closed, apart, here, counted, late⟩ := row
  refine ⟨closed, apart, .inr (.inr (Nat.succ_pos n)), fun h => ?_, fun h h' => ?_⟩
  · show e.pending + 1 = _
    rw [counted h]
    rfl
  · show e.pending + 1 = _
    rw [late h h']
    omega

/-- A continuation comes to its end. -/
theorem release (row : Row live closing (n + 1) (some e)) : Row live closing n e.released := by
  obtain ⟨closed, apart, here, counted, late⟩ := row
  unfold SockEntry.released
  by_cases held : live ∨ closing
  · have pending := counted held
    rw [if_neg (by omega)]
    refine ⟨closed, apart, held.imp_right .inl, fun _ => ?_, fun h h' => absurd held (by tauto)⟩
    show e.pending - 1 = n
    omega
  · obtain ⟨notLive, notClosing⟩ := not_or.mp held
    have pending := late notLive notClosing
    by_cases last : n = 0
    · rw [if_pos (by omega)]
      exact ⟨notLive, notClosing, last⟩
    · rw [if_neg (by omega)]
      refine ⟨closed, apart, .inr (.inr (Nat.pos_of_ne_zero last)), fun h => absurd h held,
        fun _ _ => ?_⟩
      show e.pending - 1 = (n : Int) - 1
      omega

/-- A close that is complete takes its share of the count. -/
theorem closed (pending : e.pending = n) (marked : e.closed = true) (notLive : ¬live)
    (notClosing : ¬closing) : Row live closing n e.released := by
  unfold SockEntry.released
  by_cases none_ : n = 0
  · rw [if_pos (by omega)]
    exact ⟨notLive, notClosing, none_⟩
  · rw [if_neg (by omega)]
    refine ⟨?_, fun h => notLive h.1, .inr (.inr (Nat.pos_of_ne_zero none_)), fun h => ?_,
      fun _ _ => ?_⟩
    · show e.closed = false ↔ live
      rw [marked]
      exact ⟨fun h => (nomatch h), fun h => absurd h notLive⟩
    · exact h.elim (fun h => absurd h notLive) fun h => absurd h notClosing
    · show e.pending - 1 = (n : Int) - 1
      omega

end Row

/-! ## One resolver -/

namespace Resolver

/-- `r'` is `r` with another entry under a descriptor, and another count of the gate. -/
structure Sets (fd : Nat) (e : Option SockEntry) (gate : Nat) (r r' : Resolver) : Prop where
  here : r'.sockets.lookup fd = e
  others : ∀ fd', fd' ≠ fd → r'.sockets.lookup fd' = r.sockets.lookup fd'
  gate : r'.gate = gate
  closed : r'.closed = r.closed
  gateClosed : r'.gateClosed = r.gateClosed

variable {r r' r'' : Resolver} {fd : Nat} {e : SockEntry}

theorem Sets.trans {e e' : Option SockEntry} {gate gate' : Nat} (first : Sets fd e gate r r')
    (second : Sets fd e' gate' r' r'') : Sets fd e' gate' r r'' :=
  ⟨second.here, fun fd' other => (second.others fd' other).trans (first.others fd' other),
    second.gate, second.closed.trans first.closed, second.gateClosed.trans first.gateClosed⟩

theorem sets_insert (r : Resolver) (fd : Nat) (e : SockEntry) (gate : Nat) :
    Sets fd (some e) gate r { r with sockets := r.sockets.insert fd e, gate := gate } :=
  ⟨AList.lookup_insert _, fun _ other => AList.lookup_insert_ne other, rfl, rfl, rfl⟩

theorem use_spec (open_ : r.gateClosed = false) (found : r.sockets.lookup fd = some e) :
    ∃ r', r.use fd = some r' ∧
      Sets fd (some { e with pending := e.pending + 1 }) (r.gate + 1) r r' := by
  refine ⟨_, ?_, sets_insert r fd _ _⟩
  unfold use
  rw [open_, found]
  rfl

theorem release_spec (found : r.sockets.lookup fd = some e) :
    ∃ r', r.release fd = some r' ∧ Sets fd e.released (r.gate - 1) r r' := by
  unfold release SockEntry.released
  rw [found]
  by_cases last : e.pending - 1 < 0
  · simp only [Option.map_some, if_pos last]
    exact ⟨_, rfl, AList.lookup_erase _ _, fun _ other => AList.lookup_erase_ne other, rfl, rfl, rfl⟩
  · simp only [Option.map_some, if_neg last]
    exact ⟨_, rfl, sets_insert r fd _ _⟩

/-- What a callback leaves: its entry, and a continuation if there is one. -/
theorem store_spec (open_ : r.gateClosed = false) (fd : Nat) (c : Call) :
    ∃ r' ret, r.store fd c = (r', ret, c.deferred) ∧
      if c.deferred then Sets fd (some { c.entry with pending := c.entry.pending + 1 }) (r.gate + 1) r r'
      else Sets fd (some c.entry) r.gate r r' := by
  have stored := sets_insert r fd c.entry r.gate
  unfold store
  cases deferred : c.deferred with
  | false => exact ⟨_, _, rfl, stored⟩
  | true =>
      obtain ⟨r', used, sets⟩ :=
        @use_spec { r with sockets := r.sockets.insert fd c.entry } fd _ open_ stored.here
      refine ⟨r', c.ret, ?_, stored.trans sets⟩
      simp only [if_true, used]

/-- A new descriptor is not in the table. -/
theorem nextFrom_fresh (fds : List Nat) (n fd : Nat) (few : fds.countP (fd ≤ ·) ≤ n) :
    nextFrom fds n fd ∉ fds := by
  induction n generalizing fd with
  | zero =>
      intro mem
      have counted : 0 < fds.countP (fd ≤ ·) :=
        List.countP_pos_iff.mpr ⟨fd, mem, decide_eq_true (le_refl fd)⟩
      omega
  | succ n ih =>
      unfold nextFrom
      by_cases taken : fd ∈ fds
      · rw [if_pos taken]
        apply ih
        -- The one that is taken does not count any more.
        have less : (fds.filter (fd ≤ ·)).countP (fd + 1 ≤ ·) < (fds.filter (fd ≤ ·)).length := by
          refine List.countP_lt_length_iff.mpr ⟨fd, List.mem_filter.mpr ⟨taken, ?_⟩, ?_⟩
          · exact decide_eq_true (le_refl fd)
          · exact decide_eq_false (Nat.not_succ_le_self fd)
        have above : (fds.filter (fd ≤ ·)).countP (fd + 1 ≤ ·) = fds.countP (fd + 1 ≤ ·) := by
          rw [List.countP_filter]
          refine List.countP_congr fun x _ => ?_
          simp only [Bool.and_eq_true, decide_eq_true_eq]
          omega
        rw [above, ← List.countP_eq_length_filter] at less
        omega
      · rw [if_neg taken]
        exact taken

theorem nextFd_fresh (r : Resolver) : r.sockets.lookup r.nextFd = none := by
  apply AList.lookup_eq_none.mpr
  exact nextFrom_fresh _ _ _ List.countP_le_length

end Resolver

/-! ## The invariant -/

namespace World

/-- The entry under a descriptor, beside what it is there for. -/
def row (w : World) (fd : Nat) : Prop :=
  Row (fd ∈ w.live) (fd ∈ w.closes) (w.waiting fd) (w.resolver.sockets.lookup fd)

/-- Every entry is there for something, and everything is accounted for. -/
structure Balanced (w : World) : Prop where
  found : w.lost = false
  whole : w.torn = false
  rows : ∀ fd, w.row fd
  gate : w.resolver.gate = w.ops.length + w.closes.length

/-- Entries live for as long as they have to, and what `close()` waits for is that
nobody needs one any more. -/
structure Kept (w : World) : Prop extends Balanced w where
  fresh : ¬(w.resolver.nextFd ∈ w.live ∨ w.resolver.nextFd ∈ w.closes ∨
    0 < w.waiting w.resolver.nextFd)
  done : w.closeDone ↔ w.resolver.gateClosed = true ∧ w.ops = [] ∧ w.closes = []

structure Sound (w : World) : Prop where
  balanced : w.Balanced
  live : w.live.Nodup
  closes : w.closes.Nodup
  /-- A continuation that runs is one of those that hold their entry. -/
  running : ∀ fd op, w.task = .completing fd op → (fd, op) ∈ w.ops
  /-- Behind the gate nothing is open. -/
  shut : w.resolver.gateClosed = true → w.resolver.closed = true ∧ w.live = []
  closing : w.task = .closing → w.resolver.closed = true

variable {w w' : World} {e : SockEntry} {fd : Nat}

theorem sound_start : start.Sound := by
  refine ⟨⟨rfl, rfl, fun fd => ⟨?_, ?_, rfl⟩, rfl⟩, List.nodup_nil, List.nodup_nil, ?_, ?_, ?_⟩
  · exact List.not_mem_nil
  · exact List.not_mem_nil
  · intro fd op runs
    cases runs
  · intro shut
    cases shut
  · intro closing
    cases closing

theorem Balanced.at_some (balanced : w.Balanced) (found : w.resolver.sockets.lookup fd = some e) :
    Row (fd ∈ w.live) (fd ∈ w.closes) (w.waiting fd) (some e) := by
  rw [← found]
  exact balanced.rows fd

/-- What is waited for is in the table. -/
theorem Balanced.there (balanced : w.Balanced) (needed : fd ∈ w.live ∨ fd ∈ w.closes ∨ 0 < w.waiting fd) :
    ∃ e, w.resolver.sockets.lookup fd = some e := by
  have row := balanced.rows fd
  cases found : w.resolver.sockets.lookup fd with
  | some e => exact ⟨e, rfl⟩
  | none =>
      unfold World.row at row
      rw [found] at row
      obtain ⟨notLive, notClosing, nobody⟩ := row
      rcases needed with h | h | h
      · exact absurd h notLive
      · exact absurd h notClosing
      · omega

theorem Balanced.kept (balanced : w.Balanced) : w.Kept := by
  refine ⟨balanced, ?_, ?_⟩
  · intro needed
    obtain ⟨e, found⟩ := balanced.there needed
    rw [w.resolver.nextFd_fresh] at found
    cases found
  · refine and_congr_right fun _ => ?_
    rw [balanced.gate, Nat.add_eq_zero_iff, List.length_eq_zero_iff, List.length_eq_zero_iff]

/-- A step that is about one descriptor. -/
theorem Balanced.update (balanced : w.Balanced) {r : Resolver} {row : Option SockEntry} {gate : Nat}
    (sets : w.resolver.Sets fd row gate r) {ops : List (Nat × Op)} {closes live held : List Nat}
    {task : Task}
    (here : Row (fd ∈ live) (fd ∈ closes) (ops.countP (·.1 = fd)) row)
    (lives : ∀ fd', fd' ≠ fd → (fd' ∈ live ↔ fd' ∈ w.live))
    (closing : ∀ fd', fd' ≠ fd → (fd' ∈ closes ↔ fd' ∈ w.closes))
    (waiting : ∀ fd', fd' ≠ fd → ops.countP (·.1 = fd') = w.waiting fd')
    (count : gate = ops.length + closes.length) :
    Balanced { w with
      resolver := r
      ops := ops
      closes := closes
      live := live
      held := held
      task := task } := by
  refine ⟨balanced.found, balanced.whole, fun fd' => ?_, sets.gate.trans count⟩
  show Row (fd' ∈ live) (fd' ∈ closes) (ops.countP (·.1 = fd')) (r.sockets.lookup fd')
  by_cases same : fd' = fd
  · subst same
    rw [sets.here]
    exact here
  · rw [sets.others fd' same, propext (lives fd' same), propext (closing fd' same),
      waiting fd' same]
    exact balanced.rows fd'

theorem waiting_cons (w : World) (fd fd' : Nat) (op : Op) :
    ((fd, op) :: w.ops).countP (·.1 = fd') = w.waiting fd' + if fd = fd' then 1 else 0 := by
  rw [List.countP_cons]
  simp only [waiting, decide_eq_true_eq]

/-- A callback on an entry. -/
theorem Sound.after (sound : w.Sound) (open_ : w.resolver.closed = false)
    (found : w.resolver.sockets.lookup fd = some e) {c : Call} (same : e.SameCount c.entry)
    (op : Op) : (w.after fd op (w.resolver.store fd c)).Sound := by
  have row := sound.balanced.at_some found
  have gateOpen : w.resolver.gateClosed = false := by
    cases gate : w.resolver.gateClosed with
    | false => rfl
    | true => exact absurd (sound.shut gate).1 (by rw [open_]; decide)
  obtain ⟨r, ret, stored, sets⟩ := Resolver.store_spec gateOpen fd c
  rw [stored]
  unfold World.after
  cases deferred : c.deferred with
  | false =>
      rw [deferred] at sets
      have sets : w.resolver.Sets fd (some c.entry) w.resolver.gate r := sets
      refine ⟨sound.balanced.update sets (row.same same) (fun _ _ => Iff.rfl) (fun _ _ => Iff.rfl)
        (fun _ _ => rfl) sound.balanced.gate, sound.live, sound.closes, sound.running, fun shut => ?_,
        fun closing => sets.closed.trans (sound.closing closing)⟩
      rw [sets.gateClosed, gateOpen] at shut
      cases shut
  | true =>
      rw [deferred] at sets
      have sets : w.resolver.Sets fd (some { c.entry with pending := c.entry.pending + 1 })
        (w.resolver.gate + 1) r := sets
      refine ⟨sound.balanced.update sets ?_ (fun _ _ => Iff.rfl) (fun _ _ => Iff.rfl)
        (fun fd' other => ?_) ?_, sound.live, sound.closes, fun fd' op' runs => ?_, fun shut => ?_,
        fun closing => sets.closed.trans (sound.closing closing)⟩
      · rw [if_pos rfl, waiting_cons, if_pos rfl]
        exact (row.same same).use
      · rw [if_pos rfl, waiting_cons, if_neg (Ne.symm other), Nat.add_zero]
      · rw [sound.balanced.gate, if_pos rfl, List.length_cons]
        omega
      · exact List.mem_cons_of_mem _ (sound.running fd' op' runs)
      · rw [sets.gateClosed, gateOpen] at shut
        cases shut

theorem waiting_pos {op : Op} (mem : (fd, op) ∈ w.ops) : 0 < w.waiting fd :=
  List.countP_pos_iff.mpr ⟨_, mem, decide_eq_true rfl⟩

theorem waiting_erase {op : Op} (mem : (fd, op) ∈ w.ops) (fd' : Nat) :
    w.waiting fd' = (w.ops.erase (fd, op)).countP (·.1 = fd') + if fd = fd' then 1 else 0 := by
  rw [waiting, (List.perm_cons_erase mem).countP_eq, List.countP_cons]
  simp only [decide_eq_true_eq]

/-- A new entry. -/
theorem Sound.made (sound : w.Sound) (open_ : w.resolver.closed = false) {e : SockEntry}
    (fresh : e.pending = 0 ∧ e.closed = false) : Sound { w with
      resolver := { w.resolver with
        sockets := w.resolver.sockets.insert w.resolver.nextFd e }
      live := w.resolver.nextFd :: w.live
      held := w.resolver.nextFd :: w.held } := by
  have row := sound.balanced.rows w.resolver.nextFd
  unfold World.row at row
  rw [w.resolver.nextFd_fresh] at row
  obtain ⟨notLive, notClosing, nobody⟩ := row
  have sets := Resolver.sets_insert w.resolver w.resolver.nextFd e w.resolver.gate
  refine ⟨sound.balanced.update sets ⟨?_, fun both => notClosing both.2, .inl List.mem_cons_self,
    fun _ => ?_, fun away => absurd List.mem_cons_self away⟩ (fun fd' other => ?_)
    (fun _ _ => Iff.rfl) (fun _ _ => rfl) sound.balanced.gate, List.nodup_cons.mpr ⟨notLive, sound.live⟩,
    sound.closes, sound.running, fun shut => ?_, sound.closing⟩
  · exact ⟨fun _ => List.mem_cons_self, fun _ => fresh.2⟩
  · rw [fresh.1]
    change w.ops.countP _ = 0 at nobody
    rw [nobody]
    rfl
  · exact ⟨fun mem => (List.mem_cons.mp mem).resolve_left other, List.mem_cons_of_mem _⟩
  · have closed := (sound.shut shut).1
    rw [open_] at closed
    cases closed

theorem Sound.socket (sound : w.Sound) {type : SockType}
    (next : w.step (.socket type) = some w') : w'.Sound := by
  obtain ⟨_, next⟩ := Option.ite_none_left_eq_some.mp next
  unfold Resolver.doSocket at next
  dsimp only at next
  by_cases closed : w.resolver.closed
  · rw [if_pos closed] at next
    obtain rfl := Option.some.inj next
    exact sound
  · rw [if_neg closed] at next
    have open_ : w.resolver.closed = false := Bool.eq_false_iff.mpr closed
    cases type with
    | stream =>
        obtain rfl := Option.some.inj next
        exact sound.made open_ ⟨rfl, rfl⟩
    | dgram =>
        obtain rfl := Option.some.inj next
        exact sound.made open_ ⟨rfl, rfl⟩
    | other =>
        obtain rfl := Option.some.inj next
        exact sound

/-- A continuation looks at its entry. -/
theorem Sound.complete (sound : w.Sound) {done : Completion}
    (next : w.step (.complete fd done) = some w') : w'.Sound := by
  obtain ⟨_, next⟩ := Option.ite_none_left_eq_some.mp next
  obtain ⟨⟨_, mem⟩, next⟩ := Option.ite_none_right_eq_some.mp next
  obtain ⟨e, found⟩ := sound.balanced.there (.inr (.inr (waiting_pos mem)))
  rw [found] at next
  obtain rfl := Option.some.inj next
  have row := (sound.balanced.at_some found).same (done.apply_sameCount e)
  have sets := Resolver.sets_insert w.resolver fd (done.apply e) w.resolver.gate
  refine ⟨sound.balanced.update sets row (fun _ _ => Iff.rfl) (fun _ _ => Iff.rfl) (fun _ _ => rfl)
    sound.balanced.gate, sound.live, sound.closes, fun fd' op runs => ?_, sound.shut,
    fun closing => (nomatch closing)⟩
  cases runs
  exact mem

/-- A continuation comes to its end. -/
theorem Sound.finish (sound : w.Sound) (next : w.step .finish = some w') : w'.Sound := by
  obtain ⟨_, next⟩ := Option.ite_none_left_eq_some.mp next
  cases task : w.task with
  | idle => rw [task] at next; cases next
  | closing => rw [task] at next; cases next
  | completing fd op =>
      rw [task] at next
      obtain rfl := Option.some.inj next
      have mem := sound.running fd op task
      obtain ⟨e, found⟩ := sound.balanced.there (.inr (.inr (waiting_pos mem)))
      have row := sound.balanced.at_some found
      rw [waiting_erase mem, if_pos rfl] at row
      obtain ⟨r, released, sets⟩ := Resolver.release_spec found
      unfold World.releaseOne
      rw [released]
      dsimp only
      have length := (List.perm_cons_erase mem).length_eq
      rw [List.length_cons] at length
      refine ⟨sound.balanced.update sets row.release (fun _ _ => Iff.rfl) (fun _ _ => Iff.rfl)
        (fun fd' other => ?_) ?_, sound.live, sound.closes, fun _ _ runs => ?_, fun shut => ?_,
        fun closing => (nomatch closing)⟩
      · rw [waiting_erase mem, if_neg (Ne.symm other), Nat.add_zero]
      · rw [sound.balanced.gate, length]
        omega
      · cases runs
      · exact sound.shut (sets.gateClosed ▸ shut) |>.imp_left fun closed => sets.closed.trans closed

/-- An output is closed. -/
theorem Sound.outClosed (sound : w.Sound) (next : w.step (.outClosed fd) = some w') :
    w'.Sound := by
  obtain ⟨_, next⟩ := Option.ite_none_left_eq_some.mp next
  obtain ⟨⟨_, mem⟩, next⟩ := Option.ite_none_right_eq_some.mp next
  obtain rfl := Option.some.inj next
  obtain ⟨e, found⟩ := sound.balanced.there (.inr (.inl mem))
  obtain ⟨marked, apart, _, counted, _⟩ := sound.balanced.at_some found
  have notLive : fd ∉ w.live := fun live => apart ⟨live, mem⟩
  have closed : e.closed = true := by
    cases closed : e.closed with
    | true => rfl
    | false => exact absurd (marked.mp closed) notLive
  obtain ⟨r, released, sets⟩ := Resolver.release_spec found
  unfold World.releaseOne
  rw [released]
  dsimp only
  have length := (List.perm_cons_erase mem).length_eq
  rw [List.length_cons] at length
  refine ⟨sound.balanced.update sets ?_ (fun _ _ => Iff.rfl) (fun fd' other => ?_) (fun _ _ => rfl) ?_,
    sound.live, sound.closes.erase fd, sound.running, fun shut => ?_,
    fun closing => sets.closed.trans (sound.closing closing)⟩
  · exact Row.closed (counted (.inr mem)) closed notLive sound.closes.not_mem_erase
  · exact List.mem_erase_of_ne other
  · rw [sound.balanced.gate, length]
    omega
  · exact sound.shut (sets.gateClosed ▸ shut) |>.imp_left fun closed => sets.closed.trans closed

/-- A callback on a descriptor, whatever it asks of the entry. -/
theorem Sound.callback (sound : w.Sound) {op : Op} {x : Resolver × Ret × Bool}
    (answer : x = (w.resolver, .error none, false) ∨ w.resolver.closed = false ∧
      ∃ e c, w.resolver.sockets.lookup fd = some e ∧ e.SameCount c.entry ∧
        x = w.resolver.store fd c) : (w.after fd op x).Sound := by
  rcases answer with rfl | ⟨open_, e, c, found, same, rfl⟩
  · exact sound
  · exact sound.after open_ found same op

theorem Sound.connect (sound : w.Sound) {sa : Option Nat} {f : Future Unit}
    (next : w.step (.connect fd sa f) = some w') : w'.Sound := by
  obtain ⟨_, next⟩ := Option.ite_none_left_eq_some.mp next
  obtain ⟨_, next⟩ := Option.ite_none_right_eq_some.mp next
  obtain ⟨x, answered, rfl⟩ := Option.map_eq_some_iff.mp next
  apply sound.callback
  unfold Resolver.doConnect at answered
  by_cases closed : w.resolver.closed
  · rw [if_pos closed] at answered
    exact .inl (Option.some.inj answered).symm
  · rw [if_neg closed] at answered
    have open_ : w.resolver.closed = false := Bool.eq_false_iff.mpr closed
    cases found : w.resolver.sockets.lookup fd with
    | none =>
        rw [found] at answered
        exact .inl (Option.some.inj answered).symm
    | some e =>
        rw [found] at answered
        dsimp only at answered
        obtain ⟨c, called, rfl⟩ := Option.map_eq_some_iff.mp answered
        exact .inr ⟨open_, e, c, rfl, SockEntry.connect_sameCount called, rfl⟩

theorem Sound.recvfrom (sound : w.Sound) {len : Nat} {read : Future (List Byte)}
    {receive : Future Datagram} (next : w.step (.recvfrom fd len read receive) = some w') :
    w'.Sound := by
  obtain ⟨_, next⟩ := Option.ite_none_left_eq_some.mp next
  obtain ⟨_, next⟩ := Option.ite_none_right_eq_some.mp next
  obtain ⟨x, answered, rfl⟩ := Option.map_eq_some_iff.mp next
  apply sound.callback
  unfold Resolver.doRecvfrom at answered
  by_cases closed : w.resolver.closed
  · rw [if_pos closed] at answered
    exact .inl (Option.some.inj answered).symm
  · rw [if_neg closed] at answered
    have open_ : w.resolver.closed = false := Bool.eq_false_iff.mpr closed
    cases found : w.resolver.sockets.lookup fd with
    | none =>
        rw [found] at answered
        exact .inl (Option.some.inj answered).symm
    | some e =>
        rw [found] at answered
        dsimp only at answered
        split at answered
        · rename_i c called
          exact .inr ⟨open_, e, c, rfl, SockEntry.recvfrom_sameCount called,
            (Option.some.inj answered).symm⟩
        · cases answered

theorem Sound.sendv (sound : w.Sound) {vec : List (List Byte)} {f : Future Unit}
    (next : w.step (.sendv fd vec f) = some w') : w'.Sound := by
  obtain ⟨_, next⟩ := Option.ite_none_left_eq_some.mp next
  obtain ⟨_, next⟩ := Option.ite_none_right_eq_some.mp next
  obtain ⟨x, answered, rfl⟩ := Option.map_eq_some_iff.mp next
  apply sound.callback
  unfold Resolver.doSendv at answered
  by_cases closed : w.resolver.closed
  · rw [if_pos closed] at answered
    exact .inl (Option.some.inj answered).symm
  · rw [if_neg closed] at answered
    have open_ : w.resolver.closed = false := Bool.eq_false_iff.mpr closed
    cases found : w.resolver.sockets.lookup fd with
    | none =>
        rw [found] at answered
        exact .inl (Option.some.inj answered).symm
    | some e =>
        rw [found] at answered
        dsimp only at answered
        split at answered
        · rename_i c called
          exact .inr ⟨open_, e, c, rfl, SockEntry.sendv_sameCount called,
            (Option.some.inj answered).symm⟩
        · cases answered

/-! ## Closing -/

/-- An entry that `do_close` finds open. -/
theorem doClose_spec (open_ : w.resolver.gateClosed = false)
    (found : w.resolver.sockets.lookup fd = some e) (fresh : e.closed = false) (out : Future Unit) :
    ∃ r, w.resolver.doClose fd out = some (r, e.closesLater out) ∧
      if e.closesLater out then
        w.resolver.Sets fd (some { e with closed := true }) (w.resolver.gate + 1) r
      else w.resolver.Sets fd { e with closed := true }.released w.resolver.gate r := by
  have marked := Resolver.sets_insert w.resolver fd { e with closed := true } (w.resolver.gate + 1)
  unfold Resolver.doClose
  rw [found, Option.bind_some, if_neg (by rw [fresh]; decide), if_neg (by rw [open_]; decide)]
  dsimp only
  cases later : e.closesLater out with
  | true => exact ⟨_, rfl, marked⟩
  | false =>
      obtain ⟨r, released, sets⟩ := Resolver.release_spec marked.here
      refine ⟨r, ?_, marked.trans sets⟩
      rw [if_neg Bool.false_ne_true]
      exact congrArg (Option.map (·, false)) released

/-- Whether `do_close` leaves an entry in the table. -/
def Stays (e : SockEntry) (out : Future Unit) : Prop :=
  e.closed = false → e.closesLater out = true ∨ 0 < e.pending

instance (e : SockEntry) (out : Future Unit) : Decidable (Stays e out) :=
  inferInstanceAs (Decidable (_ → _))

/-- `w'` is `w` after `do_close` on `fd`. -/
structure Shuts (fd : Nat) (stays : Prop) (w w' : World) : Prop where
  sound : w'.Sound
  others : ∀ fd', fd' ≠ fd →
    w'.resolver.sockets.lookup fd' = w.resolver.sockets.lookup fd'
  here : fd ∈ w'.resolver.sockets ↔ stays
  live : w'.live = w.live.erase fd
  closed : w'.resolver.closed = w.resolver.closed
  task : w'.task = w.task

theorem Sound.closeOne (sound : w.Sound) (found : w.resolver.sockets.lookup fd = some e)
    (out : Future Unit) (held : List Nat) :
    Shuts fd (Stays e out) w { w.closeOne fd out with held := held } := by
  obtain ⟨marked, apart, needed, counted, late⟩ := sound.balanced.at_some found
  cases open_ : e.closed with
  | true =>
      have notLive : fd ∉ w.live := fun live => nomatch open_.symm.trans (marked.mpr live)
      have same : w.resolver.doClose fd out = some (w.resolver, false) := by
        unfold Resolver.doClose
        rw [found, Option.bind_some, if_pos open_]
      unfold World.closeOne
      rw [same]
      dsimp only
      have unchanged : w.live.erase fd = w.live := List.erase_of_not_mem notLive
      refine ⟨⟨⟨sound.balanced.found, sound.balanced.whole, fun fd' => ?_, sound.balanced.gate⟩, ?_,
        sound.closes, sound.running, fun shut => ?_, sound.closing⟩, fun _ _ => rfl, ?_, rfl, rfl,
        rfl⟩
      · show Row (fd' ∈ w.live.erase fd) _ _ _
        rw [unchanged]
        exact sound.balanced.rows fd'
      · show (w.live.erase fd).Nodup
        rw [unchanged]
        exact sound.live
      · show _ ∧ w.live.erase fd = []
        rw [unchanged]
        exact sound.shut shut
      · have there : fd ∈ w.resolver.sockets := AList.lookup_isSome.mp (by rw [found]; rfl)
        exact iff_of_true there fun fresh => nomatch open_.symm.trans fresh
  | false =>
      have live := marked.mp open_
      have notClosing : fd ∉ w.closes := fun closing => apart ⟨live, closing⟩
      have gateOpen : w.resolver.gateClosed = false := by
        cases gate : w.resolver.gateClosed with
        | false => rfl
        | true =>
            rw [(sound.shut gate).2] at live
            exact absurd live List.not_mem_nil
      obtain ⟨r, done, sets⟩ := doClose_spec gateOpen found open_ out
      have erased : fd ∉ w.live.erase fd := sound.live.not_mem_erase
      have lives (fd' : Nat) (other : fd' ≠ fd) : fd' ∈ w.live.erase fd ↔ fd' ∈ w.live :=
        List.mem_erase_of_ne other
      unfold World.closeOne
      rw [done]
      dsimp only
      cases later : e.closesLater out with
      | true =>
          rw [later, if_pos rfl] at sets
          refine ⟨⟨sound.balanced.update sets ⟨?_, fun both => erased both.1,
              .inr (.inl List.mem_cons_self), fun _ => counted (.inl live),
              fun _ away => absurd List.mem_cons_self away⟩ lives (fun fd' other => ?_)
              (fun _ _ => rfl) ?_, sound.live.erase fd, List.nodup_cons.mpr ⟨notClosing, sound.closes⟩,
              sound.running, fun shut => ?_,
              fun closing => sets.closed.trans (sound.closing closing)⟩, sets.others, ?_, rfl,
              sets.closed, rfl⟩
          · exact ⟨fun h => (nomatch h), fun h => absurd h erased⟩
          · exact ⟨fun mem => (List.mem_cons.mp mem).resolve_left other, List.mem_cons_of_mem _⟩
          · rw [sound.balanced.gate, if_pos rfl, List.length_cons]
            omega
          · rw [sets.gateClosed, gateOpen] at shut
            cases shut
          · refine iff_of_true (AList.lookup_isSome.mp ?_) fun _ => .inl later
            rw [sets.here]
            rfl
      | false =>
          rw [later, if_neg Bool.false_ne_true] at sets
          refine ⟨⟨sound.balanced.update sets ?_ lives (fun _ _ => Iff.rfl) (fun _ _ => rfl)
              sound.balanced.gate, sound.live.erase fd, sound.closes, sound.running, fun shut => ?_,
              fun closing => sets.closed.trans (sound.closing closing)⟩,
              sets.others, ?_, rfl, sets.closed, rfl⟩
          · exact Row.closed (counted (.inl live)) rfl erased notClosing
          · rw [sets.gateClosed, gateOpen] at shut
            cases shut
          · have pending := counted (.inl live)
            show fd ∈ r.sockets ↔ _
            rw [← AList.lookup_isSome, sets.here, SockEntry.released]
            dsimp only
            constructor
            · intro stays fresh
              refine .inr ?_
              by_contra none_
              rw [if_pos (by omega)] at stays
              cases stays
            · intro stays
              have more := (stays open_).resolve_left (by rw [later]; decide)
              rw [if_neg (by omega)]
              rfl

theorem closeOne_held (w : World) (fd : Nat) (out : Future Unit) :
    { w.closeOne fd out with held := w.held } = w.closeOne fd out := by
  unfold World.closeOne
  split <;> rfl

/-- The entries of an order stay in the table when they are closed. -/
def AllStay (w : World) (outs : Nat → Future Unit) (order : List Nat) : Prop :=
  ∀ fd ∈ order, ∀ e, w.resolver.sockets.lookup fd = some e → Stays e (outs fd)

/-- One turn of the loop of `close()`. -/
theorem Sound.turn (sound : w.Sound) (outs : Nat → Future Unit) {order : List Nat}
    (nodup : (fd :: order).Nodup) (there : ∀ fd' ∈ fd :: order, fd' ∈ w.resolver.sockets) :
    ∃ e, w.resolver.sockets.lookup fd = some e ∧
      Shuts fd (Stays e (outs fd)) w (w.closeOne fd (outs fd)) ∧
      (∀ fd' ∈ order, fd' ∈ (w.closeOne fd (outs fd)).resolver.sockets) ∧
      ((w.closeOne fd (outs fd)).AllStay outs order ↔ w.AllStay outs order) := by
  obtain ⟨fresh, _⟩ := List.nodup_cons.mp nodup
  obtain ⟨e, found⟩ := Option.isSome_iff_exists.mp
    (AList.lookup_isSome.mpr (there fd List.mem_cons_self))
  have shuts := sound.closeOne found (outs fd) w.held
  rw [closeOne_held] at shuts
  have other (fd' : Nat) (mem : fd' ∈ order) : fd' ≠ fd := fun same => fresh (same ▸ mem)
  refine ⟨e, found, shuts, fun fd' mem => ?_, ?_⟩
  · rw [← AList.lookup_isSome, shuts.others fd' (other fd' mem), AList.lookup_isSome]
    exact there fd' (List.mem_cons_of_mem _ mem)
  · refine forall₂_congr fun fd' mem => ?_
    rw [shuts.others fd' (other fd' mem)]

/-- The loop of `close()`, when it erases nothing. -/
theorem Sound.loop (sound : w.Sound) {outs : Nat → Future Unit} {order : List Nat}
    (nodup : order.Nodup) (there : ∀ fd ∈ order, fd ∈ w.resolver.sockets)
    (stay : w.AllStay outs order) :
    (closeLoop outs order w).Sound ∧
      (∀ fd ∈ (closeLoop outs order w).live, fd ∈ w.live ∧ fd ∉ order) ∧
      (closeLoop outs order w).resolver.closed = w.resolver.closed := by
  induction order generalizing w with
  | nil => exact ⟨sound, fun fd live => ⟨live, List.not_mem_nil⟩, rfl⟩
  | cons fd order ih =>
      obtain ⟨e, found, shuts, there', stay'⟩ := sound.turn outs nodup there
      have here := shuts.here.mpr (stay fd List.mem_cons_self e found)
      have rest : w.AllStay outs order := fun fd' mem => stay fd' (List.mem_cons_of_mem _ mem)
      obtain ⟨sound', live, closed⟩ :=
        ih shuts.sound (List.nodup_cons.mp nodup).2 there' (stay'.mpr rest)
      unfold World.closeLoop
      dsimp only
      rw [shuts.sound.balanced.found, if_neg Bool.false_ne_true, if_pos here]
      refine ⟨sound', fun fd' mem => ?_, closed.trans shuts.closed⟩
      obtain ⟨before, away⟩ := live fd' mem
      rw [shuts.live] at before
      refine ⟨List.mem_of_mem_erase before, fun mem' => ?_⟩
      rcases List.mem_cons.mp mem' with rfl | later
      · exact sound.live.not_mem_erase before
      · exact away later

/-- What the loop of `close()` comes through is this. -/
theorem Sound.allStay (sound : w.Sound) {outs : Nat → Future Unit} {order : List Nat}
    (nodup : order.Nodup) (there : ∀ fd ∈ order, fd ∈ w.resolver.sockets)
    (whole : (closeLoop outs order w).torn = false) : w.AllStay outs order := by
  induction order generalizing w with
  | nil => exact fun fd mem => absurd mem List.not_mem_nil
  | cons fd order ih =>
      obtain ⟨e, found, shuts, there', stay'⟩ := sound.turn outs nodup there
      unfold World.closeLoop at whole
      dsimp only at whole
      rw [shuts.sound.balanced.found, if_neg Bool.false_ne_true] at whole
      by_cases here : fd ∈ (w.closeOne fd (outs fd)).resolver.sockets
      · rw [if_pos here] at whole
        have rest := stay'.mp (ih shuts.sound (List.nodup_cons.mp nodup).2 there' whole)
        intro fd' mem e' found'
        rcases List.mem_cons.mp mem with rfl | later
        · obtain rfl := Option.some.inj (found.symm.trans found')
          exact shuts.here.mp here
        · exact rest fd' later e' found'
      · rw [if_neg here] at whole
        cases whole

/-! ## Runs -/

/-- What a step must not meet: a loop of `close()` that comes to an open entry which its
`do_close` erases on the spot, and a close callback of c-ares for a descriptor that
`close()` has closed before and whose entry is gone. -/
def Met (w : World) : Event → Prop
  | .closeAll _ outs => ∀ x ∈ w.resolver.sockets.entries, Stays x.2 (outs x.1)
  | .close fd _ => fd ∈ w.resolver.sockets
  | _ => True

instance (w : World) (e : Event) : Decidable (w.Met e) := by
  cases e <;> unfold Met <;> infer_instance

/-- The loop goes over what is in the table. -/
theorem allStay_keys {outs : Nat → Future Unit} {order : List Nat}
    (perm : order.Perm w.resolver.sockets.keys) :
    w.AllStay outs order ↔ ∀ x ∈ w.resolver.sockets.entries, Stays x.2 (outs x.1) := by
  constructor
  · intro stay ⟨fd, e⟩ mem
    have found := AList.mem_lookup_iff.mpr mem
    refine stay fd (perm.mem_iff.mpr (AList.lookup_isSome.mp ?_)) e found
    rw [found]
    rfl
  · exact fun stay fd _ e found => stay ⟨fd, e⟩ (AList.mem_lookup_iff.mp found)

theorem Sound.closeAll (sound : w.Sound) {order : List Nat} {outs : Nat → Future Unit}
    (met : w.Met (.closeAll order outs))
    (next : w.step (.closeAll order outs) = some w') : w'.Sound := by
  obtain ⟨_, next⟩ := Option.ite_none_left_eq_some.mp next
  obtain ⟨⟨task, perm⟩, next⟩ := Option.ite_none_right_eq_some.mp next
  obtain rfl := Option.some.inj next
  have nodup : order.Nodup := perm.nodup_iff.mpr w.resolver.sockets.keys_nodup
  obtain ⟨sound', live, same⟩ := sound.loop nodup (fun fd mem => perm.mem_iff.mp mem)
    ((allStay_keys perm).mpr met)
  have balanced := sound'.balanced
  refine ⟨⟨balanced.found, balanced.whole, balanced.rows, balanced.gate⟩, sound'.live, sound'.closes,
    fun fd op runs => (nomatch runs), fun _ => ⟨same.trans (sound.closing task), ?_⟩,
    fun closing => (nomatch closing)⟩
  -- Whatever was live had an entry, and the loop has been there.
  apply List.eq_nil_iff_forall_not_mem.mpr
  intro fd mem
  obtain ⟨before, away⟩ := live fd mem
  obtain ⟨e, found⟩ := sound.balanced.there (.inl before)
  exact away (perm.mem_iff.mpr (AList.lookup_isSome.mp (by rw [found]; rfl)))

theorem Sound.close (sound : w.Sound) {out : Future Unit} (met : w.Met (.close fd out))
    (next : w.step (.close fd out) = some w') : w'.Sound := by
  obtain ⟨_, next⟩ := Option.ite_none_left_eq_some.mp next
  obtain ⟨_, next⟩ := Option.ite_none_right_eq_some.mp next
  obtain rfl := Option.some.inj next
  obtain ⟨e, found⟩ := Option.isSome_iff_exists.mp (AList.lookup_isSome.mpr met)
  exact (sound.closeOne found out _).sound

theorem Sound.cancel (sound : w.Sound) (next : w.step .cancel = some w') : w'.Sound := by
  obtain ⟨_, next⟩ := Option.ite_none_left_eq_some.mp next
  obtain ⟨_, next⟩ := Option.ite_none_right_eq_some.mp next
  obtain rfl := Option.some.inj next
  have balanced := sound.balanced
  exact ⟨⟨balanced.found, balanced.whole, balanced.rows, balanced.gate⟩, sound.live, sound.closes,
    fun fd op runs => (nomatch runs), fun shut => ⟨rfl, (sound.shut shut).2⟩, fun _ => rfl⟩

/-- One event. -/
theorem Sound.step {e : Event} (sound : w.Sound) (met : w.Met e) (next : w.step e = some w') :
    w'.Sound := by
  cases e with
  | socket type => exact sound.socket next
  | connect fd sa f => exact sound.connect next
  | recvfrom fd len read receive => exact sound.recvfrom next
  | sendv fd vec f => exact sound.sendv next
  | close fd out => exact sound.close met next
  | complete fd done => exact sound.complete next
  | finish => exact sound.finish next
  | outClosed fd => exact sound.outClosed next
  | cancel => exact sound.cancel next
  | closeAll order outs => exact sound.closeAll met next

/-- The other steps fail. -/
theorem met_of_kept {e : Event} (sound : w.Sound) (next : w.step e = some w') (kept : w'.Kept) :
    w.Met e := by
  cases e with
  | close fd out =>
      obtain ⟨_, next⟩ := Option.ite_none_left_eq_some.mp next
      obtain ⟨_, next⟩ := Option.ite_none_right_eq_some.mp next
      obtain rfl := Option.some.inj next
      by_contra gone
      have nothing : w.resolver.doClose fd out = none := by
        unfold Resolver.doClose
        rw [AList.lookup_eq_none.mpr gone]
        rfl
      have found := kept.found
      unfold World.closeOne at found
      rw [nothing] at found
      cases found
  | closeAll order outs =>
      obtain ⟨_, next⟩ := Option.ite_none_left_eq_some.mp next
      obtain ⟨⟨_, perm⟩, next⟩ := Option.ite_none_right_eq_some.mp next
      obtain rfl := Option.some.inj next
      have nodup : order.Nodup := perm.nodup_iff.mpr w.resolver.sockets.keys_nodup
      exact (allStay_keys perm).mp
        (sound.allStay nodup (fun fd mem => perm.mem_iff.mp mem) kept.whole)
  | _ => trivial

/-- The runs in which entries live for as long as they have to. -/
theorem kept_iff {es : List Event} (run : exec step start es = some w) :
    Always step Kept start es ↔ Along step Met start es :=
  Along.iff_always (I := Sound) (fun _ sound => sound.balanced.kept) (fun _ _ _ => Sound.step)
    (fun _ _ _ => met_of_kept) sound_start run

/-! ## A connection of c-ares -/

/-- A TCP socket that c-ares closes when it is polled after a write, and `close()` once
its output is closed. -/
def oneConnection : List Event :=
  [.socket .stream, .connect 1 (some 1) .pending, .complete 1 (.connected true), .finish,
    .sendv 1 [[7]] .pending, .complete 1 .sent, .close 1 .pending, .finish, .outClosed 1, .cancel,
    .closeAll [] fun _ => .ready ()]

theorem kept_oneConnection : ∃ w, exec step start oneConnection = some w ∧
    (Always step Kept start oneConnection ↔ Along step Met start oneConnection) ∧
      Along step Met start oneConnection := by
  have runs : (exec step start oneConnection).isSome := by decide +kernel
  obtain ⟨w, run⟩ := Option.isSome_iff_exists.mp runs
  exact ⟨w, run, kept_iff run, by decide +kernel⟩

/-- A socket that nothing is pending on is erased in the loop of `close()`, and where
something was pending c-ares may come back for an entry that is gone. -/
theorem kept_broken :
    (∃ w, exec step start [.socket .dgram, .cancel, .closeAll [1] fun _ => .ready ()] = some w ∧
      w.torn = true) ∧
    (∃ w, exec step start [.socket .dgram, .connect 1 (some 1) (.ready ()),
      .recvfrom 1 512 .pending .pending, .cancel, .closeAll [1] (fun _ => .ready ()),
      .complete 1 (.receive none), .finish, .close 1 (.ready ())] = some w ∧ w.lost = true) ∧
    ¬∀ es w, exec step start es = some w → w.Kept := by
  refine ⟨⟨_, rfl, rfl⟩, ⟨_, rfl, rfl⟩, fun all => ?_⟩
  have kept := all [.socket .dgram, .cancel, .closeAll [1] fun _ => .ready ()] _ rfl
  exact absurd kept.whole (by decide)

end World

end ActorNet.Dns
