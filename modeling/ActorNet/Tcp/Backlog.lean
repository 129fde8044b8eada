import ActorNet.Lib.Tally
import ActorNet.Tcp.HeaderBounds
import ActorNet.Tcp.Leaving

/-!
# The backlog of a listener

A listener counts a block from the SYN that makes it, and no longer when the
block is queued for accept. Nobody takes a block back that leaves in another
way, and `add_connected_tcb` finds the listener by its port: the count is right
on the runs on which counted blocks are only queued, by the listener they are
counted by.
-/

namespace ActorNet.Tcp

open Lib Net

variable {Q : Type} [BoundedQueue Nat Q] {host : Host}

namespace Listener

/-- What a listener that is waited for by `n` blocks keeps. -/
structure Booked (y : Listener Q) (n : Nat) : Prop where
  pending : y.pending.toNat = n
  room : n + (BoundedQueue.items y.q).length ≤ BoundedQueue.capacity y.q
  small : BoundedQueue.capacity y.q < 2 ^ 64

namespace Booked

variable {y : Listener Q} {n : Nat}

theorem full_iff (booked : y.Booked n) :
    y.full = true ↔ BoundedQueue.capacity y.q ≤ n + (BoundedQueue.items y.q).length := by
  obtain ⟨pending, room, small⟩ := booked
  unfold full
  rw [decide_eq_true_iff, BitVec.le_def, BitVec.toNat_add, BitVec.toNat_ofNat, BitVec.toNat_ofNat,
    pending, Nat.mod_eq_of_lt small, Nat.add_mod_mod, Nat.mod_eq_of_lt (by omega)]

theorem incPending (booked : y.Booked n) (room : y.full = false) : y.incPending.Booked (n + 1) := by
  have below : ¬BoundedQueue.capacity y.q ≤ n + (BoundedQueue.items y.q).length := by
    rw [← booked.full_iff, room]
    exact Bool.false_ne_true
  obtain ⟨pending, -, small⟩ := booked
  have counted : (y.pending + 1).toNat = n + 1 := by
    rw [BitVec.toNat_add, pending]
    exact Nat.mod_eq_of_lt (show n + 1 < 2 ^ 64 by omega)
  refine ⟨counted, ?_, small⟩
  show n + 1 + (BoundedQueue.items y.q).length ≤ BoundedQueue.capacity y.q
  omega

theorem pushConnected (b : Nat) (booked : y.Booked (n + 1)) : (y.pushConnected b).Booked n := by
  obtain ⟨pending, room, small⟩ := booked
  have counted : (y.pending - 1).toNat = n := by
    have one : (1 : BitVec 64).toNat = 1 := rfl
    rw [BitVec.toNat_sub, pending, one]
    omega
  have free : (BoundedQueue.items y.q).length < BoundedQueue.capacity y.q := by omega
  refine ⟨counted, ?_, ?_⟩
  · show n + (BoundedQueue.items (BoundedQueue.push b y.q)).length ≤
      BoundedQueue.capacity (BoundedQueue.push b y.q)
    rw [BoundedQueue.items_push_of_room b free, BoundedQueue.capacity_push, List.length_append]
    show n + ((BoundedQueue.items y.q).length + 1) ≤ _
    omega
  · show BoundedQueue.capacity (BoundedQueue.push b y.q) < 2 ^ 64
    rwa [BoundedQueue.capacity_push]

end Booked

end Listener

namespace Stack

variable {s s' : Stack Q}

/-! ## What a listener counts -/

/-- A block that a SYN for the listener `l` made waits for it, until it is
queued for accept or removed from `_tcbs`. -/
def waits (l : Nat) (s : Stack Q) (b : Nat) : Bool :=
  (s.blocks[b]?).any fun x => x.awaits == some l && s.tcbs x.tcb.id == some b

def waiting (l : Nat) (s : Stack Q) : Nat := tally s.blocks.length (s.waits l)

def live (s : Stack Q) (l : Nat) : Bool := (s.listeners[l]?).any Listener.alive

/-- The block that is found under a name is counted by a listener. -/
def counted (id : ConnId) (s : Stack Q) : Bool :=
  (s.tcbs id).any fun b => (s.blocks[b]?).any fun x => x.awaits.any s.live

/-- The listener that `add_connected_tcb` finds is the one that counts the block. -/
def findsCounter (x : Block) (s : Stack Q) : Bool :=
  (s.listening x.tcb.id.localPort).filter s.live == x.awaits.filter s.live

/-- The count is kept: no counted block is given up, and one whose handshake is
completed is queued by the listener that counts it. -/
def keepsCount (host : Host) (s : Stack Q) : StackEvent → Bool
  | .received _ _ _ p src dst => (s.delivers host.hw p src dst).all fun (x, h, q) =>
      if x.tcb.completes h q then s.findsCounter x
      else !(x.tcb.resetBy h q && s.counted x.tcb.id)
  | .tcb b e => (s.blocks[b]?).all fun x => !(x.tcb.givesUp e && s.counted x.tcb.id)
  | _ => true

/-- The blocks that a listener waits for are in their handshake. -/
def Handshaking (s : Stack Q) : Prop :=
  ∀ l b t, s.live l = true → s.waits l b = true → s.tcb? b = some t → t.state = .synReceived

/-- The tables and the counters of the listeners agree with each other. -/
structure Counted (s : Stack Q) : Prop where
  entry : ∀ id b, s.tcbs id = some b → ∃ x, s.blocks[b]? = some x ∧ x.tcb.id = id
  met : ∀ (b : Nat) (x : Block), s.blocks[b]? = some x → x.tcb.requests = []
  creator : ∀ (b : Nat) (x : Block) (l : Nat), s.blocks[b]? = some x → x.awaits = some l → l < s.listeners.length
  registered : ∀ port l, s.listening port = some l → l < s.listeners.length
  booked : ∀ (l : Nat) (y : Listener Q), s.listeners[l]? = some y → y.alive = true →
    y.Booked (s.waiting l)

/-- A listener of the state after a step was there, and what it waits for it
waited for before. -/
structure Follows (s s' : Stack Q) : Prop where
  counted : s'.Counted
  live : ∀ l, s'.live l = true → s.live l = true
  waits : ∀ l b, s'.live l = true → s'.waits l b = true → s.waits l b = true

theorem Follows.trans {s'' : Stack Q} (first : Follows s s') (second : Follows s' s'') :
    Follows s s'' where
  counted := second.counted
  live := fun l live => first.live l (second.live l live)
  waits := fun l b live waits =>
    first.waits l b (second.live l live) (second.waits l b live waits)

omit [BoundedQueue Nat Q] in
theorem waits_iff {l b : Nat} : s.waits l b = true ↔
    ∃ x, s.blocks[b]? = some x ∧ x.awaits = some l ∧ s.tcbs x.tcb.id = some b := by
  unfold waits
  rw [Option.any_eq_true]
  simp only [Bool.and_eq_true, beq_iff_eq]
  
omit [BoundedQueue Nat Q] in
theorem live_iff {l : Nat} : s.live l = true ↔ ∃ y, s.listeners[l]? = some y ∧ y.alive = true := by
  unfold live
  rw [Option.any_eq_true]

omit [BoundedQueue Nat Q] in
/-- A block that a live listener waits for is counted. -/
theorem counted_of_waits {l b : Nat} {x : Block} (live : s.live l = true)
    (waits : s.waits l b = true) (here : s.blocks[b]? = some x) : s.counted x.tcb.id = true := by
  obtain ⟨x', here', awaits, found⟩ := waits_iff.mp waits
  cases Option.some.inj (here'.symm.trans here)
  unfold counted
  rw [found, Option.any_some, here, Option.any_some, awaits]
  exact live

omit [BoundedQueue Nat Q] in
theorem waiting_congr {l : Nat} (length : s'.blocks.length = s.blocks.length)
    (same : ∀ b, s'.waits l b = s.waits l b) : s'.waiting l = s.waiting l := by
  unfold waiting
  rw [length]
  exact tally_congr fun b _ => same b

/-! ## What the functions of a stack do to the counts -/

variable {b : Nat} {x : Block} {t : Tcb}

omit [BoundedQueue Nat Q] in
theorem putTcb_waits (here : s.blocks[b]? = some x) (id : t.id = x.tcb.id) (l j : Nat) :
    (s.putTcb b t).waits l j = s.waits l j := by
  unfold waits
  rw [putTcb_blocks here j]
  split
  · rename_i same
    rw [same, here, Option.any_some, Option.any_some]
    show (x.awaits == some l && s.tcbs t.id == some b) = _
    rw [id]
  · rfl

theorem Counted.putTcb (counted : s.Counted) (here : s.blocks[b]? = some x)
    (id : t.id = x.tcb.id) : Follows s (s.putTcb b t) := by
  have waits := @putTcb_waits Q s b x t here id
  refine ⟨⟨?_, ?_, ?_, counted.registered, ?_⟩, fun l live => live,
    fun l j _ => (waits l j).symm.trans⟩
  · intro id' j found
    obtain ⟨y, there, name⟩ := counted.entry id' j found
    rw [putTcb_blocks here j]
    split
    · rename_i same
      rw [same, here] at there
      cases there
      exact ⟨_, rfl, id.trans name⟩
    · exact ⟨y, there, name⟩
  · intro j y there
    rw [putTcb_blocks here j] at there
    split at there
    · cases there
      rfl
    · exact counted.met j y there
  · intro j y l there awaits
    rw [putTcb_blocks here j] at there
    split at there
    · cases there
      exact counted.creator b x l here awaits
    · exact counted.creator j y l there awaits
  · intro l y there alive
    have same : (s.putTcb b t).waiting l = s.waiting l :=
      waiting_congr (List.length_modify ..) (waits l)
    rw [same]
    exact counted.booked l y there alive

/-- A name under which no counted block is found can be removed. -/
theorem Counted.remove {id : ConnId} (counted : s.Counted) (spared : s.counted id = false) :
    Follows s { s with tcbs := Function.update s.tcbs id none } := by
  have fewer : ∀ l j, waits l { s with tcbs := Function.update s.tcbs id none } j = true →
      s.waits l j = true := by
    intro l j waits
    obtain ⟨y, there, awaits, found⟩ := waits_iff.mp waits
    exact waits_iff.mpr ⟨y, there, awaits, (update_none_iff.mp found).2⟩
  refine ⟨⟨?_, counted.met, counted.creator, counted.registered, ?_⟩, fun l live => live,
    fun l j _ => fewer l j⟩
  · intro id' j found
    exact counted.entry id' j (update_none_iff.mp found).2
  · intro l y there alive
    have live : s.live l = true := live_iff.mpr ⟨y, there, alive⟩
    have same : waiting l { s with tcbs := Function.update s.tcbs id none } = s.waiting l := by
      refine waiting_congr rfl fun j => Bool.eq_iff_iff.mpr ⟨fewer l j, fun before => ?_⟩
      obtain ⟨z, here, awaits, found⟩ := waits_iff.mp before
      have other : z.tcb.id ≠ id := by
        intro name
        rw [← name, counted_of_waits live before here] at spared
        cases spared
      exact waits_iff.mpr ⟨z, here, awaits, update_none_iff.mpr ⟨other, found⟩⟩
    rw [same]
    exact counted.booked l y there alive

omit [BoundedQueue Nat Q] in
theorem live_of_modify (f : Listener Q → Listener Q) {l l' : Nat}
    (alive : ∀ y, (f y).alive = true → y.alive = true)
    (live : ((s.listeners.modify l f)[l']?).any Listener.alive = true) : s.live l' = true := by
  obtain ⟨y', there, living⟩ := (Option.any_eq_true ..).mp live
  obtain ⟨y, before, changed⟩ := modify_listener there
  refine live_iff.mpr ⟨y, before, ?_⟩
  split at changed
  · subst changed
    exact alive y living
  · subst changed
    exact living

/-- A listener queues a block. -/
def pushConnected (b l : Nat) (s : Stack Q) : Stack Q :=
  { s with
    listeners := s.listeners.modify l (Listener.pushConnected b)
    blocks := s.blocks.modify b fun x => { x with awaits := none } }

theorem pushConnected_blocks (here : s.blocks[b]? = some x) (l j : Nat) :
    (s.pushConnected b l).blocks[j]? =
      if j = b then some { x with awaits := none } else s.blocks[j]? :=
  modify_blocks _ here j

theorem pushConnected_waits (here : s.blocks[b]? = some x) (l l' j : Nat) :
    (s.pushConnected b l).waits l' j = if j = b then false else s.waits l' j := by
  unfold waits
  rw [pushConnected_blocks here l j]
  split
  · rfl
  · rfl

/-- The listener that counts a block queues it, and counts it no more. -/
theorem Counted.pushConnected {l : Nat} (counted : s.Counted) (here : s.blocks[b]? = some x)
    (finds : ∀ l', s.live l' = true → (s.waits l' b = true ↔ l = l')) :
    (s.pushConnected b l).Counted := by
  have inside : b < s.blocks.length := (List.getElem?_eq_some_iff.mp here).1
  have length : (s.pushConnected b l).blocks.length = s.blocks.length := List.length_modify ..
  have many : (s.pushConnected b l).listeners.length = s.listeners.length := List.length_modify ..
  refine ⟨?_, ?_, ?_, fun port l' found => many ▸ counted.registered port l' found, ?_⟩
  · intro id j found
    obtain ⟨y, there, name⟩ := counted.entry id j found
    rw [pushConnected_blocks here l j]
    split
    · rename_i same
      rw [same, here] at there
      cases there
      exact ⟨_, rfl, name⟩
    · exact ⟨y, there, name⟩
  · intro j y there
    rw [pushConnected_blocks here l j] at there
    split at there
    · cases there
      exact counted.met b x here
    · exact counted.met j y there
  · intro j y l' there awaits
    rw [pushConnected_blocks here l j] at there
    split at there
    · cases there
      cases awaits
    · exact many ▸ counted.creator j y l' there awaits
  · intro l' y' there alive
    have live : s.live l' = true :=
      live_of_modify (.pushConnected b) (fun y alive => alive) (live_iff.mpr ⟨y', there, alive⟩)
    obtain ⟨y, before, changed⟩ := modify_listener there
    have waits := pushConnected_waits here l l'
    split at changed
    · rename_i same
      subst changed
      have leaves : (s.pushConnected b l).waiting l' + 1 = s.waiting l' := by
        unfold waiting
        rw [length]
        refine tally_leave inside ((finds l' live).mpr same) ?_ fun j other => ?_
        · rw [waits b, if_pos rfl]
        · rw [waits j, if_neg other]
      have booked := counted.booked l' y before alive
      rw [← leaves] at booked
      exact booked.pushConnected b
    · rename_i other
      subst changed
      have same : (s.pushConnected b l).waiting l' = s.waiting l' := by
        refine waiting_congr length fun j => ?_
        rw [waits j]
        split
        · rename_i here'
          rw [here']
          exact (Bool.eq_false_iff.mpr (mt (finds l' live).mp other)).symm
        · rfl
      rw [same]
      exact counted.booked l' y' before alive

/-- So does `add_connected_tcb`, when it finds that listener. -/
theorem Counted.addConnectedTcb (counted : s.Counted) (here : s.blocks[b]? = some x)
    (found : s.tcbs x.tcb.id = some b) (finds : s.findsCounter x = true) :
    Follows s (s.addConnectedTcb b x.tcb.id.localPort) ∧
      ∀ l, s.live l = true → (s.addConnectedTcb b x.tcb.id.localPort).waits l b = false := by
  unfold findsCounter at finds
  have finds := eq_of_beq finds
  have mine : ∀ l, s.live l = true →
      (s.waits l b = true ↔ s.listening x.tcb.id.localPort = some l) := by
    intro l live
    have sole : s.waits l b = true ↔ x.awaits = some l := by
      rw [waits_iff, here]
      simp [found]
    have both := congrArg (fun o => o = some l) finds
    simp only [Option.filter_eq_some_iff, live, and_true] at both
    rw [sole, both]
  unfold Stack.addConnectedTcb
  cases listens : s.listening x.tcb.id.localPort with
  | none =>
      refine ⟨⟨counted, fun l live => live, fun l j _ waits => waits⟩, fun l live => ?_⟩
      rw [Bool.eq_false_iff, Ne, mine l live, listens]
      exact fun absent => nomatch absent
  | some l =>
      have waits := pushConnected_waits here l
      refine ⟨⟨counted.pushConnected here fun l' live => ?_,
        fun l' => live_of_modify _ fun y alive => alive, fun l' j _ still => ?_⟩, fun l' _ => ?_⟩
      · rw [mine l' live, listens, Option.some_inj]
      · have still : (s.pushConnected b l).waits l' j = true := still
        rw [waits l' j] at still
        split at still
        · cases still
        · exact still
      · exact (waits l' b).trans (if_pos rfl)

theorem Follows.resets {resets : List Reset} (follows : Follows s s') :
    Follows s { s' with resets } where
  counted := ⟨follows.counted.entry, follows.counted.met, follows.counted.creator,
    follows.counted.registered, follows.counted.booked⟩
  live := follows.live
  waits := follows.waits

/-- A handler that does not ask to be queued, and leaves `_tcbs` only if it is
not counted. -/
theorem Counted.onTcb (counted : s.Counted) (here : s.blocks[b]? = some x) {handler : Tcb → Tcb}
    (id : (handler x.tcb).id = x.tcb.id) (noAdd : .addConnectedTcb ∉ (handler x.tcb).requests)
    (spared : .removeFromTcbs ∈ (handler x.tcb).requests → s.counted x.tcb.id = false) :
    Follows s (s.onTcb b handler) := by
  obtain ⟨resets, tcbs, result, table⟩ := @foldl_meet_of_noAdd Q _ (s.putTcb b (handler x.tcb)) b
    (handler x.tcb).id _ noAdd
  rw [onTcb_eq here, result]
  rcases table with same | ⟨removes, removed⟩
  · subst same
    exact (counted.putTcb here id).resets
  · have removal := counted.remove (spared removes)
    rw [removed, id]
    exact (removal.trans (removal.counted.putTcb here id)).resets

/-- A handler that asks to be queued, when its listener is the one that is found. -/
theorem Counted.onTcb_queued (counted : s.Counted) (here : s.blocks[b]? = some x)
    {handler : Tcb → Tcb} (id : (handler x.tcb).id = x.tcb.id)
    (asks : (handler x.tcb).requests = [.addConnectedTcb]) (found : s.tcbs x.tcb.id = some b)
    (finds : s.findsCounter x = true) : Follows s (s.onTcb b handler) ∧
      ∀ l, s.live l = true → (s.onTcb b handler).waits l b = false := by
  obtain ⟨follows, queued⟩ := counted.addConnectedTcb here found finds
  have result : s.onTcb b handler =
      (s.addConnectedTcb b x.tcb.id.localPort).putTcb b (handler x.tcb) := by
    rw [onTcb_eq here, asks, id]
    exact putTcb_addConnectedTcb x.tcb.id.localPort s
  obtain ⟨x', here', same⟩ : ∃ x', (s.addConnectedTcb b x.tcb.id.localPort).blocks[b]? = some x' ∧
      x'.tcb = x.tcb := by
    have kept := (@addConnectedTcb_frame Q _ b x.tcb.id.localPort s).2 b
    unfold tcb? at kept
    rw [here] at kept
    exact Option.map_eq_some_iff.mp kept
  have id : (handler x.tcb).id = x'.tcb.id := same ▸ id
  rw [result]
  refine ⟨follows.trans (follows.counted.putTcb here' id), fun l live => ?_⟩
  rw [putTcb_waits here' id]
  exact queued l live

theorem Counted.below (counted : s.Counted) {id : ConnId} {j : Nat}
    (found : s.tcbs id = some j) : j < s.blocks.length := by
  obtain ⟨y, there, -⟩ := counted.entry id j found
  exact (List.getElem?_eq_some_iff.mp there).1

theorem Counted.insertTcb_waits (counted : s.Counted) (id : ConnId) (memory : Tcb)
    (awaits : Option Nat) (l j : Nat) : (s.insertTcb id memory awaits).waits l j =
      if j = s.blocks.length then decide (awaits = some l ∧ s.tcbs id = none)
      else s.waits l j := by
  rw [Bool.eq_iff_iff, waits_iff, insertTcb_blocks]
  split
  · rename_i last
    have entry : (s.insertTcb id memory awaits).tcbs id = some j ↔ s.tcbs id = none := by
      rw [insertTcb_tcbs]
      simp only [true_and]
      split
      · rename_i absent
        simp [absent, last]
      · rename_i present
        refine ⟨fun found => ?_, fun absent => absurd absent present⟩
        have inside := counted.below found
        omega
    constructor
    · rintro ⟨y, same, waits, found⟩
      cases same
      exact decide_eq_true ⟨waits, entry.mp found⟩
    · intro both
      have both := of_decide_eq_true both
      exact ⟨_, rfl, both.1, entry.mpr both.2⟩
  · rename_i other
    rw [waits_iff]
    refine exists_congr fun y => and_congr_right fun _ => and_congr_right fun _ => ?_
    rw [insertTcb_tcbs]
    split
    · rename_i new
      rw [new.1, new.2]
      simp [Ne.symm other]
    · rfl

/-- A new block, and what its listener counts with it. -/
theorem Counted.insertTcb (counted : s.Counted) {id : ConnId} {memory : Tcb} {awaits : Option Nat}
    {listeners : List (Listener Q)} (same : listeners.length = s.listeners.length)
    (creator : ∀ l, awaits = some l → l < s.listeners.length)
    (booked : ∀ (l : Nat) (y : Listener Q), listeners[l]? = some y → y.alive = true →
      y.Booked (s.waiting l + if awaits = some l ∧ s.tcbs id = none then 1 else 0)) :
    ({ s.insertTcb id memory awaits with listeners }).Counted := by
  have blocks := insertTcb_blocks id memory awaits s
  refine ⟨?_, ?_, ?_, fun port l found => same ▸ counted.registered port l found, ?_⟩
  · intro id' j found
    have found : (s.insertTcb id memory awaits).tcbs id' = some j := found
    show ∃ x, (s.insertTcb id memory awaits).blocks[j]? = some x ∧ x.tcb.id = id'
    rw [insertTcb_tcbs] at found
    split at found
    · rename_i new
      cases found
      exact ⟨_, insertTcb_last id memory awaits s, new.1.symm⟩
    · have inside := counted.below found
      rw [blocks j, if_neg (by omega)]
      exact counted.entry id' j found
  · intro j y there
    have there : (s.insertTcb id memory awaits).blocks[j]? = some y := there
    rw [blocks j] at there
    split at there
    · cases there
      rfl
    · exact counted.met j y there
  · intro j y l there waits
    have there : (s.insertTcb id memory awaits).blocks[j]? = some y := there
    rw [blocks j] at there
    show l < listeners.length
    rw [same]
    split at there
    · cases there
      exact creator l waits
    · exact counted.creator j y l there waits
  · intro l y there alive
    have count : (s.insertTcb id memory awaits).waiting l =
        s.waiting l + if awaits = some l ∧ s.tcbs id = none then 1 else 0 := by
      have waits := counted.insertTcb_waits id memory awaits l
      have more : (s.insertTcb id memory awaits).blocks.length = s.blocks.length + 1 := by
        unfold Stack.insertTcb
        simp
      unfold waiting
      rw [more, @tally_succ _ (s.waits l) _ fun j inside => ?_, waits, if_pos rfl]
      · congr 1
        simp only [decide_eq_true_eq]
      · rw [waits, if_neg (by omega)]
    have booked := booked l y there alive
    rw [← count] at booked
    exact booked

/-- What an operation on one listener keeps. -/
theorem Counted.modifyListener (counted : s.Counted) {f : Listener Q → Listener Q} {l : Nat}
    {listening : BitVec 16 → Option Nat}
    (registered : ∀ port l, listening port = some l → s.listening port = some l)
    (alive : ∀ y, (f y).alive = true → y.alive = true)
    (booked : ∀ (y : Listener Q) n, y.Booked n → (f y).Booked n) :
    Follows s { s with listeners := s.listeners.modify l f, listening } := by
  have many : (s.listeners.modify l f).length = s.listeners.length := List.length_modify ..
  refine ⟨⟨counted.entry, counted.met, ?_, ?_, ?_⟩, fun l' => live_of_modify f alive,
    fun l' j _ waits => waits⟩
  · intro j y l' there awaits
    exact many ▸ counted.creator j y l' there awaits
  · intro port l' found
    exact many ▸ counted.registered port l' (registered port l' found)
  · intro l' y' there living
    obtain ⟨y, before, changed⟩ := modify_listener there
    split at changed
    · subst changed
      exact booked y _ (counted.booked l' y before (alive y living))
    · subst changed
      exact counted.booked l' y' before living

theorem Counted.destroyListener (counted : s.Counted) (l : Nat) :
    Follows s (s.destroyListener l) := by
  unfold Stack.destroyListener
  split
  · exact ⟨counted, fun l live => live, fun l j _ waits => waits⟩
  · rename_i x there
    refine counted.modifyListener ?_ (fun y dead => by cases dead) fun y n booked =>
      ⟨booked.pending, booked.room, booked.small⟩
    intro port l' found
    split at found
    · exact found
    · by_cases same : port = x.port
      · rw [same, Function.update_self] at found
        cases found
      · rwa [Function.update_of_ne same] at found

theorem Counted.accept (counted : s.Counted) (l : Nat) : Follows s (s.accept l) := by
  refine counted.modifyListener (fun _ _ found => found) (fun y alive => alive) fun y n booked => ?_
  refine ⟨booked.pending, ?_, ?_⟩
  · show n + (BoundedQueue.items (BoundedQueue.pop y.q)).length ≤
      BoundedQueue.capacity (BoundedQueue.pop y.q)
    rw [BoundedQueue.items_pop, BoundedQueue.capacity_pop, List.length_tail]
    have room := booked.room
    omega
  · exact (BoundedQueue.capacity_pop y.q).symm ▸ booked.small

theorem Counted.abortAccept (counted : s.Counted) (l : Nat) : Follows s (s.abortAccept l) := by
  refine counted.modifyListener (fun _ _ found => found) (fun y alive => alive) fun y n booked => ?_
  refine ⟨booked.pending, ?_, ?_⟩
  · show n + (BoundedQueue.items (BoundedQueue.abort y.q)).length ≤
      BoundedQueue.capacity (BoundedQueue.abort y.q)
    rw [BoundedQueue.items_abort, BoundedQueue.capacity_abort, List.length_nil]
    have room := booked.room
    omega
  · exact (BoundedQueue.capacity_abort y.q).symm ▸ booked.small

/-- Nobody waits for a listener that is not there yet. -/
theorem Counted.waits_below (counted : s.Counted) {l j : Nat} (waits : s.waits l j = true) :
    l < s.listeners.length := by
  obtain ⟨y, there, awaits, -⟩ := waits_iff.mp waits
  exact counted.creator j y l there awaits

theorem Counted.listen (counted : s.Counted) (port : BitVec 16) (queueLength : BitVec 64) :
    (s.listen port queueLength).Counted := by
  have more : (s.listen port queueLength).listeners.length = s.listeners.length + 1 := by
    unfold Stack.listen
    simp
  refine ⟨counted.entry, counted.met, ?_, ?_, ?_⟩
  · intro j y l there awaits
    have below := counted.creator j y l there awaits
    omega
  · intro port' l found
    unfold Stack.listen at found
    dsimp only at found
    have old : s.listening port' = some l → l < (s.listen port queueLength).listeners.length := by
      intro found
      have below := counted.registered port' l found
      omega
    split at found
    · exact old found
    · by_cases same : port' = port
      · rw [same, Function.update_self] at found
        cases found
        omega
      · exact old (by rwa [Function.update_of_ne same] at found)
  · intro l y there alive
    unfold Stack.listen at there
    dsimp only at there
    rw [List.getElem?_append] at there
    split at there
    · exact counted.booked l y there alive
    · rename_i past
      rw [List.getElem?_singleton] at there
      split at there
      · cases there
        have nobody : s.waiting l = 0 := by
          by_contra some
          have some := Nat.pos_of_ne_zero some
          obtain ⟨j, -, waits⟩ := exists_of_tally_pos some
          exact past (counted.waits_below waits)
        show Listener.Booked _ (s.waiting l)
        rw [nobody]
        refine ⟨rfl, ?_, ?_⟩
        · show 0 + (BoundedQueue.items (BoundedQueue.ofCapacity queueLength.toNat)).length ≤ _
          rw [BoundedQueue.items_ofCapacity]
          exact Nat.zero_le _
        · show BoundedQueue.capacity (BoundedQueue.ofCapacity queueLength.toNat) < 2 ^ 64
          rw [BoundedQueue.capacity_ofCapacity]
          exact queueLength.isLt
      · cases there

/-! ## Runs -/

theorem Follows.handshaking (follows : Follows s s') (handshaking : s.Handshaking)
    (same : ∀ j, s'.tcb? j = s.tcb? j) : s'.Handshaking := by
  intro l j t live waits there
  exact handshaking l j t (follows.live l live) (follows.waits l j live waits) (same j ▸ there)

/-- After a handler of the block `b`, when all others are in their handshake. -/
theorem Follows.handshaking_onTcb {handler : Tcb → Tcb} (follows : Follows s (s.onTcb b handler))
    (here : s.blocks[b]? = some x)
    (others : ∀ l j t, j ≠ b → s.live l = true → s.waits l j = true → s.tcb? j = some t →
      t.state = .synReceived)
    (own : ∀ l, s.live l = true → s.waits l b = true → (s.onTcb b handler).waits l b = true →
      (handler x.tcb).state = .synReceived) : (s.onTcb b handler).Handshaking := by
  intro l j t live waits there
  have before := follows.live l live
  have waited := follows.waits l j live waits
  rw [(onTcb_frame here handler).2 j] at there
  split at there
  · rename_i same
    cases there
    subst same
    exact own l before waited waits
  · rename_i other
    exact others l j t other before waited there

/-- What holds on every run that keeps the count. -/
def Accounted (s : Stack Q) : Prop := s.Counted ∧ (s.crash = none → s.Handshaking)

omit [BoundedQueue Nat Q] in
theorem waits_of_counted {id : ConnId} (here : s.blocks[b]? = some x) (name : x.tcb.id = id)
    (found : s.tcbs id = some b) (counts : s.counted id = true) :
    ∃ l, s.live l = true ∧ s.waits l b = true := by
  unfold counted at counts
  rw [found, Option.any_some, here, Option.any_some, Option.any_eq_true] at counts
  obtain ⟨l, awaits, live⟩ := counts
  exact ⟨l, live, waits_iff.mpr ⟨x, here, awaits, name ▸ found⟩⟩

/-- A block meets an event on its own. -/
theorem Counted.tcbEvent (counted : s.Counted) (handshaking : s.Handshaking)
    (here : s.blocks[b]? = some x) (e : TcbEvent) (own : e.own = true)
    (kept : (x.tcb.givesUp e && s.counted x.tcb.id) = false) :
    Follows s (s.onTcb b fun t => t.handle host.hw e) ∧
      (s.onTcb b fun t => t.handle host.hw e).Handshaking := by
  have quiet := counted.met b x here
  have onward : Tcb.Onward x.tcb (x.tcb.handle host.hw e) :=
    Tcb.handle_onward e (by cases e <;> first | rfl | cases own)
  have stays : s.counted x.tcb.id = true → Tcb.Stays x.tcb (x.tcb.handle host.hw e) := by
    intro counts
    rw [counts, Bool.and_true] at kept
    exact Tcb.handle_stays e own kept
  have follows : Follows s (s.onTcb b fun t => t.handle host.hw e) := by
    refine counted.onTcb here onward.id ?_ ?_
    · intro mem
      have before := onward.asks mem
      rw [quiet] at before
      cases before
    · intro mem
      rw [Bool.eq_false_iff]
      intro counts
      have before := (stays counts).removal mem
      rw [quiet] at before
      cases before
  refine ⟨follows, follows.handshaking_onTcb here ?_ ?_⟩
  · exact fun l j t _ => handshaking l j t
  · intro l live waits _
    refine (stays (counted_of_waits live waits here)).state (handshaking l b x.tcb live waits ?_)
    unfold tcb?
    rw [here]
    rfl

/-- A block gets a segment. -/
theorem Counted.segment (counted : s.Counted) (handshaking : s.Handshaking)
    (here : s.blocks[b]? = some x) (found : s.tcbs x.tcb.id = some b) (hw : HwFeatures)
    (beyond : Nat → Byte) (h : TcpHdr) (q : Impl)
    (kept : (if x.tcb.completes h q then s.findsCounter x
      else !(x.tcb.resetBy h q && s.counted x.tcb.id)) = true) :
    Follows s (s.onTcb b (Tcb.inputHandle hw beyond h q)) ∧
      (s.onTcb b (Tcb.inputHandle hw beyond h q)).Handshaking := by
  have quiet := counted.met b x here
  have others : ∀ l j t, j ≠ b → s.live l = true → s.waits l j = true → s.tcb? j = some t →
      t.state = .synReceived := fun l j t _ => handshaking l j t
  have tcb : s.tcb? b = some x.tcb := by
    unfold tcb?
    rw [here]
    rfl
  cases done : x.tcb.completes h q with
  | true =>
      rw [done, if_pos rfl] at kept
      have received : x.tcb.state ≠ .synSent := by
        obtain ⟨-, -, completes, -⟩ := @Tcb.inputHandleOtherState_of_completes _ hw h q done
        simp only [Tcb.completesHandshake, Tcb.inState, Bool.and_eq_true, decide_eq_true_eq,
          List.mem_singleton] at completes
        rw [completes.1.1.1.1.1]
        intro same
        cases same
      have handler : x.tcb.inputHandle hw beyond h q = x.tcb.inputHandleOtherState hw h q :=
        if_neg received
      obtain ⟨id, asks⟩ := @Tcb.inputHandleOtherState_completes x.tcb hw h q done
      rw [quiet, List.nil_append, ← handler] at asks
      rw [← handler] at id
      obtain ⟨follows, queued⟩ := counted.onTcb_queued here id asks found kept
      refine ⟨follows, follows.handshaking_onTcb here others fun l live _ still => ?_⟩
      rw [queued l live] at still
      cases still
  | false =>
      rw [done, if_neg Bool.false_ne_true, Bool.not_eq_true'] at kept
      obtain ⟨id, asks⟩ := @Tcb.inputHandle_asks x.tcb hw beyond h q done
      -- a block that is counted is in its handshake, and is not reset
      have stays : ∀ l, s.live l = true → s.waits l b = true →
          Tcb.Stays x.tcb (x.tcb.inputHandle hw beyond h q) ∧ x.tcb.state = .synReceived := by
        intro l live waits
        have state := handshaking l b x.tcb live waits tcb
        rw [counted_of_waits live waits here, Bool.and_true] at kept
        have handler : x.tcb.inputHandle hw beyond h q = x.tcb.inputHandleOtherState hw h q :=
          if_neg (by rw [state]; intro same; cases same)
        rw [handler]
        exact ⟨Tcb.inputHandleOtherState_stays h q state done kept, state⟩
      have follows : Follows s (s.onTcb b (Tcb.inputHandle hw beyond h q)) := by
        refine counted.onTcb here id ?_ ?_
        · intro mem
          have before := asks mem
          rw [quiet] at before
          cases before
        · intro mem
          rw [Bool.eq_false_iff]
          intro counts
          obtain ⟨l, live, waits⟩ := waits_of_counted here rfl found counts
          have before := (stays l live waits).1.removal mem
          rw [quiet] at before
          cases before
      refine ⟨follows, follows.handshaking_onTcb here others fun l live waits _ => ?_⟩
      obtain ⟨stays, state⟩ := stays l live waits
      exact stays.state state

/-- A new block leaves the others alone. -/
theorem Counted.insertTcb_others (counted : s.Counted) (handshaking : s.Handshaking)
    {id : ConnId} {memory : Tcb} {awaits : Option Nat} {l j : Nat} (other : j ≠ s.blocks.length)
    (live : s.live l = true) (waits : (s.insertTcb id memory awaits).waits l j = true)
    (there : (s.insertTcb id memory awaits).tcb? j = some t) : t.state = .synReceived := by
  rw [counted.insertTcb_waits, if_neg other] at waits
  unfold tcb? at there
  rw [insertTcb_blocks, if_neg other] at there
  exact handshaking l j t live waits there

/-- `connect` makes a block that nobody counts. -/
theorem Counted.connect (counted : s.Counted) (handshaking : s.Handshaking) (hw : HwFeatures)
    (iss : TcpSeq) (memory : Tcb) (id : ConnId) :
    (s.connect hw iss memory id).Counted ∧ (s.connect hw iss memory id).Handshaking := by
  have inserted : (s.insertTcb id memory none).Counted :=
    counted.insertTcb rfl (fun l awaits => by cases awaits) fun l y there alive => by
      simpa using counted.booked l y there alive
  have here := insertTcb_last id memory none s
  obtain ⟨name, requests⟩ := Tcb.connect_asks hw iss (Tcb.new id memory)
  have none_ : ∀ r, r ∉ ((Tcb.new id memory).connect hw iss).requests := by
    intro r mem
    rw [requests] at mem
    cases mem
  have follows := inserted.onTcb here name (none_ _) fun mem => absurd mem (none_ _)
  refine ⟨follows.counted, follows.handshaking_onTcb here ?_ ?_⟩
  · exact fun l j t other live => counted.insertTcb_others handshaking other live
  · intro l _ waits _
    rw [counted.insertTcb_waits, if_pos rfl] at waits
    cases (of_decide_eq_true waits).1

/-- A SYN makes a block that its listener counts. -/
theorem Counted.acceptSyn (counted : s.Counted) (handshaking : s.Handshaking) {hw : HwFeatures}
    {beyond : Nat → Byte} {iss : TcpSeq} {memory : Tcb} {l : Nat} {id : ConnId} {h : TcpHdr}
    {q : Impl} (absent : s.tcbs id = none) (registered : l < s.listeners.length)
    (room : (s.listeners[l]?).any Listener.full = false) :
    (s.acceptSyn hw beyond iss memory l id h q).Accounted := by
  have many : (s.listeners.modify l Listener.incPending).length = s.listeners.length :=
    List.length_modify ..
  have inserted : ((s.insertTcb id memory (some l)).incPending l).Counted := by
    refine counted.insertTcb many (fun l' awaits => Option.some.inj awaits ▸ registered) ?_
    intro l' y' there alive
    obtain ⟨y, before, changed⟩ := modify_listener there
    split at changed
    · rename_i same
      subst changed
      subst same
      have before : s.listeners[l]? = some y := before
      rw [before] at room
      rw [if_pos ⟨rfl, absent⟩]
      exact (counted.booked l y before alive).incPending room
    · rename_i other
      subst changed
      rw [if_neg (by simp [other])]
      exact counted.booked l' y' before alive
  have here : ((s.insertTcb id memory (some l)).incPending l).blocks[s.blocks.length]? =
      some ⟨Tcb.new id memory, some l⟩ := insertTcb_last id memory (some l) s
  obtain ⟨name, requests, state⟩ :=
    @Tcb.inputHandleListenState_asks hw beyond iss h q (Tcb.new id memory)
  have none_ : ∀ r, r ∉ ((Tcb.new id memory).inputHandleListenState hw beyond iss h q).requests := by
    intro r mem
    rw [requests] at mem
    cases mem
  have follows := inserted.onTcb here name (none_ _) fun mem => absurd mem (none_ _)
  refine ⟨follows.counted, fun going => follows.handshaking_onTcb here ?_ ?_⟩
  · intro l' j t other live
    exact counted.insertTcb_others handshaking other
      (live_of_modify .incPending (fun y alive => alive) live)
  · intro l' _ _ _
    refine state ?_
    rw [← (onTcb_frame here _).1]
    exact going

theorem Counted.received (counted : s.Counted) (handshaking : s.Handshaking)
    (beyond : Nat → Byte) (iss : TcpSeq) (memory : Tcb) {p : Impl} {src dst : BitVec 32}
    (kept : s.keepsCount host (.received beyond iss memory p src dst) = true) :
    (s.received host.hw beyond iss memory p src dst).Accounted := by
  apply received_cases
  · exact ⟨⟨counted.entry, counted.met, counted.creator, counted.registered, counted.booked⟩,
      fun going => by cases going⟩
  · intro resets
    exact ⟨⟨counted.entry, counted.met, counted.creator, counted.registered, counted.booked⟩,
      fun _ => handshaking⟩
  · intro b h q found delivered
    obtain ⟨x, here, name⟩ := counted.entry _ b found
    have kept : (s.delivers host.hw p src dst).all (fun (x, h, q) =>
        if x.tcb.completes h q then s.findsCounter x
        else !(x.tcb.resetBy h q && s.counted x.tcb.id)) = true := kept
    rw [delivered, here, Option.map_some, Option.all_some] at kept
    have handed := counted.segment handshaking here (name ▸ found) host.hw beyond h q kept
    exact ⟨handed.1.counted, fun _ => handed.2⟩
  · intro l id h q absent listens room
    exact counted.acceptSyn handshaking absent (counted.registered _ l listens) room

theorem Accounted.step (e : StackEvent) (accounted : s.Accounted)
    (kept : s.keepsCount host e = true) (next : Stack.step host s e = some s') :
    s'.Accounted := by
  obtain ⟨counted, handshaking⟩ := accounted
  unfold Stack.step at next
  split at next
  · rename_i possible
    obtain ⟨going, enabled⟩ := possible
    have handshaking := handshaking going
    cases next
    cases e with
    | received beyond iss memory p src dst =>
        exact counted.received handshaking beyond iss memory kept
    | connect iss memory dstIp dstPort srcPort =>
        have made := counted.connect handshaking host.hw iss memory
          (connectId host dstIp dstPort srcPort)
        exact ⟨made.1, fun _ => made.2⟩
    | tcb b e =>
        obtain ⟨own, there⟩ := Bool.and_eq_true_iff.mp enabled
        obtain ⟨x, here, -⟩ := (Option.any_eq_true ..).mp there
        have kept : (s.blocks[b]?).all (fun x => !(x.tcb.givesUp e && s.counted x.tcb.id)) =
          true := kept
        rw [here, Option.all_some, Bool.not_eq_true'] at kept
        have handed := @Counted.tcbEvent Q _ host s b x counted handshaking here e own kept
        exact ⟨handed.1.counted, fun _ => handed.2⟩
    | listen port queueLength =>
        refine ⟨counted.listen port queueLength, fun _ l b t live waits there => ?_⟩
        have before := @Counted.waits_below Q _ s counted l b waits
        have live : ((s.listeners ++ [_])[l]?).any Listener.alive = true := live
        rw [List.getElem?_append_left before] at live
        exact handshaking l b t live waits there
    | destroyListener l =>
        have follows := counted.destroyListener l
        refine ⟨follows.counted, fun _ => follows.handshaking handshaking fun j => ?_⟩
        unfold destroyListener
        split <;> rfl
    | accept l =>
        have follows := counted.accept l
        exact ⟨follows.counted, fun _ => follows.handshaking handshaking fun _ => rfl⟩
    | abortAccept l =>
        have follows := counted.abortAccept l
        exact ⟨follows.counted, fun _ => follows.handshaking handshaking fun _ => rfl⟩
  · cases next

theorem accounted_of_run {events : List StackEvent} (run : exec (step host) {} events = some s)
    (kept : Along (step host) (fun (u : Stack Q) e => u.keepsCount host e = true) {} events) :
    s.Accounted := by
  have preserved : ∀ (u : Stack Q) (e : StackEvent) (u' : Stack Q), u.Accounted →
      u.keepsCount host e = true → Stack.step host u e = some u' → u'.Accounted :=
    fun u e u' accounted kept next => accounted.step e kept next
  have begin_ : ({} : Stack Q).Accounted := by
    refine ⟨⟨?_, ?_, ?_, ?_, ?_⟩, fun _ l b t live => ?_⟩
    · intro id b found
      cases found
    · intro b x here
      cases here
    · intro b x l here
      cases here
    · intro port l found
      cases found
    · intro l y there
      cases there
    · cases live
  exact Along.invariant preserved begin_ kept run

/-- On every run on which the count is kept: what a listener has pending is the
number of the blocks that SYNs for it made and that were neither queued nor
removed, all of them are in their handshake as long as the process goes on, and
the listener is full when these and the queued ones fill its queue. -/
theorem pending_eq_waiting (host : Host) (events : List StackEvent) (s : Stack Q)
    (run : exec (step host) {} events = some s)
    (kept : Along (step host) (fun (u : Stack Q) e => u.keepsCount host e = true) {} events) (l : Nat)
    (y : Listener Q) (there : s.listeners[l]? = some y) (alive : y.alive = true) :
    y.pending.toNat = s.waiting l ∧
      s.waiting l + (BoundedQueue.items y.q).length ≤ BoundedQueue.capacity y.q ∧
      (y.full = true ↔
        BoundedQueue.capacity y.q ≤ s.waiting l + (BoundedQueue.items y.q).length) ∧
      (s.crash = none → ∀ b t, s.waits l b = true → s.tcb? b = some t →
        t.state = .synReceived) := by
  obtain ⟨counted, handshaking⟩ := accounted_of_run run kept
  have booked := counted.booked l y there alive
  refine ⟨booked.pending, booked.room, booked.full_iff, fun going b t => ?_⟩
  exact handshaking going l b t (live_iff.mpr ⟨y, there, alive⟩)

end Stack

/-! ## A handshake that is completed, and one that is reset -/

/-- The second segment of the connection whose SYN is `synBytes`. -/
def secondBytes (flags : Byte) : List Byte :=
  [195, 80, 0, 80, 0, 0, 2, 189, 0, 0, 0, 101, 80, flags, 3, 232, 0, 0, 0, 0]

def arrives (bytes : List Byte) : StackEvent :=
  .received (fun _ => 0) ⟨100⟩ zeroMemory (inOneFragment bytes) 0x0a000002 0x0a000001

def handshakeEvents : List StackEvent := listenOn80 ++ [arrives (synBytes 5), arrives (secondBytes 16)]

def resetEvents : List StackEvent := listenOn80 ++ [arrives (synBytes 5), arrives (secondBytes 4)]

/-- After the acknowledgement nothing is pending, and one connection is queued. -/
theorem pending_eq_waiting_handshake :
    ∃ (s : Stack (ListQueue Nat)) (y : Listener (ListQueue Nat)),
      exec (Stack.step exampleHost) {} handshakeEvents = some s ∧ s.listeners[0]? = some y ∧
        y.pending.toNat = s.waiting 0 ∧ y.q.items = [0] := by
  have run : exec (Stack.step exampleHost) ({} : Stack (ListQueue Nat)) handshakeEvents =
      some _ := (Option.some_get (by decide)).symm
  have there : (Option.get (exec (Stack.step exampleHost) ({} : Stack (ListQueue Nat))
      handshakeEvents) (by decide)).listeners[0]? = some _ := (Option.some_get (by decide)).symm
  have kept : Along (Stack.step exampleHost)
      (fun (u : Stack (ListQueue Nat)) e => u.keepsCount exampleHost e = true) {}
      handshakeEvents := by decide
  have pending := (Stack.pending_eq_waiting exampleHost handshakeEvents _ run kept 0 _ there
    (by decide)).1
  exact ⟨_, _, run, there, pending, by decide⟩

/-- After the reset one handshake is pending that nobody is in. -/
theorem reset_stays_pending :
    ∃ (s : Stack (ListQueue Nat)) (y : Listener (ListQueue Nat)),
      exec (Stack.step exampleHost) {} resetEvents = some s ∧ s.crash = none ∧
        s.listeners[0]? = some y ∧ y.alive = true ∧ y.pending.toNat = 1 ∧ s.waiting 0 = 0 := by
  have run : exec (Stack.step exampleHost) ({} : Stack (ListQueue Nat)) resetEvents =
      some _ := (Option.some_get (by decide)).symm
  have there : (Option.get (exec (Stack.step exampleHost) ({} : Stack (ListQueue Nat))
      resetEvents) (by decide)).listeners[0]? = some _ := (Option.some_get (by decide)).symm
  exact ⟨_, _, run, by decide, there, by decide, by decide, by decide⟩

end ActorNet.Tcp
