import ActorNet.Rpc.Calls

/-!
# Every call is resolved once, by the first event that applies to it

`Client.Inv` ties the four parties of a call together and is kept by every
event, so no callback ever misses its entry. Under it one event resolves a
waiting call exactly with what `Event.resolves` says, and leaves every other
call alone (`step_resolved`); along a run the first such event wins
(`exec_resolved`).
-/

namespace ActorNet.Rpc

open Lib

namespace Client

variable {P : Type}

/-- How many entries a call has in the queue or in the hands of the send loop. -/
def entries (s : Client P) (id : Nat) : Nat :=
  s.outgoingQueue.countP (·.id == id) + s.sending.toList.countP (·.id == id)

/-- A call that is still waiting for its reply: its parties agree that it is. -/
structure Waiting (s : Client P) (id : Nat) (h : Handler) : Prop where
  notDone : h.done = false
  pcancel : h.pcancel = (s.cancellable id).given
  cancelWait : (s.cancellable id).cancelWait = (s.cancellable id).given
  unresolved : s.resolved id = []

/-- A call nobody waits for any more can neither time out nor be cancelled. -/
structure Settled (s : Client P) (id : Nat) : Prop where
  waitTimer : s.waitTimer id = false
  cancelWait : (s.cancellable id).cancelWait = false

/-- The invariant of the reply side, call by call. -/
def ReplyInv (s : Client P) (id : Nat) : Prop :=
  match s.outstanding id with
  | some h => s.Waiting id h
  | none => s.Settled id

/-- A call with an entry in the queue can be cancelled exactly when its caller
gave a cancellable; one without can neither be cancelled nor expire there. -/
structure SendInv (s : Client P) (id : Nat) : Prop where
  once : s.sent id + s.entries id ≤ 1
  pcancel : ∀ e ∈ s.outgoingQueue, e.id = id → e.pcancel = (s.cancellable id).given
  queued : s.outgoingQueue.any (·.id == id) = true →
    (s.cancellable id).cancelSend = (s.cancellable id).given
  notQueued : s.outgoingQueue.any (·.id == id) = false →
    s.sendTimer id = false ∧ (s.cancellable id).cancelSend = false

/-- A message id that is not handed out yet is unknown everywhere. -/
structure Fresh (s : Client P) (id : Nat) : Prop where
  outstanding : s.outstanding id = none
  cancellable : s.cancellable id = ⟨false, false, false⟩
  unresolved : s.resolved id = []
  unsent : s.sent id + s.entries id = 0

/-- The invariant of a client. -/
structure Inv (s : Client P) : Prop where
  found : s.missed = false
  reply : ∀ id, s.ReplyInv id
  send : ∀ id, s.SendInv id
  fresh : ∀ id, s.messageId ≤ id → s.Fresh id
  reader : s.readerDone = true → s.error = true
  cleared : s.queueCleared = true →
    s.readerDone = true ∧ s.outgoingQueue = [] ∧ s.sending = none
  closed : s.closed = true → s.queueCleared = true ∧ ∀ id, s.outstanding id = none

theorem inv_initial : (initial P).Inv where
  found := rfl
  reply _ := ⟨rfl, rfl⟩
  send _ := ⟨Nat.zero_le _, by simp [initial], by simp [initial], fun _ => ⟨rfl, rfl⟩⟩
  fresh _ _ := ⟨rfl, rfl, rfl, rfl⟩
  reader := by simp [initial]
  cleared := by simp [initial]
  closed := by simp [initial]

/-! ## Resolving one call -/

/-- What settling a waiting call does, table by table. -/
theorem settle_eq {s : Client P} {id : Nat} {h : Handler} (waiting : s.outstanding id = some h)
    (r : Resolution P) :
    s.settle id r = { s with
      outstanding := Function.update s.outstanding id none
      waitTimer := Function.update s.waitTimer id false
      cancellable := Function.update s.cancellable id
        (if h.pcancel then { s.cancellable id with cancelWait := false } else s.cancellable id)
      resolved := Function.update s.resolved id (s.resolved id ++ [r]) } := by
  simp only [settle, waiting, resolve, eraseHandlers]
  congr 1 <;> funext j <;> by_cases same : j = id <;> simp [same]

theorem ReplyInv.waiting {s : Client P} {id : Nat} (reply : s.ReplyInv id) {h : Handler}
    (found : s.outstanding id = some h) : s.Waiting id h := by
  simpa only [ReplyInv, found] using reply

theorem ReplyInv.settled {s : Client P} {id : Nat} (reply : s.ReplyInv id)
    (missing : s.outstanding id = none) : s.Settled id := by
  simpa only [ReplyInv, missing] using reply

/-- The reply side of a call depends on its own entries of the tables only. -/
theorem ReplyInv.congr {s s' : Client P} {id : Nat} (reply : s.ReplyInv id)
    (outstanding : s'.outstanding id = s.outstanding id)
    (waitTimer : s'.waitTimer id = s.waitTimer id) (resolved : s'.resolved id = s.resolved id)
    (given : (s'.cancellable id).given = (s.cancellable id).given)
    (cancelWait : (s'.cancellable id).cancelWait = (s.cancellable id).cancelWait) :
    s'.ReplyInv id := by
  unfold ReplyInv
  rw [outstanding]
  cases found : s.outstanding id with
  | some h =>
      have call := reply.waiting found
      exact ⟨call.notDone, call.pcancel.trans given.symm,
        cancelWait.trans (call.cancelWait.trans given.symm), resolved.trans call.unresolved⟩
  | none =>
      have call := reply.settled found
      exact ⟨waitTimer.trans call.waitTimer, cancelWait.trans call.cancelWait⟩

/-- The send side of a call does too, when the queue holds the same of it. -/
theorem SendInv.congr {s s' : Client P} {id : Nat} (send : s.SendInv id)
    (entries : s'.sent id + s'.entries id = s.sent id + s.entries id)
    (mem : ∀ e, e.id = id → (e ∈ s'.outgoingQueue ↔ e ∈ s.outgoingQueue))
    (sendTimer : s'.sendTimer id = s.sendTimer id)
    (given : (s'.cancellable id).given = (s.cancellable id).given)
    (cancelSend : (s'.cancellable id).cancelSend = (s.cancellable id).cancelSend) :
    s'.SendInv id := by
  have queued : s'.outgoingQueue.any (·.id == id) = s.outgoingQueue.any (·.id == id) := by
    rw [Bool.eq_iff_iff, List.any_eq_true, List.any_eq_true]
    constructor
    · rintro ⟨e, there, same⟩
      exact ⟨e, (mem e (beq_iff_eq.mp same)).mp there, same⟩
    · rintro ⟨e, there, same⟩
      exact ⟨e, (mem e (beq_iff_eq.mp same)).mpr there, same⟩
  exact ⟨entries ▸ send.once,
    fun e there same => (send.pcancel e ((mem e same).mp there) same).trans given.symm,
    fun waits => cancelSend.trans ((send.queued (queued ▸ waits)).trans given.symm),
    fun absent => ⟨sendTimer.trans (send.notQueued (queued ▸ absent)).1,
      cancelSend.trans (send.notQueued (queued ▸ absent)).2⟩⟩

/-- A call that anything is known about has been handed out. -/
theorem Inv.handedOut {s : Client P} (inv : s.Inv) {id : Nat} {h : Handler}
    (waiting : s.outstanding id = some h) : id < s.messageId := by
  by_contra unknown
  have fresh := (inv.fresh id (Nat.not_lt.mp unknown)).outstanding
  rw [waiting] at fresh
  cases fresh

/-- Settling a waiting call keeps the invariant: its other parties are disarmed. -/
theorem settle_inv {s : Client P} (inv : s.Inv) {id : Nat} {h : Handler}
    (waiting : s.outstanding id = some h) (r : Resolution P) : (s.settle id r).Inv := by
  have call := (inv.reply id).waiting waiting
  have old := inv.handedOut waiting
  rw [settle_eq waiting]
  exact {
    found := inv.found
    reply := by
      intro j
      by_cases same : j = id
      · subst same
        simp only [ReplyInv, Function.update_self]
        refine ⟨by simp, ?_⟩
        cases given : h.pcancel with
        | true => simp
        | false => simpa [given, call.cancelWait] using call.pcancel.symm
      · exact (inv.reply j).congr (by simp [same]) (by simp [same]) (by simp [same])
          (by simp [same]) (by simp [same])
    send := by
      intro j
      have keeps : ∀ c : Cancellable, c = Function.update s.cancellable id
          (if h.pcancel then { s.cancellable id with cancelWait := false }
            else s.cancellable id) j →
          c.given = (s.cancellable j).given ∧ c.cancelSend = (s.cancellable j).cancelSend := by
        rintro c rfl
        by_cases same : j = id
        · subst same
          cases h.pcancel <;> simp
        · simp [same]
      exact (inv.send j).congr rfl (fun _ _ => .rfl) rfl (keeps _ rfl).1 (keeps _ rfl).2
    fresh := by
      intro j unknown
      have fresh := inv.fresh j unknown
      have other : j ≠ id := by rintro rfl; exact absurd unknown (Nat.not_le.mpr old)
      exact ⟨by simpa [other] using fresh.outstanding, by simpa [other] using fresh.cancellable,
        by simpa [other] using fresh.unresolved, fresh.unsent⟩
    reader := inv.reader
    cleared := inv.cleared
    closed := fun closed => by
      have gone := (inv.closed closed).2 id
      rw [waiting] at gone
      cases gone }

/-! ## Dropping queue entries -/

theorem any_eq_false_iff {q : List QueueEntry} {id : Nat} :
    q.any (·.id == id) = false ↔ q.countP (·.id == id) = 0 := by
  simp [List.countP_eq_zero]

/-- Entries leave the queue or the send loop and are destroyed. -/
structure Dropped (s : Client P) (queue : List QueueEntry) (sending : Option QueueEntry)
    (es : List QueueEntry) : Prop where
  counts : ∀ id, queue.countP (·.id == id) + sending.toList.countP (·.id == id) +
    es.countP (·.id == id) = s.entries id
  kept : ∀ e ∈ queue, e ∈ s.outgoingQueue
  slot : sending = s.sending ∨ sending = none
  origin : ∀ e ∈ es, e ∈ s.outgoingQueue ∨ s.sending = some e

namespace Dropped

variable {s : Client P} {queue : List QueueEntry} {sending : Option QueueEntry}
  {es : List QueueEntry}

/-- A call none of whose entries was dropped stands in the queue as before. -/
theorem queue_count (dropped : s.Dropped queue sending es) {id : Nat}
    (untouched : es.countP (·.id == id) = 0) (absent : queue.countP (·.id == id) = 0) :
    s.outgoingQueue.countP (·.id == id) = 0 := by
  have counts := dropped.counts id
  simp only [entries] at counts
  rcases dropped.slot with rfl | rfl
  · omega
  · simp only [Option.toList_none, List.countP_nil] at counts
    omega

/-- An entry that was dropped leaves its call without a `cancel_send`. -/
theorem cancelSend (dropped : s.Dropped queue sending es) {id : Nat} (inv : s.SendInv id)
    {e : QueueEntry} (mem : e ∈ es) (same : e.id = id) :
    e.pcancel = true ∨ (s.cancellable id).cancelSend = false := by
  rcases dropped.origin e mem with waiting | taken
  · cases given : e.pcancel with
    | true => exact .inl rfl
    | false =>
        have queued : s.outgoingQueue.any (·.id == id) = true :=
          List.any_eq_true.mpr ⟨e, waiting, by simp [same]⟩
        exact .inr ((inv.queued queued).trans ((inv.pcancel e waiting same).symm.trans given))
  · have once := inv.once
    simp only [entries, taken, Option.toList_some, List.countP_singleton, same, beq_self_eq_true,
      if_true] at once
    exact .inr (inv.notQueued (any_eq_false_iff.mpr (by omega))).2

theorem sendInv (dropped : s.Dropped queue sending es) {id : Nat} (inv : s.SendInv id) :
    ({ s with outgoingQueue := queue, sending := sending }.destroyEntries es).SendInv id := by
  have counts := dropped.counts id
  have once := inv.once
  simp only [entries] at counts once
  have given : ((({ s with outgoingQueue := queue, sending := sending } : Client P).destroyEntries
      es).cancellable id).given = (s.cancellable id).given := by
    simp only [destroyEntries]
    split <;> rfl
  refine ⟨by simp only [destroyEntries, entries]; omega,
    fun e mem same => (inv.pcancel e (dropped.kept e mem) same).trans given.symm, ?_, ?_⟩
  · intro queued
    obtain ⟨e, mem, same⟩ := List.any_eq_true.mp queued
    have present : 0 < queue.countP (·.id == id) := List.countP_pos_iff.mpr ⟨e, mem, same⟩
    have untouched : es.any (fun e => e.id == id && e.pcancel) = false := by
      rw [List.any_eq_false]
      intro e' mem' both
      have : 0 < es.countP (·.id == id) :=
        List.countP_pos_iff.mpr ⟨e', mem', (Bool.and_eq_true_iff.mp both).1⟩
      omega
    have before := inv.queued (List.any_eq_true.mpr ⟨e, dropped.kept e mem, same⟩)
    simp only [destroyEntries, untouched, Bool.false_eq_true, if_false]
    exact before
  · intro absent
    have gone := any_eq_false_iff.mp absent
    simp only [destroyEntries] at gone ⊢
    by_cases touched : es.countP (·.id == id) = 0
    · have before := inv.notQueued (any_eq_false_iff.mpr (dropped.queue_count touched gone))
      rw [any_eq_false_iff.mpr touched]
      refine ⟨before.1, ?_⟩
      split
      · rfl
      · exact before.2
    · obtain ⟨e, mem, same⟩ := List.countP_pos_iff.mp (Nat.pos_of_ne_zero touched)
      refine ⟨by rw [List.any_eq_true.mpr ⟨e, mem, same⟩]; rfl, ?_⟩
      rcases dropped.cancelSend inv mem (beq_iff_eq.mp same) with given | clear
      · rw [List.any_eq_true.mpr ⟨e, mem, by simp [beq_iff_eq.mp same, given]⟩]
        rfl
      · split
        · rfl
        · exact clear

/-- Dropping entries keeps the invariant. -/
theorem inv (dropped : s.Dropped queue sending es) (inv : s.Inv) :
    ({ s with outgoingQueue := queue, sending := sending }.destroyEntries es).Inv where
  found := inv.found
  reply id := by
    refine (inv.reply id).congr rfl rfl rfl ?_ ?_
    · simp only [destroyEntries]; split <;> rfl
    · simp only [destroyEntries]; split <;> rfl
  send id := dropped.sendInv (inv.send id)
  fresh := by
    intro id unknown
    have fresh := inv.fresh id unknown
    have counts := dropped.counts id
    have unsent := fresh.unsent
    have untouched : es.any (fun e => e.id == id && e.pcancel) = false := by
      rw [List.any_eq_false]
      intro e mem both
      have : 0 < es.countP (·.id == id) :=
        List.countP_pos_iff.mpr ⟨e, mem, (Bool.and_eq_true_iff.mp both).1⟩
      omega
    refine ⟨fresh.outstanding, ?_, fresh.unresolved, ?_⟩
    · simp only [destroyEntries, untouched, Bool.false_eq_true, if_false]
      exact fresh.cancellable
    · simp only [destroyEntries, entries] at counts unsent ⊢
      omega
  reader := inv.reader
  cleared := fun cleared => by
    obtain ⟨reader, empty, idle⟩ := inv.cleared cleared
    refine ⟨reader, List.eq_nil_iff_forall_not_mem.mpr fun e mem => ?_, ?_⟩
    · have old := dropped.kept e mem
      rw [empty] at old
      cases old
    · rcases dropped.slot with same | none
      · exact same.trans idle
      · exact none
  closed := inv.closed

end Dropped

/-- The deleter of an entry that is still queued. -/
theorem eraseEntry_eq {s : Client P} {id : Nat}
    (queued : s.outgoingQueue.any (·.id == id) = true) :
    s.eraseEntry id = ({ s with outgoingQueue := s.outgoingQueue.filter (·.id != id)
                                sending := s.sending } : Client P).destroyEntries
      (s.outgoingQueue.filter (·.id == id)) := by
  obtain ⟨e, mem, same⟩ := List.any_eq_true.mp queued
  have victim : e ∈ s.outgoingQueue.filter (·.id == id) := List.mem_filter.mpr ⟨mem, same⟩
  unfold eraseEntry
  split
  · rename_i none
    rw [none] at victim
    cases victim
  · rfl

theorem dropped_eraseEntry (s : Client P) (id : Nat) :
    s.Dropped (s.outgoingQueue.filter (·.id != id)) s.sending
      (s.outgoingQueue.filter (·.id == id)) where
  counts := by
    intro j
    have split : (s.outgoingQueue.filter (·.id != id)).countP (·.id == j) +
        (s.outgoingQueue.filter (·.id == id)).countP (·.id == j) =
        s.outgoingQueue.countP (·.id == j) := by
      induction s.outgoingQueue with
      | nil => rfl
      | cons e q ih =>
          by_cases same : e.id = id
          · simp [same, List.countP_cons, ← ih]; omega
          · simp [same, List.countP_cons, ← ih]; omega
    simp only [entries]
    omega
  kept e mem := (List.mem_filter.mp mem).1
  slot := .inl rfl
  origin e mem := .inl (List.mem_filter.mp mem).1

theorem eraseEntry_inv {s : Client P} (inv : s.Inv) {id : Nat}
    (queued : s.outgoingQueue.any (·.id == id) = true) : (s.eraseEntry id).Inv := by
  rw [eraseEntry_eq queued]
  exact (dropped_eraseEntry s id).inv inv

/-- Taking the front entry moves it into the hands of the send loop. -/
theorem popFront_inv {s s' : Client P} (inv : s.Inv) (idle : s.sending = none)
    (open_ : s.queueCleared = false) (taken : s.popFront = some s') : s'.Inv := by
  unfold popFront at taken
  cases queue : s.outgoingQueue with
  | nil => simp [queue] at taken
  | cons d q =>
      simp only [queue, Option.some.injEq] at taken
      subst taken
      have front := inv.send d.id
      have once := front.once
      simp only [entries, queue, idle, List.countP_cons, beq_self_eq_true, if_true,
        Option.toList_none, List.countP_nil] at once
      have disarmed : (if d.pcancel then Function.update s.cancellable d.id
            { s.cancellable d.id with cancelSend := false } else s.cancellable) =
          Function.update s.cancellable d.id { s.cancellable d.id with cancelSend := false } := by
        cases given : d.pcancel with
        | true => rfl
        | false =>
            have clear : (s.cancellable d.id).cancelSend = false :=
              (front.queued (by simp [queue])).trans
                ((front.pcancel d (by simp [queue]) rfl).symm.trans given)
            have same : { s.cancellable d.id with cancelSend := false } = s.cancellable d.id := by
              rw [← clear]
            rw [same, Function.update_eq_self]
            rfl
      rw [disarmed]
      exact {
        found := inv.found
        reply := by
          intro j
          by_cases same : j = d.id
          · subst same; exact (inv.reply d.id).congr rfl rfl rfl (by simp) (by simp)
          · exact (inv.reply j).congr rfl rfl rfl (by simp [same]) (by simp [same])
        send := by
          intro j
          have send := inv.send j
          by_cases same : j = d.id
          · subst same
            have gone : q.any (·.id == d.id) = false := any_eq_false_iff.mpr (by omega)
            refine ⟨?_, ?_, ?_, fun _ => by simp⟩
            · simp only [entries, Option.toList_some, List.countP_singleton, beq_self_eq_true,
                if_true]
              omega
            · intro e mem _
              have present : 0 < q.countP (·.id == d.id) :=
                List.countP_pos_iff.mpr ⟨e, mem, by simp_all⟩
              omega
            · intro queued
              rw [gone] at queued
              cases queued
          · have apart : (d.id == j) = false := by simpa using fun h => same h.symm
            refine send.congr (by simp [entries, queue, idle, apart]) ?_ (by simp [same])
              (by simp [same]) (by simp [same])
            intro e at_
            have other : e ≠ d := by rintro rfl; exact same at_.symm
            simp [queue, other]
        fresh := by
          intro j unknown
          have fresh := inv.fresh j unknown
          have unsent := fresh.unsent
          have other : j ≠ d.id := by
            rintro rfl
            simp only [entries, queue, List.countP_cons, beq_self_eq_true, if_true] at unsent
            omega
          have apart : (d.id == j) = false := by simpa using fun h => other h.symm
          exact ⟨fresh.outstanding, by simpa [other] using fresh.cancellable, fresh.unresolved,
            by simpa [entries, queue, idle, apart] using unsent⟩
        reader := inv.reader
        cleared := fun cleared => by rw [open_] at cleared; cases cleared
        closed := inv.closed }

/-! ## Submitting -/

theorem handOut_inv {s : Client P} (inv : s.Inv) (cancel : Bool) : (s.handOut cancel).Inv where
  found := inv.found
  reply := by
    intro j
    by_cases same : j = s.messageId
    · subst same
      have unknown := inv.fresh _ le_rfl
      have none : (s.handOut cancel).outstanding s.messageId = none := unknown.outstanding
      simp only [ReplyInv, none]
      exact ⟨((inv.reply _).settled unknown.outstanding).waitTimer, by simp [handOut]⟩
    · exact (inv.reply j).congr rfl rfl rfl (by simp [handOut, same]) (by simp [handOut, same])
  send := by
    intro j
    have send := inv.send j
    by_cases same : j = s.messageId
    · subst same
      have unsent := (inv.fresh _ le_rfl).unsent
      have empty : s.outgoingQueue.countP (·.id == s.messageId) = 0 := by
        simp only [entries] at unsent; omega
      refine ⟨send.once, fun e mem at_ => ?_, fun queued => ?_, fun absent => ?_⟩
      · have present : 0 < s.outgoingQueue.countP (·.id == s.messageId) :=
          List.countP_pos_iff.mpr ⟨e, mem, by simp [at_]⟩
        omega
      · have := any_eq_false_iff.mpr empty
        simp only [handOut] at queued
        rw [this] at queued
        cases queued
      · exact ⟨(send.notQueued absent).1, by simp [handOut]⟩
    · exact send.congr rfl (fun _ _ => .rfl) rfl (by simp [handOut, same])
        (by simp [handOut, same])
  fresh := by
    intro j unknown
    have later : s.messageId < j := unknown
    have fresh := inv.fresh j later.le
    exact ⟨fresh.outstanding, by simpa [handOut, later.ne'] using fresh.cancellable,
      fresh.unresolved, fresh.unsent⟩
  reader := inv.reader
  cleared := inv.cleared
  closed := inv.closed

/-- Putting an entry into the queue for a call that has none. -/
theorem send_inv {s : Client P} (inv : s.Inv) {id : Nat} (old : id < s.messageId)
    (unsent : s.sent id + s.entries id = 0) (open_ : s.queueCleared = false)
    (timeout : CallTimeout) : (s.send id timeout (s.cancellable id).given).Inv := by
  have empty : s.outgoingQueue.countP (·.id == id) = 0 := by
    simp only [entries] at unsent; omega
  unfold send
  split
  · exact inv
  · exact {
      found := inv.found
      reply := by
        intro j
        by_cases same : j = id
        · subst same; exact (inv.reply j).congr rfl rfl rfl (by simp) (by simp)
        · exact (inv.reply j).congr rfl rfl rfl (by simp [same]) (by simp [same])
      send := by
        intro j
        have send := inv.send j
        by_cases same : j = id
        · subst same
          refine ⟨?_, ?_, ?_, ?_⟩
          · simp only [entries, List.countP_append, List.countP_singleton, beq_self_eq_true,
              if_true] at unsent ⊢
            omega
          · intro e mem at_
            rcases List.mem_append.mp mem with before | new
            · have present : 0 < s.outgoingQueue.countP (·.id == j) :=
                List.countP_pos_iff.mpr ⟨e, before, by simp [at_]⟩
              omega
            · rw [List.mem_singleton.mp new]; simp
          · intro _; simp
          · intro absent; simp at absent
        · have apart : (id == j) = false := by simpa using fun h => same h.symm
          refine send.congr (by simp [entries, apart]) ?_ (by simp [same]) (by simp [same])
            (by simp [same])
          intro e at_
          have other : e.id ≠ id := fun h => same (at_.symm.trans h)
          simp only [List.mem_append, List.mem_singleton, or_iff_left_iff_imp]
          rintro rfl
          exact absurd rfl other
      fresh := by
        intro j unknown
        have fresh := inv.fresh j unknown
        have other : j ≠ id := (old.trans_le unknown).ne'
        have apart : (id == j) = false := by simpa using fun h => other h.symm
        exact ⟨fresh.outstanding, by simpa [other] using fresh.cancellable, fresh.unresolved,
          by simpa [entries, apart] using fresh.unsent⟩
      reader := inv.reader
      cleared := fun cleared => by rw [open_] at cleared; cases cleared
      closed := inv.closed }

/-- Registering the handler of a call that has none. -/
theorem waitForReply_inv {s : Client P} (inv : s.Inv) {id : Nat} (old : id < s.messageId)
    (missing : s.outstanding id = none) (unresolved : s.resolved id = [])
    (open_ : s.queueCleared = false) (timeout : CallTimeout) :
    (s.waitForReply id timeout (s.cancellable id).given).Inv where
  found := inv.found
  reply := by
    intro j
    by_cases same : j = id
    · subst same
      simp only [ReplyInv, waitForReply, Function.update_self, missing, Option.getD_none]
      exact ⟨rfl, by simp, by simp, unresolved⟩
    · exact (inv.reply j).congr (by simp [waitForReply, same]) (by simp [waitForReply, same]) rfl
        (by simp [waitForReply, same]) (by simp [waitForReply, same])
  send := by
    intro j
    by_cases same : j = id
    · subst same
      exact (inv.send j).congr rfl (fun _ _ => .rfl) rfl (by simp [waitForReply])
        (by simp [waitForReply])
    · exact (inv.send j).congr rfl (fun _ _ => .rfl) rfl (by simp [waitForReply, same])
        (by simp [waitForReply, same])
  fresh := by
    intro j unknown
    have fresh := inv.fresh j unknown
    have other : j ≠ id := (old.trans_le unknown).ne'
    exact ⟨by simpa [waitForReply, other] using fresh.outstanding,
      by simpa [waitForReply, other] using fresh.cancellable, fresh.unresolved, fresh.unsent⟩
  reader := inv.reader
  cleared := inv.cleared
  closed := fun closed => by
    have := (inv.closed closed).1.symm.trans open_
    cases this

/-! ## One event -/

/-- The flags of the teardown are not part of what ties the parties together. -/
theorem Inv.flags {s : Client P} (inv : s.Inv) {error readerDone queueCleared closed : Bool}
    {rejected : Nat} (reader : readerDone = true → error = true)
    (cleared : queueCleared = true →
      readerDone = true ∧ s.outgoingQueue = [] ∧ s.sending = none)
    (gone : closed = true → queueCleared = true ∧ ∀ id, s.outstanding id = none) :
    ({ s with error, readerDone, queueCleared, closed, rejected } : Client P).Inv where
  found := inv.found
  reply id := (inv.reply id).congr rfl rfl rfl rfl rfl
  send id := (inv.send id).congr rfl (fun _ _ => .rfl) rfl rfl rfl
  fresh id unknown :=
    let fresh := inv.fresh id unknown
    ⟨fresh.outstanding, fresh.cancellable, fresh.unresolved, fresh.unsent⟩
  reader := reader
  cleared := cleared
  closed := gone

/-- An armed timer of a handler belongs to a waiting call. -/
theorem Inv.waitTimer {s : Client P} (inv : s.Inv) {id : Nat} (armed : s.waitTimer id = true) :
    ∃ h, s.outstanding id = some h := by
  cases found : s.outstanding id with
  | some h => exact ⟨h, rfl⟩
  | none =>
      rw [((inv.reply id).settled found).waitTimer] at armed
      cases armed

/-- A `cancel_wait` that is set belongs to a waiting call. -/
theorem Inv.cancelWait {s : Client P} (inv : s.Inv) {id : Nat}
    (set : (s.cancellable id).cancelWait = true) : ∃ h, s.outstanding id = some h := by
  cases found : s.outstanding id with
  | some h => exact ⟨h, rfl⟩
  | none =>
      rw [((inv.reply id).settled found).cancelWait] at set
      cases set

/-- An armed timer of a queue entry, or a `cancel_send` that is set, belongs to
an entry that is still queued. -/
theorem Inv.queued {s : Client P} (inv : s.Inv) {id : Nat}
    (active : s.sendTimer id = true ∨ (s.cancellable id).cancelSend = true) :
    s.outgoingQueue.any (·.id == id) = true := by
  by_contra absent
  obtain ⟨timer, cancel⟩ := (inv.send id).notQueued (by simpa using absent)
  rcases active with armed | set
  · rw [timer] at armed; cases armed
  · rw [cancel] at set; cases set

/-- The timer that fired was to be disarmed anyway. -/
theorem settle_waitTimer {s : Client P} {id : Nat} {h : Handler}
    (waiting : s.outstanding id = some h) (r : Resolution P) :
    ({ s with waitTimer := Function.update s.waitTimer id false } : Client P).settle id r =
      s.settle id r := by
  have fired : ({ s with waitTimer := Function.update s.waitTimer id false } :
      Client P).outstanding id = some h := waiting
  rw [settle_eq waiting, settle_eq fired]
  simp

theorem eraseEntry_sendTimer {s : Client P} {id : Nat}
    (queued : s.outgoingQueue.any (·.id == id) = true) :
    ({ s with sendTimer := Function.update s.sendTimer id false } : Client P).eraseEntry id =
      s.eraseEntry id := by
  obtain ⟨e, mem, same⟩ := List.any_eq_true.mp queued
  have victim : (s.outgoingQueue.filter (·.id == id)).any (·.id == id) = true :=
    List.any_eq_true.mpr ⟨e, List.mem_filter.mpr ⟨mem, same⟩, same⟩
  have fired : ({ s with sendTimer := Function.update s.sendTimer id false } :
      Client P).outgoingQueue.any (·.id == id) = true := queued
  rw [eraseEntry_eq queued, eraseEntry_eq fired]
  simp only [destroyEntries]
  congr 1
  funext j
  by_cases other : j = id
  · subst other; rw [victim]; rfl
  · simp [other]

theorem cancel_inv {s : Client P} (inv : s.Inv) (id : Nat) : (s.cancel id).Inv := by
  unfold cancel
  have erased : (if (s.cancellable id).cancelSend then s.eraseEntry id else s).Inv := by
    split
    · rename_i set
      exact eraseEntry_inv inv (inv.queued (.inr set))
    · exact inv
  generalize (if (s.cancellable id).cancelSend then s.eraseEntry id else s) = s' at erased
  simp only
  split
  · rename_i set
    obtain ⟨h, waiting⟩ := erased.cancelWait set
    exact settle_inv erased waiting _
  · exact erased

/-- What `connection::send` leaves alone. -/
theorem send_frame (s : Client P) (id : Nat) (timeout : CallTimeout) (cancel : Bool) :
    (s.send id timeout cancel).outstanding = s.outstanding ∧
      (s.send id timeout cancel).resolved = s.resolved ∧
      (s.send id timeout cancel).messageId = s.messageId ∧
      (s.send id timeout cancel).queueCleared = s.queueCleared ∧
      ((s.send id timeout cancel).cancellable id).given = (s.cancellable id).given := by
  unfold send
  split <;> simp

theorem submit_inv {s s' : Client P} (inv : s.Inv) {call : CallOptions}
    (done : s.submit call = some s') : s'.Inv := by
  unfold submit at done
  split at done
  · cases done
    exact inv.flags inv.reader inv.cleared inv.closed
  · rename_i alive
    split at done
    · cases done
      have open_ : s.queueCleared = false := by
        by_contra cleared
        exact alive (inv.reader (inv.cleared (by simpa using cleared)).1)
      have unknown := inv.fresh _ le_rfl
      have given : ((s.handOut call.cancel).cancellable s.messageId).given = call.cancel := by
        simp [handOut]
      have sent := send_inv (handOut_inv inv call.cancel) (Nat.lt_succ_self s.messageId)
        unknown.unsent open_ call.timeout
      rw [given] at sent
      obtain ⟨outstanding, resolved, messageId, cleared, given'⟩ :=
        (s.handOut call.cancel).send_frame s.messageId call.timeout call.cancel
      split
      · have waits := waitForReply_inv sent (messageId ▸ Nat.lt_succ_self s.messageId)
          (congrFun outstanding _ ▸ unknown.outstanding)
          (congrFun resolved _ ▸ unknown.unresolved) (cleared.trans open_) call.timeout
        rw [given', given] at waits
        exact waits
      · exact sent
    · cases done

theorem eraseHandlers_all_inv {s : Client P} (inv : s.Inv) :
    (s.eraseHandlers fun _ => true).Inv where
  found := inv.found
  reply := by
    intro j
    simp only [ReplyInv, eraseHandlers, if_true, Bool.true_and]
    cases found : s.outstanding j with
    | some h =>
        have call := (inv.reply j).waiting found
        refine ⟨by simp [found], ?_⟩
        cases given : h.pcancel with
        | true => simp [found, given]
        | false => simp [found, given, call.cancelWait, ← call.pcancel]
    | none =>
        have call := (inv.reply j).settled found
        exact ⟨by simpa [found] using call.waitTimer, by simpa [found] using call.cancelWait⟩
  send := by
    intro j
    refine (inv.send j).congr rfl (fun _ _ => .rfl) rfl ?_ ?_
    · simp only [eraseHandlers]; split <;> rfl
    · simp only [eraseHandlers]; split <;> rfl
  fresh := by
    intro j unknown
    have fresh := inv.fresh j unknown
    exact ⟨rfl, by simpa [eraseHandlers, fresh.outstanding] using fresh.cancellable,
      by simpa [eraseHandlers, fresh.outstanding] using fresh.unresolved, fresh.unsent⟩
  reader := inv.reader
  cleared := inv.cleared
  closed closed := ⟨(inv.closed closed).1, fun _ => rfl⟩

/-- Every event keeps the invariant. -/
theorem step_inv {s s' : Client P} (inv : s.Inv) {e : Event P} (done : s.step e = some s') :
    s'.Inv := by
  cases e with
  | submit call => exact submit_inv inv done
  | frame msgId data =>
      simp only [step] at done
      split at done
      · cases done
      · cases done
        unfold received
        split
        · rename_i waiting
          exact settle_inv inv waiting _
        · exact inv
  | waitTimer id =>
      simp only [step] at done
      split at done
      · rename_i armed
        cases done
        obtain ⟨h, waiting⟩ := inv.waitTimer armed
        rw [waitTimedOut, settle_waitTimer waiting]
        exact settle_inv inv waiting _
      · cases done
  | sendTimer id =>
      simp only [step] at done
      split at done
      · rename_i armed
        cases done
        have queued := inv.queued (.inl armed)
        rw [eraseEntry_sendTimer queued]
        exact eraseEntry_inv inv queued
      · cases done
  | cancel id =>
      simp only [step] at done
      split at done
      · cases done
        exact cancel_inv inv id
      · cases done
  | popFront =>
      simp only [step] at done
      split at done
      · cases done
      · rename_i ready
        simp only [Bool.or_eq_true, not_or, Bool.not_eq_true, Option.isSome_eq_false_iff,
          Option.isNone_iff_eq_none] at ready
        exact popFront_inv inv ready.1 ready.2 done
  | sendDone =>
      simp only [step] at done
      split at done
      · rename_i d taken
        cases done
        have dropped : s.Dropped s.outgoingQueue none [d] :=
          ⟨fun id => by simp [entries, taken], fun _ mem => mem, .inr rfl,
            by simpa using .inr taken⟩
        exact dropped.inv inv
      · cases done
  | stop =>
      cases done
      exact inv.flags (fun _ => rfl) inv.cleared inv.closed
  | readEnd =>
      simp only [step] at done
      split at done
      · cases done
      · cases done
        exact inv.flags (fun _ => rfl) (fun cleared => ⟨rfl, (inv.cleared cleared).2⟩) inv.closed
  | clearQueue =>
      simp only [step] at done
      split at done
      · rename_i ready
        cases done
        simp only [Bool.and_eq_true, Option.isNone_iff_eq_none] at ready
        have dropped : s.Dropped [] s.sending s.outgoingQueue :=
          ⟨fun id => by simp only [entries, List.countP_nil]; omega, by simp, .inl rfl,
            fun _ mem => .inl mem⟩
        exact (dropped.inv inv).flags inv.reader (fun _ => ⟨ready.1.1, rfl, ready.1.2⟩)
          fun closed => ⟨rfl, (inv.closed closed).2⟩
      · cases done
  | clearOutstanding =>
      simp only [step] at done
      split at done
      · rename_i ready
        cases done
        have cleared := eraseHandlers_all_inv inv
        simp only [Bool.and_eq_true] at ready
        exact cleared.flags cleared.reader cleared.cleared fun _ => ⟨ready.1, fun _ => rfl⟩
      · cases done

/-! ## Resolutions along a run -/

/-- Erasing an entry from the queue is not noticed on the reply side. -/
theorem eraseEntry_frame (s : Client P) (id : Nat) :
    (s.eraseEntry id).outstanding = s.outstanding ∧ (s.eraseEntry id).resolved = s.resolved ∧
      ∀ j, ((s.eraseEntry id).cancellable j).cancelWait = (s.cancellable j).cancelWait := by
  unfold eraseEntry
  split
  · exact ⟨rfl, rfl, fun _ => rfl⟩
  · refine ⟨rfl, rfl, fun j => ?_⟩
    simp only [destroyEntries]
    split <;> rfl

/-- A call that is settled has its resolution and is no longer waited for; the
others stay as they are. -/
theorem settle_resolved {s : Client P} {id : Nat} {h : Handler}
    (waiting : s.outstanding id = some h) (r : Resolution P) (j : Nat) :
    (s.settle id r).outstanding j = (if id = j then none else s.outstanding j) ∧
      (s.settle id r).resolved j =
        s.resolved j ++ if id = j then [r] else [] := by
  rw [settle_eq waiting]
  by_cases same : id = j
  · subst same; simp
  · have other : j ≠ id := fun h => same h.symm
    simp [same, other]

/-- A submission changes nothing for the calls before it. -/
theorem submit_frame {s s' : Client P} {call : CallOptions} (done : s.submit call = some s')
    {j : Nat} (old : j < s.messageId) :
    s'.outstanding j = s.outstanding j ∧ s'.resolved j = s.resolved j := by
  unfold submit at done
  split at done
  · cases done; exact ⟨rfl, rfl⟩
  · split at done
    · obtain ⟨outstanding, resolved, _⟩ :=
        (s.handOut call.cancel).send_frame s.messageId call.timeout call.cancel
      cases done
      split
      · simp only [waitForReply, Function.update_of_ne old.ne, outstanding, resolved]
        exact ⟨rfl, rfl⟩
      · exact ⟨congrFun outstanding j, congrFun resolved j⟩
    · cases done

/-- Cancelling settles a waiting call and does nothing else on the reply side. -/
theorem cancel_resolved {s : Client P} (inv : s.Inv) {id : Nat}
    (given : (s.cancellable id).given = true) (j : Nat) :
    ((s.cancel id).outstanding j).isSome =
        ((s.outstanding j).isSome && (if id = j then some (Resolution.canceled : Resolution P)
          else none).isNone) ∧
      (s.cancel id).resolved j = s.resolved j ++
        if (s.outstanding j).isSome then (if id = j then some .canceled else none).toList
        else [] := by
  unfold cancel
  have frame : ∀ s₁ : Client P, s₁ = (if (s.cancellable id).cancelSend then s.eraseEntry id
      else s) → s₁.outstanding = s.outstanding ∧ s₁.resolved = s.resolved ∧
        (s₁.cancellable id).cancelWait = (s.cancellable id).cancelWait := by
    rintro s₁ rfl
    split
    · obtain ⟨outstanding, resolved, cancelWait⟩ := s.eraseEntry_frame id
      exact ⟨outstanding, resolved, cancelWait id⟩
    · exact ⟨rfl, rfl, rfl⟩
  obtain ⟨outstanding, resolved, cancelWait⟩ := frame _ rfl
  generalize (if (s.cancellable id).cancelSend then s.eraseEntry id else s) = s₁ at *
  simp only [cancelWait]
  cases waits : s.outstanding id with
  | some h =>
      have waiting : s₁.outstanding id = some h := outstanding ▸ waits
      have set : (s.cancellable id).cancelWait = true :=
        ((inv.reply id).waiting waits).cancelWait.trans given
      rw [if_pos set, Client.cancelWait, (settle_resolved waiting .canceled j).1,
        (settle_resolved waiting .canceled j).2, outstanding, resolved]
      by_cases same : id = j
      · subst same; simp [waits]
      · simp [same]
  | none =>
      have clear := ((inv.reply id).settled waits).cancelWait
      simp only [clear, Bool.false_eq_true, if_false, outstanding, resolved]
      by_cases same : id = j
      · subst same; simp [waits]
      · simp [same]

/-- What one event does to the resolutions of a call that has been handed out:
if the call waits and the event applies to it, it is resolved with what the
event says; otherwise nothing changes for it. -/
theorem step_resolved {s s' : Client P} (inv : s.Inv) {e : Event P}
    (done : s.step e = some s') {j : Nat} (old : j < s.messageId) :
    (s'.outstanding j).isSome = ((s.outstanding j).isSome && (e.resolves j).isNone) ∧
      s'.resolved j =
        s.resolved j ++ if (s.outstanding j).isSome then (e.resolves j).toList else [] := by
  have settled {id : Nat} {h : Handler} (waiting : s.outstanding id = some h)
      (r : Resolution P) :
      ((s.settle id r).outstanding j).isSome =
          ((s.outstanding j).isSome && (if id = j then some r else none).isNone) ∧
        (s.settle id r).resolved j = s.resolved j ++
          if (s.outstanding j).isSome then (if id = j then some r else none).toList else [] := by
    rw [(settle_resolved waiting r j).1, (settle_resolved waiting r j).2]
    by_cases same : id = j
    · subst same; simp [waiting]
    · simp [same]
  cases e with
  | submit call =>
      obtain ⟨outstanding, resolved⟩ := submit_frame done old
      simp [outstanding, resolved, Event.resolves]
  | frame msgId data =>
      simp only [step] at done
      split at done
      · cases done
      · cases done
        unfold received
        split
        · rename_i waiting
          exact settled waiting _
        · rename_i unknown
          by_cases same : msgId.natAbs = j
          · subst same; simp [unknown]
          · simp [Event.resolves, same]
  | waitTimer id =>
      simp only [step] at done
      split at done
      · rename_i armed
        cases done
        obtain ⟨h, waiting⟩ := inv.waitTimer armed
        rw [waitTimedOut, settle_waitTimer waiting]
        exact settled waiting _
      · cases done
  | sendTimer id =>
      simp only [step] at done
      split at done
      · rename_i armed
        cases done
        rw [eraseEntry_sendTimer (inv.queued (.inl armed))]
        obtain ⟨outstanding, resolved, _⟩ := s.eraseEntry_frame id
        simp [outstanding, resolved, Event.resolves]
      · cases done
  | cancel id =>
      simp only [step] at done
      split at done
      · rename_i given
        cases done
        exact cancel_resolved inv given j
      · cases done
  | popFront =>
      simp only [step, popFront] at done
      split at done
      · cases done
      · split at done
        · cases done
        · cases done; simp [Event.resolves]
  | sendDone =>
      simp only [step] at done
      split at done
      · cases done; simp [destroyEntries, Event.resolves]
      · cases done
  | stop => cases done; simp [Event.resolves]
  | readEnd =>
      simp only [step] at done
      split at done
      · cases done
      · cases done; simp [Event.resolves]
  | clearQueue =>
      simp only [step] at done
      split at done
      · cases done; simp [destroyEntries, Event.resolves]
      · cases done
  | clearOutstanding =>
      simp only [step] at done
      split at done
      · cases done
        cases found : s.outstanding j with
        | some h =>
            have call := (inv.reply j).waiting found
            simp [eraseHandlers, Event.resolves, found, call.notDone]
        | none => simp [eraseHandlers, found]
      · cases done

/-- Settling a call is not noticed on the send side. -/
theorem settle_frame (s : Client P) (id : Nat) (r : Resolution P) :
    (s.settle id r).messageId = s.messageId ∧ (s.settle id r).sent = s.sent ∧
      (s.settle id r).entries = s.entries := by
  unfold settle
  split <;> exact ⟨rfl, rfl, rfl⟩

theorem eraseEntry_messageId (s : Client P) (id : Nat) :
    (s.eraseEntry id).messageId = s.messageId := by
  unfold eraseEntry
  split <;> rfl

theorem cancel_messageId (s : Client P) (id : Nat) : (s.cancel id).messageId = s.messageId := by
  simp only [cancel, Client.cancelWait]
  split <;> split <;> simp only [(settle_frame _ _ _).1, eraseEntry_messageId]

/-- An entry that goes takes its share of `entries` to `sent`. -/
theorem Dropped.units {s : Client P} {queue : List QueueEntry} {sending : Option QueueEntry}
    {es : List QueueEntry} (dropped : s.Dropped queue sending es) (j : Nat) :
    (({ s with outgoingQueue := queue, sending := sending } : Client P).destroyEntries es).sent j +
      (({ s with outgoingQueue := queue, sending := sending } : Client P).destroyEntries
        es).entries j = s.sent j + s.entries j := by
  have counts := dropped.counts j
  simp only [destroyEntries, entries] at counts ⊢
  omega

theorem eraseEntry_units {s : Client P} {id : Nat}
    (queued : s.outgoingQueue.any (·.id == id) = true) (j : Nat) :
    (s.eraseEntry id).sent j + (s.eraseEntry id).entries j = s.sent j + s.entries j := by
  rw [eraseEntry_eq queued]
  exact (dropped_eraseEntry s id).units j

theorem cancel_units {s : Client P} (inv : s.Inv) (id j : Nat) :
    (s.cancel id).sent j + (s.cancel id).entries j = s.sent j + s.entries j := by
  have erased : (if (s.cancellable id).cancelSend then s.eraseEntry id else s).sent j +
      (if (s.cancellable id).cancelSend then s.eraseEntry id else s).entries j =
        s.sent j + s.entries j := by
    split
    · rename_i set
      exact eraseEntry_units (inv.queued (.inr set)) j
    · rfl
  simp only [cancel, Client.cancelWait]
  generalize (if (s.cancellable id).cancelSend then s.eraseEntry id else s) = s₁ at *
  split
  · rw [(settle_frame s₁ id _).2.1, (settle_frame s₁ id _).2.2]
    exact erased
  · exact erased

/-- What a submission does on the send side. -/
theorem submit_units {s s' : Client P} {call : CallOptions} (done : s.submit call = some s') :
    s.messageId ≤ s'.messageId ∧ ∀ j, s'.sent j + s'.entries j = s.sent j + s.entries j +
      if s.error = false ∧ call.timeout ≠ .expired ∧ j = s.messageId then 1 else 0 := by
  have sends (j : Nat) : ((s.handOut call.cancel).send s.messageId call.timeout
        call.cancel).sent j +
      ((s.handOut call.cancel).send s.messageId call.timeout call.cancel).entries j =
        s.sent j + s.entries j +
          if call.timeout ≠ .expired ∧ j = s.messageId then 1 else 0 := by
    unfold send
    by_cases expired : call.timeout = .expired
    · simp [expired, handOut, entries]
    · by_cases same : j = s.messageId
      · subst same
        simp [expired, handOut, entries]
        omega
      · have apart : (s.messageId == j) = false := by simpa using fun h => same h.symm
        simp [expired, handOut, entries, same, apart]
  have numbered : s.messageId ≤ ((s.handOut call.cancel).send s.messageId call.timeout
      call.cancel).messageId :=
    ((s.handOut call.cancel).send_frame s.messageId call.timeout call.cancel).2.2.1 ▸
      Nat.le_succ s.messageId
  unfold submit at done
  split at done
  · rename_i error
    cases done
    exact ⟨le_rfl, fun j => by simp [error, entries]⟩
  · rename_i alive
    simp only [Bool.not_eq_true] at alive
    simp only [alive, true_and]
    split at done
    · cases done
      split
      · exact ⟨numbered, sends⟩
      · exact ⟨numbered, sends⟩
    · cases done

theorem step_messageId {s s' : Client P} {e : Event P} (done : s.step e = some s') :
    s.messageId ≤ s'.messageId := by
  cases e with
  | submit call => exact (submit_units done).1
  | popFront =>
      simp only [step, popFront] at done
      split at done
      · cases done
      · split at done <;> cases done
        exact le_rfl
  | sendDone =>
      simp only [step] at done
      split at done <;> cases done
      exact le_rfl
  | _ =>
      simp only [step] at done
      first
        | cases done; exact le_rfl
        | split at done <;> cases done
          simp only [received, waitTimedOut, cancel_messageId, eraseEntry_messageId,
            (settle_frame _ _ _).1, eraseHandlers, destroyEntries, le_refl]
          try (split <;> simp only [(settle_frame _ _ _).1, le_refl])

/-- The promise of a queue entry is resolved when the entry goes, not before. -/
theorem step_units {s s' : Client P} (inv : s.Inv) {e : Event P} (done : s.step e = some s')
    {j : Nat} (old : j < s.messageId) :
    s'.sent j + s'.entries j = s.sent j + s.entries j := by
  cases e with
  | submit call =>
      rw [(submit_units done).2 j, if_neg (fun new => old.ne new.2.2), Nat.add_zero]
  | frame msgId data =>
      simp only [step] at done
      split at done
      · cases done
      · cases done
        unfold received
        split
        · rw [(settle_frame s _ _).2.1, (settle_frame s _ _).2.2]
        · rfl
  | waitTimer id =>
      simp only [step] at done
      split at done
      · rename_i armed
        cases done
        obtain ⟨h, waiting⟩ := inv.waitTimer armed
        rw [waitTimedOut, settle_waitTimer waiting, (settle_frame s _ _).2.1,
          (settle_frame s _ _).2.2]
      · cases done
  | sendTimer id =>
      simp only [step] at done
      split at done
      · rename_i armed
        cases done
        have queued := inv.queued (.inl armed)
        rw [eraseEntry_sendTimer queued]
        exact eraseEntry_units queued j
      · cases done
  | cancel id =>
      simp only [step] at done
      split at done
      · cases done
        exact cancel_units inv id j
      · cases done
  | popFront =>
      simp only [step, popFront] at done
      split at done
      · cases done
      · rename_i ready
        simp only [Bool.or_eq_true, not_or, Bool.not_eq_true, Option.isSome_eq_false_iff,
          Option.isNone_iff_eq_none] at ready
        split at done
        · cases done
        · rename_i d q queue
          cases done
          simp only [entries, queue, ready.1, Option.toList_some, Option.toList_none,
            List.countP_cons, List.countP_nil]
          omega
  | sendDone =>
      simp only [step] at done
      split at done
      · rename_i d taken
        cases done
        simp only [destroyEntries, entries, taken, Option.toList_some, Option.toList_none,
          List.countP_nil]
        omega
      · cases done
  | stop => cases done; rfl
  | readEnd =>
      simp only [step] at done
      split at done <;> cases done
      rfl
  | clearQueue =>
      simp only [step] at done
      split at done
      · cases done
        simp only [destroyEntries, entries, List.countP_nil]
        omega
      · cases done
  | clearOutstanding =>
      simp only [step] at done
      split at done <;> cases done
      rfl

/-- The first event that applies to a call resolves it; later ones do not. -/
theorem exec_resolved {s s' : Client P} (inv : s.Inv) {es : List (Event P)}
    (run : exec step s es = some s') {j : Nat} (old : j < s.messageId) :
    (s'.outstanding j).isSome =
        ((s.outstanding j).isSome && (es.findSome? (Event.resolves j)).isNone) ∧
      s'.resolved j = s.resolved j ++
        (if (s.outstanding j).isSome then (es.findSome? (Event.resolves j)).toList else []) := by
  induction es generalizing s with
  | nil =>
      cases run
      simp
  | cons e es ih =>
      obtain ⟨s₁, first, rest⟩ := exec_cons.mp run
      obtain ⟨waits, resolved⟩ := step_resolved inv first old
      obtain ⟨waits', resolved'⟩ := ih (step_inv inv first) rest
        (old.trans_le (step_messageId first))
      rw [waits', resolved', waits, resolved]
      cases applies : e.resolves j with
      | none => simp [applies]
      | some r => cases (s.outstanding j).isSome <;> simp [applies]

theorem exec_units {s s' : Client P} (inv : s.Inv) {es : List (Event P)}
    (run : exec step s es = some s') {j : Nat} (old : j < s.messageId) :
    s'.sent j + s'.entries j = s.sent j + s.entries j := by
  induction es generalizing s with
  | nil => cases run; rfl
  | cons e es ih =>
      obtain ⟨s₁, first, rest⟩ := exec_cons.mp run
      rw [ih (step_inv inv first) rest (old.trans_le (step_messageId first)),
        step_units inv first old]

/-- What an accepted submission starts a call with. -/
theorem submit_new {s s' : Client P} (inv : s.Inv) (alive : s.error = false)
    {call : CallOptions} (done : s.submit call = some s') :
    s'.messageId = s.messageId + 1 ∧ (s'.outstanding s.messageId).isSome = call.wait ∧
      s'.resolved s.messageId = [] ∧
      s'.sent s.messageId + s'.entries s.messageId =
        if call.timeout = .expired then 0 else 1 := by
  have unknown := inv.fresh _ le_rfl
  have units := (submit_units done).2 s.messageId
  rw [unknown.unsent] at units
  obtain ⟨outstanding, resolved, messageId, _⟩ :=
    (s.handOut call.cancel).send_frame s.messageId call.timeout call.cancel
  have numbers : s'.messageId = s.messageId + 1 ∧
      (s'.outstanding s.messageId).isSome = call.wait ∧ s'.resolved s.messageId = [] := by
    unfold submit at done
    simp only [alive, Bool.false_eq_true, if_false] at done
    split at done
    · cases done
      split
      · rename_i wait
        exact ⟨messageId, by simp [waitForReply, wait],
          (congrFun resolved _).trans unknown.unresolved⟩
      · rename_i noWait
        simp only [Bool.not_eq_true] at noWait
        have missing := (congrFun outstanding s.messageId).trans unknown.outstanding
        exact ⟨messageId, by rw [missing, noWait, Option.isSome_none],
          (congrFun resolved _).trans unknown.unresolved⟩
    · cases done
  refine ⟨numbers.1, numbers.2.1, numbers.2.2, ?_⟩
  by_cases expired : call.timeout = .expired <;> simpa [alive, expired] using units

/-- The message ids handed out along a run. -/
def handedOut (s : Client P) : List (Event P) → List Nat
  | [] => []
  | e :: es =>
      match s.step e, e with
      | some s', .submit _ =>
          if s.error then s'.handedOut es else s.messageId :: s'.handedOut es
      | some s', _ => s'.handedOut es
      | none, _ => []

/-- Ids are handed out in increasing order. -/
theorem handedOut_pairwise {s s' : Client P} (inv : s.Inv) {es : List (Event P)}
    (run : exec step s es = some s') :
    (s.handedOut es).Pairwise (· < ·) ∧ ∀ id ∈ s.handedOut es, s.messageId ≤ id := by
  induction es generalizing s with
  | nil => exact ⟨List.Pairwise.nil, by simp [handedOut]⟩
  | cons e es ih =>
      obtain ⟨s₁, first, rest⟩ := exec_cons.mp run
      obtain ⟨increasing, bound⟩ := ih (step_inv inv first) rest
      have later := fun id mem => (step_messageId first).trans (bound id mem)
      cases e with
      | submit call =>
          simp only [handedOut, first]
          split
          · exact ⟨increasing, later⟩
          · rename_i alive
            have new := (submit_new inv (by simpa using alive) first).1
            refine ⟨List.pairwise_cons.mpr ⟨fun id mem => ?_, increasing⟩, ?_⟩
            · have := bound id mem
              omega
            · intro id mem
              rcases List.mem_cons.mp mem with rfl | mem
              · exact le_rfl
              · exact later id mem
      | _ => simp only [handedOut, first]; exact ⟨increasing, later⟩

/-! ## The life of every call -/

/-- The invariant holds in every state a run reaches. -/
theorem run_inv {es : List (Event P)} {s : Client P} (done : Client.run es = some s) : s.Inv :=
  exec_invariant (fun _ _ _ inv first => step_inv inv first) inv_initial done

/-- A call submitted to a live client is resolved by the first event after it
that applies to it, and the promise of its queue entry once. -/
theorem call_life {pre post : List (Event P)} {call : CallOptions} {before s : Client P}
    (reached : Client.run pre = some before) (alive : before.error = false)
    (done : Client.run (pre ++ .submit call :: post) = some s) :
    s.resolved before.messageId =
        (if call.wait then (post.findSome? (Event.resolves before.messageId)).toList else []) ∧
      (s.outstanding before.messageId).isSome =
        (call.wait && (post.findSome? (Event.resolves before.messageId)).isNone) ∧
      s.sent before.messageId + s.entries before.messageId =
        (if call.timeout = .expired then 0 else 1) := by
  obtain ⟨before', reached', run⟩ := exec_append.mp done
  cases reached.symm.trans reached'
  obtain ⟨after, first, rest⟩ := exec_cons.mp run
  have inv := run_inv reached
  obtain ⟨messageId, waits, unresolved, units⟩ := submit_new inv alive first
  have inv' := step_inv inv first
  have old : before.messageId < after.messageId := messageId ▸ Nat.lt_succ_self _
  obtain ⟨waits', resolved⟩ := exec_resolved inv' rest old
  refine ⟨?_, ?_, (exec_units inv' rest old).trans units⟩
  · rw [resolved, unresolved, waits, List.nil_append]
  · rw [waits', waits]

end Client

/-- The calls of a client, over every run: ids are distinct, no callback misses
its entry, every call is resolved by the first event that applies to it and by
no other, a frame for an id nobody waits for changes nothing, and after the
teardown every call has been resolved exactly once. -/
theorem calls_resolved {P : Type} {es : List (Event P)} {s : Client P}
    (done : Client.run es = some s) :
    ((Client.initial P).handedOut es).Nodup ∧
      s.missed = false ∧
      (∀ pre call post before, es = pre ++ .submit call :: post →
        Client.run pre = some before → before.error = false →
          s.resolved before.messageId =
            (if call.wait then (post.findSome? (Event.resolves before.messageId)).toList
              else []) ∧
          s.sent before.messageId ≤ 1 ∧
          (s.closed = true →
            (call.wait = true → (s.resolved before.messageId).length = 1) ∧
            (call.timeout ≠ .expired → s.sent before.messageId = 1))) ∧
      (∀ msgId data, s.outstanding msgId.natAbs = none → s.received msgId data = s) ∧
      (s.closed = true → ∀ id, s.outstanding id = none) := by
  have inv := Client.run_inv done
  refine ⟨?_, inv.found, ?_, ?_, fun closed => (inv.closed closed).2⟩
  · exact (Client.handedOut_pairwise Client.inv_initial done).1.imp Nat.ne_of_lt
  · rintro pre call post before rfl reached alive
    obtain ⟨resolved, waits, units⟩ := Client.call_life reached alive done
    refine ⟨resolved, (inv.send _).once.trans' (Nat.le_add_right _ _), fun closed => ⟨?_, ?_⟩⟩
    · intro wait
      have gone := (inv.closed closed).2 before.messageId
      rw [gone, wait] at waits
      rw [resolved, if_pos wait]
      cases first : post.findSome? (Event.resolves before.messageId) with
      | none => rw [first] at waits; cases waits
      | some r => rfl
    · intro queued
      obtain ⟨_, empty, idle⟩ := inv.cleared (inv.closed closed).1
      have none : s.entries before.messageId = 0 := by
        simp [Client.entries, empty, idle]
      rw [none, if_neg queued] at units
      exact units
  · intro msgId data unknown
    simp only [Client.received, unknown]

/-- Two calls: a reply beats the timeout of the first, the second is cancelled
while its entry is with the send loop, and a late reply finds nobody. -/
theorem calls_resolved_two :
    ∃ s : Client Nat, Client.run [.submit ⟨true, .later, false⟩, .submit ⟨true, .none, true⟩,
        .popFront, .frame 1 7, .sendDone, .popFront, .cancel 2, .frame (-2) 8, .sendDone,
        .readEnd, .clearQueue, .clearOutstanding] = some s ∧
      s.missed = false ∧ ∀ id, s.outstanding id = none :=
  have run := rfl
  ⟨_, run, (calls_resolved run).2.1, (calls_resolved run).2.2.2.2 rfl⟩

end ActorNet.Rpc
