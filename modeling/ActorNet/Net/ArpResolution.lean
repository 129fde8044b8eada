import ActorNet.Net.Arp

/-!
# What is known, and who waits

A waiter is pending until its address is learned or the timer of its resolution
fires, and it is resolved by whichever comes first. The table and the
resolutions in progress are kept apart by `lookup` and `learn`, but
`setSelfAddr` writes the table alone, and takes out whatever the last own
address was: at first that is the entry of the broadcast address.
-/

namespace ActorNet.Net

open Lib

variable {L2 L3 : Type} [DecidableEq L2] [DecidableEq L3] {host : ArpHost L2 L3}

namespace ArpFor

variable {a a' : ArpFor L2 L3} {e : ArpEvent L2 L3}

/-! ## Conditions -/

/-- The entry of the broadcast address is neither taken out nor written over. -/
def keepsBroadcast (host : ArpHost L2 L3) (a : ArpFor L2 L3) : ArpEvent L2 L3 → Bool
  | .setSelfAddr addr =>
      (a.l3self != host.l3Broadcast || addr == host.l3Broadcast) &&
        (addr != host.l3Broadcast || host.l2self == host.l2Broadcast)
  | .learn hwaddr paddr => paddr != host.l3Broadcast || hwaddr == host.l2Broadcast
  | _ => true

/-- Nobody else says that our own address is his. -/
def keepsOwn (host : ArpHost L2 L3) (a : ArpFor L2 L3) : ArpEvent L2 L3 → Bool
  | .learn hwaddr paddr =>
      paddr != a.l3self || a.l3self == host.l3Broadcast || hwaddr == host.l2self
  | _ => true

/-- No address becomes our own while it is being looked up. -/
def keepsApart (a : ArpFor L2 L3) : ArpEvent L2 L3 → Bool
  | .setSelfAddr addr => (a.inProgress addr).isNone
  | _ => true

/-- The waiters of an address. -/
def waiters (a : ArpFor L2 L3) (paddr : L3) : List Nat :=
  (a.inProgress paddr).elim [] Resolution.waiters

/-- What a waiter was resolved with, each time. -/
def outcomes (a : ArpFor L2 L3) (w : Nat) : List (Outcome L2) :=
  a.resolved.filterMap fun r => if r.1 = w then some r.2 else none

/-- Whose waiters are pending, and how often each was resolved. -/
structure Ledger (a : ArpFor L2 L3) : Prop where
  armed : ∀ paddr res, a.inProgress paddr = some res → res.timerArmed = true
  own : ∀ paddr w, w ∈ a.waiters paddr → a.asked[w]? = some paddr
  once : ∀ w paddr, a.asked[w]? = some paddr →
    (a.outcomes w).length + (a.waiters paddr).count w = 1
  later : ∀ w, a.asked.length ≤ w → a.outcomes w = []

/-! ## What the operations change -/

omit [DecidableEq L2] in
theorem startResolution_frame (paddr : L3) (a : ArpFor L2 L3) :
    (a.startResolution host paddr).2.table = a.table ∧
      (a.startResolution host paddr).2.l3self = a.l3self ∧
      (a.startResolution host paddr).2.asked = a.asked ∧
      (a.startResolution host paddr).2.resolved = a.resolved := by
  unfold startResolution
  split <;> exact ⟨rfl, rfl, rfl, rfl⟩

omit [DecidableEq L2] in
/-- There is a resolution afterwards, and nothing else changes. -/
theorem startResolution_inProgress (paddr p : L3) (a : ArpFor L2 L3) :
    (a.startResolution host paddr).2.inProgress p =
      if p = paddr then some (a.startResolution host paddr).1 else a.inProgress p := by
  unfold startResolution
  split
  · rename_i res there
    split
    · rename_i same
      rw [same]
      exact there
    · rfl
  · exact Function.update_apply ..

omit [DecidableEq L2] in
theorem startResolution_waiters (paddr : L3) (a : ArpFor L2 L3) :
    (a.startResolution host paddr).1.waiters = a.waiters paddr := by
  unfold startResolution waiters
  split
  · rename_i res there
    rw [there]
    rfl
  · rename_i absent
    rw [absent]
    rfl

omit [DecidableEq L2] in
theorem waiters_update {f : L3 → Option Resolution} (paddr p : L3) (res : Option Resolution) :
    ({ a with inProgress := Function.update f paddr res }).waiters p =
      if p = paddr then res.elim [] Resolution.waiters else (f p).elim [] Resolution.waiters := by
  unfold waiters
  show (Function.update f paddr res p).elim [] Resolution.waiters = _
  rw [Function.update_apply]
  split <;> rfl

omit [DecidableEq L2] [DecidableEq L3] in
theorem outcomes_resolve (res : Resolution) (outcome : Outcome L2) (a : ArpFor L2 L3) (w : Nat) :
    (a.resolve res outcome).outcomes w =
      a.outcomes w ++ List.replicate (res.waiters.count w) outcome := by
  have each : ∀ ws : List Nat, (ws.map (·, outcome)).filterMap
      (fun r => if r.1 = w then some r.2 else none) = List.replicate (ws.count w) outcome := by
    intro ws
    induction ws with
    | nil => rfl
    | cons v rest ih =>
        rw [List.map_cons, List.filterMap_cons, ih, List.count_cons]
        by_cases same : v = w
        · simp [same, List.replicate_succ]
        · simp [same]
  unfold outcomes resolve
  rw [List.filterMap_append, each]

omit [DecidableEq L2] in
/-- The three ways `lookup` ends. -/
theorem lookup_cases {P : Answer L2 × ArpFor L2 L3 → Prop} (paddr : L3)
    (ready : ∀ hwaddr, a.table paddr = some hwaddr → P (.ready hwaddr, a))
    (full : a.table paddr = none → P (.queueFullError, (a.startResolution host paddr).2))
    (waits : a.table paddr = none → P (.waits a.asked.length,
      { (a.startResolution host paddr).2 with
        inProgress := Function.update (a.startResolution host paddr).2.inProgress paddr
          (some { (a.startResolution host paddr).1 with
            waiters := a.waiters paddr ++ [a.asked.length] })
        asked := a.asked ++ [paddr] })) : P (a.lookup host paddr) := by
  unfold lookup
  split
  · rename_i hwaddr known
    exact ready hwaddr known
  · rename_i unknown
    have asked := (@startResolution_frame L2 L3 _ host paddr a).2.2.1
    dsimp only
    split
    · exact full unknown
    · rw [asked, startResolution_waiters]
      exact waits unknown

omit [DecidableEq L2] in
/-- A packet is answered at most. -/
theorem received_eq (h : ArpHdr L2 L3) (a : ArpFor L2 L3) :
    ∃ packetq, (a.received host h).2 = { a with packetq } := by
  have unchanged : ∃ packetq, a = { a with packetq } := ⟨a.packetq, rfl⟩
  unfold received
  split
  · exact unchanged
  split
  · show ∃ packetq, a.handleRequest host h = { a with packetq }
    unfold handleRequest
    split
    · exact ⟨_, rfl⟩
    · exact unchanged
  split
  · exact unchanged
  · exact unchanged

/-! ## Waiters -/

namespace Ledger

omit [DecidableEq L2] [DecidableEq L3]

/-- Only the resolutions, the requests and their outcomes matter. -/
theorem of_same (ledger : a.Ledger)
    (armed : ∀ paddr res, a'.inProgress paddr = some res → res.timerArmed = true)
    (waiters : ∀ paddr, a'.waiters paddr = a.waiters paddr) (asked : a'.asked = a.asked)
    (resolved : a'.resolved = a.resolved) : a'.Ledger := by
  have outcomes : ∀ w, a'.outcomes w = a.outcomes w := by
    intro w
    unfold outcomes
    rw [resolved]
  refine ⟨armed, fun paddr w mem => ?_, fun w paddr from_ => ?_, fun w late => ?_⟩
  · rw [waiters] at mem
    rw [asked]
    exact ledger.own paddr w mem
  · rw [asked] at from_
    rw [outcomes, waiters]
    exact ledger.once w paddr from_
  · rw [asked] at late
    rw [outcomes]
    exact ledger.later w late

theorem not_mem_of_late (ledger : a.Ledger) {w : Nat} (late : a.asked.length ≤ w) (paddr : L3) :
    w ∉ a.waiters paddr := by
  intro mem
  have from_ := ledger.own paddr w mem
  rw [List.getElem?_eq_none late] at from_
  cases from_

theorem not_mem_of_other (ledger : a.Ledger) {w : Nat} {paddr p : L3}
    (from_ : a.asked[w]? = some paddr) (other : p ≠ paddr) : w ∉ a.waiters p := by
  intro mem
  rw [ledger.own p w mem] at from_
  exact other (Option.some.inj from_)

variable [DecidableEq L3]

theorem startResolution (ledger : a.Ledger) (host : ArpHost L2 L3) (paddr : L3) :
    (a.startResolution host paddr).2.Ledger := by
  obtain ⟨-, -, asked, resolved⟩ := @startResolution_frame L2 L3 _ host paddr a
  refine ledger.of_same (fun p res there => ?_) (fun p => ?_) asked resolved
  · rw [startResolution_inProgress] at there
    split at there
    · cases there
      unfold ArpFor.startResolution
      split
      · rename_i res before
        exact ledger.armed paddr res before
      · rfl
    · exact ledger.armed p res there
  · unfold waiters
    rw [startResolution_inProgress]
    split
    · rename_i same
      rw [same]
      exact startResolution_waiters paddr a
    · rfl

/-- One more waiter. -/
theorem waits (ledger : a.Ledger) (paddr : L3) {res : Resolution} (armed : res.timerArmed = true) :
    ({ a with
      inProgress := Function.update a.inProgress paddr
        (some { res with waiters := a.waiters paddr ++ [a.asked.length] })
      asked := a.asked ++ [paddr] }).Ledger := by
  have last : (a.asked ++ [paddr])[a.asked.length]? = some paddr := by simp
  have earlier : ∀ w : Nat, w < a.asked.length → (a.asked ++ [paddr])[w]? = a.asked[w]? :=
    fun w before => List.getElem?_append_left before
  have outcomes : ∀ w, ({ a with
      inProgress := Function.update a.inProgress paddr
        (some { res with waiters := a.waiters paddr ++ [a.asked.length] })
      asked := a.asked ++ [paddr] } : ArpFor L2 L3).outcomes w = a.outcomes w := fun w => rfl
  have waiters : ∀ p, ({ a with
      inProgress := Function.update a.inProgress paddr
        (some { res with waiters := a.waiters paddr ++ [a.asked.length] })
      asked := a.asked ++ [paddr] } : ArpFor L2 L3).waiters p =
      if p = paddr then a.waiters paddr ++ [a.asked.length] else a.waiters p := by
    intro p
    exact waiters_update (a := { a with asked := a.asked ++ [paddr] }) paddr p _
  refine ⟨fun p r there => ?_, fun p w mem => ?_, fun w p from_ => ?_, fun w late => ?_⟩
  · have there : Function.update a.inProgress paddr
        (some { res with waiters := a.waiters paddr ++ [a.asked.length] }) p = some r := there
    rw [Function.update_apply] at there
    split at there
    · cases there
      exact armed
    · exact ledger.armed p r there
  · show (a.asked ++ [paddr])[w]? = some p
    have old : w ∈ a.waiters p → (a.asked ++ [paddr])[w]? = some p := by
      intro mem
      have from_ := ledger.own p w mem
      rw [earlier w (List.getElem?_eq_some_iff.mp from_).1]
      exact from_
    rw [waiters] at mem
    split at mem
    · rename_i same
      rcases List.mem_append.mp mem with before | new
      · exact old (same ▸ before)
      · rw [List.mem_singleton.mp new, same]
        exact last
    · exact old mem
  · have from_ : (a.asked ++ [paddr])[w]? = some p := from_
    rw [outcomes, waiters]
    by_cases new : w = a.asked.length
    · rw [new, last] at from_
      cases from_
      rw [if_pos rfl, new, ledger.later _ (Nat.le_refl _), List.count_append,
        List.count_eq_zero_of_not_mem (ledger.not_mem_of_late (Nat.le_refl _) paddr)]
      simp
    · have bound := (List.getElem?_eq_some_iff.mp from_).1
      rw [List.length_append, List.length_singleton] at bound
      rw [earlier w (by omega)] at from_
      have before := ledger.once w p from_
      split
      · rename_i same
        rw [List.count_append, List.count_singleton, if_neg (by simpa using Ne.symm new),
          Nat.add_zero, ← same]
        exact before
      · exact before
  · have late : (a.asked ++ [paddr]).length ≤ w := late
    rw [List.length_append] at late
    rw [outcomes]
    exact ledger.later w (by omega)

/-- All waiters of one address are resolved. -/
theorem settle (ledger : a.Ledger) {paddr : L3} {res : Resolution}
    (there : a.inProgress paddr = some res) (outcome : Outcome L2) {next : Option Resolution}
    (armed : ∀ r, next = some r → r.timerArmed = true)
    (none_ : next.elim [] Resolution.waiters = [])
    (inProgress : a'.inProgress = Function.update a.inProgress paddr next)
    (asked : a'.asked = a.asked) (resolved : a'.resolved = (a.resolve res outcome).resolved) :
    a'.Ledger := by
  have outcomes : ∀ w, a'.outcomes w =
      a.outcomes w ++ List.replicate ((a.waiters paddr).count w) outcome := by
    intro w
    have pending : a.waiters paddr = res.waiters := by
      unfold ArpFor.waiters
      rw [there]
      rfl
    rw [pending, ← outcomes_resolve]
    unfold ArpFor.outcomes
    rw [resolved]
  have waiters : ∀ p, a'.waiters p = if p = paddr then [] else a.waiters p := by
    intro p
    unfold ArpFor.waiters
    rw [inProgress, Function.update_apply]
    split
    · exact none_
    · rfl
  refine ⟨fun p r found => ?_, fun p w mem => ?_, fun w p from_ => ?_, fun w late => ?_⟩
  · rw [inProgress, Function.update_apply] at found
    split at found
    · exact armed r found
    · exact ledger.armed p r found
  · rw [waiters] at mem
    rw [asked]
    split at mem
    · cases mem
    · exact ledger.own p w mem
  · rw [asked] at from_
    have before := ledger.once w p from_
    rw [outcomes, waiters, List.length_append, List.length_replicate]
    split
    · rename_i same
      rw [same] at before
      simpa using before
    · rename_i other
      rw [List.count_eq_zero_of_not_mem (ledger.not_mem_of_other from_ (Ne.symm other))]
      simpa using before
  · rw [asked] at late
    rw [outcomes, ledger.later w late,
      List.count_eq_zero_of_not_mem (ledger.not_mem_of_late late paddr)]
    rfl

theorem step (ledger : a.Ledger) (next : ArpFor.step host a e = some a') : a'.Ledger := by
  unfold ArpFor.step at next
  split at next
  · cases next
    cases e with
    | setSelfAddr addr => exact ⟨ledger.armed, ledger.own, ledger.once, ledger.later⟩
    | learn hwaddr paddr =>
        show (a.learn hwaddr paddr).Ledger
        unfold ArpFor.learn
        dsimp only
        split
        · exact ⟨ledger.armed, ledger.own, ledger.once, ledger.later⟩
        · rename_i res there
          exact ledger.settle there (.value hwaddr) (fun r absent => by cases absent) rfl rfl rfl rfl
    | lookup paddr =>
        show (a.lookup host paddr).2.Ledger
        have started := ledger.startResolution host paddr
        apply lookup_cases (P := fun result => result.2.Ledger) paddr
        · exact fun _ _ => ledger
        · exact fun _ => started
        · intro _
          have inProgress := @startResolution_inProgress L2 L3 _ host paddr paddr a
          rw [if_pos rfl] at inProgress
          have more := started.waits paddr (started.armed paddr _ inProgress)
          have waiters : (a.startResolution host paddr).2.waiters paddr = a.waiters paddr := by
            rw [← @startResolution_waiters L2 L3 _ host paddr a]
            unfold ArpFor.waiters
            rw [inProgress]
            rfl
          rw [waiters, (startResolution_frame paddr a).2.2.1] at more
          exact more
    | timeout paddr =>
        show (a.timeout host paddr).Ledger
        unfold ArpFor.timeout
        split
        · exact ledger
        · rename_i res there
          refine ledger.settle there .timeoutError (fun r found => ?_) rfl rfl rfl rfl
          cases found
          exact ledger.armed paddr res there
    | received h =>
        obtain ⟨packetq, result⟩ := @received_eq L2 L3 _ host h a
        show (a.received host h).2.Ledger
        rw [result]
        exact ⟨ledger.armed, ledger.own, ledger.once, ledger.later⟩
  · cases next

omit [DecidableEq L3] in
/-- A pending waiter was not resolved yet, and waits once. -/
theorem pending (ledger : a.Ledger) {w : Nat} {paddr : L3} (mem : w ∈ a.waiters paddr) :
    a.outcomes w = [] ∧ (a.waiters paddr).count w = 1 := by
  have once := ledger.once w paddr (ledger.own paddr w mem)
  have some_ : 0 < (a.waiters paddr).count w := List.count_pos_iff.mpr mem
  exact ⟨List.length_eq_zero_iff.mp (by omega), by omega⟩

omit [DecidableEq L3] in
theorem inProgress_of_mem {w : Nat} {paddr : L3} (mem : w ∈ a.waiters paddr) :
    ∃ res, a.inProgress paddr = some res ∧ res.waiters = a.waiters paddr := by
  unfold waiters at *
  cases there : a.inProgress paddr with
  | none =>
      rw [there] at mem
      cases mem
  | some res => exact ⟨res, rfl, rfl⟩

/-- The timer of its address is armed, and ends the wait with an error. -/
theorem timeout (ledger : a.Ledger) {w : Nat} {paddr : L3} (mem : w ∈ a.waiters paddr) :
    a.enabled (.timeout paddr : ArpEvent L2 L3) = true ∧
      ∀ a', ArpFor.step host a (.timeout paddr) = some a' → a'.outcomes w = [.timeoutError] := by
  obtain ⟨res, there, same⟩ := inProgress_of_mem mem
  obtain ⟨unresolved, once⟩ := ledger.pending mem
  have enabled : a.enabled (.timeout paddr : ArpEvent L2 L3) = true := by
    unfold ArpFor.enabled
    dsimp only
    rw [there]
    exact ledger.armed paddr res there
  refine ⟨enabled, fun a' next => ?_⟩
  unfold ArpFor.step at next
  rw [if_pos enabled] at next
  cases next
  show (a.timeout host paddr).outcomes w = _
  unfold ArpFor.timeout
  rw [there]
  show ((a.sendQuery host paddr).resolve res .timeoutError).outcomes w = _
  rw [outcomes_resolve, same, once]
  show a.outcomes w ++ [.timeoutError] = _
  rw [unresolved]
  rfl

/-- Learning its address ends the wait with the address. -/
theorem learn (ledger : a.Ledger) {w : Nat} {paddr : L3} (mem : w ∈ a.waiters paddr) (hwaddr : L2)
    (next : ArpFor.step host a (.learn hwaddr paddr) = some a') :
    a'.outcomes w = [.value hwaddr] := by
  obtain ⟨res, there, same⟩ := inProgress_of_mem mem
  obtain ⟨unresolved, once⟩ := ledger.pending mem
  unfold ArpFor.step at next
  rw [if_pos (by rfl)] at next
  cases next
  show (a.learn hwaddr paddr).outcomes w = _
  unfold ArpFor.learn
  dsimp only
  rw [there]
  show (ArpFor.resolve res (.value hwaddr) _).outcomes w = _
  rw [outcomes_resolve, same, once]
  show a.outcomes w ++ [.value hwaddr] = _
  rw [unresolved]
  rfl

/-- What a step resolves a waiter with: the address just learned, or the error. -/
theorem outcome_step (ledger : a.Ledger) (next : ArpFor.step host a e = some a') {w : Nat}
    {o : Outcome L2} (mem : o ∈ a'.outcomes w) : o ∈ a.outcomes w ∨ o = .timeoutError ∨
      ∃ hwaddr paddr, e = .learn hwaddr paddr ∧ o = .value hwaddr ∧ a.asked[w]? = some paddr := by
  unfold ArpFor.step at next
  split at next
  · cases next
    cases e with
    | setSelfAddr addr => exact .inl mem
    | learn hwaddr paddr =>
        have mem : o ∈ (a.learn hwaddr paddr).outcomes w := mem
        unfold ArpFor.learn at mem
        dsimp only at mem
        split at mem
        · exact .inl mem
        · rename_i res there
          have mem : o ∈ (ArpFor.resolve res (.value hwaddr)
            { a with table := Function.update a.table paddr (some hwaddr) }).outcomes w := mem
          rw [outcomes_resolve] at mem
          rcases List.mem_append.mp mem with before | new
          · exact .inl before
          · obtain ⟨waits, same⟩ := List.mem_replicate.mp new
            refine .inr (.inr ⟨hwaddr, paddr, rfl, same, ledger.own paddr w ?_⟩)
            unfold waiters
            rw [there]
            exact List.count_pos_iff.mp (Nat.pos_of_ne_zero waits)
    | lookup paddr =>
        have resolved : (a.lookup host paddr).2.resolved = a.resolved := by
          obtain ⟨-, -, -, resolved⟩ := @startResolution_frame L2 L3 _ host paddr a
          apply lookup_cases (P := fun result => result.2.resolved = a.resolved)
          · exact fun _ _ => rfl
          · exact fun _ => resolved
          · exact fun _ => resolved
        have mem : o ∈ (a.lookup host paddr).2.outcomes w := mem
        unfold outcomes at mem
        rw [resolved] at mem
        exact .inl mem
    | timeout paddr =>
        have mem : o ∈ (a.timeout host paddr).outcomes w := mem
        unfold ArpFor.timeout at mem
        split at mem
        · exact .inl mem
        · rename_i res there
          have mem : o ∈ ((a.sendQuery host paddr).resolve res .timeoutError).outcomes w := mem
          rw [outcomes_resolve] at mem
          rcases List.mem_append.mp mem with before | new
          · exact .inl before
          · exact .inr (.inl (List.mem_replicate.mp new).2)
    | received h =>
        obtain ⟨packetq, result⟩ := @received_eq L2 L3 _ host h a
        have mem : o ∈ (a.received host h).2.outcomes w := mem
        rw [result] at mem
        exact .inl mem
  · cases next

end Ledger

omit [DecidableEq L2] in
/-- What a waiter asked for is not forgotten. -/
theorem step_asked (next : step host a e = some a') : a.asked <+: a'.asked := by
  unfold step at next
  split at next
  · cases next
    cases e with
    | setSelfAddr addr => exact List.prefix_refl _
    | learn hwaddr paddr =>
        show a.asked <+: (a.learn hwaddr paddr).asked
        unfold learn
        dsimp only
        split <;> exact List.prefix_refl _
    | lookup paddr =>
        obtain ⟨-, -, asked, -⟩ := @startResolution_frame L2 L3 _ host paddr a
        apply lookup_cases (P := fun result => a.asked <+: result.2.asked)
        · exact fun _ _ => List.prefix_refl _
        · exact fun _ => asked.symm ▸ List.prefix_refl a.asked
        · exact fun _ => List.prefix_append ..
    | timeout paddr =>
        show a.asked <+: (a.timeout host paddr).asked
        unfold timeout
        split <;> exact List.prefix_refl _
    | received h =>
        obtain ⟨packetq, result⟩ := @received_eq L2 L3 _ host h a
        show a.asked <+: (a.received host h).2.asked
        exact result.symm ▸ List.prefix_refl a.asked
  · cases next

omit [DecidableEq L2] in
theorem exec_asked {events : List (ArpEvent L2 L3)} (run : exec (step host) a events = some a') :
    a.asked <+: a'.asked := by
  induction events generalizing a with
  | nil =>
      cases run
      exact List.prefix_refl _
  | cons e rest ih =>
      obtain ⟨b, first, after⟩ := exec_cons.mp run
      exact (step_asked first).trans (ih after)

omit [DecidableEq L2] in
/-- Along a run, waiters get the addresses that are learned, or the error. -/
theorem outcome_of_run {events : List (ArpEvent L2 L3)} (ledger : a.Ledger)
    (run : exec (step host) a events = some a') {w : Nat} {o : Outcome L2}
    (mem : o ∈ a'.outcomes w) : o ∈ a.outcomes w ∨ o = .timeoutError ∨
      ∃ hwaddr paddr, .learn hwaddr paddr ∈ events ∧ o = .value hwaddr ∧
        a'.asked[w]? = some paddr := by
  induction events generalizing a with
  | nil =>
      cases run
      exact .inl mem
  | cons e rest ih =>
      obtain ⟨b, first, after⟩ := exec_cons.mp run
      rcases ih (ledger.step first) after with before | late | ⟨hwaddr, paddr, learned, same, from_⟩
      · rcases ledger.outcome_step first before with before | late | ⟨hwaddr, paddr, rfl, same, from_⟩
        · exact .inl before
        · exact .inr (.inl late)
        · refine .inr (.inr ⟨hwaddr, paddr, List.mem_cons_self, same, ?_⟩)
          obtain ⟨bound, there⟩ := List.getElem?_eq_some_iff.mp from_
          have whole := (step_asked first).trans (exec_asked after)
          rw [List.prefix_iff_getElem?.mp whole w bound, there]
      · exact .inr (.inl late)
      · exact .inr (.inr ⟨hwaddr, paddr, List.mem_cons_of_mem _ learned, same, from_⟩)

/-! ## The table -/

/-- The table after an event: two operations write it. -/
def tableAfter (host : ArpHost L2 L3) (a : ArpFor L2 L3) : ArpEvent L2 L3 → L3 → Option L2
  | .setSelfAddr addr =>
      Function.update (Function.update a.table a.l3self none) addr (some host.l2self)
  | .learn hwaddr paddr => Function.update a.table paddr (some hwaddr)
  | _ => a.table

def selfAfter (a : ArpFor L2 L3) : ArpEvent L2 L3 → L3
  | .setSelfAddr addr => addr
  | _ => a.l3self

omit [DecidableEq L2] in
theorem step_table (next : step host a e = some a') :
    a'.table = a.tableAfter host e ∧ a'.l3self = a.selfAfter e := by
  unfold step at next
  split at next
  · cases next
    cases e with
    | setSelfAddr addr => exact ⟨rfl, rfl⟩
    | learn hwaddr paddr =>
        show (a.learn hwaddr paddr).table = _ ∧ (a.learn hwaddr paddr).l3self = _
        unfold learn
        dsimp only
        split <;> exact ⟨rfl, rfl⟩
    | lookup paddr =>
        obtain ⟨table, self, -⟩ := @startResolution_frame L2 L3 _ host paddr a
        apply lookup_cases (P := fun result => result.2.table = a.table ∧ result.2.l3self = a.l3self)
        · exact fun _ _ => ⟨rfl, rfl⟩
        · exact fun _ => ⟨table, self⟩
        · exact fun _ => ⟨table, self⟩
    | timeout paddr =>
        show (a.timeout host paddr).table = _ ∧ (a.timeout host paddr).l3self = _
        unfold timeout
        split <;> exact ⟨rfl, rfl⟩
    | received h =>
        obtain ⟨packetq, result⟩ := @received_eq L2 L3 _ host h a
        show (a.received host h).2.table = _ ∧ (a.received host h).2.l3self = _
        rw [result]
        exact ⟨rfl, rfl⟩
  · cases next

/-- The broadcast address stays where it is in a step that keeps it, and in no
other. -/
theorem keepsBroadcast_iff (known : a.table host.l3Broadcast = some host.l2Broadcast)
    (next : step host a e = some a') :
    a'.table host.l3Broadcast = some host.l2Broadcast ↔ a.keepsBroadcast host e = true := by
  rw [(step_table next).1]
  unfold keepsBroadcast tableAfter
  cases e with
  | setSelfAddr addr =>
      dsimp only
      rw [Function.update_apply, Function.update_apply]
      by_cases new : host.l3Broadcast = addr
      · simp [new]
      · by_cases old : host.l3Broadcast = a.l3self
        · have self : a.l3self = host.l3Broadcast := old.symm
          simp [new, self, Ne.symm new]
        · simp [new, old, known, Ne.symm new, Ne.symm old]
  | learn hwaddr paddr =>
      dsimp only
      rw [Function.update_apply]
      by_cases new : host.l3Broadcast = paddr
      · simp [new]
      · simp [new, known, Ne.symm new]
  | _ => simp [known]

/-- So does our own address, once there is one. -/
theorem keepsOwn_iff (known : a.l3self ≠ host.l3Broadcast → a.table a.l3self = some host.l2self)
    (next : step host a e = some a') :
    (a'.l3self ≠ host.l3Broadcast → a'.table a'.l3self = some host.l2self) ↔
      a.keepsOwn host e = true := by
  obtain ⟨table, self⟩ := step_table next
  rw [table, self]
  unfold keepsOwn tableAfter selfAfter
  cases e with
  | setSelfAddr addr => simp
  | learn hwaddr paddr =>
      dsimp only
      rw [Function.update_apply]
      by_cases unset : a.l3self = host.l3Broadcast
      · simp [unset]
      · by_cases new : a.l3self = paddr
        · subst new
          simp [unset]
        · simp [new, unset, known unset, Ne.symm new]
  | _ => exact ⟨fun _ => rfl, fun _ => known⟩

/-- The addresses that are known are not looked up any more. -/
def Apart (a : ArpFor L2 L3) : Prop := ∀ p, (a.table p).isSome = true → a.inProgress p = none

omit [DecidableEq L2] in
/-- The table and the resolutions in progress stay apart in a step that keeps
them so, and in no other. -/
theorem keepsApart_iff (apart : a.Apart) (next : step host a e = some a') :
    a'.Apart ↔ a.keepsApart e = true := by
  have table := (step_table next).1
  unfold step at next
  split at next
  · cases next
    have after : ∀ p, ((handle host a e).table p).isSome = (a.tableAfter host e p).isSome :=
      fun p => by rw [table]
    cases e with
    | setSelfAddr addr =>
        show (∀ p, _ → a.inProgress p = none) ↔ (a.inProgress addr).isNone = true
        rw [Option.isNone_iff_eq_none]
        constructor
        · intro apart'
          refine apart' addr ((after addr).trans ?_)
          unfold tableAfter
          simp
        · intro idle p known
          have known : (Function.update (Function.update a.table a.l3self none) addr
            (some host.l2self) p).isSome = true := (after p).symm.trans known
          rw [Function.update_apply, Function.update_apply] at known
          split at known
          · rename_i own
            rw [own]
            exact idle
          split at known
          · cases known
          · exact apart p known
    | learn hwaddr paddr =>
        refine ⟨fun _ => rfl, fun _ p known => ?_⟩
        have known : (Function.update a.table paddr (some hwaddr) p).isSome = true :=
          (after p).symm.trans known
        rw [Function.update_apply] at known
        show (a.learn hwaddr paddr).inProgress p = none
        unfold learn
        dsimp only
        split
        · rename_i idle
          split at known
          · rename_i same
            rw [same]
            exact idle
          · exact apart p known
        · show Function.update a.inProgress paddr none p = none
          rw [Function.update_apply]
          split
          · rfl
          · rename_i other
            rw [if_neg other] at known
            exact apart p known
    | lookup paddr =>
        refine ⟨fun _ => rfl, fun _ p known => ?_⟩
        have known : (a.table p).isSome = true := (after p).symm.trans known
        have idle := apart p known
        have other : a.table paddr = none → p ≠ paddr := by
          intro unknown same
          rw [same, unknown] at known
          cases known
        apply lookup_cases (P := fun result => result.2.inProgress p = none) paddr
        · exact fun _ _ => idle
        · intro unknown
          rw [startResolution_inProgress, if_neg (other unknown)]
          exact idle
        · intro unknown
          refine (Function.update_of_ne (other unknown) ..).trans ?_
          rw [startResolution_inProgress, if_neg (other unknown)]
          exact idle
    | timeout paddr =>
        refine ⟨fun _ => rfl, fun _ p known => ?_⟩
        have known : (a.table p).isSome = true := (after p).symm.trans known
        have idle := apart p known
        show (a.timeout host paddr).inProgress p = none
        unfold timeout
        split
        · exact idle
        · rename_i res there
          have other : p ≠ paddr := by
            intro same
            rw [same, there] at idle
            cases idle
          exact (Function.update_of_ne other ..).trans idle
    | received h =>
        refine ⟨fun _ => rfl, fun _ p known => ?_⟩
        have known : (a.table p).isSome = true := (after p).symm.trans known
        obtain ⟨packetq, result⟩ := @received_eq L2 L3 _ host h a
        show (a.received host h).2.inProgress p = none
        rw [result]
        exact apart p known
  · cases next

/-! ## Runs -/

omit [DecidableEq L2] in
theorem ledger_of_run {events : List (ArpEvent L2 L3)}
    (run : exec (step host) (new host) events = some a) : a.Ledger := by
  have begin_ : (new host).Ledger := by
    refine ⟨?_, ?_, ?_, ?_⟩
    · intro paddr res there
      cases there
    · intro paddr w mem
      cases mem
    · intro w paddr from_
      cases from_
    · intro w _
      rfl
  exact exec_invariant (fun _ _ _ ledger next => ledger.step next) begin_ run

/-- On every run: the broadcast address resolves to the broadcast address of the
device as long as every step keeps it so, and so does our own address, once it
is set, to that of the device; as long as no address becomes our own while it is
looked up, no known address is looked up. In any case a waiter was either
resolved once, with the address that was learned for what it asked or with the
error, or it waits once, for that address alone, and whatever comes first of the
timer and of the address resolves it. -/
theorem resolution (host : ArpHost L2 L3) (events : List (ArpEvent L2 L3)) (a : ArpFor L2 L3)
    (run : exec (step host) (new host) events = some a) :
    (Along (step host) (fun u e => u.keepsBroadcast host e = true) (new host) events →
      (a.lookup host host.l3Broadcast).1 = .ready host.l2Broadcast) ∧
    (Along (step host) (fun u e => u.keepsOwn host e = true) (new host) events →
      a.l3self ≠ host.l3Broadcast → (a.lookup host a.l3self).1 = .ready host.l2self) ∧
    (Along (step host) (fun u e => u.keepsApart e = true) (new host) events →
      ∀ p, (a.table p).isSome = true → a.inProgress p = none) ∧
    ∀ w p, a.asked[w]? = some p →
      (a.outcomes w).length + (a.waiters p).count w = 1 ∧
      (∀ q, w ∈ a.waiters q → q = p) ∧
      (∀ o ∈ a.outcomes w, o = .timeoutError ∨
        ∃ hwaddr, o = .value hwaddr ∧ .learn hwaddr p ∈ events) ∧
      (w ∈ a.waiters p → a.enabled (.timeout p : ArpEvent L2 L3) = true ∧
        (∀ a', step host a (.timeout p) = some a' → a'.outcomes w = [.timeoutError]) ∧
        ∀ hwaddr a', step host a (.learn hwaddr p) = some a' →
          a'.outcomes w = [.value hwaddr]) := by
  have ready : ∀ {p hwaddr}, a.table p = some hwaddr → (a.lookup host p).1 = .ready hwaddr := by
    intro p hwaddr known
    unfold lookup
    rw [known]
  have ledger := ledger_of_run run
  refine ⟨fun kept => ?_, fun kept configured => ?_, fun kept => ?_, fun w p from_ => ?_⟩
  · have begin_ : (new host).table host.l3Broadcast = some host.l2Broadcast := by
      unfold new
      simp
    refine ready (Along.invariant (I := fun u : ArpFor L2 L3 =>
      u.table host.l3Broadcast = some host.l2Broadcast) ?_ begin_ kept run)
    exact fun u e u' known ok next => (keepsBroadcast_iff known next).mpr ok
  · refine ready (Along.invariant (I := fun u : ArpFor L2 L3 =>
      u.l3self ≠ host.l3Broadcast → u.table u.l3self = some host.l2self) ?_ ?_ kept run configured)
    · exact fun u e u' known ok next => (keepsOwn_iff known next).mpr ok
    · exact fun configured => absurd rfl configured
  · refine Along.invariant (I := Apart) ?_ (fun p _ => rfl) kept run
    exact fun u e u' apart ok next => (keepsApart_iff apart next).mpr ok
  · refine ⟨ledger.once w p from_, fun q mem => ?_, fun o mem => ?_, fun mem => ?_⟩
    · have other := ledger.own q w mem
      rw [from_] at other
      exact (Option.some.inj other).symm
    · have begin_ : (new host).Ledger := @ledger_of_run L2 L3 _ host _ [] rfl
      rcases outcome_of_run begin_ run mem with before | late | ⟨hwaddr, q, learned, same, other⟩
      · cases before
      · exact .inl late
      · rw [from_] at other
        cases other
        exact .inr ⟨hwaddr, same, learned⟩
    · obtain ⟨enabled, fires⟩ := @Ledger.timeout L2 L3 host a _ ledger w p mem
      exact ⟨enabled, fires, fun hwaddr a' next => ledger.learn mem hwaddr next⟩

end ArpFor

/-! ## A host that gets its address -/

/-- Addresses are numbers, and the broadcast addresses are the last ones. -/
def arpHost : ArpHost Nat Nat := ⟨1, 0xffffffffffff, 0xffffffff, 1, 0x0800, 6, 4⟩

/-- Two lookups of one address that is learned, and one of an address that is
not. -/
theorem resolution_learned : ∃ a : ArpFor Nat Nat,
    exec (ArpFor.step arpHost) (.new arpHost)
      [.lookup 7, .lookup 7, .lookup 8, .learn 70 7, .timeout 8] = some a ∧
      (a.lookup arpHost 0xffffffff).1 = .ready 0xffffffffffff ∧
      (a.outcomes 1).length + (a.waiters 7).count 1 = 1 := by
  have run : exec (ArpFor.step arpHost) (.new arpHost)
      [.lookup 7, .lookup 7, .lookup 8, .learn 70 7, .timeout 8] = some _ :=
    (Option.some_get (by decide)).symm
  obtain ⟨broadcast, -, -, waiter⟩ := ArpFor.resolution arpHost _ _ run
  exact ⟨_, run, broadcast (by decide), (waiter 1 7 (by decide)).1⟩

/-- An address becomes our own while it is looked up: it is known and still
looked up, and the broadcast address is not known any more. -/
theorem setSelfAddr_forgets : ∃ a : ArpFor Nat Nat,
    exec (ArpFor.step arpHost) (.new arpHost) [.lookup 7, .setSelfAddr 7] = some a ∧
      (a.lookup arpHost 0xffffffff).1 = .waits 1 ∧ (a.table 7).isSome = true ∧
      (a.inProgress 7).isSome = true := by
  have run : exec (ArpFor.step arpHost) (.new arpHost)
      [.lookup 7, .setSelfAddr 7] = some _ := (Option.some_get (by decide)).symm
  exact ⟨_, run, by decide⟩

end ActorNet.Net
