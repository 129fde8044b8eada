import ActorNet.Rpc.Server

/-!
# Which requests are answered

A request is answered exactly once, except when its payload cannot be
unmarshalled or its handler, or the serializer of its result, throws something
that is no `std::exception`: then the exception is logged or dropped and the
caller is left without a reply.
-/

namespace ActorNet.Rpc

open Lib ServerConnection

variable {Args Ret : Type}

/-! ## The answers a finished request has got -/

namespace Service

variable (service : Service Args Ret) (r : ServerRequest)

/-- The arguments a request reaches its handler with. -/
def arguments : Option Args :=
  if r.known && !service.oversized r then (service.unmarshall r.type r.payload).toOption else none

/-- The replies queued for a request by the time it is finished. -/
def answersTo (outcome : Option (HandlerOutcome Ret)) : List Reply :=
  if !r.known then [service.unknownVerbReply r]
  else if service.oversized r then (service.reply r (.error (service.oversizedError r))).toList
  else match outcome with
    | none => []
    | some outcome => (service.reply r outcome.apply).toList

/-- The marshalled result of a request that succeeded. -/
def successValue (outcome : Option (HandlerOutcome Ret)) : Option (List Byte) :=
  if r.known && !service.oversized r then
    outcome.bind fun outcome => (outcome.apply.bind (service.marshall r.type)).toOption
  else none

/-- The verb is unknown, the request is too large, or its payload unmarshals and
no exception outside `std::exception` comes of it. -/
def answerable (outcome : Option (HandlerOutcome Ret)) : Bool :=
  !r.known || service.oversized r ||
    match outcome with
    | none => false
    | some outcome =>
        match outcome.apply.bind (service.marshall r.type) with
        | .error .other => false
        | _ => true

end Service

/-- Exactly one response is queued for the request: its result under its own id,
or an exception under the negated one. -/
def AnsweredOnce (service : Service Args Ret) (c : ServerConnection Args Ret) (k : Nat)
    (r : ServerRequest) (outcome : Option (HandlerOutcome Ret)) : Prop :=
  ∃ reply, responsesTo c k = [reply] ∧
    match service.successValue r outcome with
    | some data => reply.answer = .value data ∧ reply.answer.wireId reply.msgId = r.msgId
    | none => (∀ data, reply.answer ≠ .value data) ∧
        reply.answer.wireId reply.msgId = -r.msgId

variable {service : Service Args Ret} {r : ServerRequest}

theorem unknownVerbReply_eq : service.unknownVerbReply r =
    ⟨r.msgId, .unknownVerb r.type, service.uninit⟩ := rfl

/-- `reply` by what becomes of the result. -/
theorem reply_eq (ret : Except Thrown Ret) :
    service.reply r ret = match ret.bind (service.marshall r.type) with
      | .ok data => some ⟨r.msgId, .value data, service.uninit⟩
      | .error (.std what) => some ⟨r.msgId, .userException what, service.uninit⟩
      | .error .other => none := rfl

/-- The answers of a finished request are one right answer exactly when it is
answerable. -/
theorem answersTo_iff {c : ServerConnection Args Ret} {k : Nat}
    {outcome : Option (HandlerOutcome Ret)}
    (answers : responsesTo c k = service.answersTo r outcome) :
    AnsweredOnce service c k r outcome ↔ service.answerable r outcome = true := by
  unfold AnsweredOnce
  rw [answers]
  unfold Service.answersTo Service.successValue Service.answerable
  cases known : r.known with
  | false => simp [unknownVerbReply_eq, Answer.wireId]
  | true =>
      cases large : service.oversized r with
      | true => simp [reply_eq, Service.oversizedError, Except.bind, Answer.wireId]
      | false =>
          cases outcome with
          | none => simp
          | some outcome =>
              cases result : outcome.apply.bind (service.marshall r.type) with
              | ok data => simp [reply_eq, result, Except.toOption, Answer.wireId]
              | error thrown =>
                  cases thrown <;> simp [reply_eq, result, Except.toOption, Answer.wireId]

/-! ## What holds of every request -/

/-- What a request in some stage has been through, and what was queued for it. -/
def Entry (service : Service Args Ret) (r : ServerRequest) (stage : Stage Args Ret)
    (answers : List Reply) : Prop :=
  match stage with
  | .waiting units => answers = [] ∧ if r.known
      then service.oversized r = false ∧ units = service.estimateRequestSize r
      else units = 28
  | .running _ args => answers = [] ∧ service.arguments r = some args
  | .finished outcome => answers = service.answersTo r outcome ∧
      (outcome.isSome = true ↔ (service.arguments r).isSome = true)

structure Answering (service : Service Args Ret) (c : ServerConnection Args Ret) : Prop where
  entry : ∀ k r stage, c.requests[k]? = some (r, stage) → Entry service r stage (responsesTo c k)
  numbered : ∀ k, c.requests.length ≤ k → responsesTo c k = []

variable {c c' : ServerConnection Args Ret}

theorem start_answering : Answering service (start service) where
  entry k r stage found := by simp [start] at found
  numbered _ _ := rfl

/-- Replies of one request among all replies. -/
theorem replies_append {responses answers : List (Nat × Reply)} {k : Nat}
    (mine : ∀ a ∈ answers, a.1 = k) (j : Nat) :
    ((responses ++ answers).filter fun a => a.1 == j).map Prod.snd =
      (responses.filter fun a => a.1 == j).map Prod.snd ++
        if k = j then answers.map Prod.snd else [] := by
  rw [List.filter_append, List.map_append]
  congr 1
  split
  · rename_i same
    rw [List.filter_eq_self.mpr fun a member => by simp [mine a member, same]]
  · rename_i other
    rw [List.filter_eq_nil_iff.mpr fun a member => by simpa [mine a member] using other]
    rfl

/-! ## The steps -/

/-- A request that is added is the last. -/
theorem Answering.add (h : Answering service c) {r : ServerRequest} {stage : Stage Args Ret}
    {answers : List (Nat × Reply)} (requests : c'.requests = c.requests ++ [(r, stage)])
    (responses : c'.responses = c.responses ++ answers)
    (mine : ∀ a ∈ answers, a.1 = c.requests.length)
    (entry : Entry service r stage (answers.map Prod.snd)) : Answering service c' := by
  constructor
  · intro j r' stage' found
    rw [responsesTo, responses, replies_append mine]
    rw [requests] at found
    rcases Nat.lt_or_ge j c.requests.length with old | new
    · rw [List.getElem?_append_left old] at found
      rw [if_neg (Nat.ne_of_gt old), List.append_nil]
      exact h.entry j r' stage' found
    · rw [List.getElem?_append_right new] at found
      have last : j = c.requests.length := by
        obtain ⟨bound, _⟩ := List.getElem?_eq_some_iff.mp found
        simp at bound
        omega
      subst last
      simp at found
      obtain ⟨rfl, rfl⟩ := found
      have fresh : (c.responses.filter fun a => a.1 == c.requests.length).map Prod.snd = [] :=
        h.numbered _ (Nat.le_refl _)
      rw [fresh, if_pos rfl]
      exact entry
  · intro j beyond
    rw [requests, List.length_append, List.length_singleton] at beyond
    rw [responsesTo, responses, replies_append mine, if_neg (by omega), List.append_nil]
    exact h.numbered j (by omega)

/-- A request that changes its stage leaves the others as they are. -/
theorem Answering.change (h : Answering service c) {k : Nat} {r : ServerRequest}
    {stage : Stage Args Ret} {answers : List (Nat × Reply)}
    (requests : c'.requests = c.requests.set k (r, stage))
    (responses : c'.responses = c.responses ++ answers)
    (inside : k < c.requests.length) (mine : ∀ a ∈ answers, a.1 = k)
    (entry : Entry service r stage (responsesTo c k ++ answers.map Prod.snd)) :
    Answering service c' := by
  constructor
  · intro j r' stage' found
    rw [responsesTo, responses, replies_append mine]
    rw [requests] at found
    by_cases same : k = j
    · subst same
      rw [List.getElem?_set_self inside] at found
      cases found
      rw [if_pos rfl]
      exact entry
    · rw [List.getElem?_set_ne same] at found
      rw [if_neg same, List.append_nil]
      exact h.entry j r' stage' found
  · intro j beyond
    rw [requests, List.length_set] at beyond
    rw [responsesTo, responses, replies_append mine, if_neg (by omega), List.append_nil]
    exact h.numbered j beyond

theorem readStep_answering (h : Answering service c) (step : readStep service c r = some c') :
    Answering service c' := by
  unfold readStep at step
  split at step
  · cases step
  dsimp only at step
  have silent : c.responses = c.responses ++ [] := (List.append_nil _).symm
  split at step
  · rename_i unknown
    have unknown : r.known = false := by simpa using unknown
    cases step
    exact h.add rfl silent (by simp) ⟨rfl, by simp [unknown]⟩
  rename_i known
  have known : r.known = true := by simpa using known
  split at step
  · rename_i large
    have none_run : (service.arguments r).isSome = false := by simp [Service.arguments, large]
    split at step
    · rename_i reply refused
      cases step
      refine h.add rfl rfl (by simp) ⟨?_, by simp [none_run]⟩
      simp [Service.answersTo, known, large, refused]
    · rename_i dropped
      cases step
      exact h.add rfl silent (by simp)
        ⟨by simp [Service.answersTo, known, large, dropped], by simp [none_run]⟩
  · rename_i fits
    cases step
    exact h.add rfl silent (by simp) ⟨rfl, by simpa [known] using fits⟩

theorem grantedStep_answering {k : Nat} (h : Answering service c)
    (step : grantedStep service c k = some c') : Answering service c' := by
  unfold grantedStep at step
  split at step
  case h_2 => cases step
  rename_i r units found
  have inside := (List.getElem?_eq_some_iff.mp found).1
  obtain ⟨none_yet, asked⟩ := h.entry k r _ found
  split at step
  case isFalse => cases step
  dsimp only at step
  have quiet : ∀ {c' : ServerConnection Args Ret} {stage : Stage Args Ret},
      c'.requests = c.requests.set k (r, stage) → c'.responses = c.responses →
      Entry service r stage [] → Answering service c' := fun requests responses entry => by
    refine h.change requests (responses.trans (List.append_nil _).symm) inside (by simp) ?_
    rw [none_yet]
    exact entry
  split at step
  · rename_i unknown
    have unknown : r.known = false := by simpa using unknown
    cases step
    refine h.change rfl rfl inside (by simp) ?_
    rw [none_yet]
    exact ⟨by simp [Service.answersTo, unknown], by simp [Service.arguments, unknown]⟩
  · rename_i known
    have known : r.known = true := by simpa using known
    rw [if_pos known] at asked
    split at step
    · rename_i args unmarshalled
      cases step
      refine quiet rfl rfl ⟨rfl, ?_⟩
      simp [Service.arguments, known, asked.1, unmarshalled, Except.toOption]
    · rename_i thrown failed
      cases step
      refine quiet rfl rfl ⟨?_, ?_⟩
      · simp [Service.answersTo, known, asked.1]
      · simp [Service.arguments, known, asked.1, failed, Except.toOption]

theorem completedStep_answering {k : Nat} {outcome : HandlerOutcome Ret} (h : Answering service c)
    (step : completedStep service c k outcome = some c') : Answering service c' := by
  unfold completedStep at step
  split at step
  case h_2 => cases step
  rename_i r units args found
  have inside := (List.getElem?_eq_some_iff.mp found).1
  obtain ⟨none_yet, reached⟩ := h.entry k r _ found
  have ran : r.known = true ∧ service.oversized r = false := by
    unfold Service.arguments at reached
    split at reached
    · rename_i both
      simpa using both
    · cases reached
  dsimp only at step
  split at step
  · rename_i reply answered
    cases step
    refine h.change rfl rfl inside (by simp) ?_
    rw [none_yet]
    exact ⟨by simp [Service.answersTo, ran, answered], by simp [reached]⟩
  · rename_i silent
    cases step
    refine h.change rfl (List.append_nil _).symm inside (by simp) ?_
    rw [none_yet]
    exact ⟨by simp [Service.answersTo, ran, silent], by simp [reached]⟩

theorem step_answering {e : ServerEvent Ret} (h : Answering service c)
    (next : step service c e = some c') : Answering service c' := by
  cases e with
  | read r => exact readStep_answering h next
  | granted =>
      simp only [step] at next
      split at next
      · cases next
      · rename_i k units rest _
        have popped : Answering service { c with waiters := rest } := ⟨h.entry, h.numbered⟩
        exact grantedStep_answering popped next
      · split at next <;> cases next
        exact ⟨h.entry, h.numbered⟩
  | completed k outcome => exact completedStep_answering h next
  | sent =>
      simp only [step] at next
      split at next <;> cases next
      exact ⟨h.entry, h.numbered⟩
  | otherAsks n deadline =>
      simp only [step] at next
      split at next <;> cases next
      exact ⟨h.entry, h.numbered⟩
  | otherLeaves i =>
      simp only [step] at next
      split at next <;> cases next
      exact ⟨h.entry, h.numbered⟩
  | otherReleases n =>
      simp only [step] at next
      split at next <;> cases next
      exact ⟨h.entry, h.numbered⟩

/-! ## The memory semaphore -/

/-- The units a request holds itself; a queued reply holds them in its place. -/
def Stage.held : Stage Args Ret → Nat
  | .running units _ => units
  | _ => 0

/-- The steps a request still needs, the sending of its reply included. -/
def Stage.ahead : Stage Args Ret → Nat
  | .waiting _ => 3
  | .running _ _ => 2
  | .finished _ => 0

@[simp] theorem held_waiting (n : Nat) : (Stage.waiting n : Stage Args Ret).held = 0 := rfl
@[simp] theorem held_running (n : Nat) (args : Args) :
    (Stage.running n args : Stage Args Ret).held = n := rfl
@[simp] theorem held_finished (outcome : Option (HandlerOutcome Ret)) :
    (Stage.finished outcome : Stage Args Ret).held = 0 := rfl

@[simp] theorem ahead_waiting (n : Nat) : (Stage.waiting n : Stage Args Ret).ahead = 3 := rfl
@[simp] theorem ahead_running (n : Nat) (args : Args) :
    (Stage.running n args : Stage Args Ret).ahead = 2 := rfl
@[simp] theorem ahead_finished (outcome : Option (HandlerOutcome Ret)) :
    (Stage.finished outcome : Stage Args Ret).ahead = 0 := rfl

/-- The sum of a measure of the stages. -/
def total (c : ServerConnection Args Ret) (measure : Stage Args Ret → Nat) : Nat :=
  (c.requests.map fun request => measure request.2).sum

/-- No unit of the semaphore is lost. -/
def Accounted (service : Service Args Ret) (c : ServerConnection Args Ret) : Prop :=
  c.available + c.others + c.outgoing.sum + total c Stage.held = service.maxMemory

/-- Somebody else who waits takes a step to get the units and one for each to release it. -/
def Waiter.ahead : Waiter → Nat
  | .own _ _ => 0
  | .other n _ => n + 1

/-- The steps that can follow without anything new being asked of the server. -/
def ahead (c : ServerConnection Args Ret) : Nat :=
  total c Stage.ahead + (c.waiters.map Waiter.ahead).sum + c.outgoing.length + c.others

theorem total_set {k : Nat} {old stage : Stage Args Ret}
    (found : c.requests[k]? = some (r, old)) (requests : c'.requests = c.requests.set k (r, stage))
    (measure : Stage Args Ret → Nat) :
    total c' measure + measure old = total c measure + measure stage := by
  unfold total
  rw [requests]
  clear requests
  generalize c.requests = requests at found ⊢
  induction requests generalizing k with
  | nil => cases found
  | cons request requests ih =>
      cases k with
      | zero =>
          cases found
          simp only [List.set_cons_zero, List.map_cons, List.sum_cons]
          omega
      | succ k =>
          have rest := ih (by simpa using found)
          simp only [List.set_cons_succ, List.map_cons, List.sum_cons]
          omega

/-- A request moves on, and what it held stays with it, with its reply, or is free. -/
theorem Accounted.moved (h : Accounted service c) {k : Nat} {old stage : Stage Args Ret}
    (found : c.requests[k]? = some (r, old)) (requests : c'.requests = c.requests.set k (r, stage))
    (units : c'.available + c'.others + c'.outgoing.sum + stage.held =
      c.available + c.others + c.outgoing.sum + old.held) : Accounted service c' := by
  have held := total_set found requests Stage.held
  unfold Accounted at *
  omega

theorem ahead_lt_of_moved {k : Nat} {old stage : Stage Args Ret}
    (found : c.requests[k]? = some (r, old)) (requests : c'.requests = c.requests.set k (r, stage))
    (waiters : c'.waiters = c.waiters) (others : c'.others = c.others)
    (fewer : stage.ahead + c'.outgoing.length < old.ahead + c.outgoing.length) :
    ahead c' < ahead c := by
  have steps := total_set found requests Stage.ahead
  unfold ahead
  rw [waiters, others]
  omega

/-- A request that holds units is running. -/
theorem running_of_held (held : 0 < total c Stage.held) :
    ∃ (k : Nat) (r : ServerRequest) (units : Nat) (args : Args),
      c.requests[k]? = some (r, .running units args) := by
  unfold total at held
  generalize c.requests = requests at held
  induction requests with
  | nil => cases held
  | cons request requests ih =>
      obtain ⟨r, stage⟩ := request
      cases stage with
      | running units args => exact ⟨0, r, units, args, rfl⟩
      | waiting units =>
          obtain ⟨k, found⟩ := ih (by simpa using held)
          exact ⟨k + 1, found⟩
      | finished outcome =>
          obtain ⟨k, found⟩ := ih (by simpa using held)
          exact ⟨k + 1, found⟩

theorem start_accounted : Accounted service (start service) := by
  simp [Accounted, start, total]

theorem readStep_accounted (h : Accounted service c) (step : readStep service c r = some c') :
    Accounted service c' := by
  unfold readStep at step
  unfold Accounted total at *
  split at step
  · cases step
  dsimp only at step
  split at step
  · cases step
    simpa using h
  split at step
  · split at step
    · cases step
      simpa [queueResponse] using h
    · cases step
      simpa using h
  · cases step
    simpa using h

/-- A granted request moves on, and the units it takes stay with it or with its
reply. -/
theorem grantedStep_spec {k : Nat} (h : Accounted service c)
    (step : grantedStep service c k = some c') : Accounted service c' ∧ ahead c' < ahead c := by
  unfold grantedStep at step
  split at step
  case h_2 => cases step
  rename_i r units found
  split at step
  case isFalse => cases step
  rename_i enough
  dsimp only at step
  split at step
  · cases step
    refine ⟨h.moved found rfl ?_, ahead_lt_of_moved found rfl rfl rfl ?_⟩
    · simp only [queueResponse, advance, List.sum_append, List.sum_singleton, held_waiting,
        held_finished]
      omega
    · simp only [queueResponse, advance, List.length_append, List.length_singleton, ahead_waiting,
        ahead_finished]
      omega
  · split at step <;> cases step
    · refine ⟨h.moved found rfl ?_, ahead_lt_of_moved found rfl rfl rfl ?_⟩
      · simp only [advance, held_waiting, held_running]
        omega
      · simp [advance]
    · exact ⟨h.moved found rfl rfl, ahead_lt_of_moved found rfl rfl rfl (by simp [advance])⟩

theorem completedStep_spec {k : Nat} {outcome : HandlerOutcome Ret} (h : Accounted service c)
    (step : completedStep service c k outcome = some c') :
    Accounted service c' ∧ ahead c' < ahead c := by
  unfold completedStep at step
  split at step
  case h_2 => cases step
  rename_i r units args found
  dsimp only at step
  split at step <;> cases step
  · refine ⟨h.moved found rfl ?_, ahead_lt_of_moved found rfl rfl rfl ?_⟩
    · simp only [queueResponse, advance, List.sum_append, List.sum_singleton, held_running,
        held_finished]
      omega
    · simp only [queueResponse, advance, List.length_append, List.length_singleton, ahead_running,
        ahead_finished]
      omega
  · refine ⟨h.moved found rfl ?_, ahead_lt_of_moved found rfl rfl rfl (by simp [advance])⟩
    simp only [advance, held_running, held_finished]
    omega

/-- One that waits, and the others around it. -/
theorem eraseIdx_split {waiters : List Waiter} {i : Nat} {w : Waiter}
    (found : waiters[i]? = some w) : ∃ before after, waiters = before ++ w :: after ∧
      waiters.eraseIdx i = before ++ after := by
  obtain ⟨inside, rfl⟩ := List.getElem?_eq_some_iff.mp found
  refine ⟨waiters.take i, waiters.drop (i + 1), ?_, List.eraseIdx_eq_take_drop_succ ..⟩
  rw [← List.drop_eq_getElem_cons inside, List.take_append_drop]

theorem step_spec {e : ServerEvent Ret} (h : Accounted service c)
    (next : step service c e = some c') :
    Accounted service c' ∧ (e.GoesOn → ahead c' < ahead c) := by
  cases e with
  | read r => exact ⟨readStep_accounted h next, fun goes => goes.elim⟩
  | granted =>
      simp only [step] at next
      split at next
      · cases next
      · rename_i k units rest queue
        have popped : Accounted service { c with waiters := rest } := h
        have same : ahead { c with waiters := rest } = ahead c := by
          simp [ahead, total, queue, Waiter.ahead]
        have moved := grantedStep_spec popped next
        exact ⟨moved.1, fun _ => same ▸ moved.2⟩
      · rename_i n deadline rest queue
        split at next <;> cases next
        unfold Accounted at h
        refine ⟨?_, fun _ => ?_⟩
        · unfold Accounted total at *
          dsimp only
          omega
        · unfold ahead total
          rw [queue, List.map_cons, List.sum_cons, Waiter.ahead]
          dsimp only
          omega
  | completed k outcome =>
      have moved := completedStep_spec h next
      exact ⟨moved.1, fun _ => moved.2⟩
  | sent =>
      simp only [step] at next
      split at next
      · cases next
      · rename_i units rest queued
        cases next
        unfold Accounted at h
        rw [queued, List.sum_cons] at h
        refine ⟨?_, fun _ => ?_⟩
        · unfold Accounted total at *
          dsimp only
          omega
        · unfold ahead total
          rw [queued, List.length_cons]
          dsimp only
          omega
  | otherAsks n deadline =>
      simp only [step] at next
      split at next <;> cases next
      exact ⟨h, fun goes => goes.elim⟩
  | otherLeaves i =>
      simp only [step] at next
      split at next <;> cases next
      rename_i n found
      obtain ⟨before, after, whole, erased⟩ := eraseIdx_split found
      refine ⟨h, fun _ => ?_⟩
      unfold ahead total
      dsimp only
      rw [erased, whole]
      simp only [List.map_append, List.map_cons, List.sum_append, List.sum_cons, Waiter.ahead]
      omega
  | otherReleases n =>
      simp only [step] at next
      split at next <;> cases next
      refine ⟨?_, fun _ => ?_⟩
      · unfold Accounted total at *
        dsimp only
        omega
      · unfold ahead total
        dsimp only
        omega

/-! ## Who waits -/

def Waiter.request : Waiter → Option Nat
  | .own k _ => some k
  | .other _ _ => none

def Waiter.units : Waiter → Nat
  | .own _ n => n
  | .other n _ => n

/-- Who waits gets its units when those who hold some have released them, or leaves. -/
def Waiter.Passes (service : Service Args Ret) : Waiter → Prop
  | .own _ n => n ≤ service.maxMemory
  | .other n deadline => n ≤ service.maxMemory ∨ deadline = true

/-- Those who get their units before request `k`, and the request itself. -/
def upTo (k : Nat) : List Waiter → List Waiter
  | [] => []
  | w :: rest => if w.request = some k then [w] else w :: upTo k rest

/-- Request `k` comes to its turn. -/
def Grantable (service : Service Args Ret) (c : ServerConnection Args Ret) (k : Nat) : Prop :=
  ∀ w ∈ upTo k c.waiters, w.Passes service

theorem upTo_own (k n : Nat) (rest : List Waiter) :
    upTo k (.own k n :: rest) = [.own k n] := if_pos rfl

theorem mem_of_mem_upTo {k : Nat} {ws : List Waiter} {w : Waiter} (mem : w ∈ upTo k ws) :
    w ∈ ws := by
  induction ws with
  | nil => exact mem
  | cons first ws ih =>
      unfold upTo at mem
      split at mem
      · exact List.mem_singleton.mp mem ▸ List.mem_cons_self
      · rcases List.mem_cons.mp mem with rfl | later
        · exact List.mem_cons_self
        · exact List.mem_cons_of_mem _ (ih later)

/-- Who comes later waits behind. -/
theorem upTo_append {k n : Nat} {ws : List Waiter} (mem : .own k n ∈ ws) (more : List Waiter) :
    upTo k (ws ++ more) = upTo k ws := by
  induction ws with
  | nil => cases mem
  | cons first ws ih =>
      rw [List.cons_append, upTo, upTo]
      split
      · rfl
      · rename_i other
        rcases List.mem_cons.mp mem with rfl | later
        · exact absurd rfl other
        · rw [ih later]

/-- Without one of the others the same wait in front, but that one. -/
theorem mem_upTo_erase {k : Nat} {w x : Waiter} {before after : List Waiter}
    (other : w.request ≠ some k) :
    (x ∈ upTo k (before ++ after) → x ∈ upTo k (before ++ w :: after)) ∧
      (x ∈ upTo k (before ++ w :: after) → x = w ∨ x ∈ upTo k (before ++ after)) := by
  induction before with
  | nil =>
      rw [List.nil_append, List.nil_append, upTo, if_neg other]
      exact ⟨List.mem_cons_of_mem _, List.mem_cons.mp⟩
  | cons first before ih =>
      rw [List.cons_append, List.cons_append, upTo, upTo]
      split
      · exact ⟨id, .inr⟩
      · constructor
        · intro mem
          rcases List.mem_cons.mp mem with rfl | later
          · exact List.mem_cons_self
          · exact List.mem_cons_of_mem _ (ih.1 later)
        · intro mem
          rcases List.mem_cons.mp mem with rfl | later
          · exact .inr List.mem_cons_self
          · exact (ih.2 later).imp_right (List.mem_cons_of_mem _)

/-! ### What the steps do to the requests and to those who wait -/

/-- All that a step can do to the requests and to the queue of the semaphore. -/
inductive Moves (service : Service Args Ret) (c c' : ServerConnection Args Ret) : Prop
  | quiet (requests : c'.requests = c.requests) (waiters : c'.waiters = c.waiters)
  | read (r : ServerRequest) (stage : Stage Args Ret) (still : ∀ n, stage ≠ .waiting n)
      (requests : c'.requests = c.requests ++ [(r, stage)]) (waiters : c'.waiters = c.waiters)
  | asks (r : ServerRequest) (n : Nat) (asked : service.mayAsk n = true)
      (requests : c'.requests = c.requests ++ [(r, .waiting n)])
      (waiters : c'.waiters = c.waiters ++ [.own c.requests.length n])
  | granted (k m : Nat) (rest : List Waiter) (r : ServerRequest) (n : Nat)
      (stage : Stage Args Ret) (queue : c.waiters = .own k m :: rest)
      (found : c.requests[k]? = some (r, .waiting n)) (enough : n ≤ c.available)
      (still : ∀ n, stage ≠ .waiting n) (requests : c'.requests = c.requests.set k (r, stage))
      (waiters : c'.waiters = rest)
  | completed (k : Nat) (r : ServerRequest) (n : Nat) (args : Args) (outcome : HandlerOutcome Ret)
      (found : c.requests[k]? = some (r, .running n args))
      (requests : c'.requests = c.requests.set k (r, .finished (some outcome)))
      (waiters : c'.waiters = c.waiters)
  | otherGranted (n : Nat) (deadline : Bool) (rest : List Waiter)
      (queue : c.waiters = .other n deadline :: rest) (enough : n ≤ c.available)
      (requests : c'.requests = c.requests) (waiters : c'.waiters = rest)
  | otherAsks (n : Nat) (deadline : Bool) (asked : service.mayAsk n = true)
      (requests : c'.requests = c.requests) (waiters : c'.waiters = c.waiters ++ [.other n deadline])
  | otherLeaves (before : List Waiter) (n : Nat) (after : List Waiter)
      (queue : c.waiters = before ++ .other n true :: after)
      (requests : c'.requests = c.requests) (waiters : c'.waiters = before ++ after)

theorem readStep_moves (step : readStep service c r = some c') : Moves service c c' := by
  unfold readStep at step
  split at step
  · cases step
  dsimp only at step
  split at step
  · cases step
    exact .asks r 28 (by simp [Service.mayAsk]) rfl rfl
  split at step
  · split at step <;> cases step
    · exact .read r (.finished none) nofun rfl rfl
    · exact .read r (.finished none) nofun rfl rfl
  · rename_i fits
    cases step
    have small : service.estimateRequestSize r ≤ service.maxMemory := by
      simpa [Service.oversized] using fits
    exact .asks r _ (by simp [Service.mayAsk, small]) rfl rfl

theorem grantedStep_moves {k m : Nat} {rest : List Waiter} (queue : c.waiters = .own k m :: rest)
    (step : grantedStep service { c with waiters := rest } k = some c') : Moves service c c' := by
  unfold grantedStep at step
  split at step
  case h_2 => cases step
  rename_i r n found
  split at step
  case isFalse => cases step
  rename_i enough
  dsimp only at step
  split at step
  · cases step
    exact .granted k m rest r n (.finished none) queue found enough nofun rfl rfl
  · split at step <;> cases step
    · rename_i args _
      exact .granted k m rest r n (.running n args) queue found enough nofun rfl rfl
    · exact .granted k m rest r n (.finished none) queue found enough nofun rfl rfl

theorem completedStep_moves {k : Nat} {outcome : HandlerOutcome Ret}
    (step : completedStep service c k outcome = some c') : Moves service c c' := by
  unfold completedStep at step
  split at step
  case h_2 => cases step
  rename_i r n args found
  dsimp only at step
  split at step <;> cases step
  · exact .completed k r n args outcome found rfl rfl
  · exact .completed k r n args outcome found rfl rfl

theorem step_moves {e : ServerEvent Ret} (next : step service c e = some c') :
    Moves service c c' := by
  cases e with
  | read r => exact readStep_moves next
  | completed k outcome => exact completedStep_moves next
  | granted =>
      simp only [step] at next
      split at next
      · cases next
      · exact grantedStep_moves ‹_› next
      · rename_i n deadline rest queue
        split at next <;> cases next
        exact .otherGranted n deadline rest queue ‹_› rfl rfl
  | sent =>
      simp only [step] at next
      split at next <;> cases next
      exact .quiet rfl rfl
  | otherAsks n deadline =>
      simp only [step] at next
      split at next <;> cases next
      exact .otherAsks n deadline ‹_› rfl rfl
  | otherLeaves i =>
      simp only [step] at next
      split at next <;> cases next
      rename_i n found
      obtain ⟨before, after, whole, erased⟩ := eraseIdx_split found
      exact .otherLeaves before n after whole rfl erased
  | otherReleases n =>
      simp only [step] at next
      split at next <;> cases next
      exact .quiet rfl rfl

/-! ### The queue of the semaphore -/

/-- Just the requests that wait are in the queue, each once. -/
structure Queued (service : Service Args Ret) (c : ServerConnection Args Ret) : Prop where
  waits : ∀ k n, .own k n ∈ c.waiters ↔ ∃ r, c.requests[k]? = some (r, .waiting n)
  distinct : (c.waiters.filterMap Waiter.request).Nodup
  modest : ∀ w ∈ c.waiters, service.mayAsk w.units = true

theorem start_queued : Queued service (start service) where
  waits k n := by simp [start]
  distinct := by simp [start]
  modest w mem := by simp [start] at mem

theorem mem_request {k : Nat} {ws : List Waiter} (mem : k ∈ ws.filterMap Waiter.request) :
    ∃ n, Waiter.own k n ∈ ws := by
  obtain ⟨w, inside, same⟩ := List.mem_filterMap.mp mem
  cases w with
  | own j n =>
      cases same
      exact ⟨n, inside⟩
  | other n deadline => cases same

/-- The requests that wait when one more was read. -/
theorem waiting_append {requests : List (ServerRequest × Stage Args Ret)} {stage : Stage Args Ret}
    {k n : Nat} : (∃ r', (requests ++ [(r, stage)])[k]? = some (r', .waiting n)) ↔
      (∃ r', requests[k]? = some (r', .waiting n)) ∨ k = requests.length ∧ stage = .waiting n := by
  rcases Nat.lt_trichotomy k requests.length with old | rfl | beyond
  · rw [List.getElem?_append_left old]
    simp [Nat.ne_of_lt old]
  · simp
  · rw [List.getElem?_eq_none (by simp; omega), List.getElem?_eq_none (by omega)]
    simp
    omega

/-- Somebody new waits behind all others. -/
theorem Queued.join (h : Queued service c) {w : Waiter} (waiters : c'.waiters = c.waiters ++ [w])
    (fresh : ∀ k, w.request = some k → k ∉ c.waiters.filterMap Waiter.request)
    (asked : service.mayAsk w.units = true)
    (waits : ∀ k n, .own k n ∈ c'.waiters ↔ ∃ r, c'.requests[k]? = some (r, .waiting n)) :
    Queued service c' := by
  refine ⟨waits, ?_, fun x mem => ?_⟩
  · rw [waiters, List.filterMap_append]
    refine List.nodup_append.mpr ⟨h.distinct, ?_, fun j mem k last same => ?_⟩
    · cases w with
      | own k n => exact List.pairwise_singleton ..
      | other n deadline => exact List.nodup_nil
    · subst same
      obtain ⟨x, only, request⟩ := List.mem_filterMap.mp last
      rw [List.mem_singleton.mp only] at request
      exact fresh j request mem
  · rw [waiters] at mem
    rcases List.mem_append.mp mem with old | new
    · exact h.modest x old
    · rw [List.mem_singleton.mp new]
      exact asked

/-- A request that does not wait any more has left the queue. -/
theorem Queued.leave (h : Queued service c) {k : Nat} {stage : Stage Args Ret}
    (requests : c'.requests = c.requests.set k (r, stage)) (inside : k < c.requests.length)
    (still : ∀ n, stage ≠ .waiting n) (sublist : c'.waiters.Sublist c.waiters)
    (members : ∀ j n, .own j n ∈ c'.waiters ↔ .own j n ∈ c.waiters ∧ j ≠ k) :
    Queued service c' := by
  refine ⟨fun j n => ?_, h.distinct.sublist (sublist.filterMap _),
    fun w mem => h.modest w (sublist.subset mem)⟩
  rw [members, requests, h.waits]
  by_cases same : j = k
  · subst same
    rw [List.getElem?_set_self inside]
    simp [still n]
  · rw [List.getElem?_set_ne (Ne.symm same)]
    simp [same]

/-- The queue without the request in front. -/
theorem mem_rest {k m : Nat} {rest : List Waiter}
    (distinct : ((Waiter.own k m :: rest).filterMap Waiter.request).Nodup) (j n : Nat) :
    .own j n ∈ rest ↔ .own j n ∈ Waiter.own k m :: rest ∧ j ≠ k := by
  have absent : k ∉ rest.filterMap Waiter.request :=
    (List.nodup_cons.mp (by simpa [Waiter.request] using distinct)).1
  constructor
  · intro mem
    refine ⟨List.mem_cons_of_mem _ mem, ?_⟩
    rintro rfl
    exact absent (List.mem_filterMap.mpr ⟨_, mem, rfl⟩)
  · rintro ⟨mem, other⟩
    rcases List.mem_cons.mp mem with same | later
    · cases same
      exact absurd rfl other
    · exact later

theorem step_queued {e : ServerEvent Ret} (h : Queued service c)
    (next : step service c e = some c') : Queued service c' := by
  cases step_moves next with
  | quiet requests waiters =>
      exact ⟨by rw [requests, waiters]; exact h.waits, waiters ▸ h.distinct, waiters ▸ h.modest⟩
  | read r stage still requests waiters =>
      refine ⟨fun k n => ?_, waiters ▸ h.distinct, waiters ▸ h.modest⟩
      rw [waiters, requests, waiting_append, h.waits]
      simp [still n]
  | asks r n asked requests waiters =>
      -- nobody waits yet under a number that is new
      refine h.join waiters (fun k own mem => ?_) asked fun k m => ?_
      · cases own
        obtain ⟨m, inside⟩ := mem_request mem
        obtain ⟨_, found⟩ := (h.waits _ m).mp inside
        simp at found
      · rw [waiters, requests, waiting_append, List.mem_append, h.waits, List.mem_singleton]
        simp [eq_comm]
  | granted k m rest r n stage queue found enough still requests waiters =>
      have inside := (List.getElem?_eq_some_iff.mp found).1
      have members := mem_rest (queue ▸ h.distinct)
      refine h.leave requests inside still ?_ fun j n => ?_
      · rw [waiters, queue]
        exact List.sublist_cons_self _ _
      · rw [waiters, queue]
        exact members j n
  | completed k r n args outcome found requests waiters =>
      -- a request that runs does not wait
      have inside := (List.getElem?_eq_some_iff.mp found).1
      refine h.leave requests inside nofun (waiters ▸ List.Sublist.refl _) fun j m => ?_
      rw [waiters, iff_self_and]
      rintro mem rfl
      obtain ⟨_, waits⟩ := (h.waits j m).mp mem
      rw [found] at waits
      cases waits
  | otherGranted n deadline rest queue enough requests waiters =>
      have distinct := h.distinct
      rw [queue] at distinct
      refine ⟨fun j m => ?_, waiters ▸ distinct, fun w mem => h.modest w ?_⟩
      · rw [requests, waiters, ← h.waits, queue]
        simp
      · rw [queue]
        exact .tail _ (waiters ▸ mem)
  | otherAsks n deadline asked requests waiters =>
      refine h.join waiters nofun asked fun j m => ?_
      rw [requests, waiters, ← h.waits]
      simp
  | otherLeaves before n after queue requests waiters =>
      have fewer : c'.waiters.Sublist c.waiters := by
        rw [waiters, queue]
        exact (List.sublist_cons_self _ _).append_left _
      refine ⟨fun j m => ?_, h.distinct.sublist (fewer.filterMap _),
        fun w mem => h.modest w (fewer.subset mem)⟩
      rw [requests, waiters, ← h.waits, queue]
      simp

/-! ### The turn of a request -/

theorem passes_of_room {n : Nat} (room : 28 ≤ service.maxMemory)
    (asked : service.mayAsk n = true) : n ≤ service.maxMemory := by
  simp only [Service.mayAsk, Bool.or_eq_true, decide_eq_true_eq, beq_iff_eq] at asked
  omega

theorem Queued.grantable_of_room (h : Queued service c) (room : 28 ≤ service.maxMemory)
    (k : Nat) : Grantable service c k := by
  intro w mem
  have small := passes_of_room room (h.modest w (mem_of_mem_upTo mem))
  cases w with
  | own j n => exact small
  | other n deadline => exact .inl small

theorem available_le (units : Accounted service c) : c.available ≤ service.maxMemory := by
  unfold Accounted at units
  omega

theorem set_ne {k j : Nat} {x : ServerRequest × Stage Args Ret}
    (requests : c'.requests = c.requests.set k x) (other : j ≠ k) :
    c'.requests[j]? = c.requests[j]? := by
  rw [requests, List.getElem?_set_ne (Ne.symm other)]

/-- A request that waits goes on to wait, behind no more than before and behind all those
that can never get their units; or it was its turn. -/
theorem step_waiting {e : ServerEvent Ret} (h : Queued service c) (units : Accounted service c)
    {k n : Nat} (found : c.requests[k]? = some (r, .waiting n))
    (next : step service c e = some c') :
    (c'.requests[k]? = some (r, .waiting n) ∧
        (∀ w ∈ upTo k c'.waiters, w ∈ upTo k c.waiters) ∧
        ∀ w ∈ upTo k c.waiters, ¬ w.Passes service → w ∈ upTo k c'.waiters) ∨
      (∃ stage, c'.requests[k]? = some (r, stage) ∧ ∀ m, stage ≠ .waiting m) ∧
        Grantable service c k := by
  have mem : .own k n ∈ c.waiters := (h.waits k n).mpr ⟨r, found⟩
  have inside := (List.getElem?_eq_some_iff.mp found).1
  have same : upTo k c'.waiters = upTo k c.waiters →
      (∀ w ∈ upTo k c'.waiters, w ∈ upTo k c.waiters) ∧
      ∀ w ∈ upTo k c.waiters, ¬ w.Passes service → w ∈ upTo k c'.waiters := by
    intro same
    rw [same]
    exact ⟨fun _ => id, fun _ inside _ => inside⟩
  -- whoever leaves the front of the queue had its units
  have popped : ∀ (w : Waiter) (rest : List Waiter), c.waiters = w :: rest →
      c'.waiters = rest → w.request ≠ some k → w.Passes service →
      (∀ w ∈ upTo k c'.waiters, w ∈ upTo k c.waiters) ∧
      ∀ w ∈ upTo k c.waiters, ¬ w.Passes service → w ∈ upTo k c'.waiters := by
    intro w rest queue waiters other passes
    rw [waiters, queue, upTo.eq_def k (w :: rest)]
    dsimp only
    rw [if_neg other]
    refine ⟨fun x => List.mem_cons_of_mem _, fun x up stuck => ?_⟩
    rcases List.mem_cons.mp up with rfl | later
    · exact absurd passes stuck
    · exact later
  cases step_moves next with
  | quiet requests waiters => exact .inl ⟨by rw [requests, found], same (by rw [waiters])⟩
  | read r' stage still requests waiters =>
      exact .inl ⟨by rw [requests, List.getElem?_append_left inside, found], same (by rw [waiters])⟩
  | asks r' m asked requests waiters =>
      refine .inl ⟨by rw [requests, List.getElem?_append_left inside, found], same ?_⟩
      rw [waiters, upTo_append mem]
  | granted j m rest r' n' stage queue there enough still requests waiters =>
      -- the queue says of the request in front what the request says of itself
      have first : m = n' := by
        obtain ⟨r'', waits⟩ := (h.waits j m).mp (queue ▸ List.mem_cons_self)
        rw [there] at waits
        cases waits
        rfl
      have small : m ≤ service.maxMemory := first ▸ Nat.le_trans enough (available_le units)
      by_cases mine : j = k
      · subst mine
        rw [there] at found
        cases found
        refine .inr ⟨⟨stage, by rw [requests]; exact List.getElem?_set_self inside, still⟩, ?_⟩
        intro w up
        rw [queue, upTo_own, List.mem_singleton] at up
        subst up
        exact small
      · refine .inl ⟨(set_ne requests (Ne.symm mine)).trans found, ?_⟩
        exact popped _ rest queue waiters (by simpa [Waiter.request] using mine) small
  | completed j r' m args outcome there requests waiters =>
      have other : k ≠ j := by
        rintro rfl
        rw [there] at found
        cases found
      exact .inl ⟨(set_ne requests other).trans found, same (by rw [waiters])⟩
  | otherGranted m deadline rest queue enough requests waiters =>
      refine .inl ⟨by rw [requests, found], popped _ rest queue waiters nofun ?_⟩
      exact .inl (Nat.le_trans enough (available_le units))
  | otherAsks m deadline asked requests waiters =>
      exact .inl ⟨by rw [requests, found], same (by rw [waiters, upTo_append mem])⟩
  | otherLeaves before m after queue requests waiters =>
      -- who leaves had a deadline, so it was none that waits for ever
      have around := fun w : Waiter =>
        @mem_upTo_erase k (.other m true) w before after nofun
      rw [waiters, queue]
      refine .inl ⟨by rw [requests, found], fun w => (around w).1, fun w up stuck => ?_⟩
      exact ((around w).2 up).resolve_left fun same => stuck (same ▸ .inr rfl)

/-- A request that does not wait never waits again. -/
theorem step_onward {e : ServerEvent Ret} {k : Nat} {stage : Stage Args Ret}
    (found : c.requests[k]? = some (r, stage)) (still : ∀ n, stage ≠ .waiting n)
    (next : step service c e = some c') :
    ∃ stage', c'.requests[k]? = some (r, stage') ∧ ∀ n, stage' ≠ .waiting n := by
  have inside := (List.getElem?_eq_some_iff.mp found).1
  cases step_moves next with
  | quiet requests _ => exact ⟨stage, by rw [requests, found], still⟩
  | read _ _ _ requests _ =>
      exact ⟨stage, by rw [requests, List.getElem?_append_left inside, found], still⟩
  | asks _ _ _ requests _ =>
      exact ⟨stage, by rw [requests, List.getElem?_append_left inside, found], still⟩
  | granted j m rest r' n' stage' queue there enough still' requests _ =>
      have other : k ≠ j := by
        rintro rfl
        rw [there] at found
        cases found
        exact still n' rfl
      exact ⟨stage, (set_ne requests other).trans found, still⟩
  | completed j r' m args outcome there requests _ =>
      by_cases mine : j = k
      · subst mine
        rw [there] at found
        cases found
        exact ⟨.finished (some outcome), by rw [requests]; exact List.getElem?_set_self inside,
          nofun⟩
      · exact ⟨stage, (set_ne requests (Ne.symm mine)).trans found, still⟩
  | otherGranted _ _ _ _ _ requests _ => exact ⟨stage, by rw [requests, found], still⟩
  | otherAsks _ _ _ requests _ => exact ⟨stage, by rw [requests, found], still⟩
  | otherLeaves _ _ _ _ requests _ => exact ⟨stage, by rw [requests, found], still⟩

/-- What holds in every run. -/
structure Sound (service : Service Args Ret) (c : ServerConnection Args Ret) : Prop where
  answering : Answering service c
  units : Accounted service c
  queued : Queued service c

theorem start_sound : Sound service (start service) :=
  ⟨start_answering, start_accounted, start_queued⟩

theorem step_sound {e : ServerEvent Ret} (h : Sound service c)
    (next : step service c e = some c') : Sound service c' :=
  ⟨step_answering h.answering next, (step_spec h.units next).1, step_queued h.queued next⟩

/-- A request that is read and comes to its turn, if it waits for it. -/
def Settling (service : Service Args Ret) (k : Nat) (r : ServerRequest)
    (c : ServerConnection Args Ret) : Prop :=
  ∃ stage, c.requests[k]? = some (r, stage) ∧ ((∀ n, stage ≠ .waiting n) ∨ Grantable service c k)

theorem step_settling {e : ServerEvent Ret} {k : Nat} (h : Sound service c)
    (settling : Settling service k r c) (next : step service c e = some c') :
    Settling service k r c' := by
  obtain ⟨stage, found, ahead⟩ := settling
  have onward : (∀ n, stage ≠ .waiting n) → Settling service k r c' := fun still =>
    let ⟨stage', found', still'⟩ := step_onward found still next
    ⟨stage', found', .inl still'⟩
  cases stage with
  | waiting n =>
      have turn := ahead.resolve_left fun still => still n rfl
      rcases step_waiting h.queued h.units found next with ⟨found', fewer, _⟩ | ⟨⟨_, moved⟩, _⟩
      · exact ⟨_, found', .inr fun w mem => turn w (fewer w mem)⟩
      · exact ⟨_, moved.1, .inl moved.2⟩
  | running n args => exact onward nofun
  | finished outcome => exact onward nofun

/-- While a request is not finished the server can go on: whoever is first in the queue
gets its units, or somebody holds units that come back. -/
theorem goesOn_of_unfinished (h : Sound service c) {k : Nat} (settling : Settling service k r c)
    (unfinished : ∀ outcome, c.requests[k]? ≠ some (r, .finished outcome)) :
    ∃ e : ServerEvent Ret, e.GoesOn ∧ ∃ c', step service c e = some c' := by
  obtain ⟨stage, found, ahead⟩ := settling
  have running : ∀ (k : Nat) (r : ServerRequest) (n : Nat) (args : Args),
      c.requests[k]? = some (r, .running n args) →
      ∃ e : ServerEvent Ret, e.GoesOn ∧ ∃ c', step service c e = some c' := by
    intro k r n args found
    refine ⟨.completed k (.threw .other), trivial, ?_⟩
    show ∃ c', completedStep service c k (.threw .other) = some c'
    unfold completedStep
    rw [found]
    dsimp only
    split <;> exact ⟨_, rfl⟩
  -- when units are missing, somebody holds them
  have released : ∀ n, n ≤ service.maxMemory → ¬ n ≤ c.available →
      ∃ e : ServerEvent Ret, e.GoesOn ∧ ∃ c', step service c e = some c' := by
    intro n small missing
    have units := h.units
    unfold Accounted at units
    by_cases others : 0 < c.others
    · exact ⟨.otherReleases c.others, trivial, _, if_pos ⟨others, Nat.le_refl _⟩⟩
    cases queued : c.outgoing with
    | cons first rest =>
        refine ⟨.sent, trivial, { c with outgoing := rest, available := c.available + first }, ?_⟩
        simp only [step, queued]
    | nil =>
        rw [queued, List.sum_nil] at units
        obtain ⟨j, r', m, args, runs⟩ := running_of_held (by omega : 0 < total c Stage.held)
        exact running j r' m args runs
  cases stage with
  | finished outcome => exact absurd found (unfinished outcome)
  | running n args => exact running k r n args found
  | waiting n =>
      have turn := ahead.resolve_left fun still => still n rfl
      have mem : .own k n ∈ c.waiters := (h.queued.waits k n).mpr ⟨r, found⟩
      cases queue : c.waiters with
      | nil =>
          rw [queue] at mem
          cases mem
      | cons w rest =>
          have passes : w.Passes service := turn w (by
            rw [queue, upTo]
            split <;> exact List.mem_cons_self)
          cases w with
          | own j m =>
              obtain ⟨r', waits⟩ := (h.queued.waits j m).mp (queue ▸ List.mem_cons_self)
              by_cases enough : m ≤ c.available
              · refine ⟨.granted, trivial, ?_⟩
                simp only [step, queue, grantedStep, waits, if_pos enough]
                split
                · exact ⟨_, rfl⟩
                · split <;> exact ⟨_, rfl⟩
              · exact released m passes enough
          | other m deadline =>
              by_cases enough : m ≤ c.available
              · refine ⟨.granted, trivial, ?_⟩
                simp only [step, queue, if_pos enough]
                exact ⟨_, rfl⟩
              · rcases passes with small | leaves
                · exact released m small enough
                · subst leaves
                  refine ⟨.otherLeaves 0, trivial, ?_⟩
                  simp only [step, queue, List.getElem?_cons_zero]
                  exact ⟨_, rfl⟩

/-! ## Runs -/

/-- The server cannot go on for ever, and it can go on until the request is finished. -/
def Finishes (service : Service Args Ret) (c : ServerConnection Args Ret) (k : Nat)
    (r : ServerRequest) : Prop :=
  ∀ more c', (∀ e ∈ more, e.GoesOn) → exec (step service) c more = some c' →
    more.length ≤ ahead c ∧
      ((∃ outcome, c'.requests[k]? = some (r, .finished outcome)) ∨
        ∃ e : ServerEvent Ret, e.GoesOn ∧ ∃ c'', step service c' e = some c'')

theorem finishes_of_settling (h : Sound service c) {k : Nat} (settling : Settling service k r c) :
    Finishes service c k r := by
  intro more c' goesOn run
  refine ⟨exec_length_le (fun _ _ _ h goes next =>
    ⟨(step_spec h next).1, (step_spec h next).2 goes⟩) h.units goesOn run, ?_⟩
  have preserved : ∀ s e s', Sound service s ∧ Settling service k r s →
      step service s e = some s' → Sound service s' ∧ Settling service k r s' :=
    fun _ _ _ h next => ⟨step_sound h.1 next, step_settling h.1 h.2 next⟩
  obtain ⟨sound, settling'⟩ := exec_invariant preserved ⟨h, settling⟩ run
  by_cases finished : ∃ outcome, c'.requests[k]? = some (r, .finished outcome)
  · exact .inl finished
  · exact .inr (goesOn_of_unfinished sound settling' fun outcome here => finished ⟨outcome, here⟩)

/-- Behind somebody who never gets its units a request waits for ever. -/
theorem waits_of_stuck (h : Sound service c) {k n : Nat}
    (found : c.requests[k]? = some (r, .waiting n)) (stuck : ¬ Grantable service c k)
    {more : List (ServerEvent Ret)} (run : exec (step service) c more = some c') :
    c'.requests[k]? = some (r, .waiting n) := by
  have preserved : ∀ s e s', (Sound service s ∧ s.requests[k]? = some (r, .waiting n) ∧
      ¬ Grantable service s k) → step service s e = some s' → Sound service s' ∧
      s'.requests[k]? = some (r, .waiting n) ∧ ¬ Grantable service s' k := by
    rintro s e s' ⟨sound, found, stuck⟩ next
    refine ⟨step_sound sound next, ?_⟩
    rcases step_waiting sound.queued sound.units found next with ⟨found', _, stays⟩ | ⟨_, turn⟩
    · refine ⟨found', fun turn => stuck fun w mem => ?_⟩
      by_contra never
      exact never (turn w (stays w mem never))
    · exact absurd turn stuck
  exact (exec_invariant preserved ⟨h, found, stuck⟩ run).2.1

/-- Of every request read on a run: when it is finished, it has got its one
answer exactly if it is answerable; until then it has none, and it is finished after a
bounded number of steps of the server, exactly if nobody up to it in the queue of the
semaphore asks for more than there is. -/
theorem requests_answered (service : Service Args Ret) (events : List (ServerEvent Ret))
    (c : ServerConnection Args Ret) (run : exec (step service) (start service) events = some c)
    (k : Nat) (r : ServerRequest) (stage : Stage Args Ret)
    (read : c.requests[k]? = some (r, stage)) :
    match stage with
    | .finished outcome =>
        (outcome.isSome = true ↔ (service.arguments r).isSome = true) ∧
        (AnsweredOnce service c k r outcome ↔ service.answerable r outcome = true)
    | .running _ _ => responsesTo c k = [] ∧ Finishes service c k r
    | .waiting n => responsesTo c k = [] ∧
        (28 ≤ service.maxMemory → Grantable service c k) ∧
        (Grantable service c k → Finishes service c k r) ∧
        (¬ Grantable service c k → ∀ more c', exec (step service) c more = some c' →
          c'.requests[k]? = some (r, .waiting n) ∧ responsesTo c' k = []) := by
  have sound : Sound service c := exec_invariant (fun _ _ _ => step_sound) start_sound run
  have entry := sound.answering.entry k r stage read
  cases stage with
  | finished outcome => exact ⟨entry.2, answersTo_iff entry.1⟩
  | running n args => exact ⟨entry.1, finishes_of_settling sound ⟨_, read, .inl nofun⟩⟩
  | waiting n =>
      refine ⟨entry.1, fun room => sound.queued.grantable_of_room room k,
        fun turn => finishes_of_settling sound ⟨_, read, .inr turn⟩, fun stuck more c' onward => ?_⟩
      have waits := waits_of_stuck sound read stuck onward
      have later : Sound service c' := exec_invariant (fun _ _ _ => step_sound) sound onward
      exact ⟨waits, (later.answering.entry k r _ waits).1⟩

/-- A service that hands a byte string to its handler and back, and cannot
unmarshal the empty payload. -/
def echoService (maxMemory : Nat) : Service (List Byte) (List Byte) where
  basicRequestSize := 8
  bloatFactor := 1
  maxMemory := maxMemory
  unmarshall _ payload := if payload = [] then .error (.std []) else .ok payload
  marshall _ ret := .ok ret
  uninit _ := 0

/-- A request whose handler returns gets its result. -/
theorem requests_answered_echo :
    ∃ c, exec (step (echoService 100)) (start (echoService 100))
        [.otherAsks 90 false, .read ⟨1, 5, [7, 8], true⟩, .granted, .granted,
          .completed 0 (.returned [7, 8])] = some c ∧
      AnsweredOnce (echoService 100) c 0 ⟨1, 5, [7, 8], true⟩ (some (.returned [7, 8])) := by
  have run : exec (step (echoService 100)) (start (echoService 100))
      [.otherAsks 90 false, .read ⟨1, 5, [7, 8], true⟩, .granted, .granted,
        .completed 0 (.returned [7, 8])] = some _ := (Option.some_get (by decide)).symm
  refine ⟨_, run, ?_⟩
  have answered := requests_answered (echoService 100) _ _ run 0 ⟨1, 5, [7, 8], true⟩
    (.finished (some (.returned [7, 8]))) (by decide)
  exact answered.2.mpr (by decide)

/-- A payload that cannot be unmarshalled is never answered, and neither is a
request whose handler throws something that is no `std::exception`, nor one behind a
reply that would take more memory than the server has. -/
theorem request_left_unanswered :
    (∃ c, exec (step (echoService 100)) (start (echoService 100))
        [.read ⟨1, 5, [], true⟩, .granted] = some c ∧
      c.requests[0]? = some (⟨1, 5, [], true⟩, .finished none) ∧
      c.available = 100 ∧ responsesTo c 0 = []) ∧
    (∃ c, exec (step (echoService 100)) (start (echoService 100))
        [.read ⟨1, 5, [7], true⟩, .granted, .completed 0 (.threw .other)] = some c ∧
      c.requests[0]? = some (⟨1, 5, [7], true⟩, .finished (some (.threw .other))) ∧
      c.available = 100 ∧ responsesTo c 0 = []) ∧
    ∃ c, exec (step (echoService 20)) (start (echoService 20))
        [.otherAsks 28 false, .read ⟨1, 5, [7], true⟩] = some c ∧
      ∀ more c', exec (step (echoService 20)) c more = some c' →
        c'.requests[0]? = some (⟨1, 5, [7], true⟩, .waiting 9) := by
  refine ⟨?_, ?_, ?_⟩
  · have run : exec (step (echoService 100)) (start (echoService 100))
        [.read ⟨1, 5, [], true⟩, .granted] = some _ := (Option.some_get (by decide)).symm
    exact ⟨_, run, by decide, by decide, by decide⟩
  · have run : exec (step (echoService 100)) (start (echoService 100))
        [.read ⟨1, 5, [7], true⟩, .granted, .completed 0 (.threw .other)] = some _ :=
      (Option.some_get (by decide)).symm
    exact ⟨_, run, by decide, by decide, by decide⟩
  · have run : exec (step (echoService 20)) (start (echoService 20))
        [.otherAsks 28 false, .read ⟨1, 5, [7], true⟩] = some _ :=
      (Option.some_get (by decide)).symm
    refine ⟨_, run, fun more c' onward => ?_⟩
    have sound := exec_invariant (fun _ _ _ => step_sound) start_sound run
    refine waits_of_stuck sound (by decide) (fun turn => ?_) onward
    have passes := turn (.other 28 false) (by decide)
    exact absurd passes (by simp [Waiter.Passes, echoService])

end ActorNet.Rpc
