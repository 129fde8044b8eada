import ActorNet.Http.RequestTokens

/-!
# Buffers that end within a request

When a buffer ends, the guard of the string builder keeps the bytes since the mark,
as if there were a checkpoint. Behind a value that takes the whitespace there into
the value, and everywhere else it changes nothing.

A cut is a list of bytes with the ends of the buffers between them. A run over it is
compared with one over its bytes: `leaking_related` is for a cut that has such an end
where the value is stored then, `keeping_related` for every other one.
-/

namespace ActorNet.Http.RequestParser

open Lib

variable {g : Ragel} {p q w u w' u' : Parser} {c : Byte} {actions : List Action} {s : State}

/-! ## Runs over a cut -/

/-- Bytes, and as `none` the ends of the buffers. -/
abbrev Cut := List (Option Byte)

def bytesOf (cut : Cut) : List Byte := cut.filterMap id

/-- The start of a buffer that is not empty. -/
def Parser.begin (g : Ragel) (p : Parser) : Parser :=
  { p with builder := g.enter p.builder, state := .error }

/-- The end of a buffer, and the start of the next one. -/
def Parser.edge (g : Ragel) (p : Parser) : Parser :=
  Parser.begin g { p with builder := g.leave p.builder [] }

/-- The machine over a cut; where it stops, whether it is done and what is left. -/
def Parser.run (g : Ragel) (p : Parser) : Cut → Parser × Option (Bool × List Byte)
  | [] => (p, none)
  | none :: cut => (p.edge g).run g cut
  | some c :: cut =>
      match transition p.cs c with
      | none => ({ p with cs := .error }, some (false, c :: bytesOf cut))
      | some (actions, s) =>
          if s = .done then (p.take g actions s c, some (true, bytesOf cut))
          else (p.take g actions s c).run g cut

/-! ## Edges -/

/-- In the whitespace behind a value. -/
def State.isTrailing : State → Bool
  | .trailing _ => true
  | _ => false

/-- What an edge changes. -/
structure Edged (p q : Parser) : Prop where
  cs : q.cs = p.cs
  formed : q.Formed
  token : q.builder.token = p.builder.token
  pending : q.cs.holds = true →
    q.pending = if p.cs.isTrailing then p.builder.token else p.pending
  req : q.req = p.req
  stored : q.stored = p.stored
  fieldName : q.fieldName = p.fieldName

/-- An edge in a token is a checkpoint, any other one does nothing. -/
theorem edge_spec (resumes : g.Resumes) (formed : p.Formed) : Edged p (p.edge g) := by
  have open_builder (is_open : p.cs.isOpen = true) :
      (p.edge g).builder = ⟨p.builder.token, some []⟩ := by
    obtain ⟨value, bytes, is, nonempty⟩ := formed.of_open is_open
    -- what is kept is not empty, so the mark is opened again
    simp only [Parser.edge, Parser.begin, is, resumes.leave_open, List.append_nil]
    exact resumes.enter_more _ nonempty
  have closed_builder (is_closed : p.cs.isOpen = false) : (p.edge g).builder = ⟨[], none⟩ := by
    simp only [Parser.edge, Parser.begin, formed.closed is_closed, resumes.leave_closed]
    exact resumes.enter_empty _ rfl
  have token : (p.edge g).builder.token = p.builder.token := by
    cases is_open : p.cs.isOpen with
    | true =>
        rw [open_builder is_open]
        exact List.append_nil _
    | false =>
        rw [closed_builder is_open, formed.closed is_open]
  exact {
    cs := rfl
    formed := {
      opened := by
        intro is_open
        rw [token]
        refine ⟨?_, (formed.opened is_open).2⟩
        rw [open_builder is_open]
        rfl
      closed := closed_builder }
    token := token
    pending := by
      intro holds
      show (match p.cs with
        | .trailing _ => (p.edge g).builder.value
        | _ => p.value) = _
      unfold Parser.pending
      cases cs : p.cs with
      | trailing line =>
          rw [open_builder (by rw [cs]; rfl)]
          rfl
      | _ => rfl
    req := rfl
    stored := rfl
    fieldName := rfl }

theorem pending_prefix_token (trailing : p.cs.isTrailing = true) :
    p.pending <+: p.builder.token := by
  unfold Parser.pending
  cases cs : p.cs with
  | trailing line => exact List.prefix_append _ _
  | _ =>
      rw [cs] at trailing
      cases trailing

theorem Alike.edge (alike : Alike w u) (edged : Edged u u') : Alike w u' where
  cs := alike.cs.trans edged.cs.symm
  token := alike.token.trans edged.token.symm
  fieldName := alike.fieldName.trans edged.fieldName.symm
  method := by rw [edged.req, alike.method]
  url := by rw [edged.req, alike.url]
  version := by rw [edged.req, alike.version]
  pending := by
    intro holds
    rw [edged.pending (by rw [edged.cs, ← alike.cs]; exact holds)]
    split
    · rename_i trailing
      -- the whitespace so far is now in the value
      rw [← alike.token]
      exact pending_prefix_token (by rw [alike.cs]; exact trailing)
    · exact alike.pending holds
  headers := by
    rw [edged.req]
    exact alike.headers

/-! ## One buffer -/

/-- No optional whitespace at the end. -/
def Trimmed (value : List Byte) : Prop := ∀ c, value.getLast? = some c → isSpHt c = false

/-- What the states say of the bytes that lead to them. -/
theorem transition_facts {r : State} (next : transition r c = some (actions, s)) :
    ((∃ line, s = .value line) → isSpHt c = false) ∧
      (s.isTrailing = true → r.holds = true → r.isTrailing = true) ∧
      (s.holds = true → r.holds = true ∨ (∃ line, r = .value line) ∨ r.isOpen = false) := by
  cases r
  all_goals simp only [transition] at next
  all_goals repeat' split at next
  all_goals cases next
  all_goals simp_all [State.isTrailing, State.holds, State.isOpen]

/-- What holds of a parser that has seen no edge yet. -/
structure Whole (w : Parser) : Prop where
  formed : w.Formed
  stored : ∀ value ∈ w.stored, Trimmed value
  value : (∃ line, w.cs = .value line) → Trimmed w.builder.token
  pending : w.cs.holds = true → Trimmed w.pending
  behind : w.cs.isTrailing = true → w.pending.length < w.builder.token.length

theorem Whole.init (resumes : g.Resumes) : Whole (Parser.init.begin g) where
  formed := ⟨nofun, fun _ => resumes.enter_empty _ rfl⟩
  stored := by
    intro value member
    cases member
  value := by
    rintro ⟨line, is⟩
    cases is
  pending := nofun
  behind := nofun

theorem Whole.take (whole : Whole w) (next : transition w.cs c = some (actions, s))
    (took : Took w c s w') : Whole w' := by
  obtain ⟨visible, trailing, held⟩ := transition_facts next
  constructor
  · exact took.formed
  · rw [took.stored]
    unfold Parser.storedAfter
    cases cs : w.cs with
    | ended line =>
        intro value member
        rcases List.mem_append.mp member with before | here
        · exact whole.stored value before
        · cases List.mem_singleton.mp here
          rw [← pending_ended cs]
          exact whole.pending (by rw [cs]; rfl)
    | _ => exact whole.stored
  · rintro ⟨line, is⟩ last ends
    rw [took.cs] at is
    subst is
    have is_open : (State.value line).isOpen = true := rfl
    rw [took.token, if_pos is_open, List.getLast?_concat] at ends
    cases ends
    exact visible ⟨line, rfl⟩
  · intro holds
    rw [took.cs] at holds
    rw [took.pending holds]
    split
    · exact whole.pending ‹_›
    · rename_i fresh
      -- the value has just ended, or was empty
      rcases held holds with before | value | closed
      · exact absurd before fresh
      · exact whole.value value
      · rw [whole.formed.closed closed]
        exact nofun
  · intro is_trailing
    rw [took.cs] at is_trailing
    have holds : s.holds = true := by
      cases s <;> first | rfl | cases is_trailing
    have is_open : s.isOpen = true := by
      cases s <;> first | rfl | cases is_trailing
    rw [took.pending holds, took.token, if_pos is_open, List.length_append, List.length_singleton]
    split
    · rename_i before
      have less := whole.behind (trailing is_trailing before)
      omega
    · omega

/-! ## What leaks at an edge -/

/-- The state behind a byte, and behind several. -/
def State.next (s : State) (c : Byte) : State := ((transition s c).map Prod.snd).getD .error

def State.after (s : State) (bytes : List Byte) : State := bytes.foldl State.next s

/-- The value behind which the machine is gets stored over these bytes. -/
def Stores : State → List Byte → Prop
  | _, [] => False
  | s, c :: rest =>
      match transition s c with
      | none => False
      | some (_, s') => s.isEnded = true ∨ s'.holds = true ∧ Stores s' rest

theorem stores_byte {s' : State} {rest : List Byte} (next : transition s c = some (actions, s')) :
    Stores s (c :: rest) ↔ s.isEnded = true ∨ s'.holds = true ∧ Stores s' rest := by
  rw [Stores, next]

theorem not_stores {rest : List Byte} (next : transition s c = none) : ¬ Stores s (c :: rest) := by
  rw [Stores, next]
  exact id

/-- There is an edge in the whitespace behind a value, and the value gets stored. -/
def Leaks (s : State) (cut : Cut) : Prop :=
  ∃ before behind, cut = before ++ none :: behind ∧
    (s.after (bytesOf before)).isTrailing = true ∧
    Stores (s.after (bytesOf before)) (bytesOf behind)

theorem leaks_nil : ¬ Leaks s [] := by
  rintro ⟨before, behind, is, -⟩
  exact List.append_ne_nil_of_right_ne_nil _ (List.cons_ne_nil _ _) is.symm

theorem leaks_edge {cut : Cut} :
    Leaks s (none :: cut) ↔ (s.isTrailing = true ∧ Stores s (bytesOf cut)) ∨ Leaks s cut := by
  constructor
  · rintro ⟨before, behind, is, trailing, stores⟩
    cases before with
    | nil =>
        cases is
        exact .inl ⟨trailing, stores⟩
    | cons item before =>
        cases is
        exact .inr ⟨before, behind, rfl, trailing, stores⟩
  · rintro (⟨trailing, stores⟩ | ⟨before, behind, rfl, trailing, stores⟩)
    · exact ⟨[], cut, rfl, trailing, stores⟩
    · exact ⟨none :: before, behind, rfl, trailing, stores⟩

theorem leaks_byte {cut : Cut} : Leaks s (some c :: cut) ↔ Leaks (s.next c) cut := by
  constructor
  · rintro ⟨before, behind, is, trailing, stores⟩
    cases before with
    | nil => cases is
    | cons item before =>
        cases is
        exact ⟨before, behind, rfl, trailing, stores⟩
  · rintro ⟨before, behind, rfl, trailing, stores⟩
    exact ⟨some c :: before, behind, rfl, trailing, stores⟩

/-- Nothing is taken in the last state, nor behind an error. -/
theorem not_leaks_done {cut : Cut} (last : s = .done ∨ s = .error) : ¬ Leaks s cut := by
  induction cut generalizing s with
  | nil => exact leaks_nil
  | cons item cut ih =>
      cases item with
      | none =>
          rw [leaks_edge]
          rintro (⟨trailing, -⟩ | leaks)
          · rcases last with rfl | rfl <;> cases trailing
          · exact ih last leaks
      | some c =>
          rw [leaks_byte]
          apply ih
          rcases last with rfl | rfl <;> exact .inr rfl

/-! ## A run over the bytes and one over the cut -/

/-- The run without edges. -/
abbrev Parser.runWhole (g : Ragel) (p : Parser) (cut : Cut) :
    Parser × Option (Bool × List Byte) :=
  p.run g ((bytesOf cut).map some)

/-- What both runs do at an item of the cut leads from `R` to `R`, and to `S` where they
stop. -/
structure Related (R : Cut → Parser → Parser → Prop) (S : Parser → Parser → Prop) : Prop where
  cs : ∀ {cut w u}, R cut w u → w.cs = u.cs
  formed : ∀ {cut w u}, R cut w u → w.Formed ∧ u.Formed
  stop : ∀ {w u}, R [] w u → S w u
  edge : ∀ {cut w u u'}, R (none :: cut) w u → Edged u u' → R cut w u'
  fail : ∀ {cut c w u}, R (some c :: cut) w u → transition w.cs c = none →
    S { w with cs := .error } { u with cs := .error }
  take : ∀ {cut c s actions w u w' u'}, R (some c :: cut) w u →
    transition w.cs c = some (actions, s) → Took w c s w' → Took u c s u' → R cut w' u'
  done : ∀ {cut w u}, R cut w u → w.cs = .done → S w u

theorem run_related {R : Cut → Parser → Parser → Prop} {S : Parser → Parser → Prop}
    (resumes : g.Resumes) (related : Related R S) (cut : Cut) (start : R cut w u) :
    (w.runWhole g cut).2 = (u.run g cut).2 ∧ S (w.runWhole g cut).1 (u.run g cut).1 := by
  induction cut generalizing w u with
  | nil => exact ⟨rfl, related.stop start⟩
  | cons item cut ih =>
      obtain ⟨formed, formed'⟩ := related.formed start
      cases item with
      -- the run over the bytes stays where it is
      | none => exact ih (related.edge start (edge_spec resumes formed'))
      | some c =>
          have same := related.cs start
          simp only [Parser.runWhole, bytesOf, List.filterMap_cons, id, List.map_cons, Parser.run,
            ← same]
          cases next : transition w.cs c with
          | none =>
              refine ⟨?_, related.fail start next⟩
              simp
          | some taken =>
              obtain ⟨actions, s⟩ := taken
              have took := take_spec resumes formed next
              have took' := take_spec resumes formed' (by rw [← same]; exact next)
              have step := related.take start next took took'
              by_cases done : s = .done
              · simp only [if_pos done]
                refine ⟨?_, related.done step (took.cs.trans done)⟩
                simp
              · simp only [if_neg done]
                exact ih step

/-- What is pending is different. -/
def Uneven (w u : Parser) : Prop := w.cs.holds = true ∧ w.pending ≠ u.pending

/-- A value will be stored with more than the whole run stores. -/
def WillLeak (cut : Cut) (w u : Parser) : Prop :=
  (Uneven w u ∧ Stores w.cs (bytesOf cut)) ∨ Leaks w.cs cut

theorem holds_of_isTrailing (trailing : s.isTrailing = true) : s.holds = true := by
  cases s <;> first | rfl | cases trailing

theorem uneven_edge (whole : Whole w) (alike : Alike w u) (edged : Edged u u') :
    Uneven w u' ↔ w.cs.isTrailing = true ∨ Uneven w u := by
  by_cases trailing : w.cs.isTrailing = true
  · have holds := holds_of_isTrailing trailing
    have pending : u'.pending = w.builder.token := by
      rw [edged.pending (by rw [edged.cs, ← alike.cs]; exact holds), ← alike.cs, if_pos trailing,
        alike.token]
    -- without an edge the whitespace is behind the checkpoint
    have less := whole.behind trailing
    refine iff_of_true ⟨holds, ?_⟩ (.inl trailing)
    intro same
    rw [same, pending] at less
    exact Nat.lt_irrefl _ less
  · have pending (holds : w.cs.holds = true) : u'.pending = u.pending := by
      rw [edged.pending (by rw [edged.cs, ← alike.cs]; exact holds), ← alike.cs, if_neg trailing]
    constructor
    · rintro ⟨holds, apart⟩
      rw [pending holds] at apart
      exact .inr ⟨holds, apart⟩
    · rintro (is_trailing | ⟨holds, apart⟩)
      · exact absurd is_trailing trailing
      · rw [← pending holds] at apart
        exact ⟨holds, apart⟩

theorem uneven_take (alike : Alike w u) (took : Took w c s w') (took' : Took u c s u') :
    Uneven w' u' ↔ s.holds = true ∧ Uneven w u := by
  unfold Uneven
  rw [took.cs]
  by_cases holds : s.holds = true
  · rw [took.pending holds, took'.pending holds, ← alike.cs, alike.token]
    by_cases held : w.cs.holds = true
    · simp [held]
    · simp [held]
  · simp [holds]

theorem willLeak_edge {cut : Cut} (whole : Whole w) (alike : Alike w u) (edged : Edged u u') :
    WillLeak cut w u' ↔ WillLeak (none :: cut) w u := by
  have same : bytesOf (none :: cut) = bytesOf cut := rfl
  rw [WillLeak, WillLeak, uneven_edge whole alike edged, leaks_edge, same]
  tauto

theorem willLeak_take {cut : Cut} (alike : Alike w u)
    (next : transition w.cs c = some (actions, s)) (took : Took w c s w')
    (took' : Took u c s u') :
    WillLeak (some c :: cut) w u ↔ (w.cs.isEnded = true ∧ Uneven w u) ∨ WillLeak cut w' u' := by
  have leads : w.cs.next c = s := by
    rw [State.next, next]
    rfl
  have stores : Stores w.cs (bytesOf (some c :: cut)) ↔
      w.cs.isEnded = true ∨ s.holds = true ∧ Stores s (bytesOf cut) := stores_byte next
  rw [WillLeak, WillLeak, uneven_take alike took took', leaks_byte, leads, stores, took.cs]
  tauto

/-- The value was or will be stored with more than the whole run stores. -/
structure Leaking (cut : Cut) (w u : Parser) : Prop where
  whole : Whole w
  formed : u.Formed
  alike : Alike w u
  leak : Shorter w.req.headers u.req.headers ∨ WillLeak cut w u

/-- So far the runs stored the same, and they will. -/
structure Keeping (cut : Cut) (w u : Parser) : Prop where
  whole : Whole w
  formed : u.Formed
  alike : Alike w u
  equal : Equal w u
  tight : ¬ WillLeak cut w u

theorem leaking_related :
    Related Leaking fun w u => Shorter w.req.headers u.req.headers where
  cs leaking := leaking.alike.cs
  formed leaking := ⟨leaking.whole.formed, leaking.formed⟩
  stop := by
    intro w u leaking
    rcases leaking.leak with shorter | ⟨-, stores⟩ | leaks
    · exact shorter
    · cases stores
    · exact absurd leaks leaks_nil
  edge := by
    intro cut w u u' leaking edged
    refine ⟨leaking.whole, edged.formed, leaking.alike.edge edged, ?_⟩
    rw [willLeak_edge leaking.whole leaking.alike edged, edged.req]
    exact leaking.leak
  fail := by
    intro cut c w u leaking next
    rcases leaking.leak with shorter | ⟨-, stores⟩ | leaks
    · exact shorter
    · exact absurd stores (not_stores next)
    · have failed : w.cs.next c = .error := by
        rw [State.next, next]
        rfl
      rw [leaks_byte, failed] at leaks
      exact absurd leaks (not_leaks_done (.inr rfl))
  take := by
    intro cut c s actions w u w' u' leaking next took took'
    refine ⟨leaking.whole.take next took, took'.formed, leaking.alike.take took took', ?_⟩
    rcases leaking.leak with shorter | will
    · exact .inl (leaking.alike.shorter shorter took took')
    -- the longer value is stored at this byte, or still pending
    · rcases (willLeak_take leaking.alike next took took').mp will with ⟨ended, uneven⟩ | later
      · exact .inl (leaking.alike.leak uneven.2 ended took took')
      · exact .inr later
  done := by
    intro cut w u leaking done
    rcases leaking.leak with shorter | ⟨⟨holds, -⟩, -⟩ | leaks
    · exact shorter
    · rw [done] at holds
      cases holds
    · exact absurd leaks (not_leaks_done (.inl done))

theorem keeping_related : Related Keeping fun w u =>
    (∀ value ∈ w.stored, Trimmed value) ∧ Equal w u ∧ w.req.method = u.req.method ∧
      w.req.url = u.req.url ∧ w.req.version = u.req.version := by
  have ends {cut : Cut} {w u : Parser} (keeping : Keeping cut w u) :
      (∀ value ∈ w.stored, Trimmed value) ∧ Equal w u ∧ w.req.method = u.req.method ∧
        w.req.url = u.req.url ∧ w.req.version = u.req.version :=
    ⟨keeping.whole.stored, keeping.equal, keeping.alike.method, keeping.alike.url,
      keeping.alike.version⟩
  exact {
    cs := fun keeping => keeping.alike.cs
    formed := fun keeping => ⟨keeping.whole.formed, keeping.formed⟩
    stop := ends
    edge := by
      intro cut w u u' keeping edged
      refine ⟨keeping.whole, edged.formed, keeping.alike.edge edged, ?_, ?_⟩
      · exact ⟨by rw [edged.req]; exact keeping.equal.headers,
          by rw [edged.stored]; exact keeping.equal.stored⟩
      · rw [willLeak_edge keeping.whole keeping.alike edged]
        exact keeping.tight
    fail := by
      intro cut c w u keeping next
      obtain ⟨stored, equal, rest⟩ := ends keeping
      exact ⟨stored, ⟨equal.headers, equal.stored⟩, rest⟩
    take := by
      intro cut c s actions w u w' u' keeping next took took'
      have tight := keeping.tight
      rw [willLeak_take keeping.alike next took took', not_or] at tight
      refine ⟨keeping.whole.take next took, took'.formed, keeping.alike.take took took', ?_,
        tight.2⟩
      apply keeping.equal.take keeping.alike _ took took'
      intro ended
      by_contra apart
      refine tight.1 ⟨ended, ?_, apart⟩
      cases cs : w.cs <;> first | rfl | (rw [cs] at ended; cases ended)
    done := fun keeping _ => ends keeping }

end ActorNet.Http.RequestParser
