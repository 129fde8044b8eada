import ActorNet.Http.RequestCuts

/-!
# Requests in several buffers

`feed_same_iff`: a request that comes in several buffers is parsed like the same bytes
in one, unless a buffer ends in the whitespace behind a value and the value gets
stored.
-/

namespace ActorNet.Http.RequestParser

open Lib

variable {g : Ragel} {p q : Parser} {c : Byte} {s : State}

/-! ## Buffers as a cut -/

def items (bufs : List (List Byte)) : Cut := bufs.flatMap fun buf => buf.map some ++ [none]

theorem items_cons (buf : List Byte) (bufs : List (List Byte)) :
    items (buf :: bufs) = buf.map some ++ none :: items bufs := by
  rw [items, items, List.flatMap_cons, List.append_assoc]
  rfl

theorem bytesOf_map (buf : List Byte) : bytesOf (buf.map some) = buf := by
  simp [bytesOf]

theorem bytesOf_items (bufs : List (List Byte)) : bytesOf (items bufs) = bufs.flatten := by
  induction bufs with
  | nil => rfl
  | cons buf bufs ih =>
      have split (a b : Cut) : bytesOf (a ++ none :: b) = bytesOf a ++ bytesOf b := by
        simp [bytesOf]
      rw [items_cons, split, bytesOf_map, ih, List.flatten_cons]

/-- The machine stops within a buffer, or the run goes on behind it. -/
theorem run_append (g : Ragel) (p : Parser) (buf : List Byte) (cut : Cut) :
    p.run g (buf.map some ++ cut) =
      match p.exec g buf with
      | (q, [], false) => q.run g cut
      | (q, rest, done) => (q, some (done, rest ++ bytesOf cut)) := by
  induction buf generalizing p with
  | nil => rfl
  | cons c buf ih =>
      simp only [List.map_cons, List.cons_append, Parser.run, Parser.exec]
      cases transition p.cs c with
      | none => simp [bytesOf]
      | some taken =>
          obtain ⟨actions, s⟩ := taken
          by_cases done : s = .done
          · simp [done, bytesOf]
          · simp only [if_neg done]
            exact ih (p.take g actions s c)

theorem perform_state (p : Parser) (action : Action) : (action.perform g p).state = p.state := by
  cases action <;> rfl

theorem take_state (p : Parser) (actions : List Action) (s : State) (c : Byte) :
    (p.take g actions s c).state = p.state := by
  show (actions.foldl (Action.perform g) p).state = p.state
  induction actions generalizing p with
  | nil => rfl
  | cons action actions ih =>
      rw [List.foldl_cons, ih, perform_state]

theorem exec_state (p : Parser) (buf : List Byte) : (p.exec g buf).1.state = p.state := by
  induction buf generalizing p with
  | nil => rfl
  | cons c buf ih =>
      rw [Parser.exec]
      cases transition p.cs c with
      | none => rfl
      | some taken =>
          obtain ⟨actions, s⟩ := taken
          simp only
          split
          · exact take_state p actions s c
          · rw [ih, take_state]

/-- What a run shows of a parser that was given the buffers. -/
structure Shows (a : Parser × Option (List Byte)) (r : Parser × Option (Bool × List Byte)) :
    Prop where
  req : a.1.req = r.1.req
  stored : a.1.stored = r.1.stored
  rest : a.2 = r.2.map Prod.snd
  state : a.1.state = if r.2.map Prod.fst = some true then .done else .error

/-- A buffer that is not empty. -/
theorem parse_eq (g : Ragel) (p : Parser) {buf : List Byte} (filled : buf ≠ []) :
    p.parse g buf false =
      match (p.begin g).exec g buf with
      | (q, [], false) => ({ q with builder := g.leave q.builder [] }, none)
      | (q, rest, done) =>
          ({ q with state := if done then .done else .error, builder := g.leave q.builder rest },
            some rest) := by
  have begins : (if buf = [] then { p with builder := g.enter p.builder }
      else { p with builder := g.enter p.builder, state := .error }) = p.begin g := if_neg filled
  simp only [Parser.parse, begins]
  rcases (p.begin g).exec g buf with ⟨q, rest, done⟩
  cases done <;> cases rest <;> rfl

theorem parse_run (g : Ragel) (p : Parser) {buf : List Byte} (filled : buf ≠ []) :
    Shows (p.parse g buf false) ((p.begin g).run g (buf.map some)) := by
  have whole := run_append g (p.begin g) buf []
  have state := @exec_state g (p.begin g) buf
  rw [List.append_nil] at whole
  rw [parse_eq g p filled, whole]
  generalize (p.begin g).exec g buf = stop at state ⊢
  match stop with
  | (q, [], false) => exact ⟨rfl, rfl, rfl, state⟩
  | (q, c :: rest, false) => exact ⟨rfl, rfl, by simp [bytesOf], rfl⟩
  | (q, [], true) => exact ⟨rfl, rfl, rfl, rfl⟩
  | (q, c :: rest, true) => exact ⟨rfl, rfl, by simp [bytesOf], rfl⟩

theorem feed_run (g : Ragel) (p : Parser) (bufs : List (List Byte)) (filled : ∀ buf ∈ bufs, buf ≠ [])
    (failing : bufs = [] → p.state = .error) :
    Shows (p.feed g bufs) ((p.begin g).run g (items bufs)) := by
  induction bufs generalizing p with
  | nil => exact ⟨rfl, rfl, rfl, failing rfl⟩
  | cons buf bufs ih =>
      have state := @exec_state g (p.begin g) buf
      have left : bytesOf (none :: items bufs) = bufs.flatten := bytesOf_items bufs
      rw [Parser.feed, parse_eq g p (filled buf (List.mem_cons_self ..)), items_cons, run_append]
      generalize (p.begin g).exec g buf = stop at state ⊢
      match stop with
      -- the end of this buffer and the start of the next one are an edge
      | (q, [], false) =>
          exact ih { q with builder := g.leave q.builder [] }
            (fun buf member => filled buf (List.mem_cons_of_mem _ member)) fun _ => state
      | (q, c :: rest, false) => exact ⟨rfl, rfl, by simp [left], rfl⟩
      | (q, [], true) => exact ⟨rfl, rfl, by simp [left], rfl⟩
      | (q, c :: rest, true) => exact ⟨rfl, rfl, by simp [left], rfl⟩

/-! ## The condition -/

/-- A byte that may come behind a line; it gets the value of the line stored. -/
def Follows (rest : List Byte) : Prop :=
  ∃ c more, rest = c :: more ∧ (isSpHt c = true ∨ c = cr ∨ isTchar c = true)

/-- The line ends in optional whitespace up to here, and the value before that gets
stored. -/
def Exposed (rest : List Byte) : Prop :=
  ∃ blanks more, rest = blanks ++ cr :: lf :: more ∧ (∀ b ∈ blanks, isSpHt b = true) ∧
    Follows more

theorem exposed_cons {rest : List Byte} :
    Exposed (c :: rest) ↔
      (isSpHt c = true ∧ Exposed rest) ∨ (c = cr ∧ ∃ more, rest = lf :: more ∧ Follows more) := by
  constructor
  · rintro ⟨blanks, more, is, all, follows⟩
    cases blanks with
    | nil =>
        cases is
        exact .inr ⟨rfl, more, rfl, follows⟩
    | cons b blanks =>
        cases is
        obtain ⟨blank, all⟩ := List.forall_mem_cons.mp all
        exact .inl ⟨blank, blanks, more, rfl, all, follows⟩
  · rintro (⟨blank, blanks, more, rfl, all, follows⟩ | ⟨rfl, more, rfl, follows⟩)
    · exact ⟨c :: blanks, more, rfl, List.forall_mem_cons.mpr ⟨blank, all⟩, follows⟩
    · exact ⟨[], more, rfl, nofun, follows⟩

theorem stores_ended {line : Line} {rest : List Byte} :
    Stores (.ended line) rest ↔ Follows rest := by
  cases rest with
  | nil => simp [Stores, Follows]
  | cons c rest =>
      have follows : Follows (c :: rest) ↔ isSpHt c = true ∨ c = cr ∨ isTchar c = true := by
        simp [Follows]
      rw [follows]
      cases next : transition (.ended line) c with
      | none =>
          refine iff_of_false (not_stores next) ?_
          simp only [transition] at next
          repeat' split at next
          all_goals cases next
          rw [not_or, not_or]
          exact ⟨‹_›, ‹_›, ‹_›⟩
      | some taken =>
          refine iff_of_true ((stores_byte next).mpr (.inl rfl)) ?_
          simp only [transition] at next
          repeat' split at next
          · exact .inl ‹_›
          · exact .inr (.inl ‹_›)
          · exact .inr (.inr ‹_›)
          · cases next

theorem stores_crlf {line : Line} {rest : List Byte} :
    Stores (.crlf line) rest ↔ ∃ more, rest = lf :: more ∧ Follows more := by
  cases rest with
  | nil => simp [Stores]
  | cons c rest =>
      by_cases ends : c = lf
      · have next : transition (.crlf line) c = some ([], .ended line) := if_pos ends
        rw [stores_byte next, stores_ended]
        simp [State.isEnded, State.holds, ends]
      · have next : transition (.crlf line) c = none := if_neg ends
        simp [not_stores next, ends]

theorem stores_trailing {line : Line} {rest : List Byte} :
    Stores (.trailing line) rest ↔ Exposed rest := by
  induction rest with
  | nil => simp [Stores, Exposed]
  | cons c rest ih =>
      rw [exposed_cons]
      by_cases blank : isSpHt c = true
      · have next : transition (.trailing line) c = some ([], .trailing line) := if_pos blank
        have other : c ≠ cr := by
          rintro rfl
          cases blank
        rw [stores_byte next, ih]
        simp [State.isEnded, State.holds, blank, other]
      · by_cases ends : c = cr
        · subst ends
          have next : transition (.trailing line) cr = some ([.noMarkStoreValue], .crlf line) := rfl
          rw [stores_byte next, stores_crlf]
          simp [State.isEnded, State.holds, blank]
        · have quiet : ¬ Stores (.trailing line) (c :: rest) := by
            by_cases control : isCtl c = true
            · exact not_stores (by simp [transition, blank, ends, control])
            -- more of the value comes, and a checkpoint behind it
            · have next : transition (.trailing line) c = some ([], .value line) := by
                simp [transition, blank, ends, control]
              rw [stores_byte next]
              simp [State.isEnded, State.holds]
          simp [quiet, blank, ends]

/-- A buffer ends in the whitespace behind a value that gets stored. -/
def CutBehindValue (bufs : List (List Byte)) : Prop :=
  ∃ before behind, bufs = before ++ behind ∧
    (State.after .start before.flatten).isTrailing = true ∧ Exposed behind.flatten

theorem leaks_bytes {bytes : List Byte} {cut : Cut} :
    Leaks s (bytes.map some ++ cut) ↔ Leaks (s.after bytes) cut := by
  induction bytes generalizing s with
  | nil => rfl
  | cons c bytes ih =>
      rw [List.map_cons, List.cons_append, leaks_byte, ih]
      rfl

theorem stores_of_trailing {rest : List Byte} (trailing : s.isTrailing = true) :
    Stores s rest ↔ Exposed rest := by
  cases s with
  | trailing line => exact stores_trailing
  | _ => cases trailing

theorem leaks_items (bufs : List (List Byte)) :
    Leaks s (none :: items bufs) ↔ ∃ before behind, bufs = before ++ behind ∧
      (s.after before.flatten).isTrailing = true ∧ Exposed behind.flatten := by
  induction bufs generalizing s with
  | nil =>
      rw [leaks_edge]
      constructor
      · rintro (⟨-, stores⟩ | leaks)
        · cases stores
        · exact absurd leaks leaks_nil
      · rintro ⟨before, behind, is, -, exposed⟩
        obtain ⟨rfl, rfl⟩ := List.append_eq_nil_iff.mp is.symm
        obtain ⟨blanks, more, is, -⟩ := exposed
        exact absurd is.symm (List.append_ne_nil_of_right_ne_nil _ (List.cons_ne_nil _ _))
  | cons buf bufs ih =>
      have after (before : List (List Byte)) :
          (s.after buf).after before.flatten = s.after (buf :: before).flatten := by
        rw [List.flatten_cons, State.after, State.after, State.after, List.foldl_append]
      rw [leaks_edge, bytesOf_items, items_cons, leaks_bytes, ih]
      constructor
      · rintro (⟨trailing, stores⟩ | ⟨before, behind, rfl, trailing, exposed⟩)
        · exact ⟨[], buf :: bufs, rfl, trailing, (stores_of_trailing trailing).mp stores⟩
        · rw [after] at trailing
          exact ⟨buf :: before, behind, rfl, trailing, exposed⟩
      · rintro ⟨before, behind, is, trailing, exposed⟩
        cases before with
        | nil =>
            cases is
            exact .inl ⟨trailing, (stores_of_trailing trailing).mpr exposed⟩
        | cons _ before =>
            cases is
            rw [← after] at trailing
            exact .inr ⟨before, behind, rfl, trailing, exposed⟩

/-! ## One buffer or several -/

/-- The outcome, the request and what is left over, the headers as a map. -/
structure SameOutcome (a b : Parser × Option (List Byte)) : Prop where
  state : a.1.state = b.1.state
  rest : a.2 = b.2
  method : a.1.req.method = b.1.req.method
  url : a.1.req.url = b.1.req.url
  version : a.1.req.version = b.1.req.version
  headers : ∀ name, a.1.req.headers.find name = b.1.req.headers.find name

/-- The runs over the first byte of the buffers. -/
theorem willLeak_init (bufs : List (List Byte)) :
    WillLeak (items bufs) (Parser.init.begin g) (Parser.init.begin g) ↔ CutBehindValue bufs := by
  rw [CutBehindValue, ← leaks_items, leaks_edge, WillLeak]
  constructor
  · rintro (⟨⟨holds, -⟩, -⟩ | leaks)
    · cases holds
    · exact .inr leaks
  · rintro (⟨trailing, -⟩ | leaks)
    · cases trailing
    · exact .inr leaks

theorem alike_refl (p : Parser) : Alike p p :=
  ⟨rfl, rfl, rfl, rfl, rfl, rfl, fun _ => List.prefix_refl _, Below.refl _⟩

/-- Both runs, for the bytes that were given to the parser. -/
theorem shows_both {bufs : List (List Byte)} (filled : ∀ buf ∈ bufs, buf ≠ []) (some_ : bufs ≠ []) :
    Shows (Parser.init.feed g bufs) ((Parser.init.begin g).run g (items bufs)) ∧
      Shows (Parser.init.parse g bufs.flatten false) ((Parser.init.begin g).runWhole g (items bufs)) := by
  refine ⟨feed_run g _ bufs filled fun empty => absurd empty some_, ?_⟩
  rw [Parser.runWhole, bytesOf_items]
  apply parse_run
  intro empty
  obtain ⟨buf, member⟩ := List.exists_mem_of_ne_nil bufs some_
  exact filled buf member (List.flatten_eq_nil_iff.mp empty buf member)

/-- The buffers do not matter, and no value has whitespace behind it, if and only if no
buffer ends behind a value. -/
theorem feed_same_iff (g : Ragel) (resumes : g.Resumes) (bufs : List (List Byte))
    (filled : ∀ buf ∈ bufs, buf ≠ []) :
    (SameOutcome (Parser.init.feed g bufs) (Parser.init.parse g bufs.flatten false) ∧
      ∀ value ∈ (Parser.init.feed g bufs).1.stored, Trimmed value) ↔ ¬ CutBehindValue bufs := by
  rcases eq_or_ne bufs [] with rfl | some_
  · refine iff_of_true ⟨⟨rfl, rfl, rfl, rfl, rfl, fun _ => rfl⟩, nofun⟩ ?_
    rw [← @willLeak_init g]
    rintro (⟨-, stores⟩ | leaks)
    · cases stores
    · exact leaks_nil leaks
  · obtain ⟨parts, whole⟩ := shows_both filled some_
    rw [← @willLeak_init g]
    by_cases leak : WillLeak (items bufs) (Parser.init.begin g) (Parser.init.begin g)
    · refine iff_of_false ?_ (not_not_intro leak)
      rintro ⟨same, -⟩
      obtain ⟨-, shorter⟩ := run_related resumes leaking_related (items bufs)
        ⟨Whole.init resumes, (Whole.init resumes).formed, alike_refl _, .inr leak⟩
      -- the two maps differ at this name
      obtain ⟨name, a, b, find_a, find_b, less⟩ := shorter
      rw [← whole.req] at find_a
      rw [← parts.req, same.headers, find_a] at find_b
      cases find_b
      exact Nat.lt_irrefl _ less
    · refine iff_of_true ?_ leak
      obtain ⟨ending, stored, equal, method, url, version⟩ :=
        run_related resumes keeping_related (items bufs)
          ⟨Whole.init resumes, (Whole.init resumes).formed, alike_refl _, ⟨rfl, rfl⟩, leak⟩
      refine ⟨⟨?_, ?_, ?_, ?_, ?_, ?_⟩, ?_⟩
      · rw [parts.state, whole.state, ending]
      · rw [parts.rest, whole.rest, ending]
      · rw [parts.req, whole.req, method]
      · rw [parts.req, whole.req, url]
      · rw [parts.req, whole.req, version]
      · intro name
        rw [parts.req, whole.req, equal.headers]
      · rw [parts.stored, ← equal.stored]
        exact stored

/-- A guard over the parts of the builder. -/
def guard : Ragel where
  enter b := if b.value = [] then b else { b with sinceMark := some [] }
  markStart b := { b with sinceMark := some [] }
  unmark b := { b with sinceMark := none }
  markEnd b := ⟨b.token, none⟩
  getStr b := (b.value, { b with value := [] })
  leave b rest :=
    match b.sinceMark with
    | none => b
    | some bytes => ⟨b.value ++ bytes ++ rest, none⟩

theorem guard_resumes : guard.Resumes where
  enter_empty _ empty := if_pos empty
  enter_more _ more := if_neg more
  markStart _ := rfl
  unmark _ := rfl
  markEnd _ _ := rfl
  getStr _ := rfl
  leave_open _ _ _ := rfl
  leave_closed _ _ := rfl

/-- `GET / HTTP/1.1`, and `A: b`. -/
def getLine : List Byte :=
  [71, 69, 84, 32, 47, 32, 72, 84, 84, 80, 47, 49, 46, 49, 13, 10, 65, 58, 32, 98]

/-- The buffer ends with the value. -/
theorem feed_same_getLine :
    SameOutcome (Parser.init.feed guard [getLine, [32, 13, 10, 13, 10]])
        (Parser.init.parse guard [getLine, [32, 13, 10, 13, 10]].flatten false) ∧
      ∀ value ∈ (Parser.init.feed guard [getLine, [32, 13, 10, 13, 10]]).1.stored,
        Trimmed value := by
  refine (feed_same_iff guard guard_resumes [getLine, [32, 13, 10, 13, 10]] (by decide)).mpr ?_
  rintro ⟨before, behind, is, trailing, exposed⟩
  match before with
  | [] => cases trailing
  | [_] =>
      cases is
      revert trailing
      decide
  | [_, _] =>
      cases is
      revert trailing
      decide
  | _ :: _ :: _ :: _ => cases is

/-- The buffer ends a byte behind the value. -/
theorem feed_same_fails :
    ¬ SameOutcome (Parser.init.feed guard [getLine ++ [32], [13, 10, 13, 10]])
        (Parser.init.parse guard [getLine ++ [32], [13, 10, 13, 10]].flatten false) ∧
      ¬ ∀ value ∈ (Parser.init.feed guard [getLine ++ [32], [13, 10, 13, 10]]).1.stored,
        Trimmed value := by
  have parts : (Parser.init.feed guard [getLine ++ [32], [13, 10, 13, 10]]).1.req.headers =
      [([65], [98, 32])] := by decide
  have whole : (Parser.init.parse guard [getLine ++ [32], [13, 10, 13, 10]].flatten
      false).1.req.headers = [([65], [98])] := by decide
  have stored : (Parser.init.feed guard [getLine ++ [32], [13, 10, 13, 10]]).1.stored =
      [[98, 32]] := by decide
  constructor
  · intro same
    have header := same.headers [65]
    rw [parts, whole] at header
    revert header
    decide
  · rw [stored]
    intro trimmed
    exact absurd (trimmed _ (List.mem_singleton.mpr rfl) 32 rfl) (by decide)

end ActorNet.Http.RequestParser
