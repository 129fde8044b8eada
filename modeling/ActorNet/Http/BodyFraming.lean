import ActorNet.Http.Shutdown

/-!
# Where the body of a request ends

`verdict` is what `read_one` makes of the bytes of a connection: the request that
it hands over with its body, and the bytes behind. A `Content-Length` is valid
when it is one decimal number, which `strtol` does not check; and a stream that
ends within the body gives a shorter one.
-/

namespace ActorNet.Http

open Lib BoundedQueue Connection

/-! ## Header fields -/

/-- The parser's action `assign_field`: a field that is there already has the
value appended behind a comma. -/
def assignField (headers : List (String × String)) (name value : String) :
    List (String × String) :=
  if headers.any fun header => caseInsensitiveCmp header.1 name then
    headers.map fun header =>
      if caseInsensitiveCmp header.1 name then (header.1, header.2 ++ "," ++ value) else header
  else headers ++ [(name, value)]

/-- The parser's action `extend_field`, for a line that continues a field. -/
def extendField (headers : List (String × String)) (name value : String) :
    List (String × String) :=
  headers.map fun header =>
    if caseInsensitiveCmp header.1 name then (header.1, header.2 ++ " " ++ value) else header

/-! ## Requests and their bodies -/

/-- What becomes of the next request of a byte stream. -/
inductive Verdict
  | ended
  | malformed (req : Request)
  | tooLarge (req : Request)
  | handled (req : Request) (behind : List UInt8)
  deriving DecidableEq, Repr

/-- `read_one` and `read_request_body`. -/
def verdict (server : Server) (input : List UInt8) : Verdict :=
  match server.consume input with
  | (.eof, _, _) => .ended
  | (.error, req, _) => .malformed req
  | (.done, parsed, rest) =>
      let req :=
        { parsed with contentLength := toSizeT (strtol (parsed.getHeader "Content-Length")) }
      if req.contentLength > server.contentLengthLimit then .tooLarge req
      else .handled (withBody req rest) (rest.drop req.contentLength)

/-- The number that a value is, if it is one that a `size_t` can hold. -/
def decimal (value : String) : Option Nat :=
  if value.toList ≠ [] ∧ value.toList.all Char.isDigit ∧ digitsValue 0 value.toList < 2 ^ 64 then
    some (digitsValue 0 value.toList)
  else none

/-- A valid length within the limit takes just as many bytes; a request is not
handled whose value is no number, or is more than there are bytes. -/
structure Framed (limit : Nat) (value : Option String) (rest : List UInt8) (v : Verdict) :
    Prop where
  exact : ∀ n, value.bind decimal = some n → n ≤ limit → n ≤ rest.length →
    ∃ req, v = .handled req (rest.drop n) ∧ req.content = rest.take n
  invalid : ∀ text, value = some text → decimal text = none → ∀ req behind, v ≠ .handled req behind
  early : ∀ n, value.bind decimal = some n → rest.length < n → ∀ req behind, v ≠ .handled req behind

/-- There is no length; or it is a number of bytes that are there, and if it is
within the limit a `long` can hold it; or what `strtol` makes of it is above the
limit. -/
def FramedWhen (limit : Nat) (value : Option String) (rest : List UInt8) : Prop :=
  match value with
  | none => True
  | some text =>
      (∃ n, decimal text = some n ∧ n ≤ rest.length ∧ (n < 2 ^ 63 ∨ limit < n)) ∨
        limit < toSizeT (strtol text)

/-! ## Numbers -/

theorem isSpace_digit {c : Char} (digit : c.isDigit = true) : isSpace c = false := by
  simp only [Char.isDigit, Bool.and_eq_true, decide_eq_true_eq] at digit
  have low : 48 ≤ c.toNat := digit.1
  have notSpace : c ≠ ' ' := by
    rintro rfl
    exact absurd low (by decide)
  have tab : ('\r' : Char).toNat = 13 := rfl
  simp only [isSpace, Bool.or_eq_false_iff, beq_eq_false_iff_ne, Bool.and_eq_false_iff,
    decide_eq_false_iff_not]
  exact ⟨notSpace, .inr (by omega)⟩

theorem strtol_decimal {text : String} {n : Nat} (valid : decimal text = some n) :
    strtol text = min (2 ^ 63 - 1) (n : Int) := by
  unfold decimal at valid
  simp only [Option.ite_none_right_eq_some] at valid
  obtain ⟨⟨nonempty, digits, -⟩, same⟩ := valid
  cases same
  unfold strtol
  cases list : text.toList with
  | nil => exact absurd list nonempty
  | cons c cs =>
      rw [list, List.all_cons, Bool.and_eq_true] at digits
      rw [List.dropWhile_cons_of_neg (by rw [isSpace_digit digits.1]; decide)]
      split
      · rename_i same
        cases same
        exact absurd digits.1 (by decide)
      · rename_i same
        cases same
        exact absurd digits.1 (by decide)
      · rfl

theorem toSizeT_decimal {text : String} {n : Nat} (valid : decimal text = some n) :
    toSizeT (strtol text) = min (2 ^ 63 - 1) n := by
  rw [strtol_decimal valid, toSizeT]
  omega

/-! ## Fields that come twice -/

/-- What is found under a name once the values under it are changed. -/
theorem find_changed {headers : List (String × String)} {name value : String}
    (change : String → String)
    (found : (headers.find? fun header => caseInsensitiveCmp header.1 name).map Prod.snd =
      some value) :
    ((headers.map fun header =>
        if caseInsensitiveCmp header.1 name then (header.1, change header.2) else header).find?
      fun header => caseInsensitiveCmp header.1 name).map Prod.snd = some (change value) := by
  induction headers with
  | nil => cases found
  | cons header headers ih =>
      cases same : caseInsensitiveCmp header.1 name with
      | true =>
          rw [List.find?_cons, same] at found
          cases found
          simp only [List.map_cons, List.find?_cons, same, if_true, Option.map_some]
      | false =>
          rw [List.find?_cons, same] at found
          simp only [List.map_cons, List.find?_cons, same, Bool.false_eq_true, if_false]
          exact ih found

theorem findHeader_assignField {req : Request} {name first : String} (second : String)
    (found : req.findHeader name = some first) :
    Request.findHeader { req with headers := assignField req.headers name second } name =
      some (first ++ "," ++ second) := by
  obtain ⟨header, present, -⟩ := Option.map_eq_some_iff.mp found
  have there : req.headers.any (fun header => caseInsensitiveCmp header.1 name) = true :=
    List.any_eq_true.mpr ⟨header, List.mem_of_find?_eq_some present,
      List.find?_some (p := fun header : String × String => caseInsensitiveCmp header.1 name) present⟩
  unfold assignField
  rw [if_pos there]
  exact find_changed (fun value => value ++ "," ++ second) found

theorem findHeader_extendField {req : Request} {name first : String} (more : String)
    (found : req.findHeader name = some first) :
    Request.findHeader { req with headers := extendField req.headers name more } name =
      some (first ++ " " ++ more) :=
  find_changed (fun value => value ++ " " ++ more) found

theorem decimal_other {text : String} {c : Char} (other : c ∈ text.toList)
    (notDigit : c.isDigit = false) : decimal text = none := by
  unfold decimal
  apply if_neg
  rintro ⟨-, digits, -⟩
  rw [List.all_eq_true.mp digits c other] at notDigit
  cases notDigit

/-- A length that comes twice, or goes on in another line, is no number. -/
theorem combined_length {req : Request} {first : String} (second : String)
    (found : req.findHeader "Content-Length" = some first) :
    (Request.findHeader
        { req with headers := assignField req.headers "Content-Length" second }
        "Content-Length").bind decimal = none ∧
      (Request.findHeader
        { req with headers := extendField req.headers "Content-Length" second }
        "Content-Length").bind decimal = none := by
  rw [findHeader_assignField second found, findHeader_extendField second found, Option.bind_some,
    Option.bind_some]
  exact ⟨@decimal_other _ ',' (by simp) rfl, @decimal_other _ ' ' (by simp) rfl⟩

/-! ## One request -/

/-- The parser leaves the body of a request to `read_one`. -/
def Server.LeavesBody (server : Server) : Prop :=
  ∀ input, (server.consume input).2.1.content = []

section

variable {server : Server} {input rest : List UInt8} {parsed : Request}

theorem content_withBody (empty : parsed.content = []) (n : Nat) :
    (withBody { parsed with contentLength := n } rest).content = rest.take n := by
  unfold withBody
  by_cases none : n = 0
  · subst none
    exact empty
  · rw [if_neg (by simpa using none)]

theorem verdict_tooLarge (consumed : server.consume input = (.done, parsed, rest))
    (large : server.contentLengthLimit < toSizeT (strtol (parsed.getHeader "Content-Length"))) :
    ∃ req, verdict server input = .tooLarge req := by
  unfold verdict
  rw [consumed]
  exact ⟨_, if_pos large⟩

theorem verdict_handled (leaves : server.LeavesBody)
    (consumed : server.consume input = (.done, parsed, rest))
    (fits : toSizeT (strtol (parsed.getHeader "Content-Length")) ≤ server.contentLengthLimit) :
    ∃ req, req.content = rest.take (toSizeT (strtol (parsed.getHeader "Content-Length"))) ∧
      verdict server input =
        .handled req (rest.drop (toSizeT (strtol (parsed.getHeader "Content-Length")))) := by
  have empty := leaves input
  rw [consumed] at empty
  refine ⟨_, content_withBody empty _, ?_⟩
  unfold verdict
  rw [consumed]
  exact if_neg (Nat.not_lt.mpr fits)

theorem verdict_framed_iff (leaves : server.LeavesBody)
    (consumed : server.consume input = (.done, parsed, rest)) :
    Framed server.contentLengthLimit (parsed.findHeader "Content-Length") rest
        (verdict server input) ↔
      FramedWhen server.contentLengthLimit (parsed.findHeader "Content-Length") rest := by
  cases value : parsed.findHeader "Content-Length" with
  | none => exact iff_of_true ⟨nofun, nofun, nofun⟩ trivial
  | some text =>
      have header : parsed.getHeader "Content-Length" = text := by
        rw [Request.getHeader, value, Option.getD_some]
      by_cases large : server.contentLengthLimit < toSizeT (strtol text)
      · obtain ⟨req, rejected⟩ := verdict_tooLarge consumed (by rw [header]; exact large)
        refine iff_of_true ⟨?_, ?_, ?_⟩ (.inr large)
        · intro n valid within
          have size := toSizeT_decimal (Option.bind_some .. ▸ valid)
          omega
        · intro text _ _ req behind
          rw [rejected]
          exact nofun
        · intro n _ _ req behind
          rw [rejected]
          exact nofun
      · obtain ⟨req, content, handled⟩ := verdict_handled leaves consumed (by rw [header]; omega)
        rw [header] at content handled
        constructor
        · intro framed
          cases valid : decimal text with
          | none => exact absurd handled (framed.invalid text rfl valid _ _)
          | some n =>
              have size := toSizeT_decimal valid
              by_cases enough : n ≤ rest.length
              · refine .inl ⟨n, valid, enough, ?_⟩
                by_cases within : n ≤ server.contentLengthLimit
                · obtain ⟨req', same, exactly⟩ := framed.exact n valid within enough
                  rw [handled] at same
                  obtain ⟨rfl, -⟩ := Verdict.handled.inj same
                  -- `strtol` saturates, and then the body is too short
                  have length := congrArg List.length (content.symm.trans exactly)
                  rw [List.length_take, List.length_take] at length
                  omega
                · exact .inr (by omega)
              · -- `read_exactly` hands over what came, and the request is handled
                exact absurd handled (framed.early n valid (by omega) _ _)
        · rintro (⟨n, valid, enough, small⟩ | large')
          · have size := toSizeT_decimal valid
            refine ⟨?_, ?_, ?_⟩
            · intro n' valid' within _
              cases valid.symm.trans valid'
              have same : toSizeT (strtol text) = n := by omega
              exact ⟨req, by rw [handled, same], by rw [content, same]⟩
            · intro text' same invalid
              cases same
              rw [valid] at invalid
              cases invalid
            · intro n' valid' short
              cases valid.symm.trans valid'
              omega
          · exact absurd large' large

end

/-! ## Runs -/

/-- The request that a reader is about to hand over, and the bytes behind it. -/
def Reader.handsOver (input : List UInt8) : Reader → Option (Request × List UInt8)
  | .continueRoom req _ | .readingBody req =>
      some (withBody req input, input.drop req.contentLength)
  | .replyRoom req _ | .handling req _ => some (req, input)
  | _ => none

variable {Q : Type}

/-- No request will be read any more. -/
def Connection.Ending (c : Connection Q) : Prop :=
  (c.reader = .loop ∧ c.done = true) ∨ (∃ granted, c.reader = .endRoom granted) ∨
    c.reader = .finished

/-- A connection that was to read a request when `served` were served: it still
is, or it hands over what the verdict says, or other requests have followed. -/
structure Follows (server : Server) (input : List UInt8) (served : Nat) (c : Connection Q) :
    Prop where
  low : served ≤ c.requestsServed
  before : c.requestsServed = served → (c.reader = .parsing ∧ c.input = input) ∨ c.Ending
  after : c.requestsServed = served + 1 → ∀ req behind,
    c.reader.handsOver c.input = some (req, behind) → verdict server input = .handled req behind

/-- A step that reads nothing. -/
structure Quiet (c c' : Connection Q) : Prop where
  input : c'.input = c.input
  served : c'.requestsServed = c.requestsServed
  parsing : c.reader = .parsing → c'.reader = .parsing ∨ c'.Ending
  ending : c.Ending → c'.Ending
  hands : ∀ handed, c'.reader.handsOver c.input = some handed →
    c.reader.handsOver c.input = some handed

section

variable {server : Server} {input : List UInt8} {served : Nat} {c c' : Connection Q}

theorem Ending.handsOver (ending : c.Ending) (input : List UInt8) :
    c.reader.handsOver input = none := by
  rcases ending with ⟨reader, -⟩ | ⟨_, reader⟩ | reader
  · rw [reader]
    rfl
  · rw [reader]
    rfl
  · rw [reader]
    rfl

theorem Follows.quiet (follows : Follows server input served c) (quiet : Quiet c c') :
    Follows server input served c' where
  low := by
    rw [quiet.served]
    exact follows.low
  before := by
    intro same
    rw [quiet.served] at same
    rcases follows.before same with ⟨parsing, unread⟩ | ending
    · rcases quiet.parsing parsing with parsing | ending
      · exact .inl ⟨parsing, by rw [quiet.input, unread]⟩
      · exact .inr ending
    · exact .inr (quiet.ending ending)
  after := by
    intro same req behind handed
    rw [quiet.served] at same
    rw [quiet.input] at handed
    exact follows.after same req behind (quiet.hands _ handed)

/-- The reader is where it was, or leaves. -/
theorem Quiet.ofReader (input : c'.input = c.input) (served : c'.requestsServed = c.requestsServed)
    (reader : c'.reader = c.reader ∨ c'.Ending) (done : c.done = true → c'.done = true) :
    Quiet c c' := by
  rcases reader with same | ending
  · refine ⟨input, served, ?_, ?_, ?_⟩
    · intro parsing
      exact .inl (same.trans parsing)
    · rintro (⟨loop, isDone⟩ | leaving)
      · exact .inl ⟨same.trans loop, done isDone⟩
      · unfold Connection.Ending
        rw [same]
        exact .inr leaving
    · intro handed
      rw [same]
      exact id
  · refine ⟨input, served, fun _ => .inr ending, fun _ => ending, ?_⟩
    intro handed hands
    rw [Ending.handsOver ending] at hands
    cases hands

theorem handsOver_grant (reader : Reader) (input : List UInt8) :
    (Reader.grant reader).handsOver input = reader.handsOver input := by
  cases reader <;> rfl

theorem Quiet.grant (input : c'.input = c.input) (served : c'.requestsServed = c.requestsServed)
    (reader : c'.reader = Reader.grant c.reader) (done : c'.done = c.done) : Quiet c c' := by
  refine ⟨input, served, ?_, ?_, ?_⟩
  · intro parsing
    rw [reader, parsing]
    exact .inl rfl
  · unfold Connection.Ending
    rw [reader, done]
    rintro (⟨loop, isDone⟩ | ⟨_, endRoom⟩ | finished)
    · rw [loop]
      exact .inl ⟨rfl, isDone⟩
    · rw [endRoom]
      exact .inr (.inl ⟨true, rfl⟩)
    · rw [finished]
      exact .inr (.inr rfl)
  · intro handed
    rw [reader, handsOver_grant]
    exact id

theorem Quiet.trans {c'' : Connection Q} (first : Quiet c c') (second : Quiet c' c'') :
    Quiet c c'' where
  input := second.input.trans first.input
  served := second.served.trans first.served
  parsing := by
    intro parsing
    rcases first.parsing parsing with parsing | ending
    · exact second.parsing parsing
    · exact .inr (second.ending ending)
  ending ending := second.ending (first.ending ending)
  hands := by
    intro handed hands
    apply first.hands
    have hands' := second.hands handed
    rw [first.input] at hands'
    exact hands' hands

theorem quiet_writer (c : Connection Q) (writer : Writer) (errors : Nat) :
    Quiet c { c with writer := writer, respondErrors := errors } :=
  .ofReader rfl rfl (.inl rfl) id

/-- A reader that has a request in its hands has read it. -/
theorem Follows.onward (follows : Follows server input served c)
    (parsing : c.reader ≠ .parsing) (busy : ¬ c.Ending)
    (same : c'.requestsServed = c.requestsServed)
    (hands : ∀ handed, c'.reader.handsOver c'.input = some handed →
      c.reader.handsOver c.input = some handed) : Follows server input served c' where
  low := by
    rw [same]
    exact follows.low
  before := by
    intro now
    rcases follows.before (same.symm.trans now) with ⟨reader, -⟩ | ending
    · exact absurd reader parsing
    · exact absurd ending busy
  after := by
    intro now req behind handed
    exact follows.after (same.symm.trans now) req behind (hands _ handed)

/-- The reader is not behind the last request. -/
def Reader.goesOn : Reader → Bool
  | .loop | .endRoom _ | .finished => false
  | _ => true

theorem not_ending {reader : Reader} (at_ : c.reader = reader) (goesOn : reader.goesOn = true) :
    ¬ c.Ending := by
  rintro (⟨loop, -⟩ | ⟨granted, endRoom⟩ | finished)
  · rw [at_.symm.trans loop] at goesOn
    cases goesOn
  · rw [at_.symm.trans endRoom] at goesOn
    cases goesOn
  · rw [at_.symm.trans finished] at goesOn
    cases goesOn

variable [BoundedQueue (Option Reply) Q]

theorem readEnd_ending (c : Connection Q) :
    (readEnd c).Ending ∧ (readEnd c).input = c.input ∧
      (readEnd c).requestsServed = c.requestsServed := by
  unfold readEnd
  split
  · exact ⟨.inr (.inr rfl), rfl, rfl⟩
  · split
    · exact ⟨.inr (.inl ⟨_, rfl⟩), rfl, rfl⟩
    · exact ⟨.inr (.inr rfl), rfl, rfl⟩

theorem readFailed_ending (c : Connection Q) :
    (readFailed c).Ending ∧ (readFailed c).input = c.input ∧
      (readFailed c).requestsServed = c.requestsServed :=
  readEnd_ending _

theorem doResponseLoop_quiet (step : doResponseLoop c = some c') : Quiet c c' := by
  unfold doResponseLoop at step
  split at step
  · cases step
    exact .ofReader rfl rfl (.inl rfl) id
  · split at step
    · cases step
    · rename_i resp _ _
      by_cases isFull : full c.replies = true
      · simp only [if_pos isFull] at step
        cases resp with
        | none =>
            cases step
            exact .grant rfl rfl rfl rfl
        | some resp =>
            cases step
            exact .grant rfl rfl rfl rfl
      · simp only [if_neg isFull] at step
        cases resp with
        | none =>
            cases step
            exact .ofReader rfl rfl (.inl rfl) id
        | some resp =>
            cases step
            exact .ofReader rfl rfl (.inl rfl) id

theorem readFailed_quiet (c : Connection Q) : Quiet c (readFailed c) := by
  obtain ⟨ending, input, served⟩ := readFailed_ending c
  refine .ofReader input served (.inr ending) ?_
  rw [readFailed_done]
  exact id

theorem failWaiter_quiet (c : Connection Q) : Quiet c (failWaiter c) := by
  unfold failWaiter
  split
  · exact readFailed_quiet c
  · exact readFailed_quiet c
  · exact .ofReader rfl rfl (.inr (.inr (.inr rfl))) id
  · exact .ofReader rfl rfl (.inl rfl) id

theorem signalFailure_quiet (c : Connection Q) : Quiet c (signalFailure c) := by
  have aborts : Quiet c { c with done := true, replies := push none (abort c.replies) } :=
    .ofReader rfl rfl (.inl rfl) fun _ => rfl
  exact aborts.trans (failWaiter_quiet _)

theorem writerStep_quiet (step : writerStep c = some c') : Quiet c c' := by
  unfold writerStep at step
  split at step
  · exact doResponseLoop_quiet step
  · cases step
    exact quiet_writer c _ _
  · cases step
    exact quiet_writer c _ _
  · cases step
    exact quiet_writer c _ _
  · cases step
    exact quiet_writer c _ _
  · cases step

theorem writerFails_quiet (step : writerFails c = some c') : Quiet c c' := by
  unfold writerFails at step
  split at step
  · cases step
    exact quiet_writer c _ _
  · cases step
    exact (quiet_writer c _ _).trans (signalFailure_quiet _)
  · cases step
    exact (quiet_writer c _ _).trans (signalFailure_quiet _)
  · cases step
    exact (quiet_writer c _ _).trans (signalFailure_quiet _)
  · cases step
  · cases step

theorem readerFails_quiet (step : readerFails c = some c') : Quiet c c' := by
  unfold readerFails at step
  split at step
  · cases step
    exact readFailed_quiet c
  · cases step
    exact readFailed_quiet c
  · cases step

/-- A reader that waits for room keeps what it hands over. -/
theorem notFull_handsOver (c : Connection Q) {wait : Bool → Reader} {handed : Request × List UInt8}
    (waits : ∀ granted, (wait granted).handsOver c.input = some handed) :
    (notFull c wait).input = c.input ∧ (notFull c wait).requestsServed = c.requestsServed ∧
      ∀ other, (notFull c wait).reader.handsOver c.input = some other → other = handed := by
  unfold notFull
  split
  · obtain ⟨ending, input, served⟩ := readFailed_ending c
    refine ⟨input, served, ?_⟩
    intro other hands
    rw [Ending.handsOver ending] at hands
    cases hands
  · refine ⟨rfl, rfl, ?_⟩
    intro other hands
    rw [waits] at hands
    exact (Option.some.inj hands).symm

/-- `read_one` follows the verdict on the bytes that are not read yet. -/
theorem readOne_verdict (server : Server) (c : Connection Q) :
    ((readOne server c).requestsServed = c.requestsServed ∧ (readOne server c).Ending) ∨
      ((readOne server c).requestsServed = c.requestsServed + 1 ∧ ∀ req behind,
        (readOne server c).reader.handsOver (readOne server c).input = some (req, behind) →
          verdict server c.input = .handled req behind) := by
  unfold readOne verdict
  rcases server.consume c.input with ⟨state, parsed, rest⟩
  -- an end of the stream is no request; an error and a long body are answered by the reader
  cases state with
  | eof => exact .inl ⟨rfl, .inl ⟨rfl, rfl⟩⟩
  | error => exact .inr ⟨rfl, nofun⟩
  | done =>
      dsimp only
      by_cases large :
          toSizeT (strtol (parsed.getHeader "Content-Length")) > server.contentLengthLimit
      · rw [if_pos large, if_pos large]
        exact .inr ⟨rfl, nofun⟩
      · rw [if_neg large, if_neg large]
        split
        · obtain ⟨input, served, hands⟩ := notFull_handsOver
            { c with input := rest, requestsServed := c.requestsServed + 1 } (fun granted =>
              show (Reader.continueRoom _ granted).handsOver rest = some _ from rfl)
          refine .inr ⟨served, ?_⟩
          intro req behind handed
          rw [input] at handed
          cases hands _ handed
          rfl
        · refine .inr ⟨rfl, ?_⟩
          intro req behind handed
          cases handed
          rfl

theorem readerStep_follows (follows : Follows server input served c)
    (step : readerStep server c = some c') : Follows server input served c' := by
  unfold readerStep at step
  split at step
  · -- the loop goes on, or ends
    rename_i loop
    cases step
    by_cases done : c.done = true
    · rw [if_pos done]
      obtain ⟨ending, input, served⟩ := readEnd_ending c
      exact follows.quiet (.ofReader input served (.inr ending) (by rw [readEnd_done]; exact id))
    · rw [if_neg done]
      refine ⟨follows.low, ?_, fun _ _ _ handed => by cases handed⟩
      intro same
      rcases follows.before same with ⟨parsing, -⟩ | ⟨-, isDone⟩ | ⟨_, endRoom⟩ | finished
      · rw [loop] at parsing
        cases parsing
      · exact absurd isDone done
      · rw [loop] at endRoom
        cases endRoom
      · rw [loop] at finished
        cases finished
  · rename_i parsing
    -- a request is read here and nowhere else
    cases step
    have low := follows.low
    rcases readOne_verdict server c with ⟨same, ending⟩ | ⟨next, hands⟩
    · refine ⟨by omega, fun _ => .inr ending, ?_⟩
      intro _ req behind handed
      rw [Ending.handsOver ending] at handed
      cases handed
    · refine ⟨by omega, by omega, ?_⟩
      intro same
      rcases follows.before (by omega) with ⟨-, unread⟩ | ending
      · rw [← unread]
        exact hands
      · have none := Ending.handsOver ending c.input
        rcases ending with ⟨loop, -⟩ | ⟨_, endRoom⟩ | finished
        · rw [parsing] at loop
          cases loop
        · rw [parsing] at endRoom
          cases endRoom
        · rw [parsing] at finished
          cases finished
  · rename_i reader
    cases step
    refine follows.onward (by rw [reader]; intro same; cases same)
      (not_ending reader rfl) rfl ?_
    intro handed
    rw [reader]
    exact id
  · rename_i req reader
    -- the body is taken from the stream
    cases step
    obtain ⟨input, same, hands⟩ := notFull_handsOver
      { c with input := c.input.drop req.contentLength } (fun granted =>
        show (Reader.replyRoom (withBody req c.input) granted).handsOver _ = some _ from rfl)
    refine follows.onward (by rw [reader]; intro same; cases same)
      (not_ending reader rfl) same ?_
    intro handed now
    rw [reader]
    rw [readRequestBody, input] at now
    rw [hands handed now]
    rfl
  · rename_i reader
    cases step
    refine follows.onward (by rw [reader]; intro same; cases same)
      (not_ending reader rfl) rfl ?_
    intro handed
    rw [reader]
    exact id
  · rename_i reader
    cases step
    exact follows.onward (by rw [reader]; intro same; cases same)
      (not_ending reader rfl) rfl (by intro _ handed; cases handed)
  · rename_i reader
    cases step
    exact follows.onward (by rw [reader]; intro same; cases same)
      (not_ending reader rfl) rfl (by intro _ handed; cases handed)
  · cases step
    exact follows.quiet (.ofReader rfl rfl (.inr (.inr (.inr rfl))) id)
  · cases step
  · cases step
  · cases step
  · cases step

/-- In every run, whatever the reply queue does, the request that is read next
gets to the handlers as the verdict has it, with that much of the stream left. -/
theorem handled_verdict {es : List Event} (unread : c.input = input) (parsing : c.reader = .parsing)
    (run : exec (step server) c es = some c') (next : c'.requestsServed = c.requestsServed + 1)
    {req : Request} {close : Bool} (handling : c'.reader = .handling req close) :
    verdict server input = .handled req c'.input := by
  have start : Follows server input c.requestsServed c :=
    ⟨Nat.le_refl _, fun _ => .inl ⟨parsing, unread⟩, fun same => by omega⟩
  have follows : Follows server input c.requestsServed c' := by
    refine exec_invariant ?_ start run
    intro s e s' follows moves
    cases e with
    | read => exact readerStep_follows follows moves
    | readFails => exact follows.quiet (readerFails_quiet moves)
    | write => exact follows.quiet (writerStep_quiet moves)
    | writeFails => exact follows.quiet (writerFails_quiet moves)
  apply follows.after next
  rw [handling]
  rfl

end

variable [BoundedQueue (Option Reply) Q]

/-- A request is framed as its `Content-Length` says, or rejected, just when the
length is no more than the bytes that are there and `strtol` reads it as it is;
and this is what becomes of it in every run of the connection. -/
theorem body_framing_iff {server : Server} (leaves : server.LeavesBody) {input rest : List UInt8}
    {parsed : Request} (consumed : server.consume input = (.done, parsed, rest)) :
    (Framed server.contentLengthLimit (parsed.findHeader "Content-Length") rest
        (verdict server input) ↔
      FramedWhen server.contentLengthLimit (parsed.findHeader "Content-Length") rest) ∧
    ∀ (c c' : Connection Q) (es : List Event) (req : Request) (close : Bool),
      c.input = input → c.reader = .parsing → exec (step server) c es = some c' →
      c'.requestsServed = c.requestsServed + 1 → c'.reader = .handling req close →
      verdict server input = .handled req c'.input := by
  refine ⟨verdict_framed_iff leaves consumed, ?_⟩
  intro c c' es req close unread parsing run next handling
  exact handled_verdict unread parsing run next handling

/-- The bytes of a request with these lengths. -/
def uploadHead (lengths : List String) : List UInt8 :=
  let fields := lengths.map fun length => "Content-Length: " ++ length ++ "\r\n"
  ("POST / HTTP/1.1\r\n" ++ String.join fields ++ "\r\n").toList.map fun c => UInt8.ofNat c.toNat

/-- A server with the default limit, and what its parser says about that request. -/
def uploads (lengths : List String) : Server where
  contentLengthLimit := 2 ^ 64 - 1
  consume input :=
    if (uploadHead lengths).isPrefixOf input then
      (.done, ⟨"POST", "/", "1.1",
        lengths.foldl (fun headers length => assignField headers "Content-Length" length) [], 0, []⟩,
        input.drop (uploadHead lengths).length)
    else (.error, ⟨"", "", "", [], 0, []⟩, input)
  handle _ _ resp := resp

theorem uploads_leaves (lengths : List String) : (uploads lengths).LeavesBody := by
  intro input
  show (if _ then _ else _ : ParserState × Request × List UInt8).2.1.content = []
  split
  · rfl
  · rfl

theorem uploads_consume (lengths : List String) (rest : List UInt8) :
    (uploads lengths).consume (uploadHead lengths ++ rest) = (.done, ⟨"POST", "/", "1.1",
      lengths.foldl (fun headers length => assignField headers "Content-Length" length) [], 0, []⟩,
      rest) := by
  have begins : (uploadHead lengths).isPrefixOf (uploadHead lengths ++ rest) = true :=
    List.isPrefixOf_iff_prefix.mpr (List.prefix_append _ _)
  show (if _ then _ else _) = _
  rw [if_pos begins, List.drop_left]

/-- Three bytes of four are the body. -/
theorem body_framing_three :
    (Framed (2 ^ 64 - 1) (some "3") [1, 2, 3, 4]
        (verdict (uploads ["3"]) (uploadHead ["3"] ++ [1, 2, 3, 4])) ↔
      FramedWhen (2 ^ 64 - 1) (some "3") [1, 2, 3, 4]) ∧
    ∀ (c c' : Connection (ListQueue (Option Reply))) (es : List Event) (req : Request)
      (close : Bool), c.input = uploadHead ["3"] ++ [1, 2, 3, 4] → c.reader = .parsing →
      exec (step (uploads ["3"])) c es = some c' →
      c'.requestsServed = c.requestsServed + 1 → c'.reader = .handling req close →
      verdict (uploads ["3"]) (uploadHead ["3"] ++ [1, 2, 3, 4]) = .handled req c'.input :=
  body_framing_iff (uploads_leaves ["3"]) (uploads_consume ["3"] [1, 2, 3, 4])

/-- Two lengths, a negative one, and ten bytes of which three come, all get to the
handlers. -/
theorem uploads_unframed :
    ¬ Framed (2 ^ 64 - 1) (some "5,5") [1, 2, 3, 4, 5]
        (verdict (uploads ["5", "5"]) (uploadHead ["5", "5"] ++ [1, 2, 3, 4, 5])) ∧
      ¬ Framed (2 ^ 64 - 1) (some "-1") [1, 2, 3]
        (verdict (uploads ["-1"]) (uploadHead ["-1"] ++ [1, 2, 3])) ∧
      ¬ Framed (2 ^ 64 - 1) (some "10") [1, 2, 3]
        (verdict (uploads ["10"]) (uploadHead ["10"] ++ [1, 2, 3])) := by
  refine ⟨?_, ?_, ?_⟩
  · intro framed
    obtain ⟨req, -, handled⟩ :=
      verdict_handled (uploads_leaves ["5", "5"]) (uploads_consume _ [1, 2, 3, 4, 5]) (by decide)
    exact framed.invalid "5,5" rfl (by decide) _ _ handled
  · intro framed
    obtain ⟨req, -, handled⟩ :=
      verdict_handled (uploads_leaves ["-1"]) (uploads_consume _ [1, 2, 3]) (by decide)
    exact framed.invalid "-1" rfl (by decide) _ _ handled
  · intro framed
    obtain ⟨req, -, handled⟩ :=
      verdict_handled (uploads_leaves ["10"]) (uploads_consume _ [1, 2, 3]) (by decide)
    exact framed.early 10 (by decide) (by decide) _ _ handled

end ActorNet.Http
