import ActorNet.Lib.Bytes
import Mathlib.Data.List.Basic

/-!
# The parser of HTTP requests

The machine that Ragel makes of the grammar, as a table: what is done at a byte in a
state and which state is next. Tokens are collected by the string builder, which is
not of this library: a parameter here, with what the parser relies on.

Header names and values are byte strings. What the parser does not fill of a request
is left out.
-/

namespace ActorNet.Http.RequestParser

open Lib

/-! ## Characters -/

def sp : Byte := 32
def ht : Byte := 9
def cr : Byte := 13
def lf : Byte := 10

/-- `sp_ht`. -/
def isSpHt (c : Byte) : Bool := c == sp || c == ht

def isUpper (c : Byte) : Bool := decide (65 ≤ c.toNat ∧ c.toNat ≤ 90)

def isDigit (c : Byte) : Bool := decide (48 ≤ c.toNat ∧ c.toNat ≤ 57)

def isCtl (c : Byte) : Bool := decide (c.toNat ≤ 31 ∨ c.toNat = 127)

/-- `tchar`, in the ranges of the generated code. -/
def isTchar (c : Byte) : Bool :=
  let n := c.toNat
  decide (n = 33 ∨ (35 ≤ n ∧ n ≤ 39) ∨ (42 ≤ n ∧ n ≤ 43) ∨ (45 ≤ n ∧ n ≤ 46) ∨
    (48 ≤ n ∧ n ≤ 57) ∨ (65 ≤ n ∧ n ≤ 90) ∨ (94 ≤ n ∧ n ≤ 122) ∨ n = 124 ∨ n = 126)

/-- `HTTP/`. -/
def protocolByte (n : Fin 5) : Byte := [72, 84, 84, 80, 47].get n

/-! ## The table -/

/-- The first line of a header, or one that continues it. -/
inductive Line where
  | first
  | continued
  deriving DecidableEq, Repr

/-- `_fsm_cs`. In the order of the generated states: 0 to 5, 6 to 10 for `HTTP/`, 11 to
18, 19 to 23 for the value on the first line of a header, 24 to 28 for that on a
continued line, and 29. -/
inductive State where
  | error
  | start
  | operation
  | uriFirst
  | uri
  | uriCr
  | protocol (n : Fin 5)
  | major
  | point
  | minor
  | versionEnd
  | startLf
  | lineFirst
  | lastLf
  | field
  | valueFirst (line : Line)
  | value (line : Line)
  | trailing (line : Line)
  | crlf (line : Line)
  | ended (line : Line)
  | done
  deriving DecidableEq, Repr

inductive Action where
  | mark
  | storeMethod
  | storeUri
  | storeVersion
  | storeFieldName
  | noMarkStoreValue
  | checkpoint
  | assignField
  | extendField
  deriving DecidableEq, Repr

/-- What is done with a value once its line has ended. -/
def Line.store : Line → Action
  | .first => .assignField
  | .continued => .extendField

/-- The actions at a byte, and the next state; `none` is state 0. -/
def transition : State → Byte → Option (List Action × State)
  | .error, _ => none
  | .start, c => if isUpper c then some ([.mark], .operation) else none
  | .operation, c =>
      if c = sp then some ([.storeMethod], .uriFirst)
      else if isUpper c then some ([], .operation) else none
  | .uriFirst, c =>
      if c = cr then some ([.mark], .uriCr)
      else if c = sp then none else some ([.mark], .uri)
  | .uri, c =>
      if c = cr then some ([], .uriCr)
      else if c = sp then some ([.storeUri], .protocol 0) else some ([], .uri)
  | .uriCr, c =>
      if c = lf then none
      else if c = cr then some ([], .uriCr)
      else if c = sp then some ([.storeUri], .protocol 0) else some ([], .uri)
  | .protocol n, c =>
      if c = protocolByte n then some ([], if n = 4 then .major else .protocol (n + 1)) else none
  | .major, c => if isDigit c then some ([.mark], .point) else none
  | .point, c => if c = 46 then some ([], .minor) else none
  | .minor, c => if isDigit c then some ([], .versionEnd) else none
  | .versionEnd, c => if c = cr then some ([.storeVersion], .startLf) else none
  | .startLf, c => if c = lf then some ([], .lineFirst) else none
  | .lineFirst, c =>
      if c = cr then some ([], .lastLf)
      else if isTchar c then some ([.mark], .field) else none
  | .lastLf, c => if c = lf then some ([], .done) else none
  | .field, c =>
      if c = 58 then some ([.storeFieldName], .valueFirst .first)
      else if isTchar c then some ([], .field) else none
  | .valueFirst line, c =>
      if isSpHt c then some ([], .valueFirst line)
      else if c = cr then some ([.mark, .noMarkStoreValue], .crlf line)
      else if isCtl c then none else some ([.mark], .value line)
  | .value line, c =>
      if isSpHt c then some ([.checkpoint], .trailing line)
      else if c = cr then some ([.checkpoint, .noMarkStoreValue], .crlf line)
      else if isCtl c then none else some ([.checkpoint], .value line)
  | .trailing line, c =>
      if isSpHt c then some ([], .trailing line)
      else if c = cr then some ([.noMarkStoreValue], .crlf line)
      -- no checkpoint: the next byte makes one behind this
      else if isCtl c then none else some ([], .value line)
  | .crlf line, c => if c = lf then some ([], .ended line) else none
  | .ended line, c =>
      if isSpHt c then some ([line.store], .valueFirst .continued)
      else if c = cr then some ([line.store], .lastLf)
      else if isTchar c then some ([line.store, .mark], .field) else none
  | .done, _ => none

/-! ## The string builder -/

/-- `sstring_builder`; `sinceMark` stands for `_start`, as the bytes from there to `p`. -/
structure Builder where
  value : List Byte
  sinceMark : Option (List Byte)
  deriving DecidableEq, Repr

namespace Builder

/-- The value with the bytes since the mark. -/
def token (b : Builder) : List Byte := b.value ++ b.sinceMark.getD []

/-- `p` goes over a byte. -/
def advance (b : Builder) (c : Byte) : Builder :=
  { b with sinceMark := b.sinceMark.map (· ++ [c]) }

end Builder

/-- What the parser uses of `core/ragel.hh`: the guard of the builder, and `get_str`. -/
structure Ragel where
  /-- The guard is made at the start of a buffer. -/
  enter : Builder → Builder
  /-- `mark_start`, at `p` and at a null pointer. -/
  markStart : Builder → Builder
  unmark : Builder → Builder
  markEnd : Builder → Builder
  getStr : Builder → List Byte × Builder
  /-- It goes at the end; the bytes are what was not parsed of the buffer. -/
  leave : Builder → List Byte → Builder

/-- The mark is opened again for a value that is not empty, and the bytes since a mark
are kept. -/
structure Ragel.Resumes (g : Ragel) : Prop where
  enter_empty : ∀ b : Builder, b.value = [] → g.enter b = b
  enter_more : ∀ b : Builder, b.value ≠ [] → g.enter b = { b with sinceMark := some [] }
  markStart : ∀ b, g.markStart b = { b with sinceMark := some [] }
  unmark : ∀ b, g.unmark b = { b with sinceMark := none }
  markEnd : ∀ value bytes, g.markEnd ⟨value, some bytes⟩ = ⟨value ++ bytes, none⟩
  getStr : ∀ b, g.getStr b = (b.value, { b with value := [] })
  leave_open : ∀ value bytes rest,
    g.leave ⟨value, some bytes⟩ rest = ⟨value ++ bytes ++ rest, none⟩
  leave_closed : ∀ value rest, g.leave ⟨value, none⟩ rest = ⟨value, none⟩

/-! ## Requests -/

def toLower (c : Byte) : Byte := if isUpper c then c + 32 else c

/-- `case_insensitive_cmp`. -/
def sameName (a b : List Byte) : Bool := a.map toLower == b.map toLower

abbrev Headers := List (List Byte × List Byte)

namespace Headers

def find (headers : Headers) (name : List Byte) : Option (List Byte × List Byte) :=
  headers.find? fun header => sameName header.1 name

/-- `headers[name]`, with what is done to the value. -/
def update (headers : Headers) (name : List Byte) (f : List Byte → List Byte) : Headers :=
  match headers with
  | [] => [(name, f [])]
  | header :: headers =>
      if sameName header.1 name then (header.1, f header.2) :: headers
      else header :: update headers name f

/-- `assign_field`. -/
def assign (headers : Headers) (name value : List Byte) : Headers :=
  if (headers.find name).isSome then headers.update name (· ++ [44] ++ value)
  else headers.update name fun _ => value

/-- `extend_field`. -/
def extend (headers : Headers) (name value : List Byte) : Headers :=
  headers.update name (· ++ [32] ++ value)

end Headers

structure Request where
  method : List Byte
  url : List Byte
  version : List Byte
  headers : Headers
  deriving DecidableEq, Repr

/-! ## The parser -/

/-- `http_request_parser::state`. -/
inductive Outcome where
  | error
  | eof
  | done
  deriving DecidableEq, Repr

/-- `http_request_parser`; `stored` are the values of the header lines so far. -/
structure Parser where
  cs : State
  builder : Builder
  req : Request
  fieldName : List Byte
  value : List Byte
  state : Outcome
  stored : List (List Byte)
  deriving DecidableEq, Repr

/-- `init`. -/
def Parser.init : Parser := ⟨.start, ⟨[], none⟩, ⟨[], [], [], []⟩, [], [], .eof, []⟩

/-- `str`: the mark is ended and the value taken out. -/
def Parser.str (g : Ragel) (p : Parser) : List Byte × Builder := g.getStr (g.markEnd p.builder)

def Action.perform (g : Ragel) (p : Parser) : Action → Parser
  | .mark => { p with builder := g.markStart p.builder }
  | .storeMethod => { p with req.method := (p.str g).1, builder := (p.str g).2 }
  | .storeUri => { p with req.url := (p.str g).1, builder := (p.str g).2 }
  | .storeVersion => { p with req.version := (p.str g).1, builder := (p.str g).2 }
  | .storeFieldName => { p with fieldName := (p.str g).1, builder := (p.str g).2 }
  -- what came behind the last checkpoint is not in the value
  | .noMarkStoreValue =>
      { p with value := (g.getStr p.builder).1, builder := g.unmark (g.getStr p.builder).2 }
  | .checkpoint => { p with builder := g.markStart (g.markEnd p.builder) }
  | .assignField =>
      { p with req.headers := p.req.headers.assign p.fieldName p.value,
               stored := p.stored ++ [p.value] }
  | .extendField =>
      { p with req.headers := p.req.headers.extend p.fieldName p.value,
               stored := p.stored ++ [p.value] }

/-- The actions at a byte are done, and `p` goes over it. -/
def Parser.take (g : Ragel) (p : Parser) (actions : List Action) (s : State) (c : Byte) :
    Parser :=
  let p := actions.foldl (Action.perform g) p
  { p with builder := p.builder.advance c, cs := s }

/-- The machine over a buffer: where it stops, and whether `done` was reached. -/
def Parser.exec (g : Ragel) (p : Parser) : List Byte → Parser × List Byte × Bool
  | [] => (p, [], false)
  | c :: rest =>
      match transition p.cs c with
      | none => ({ p with cs := .error }, c :: rest, false)
      | some (actions, s) =>
          let p := p.take g actions s c
          if s = .done then (p, rest, true) else p.exec g rest

/-- `parse`; the result is `none` for a null pointer. `eof` is set in a buffer that is
empty. -/
def Parser.parse (g : Ragel) (p : Parser) (buf : List Byte) (eof : Bool) :
    Parser × Option (List Byte) :=
  let p := { p with builder := g.enter p.builder }
  let p := if buf = [] then p else { p with state := .error }
  let (p, rest, done) := p.exec g buf
  let (state, parsed) :=
    if !done then
      if eof && rest == [] then (Outcome.eof, some rest)
      else if rest ≠ [] then (.error, some rest)
      else (p.state, none)
    else (.done, some rest)
  ({ p with state, builder := g.leave p.builder rest }, parsed)

/-- Buffer after buffer until something is left over, as a stream is consumed. -/
def Parser.feed (g : Ragel) (p : Parser) : List (List Byte) → Parser × Option (List Byte)
  | [] => (p, none)
  | buf :: bufs =>
      match p.parse g buf false with
      | (p, none) => p.feed g bufs
      | (p, some rest) => (p, some (rest ++ bufs.flatten))

end ActorNet.Http.RequestParser
