import Mathlib.Data.List.Basic

/-!
# Replacing keys in a stream

`buffer_replace` and `content_replace_data_sink_impl`. A buffer is the list of its
characters. Of a potential match, the pointers `begin` and `end` are kept as the
characters between them: the part of the key that is not matched yet.
-/

namespace ActorNet.Http

structure PotentialMatchEntry where
  rest : List Char
  pos : Nat
  deriving DecidableEq, Repr

/-- `buffer_replace`: the keys, in their braces, with their values, and the
potential matches. -/
structure BufferReplace where
  values : List (List Char × List Char)
  current : List PotentialMatchEntry
  deriving DecidableEq, Repr

/-- What one `replace` returns, and what it leaves of the buffer. -/
structure Replaced where
  replacer : BufferReplace
  out : List Char
  buf : List Char
  deriving DecidableEq, Repr

namespace BufferReplace

def init : BufferReplace where
  values := []
  current := []

def add (br : BufferReplace) (key value : List Char) : BufferReplace :=
  { br with values := br.values ++ [(['{', '{'] ++ key ++ ['}', '}'], value)] }

def getKey (br : BufferReplace) (pos : Nat) : List Char := (br.values.getD pos ([], [])).1

def getValue (br : BufferReplace) (pos : Nat) : List Char := (br.values.getD pos ([], [])).2

def isConsuming (br : BufferReplace) : Bool := !br.current.isEmpty

/-- The characters that the first potential match has consumed. -/
def getRemaining (br : BufferReplace) : List Char :=
  match br.current with
  | [] => []
  | entry :: _ =>
    let key := br.getKey entry.pos
    key.take (key.length - entry.rest.length)

/-- `find_braces`: two braces, or one that ends the buffer. -/
def findBraces : List Char → Option Nat
  | [] => none
  | [c] => if c = '{' then some 0 else none
  | c :: d :: s => if c = '{' ∧ d = '{' then some 0 else (findBraces (d :: s)).map (· + 1)

/-- The loop of `match`: the entries before the iterator, which go on matching,
and the ones from it on. -/
def matchLoop (br : BufferReplace) (buf : List Char) (kept : List PotentialMatchEntry) :
    List PotentialMatchEntry → Replaced
  | [] => { replacer := { br with current := kept }, out := [], buf := [] }
  | first :: entries =>
    let lenCompare := min buf.length first.rest.length
    if first.rest.take lenCompare ≠ buf.take lenCompare then
      -- the last entry gives back what was consumed
      if (kept ++ first :: entries).length = 1 then
        { replacer := { br with current := kept ++ entries }
          out := ({ br with current := kept ++ first :: entries } : BufferReplace).getRemaining
          buf := buf }
      else br.matchLoop buf kept entries
    else if first.rest.length = lenCompare then
      { replacer := { br with current := [] }
        out := br.getValue ((kept ++ first :: entries).head (by simp)).pos
        buf := buf.drop lenCompare }
    else
      br.matchLoop buf (kept ++ [{ first with rest := first.rest.drop lenCompare }]) entries

def match_ (br : BufferReplace) (buf : List Char) : Replaced :=
  if br.current.isEmpty then { replacer := br, out := [], buf := buf }
  else br.matchLoop buf [] br.current

/-- Every key is a potential match behind an opening brace. -/
def potentialMatches (values : List (List Char × List Char)) : List PotentialMatchEntry :=
  values.zipIdx.map fun value => { rest := value.1.1.drop 1, pos := value.2 }

def replace (br : BufferReplace) (buf : List Char) : Replaced :=
  if buf.isEmpty then { replacer := br, out := [], buf := [] }
  else if br.isConsuming then br.match_ buf
  else
    match findBraces buf with
    | some start =>
      { replacer := { br with current := br.current ++ potentialMatches br.values }
        out := buf.take start
        buf := buf.drop (start + 1) }
    | none => { replacer := br, out := buf, buf := [] }

/-- The loop of `put`, for so many rounds. -/
def repeatReplace : Nat → BufferReplace → List Char → Option (List Char × BufferReplace)
  | 0, _, _ => none
  | rounds + 1, br, buf =>
    let r := br.replace buf
    if r.buf.isEmpty then some (r.out, r.replacer)
    else (repeatReplace rounds r.replacer r.buf).map fun next => (r.out ++ next.1, next.2)

/-- `put`: what is written to the stream below. Two rounds for each character of
the buffer are enough. -/
def put (br : BufferReplace) (buf : List Char) : Option (List Char × BufferReplace) :=
  if buf.isEmpty then some ([], br) else repeatReplace (2 * buf.length + 2) br buf

def close (br : BufferReplace) : List Char := if br.isConsuming then br.getRemaining else []

/-- The buffers one after the other, and `close`. -/
def deliver (br : BufferReplace) : List (List Char) → Option (List Char)
  | [] => some br.close
  | buf :: bufs => do
    let (out, br) ← br.put buf
    let more ← br.deliver bufs
    return out ++ more

end BufferReplace

/-- `content_replace::transform`, given the request's `Host` header and protocol
name: the replacer of the new stream, or none where the stream stays as it is. -/
def transform (only host protocol extension : List Char) : Option BufferReplace :=
  if host = [] ∨ (only ≠ [] ∧ extension ≠ only) then none
  else some ((BufferReplace.init.add "Protocol".toList protocol).add "Host".toList host)

end ActorNet.Http
